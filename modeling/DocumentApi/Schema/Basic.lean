import DocumentApi.Naming.Case
import DocumentApi.Types.Synthesis

/-!
# Schemas

A schema lists the types of an api as clients see them.

* `TypeBody`: what a reference to a type leads to; `Registry.bodyOf?` follows a reference.
* `SchemaType`: an object, input or enum type of a schema, with the names that clients use.
* `Spelling`: whether the names of fields and arguments are kept or put into camel case.
-/

namespace DocumentApi

/-- What a type is made of. -/
inductive TypeBody where
  | scalar (s : Scalar)
  | enum (name : String) (members : Table Value)
  | shape (shape : TypeShape)
deriving Repr, Inhabited

/-- The type of the answer to a removal. -/
def successShape : TypeShape :=
  { name := "SuccessResponse"
    isInput := false
    description := some "Result of a remove operation"
    fields := [⟨"success", "success", .scalar .boolean, none, .none⟩] }

/-- The members of the enum of sort directions. -/
def sortDirectionMembers : Table Value :=
  [("ASC", .text "asc"), ("DESC", .text "desc")]

/-- What a reference leads to that is neither a list nor optional. -/
def Registry.bodyOf? (r : Registry) (types : TypeCache) : TypeRef → Option TypeBody
  | .scalar s => some (.scalar s)
  | .enum name =>
    (Table.find? types.enums name).map fun members => .enum name (canonicalMembers members)
  | .sortDirection => some (.enum "SortDirection" sortDirectionMembers)
  | .success => some (.shape successShape)
  | .model key => (types.shape? key).map .shape
  | .conditions owner field =>
    ((r.field? owner field).bind fun f => f.conditionsShape owner).map .shape
  | .list _ => none
  | .optional _ => none

/-- How the names of fields and arguments are spelled. -/
inductive Spelling where
  | verbatim
  | camel
deriving DecidableEq, Repr, Inhabited

/-- A part of a name after its first low line: with a capital in front and otherwise in lower case,
or a low line when it is empty. -/
def camelPart : List Char → List Char
  | [] => ['_']
  | c :: cs => upperChar c ++ lowerChars cs

/-- The spelling of a name. -/
def Spelling.spell (spelling : Spelling) (name : String) : String :=
  match spelling, splitLowLines name.toList with
  | camel, first :: rest => String.ofList (first ++ rest.flatMap camelPart)
  | _, _ => name

/-- A field of a type of a schema, with its arguments. -/
structure SchemaField where
  name : String
  type : TypeRef
  description : Option String := none
  args : Table TypeRef := []
deriving DecidableEq, Repr, Inhabited

/-- What a type of a schema consists of. -/
inductive SchemaBody where
  | object (fields : List SchemaField)
  | input (fields : List SchemaField)
  | enum (members : List String)
deriving DecidableEq, Repr, Inhabited

/-- A type of a schema. -/
structure SchemaType where
  name : String
  description : Option String
  body : SchemaBody
deriving DecidableEq, Repr, Inhabited

/-- Fields by name: of two that are spelled alike the later one stands in the place of the first. -/
def mergeFields (fields : List SchemaField) : List SchemaField :=
  (Table.ofPairs (fields.map fun f => (f.name, f))).map Prod.snd

namespace SchemaType

def fields (t : SchemaType) : List SchemaField :=
  match t.body with
  | .object fields => fields
  | .input fields => fields
  | .enum _ => []

def members (t : SchemaType) : List String :=
  match t.body with
  | .enum members => members
  | _ => []

/-- The types that the fields of a type and their arguments are made of. -/
def parts (t : SchemaType) : List TypeRef :=
  t.fields.flatMap fun f => f.type.core :: f.args.map fun arg => arg.2.core

/-- All names that stand inside a type. -/
def innerNames (t : SchemaType) : List String :=
  (t.fields.flatMap fun f => f.name :: Table.names f.args) ++ t.members

/-- A type of a schema; scalars are known to every client. -/
def ofBody? (spelling : Spelling) : TypeBody → Option SchemaType
  | .scalar _ => none
  | .enum name members => some ⟨name, none, .enum (Table.names members)⟩
  | .shape shape =>
    let fields := mergeFields (shape.fields.map fun f =>
      { name := spelling.spell f.name
        type := f.type
        description := f.description })
    some ⟨shape.name, shape.description, if shape.isInput then .input fields else .object fields⟩

end SchemaType

end DocumentApi
