import DocumentApi.Schema.Reach
import DocumentApi.Text.Identifier

/-!
# Well-formed schemas

The types of a schema have names of their own, every name can be written in a request, and no type is
empty.

* `checkNames`: goes through the types in order and gives each reference its name.
* `SchemaType.isProper`: whether a type has fields or members, and no name that clients reserve.
-/

namespace DocumentApi

/-- What names stand for: a reference, or none for a root. -/
abbrev NameTable := Table (Option TypeRef)

/-- Whether a text may name a member of an enum in a request. -/
def isMemberName (name : String) : Bool :=
  isApiName name && !(["true", "false", "null"].contains name)

/-- Whether the members of an enum can be written in a request. -/
def TypeBody.hasMemberNames : TypeBody → Bool
  | enum _ members => (Table.names members).all isMemberName
  | _ => true

/-- Gives a type its name, which no other type may have. -/
def reserveName (bodyOf : TypeRef → Option TypeBody) (names : NameTable) (t : TypeRef) :
    Except Error NameTable :=
  match Table.find? names t.bare with
  | some owner => if owner = some t then .ok names else .error .typeNameTaken
  | none =>
    if isApiName t.bare && (bodyOf t).all TypeBody.hasMemberNames then
      .ok (names ++ [(t.bare, some t)])
    else .error .badRequest

/-- Gives the types that the fields of a type lead to their names, and checks those of the fields. -/
def reserveParts (bodyOf : TypeRef → Option TypeBody) (names : NameTable) (t : SchemaType) :
    Except Error NameTable := do
  let names ← t.parts.foldlM (reserveName bodyOf) names
  if t.innerNames.all isApiName then return names else throw .badRequest

/-- The names of the types that every schema has, scalars with texts and truth values among them. -/
def standardNames : List String :=
  ["String", "Boolean", "__Schema", "__Type", "__TypeKind", "__Field", "__InputValue", "__EnumValue",
    "__Directive", "__DirectiveLocation"]

/-- Whether a name stands for a type other than the standard one of that name. -/
def shadowsStandard (entry : String × Option TypeRef) : Bool :=
  standardNames.contains entry.1 &&
    entry.2 != some (.scalar .string) && entry.2 != some (.scalar .boolean)

/-- Whether a name is kept for the description of schemas. -/
def isReservedName (name : String) : Bool :=
  name.toList.take 2 == ['_', '_']

/-- Whether a type has fields or members, and no reserved names. -/
def SchemaType.isProper (t : SchemaType) : Bool :=
  !(t.fields.isEmpty && t.members.isEmpty) && (t.name :: t.innerNames).all (!isReservedName ·)

/-- Checks the types of a schema, the roots and those that they lead to. -/
def checkTypes (bodyOf : TypeRef → Option TypeBody) (roots : List String) (types : List SchemaType) :
    Except Error Unit := do
  let names ← types.foldlM (reserveParts bodyOf) (roots.map fun name => (name, none))
  if names.any shadowsStandard then throw .wrongKind
  else if types.all SchemaType.isProper then return
  else throw .badValue

end DocumentApi
