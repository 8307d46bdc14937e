import DocumentApi.Model.Operator
import DocumentApi.Value.Basic

/-!
# Models

* `Field`: the description of one field of a model, after defaults.
* `Definition`: a model, top-level or embedded.
* `Definition.allows`: whether a model offers an api; embedded models offer none.

An embedded field refers to a model by name or to a definition itself; definitions are known by their
place in the list of all definitions, so two definitions of one name stay apart.
-/

namespace DocumentApi

/-- The scalar types of an api. -/
inductive Scalar where
  | string
  | int
  | float
  | boolean
  | id
deriving DecidableEq, Repr, Inhabited

def Scalar.name : Scalar → String
  | string => "String"
  | int => "Int"
  | float => "Float"
  | boolean => "Boolean"
  | id => "ID"

/-- A type that a field may be declared with outright: a scalar or lists of one. -/
inductive DeclaredType where
  | scalar (s : Scalar)
  | list (item : DeclaredType)
deriving DecidableEq, Repr, Inhabited

/-- A named enum: its members with the values that they are stored as. -/
structure EnumSpec where
  name : String
  members : Table Value
deriving Repr, Inhabited

/-- A relation to a top-level model, whose ids are kept in a field of the owner. -/
structure Relation where
  kind : Option String
  target : String
  linkField : String
deriving DecidableEq, Repr, Inhabited

/-- The kind of relation whose sub-objects are created with their owner. -/
def referencesManyKind : String := "referencesMany"

/-- The model embedded in a field. -/
inductive Embedding where
  /-- A model by its name, or by something that has none. -/
  | named (name : Option String)
  /-- A definition by its place in the list of all, with its name. -/
  | defined (place : Nat) (name : String)
deriving DecidableEq, Repr, Inhabited

def Embedding.name : Embedding → Option String
  | named name => name
  | defined _ name => some name

/-- The description of one field. -/
structure Field where
  name : String
  storageType : String := "text"
  excludedOnCreate : Bool := false
  excludedOnUpdate : Bool := false
  excludedOnOutput : Bool := false
  requiredOnCreate : Bool := true
  nullableOnOutput : Bool := false
  filterable : Bool := false
  sortable : Bool := false
  filterOperators : List Operator := []
  typeOverride : Option DeclaredType := none
  enumSpec : Option EnumSpec := none
  embedding : Option Embedding := none
  many : Bool := false
  relation : Option Relation := none
  description : Option String := none
deriving Repr, Inhabited

namespace Field

/-- The operators that a filter offers for a field. -/
def operators (f : Field) : List Operator :=
  if !f.filterOperators.isEmpty then f.filterOperators
  else if f.filterable then Operator.all else []

def isId (f : Field) : Bool :=
  f.name == "id"

def embeddedName (f : Field) : Option String :=
  f.embedding.bind Embedding.name

/-- Whether a field holds an array of embedded documents. -/
def isEmbeddedArray (f : Field) : Bool :=
  f.embedding.isSome && f.many

/-- Whether a field takes sub-objects that become documents of another model. -/
def isRelation (f : Field) : Bool :=
  match f.relation with
  | some relation => relation.kind == some referencesManyKind
  | none => false

/-- Whether a field holds a plain value: neither an embedded document nor a relation. -/
def isScalar (f : Field) : Bool :=
  f.embedding.isNone && !f.isRelation

end Field

/-- The apis that a model can offer. -/
inductive Api where
  | create
  | update
  | remove
  | findOne
  | findAll
  | paginate
deriving DecidableEq, Repr, Inhabited

namespace Api

def all : List Api :=
  [create, update, remove, findOne, findAll, paginate]

def name : Api → String
  | create => "create"
  | update => "update"
  | remove => "remove"
  | findOne => "findOne"
  | findAll => "findAll"
  | paginate => "paginate"

def ofName? (s : String) : Option Api :=
  all.find? fun api => api.name == s

end Api

/-- The apis that a model allows. -/
inductive ApiAccess where
  | all
  | only (apis : List Api)
deriving DecidableEq, Repr, Inhabited

/-- A model: a kind of stored document, or of documents embedded in others. -/
structure Definition where
  name : String
  fields : List Field
  access : ApiAccess
  textSearch : Bool
  collection : String
  embedded : Bool
  description : Option String
deriving Repr, Inhabited

namespace Definition

/-- Whether a model offers an api. -/
def allows (d : Definition) (api : Api) : Bool :=
  !d.embedded && match d.access with
    | .all => true
    | .only apis => apis.contains api

/-- Whether a model offers the api of a name; a model that allows all apis refuses no name. -/
def allowsName (d : Definition) (name : String) : Bool :=
  !d.embedded && match d.access with
    | .all => true
    | .only apis => apis.any fun api => api.name == name

/-- The collection that documents of a model are kept in. -/
def storedIn (d : Definition) : String :=
  if d.collection.isEmpty then d.name else d.collection

end Definition

end DocumentApi
