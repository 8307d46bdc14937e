import DocumentApi.Model.Registry
import DocumentApi.Naming.Case

/-!
# Types of an api

* `TypeKind`: the six types that are derived from a model.
* `TypeRef`: a reference to a type, by model and kind or by name; `TypeRef.written` writes it.
* `TypeShape`: the fields of an output or input type, with their types and defaults.
-/

namespace DocumentApi

/-- The types that are derived from a model. -/
inductive TypeKind where
  | output
  | create
  | update
  | pagination
  | filter
  | sort
deriving DecidableEq, Repr, Inhabited

namespace TypeKind

def all : List TypeKind :=
  [output, create, update, pagination, filter, sort]

def name : TypeKind → String
  | output => "output"
  | create => "create"
  | update => "update"
  | pagination => "pagination"
  | filter => "filter"
  | sort => "sort"

def ofName? (s : String) : Option TypeKind :=
  all.find? fun kind => kind.name == s

/-- The name of a model's type of a kind. -/
def typeName (model : String) : TypeKind → String
  | output => model
  | create => "Create" ++ model ++ "Input"
  | update => "Update" ++ model ++ "Input"
  | pagination => model ++ "Pagination"
  | filter => model ++ "Filter"
  | sort => model ++ "Sort"

end TypeKind

/-- A model's type of a kind. -/
structure TypeKey where
  model : String
  kind : TypeKind
deriving DecidableEq, Repr, Inhabited

def TypeKey.name (key : TypeKey) : String :=
  key.kind.typeName key.model

/-- A reference to a type. -/
inductive TypeRef where
  | scalar (s : Scalar)
  | enum (name : String)
  | sortDirection
  /-- The result of a removal. -/
  | success
  | model (key : TypeKey)
  /-- The conditions that a filter takes on a field. -/
  | conditions (owner field : String)
  | list (item : TypeRef)
  | optional (t : TypeRef)
deriving DecidableEq, Repr, Inhabited

/-- The name of the type of conditions on a field. -/
def conditionsName (model field : String) : String :=
  model ++ toPascal field ++ "Filter"

/-- The reference of a declared type. -/
def DeclaredType.ref : DeclaredType → TypeRef
  | scalar s => .scalar s
  | list item => .list item.ref

/-- A declared type without the marks of values that are never null. -/
def DeclaredType.plainName : DeclaredType → String
  | scalar s => s.name
  | list item => "[" ++ item.plainName ++ "]"

namespace TypeRef

mutual

/-- The written form of a type; a mark says that its values are never null. -/
def written : TypeRef → String
  | optional t => bare t
  | scalar s => s.name ++ "!"
  | enum name => name ++ "!"
  | sortDirection => "SortDirection!"
  | success => "SuccessResponse!"
  | model key => key.name ++ "!"
  | conditions owner field => conditionsName owner field ++ "!"
  | list item => "[" ++ written item ++ "]!"
termination_by structural t => t

/-- The written form without the outer mark. -/
def bare : TypeRef → String
  | optional t => bare t
  | scalar s => s.name
  | enum name => name
  | sortDirection => "SortDirection"
  | success => "SuccessResponse"
  | model key => key.name
  | conditions owner field => conditionsName owner field
  | list item => "[" ++ written item ++ "]"
termination_by structural t => t

end

/-- The type that lists and optional types are made of. -/
def core : TypeRef → TypeRef
  | list item => item.core
  | optional t => t.core
  | t => t

end TypeRef

/-- The value of a field that is left out. -/
inductive FieldDefault where
  /-- The field may not be left out. -/
  | none
  | null
  | unset
deriving DecidableEq, Repr, Inhabited

/-- A field of a type: its name, the attribute that holds it, and its type. -/
structure TypeField where
  name : String
  attr : String
  type : TypeRef
  description : Option String
  default : FieldDefault
deriving DecidableEq, Repr, Inhabited

/-- An output or input type. -/
structure TypeShape where
  name : String
  isInput : Bool
  description : Option String
  fields : List TypeField
deriving DecidableEq, Repr, Inhabited

end DocumentApi
