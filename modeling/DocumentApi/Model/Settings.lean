import DocumentApi.Model.Definition
import DocumentApi.Value.Views

/-!
# Models read from settings

Settings are named entries that describe a field or a model; besides values they hold declared types
and definitions.

* `Field.ofSettings`: a field from its settings, each missing one derived from the others.
* `Definition.make`: a model from its name, fields and options.
-/

namespace DocumentApi

/-- One entry of a description. -/
inductive Setting where
  | value (v : Value)
  | type (t : DeclaredType)
  | definition (place : Nat) (name : String)
deriving Repr, Inhabited

/-- Settings by name, in order. -/
abbrev Settings := Table Setting

namespace Setting

def truthy : Setting → Bool
  | value v => v.truthy
  | type _ => true
  | definition .. => true

def isNull : Setting → Bool
  | value v => v.isNull
  | _ => false

/-- The value of a setting that must be one. -/
def toValue : Setting → Except Error Value
  | value v => .ok v
  | _ => .error .wrongKind

/-- The text of a setting that must be one. -/
def toText : Setting → Except Error String
  | value (.text s) => .ok s
  | _ => .error .wrongKind

/-- The embedding that a setting describes. -/
def toEmbedding : Setting → Embedding
  | value (.text s) => .named (some s)
  | value (.object _ fields) => .named ((Table.find? fields "name").bind Value.asText?)
  | value (.member _ name _) => .named (some name)
  | value _ => .named none
  | type _ => .named none
  | definition place name => .defined place name

end Setting

namespace Settings

/-- A setting that is present and not null. -/
def given? (s : Settings) (key : String) : Option Setting :=
  match Table.find? s key with
  | some setting => if setting.isNull then none else some setting
  | none => none

/-- Whether a flag is set; a flag that is absent has its default. -/
def flag (s : Settings) (key : String) (default : Bool) : Bool :=
  match Table.find? s key with
  | some setting => setting.truthy
  | none => default

def required (s : Settings) (key : String) : Except Error Setting :=
  match Table.find? s key with
  | some setting => .ok setting
  | none => .error .missingKey

/-- A text that may be absent or null. -/
def text? (s : Settings) (key : String) : Except Error (Option String) :=
  match given? s key with
  | some setting => setting.toText.map some
  | none => .ok none

/-- The value of a setting, null when it is absent. -/
def valueOf (s : Settings) (key : String) : Except Error Value :=
  match Table.find? s key with
  | some setting => setting.toValue
  | none => .ok .null

end Settings

/-- The members of an enum from a table or a sequence of pairs. -/
def EnumSpec.ofSettings (setting : Setting) : Except Error EnumSpec := do
  match setting with
  | .value (.record fields) =>
    match Table.find? fields "name" with
    | none => throw .missingKey
    | some (.text name) =>
      let members := Fields.get fields "valueMap"
      let members := if members.truthy then members else Fields.get fields "value_map"
      let members := if members.truthy then members else .record []
      return ⟨name, ← members.toFields⟩
    | some _ => throw .wrongKind
  | _ => throw .wrongKind

/-- A relation from its kind, target model and link field. -/
def Relation.ofSettings (setting : Setting) : Except Error Relation := do
  match setting with
  | .value (.record fields) =>
    let kind := match Table.find? fields "kind" with
      | some v => v.asText?
      | none => some referencesManyKind
    match Table.find? fields "targetModel", Table.find? fields "linkField" with
    | some (.text target), some (.text linkField) => return ⟨kind, target, linkField⟩
    | some _, some _ => throw .wrongKind
    | _, _ => throw .missingKey
  | _ => throw .missingPart

/-- Names read by `ofName?`, all refused names reported together. -/
def readNames {α : Type} (ofName? : String → Option α) (refuse : List String → Error)
    (items : List Value) : Except Error (List α) :=
  let unknown := items.filter fun item => (item.asText?.bind ofName?).isNone
  if unknown.isEmpty then .ok (items.filterMap fun item => item.asText?.bind ofName?)
  else match unknown.mapM Value.asText? with
    | some names => .error (refuse names)
    | none => .error .wrongKind

/-- The operators that a field declares. -/
def readOperators (field : String) (v : Value) : Except Error (List Operator) := do
  readNames Operator.ofName? (.operatorsUnknown field) (← v.iterateGiven)

/-- The apis that a model allows; a star allows all. -/
def readAccess (model : String) (v : Value) : Except Error ApiAccess := do
  match v with
  | .text "*" => return .all
  | _ => return .only (← readNames Api.ofName? (.apisUnknown model) (← v.iterate))

/-- A declared type, or none for null. -/
def readOverride : Option Setting → Except Error (Option DeclaredType)
  | none => .ok none
  | some (.type t) => .ok (some t)
  | some setting => if setting.isNull then .ok none else .error .wrongKind

/-- The storage type of a field whose settings give none. -/
def defaultStorageType (s : Settings) (embedded related : Bool) : String :=
  if embedded then if Settings.flag s "many" true then "array" else "object"
  else if related then "array"
  else "text"

/-- A field from its settings. An embedded array need not be given on create, for an empty one is a
valid payload. -/
def Field.ofSettings (s : Settings) : Except Error Field := do
  let enumSpec ← (Settings.given? s "enumSpec").mapM EnumSpec.ofSettings
  let relation ← (Settings.given? s "relationSpec").mapM Relation.ofSettings
  let embedding := (Settings.given? s "embeddedModel").map Setting.toEmbedding
  let storageType ← match Settings.given? s "storageType" with
    | some setting => setting.toText
    | none => pure (defaultStorageType s embedding.isSome relation.isSome)
  let isArray := storageType == "array"
  let name ← (← Settings.required s "name").toText
  let filterOperators ← readOperators name (← Settings.valueOf s "filterOperators")
  return {
    name
    storageType
    excludedOnCreate := Settings.flag s "excludedOnCreate" false
    excludedOnUpdate := Settings.flag s "excludedOnUpdate" false
    excludedOnOutput := Settings.flag s "excludedOnOutput" false
    requiredOnCreate := Settings.flag s "requiredOnCreate" !(embedding.isSome && isArray)
    nullableOnOutput := Settings.flag s "nullableOnOutput" false
    filterable := Settings.flag s "filterable" false || !filterOperators.isEmpty
    sortable := Settings.flag s "sortable" false
    filterOperators
    typeOverride := ← readOverride (Table.find? s "typeOverride")
    enumSpec
    embedding
    many := Settings.flag s "many" isArray
    relation
    description := ← Settings.text? s "description" }

/-- A field as a model's settings hold it: described already, by settings, or by neither. -/
inductive FieldSource where
  | field (f : Field)
  | settings (s : Settings)
  | other
deriving Inhabited

def FieldSource.toField : FieldSource → Except Error Field
  | field f => .ok f
  | settings s => Field.ofSettings s
  | other => .error .missingPart

/-- A model from its name, fields and options, the option names given by `key`. -/
def Definition.make (name : String) (fields : List Field) (options : Settings)
    (access textSearch : String) : Except Error Definition := do
  let apis ← match Table.find? options access with
    | some setting => setting.toValue
    | none => pure (.text "*")
  let collection ← Settings.text? options "collection"
  let description ← Settings.text? options "description"
  return {
    name
    fields
    access := ← readAccess name apis
    textSearch := Settings.flag options textSearch false
    collection := collection.getD name
    embedded := Settings.flag options "embedded" false
    description }

/-- A model from its settings and the fields among them. -/
def Definition.ofSettings (s : Settings) (fields : Except Error (List FieldSource)) :
    Except Error Definition := do
  let name ← (← Settings.required s "name").toText
  let fields ← (← fields).mapM FieldSource.toField
  Definition.make name fields s "allowedApis" "enableTextSearch"

/-- The options of a model that is declared by a call. -/
def definitionOptions : List String :=
  ["allowed_apis", "enable_text_search", "collection", "embedded", "description"]

/-- A model declared by a call with a name, fields and options. -/
def Definition.declare (name : String) (fields : List Field) (options : Settings) :
    Except Error Definition :=
  if (Table.names options).all definitionOptions.contains then
    Definition.make name fields options "allowed_apis" "enable_text_search"
  else .error .wrongKind

end DocumentApi
