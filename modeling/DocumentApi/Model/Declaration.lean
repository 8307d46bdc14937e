import DocumentApi.Model.Settings

/-!
# Fields declared by calls

A `Declaration` is one of the five ways to declare a field; `Declaration.call` applies it to
positional and named arguments.

* `field`: a plain field. `nullable` stands for an output that may be null and an input that may be
  left out; flags that are given win over it.
* `idField`: the identifier, excluded on create.
* `enumField`, `embedded`: a field of a named enum, and of embedded documents.
* `referencesMany`: sub-objects that are created with their owner; the field is on the create input
  alone.
-/

namespace DocumentApi

/-- The ways to declare a field. -/
inductive Declaration where
  | field
  | idField
  | enumField
  | embedded
  | referencesMany
deriving DecidableEq, Repr

/-- The parameters of a declaration that take arguments by position. -/
structure Parameters where
  names : List String
  required : Nat
  positionalOnly : Bool

/-- Binds arguments to parameters by position and by name; the named arguments that are left over
come second. -/
def Parameters.bind (p : Parameters) (args : List Setting) (named : Settings) :
    Except Error (Settings × Settings) :=
  let byPosition := p.names.zip args
  let taken := Table.names byPosition
  let byName := if p.positionalOnly then [] else named.filter fun arg => p.names.contains arg.1
  let rest := if p.positionalOnly then named else named.filter fun arg => !p.names.contains arg.1
  let bound := byPosition ++ byName
  if p.names.length < args.length then .error .wrongKind
  else if byName.any fun arg => taken.contains arg.1 then .error .wrongKind
  else if (p.names.take p.required).all fun name => Table.has bound name then .ok (bound, rest)
  else .error .wrongKind

/-- The flags and properties that named arguments set. -/
def Field.adjust (f : Field) (name : String) (setting : Setting) : Except Error Field :=
  match name with
  | "excluded_on_create" => .ok { f with excludedOnCreate := setting.truthy }
  | "excluded_on_update" => .ok { f with excludedOnUpdate := setting.truthy }
  | "excluded_on_output" => .ok { f with excludedOnOutput := setting.truthy }
  | "required_on_create" => .ok { f with requiredOnCreate := setting.truthy }
  | "nullable_on_output" => .ok { f with nullableOnOutput := setting.truthy }
  | "filterable" => .ok { f with filterable := setting.truthy }
  | "sortable" => .ok { f with sortable := setting.truthy }
  | "many" => .ok { f with many := setting.truthy }
  | "filter_operators" => .ok f
  | "type_override" => do return { f with typeOverride := ← readOverride (some setting) }
  | "embedded_model" =>
    .ok { f with embedding := if setting.isNull then none else some setting.toEmbedding }
  | "enum_spec" =>
    if setting.isNull then .ok { f with enumSpec := none }
    else do return { f with enumSpec := some (← EnumSpec.ofSettings setting) }
  | "relation" => if setting.isNull then .ok { f with relation := none } else .error .wrongKind
  | "description" => do return { f with description := ← Settings.text? [(name, setting)] name }
  | _ => .error .wrongKind

/-- A field adjusted by named arguments, none of which may be among those `fixed` already. -/
def Field.adjustAll (f : Field) (fixed : List String) (named : Settings) : Except Error Field := do
  if named.any fun arg => fixed.contains arg.1 then throw .wrongKind
  let f ← named.foldlM (fun f arg => f.adjust arg.1 arg.2) f
  let operators ← readOperators f.name (← Settings.valueOf named "filter_operators")
  return { f with filterOperators := operators, filterable := f.filterable || !operators.isEmpty }

/-- A field that may be null and left out. -/
def Field.whenNullable (f : Field) (nullable : Bool) : Field :=
  if nullable then { f with nullableOnOutput := true, requiredOnCreate := false } else f

namespace Declaration

def parameters : Declaration → Parameters
  | field => ⟨["name", "storage_type"], 1, true⟩
  | idField => ⟨["name"], 0, false⟩
  | enumField => ⟨["name", "enum_name", "value_map"], 3, false⟩
  | embedded => ⟨["name", "model"], 2, false⟩
  | referencesMany => ⟨["name", "target_model", "link_field"], 3, false⟩

/-- The name of the model that a relation points to. -/
def targetName (setting : Setting) : Except Error String :=
  match setting.toEmbedding.name with
  | some name => .ok name
  | none => .error .missingPart

/-- The field that a declaration describes. -/
def call (d : Declaration) (args : List Setting) (named : Settings) : Except Error Field := do
  let (bound, rest) ← d.parameters.bind args named
  let text (key default : String) : Except Error String :=
    match Table.find? bound key with
    | some setting => setting.toText
    | none => .ok default
  let nullable := Settings.flag rest "nullable" false
  let options := Table.remove rest "nullable"
  match d with
  | field =>
    let name ← text "name" ""
    let storageType ← text "storage_type" "text"
    (Field.whenNullable { name, storageType } nullable).adjustAll [] options
  | idField =>
    let name ← text "name" "id"
    let f : Field :=
      { name, storageType := "id", typeOverride := some (.scalar .id), excludedOnCreate := true }
    f.adjustAll [] rest
  | enumField =>
    let name ← text "name" ""
    let members ← (← Settings.valueOf bound "value_map").toFields
    let spec : EnumSpec := ⟨← text "enum_name" "", members⟩
    (Field.whenNullable { name, enumSpec := some spec } nullable).adjustAll ["enum_spec"] options
  | embedded =>
    let name ← text "name" ""
    let model ← Settings.required bound "model"
    let many := Settings.flag rest "many" true
    let f : Field :=
      { name
        storageType := if many then "array" else "object"
        requiredOnCreate := !(many && !nullable)
        embedding := if model.isNull then none else some model.toEmbedding
        many }
    (f.whenNullable nullable).adjustAll ["embedded_model"] (Table.remove options "many")
  | referencesMany =>
    let name ← text "name" ""
    let target ← targetName (← Settings.required bound "target_model")
    let f : Field :=
      { name
        storageType := "array"
        requiredOnCreate := false
        excludedOnUpdate := true
        excludedOnOutput := true
        relation := some ⟨some referencesManyKind, target, ← text "link_field" ""⟩ }
    f.adjustAll ["relation"] rest

end Declaration

end DocumentApi
