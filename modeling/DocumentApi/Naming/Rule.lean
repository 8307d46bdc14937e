import DocumentApi.Error
import DocumentApi.Naming.Case
import DocumentApi.Naming.Inflection

/-!
# Naming rules

`NameRule.applyTo` applies a rule to any value: a value that counts as not given stays as it is, the
case rules take the text of any other value, and the inflections take texts alone.
-/

namespace DocumentApi

/-- A rule that derives one name from another. -/
inductive NameRule where
  | plural
  | singular
  | toCamel
  | toPascal
  | fromCamel
deriving DecidableEq, Repr

namespace NameRule

/-- The name that a rule derives. -/
def apply : NameRule → String → String
  | plural => DocumentApi.plural
  | singular => DocumentApi.singular
  | toCamel => DocumentApi.toCamel
  | toPascal => DocumentApi.toPascal
  | fromCamel => DocumentApi.fromCamel

/-- Whether a rule takes texts alone. -/
def needsText : NameRule → Bool
  | plural | singular => true
  | toCamel | toPascal | fromCamel => false

/-- A rule applied to any value. -/
def applyTo (rule : NameRule) (v : Value) : Except Error Value :=
  if !v.truthy then .ok v
  else match v with
    | .text s => .ok (.text (rule.apply s))
    | _ => if rule.needsText then .error .missingPart else .ok (.text (rule.apply v.display))

end NameRule

end DocumentApi
