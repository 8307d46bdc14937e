import DocumentApi.Text.Case
import DocumentApi.Text.IdentifierTable

/-!
# Identifiers

An identifier starts with a letter-like character or a low line and goes on with those, digits and
combining marks. `isApiName` is the narrower rule for names in a GraphQL schema.
-/

namespace DocumentApi

def isIdentifierStart (c : Char) : Bool :=
  c == '_' || c.isAlpha || (128 ≤ c.toNat && inRanges identifierStartRanges c.toNat)

def isIdentifierContinue (c : Char) : Bool :=
  isIdentifierStart c || c.isDigit || (128 ≤ c.toNat && inRanges identifierContinueRanges c.toNat)

/-- Whether a text is an identifier. -/
def isIdentifier (s : String) : Bool :=
  match s.toList with
  | [] => false
  | c :: cs => isIdentifierStart c && cs.all isIdentifierContinue

/-- Whether a text may name a type, field, argument or enum value of a GraphQL schema. -/
def isApiName (s : String) : Bool :=
  match s.toList with
  | [] => false
  | c :: cs => (c == '_' || c.isAlpha) && cs.all fun c => c == '_' || c.isAlphanum

end DocumentApi
