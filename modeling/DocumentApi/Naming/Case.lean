import DocumentApi.Text.Case

/-!
# Camel and snake case

* `toCamel`: parts between low lines are joined, each but the first with a capital in front.
* `toPascal`: camel case with a capital in front.
* `fromCamel`: a low line before every ASCII capital but the first character, all in lower case.

Empty parts are dropped; a name of low lines alone stays as it is.
-/

namespace DocumentApi

/-- The parts of a text between low lines, empty ones included. -/
def splitLowLines : List Char → List (List Char)
  | [] => [[]]
  | c :: cs =>
    if c = '_' then [] :: splitLowLines cs
    else match splitLowLines cs with
      | part :: parts => (c :: part) :: parts
      | [] => [[c]]

/-- The parts of a name that are not empty. -/
def nameParts (cs : List Char) : List (List Char) :=
  (splitLowLines cs).filter (!·.isEmpty)

/-- A part with its first character in upper case. -/
def capitalize : List Char → List Char
  | [] => []
  | c :: cs => upperChar c ++ cs

/-- A part with its first character in lower case. -/
def decapitalize : List Char → List Char
  | [] => []
  | c :: cs => lowerChars [c] ++ cs

def toCamelChars (cs : List Char) : List Char :=
  match nameParts cs with
  | [] => cs
  | first :: rest => decapitalize first ++ rest.flatMap capitalize

def toPascalChars (cs : List Char) : List Char :=
  capitalize (toCamelChars cs)

/-- A low line before every ASCII capital. -/
def markCapitals : List Char → List Char
  | [] => []
  | c :: cs => if c.isUpper then '_' :: c :: markCapitals cs else c :: markCapitals cs

def fromCamelChars : List Char → List Char
  | [] => []
  | c :: cs => lowerChars (c :: markCapitals cs)

def toCamel (s : String) : String :=
  String.ofList (toCamelChars s.toList)

def toPascal (s : String) : String :=
  String.ofList (toPascalChars s.toList)

def fromCamel (s : String) : String :=
  String.ofList (fromCamelChars s.toList)

end DocumentApi
