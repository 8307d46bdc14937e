import DocumentApi.Text.Case

/-!
# Plural and singular

English rules on the end of a word, whatever its case.

* `plural`: `f` and `fe` become `ves` but in words of `keepsF`; `y` after no vowel becomes `ies`;
  sibilants take `es`, all else `s`.
* `singular`: the reverse for the common endings.
-/

namespace DocumentApi

/-- Whether a word ends in one of the endings. -/
def endsInAny (endings : List String) (cs : List Char) : Bool :=
  endings.any fun ending => ending.toList.isSuffixOf cs

/-- A word without its last `n` characters. -/
def dropEnd (n : Nat) (cs : List Char) : List Char :=
  cs.take (cs.length - n)

/-- Endings in `f` or `fe` that take a plain `s`. -/
def keepsF : List String :=
  ["roof", "chief", "belief", "proof", "chef", "safe", "cafe", "ff", "ffe"]

def vowelsBeforeY : List String :=
  ["ay", "ey", "iy", "oy", "uy"]

def sibilants : List String :=
  ["s", "x", "z", "ch", "sh"]

/-- The plural of a word. -/
def pluralChars (cs : List Char) : List Char :=
  let low := lowerChars cs
  if cs.isEmpty then cs
  else if !endsInAny keepsF low && endsInAny ["fe"] low then dropEnd 2 cs ++ ['v', 'e', 's']
  else if !endsInAny keepsF low && endsInAny ["f"] low then dropEnd 1 cs ++ ['v', 'e', 's']
  else if endsInAny ["y"] low && !endsInAny vowelsBeforeY low then dropEnd 1 cs ++ ['i', 'e', 's']
  else if endsInAny sibilants low then cs ++ ['e', 's']
  else cs ++ ['s']

/-- The singular of a plural word. -/
def singularChars (cs : List Char) : List Char :=
  let low := lowerChars cs
  if cs.isEmpty then cs
  else if endsInAny ["ies"] low && decide (3 < cs.length) then dropEnd 3 cs ++ ['y']
  else if endsInAny ["knives", "wives"] low then dropEnd 3 cs ++ ['f', 'e']
  else if endsInAny ["lves"] low && !endsInAny ["valves", "solves", "volves"] low then
    dropEnd 3 cs ++ ['f']
  else if endsInAny ["ses", "xes", "zes", "ches", "shes"] low then dropEnd 2 cs
  else if endsInAny ["s"] low && !endsInAny ["ss"] low then dropEnd 1 cs
  else cs

def plural (s : String) : String :=
  String.ofList (pluralChars s.toList)

def singular (s : String) : String :=
  String.ofList (singularChars s.toList)

end DocumentApi
