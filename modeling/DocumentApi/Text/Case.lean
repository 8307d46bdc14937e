import DocumentApi.Text.CaseTable

/-!
# Case of text

* `lowerText`, `upperText`: the full case mappings, in which one character may become several.
* A capital sigma at the end of a word becomes a final sigma: a cased character stands before it
  and none after it, case-ignorable characters skipped.
* `foldAscii`: the lower case of ASCII letters alone.
-/

namespace DocumentApi

/-- Whether a code point lies in one of the ranges. -/
def inRanges (ranges : List (Nat × Nat)) (n : Nat) : Bool :=
  ranges.any fun (first, last) => first ≤ n && n ≤ last

/-- The code point that a run maps `n` to. -/
def mapRuns (runs : List (Nat × Nat × Nat × Int)) (n : Nat) : Nat :=
  match runs.find? fun (first, last, step, _) => first ≤ n && n ≤ last && (n - first) % step == 0 with
  | some (_, _, _, shift) => ((n : Int) + shift).toNat
  | none => n

/-- A full case mapping beyond ASCII. -/
def mapCase (specials : List (Nat × List Nat)) (runs : List (Nat × Nat × Nat × Int)) (c : Char) :
    List Char :=
  match specials.lookup c.toNat with
  | some ns => ns.map Char.ofNat
  | none => [Char.ofNat (mapRuns runs c.toNat)]

def lowerChar (c : Char) : List Char :=
  if c.toNat < 128 then [c.toLower] else mapCase lowerSpecials lowerRuns c

def upperChar (c : Char) : List Char :=
  if c.toNat < 128 then [c.toUpper] else mapCase upperSpecials upperRuns c

/-- Whether the first character that is not case-ignorable is cased. -/
def startsCased (cs : List Char) : Bool :=
  match cs.dropWhile fun c => inRanges caseIgnorableRanges c.toNat with
  | c :: _ => inRanges casedRanges c.toNat
  | [] => false

/-- The lower case of text after the characters `before`, nearest first. -/
def lowerFrom (before : List Char) : List Char → List Char
  | [] => []
  | c :: rest =>
    let here := if c = 'Σ' then
        [if startsCased before && !startsCased rest then 'ς' else 'σ']
      else lowerChar c
    here ++ lowerFrom (c :: before) rest

def lowerChars (cs : List Char) : List Char :=
  lowerFrom [] cs

def upperChars (cs : List Char) : List Char :=
  cs.flatMap upperChar

def lowerText (s : String) : String :=
  String.ofList (lowerChars s.toList)

def upperText (s : String) : String :=
  String.ofList (upperChars s.toList)

/-- The lower case of ASCII letters, all other characters kept. -/
def foldAscii (cs : List Char) : List Char :=
  cs.map Char.toLower

end DocumentApi
