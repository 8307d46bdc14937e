import DocumentApi.Text.Case

/-!
# Patterns

A pattern matches a text as a whole: a percent sign stands for any characters, a low line for one, and
a backslash before either, or before another backslash, for the character itself.

* `likePattern`: the pattern for texts that contain a text, whose special characters are escaped.
* `likeMatches`: whether a pattern matches a text.
-/

namespace DocumentApi

/-- A part of a pattern. -/
inductive LikeToken where
  | many
  | one
  | literal (c : Char)
deriving DecidableEq, Repr

/-- The parts of a written pattern. -/
def readLike : List Char → List LikeToken
  | [] => []
  | '%' :: cs => .many :: readLike cs
  | '_' :: cs => .one :: readLike cs
  | '\\' :: c :: cs => .literal c :: readLike cs
  | c :: cs => .literal c :: readLike cs

/-- Whether some end of a text passes a test. -/
def anyEnd (p : List Char → Bool) : List Char → Bool
  | [] => p []
  | c :: cs => p (c :: cs) || anyEnd p cs

/-- Whether a pattern matches a text. -/
def likeMatches : List LikeToken → List Char → Bool
  | [], cs => cs.isEmpty
  | .many :: ts, cs => anyEnd (likeMatches ts) cs
  | .one :: ts, cs => match cs with
    | _ :: rest => likeMatches ts rest
    | [] => false
  | .literal c :: ts, cs => match cs with
    | d :: rest => c == d && likeMatches ts rest
    | [] => false

/-- A character as it stands for itself in a pattern. -/
def escapeLike (c : Char) : List Char :=
  if c = '\\' || c = '%' || c = '_' then ['\\', c] else [c]

/-- The pattern of the texts that contain a text. -/
def likePattern (cs : List Char) : List Char :=
  '%' :: cs.flatMap escapeLike ++ ['%']

/-- Whether a text matches a pattern, ASCII letters of both in lower case. -/
def likeIgnoringCase (pattern cs : List Char) : Bool :=
  likeMatches (readLike (foldAscii pattern)) (foldAscii cs)

/-- Whether a text occurs in another. -/
def hasInfix (needle cs : List Char) : Bool :=
  anyEnd needle.isPrefixOf cs

end DocumentApi
