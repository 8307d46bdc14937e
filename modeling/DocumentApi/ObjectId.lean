import DocumentApi.Error
import DocumentApi.Text.Hex

/-!
# Object ids

An id is 24 hexadecimal digits: 8 of the time in seconds, 10 of a random part and 6 of a counter that
advances before each draw, so ids sort by the second in which they were drawn and differ within it.
`IdSource.draw` fails when the time does not fit its digits; the counter has advanced by then.
-/

namespace DocumentApi

/-- What ids are made of: the time, the random part and the last counter. -/
structure IdSource where
  seconds : Int
  random : Nat
  counter : Nat
deriving DecidableEq, Repr, Inhabited

namespace IdSource

/-- The count of values that the counter takes. -/
def cycle : Nat := 0xffffff

/-- The source after a draw. -/
def advance (source : IdSource) : IdSource :=
  { source with counter := (source.counter + 1) % cycle }

/-- The digits of an id in the second `seconds`. -/
def idText (seconds random counter : Nat) : String :=
  String.ofList (hexDigits 8 seconds ++ hexDigits 10 random ++ hexDigits 6 counter)

/-- The next id. -/
def draw (source : IdSource) : Except Error String × IdSource :=
  let next := source.advance
  if 0 ≤ source.seconds ∧ source.seconds < 4294967296 then
    (.ok (idText source.seconds.toNat source.random next.counter), next)
  else (.error .tooLarge, next)

end IdSource

end DocumentApi
