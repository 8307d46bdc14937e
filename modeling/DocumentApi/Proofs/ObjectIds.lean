import DocumentApi.ObjectId
import DocumentApi.Proofs.Steps
import DocumentApi.Proofs.Text.Hexadecimal
import Mathlib.Algebra.Ring.Int.Defs
import Mathlib.Data.String.Basic

/-!
# Ids drawn in a row

The time and the random part may change from one draw to the next in any way; only the counter is
carried from draw to draw.

* `drawAll_eq`: the ids of a run of draws, by the place of each draw in the run.
* `idText_counter_inj`, `idText_lt`: what two ids have in common if they are equal, and when one is
  smaller.
* `drawAll_ids`: every id of a run has 24 digits, ids within one cycle of the counter differ, and
  ids of an earlier second are smaller.
-/

namespace DocumentApi

namespace IdSource

/-! ## The text of an id -/

section Text

variable {seconds later random other counter next : Nat}

theorem toList_idText (seconds random counter : Nat) : (idText seconds random counter).toList =
    hexDigits 8 seconds ++ hexDigits 10 random ++ hexDigits 6 counter :=
  String.toList_ofList

theorem length_idText (seconds random counter : Nat) :
    (idText seconds random counter).length = 24 := by
  rw [← String.length_toList, toList_idText]
  simp

theorem isLowerHex_of_mem_idText {c : Char} (h : c ∈ (idText seconds random counter).toList) :
    isLowerHex c = true := by
  rw [toList_idText, List.mem_append, List.mem_append] at h
  rcases h with (h | h) | h <;> exact isLowerHex_of_mem_hexDigits h

/-- The counters of equal ids are equal, whatever their times and random parts. -/
theorem idText_counter_inj (hcounter : counter < 16 ^ 6) (hnext : next < 16 ^ 6)
    (h : idText seconds random counter = idText later other next) : counter = next := by
  have hdigits := congrArg String.toList h
  rw [toList_idText, toList_idText] at hdigits
  exact hexDigits_inj hcounter hnext (List.append_inj_right' hdigits (by simp))

/-- An id of an earlier second is smaller, whatever the random parts and the counters are. -/
theorem idText_lt (hlater : later < 16 ^ 8) (h : seconds < later)
    (random other counter next : Nat) :
    idText seconds random counter < idText later other next := by
  rw [String.lt_iff_toList_lt, toList_idText, toList_idText, List.append_assoc, List.append_assoc]
  exact lt_append_of_lt (by simp) (hexDigits_lt hlater h) _ _

end Text

/-! ## Runs of draws -/

/-- The second and the random part that a draw finds. -/
structure Moment where
  seconds : Int
  random : Nat
deriving DecidableEq, Repr

/-- The second of a moment fits its digits. -/
def Moment.Fits (m : Moment) : Prop := 0 ≤ m.seconds ∧ m.seconds < 2 ^ 32

/-- Draws an id at a moment. -/
def drawAt (m : Moment) : Step IdSource String := fun source =>
  draw { source with seconds := m.seconds, random := m.random }

/-- Draws an id at each of the moments. -/
def drawAll (moments : List Moment) : Step IdSource (List String) :=
  Step.each drawAt moments

/-- The id that is drawn at a moment with the counter at a value. -/
def idAt (m : Moment) (counter : Nat) : String :=
  idText m.seconds.toNat m.random counter

theorem drawAt_eq {m : Moment} (h : m.Fits) (source : IdSource) :
    drawAt m source = (.ok (idAt m ((source.counter + 1) % cycle)),
      ⟨m.seconds, m.random, (source.counter + 1) % cycle⟩) := by
  unfold drawAt draw
  exact if_pos h

/-- The counter has advanced once more at each draw of a run. -/
theorem drawAll_eq {moments : List Moment} (h : ∀ m ∈ moments, m.Fits) (source : IdSource) :
    ∃ after, drawAll moments source =
      (.ok (moments.mapIdx fun k m => idAt m ((source.counter + k + 1) % cycle)), after) := by
  induction moments generalizing source with
  | nil => exact ⟨source, rfl⟩
  | cons m moments ih =>
    obtain ⟨hm, hrest⟩ := List.forall_mem_cons.mp h
    obtain ⟨after, hafter⟩ := ih hrest ⟨m.seconds, m.random, (source.counter + 1) % cycle⟩
    have hcounter : ∀ k, ((source.counter + 1) % cycle + k + 1) % cycle =
        (source.counter + (k + 1) + 1) % cycle := by
      intro k
      unfold cycle
      omega
    simp only [hcounter] at hafter
    rw [List.mapIdx_cons]
    exact ⟨after, (Step.bind_of_ok (drawAt_eq hm source)).trans
      ((Step.bind_of_ok hafter).trans rfl)⟩

/-- In any run of draws at seconds that fit their digits, every id has 24 hexadecimal digits in
lower case; two ids drawn fewer than `0xffffff` draws apart differ; and an id of an earlier second is
smaller than one of a later second. -/
theorem drawAll_ids {moments : List Moment} (h : ∀ m ∈ moments, m.Fits) (source : IdSource) :
    ∃ ids after, drawAll moments source = (.ok ids, after) ∧ ids.length = moments.length ∧
      (∀ id ∈ ids, id.length = 24 ∧ ∀ c ∈ id.toList, isLowerHex c) ∧
      ∀ (i j : Nat) (a b : String), ids[i]? = some a → ids[j]? = some b →
        (i < j → j - i < 0xffffff → a ≠ b) ∧
        ∀ m n : Moment, moments[i]? = some m → moments[j]? = some n → m.seconds < n.seconds →
          a < b := by
  obtain ⟨after, hdrawn⟩ := drawAll_eq h source
  refine ⟨_, after, hdrawn, List.length_mapIdx, ?_, fun i j a b ha hb => ⟨?_, ?_⟩⟩
  · intro id hid
    obtain ⟨k, hk, rfl⟩ := List.mem_mapIdx.mp hid
    exact ⟨length_idText _ _ _, fun c => isLowerHex_of_mem_idText⟩
  · intro hij hnear hsame
    rw [List.getElem?_mapIdx, Option.map_eq_some_iff] at ha hb
    obtain ⟨m, -, rfl⟩ := ha
    obtain ⟨n, -, rfl⟩ := hb
    have hfits : ∀ k, k % cycle < 16 ^ 6 := fun k =>
      Nat.lt_trans (Nat.mod_lt k (by decide)) (by decide : cycle < 16 ^ 6)
    have hcounter := idText_counter_inj (hfits _) (hfits _) hsame
    -- less than one cycle lies between the two values of the counter
    unfold cycle at hcounter
    omega
  · intro m n hm hn hless
    rw [List.getElem?_mapIdx, hm, Option.map_some] at ha
    rw [List.getElem?_mapIdx, hn, Option.map_some] at hb
    obtain rfl := Option.some.inj ha
    obtain rfl := Option.some.inj hb
    have hfirst := h m (List.mem_of_getElem? hm)
    have hsecond := h n (List.mem_of_getElem? hn)
    unfold Moment.Fits at hfirst hsecond
    exact idText_lt (by omega) (by omega) _ _ _ _

/-- Three moments, the clock being set back after the first. -/
def clockSetBack : List Moment := [⟨9, 0xffffffffff⟩, ⟨8, 5⟩, ⟨9, 0⟩]

/-- Three ids differ although the counter starts again at zero among them, and the one that is drawn
while the clock is behind is the smallest. -/
theorem drawAll_clockSetBack : (∀ m ∈ clockSetBack, m.Fits) ∧
    ∃ first second third after,
      drawAll clockSetBack ⟨0, 0, 0xfffffd⟩ = (.ok [first, second, third], after) ∧
      first ≠ second ∧ first ≠ third ∧ second ≠ third ∧ second < first ∧ second < third := by
  have hfits : ∀ m ∈ clockSetBack, m.Fits := by
    unfold clockSetBack Moment.Fits
    decide
  obtain ⟨ids, after, hdrawn, hlength, -, hids⟩ := drawAll_ids hfits ⟨0, 0, 0xfffffd⟩
  obtain ⟨first, second, third, rfl⟩ := List.length_eq_three.mp hlength
  refine ⟨hfits, first, second, third, after, hdrawn, ?_, ?_, ?_, ?_, ?_⟩
  · exact (hids 0 1 first second rfl rfl).1 (by decide) (by decide)
  · exact (hids 0 2 first third rfl rfl).1 (by decide) (by decide)
  · exact (hids 1 2 second third rfl rfl).1 (by decide) (by decide)
  · exact (hids 1 0 second first rfl rfl).2 _ _ rfl rfl (by decide)
  · exact (hids 1 2 second third rfl rfl).2 _ _ rfl rfl (by decide)

end IdSource

end DocumentApi
