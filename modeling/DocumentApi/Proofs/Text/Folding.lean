import DocumentApi.Proofs.Text.Lowering

/-!
# Texts that contain others in lower case

Whether a text contains another one can depend on what is done to both of them before: the full case
mapping, or the one of ASCII letters alone.

* `AsciiCased`: the characters on which the two mappings agree. Capitals beyond ASCII are the others.
* `infix_lowerChars`: what is contained by ASCII letters is contained by full case, for a text without
  capitals beyond ASCII.
* `infix_lowerChars_iff`: both agree when no capital beyond ASCII is a character of that text in lower
  case.
-/

namespace DocumentApi

/-! ## Characters without a case beyond ASCII -/

/-- The lower case of a character is the one of the ASCII letters alone. -/
def AsciiCased (c : Char) : Prop := lowerChar c = [c.toLower]

instance (c : Char) : Decidable (AsciiCased c) :=
  inferInstanceAs (Decidable (lowerChar c = [c.toLower]))

theorem AsciiCased.of_ascii {c : Char} (h : c.toNat < 128) : AsciiCased c := if_pos h

theorem not_asciiCased_sigma : ¬ AsciiCased 'Σ' := by decide +kernel

/-- Characters that are the same up to the case of ASCII letters are both such, or none of them. -/
theorem AsciiCased.of_toLower_eq {c d : Char} (hd : AsciiCased d) (hsame : c.toLower = d.toLower) :
    AsciiCased c := by
  by_cases hc : c.toNat < 128
  · exact .of_ascii hc
  · have hd' : ¬ d.toNat < 128 := by
      rw [← toNat_toLower_lt_iff d, ← hsame, toNat_toLower_lt_iff]
      exact hc
    have hkept : ∀ {x : Char}, ¬ x.toNat < 128 → x.toLower = x := by
      intro x hx
      apply toLower_of_not_isUpper
      rw [isUpper_iff]
      omega
    rw [hkept hc, hkept hd'] at hsame
    rwa [hsame]

/-- The characters that a character can become in lower case. -/
def lowerings (c : Char) : List Char := if c = 'Σ' then ['σ', 'ς'] else lowerChar c

/-- The lower case of a text, with what its first character becomes. -/
theorem lowerFrom_lowerings (before : List Char) (c : Char) (rest : List Char) :
    ∃ here, here ≠ [] ∧ (∀ d ∈ here, d ∈ lowerings c) ∧ (AsciiCased c → here = [c.toLower]) ∧
      lowerFrom before (c :: rest) = here ++ lowerFrom (c :: before) rest := by
  by_cases hc : c = 'Σ'
  · refine ⟨[if startsCased before && !startsCased rest then 'ς' else 'σ'], by simp, ?_, ?_, ?_⟩
    · intro d hd
      rw [List.mem_singleton.mp hd]
      unfold lowerings
      rw [if_pos hc]
      split <;> simp
    · intro h
      exact absurd (hc ▸ h) not_asciiCased_sigma
    · rw [lowerFrom, if_pos hc]
  · refine ⟨lowerChar c, (lowersTo_lowerChar c).ne_nil, fun d hd => ?_, id, ?_⟩
    · unfold lowerings
      rwa [if_neg hc]
    · rw [lowerFrom, if_neg hc]

/-! ## Occurrences by ASCII letters -/

theorem lowerFrom_append (before : List Char) {v w : List Char} (hv : ∀ c ∈ v, AsciiCased c) :
    ∃ before', lowerFrom before (v ++ w) = foldAscii v ++ lowerFrom before' w := by
  induction v generalizing before with
  | nil => exact ⟨before, rfl⟩
  | cons c v ih =>
    obtain ⟨hc, hv⟩ := List.forall_mem_cons.mp hv
    obtain ⟨here, -, -, hone, heq⟩ := lowerFrom_lowerings before c (v ++ w)
    obtain ⟨before', hrest⟩ := ih (c :: before) hv
    refine ⟨before', ?_⟩
    rw [List.cons_append, heq, hone hc, hrest]
    rfl

/-- A text without capitals beyond ASCII becomes the same in both lower cases. -/
theorem lowerChars_eq_foldAscii {cs : List Char} (h : ∀ c ∈ cs, AsciiCased c) :
    lowerChars cs = foldAscii cs := by
  obtain ⟨before, heq⟩ := lowerFrom_append [] (w := []) h
  rw [List.append_nil] at heq
  rw [lowerChars, heq]
  exact List.append_nil _

/-- What contains a text by its ASCII letters contains it in lower case, unless the text has a capital
beyond ASCII. -/
theorem infix_lowerChars {needle cs : List Char} (hneedle : ∀ c ∈ needle, AsciiCased c)
    (h : foldAscii needle <:+: foldAscii cs) : lowerChars needle <:+: lowerChars cs := by
  obtain ⟨front, back, heq⟩ := h
  obtain ⟨l, b, rfl, hl, -⟩ := List.map_eq_append_iff.mp heq.symm
  obtain ⟨a, found, rfl, -, hfound⟩ := List.map_eq_append_iff.mp hl
  change foldAscii found = foldAscii needle at hfound
  have hcased : ∀ c ∈ found, AsciiCased c := by
    intro c hc
    have hmem : c.toLower ∈ foldAscii needle := by
      rw [← hfound]
      exact List.mem_map_of_mem hc
    obtain ⟨d, hd, hsame⟩ := List.mem_map.mp hmem
    exact (hneedle d hd).of_toLower_eq hsame.symm
  obtain ⟨before, hsuffix⟩ := lowerFrom_suffix [] a (found ++ b)
  obtain ⟨before', happend⟩ := lowerFrom_append before (w := b) hcased
  rw [lowerChars_eq_foldAscii hneedle, ← hfound, List.append_assoc]
  rw [happend] at hsuffix
  exact (List.prefix_append _ _).isInfix.trans hsuffix.isInfix

/-! ## Occurrences in lower case -/

/-- No character of a text that has a case beyond ASCII becomes a character of another text. -/
def KeepsApart (needle cs : List Char) : Prop :=
  ∀ c ∈ cs, AsciiCased c ∨ ∀ d ∈ lowerings c, d ∉ foldAscii needle

variable {needle cs w : List Char}

/-- ASCII characters other than `i` and `k` are apart from every text: of the others only these have
capitals beyond ASCII. -/
theorem KeepsApart.of_ascii
    (h : ∀ c ∈ needle, c.toNat < 128 ∧ c.toLower ≠ 'i' ∧ c.toLower ≠ 'k') : KeepsApart needle cs := by
  have hneedle : ∀ d ∈ foldAscii needle, d.toNat < 128 ∧ d ≠ 'i' ∧ d ≠ 'k' := by
    intro d hd
    obtain ⟨c, hc, rfl⟩ := List.mem_map.mp hd
    obtain ⟨hascii, hletters⟩ := h c hc
    exact ⟨(toNat_toLower_lt_iff c).mpr hascii, hletters⟩
  have hbeyond : 128 ≤ 'σ'.toNat ∧ 128 ≤ 'ς'.toNat := by decide
  intro c _
  by_cases hc : AsciiCased c
  · exact Or.inl hc
  · right
    intro d hd hmem
    obtain ⟨hascii, hi, hk⟩ := hneedle d hmem
    unfold lowerings at hd
    split at hd
    · simp only [List.mem_cons, List.not_mem_nil, or_false] at hd
      rcases hd with rfl | rfl
      · omega
      · omega
    · exact hc ((lowersTo_lowerChar c).of_mem hd hascii hi hk).1

/-- Characters of a text stand at the start of another in lower case only where they stand by ASCII
letters. -/
theorem prefix_foldAscii {before : List Char} (hapart : KeepsApart needle cs)
    (hw : ∀ d ∈ w, d ∈ foldAscii needle) (h : w <+: lowerFrom before cs) : w <+: foldAscii cs := by
  induction cs generalizing before w with
  | nil => exact h
  | cons c cs ih =>
    obtain ⟨here, hne, hhere, hone, heq⟩ := lowerFrom_lowerings before c cs
    obtain ⟨hc, hrest⟩ := List.forall_mem_cons.mp hapart
    rw [heq] at h
    cases w with
    | nil => exact List.nil_prefix
    | cons x w =>
      obtain ⟨hx, hothers⟩ := List.forall_mem_cons.mp hw
      rcases hc with hc | hc
      · rw [hone hc] at h
        obtain ⟨rfl, hstart⟩ := List.cons_prefix_cons.mp h
        exact List.cons_prefix_cons.mpr ⟨rfl, ih hrest hothers hstart⟩
      · obtain ⟨y, ys, rfl⟩ := List.exists_cons_of_ne_nil hne
        obtain ⟨rfl, -⟩ := List.cons_prefix_cons.mp h
        exact absurd hx (hc x (hhere x List.mem_cons_self))

/-- So they do at any other place. -/
theorem infix_foldAscii {before : List Char} (hapart : KeepsApart needle cs) (hne : w ≠ [])
    (hw : ∀ d ∈ w, d ∈ foldAscii needle) (h : w <:+: lowerFrom before cs) : w <:+: foldAscii cs := by
  induction cs generalizing before with
  | nil => exact h
  | cons c cs ih =>
    obtain ⟨here, -, hhere, hone, heq⟩ := lowerFrom_lowerings before c cs
    obtain ⟨hc, hrest⟩ := List.forall_mem_cons.mp hapart
    have hlater : w <:+: lowerFrom (c :: before) cs → w <:+: foldAscii (c :: cs) :=
      fun h => (ih hrest h).trans (List.suffix_cons _ _).isInfix
    rcases hc with hc | hc
    · rw [heq, hone hc] at h
      rcases List.infix_cons_iff.mp h with hstart | hrest'
      · have hfront : w <+: lowerFrom before (c :: cs) := by rwa [heq, hone hc]
        exact (prefix_foldAscii hapart hw hfront).isInfix
      · exact hlater hrest'
    · have hnot : ∀ d ∈ w, d ∉ here := fun d hd hmem => hc d (hhere d hmem) (hw d hd)
      rw [heq] at h
      rcases List.infix_append_iff.mp h with hin | hin | ⟨v, u, rfl, hv, hu⟩
      · obtain ⟨x, w, rfl⟩ := List.exists_cons_of_ne_nil hne
        exact absurd (hin.subset List.mem_cons_self) (hnot x List.mem_cons_self)
      · exact hlater hin
      · -- nothing of the occurrence lies in what the first character became
        cases v with
        | nil => exact hlater hu.isInfix
        | cons x v => exact absurd (hv.subset List.mem_cons_self) (hnot x List.mem_cons_self)

/-- A text is contained in lower case if and only if it is by its ASCII letters, when it has no
capitals beyond ASCII and those of the other text become none of its characters. -/
theorem infix_lowerChars_iff (hneedle : ∀ c ∈ needle, AsciiCased c) (hapart : KeepsApart needle cs) :
    lowerChars needle <:+: lowerChars cs ↔ foldAscii needle <:+: foldAscii cs := by
  refine ⟨fun h => ?_, infix_lowerChars hneedle⟩
  by_cases hnil : foldAscii needle = []
  · rw [hnil]
    exact List.nil_infix
  · rw [lowerChars_eq_foldAscii hneedle] at h
    exact infix_foldAscii hapart hnil (fun _ hd => hd) h

end DocumentApi
