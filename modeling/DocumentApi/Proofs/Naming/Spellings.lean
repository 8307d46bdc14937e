import DocumentApi.Proofs.Naming.Casing

/-!
# Snake, camel and pascal case

The low lines of a name in snake case cut it into segments. Camel and pascal case drop them, and
capitals tell where the segments start.

* `SnakeCase`, `CamelCase`, `PascalCase`: the three spellings.
* `toCamelChars_intercalate`, `toPascalChars_intercalate`: what becomes of the segments of a name.
* `fromCamelChars_segments`: the segments read back, whatever the case of the first letter.
* `CamelCase.toCamelChars_eq`, `CamelCase.toCamelChars_capitalize`: camel case of the two others.
* `camelCase_iff`, `pascalCase_iff`: both are the spellings of the names in snake case, and no more.
* `snakeCase_readBack`: a name in snake case is found again from each of them.
-/

namespace DocumentApi

/-! ## Spellings -/

/-- A character of one kind, with characters of another kind after it. -/
def Spelled (start more : Char → Bool) : List Char → Prop
  | [] => False
  | c :: cs => start c = true ∧ ∀ d ∈ cs, more d = true

instance (start more : Char → Bool) (cs : List Char) : Decidable (Spelled start more cs) :=
  match cs with
  | [] => inferInstanceAs (Decidable False)
  | c :: cs =>
    -- an instance that goes through the text, not through all characters there are
    decidable_of_iff (start c = true ∧ cs.all more = true) (and_congr_right' List.all_eq_true)

/-- Small ASCII letters and digits. -/
def isSmall (c : Char) : Bool := c.isLower || c.isDigit

/-- A small letter, then small letters and digits. -/
abbrev Segment : List Char → Prop := Spelled Char.isLower isSmall

/-- One or more segments with a low line between each two. -/
def SnakeCase (cs : List Char) : Prop :=
  ∃ segments, segments ≠ [] ∧ (∀ segment ∈ segments, Segment segment) ∧
    cs = ['_'].intercalate segments

/-- A small letter, then letters and digits. -/
abbrev CamelCase : List Char → Prop := Spelled Char.isLower Char.isAlphanum

/-- A capital, then letters and digits. -/
abbrev PascalCase : List Char → Prop := Spelled Char.isUpper Char.isAlphanum

variable {c : Char} {cs t segment : List Char} {segments : List (List Char)}

/-! ## Characters -/

theorem isAlphanum_eq (c : Char) : c.isAlphanum = (c.isUpper || isSmall c) :=
  Bool.or_assoc c.isUpper c.isLower c.isDigit

theorem isAlphanum_of_isUpper (h : c.isUpper = true) : c.isAlphanum = true := by
  rw [isAlphanum_eq, h, Bool.true_or]

theorem isAlphanum_of_isSmall (h : isSmall c = true) : c.isAlphanum = true := by
  rw [isAlphanum_eq, h, Bool.or_true]

theorem isSmall_of_isLower (h : c.isLower = true) : isSmall c = true := by
  rw [isSmall, h, Bool.true_or]

theorem isAlphanum_of_isLower (h : c.isLower = true) : c.isAlphanum = true :=
  isAlphanum_of_isSmall (isSmall_of_isLower h)

theorem toNat_lt_of_isAlphanum (h : c.isAlphanum = true) : c.toNat < 128 := by
  rw [Char.isAlphanum, Bool.or_eq_true] at h
  rcases h with halpha | hdigit
  · exact toNat_lt_of_isAlpha halpha
  · exact Nat.lt_of_le_of_lt (Char.isDigit_iff_toNat.mp hdigit).2 (by decide)

theorem not_isUpper_of_isSmall (h : isSmall c = true) : ¬ c.isUpper = true := by
  intro hupper
  rw [isSmall, Bool.or_eq_true] at h
  rcases h with hlower | hdigit
  · exact not_isUpper_of_isLower hlower hupper
  · have := (isUpper_iff c).mp hupper
    have : c.toNat ≤ 57 := (Char.isDigit_iff_toNat.mp hdigit).2
    omega

theorem toLower_of_isSmall (h : isSmall c = true) : c.toLower = c :=
  toLower_of_not_isUpper (not_isUpper_of_isSmall h)

theorem toLower_toUpper_of_isLower (h : c.isLower = true) : c.toUpper.toLower = c := by
  rw [(letterCase (isAlpha_of_isLower h)).toLower_toUpper, toLower_of_isLower h]

theorem isUpper_toUpper_of_isLower (h : c.isLower = true) : c.toUpper.isUpper = true :=
  (letterCase (isAlpha_of_isLower h)).isUpper_toUpper

/-- Small letters and digits are their own lower case. -/
theorem foldAscii_of_isSmall (h : ∀ d ∈ t, isSmall d = true) : foldAscii t = t :=
  (List.map_congr_left fun d hd => toLower_of_isSmall (h d hd)).trans (List.map_id t)

theorem not_mem_lowLine_of_isAlphanum (h : ∀ d ∈ t, d.isAlphanum = true) : '_' ∉ t :=
  fun hmem => absurd (h '_' hmem) (by decide)

/-! ## The first letter -/

theorem capitalize_of_isLower (hc : c.isLower = true) (t : List Char) :
    capitalize (c :: t) = c.toUpper :: t :=
  capitalize_cons (toNat_lt_of_isAlpha (isAlpha_of_isLower hc)) t

theorem capitalize_toLower (hc : c.isUpper = true) (t : List Char) :
    capitalize (c.toLower :: t) = c :: t := by
  have hletter := letterCase (isAlpha_of_isUpper hc)
  rw [capitalize_cons (toNat_lt_of_isAlpha hletter.isAlpha_toLower), hletter.toUpper_toLower,
    toUpper_of_isUpper hc]

namespace Spelled

variable {start more : Char → Bool}

theorem exists_cons (h : Spelled start more cs) :
    ∃ c t, cs = c :: t ∧ start c = true ∧ ∀ d ∈ t, more d = true := by
  cases cs with
  | nil => exact h.elim
  | cons c t => exact ⟨c, t, rfl, h⟩

theorem ne_nil (h : Spelled start more cs) : cs ≠ [] := by
  obtain ⟨c, t, rfl, -⟩ := h.exists_cons
  exact List.cons_ne_nil c t

theorem isAlphanum (h : Spelled start more cs)
    (hstart : ∀ {c : Char}, start c = true → c.isAlphanum = true)
    (hmore : ∀ {c : Char}, more c = true → c.isAlphanum = true) :
    ∀ d ∈ cs, d.isAlphanum = true := by
  obtain ⟨c, t, rfl, hc, ht⟩ := h.exists_cons
  exact List.forall_mem_cons.mpr ⟨hstart hc, fun d hd => hmore (ht d hd)⟩

theorem toLower {t : List Char} (hc : c.isUpper = true) (ht : ∀ d ∈ t, more d = true) :
    Spelled Char.isLower more (c.toLower :: t) :=
  ⟨(letterCase (isAlpha_of_isUpper hc)).isLower_toLower, ht⟩

theorem capitalize (h : Spelled Char.isLower more cs) :
    Spelled Char.isUpper more (capitalize cs) := by
  obtain ⟨c, t, rfl, hc, ht⟩ := h.exists_cons
  rw [capitalize_of_isLower hc]
  exact ⟨isUpper_toUpper_of_isLower hc, ht⟩

theorem decapitalize (h : Spelled Char.isLower more cs) : decapitalize cs = cs := by
  obtain ⟨c, t, rfl, hc, -⟩ := h.exists_cons
  rw [decapitalize_cons (toNat_lt_of_isAlpha (isAlpha_of_isLower hc)),
    toLower_of_isSmall (isSmall_of_isLower hc)]

theorem decapitalize_capitalize (h : Spelled Char.isLower more cs) :
    DocumentApi.decapitalize (DocumentApi.capitalize cs) = cs := by
  obtain ⟨c, t, rfl, hc, -⟩ := h.exists_cons
  have hupper := isAlpha_of_isUpper (isUpper_toUpper_of_isLower hc)
  rw [capitalize_of_isLower hc, decapitalize_cons (toNat_lt_of_isAlpha hupper),
    toLower_toUpper_of_isLower hc]

end Spelled

/-! ## Segments -/

namespace Segment

theorem not_mem_lowLine (h : Segment segment) : '_' ∉ segment :=
  not_mem_lowLine_of_isAlphanum (h.isAlphanum isAlphanum_of_isLower isAlphanum_of_isSmall)

theorem foldAscii_capitalize (h : Segment segment) : foldAscii (capitalize segment) = segment := by
  obtain ⟨c, t, rfl, hc, ht⟩ := h.exists_cons
  rw [capitalize_of_isLower hc, foldAscii_cons, toLower_toUpper_of_isLower hc,
    foldAscii_of_isSmall ht]

end Segment

theorem isAlphanum_of_mem_flatMap (h : ∀ segment ∈ segments, Segment segment) :
    ∀ d ∈ segments.flatMap capitalize, d.isAlphanum = true := by
  intro d hd
  obtain ⟨segment, hmem, hd⟩ := List.mem_flatMap.mp hd
  have hcapital := (h segment hmem).capitalize
  exact hcapital.isAlphanum isAlphanum_of_isUpper isAlphanum_of_isSmall d hd

/-- Letters and digits are small ones, followed by segments with their capitals. -/
theorem exists_segments (h : ∀ d ∈ cs, d.isAlphanum = true) :
    ∃ (t : List Char) (segments : List (List Char)), (∀ d ∈ t, isSmall d = true) ∧
      (∀ segment ∈ segments, Segment segment) ∧ cs = t ++ segments.flatMap capitalize := by
  induction cs with
  | nil => exact ⟨[], [], by simp, by simp, rfl⟩
  | cons c cs ih =>
    obtain ⟨hc, hcs⟩ := List.forall_mem_cons.mp h
    obtain ⟨t, segments, ht, hsegments, rfl⟩ := ih hcs
    rw [isAlphanum_eq, Bool.or_eq_true] at hc
    rcases hc with hupper | hsmall
    · -- a capital starts a segment that takes in the small characters after it
      refine ⟨[], (c.toLower :: t) :: segments, by simp,
        List.forall_mem_cons.mpr ⟨.toLower hupper ht, hsegments⟩, ?_⟩
      rw [List.flatMap_cons, capitalize_toLower hupper]
      rfl
    · exact ⟨c :: t, segments, List.forall_mem_cons.mpr ⟨hsmall, ht⟩, hsegments, rfl⟩

/-! ## Names by their segments -/

theorem splitLowLines_eq_splitOn (cs : List Char) : splitLowLines cs = cs.splitOn '_' := by
  rw [List.splitOn_eq_splitOnP]
  induction cs with
  | nil => rfl
  | cons c cs ih =>
    rw [splitLowLines, List.splitOnP_cons_eq_if_modifyHead, ih]
    by_cases hc : c = '_'
    · simp [hc]
    · cases hparts : cs.splitOnP (· == '_') with
      | nil => exact absurd hparts (List.splitOnP_ne_nil _ _)
      | cons part parts => simp [hc]

theorem splitLowLines_intercalate (hne : segments ≠ [])
    (h : ∀ segment ∈ segments, Segment segment) :
    splitLowLines (['_'].intercalate segments) = segments := by
  rw [splitLowLines_eq_splitOn]
  exact List.splitOn_intercalate '_' (fun segment hmem => (h segment hmem).not_mem_lowLine) hne

theorem snakeCase_iff : SnakeCase cs ↔ ∀ segment ∈ splitLowLines cs, Segment segment := by
  constructor
  · rintro ⟨segments, hne, h, rfl⟩
    rwa [splitLowLines_intercalate hne h]
  · intro h
    refine ⟨splitLowLines cs, ?_, h, ?_⟩
    · rw [splitLowLines_eq_splitOn]
      exact List.splitOn_ne_nil '_' cs
    · rw [splitLowLines_eq_splitOn, List.intercalate_splitOn]

instance (cs : List Char) : Decidable (SnakeCase cs) :=
  decidable_of_iff' _ snakeCase_iff

theorem SnakeCase.exists_cons (h : SnakeCase cs) : ∃ segment segments, Segment segment ∧
    (∀ segment ∈ segments, Segment segment) ∧ cs = ['_'].intercalate (segment :: segments) := by
  obtain ⟨segments, hne, h, rfl⟩ := h
  cases segments with
  | nil => exact absurd rfl hne
  | cons segment segments =>
    obtain ⟨hsegment, h⟩ := List.forall_mem_cons.mp h
    exact ⟨segment, segments, hsegment, h, rfl⟩

theorem snakeCase_intercalate (hsegment : Segment segment)
    (h : ∀ segment ∈ segments, Segment segment) :
    SnakeCase (['_'].intercalate (segment :: segments)) :=
  ⟨segment :: segments, List.cons_ne_nil _ _, List.forall_mem_cons.mpr ⟨hsegment, h⟩, rfl⟩

theorem toCamelChars_intercalate (hsegment : Segment segment)
    (h : ∀ segment ∈ segments, Segment segment) :
    toCamelChars (['_'].intercalate (segment :: segments)) =
      segment ++ segments.flatMap capitalize := by
  have hall : ∀ part ∈ segment :: segments, Segment part :=
    List.forall_mem_cons.mpr ⟨hsegment, h⟩
  have hparts : nameParts (['_'].intercalate (segment :: segments)) = segment :: segments := by
    unfold nameParts
    rw [splitLowLines_intercalate (List.cons_ne_nil _ _) hall]
    exact List.filter_eq_self.mpr fun part hmem => by simp [(hall part hmem).ne_nil]
  unfold toCamelChars
  rw [hparts]
  dsimp only
  rw [hsegment.decapitalize]

theorem toPascalChars_intercalate (hsegment : Segment segment)
    (h : ∀ segment ∈ segments, Segment segment) :
    toPascalChars (['_'].intercalate (segment :: segments)) =
      capitalize segment ++ segments.flatMap capitalize := by
  unfold toPascalChars
  rw [toCamelChars_intercalate hsegment h, capitalize_append hsegment.ne_nil]

/-! ## Segments read back -/

theorem markCapitals_append (cs ds : List Char) :
    markCapitals (cs ++ ds) = markCapitals cs ++ markCapitals ds := by
  induction cs with
  | nil => rfl
  | cons c cs ih =>
    rw [List.cons_append, markCapitals, markCapitals, ih]
    split <;> rfl

theorem markCapitals_of_isSmall (h : ∀ d ∈ t, isSmall d = true) : markCapitals t = t := by
  induction t with
  | nil => rfl
  | cons c t ih =>
    obtain ⟨hc, ht⟩ := List.forall_mem_cons.mp h
    rw [markCapitals, if_neg (not_isUpper_of_isSmall hc), ih ht]

theorem Segment.markCapitals_capitalize (h : Segment segment) :
    markCapitals (capitalize segment) = '_' :: capitalize segment := by
  obtain ⟨c, t, hcapital, hc, ht⟩ := h.capitalize.exists_cons
  rw [hcapital, markCapitals, if_pos hc, markCapitals_of_isSmall ht]

/-- The capital of each segment is marked, and in lower case the segment is left. -/
theorem foldAscii_markCapitals_flatMap (h : ∀ segment ∈ segments, Segment segment) :
    foldAscii (markCapitals (segments.flatMap capitalize)) = segments.flatMap ('_' :: ·) := by
  induction segments with
  | nil => rfl
  | cons segment segments ih =>
    obtain ⟨hsegment, h⟩ := List.forall_mem_cons.mp h
    rw [List.flatMap_cons, List.flatMap_cons, markCapitals_append, foldAscii_append, ih h,
      hsegment.markCapitals_capitalize, foldAscii_cons, hsegment.foldAscii_capitalize]
    rfl

theorem mem_of_mem_markCapitals {d : Char} (h : d ∈ markCapitals cs) : d = '_' ∨ d ∈ cs := by
  induction cs with
  | nil => exact absurd h List.not_mem_nil
  | cons c cs ih =>
    rw [markCapitals] at h
    split at h <;> grind

/-- The lower case of letters, digits and the low lines between them is that of ASCII. -/
theorem fromCamelChars_cons (h : ∀ d ∈ c :: cs, d.isAlphanum = true) :
    fromCamelChars (c :: cs) = foldAscii (c :: markCapitals cs) := by
  refine lowerFrom_of_ascii fun d hd => ?_
  rcases List.mem_cons.mp hd with rfl | hd
  · exact toNat_lt_of_isAlphanum (h d List.mem_cons_self)
  rcases mem_of_mem_markCapitals hd with rfl | hd
  · decide
  · exact toNat_lt_of_isAlphanum (h d (List.mem_cons_of_mem c hd))

theorem intercalate_cons (segment : List Char) (segments : List (List Char)) :
    ['_'].intercalate (segment :: segments) = segment ++ segments.flatMap ('_' :: ·) := by
  induction segments generalizing segment with
  | nil => simp
  | cons next segments ih =>
    rw [List.intercalate_cons_cons, ih, List.flatMap_cons]
    simp

/-- A name whose first letter is in any case, and in which capitals start all other segments, is
read as its segments. -/
theorem fromCamelChars_segments (hc : c.isAlpha = true) (ht : ∀ d ∈ t, isSmall d = true)
    (h : ∀ segment ∈ segments, Segment segment) :
    fromCamelChars (c :: t ++ segments.flatMap capitalize) =
      ['_'].intercalate ((c.toLower :: t) :: segments) := by
  have hletters : ∀ d ∈ c :: (t ++ segments.flatMap capitalize), d.isAlphanum = true := by
    refine List.forall_mem_cons.mpr ⟨by rw [Char.isAlphanum, hc, Bool.true_or], ?_⟩
    exact List.forall_mem_append.mpr
      ⟨fun d hd => isAlphanum_of_isSmall (ht d hd), isAlphanum_of_mem_flatMap h⟩
  rw [List.cons_append, fromCamelChars_cons hletters, markCapitals_append, foldAscii_cons,
    foldAscii_append, foldAscii_markCapitals_flatMap h, markCapitals_of_isSmall ht,
    foldAscii_of_isSmall ht, intercalate_cons, List.cons_append]

theorem SnakeCase.fromCamelChars_toCamelChars (h : SnakeCase cs) :
    fromCamelChars (toCamelChars cs) = cs := by
  obtain ⟨segment, segments, hsegment, hsegments, rfl⟩ := h.exists_cons
  rw [toCamelChars_intercalate hsegment hsegments]
  obtain ⟨c, t, rfl, hc, ht⟩ := hsegment.exists_cons
  rw [fromCamelChars_segments (isAlpha_of_isLower hc) ht hsegments,
    toLower_of_isSmall (isSmall_of_isLower hc)]

theorem SnakeCase.fromCamelChars_toPascalChars (h : SnakeCase cs) :
    fromCamelChars (toPascalChars cs) = cs := by
  obtain ⟨segment, segments, hsegment, hsegments, rfl⟩ := h.exists_cons
  rw [toPascalChars_intercalate hsegment hsegments]
  obtain ⟨c, t, rfl, hc, ht⟩ := hsegment.exists_cons
  rw [capitalize_of_isLower hc,
    fromCamelChars_segments (isAlpha_of_isUpper (isUpper_toUpper_of_isLower hc)) ht hsegments,
    toLower_toUpper_of_isLower hc]

/-! ## Camel and pascal case as spellings -/

theorem toCamelChars_of_not_mem (hne : cs ≠ []) (h : '_' ∉ cs) :
    toCamelChars cs = decapitalize cs := by
  have hparts : nameParts cs = [cs] := by
    unfold nameParts
    rw [splitLowLines_of_not_mem h]
    simp [hne]
  unfold toCamelChars
  rw [hparts]
  exact List.append_nil _

namespace CamelCase

theorem toCamelChars_eq (h : CamelCase cs) : toCamelChars cs = cs := by
  have hletters : ∀ d ∈ cs, d.isAlphanum = true := h.isAlphanum isAlphanum_of_isLower id
  rw [toCamelChars_of_not_mem h.ne_nil (not_mem_lowLine_of_isAlphanum hletters), h.decapitalize]

/-- Camel case takes back the capital that pascal case puts in front. -/
theorem toCamelChars_capitalize (h : CamelCase cs) : toCamelChars (capitalize cs) = cs := by
  have hpascal : PascalCase (capitalize cs) := h.capitalize
  have hletters : ∀ d ∈ capitalize cs, d.isAlphanum = true :=
    hpascal.isAlphanum isAlphanum_of_isUpper id
  rw [toCamelChars_of_not_mem hpascal.ne_nil (not_mem_lowLine_of_isAlphanum hletters),
    h.decapitalize_capitalize]

end CamelCase

/-- A name is in camel case exactly if it is the camel case of a name in snake case. -/
theorem camelCase_iff : CamelCase cs ↔ ∃ name, SnakeCase name ∧ toCamelChars name = cs := by
  constructor
  · intro h
    obtain ⟨c, cs, rfl, hc, hcs⟩ := h.exists_cons
    obtain ⟨t, segments, ht, hsegments, rfl⟩ := exists_segments hcs
    have hsegment : Segment (c :: t) := ⟨hc, ht⟩
    exact ⟨_, snakeCase_intercalate hsegment hsegments,
      toCamelChars_intercalate hsegment hsegments⟩
  · rintro ⟨name, h, rfl⟩
    obtain ⟨segment, segments, hsegment, hsegments, rfl⟩ := h.exists_cons
    rw [toCamelChars_intercalate hsegment hsegments]
    obtain ⟨c, t, rfl, hc, ht⟩ := hsegment.exists_cons
    exact ⟨hc, List.forall_mem_append.mpr
      ⟨fun d hd => isAlphanum_of_isSmall (ht d hd), isAlphanum_of_mem_flatMap hsegments⟩⟩

/-- A name is in pascal case exactly if it is the pascal case of a name in snake case. -/
theorem pascalCase_iff : PascalCase cs ↔ ∃ name, SnakeCase name ∧ toPascalChars name = cs := by
  constructor
  · intro h
    obtain ⟨c, t, rfl, hc, ht⟩ := h.exists_cons
    obtain ⟨name, hname, hcamel⟩ := camelCase_iff.mp (.toLower hc ht : CamelCase (c.toLower :: t))
    refine ⟨name, hname, ?_⟩
    rw [toPascalChars, hcamel, capitalize_toLower hc]
  · rintro ⟨name, h, rfl⟩
    exact Spelled.capitalize (camelCase_iff.mpr ⟨name, h, rfl⟩)

/-! ## Names -/

section Names

variable {name : String}

theorem fromCamel_toCamel (h : SnakeCase name.toList) : fromCamel (toCamel name) = name := by
  unfold fromCamel toCamel
  rw [String.toList_ofList, h.fromCamelChars_toCamelChars, String.ofList_toList]

theorem fromCamel_toPascal (h : SnakeCase name.toList) : fromCamel (toPascal name) = name := by
  unfold fromCamel toPascal
  rw [String.toList_ofList, h.fromCamelChars_toPascalChars, String.ofList_toList]

/-- A name in snake case is read back from its camel case and from its pascal case, camel case is
that of both, and so no two names in snake case share one of them. -/
theorem snakeCase_readBack (h : SnakeCase name.toList) :
    (CamelCase (toCamel name).toList ∧ PascalCase (toPascal name).toList) ∧
    (fromCamel (toCamel name) = name ∧ fromCamel (toPascal name) = name) ∧
    (toCamel (toCamel name) = toCamel name ∧ toCamel (toPascal name) = toCamel name) ∧
    ∀ other : String, SnakeCase other.toList →
      (toCamel other = toCamel name → other = name) ∧
      (toPascal other = toPascal name → other = name) := by
  have hcamel : CamelCase (toCamelChars name.toList) := camelCase_iff.mpr ⟨name.toList, h, rfl⟩
  have hpascal : PascalCase (toPascalChars name.toList) :=
    pascalCase_iff.mpr ⟨name.toList, h, rfl⟩
  refine ⟨⟨?_, ?_⟩, ⟨fromCamel_toCamel h, fromCamel_toPascal h⟩, ⟨?_, ?_⟩,
    fun other hother => ⟨?_, ?_⟩⟩
  · rwa [toCamel, String.toList_ofList]
  · rwa [toPascal, String.toList_ofList]
  · unfold toCamel
    rw [String.toList_ofList, hcamel.toCamelChars_eq]
  · unfold toCamel toPascal
    rw [String.toList_ofList, toPascalChars, hcamel.toCamelChars_capitalize]
  · intro hsame
    rw [← fromCamel_toCamel hother, hsame, fromCamel_toCamel h]
  · intro hsame
    rw [← fromCamel_toPascal hother, hsame, fromCamel_toPascal h]

/-- No segment starts with a digit: it has no capital by which it would be found again. -/
theorem snakeCase_readBack_line2 :
    SnakeCase "line2_of_order".toList ∧ toCamel "line2_of_order" = "line2OfOrder" ∧
    toPascal "line2_of_order" = "Line2OfOrder" ∧
    fromCamel (toPascal "line2_of_order") = "line2_of_order" ∧
    SnakeCase "line2of_order".toList ∧
    toCamel "line2of_order" ≠ toCamel "line2_of_order" ∧
    ¬ SnakeCase "line_2".toList ∧ toCamel "line_2" = toCamel "line2" := by
  have hname : SnakeCase "line2_of_order".toList := by decide
  have hother : SnakeCase "line2of_order".toList := by decide
  obtain ⟨-, ⟨-, hback⟩, -, hinjective⟩ := snakeCase_readBack hname
  refine ⟨hname, by decide, by decide, hback, hother, fun hsame => ?_, by decide, by decide⟩
  exact absurd ((hinjective _ hother).1 hsame) (by decide)

end Names

end DocumentApi
