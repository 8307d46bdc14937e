import DocumentApi.Proofs.Naming.Inflecting

/-!
# Plurals read back

Each rule of the plural leaves an ending of its own. The singular finds the word again exactly if no
rule of the singular takes the plural for that of another word.

* `Pluralized`: the five rules of the plural, for words of small letters.
* `singularChars_ves`, `singularChars_ies`, `singularChars_es`, `singularChars_s`: what the singular
  makes of the endings that they leave.
* `ReadsBack`: the endings of words whose plural is no plural of another word.
* `singular_plural_iff`: a word is the singular of its plural exactly if it has such an ending.
-/

namespace DocumentApi

/-- Words of small ASCII letters. -/
def SmallLetters (cs : List Char) : Prop := ∀ c ∈ cs, c.isLower = true

instance (cs : List Char) : Decidable (SmallLetters cs) :=
  List.decidableBAll (fun c : Char => c.isLower = true) cs

section Endings

-- the endings of a word are compared letter by letter from its end
attribute [local simp] endsInAny List.isSuffixOf List.isPrefixOf

variable {cs v e : List Char}

theorem SmallLetters.append (hv : SmallLetters v) (he : SmallLetters e) : SmallLetters (v ++ e) :=
  List.forall_mem_append.mpr ⟨hv, he⟩

theorem SmallLetters.of_append (h : SmallLetters (v ++ e)) : SmallLetters v :=
  (List.forall_mem_append.mp h).1

/-- Small letters are their own lower case. -/
theorem SmallLetters.lowerChars (h : SmallLetters cs) : lowerChars cs = cs := by
  have hascii : ∀ c ∈ cs, c.toNat < 128 := fun c hc =>
    toNat_lt_of_isAlpha (isAlpha_of_isLower (h c hc))
  unfold DocumentApi.lowerChars
  rw [lowerFrom_of_ascii hascii]
  exact (List.map_congr_left fun c hc => toLower_of_isLower (h c hc)).trans (List.map_id cs)

theorem exists_of_endsInAny {ending : String} (h : endsInAny [ending] cs = true) :
    ∃ v, cs = v ++ ending.toList := by
  obtain ⟨ending', hmem, v, hv⟩ := endsInAny_iff.mp h
  obtain rfl := List.mem_singleton.mp hmem
  exact ⟨v, hv.symm⟩

/-! ## What the singular reads -/

/-- Of `ves` an `fe` is made in knives and wives, and an `f` after any other `l` than that of
valves, solves and volves. -/
theorem singularChars_ves (h : SmallLetters v) :
    singularChars (v ++ ['v', 'e', 's']) =
      if endsInAny ["kni", "wi"] v then v ++ ['f', 'e']
      else if endsInAny ["l"] v && !endsInAny ["val", "sol", "vol"] v then v ++ ['f']
      else v ++ ['v', 'e'] := by
  have hsmall : SmallLetters (v ++ ['v', 'e', 's']) := h.append (by simp [SmallLetters])
  have hdrop : dropEnd 3 (v ++ ['v', 'e', 's']) = v := dropEnd_append v ['v', 'e', 's']
  have hdrop' : dropEnd 1 (v ++ ['v', 'e', 's']) = v ++ ['v', 'e'] := by
    simpa using dropEnd_append (v ++ ['v', 'e']) ['s']
  unfold singularChars
  rw [hsmall.lowerChars, hdrop, hdrop']
  simp

theorem singularChars_ies (h : SmallLetters v) (hne : v ≠ []) :
    singularChars (v ++ ['i', 'e', 's']) = v ++ ['y'] := by
  have hsmall : SmallLetters (v ++ ['i', 'e', 's']) := h.append (by simp [SmallLetters])
  have hdrop : dropEnd 3 (v ++ ['i', 'e', 's']) = v := dropEnd_append v ['i', 'e', 's']
  unfold singularChars
  rw [hsmall.lowerChars, hdrop]
  simp [hne]

theorem singularChars_es (h : SmallLetters v) (hsibilant : endsInAny sibilants v = true) :
    singularChars (v ++ ['e', 's']) = v := by
  have hsmall : SmallLetters (v ++ ['e', 's']) := h.append (by simp [SmallLetters])
  have hdrop : dropEnd 2 (v ++ ['e', 's']) = v := dropEnd_append v ['e', 's']
  obtain ⟨ending, hending, u, rfl⟩ := endsInAny_iff.mp hsibilant
  unfold singularChars
  rw [hsmall.lowerChars, hdrop]
  fin_cases hending <;> simp

theorem endsInAny_concat_s (endings : List String) (v : List Char) :
    endsInAny (endings.map (· ++ "s")) (v ++ ['s']) = endsInAny endings v := by
  unfold endsInAny
  simp [List.isSuffixOf, Function.comp_def]

theorem endsInAny_of_subset {endings more : List String} (h : endsInAny more cs = false)
    (hsub : endings ⊆ more) : endsInAny endings cs = false := by
  rw [Bool.eq_false_iff] at h ⊢
  intro hends
  obtain ⟨ending, hmem, hsuffix⟩ := endsInAny_iff.mp hends
  exact h (endsInAny_iff.mpr ⟨ending, hsub hmem, hsuffix⟩)

/-- A last `s` alone is dropped, unless the letters before it make up a rule with it. -/
theorem singularChars_s (h : SmallLetters v) (hsibilant : endsInAny sibilants v = false)
    (he : endsInAny ["ie", "se", "xe", "ze", "che", "she", "knive", "wive"] v = false)
    (hlve : endsInAny ["lve"] v = true → endsInAny ["valve", "solve", "volve"] v = true) :
    singularChars (v ++ ['s']) = v := by
  have hsmall : SmallLetters (v ++ ['s']) := h.append (by simp [SmallLetters])
  have hdrop : dropEnd 1 (v ++ ['s']) = v := dropEnd_append v ['s']
  have hies : endsInAny ["ies"] (v ++ ['s']) = false :=
    (endsInAny_concat_s ["ie"] v).trans (endsInAny_of_subset he (by decide))
  have hknives : endsInAny ["knives", "wives"] (v ++ ['s']) = false :=
    (endsInAny_concat_s ["knive", "wive"] v).trans (endsInAny_of_subset he (by decide))
  have hlves : (endsInAny ["lves"] (v ++ ['s']) &&
      !endsInAny ["valves", "solves", "volves"] (v ++ ['s'])) = false := by
    rw [show endsInAny ["lves"] (v ++ ['s']) = endsInAny ["lve"] v from
        endsInAny_concat_s ["lve"] v,
      show endsInAny ["valves", "solves", "volves"] (v ++ ['s']) =
        endsInAny ["valve", "solve", "volve"] v from
        endsInAny_concat_s ["valve", "solve", "volve"] v]
    cases hends : endsInAny ["lve"] v with
    | false => rfl
    | true => rw [hlve hends]; rfl
  have hes : endsInAny ["ses", "xes", "zes", "ches", "shes"] (v ++ ['s']) = false :=
    (endsInAny_concat_s ["se", "xe", "ze", "che", "she"] v).trans
      (endsInAny_of_subset he (by decide))
  have hs : endsInAny ["s"] (v ++ ['s']) = true := by simp
  have hss : endsInAny ["ss"] (v ++ ['s']) = false :=
    (endsInAny_concat_s ["s"] v).trans (endsInAny_of_subset hsibilant (by decide))
  unfold singularChars
  rw [hsmall.lowerChars, hdrop]
  dsimp only
  rw [hies, hknives, hlves, hes, hs, hss]
  simp

/-! ## What the plural writes -/

/-- What becomes of a word in its plural. -/
inductive Pluralized : List Char → List Char → Prop
  | fe (v : List Char) (hkeeps : endsInAny keepsF (v ++ ['f', 'e']) = false) :
      Pluralized (v ++ ['f', 'e']) (v ++ ['v', 'e', 's'])
  | f (v : List Char) (hkeeps : endsInAny keepsF (v ++ ['f']) = false) :
      Pluralized (v ++ ['f']) (v ++ ['v', 'e', 's'])
  | y (v : List Char) : Pluralized (v ++ ['y']) (v ++ ['i', 'e', 's'])
  | es (v : List Char) (hsibilant : endsInAny sibilants v = true) : Pluralized v (v ++ ['e', 's'])
  | s (v : List Char) (hsibilant : endsInAny sibilants v = false)
      (hkeeps : endsInAny ["f", "fe"] v = true → endsInAny keepsF v = true) :
      Pluralized v (v ++ ['s'])

theorem pluralized (h : SmallLetters cs) (hne : cs ≠ []) : Pluralized cs (pluralChars cs) := by
  unfold pluralChars
  rw [h.lowerChars]
  dsimp only
  rw [if_neg (by simpa using hne)]
  split
  · rename_i hrule
    obtain ⟨hkeeps, hends⟩ := Bool.and_eq_true_iff.mp hrule
    obtain ⟨v, rfl⟩ : ∃ v, cs = v ++ ['f', 'e'] := exists_of_endsInAny hends
    have hdrop : dropEnd 2 (v ++ ['f', 'e']) = v := dropEnd_append v ['f', 'e']
    rw [hdrop]
    exact .fe v (by simpa using hkeeps)
  split
  · rename_i hrule
    obtain ⟨hkeeps, hends⟩ := Bool.and_eq_true_iff.mp hrule
    obtain ⟨v, rfl⟩ : ∃ v, cs = v ++ ['f'] := exists_of_endsInAny hends
    have hdrop : dropEnd 1 (v ++ ['f']) = v := dropEnd_append v ['f']
    rw [hdrop]
    exact .f v (by simpa using hkeeps)
  rename_i hfe hf
  split
  · rename_i hrule
    obtain ⟨v, rfl⟩ : ∃ v, cs = v ++ ['y'] :=
      exists_of_endsInAny (Bool.and_eq_true_iff.mp hrule).1
    have hdrop : dropEnd 1 (v ++ ['y']) = v := dropEnd_append v ['y']
    rw [hdrop]
    exact .y v
  split
  · exact .es cs ‹_›
  · refine .s cs (Bool.eq_false_iff.mpr ‹_›) fun hends => ?_
    by_contra hkeeps
    rw [Bool.not_eq_true] at hkeeps
    have hnone : endsInAny ["fe"] cs = false ∧ endsInAny ["f"] cs = false := by
      simpa only [hkeeps, Bool.not_false, Bool.true_and, Bool.not_eq_true] using And.intro hfe hf
    have hor : endsInAny ["f", "fe"] cs = (endsInAny ["f"] cs || endsInAny ["fe"] cs) := by
      simp
    rw [hor, hnone.1, hnone.2] at hends
    cases hends

/-! ## Words that are read back -/

/-- Endings of words whose plural is no plural of another word. -/
structure ReadsBack (cs : List Char) : Prop where
  /-- With an `s` these endings make up a rule of the singular. -/
  plain : endsInAny ["ie", "se", "xe", "ze", "che", "she", "knive", "wive"] cs = false
  /-- So does `lve`, the plural of an `lf` elsewhere than in these words. -/
  lve : endsInAny ["lve"] cs = true → endsInAny ["valve", "solve", "volve"] cs = true
  /-- An `f` or `fe` that becomes `ves` is found again in knives, wives and `lves` alone. -/
  ves : endsInAny ["f", "fe"] cs = true → endsInAny keepsF cs = false →
    endsInAny ["knife", "wife"] cs = true ∨
      endsInAny ["lf"] cs = true ∧ endsInAny ["valf", "solf", "volf"] cs = false

theorem readsBack_fe_iff (hkeeps : endsInAny keepsF (v ++ ['f', 'e']) = false) :
    ReadsBack (v ++ ['f', 'e']) ↔ endsInAny ["kni", "wi"] v = true := by
  constructor
  · intro h
    have hves := h.ves (by simp) hkeeps
    simpa using hves
  · intro hkni
    refine ⟨by simp, by simp, fun _ _ => Or.inl ?_⟩
    simpa using hkni

theorem readsBack_f_iff (hkeeps : endsInAny keepsF (v ++ ['f']) = false) :
    ReadsBack (v ++ ['f']) ↔
      endsInAny ["l"] v = true ∧ endsInAny ["val", "sol", "vol"] v = false := by
  constructor
  · intro h
    have hves := h.ves (by simp) hkeeps
    simpa using hves
  · intro hl
    refine ⟨by simp, by simp, fun _ _ => Or.inr ?_⟩
    simpa using hl

theorem readsBack_y (v : List Char) : ReadsBack (v ++ ['y']) := by
  constructor <;> simp

theorem readsBack_of_sibilant (h : endsInAny sibilants v = true) : ReadsBack v := by
  obtain ⟨ending, hending, u, rfl⟩ := endsInAny_iff.mp h
  fin_cases hending <;> constructor <;> simp

/-- Without its `s` a plural that a rule of the singular takes is one of three. -/
theorem cases_of_not_plain
    (h : endsInAny ["ie", "se", "xe", "ze", "che", "she", "knive", "wive"] v = true) :
    (∃ u, v = u ++ ['i', 'e']) ∨ (∃ u, endsInAny sibilants u = true ∧ v = u ++ ['e']) ∨
      ∃ u, endsInAny ["kni", "wi"] u = true ∧ v = u ++ ['v', 'e'] := by
  have hsibilant : ∀ u ending, ending ∈ sibilants →
      ∃ w, endsInAny sibilants w = true ∧ u ++ (ending.toList ++ ['e']) = w ++ ['e'] :=
    fun u ending hending => ⟨u ++ ending.toList, endsInAny_iff.mpr ⟨ending, hending, u, rfl⟩,
      (List.append_assoc _ _ _).symm⟩
  have hknife : ∀ u ending, ending ∈ ["kni", "wi"] →
      ∃ w, endsInAny ["kni", "wi"] w = true ∧
        u ++ (ending.toList ++ ['v', 'e']) = w ++ ['v', 'e'] :=
    fun u ending hending => ⟨u ++ ending.toList, endsInAny_iff.mpr ⟨ending, hending, u, rfl⟩,
      (List.append_assoc _ _ _).symm⟩
  obtain ⟨ending, hending, u, rfl⟩ := endsInAny_iff.mp h
  fin_cases hending
  · exact Or.inl ⟨u, rfl⟩
  · exact Or.inr (Or.inl (hsibilant u "s" (by decide)))
  · exact Or.inr (Or.inl (hsibilant u "x" (by decide)))
  · exact Or.inr (Or.inl (hsibilant u "z" (by decide)))
  · exact Or.inr (Or.inl (hsibilant u "ch" (by decide)))
  · exact Or.inr (Or.inl (hsibilant u "sh" (by decide)))
  · exact Or.inr (Or.inr (hknife u "kni" (by decide)))
  · exact Or.inr (Or.inr (hknife u "wi" (by decide)))

/-- A word that takes an `s` alone has one of the endings if it is found again, but for `ie`, which
is too short for the rule of its `ies`. -/
theorem readsBack_of_singularChars_s (hsmall : SmallLetters v)
    (hkeeps : endsInAny ["f", "fe"] v = true → endsInAny keepsF v = true)
    (h : singularChars (v ++ ['s']) = v) : ReadsBack v ∨ v = ['i', 'e'] := by
  by_cases hplain : endsInAny ["ie", "se", "xe", "ze", "che", "she", "knive", "wive"] v = true
  · right
    rcases cases_of_not_plain hplain with ⟨u, rfl⟩ | ⟨u, hsibilant, rfl⟩ | ⟨u, hkni, rfl⟩
    · by_cases hu : u = []
      · rw [hu, List.nil_append]
      · rw [List.append_assoc] at h
        have hback := (singularChars_ies hsmall.of_append hu).symm.trans h
        simp at hback
    · rw [List.append_assoc] at h
      have hback := (singularChars_es hsmall.of_append hsibilant).symm.trans h
      simp at hback
    · rw [List.append_assoc] at h
      have hback := (singularChars_ves hsmall.of_append).symm.trans h
      rw [if_pos hkni] at hback
      simp at hback
  · refine Or.inl ⟨Bool.eq_false_iff.mpr hplain, fun hlve => ?_, fun hf hnone => ?_⟩
    · obtain ⟨u, rfl⟩ : ∃ u, v = u ++ ['l', 'v', 'e'] := exists_of_endsInAny hlve
      obtain ⟨w, hw⟩ : ∃ w, w = u ++ ['l'] := ⟨_, rfl⟩
      rw [show u ++ ['l', 'v', 'e'] = w ++ ['v', 'e'] by simp [hw]] at hsmall h ⊢
      rw [List.append_assoc] at h
      have hback := (singularChars_ves hsmall.of_append).symm.trans h
      have hvalve : endsInAny ["valve", "solve", "volve"] (w ++ ['v', 'e']) =
          endsInAny ["val", "sol", "vol"] w := by
        simp
      have hl : endsInAny ["l"] w = true := by simp [hw]
      by_contra hother
      rw [hvalve, Bool.not_eq_true] at hother
      rw [hl, hother] at hback
      split at hback <;> simp at hback
    · rw [hkeeps hf] at hnone
      cases hnone

/-- A word is the singular of its plural exactly if it has one of the endings, or is `ie`. -/
theorem singularChars_pluralChars_iff (hsmall : SmallLetters cs) (hlong : 2 ≤ cs.length) :
    singularChars (pluralChars cs) = cs ↔ ReadsBack cs ∨ cs = ['i', 'e'] := by
  have hne : cs ≠ [] := by
    rintro rfl
    exact absurd hlong (by decide)
  have hplural := pluralized hsmall hne
  generalize pluralChars cs = many at hplural ⊢
  cases hplural with
  | fe v hkeeps =>
    rw [readsBack_fe_iff hkeeps, singularChars_ves hsmall.of_append]
    constructor
    · intro hback
      split at hback
      · exact Or.inl ‹_›
      split at hback <;> simp at hback
    · rintro (hkni | hie)
      · rw [if_pos hkni]
      · have := congrArg List.reverse hie
        simp at this
  | f v hkeeps =>
    rw [readsBack_f_iff hkeeps, singularChars_ves hsmall.of_append]
    constructor
    · intro hback
      split at hback
      · simp at hback
      split at hback
      · rename_i hl
        exact Or.inl (by simpa using hl)
      · simp at hback
    · rintro (⟨hl, hother⟩ | hie)
      · have hkni : endsInAny ["kni", "wi"] v = false := by
          obtain ⟨u, rfl⟩ : ∃ u, v = u ++ ['l'] := exists_of_endsInAny hl
          simp
        rw [hkni, hl, hother]
        rfl
      · have := congrArg List.reverse hie
        simp at this
  | y v =>
    have hv : v ≠ [] := by
      rintro rfl
      exact absurd hlong (by decide)
    exact iff_of_true (singularChars_ies hsmall.of_append hv) (Or.inl (readsBack_y v))
  | es v hsibilant =>
    exact iff_of_true (singularChars_es hsmall hsibilant)
      (Or.inl (readsBack_of_sibilant hsibilant))
  | s v hsibilant hkeeps =>
    refine ⟨readsBack_of_singularChars_s hsmall hkeeps, ?_⟩
    rintro (hback | rfl)
    · exact singularChars_s hsmall hsibilant hback.plain hback.lve
    · decide

end Endings

/-- A word of at least two small letters is the singular of its plural exactly if the plural is none
of another word; `ie` is an exception, since its plural is too short for the rule of `ies`. -/
theorem singular_plural_iff {word : String} (hsmall : SmallLetters word.toList)
    (hlong : 2 ≤ word.length) :
    singular (plural word) = word ↔ ReadsBack word.toList ∨ word = "ie" := by
  have hback := singularChars_pluralChars_iff hsmall (by rwa [String.length_toList])
  unfold singular plural
  rw [String.toList_ofList, ← String.toList_inj, String.toList_ofList, hback]
  exact or_congr Iff.rfl (String.toList_inj : word.toList = "ie".toList ↔ word = "ie")

/-- A wolf is the singular of wolves, but a leaf is not that of leaves. -/
theorem singular_plural_wolf : SmallLetters "wolf".toList ∧ 2 ≤ "wolf".length ∧
    ReadsBack "wolf".toList ∧ plural "wolf" = "wolves" ∧ singular (plural "wolf") = "wolf" ∧
    SmallLetters "leaf".toList ∧ ¬ ReadsBack "leaf".toList ∧
    singular (plural "leaf") ≠ "leaf" := by
  have hwolf : SmallLetters "wolf".toList := by simp [SmallLetters]
  have hleaf : SmallLetters "leaf".toList := by simp [SmallLetters]
  have hback : ReadsBack "wolf".toList := ⟨by decide, by decide, by decide⟩
  have hlost : ¬ ReadsBack "leaf".toList := fun h => absurd h.ves (by decide)
  refine ⟨hwolf, by decide, hback, by decide, ?_, hleaf, hlost, fun hsame => ?_⟩
  · exact (singular_plural_iff hwolf (by decide)).mpr (Or.inl hback)
  · rcases (singular_plural_iff hleaf (by decide)).mp hsame with h | h
    · exact hlost h
    · exact absurd h (by decide)

end DocumentApi
