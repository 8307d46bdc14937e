import DocumentApi.Proofs.Model.Extending
import Mathlib.Data.List.Induction
import Mathlib.Logic.Relation

/-!
# Registrations that are complete

A registration of a definition that was registered before returns at once, also when the earlier
one failed half way. So it completes a definition exactly if everything that the definition embeds
can be registered, which is sure only as long as no registration has failed.

* `Registry.Complete`: a definition and all that it embeds are registered with all their fields.
* `Registry.Accepts`: a definition can be registered with all its fields, or was.
* `Progress`: the definitions that are registered wait for others to be registered, or there is an
  excuse. `registerEmbedded_progress`: the registrations of embedded definitions end the waiting.
* `register_completes_iff`: what a registration that returns has completed, after any calls.
-/

namespace DocumentApi

namespace Registry

variable {r s : Registry} {place other : Nat}

/-- The definition at `place` embeds that at `other`. -/
def Embeds (r : Registry) (place other : Nat) : Prop :=
  ∃ d, r.definitions[place]? = some d ∧ other ∈ embeddedPlaces d.declaredFields

/-- The definition at `place` is that at `other` or embeds it, itself or through others. -/
def Reaches (r : Registry) : Nat → Nat → Prop := Relation.ReflTransGen r.Embeds

/-- The definition at `place` is registered, with the fields `fields`. -/
def Enters (r : Registry) (place : Nat) (d : Definition) (fields : List Field) : Prop :=
  r.definitions[place]? = some d ∧ Table.find? r.models d.name = some ⟨place, fields⟩

def Entered (r : Registry) (place : Nat) : Prop := ∃ d fields, r.Enters place d fields

/-- A definition is registered with all fields that it declares. -/
def Filled (r : Registry) (place : Nat) : Prop :=
  ∃ d fields, r.Enters place d fields ∧ d.declaredFields <+: fields

def Marked (r : Registry) (place : Nat) : Prop :=
  ∃ d, r.definitions[place]? = some d ∧ d.embedded = true

/-- A definition and those that it embeds, itself or through others, are registered with all fields
that they declare, and the latter are marked as embedded. -/
structure Complete (r : Registry) (place : Nat) : Prop where
  filled : ∀ other, r.Reaches place other → r.Filled other
  marked : ∀ other, Relation.TransGen r.Embeds place other → r.Marked other

/-- A definition has a name and fields that can be registered, and no other has its name. -/
def Accepts (r : Registry) (place : Nat) : Prop :=
  ∃ d, r.definitions[place]? = some d ∧ isIdentifier d.name = true ∧ Listable d.declaredFields ∧
    ∀ m, Table.find? r.models d.name = some m → m.place = place

/-- Embedded definitions are among those known. -/
def Closed (r : Registry) : Prop :=
  ∀ place other, r.Embeds place other → other < r.definitions.length

/-! ## What stays -/

/-- A registry that knows the definitions of an earlier one and keeps what was registered. -/
structure Follows (r s : Registry) : Prop extends r.Extends s where
  known : s.definitions.length = r.definitions.length
  named : s.Named

namespace Follows

theorem trans {t : Registry} (h : r.Follows s) (h' : s.Follows t) : r.Follows t :=
  ⟨h.toExtends.trans h'.toExtends, h'.known.trans h.known, h'.named⟩

theorem definition (h : r.Follows s) {d' : Definition} (hd' : s.definitions[place]? = some d') :
    ∃ d, r.definitions[place]? = some d ∧ d.Raised d' := by
  have hplace : place < r.definitions.length := h.known ▸ (List.getElem?_eq_some_iff.mp hd').1
  obtain ⟨d'', hd'', hraised⟩ := h.definitions place _ (List.getElem?_eq_getElem hplace)
  rw [hd'] at hd''
  cases hd''
  exact ⟨_, List.getElem?_eq_getElem hplace, hraised⟩

theorem embeds_eq (h : r.Follows s) : s.Embeds = r.Embeds := by
  funext place other
  refine propext ⟨?_, ?_⟩
  · rintro ⟨d', hd', hother⟩
    obtain ⟨d, hd, hraised⟩ := h.definition hd'
    exact ⟨d, hd, hraised.declaredFields_eq ▸ hother⟩
  · rintro ⟨d, hd, hother⟩
    obtain ⟨d', hd', hraised⟩ := h.definitions place d hd
    exact ⟨d', hd', by rwa [hraised.declaredFields_eq]⟩

theorem reaches_eq (h : r.Follows s) : s.Reaches = r.Reaches := by
  unfold Reaches
  rw [h.embeds_eq]

theorem closed (h : r.Follows s) (hr : r.Closed) : s.Closed := by
  unfold Closed
  rw [h.embeds_eq, h.known]
  exact hr

theorem enters (h : r.Follows s) {d : Definition} {fields : List Field}
    (he : r.Enters place d fields) :
    ∃ d' fields', s.Enters place d' fields' ∧ d.Raised d' ∧ fields <+: fields' := by
  obtain ⟨d', hd', hraised⟩ := h.definitions place d he.1
  obtain ⟨⟨place', fields'⟩, hm, hplace, hfields⟩ := h.find? h.named he.2
  obtain rfl : place' = place := hplace
  exact ⟨d', fields', ⟨hd', hraised.name_eq ▸ hm⟩, hraised, hfields⟩

theorem entered (h : r.Follows s) (he : r.Entered place) : s.Entered place := by
  obtain ⟨d, fields, he⟩ := he
  obtain ⟨d', fields', he', -⟩ := h.enters he
  exact ⟨d', fields', he'⟩

theorem filled (h : r.Follows s) (hf : r.Filled place) : s.Filled place := by
  obtain ⟨d, fields, he, hfields⟩ := hf
  obtain ⟨d', fields', he', hraised, hmore⟩ := h.enters he
  exact ⟨d', fields', he', hraised.declaredFields_eq ▸ hfields.trans hmore⟩

theorem marked (h : r.Follows s) (hm : r.Marked place) : s.Marked place := by
  obtain ⟨d, hd, hembedded⟩ := hm
  obtain ⟨d', hd', hraised⟩ := h.definitions place d hd
  exact ⟨d', hd', hraised.embedded hembedded⟩

/-- A definition that is refused once is refused for ever. -/
theorem accepts (h : r.Follows s) (ha : s.Accepts place) : r.Accepts place := by
  obtain ⟨d', hd', hname, hfields, hown⟩ := ha
  obtain ⟨d, hd, hraised⟩ := h.definition hd'
  rw [hraised.name_eq] at hname hown
  rw [hraised.declaredFields_eq] at hfields
  refine ⟨d, hd, hname, hfields, fun m hm => ?_⟩
  obtain ⟨m', hm', hplace, -⟩ := h.find? h.named hm
  exact hplace ▸ hown m' hm'

end Follows

theorem markEmbedded_follows (hr : r.Named) (place : Nat) : r.Follows (r.markEmbedded place) :=
  ⟨markEmbedded_extends r place, List.length_modify .., Named.invariant.mark place hr⟩

theorem registerOne_definitions (r : Registry) (place : Nat) :
    (r.registerOne place).1.definitions = r.definitions := by
  unfold registerOne
  split
  · rfl
  rename_i d hd
  split
  · rfl
  split
  · split <;> rfl
  have hadd := (has_addFields { r with models := Table.set r.models d.name ⟨place, []⟩ } d.name
    d.declaredFields).1
  dsimp only
  split
  · rename_i hs; rw [hs] at hadd; exact hadd
  · rename_i hs; rw [hs] at hadd; exact hadd

theorem registerOne_follows (hr : r.Named) (place : Nat) : r.Follows (r.registerOne place).1 :=
  ⟨registerOne_extends r place, by rw [registerOne_definitions],
    Named.invariant.registerOne hr place⟩

theorem registerEmbedded_follows (hr : r.Named) (work : List Nat) :
    r.Follows (r.registerEmbedded work).1 := by
  fun_induction registerEmbedded r work with
  | case1 r => exact ⟨.refl r, rfl, hr⟩
  | case2 r place rest s places hs ih =>
    have hmark := markEmbedded_follows hr place
    have hone := registerOne_follows hmark.named place
    rw [hs] at hone
    exact (hmark.trans hone).trans (ih hone.named)
  | case3 r place rest s e hs =>
    have hmark := markEmbedded_follows hr place
    have hone := registerOne_follows hmark.named place
    rw [hs] at hone
    exact hmark.trans hone

theorem register_follows (hr : r.Named) (place : Nat) : r.Follows (r.register place).1 := by
  have hone := registerOne_follows hr place
  unfold register
  split
  · rename_i s places hs
    rw [hs] at hone
    exact hone.trans (registerEmbedded_follows hone.named places)
  · rename_i s e hs
    rw [hs] at hone
    exact hone

theorem addField_follows {model : String} {f : Field} (hr : r.Named)
    (h : r.addField model f = .ok s) : r.Follows s :=
  ⟨addField_extends h, by rw [(has_addField h).1], hr.addField h⟩

/-! ## The registration of one definition -/

/-- Fields are added up to the first that the model cannot list. -/
theorem addFields_ends {model : String} {m : Registration}
    (hm : Table.find? r.models model = some m) (hfields : Listable m.fields) (fields : List Field) :
    (∀ other, model ≠ other →
      Table.find? (r.addFields model fields).1.models other = Table.find? r.models other) ∧
    ∃ m', Table.find? (r.addFields model fields).1.models model = some m' ∧ m'.place = m.place ∧
      ((r.addFields model fields).2 = .ok () ∧ m'.fields = m.fields ++ fields ∨
        (∃ e, (r.addFields model fields).2 = .error e) ∧ ¬ Listable (m.fields ++ fields)) := by
  induction fields generalizing r m with
  | nil => exact ⟨fun _ _ => rfl, m, hm, rfl, .inl ⟨rfl, by simp⟩⟩
  | cons f rest ih =>
    unfold addFields
    cases h : r.addField model f with
    | ok s =>
      obtain ⟨hlistable, rfl⟩ := (addField_iff hm hfields).mp h
      obtain ⟨hothers, m', hm', hplace, hends⟩ :=
        ih (r := { r with models := Table.set r.models model { m with fields := m.fields ++ [f] } })
          (m := { m with fields := m.fields ++ [f] }) (Table.find?_set_self ..) hlistable
      refine ⟨fun other hne => (hothers other hne).trans (Table.find?_set_ne hne), m', hm', hplace,
        by simpa using hends⟩
    | error e =>
      refine ⟨fun _ _ => rfl, m, hm, rfl, .inr ⟨⟨e, rfl⟩, fun hlistable => ?_⟩⟩
      have hprefix : m.fields ++ [f] <+: m.fields ++ f :: rest :=
        List.prefix_append_right_inj _ |>.mpr (by simp)
      rw [(addField_iff hm hfields).mpr ⟨hlistable.of_prefix hprefix, rfl⟩] at h
      cases h

/-- What the registration of one definition does. -/
theorem registerOne_cases {d : Definition} (hd : r.definitions[place]? = some d) :
    (isIdentifier d.name = false ∧ r.registerOne place = (r, .error (.modelNameInvalid d.name))) ∨
    (∃ m, Table.find? r.models d.name = some m ∧
      (m.place = place ∧ r.registerOne place = (r, .ok []) ∨
        m.place ≠ place ∧ r.registerOne place = (r, .error (.modelRegistered d.name)))) ∨
    (Table.find? r.models d.name = none ∧ ∃ t answer,
      addFields { r with models := Table.set r.models d.name ⟨place, []⟩ } d.name
        d.declaredFields = (t, answer) ∧
      r.registerOne place = (t, answer.map fun _ => embeddedPlaces d.declaredFields)) := by
  unfold registerOne
  rw [hd]
  dsimp only
  cases hname : isIdentifier d.name with
  | false => exact .inl ⟨rfl, rfl⟩
  | true =>
    refine .inr ?_
    rw [Bool.not_true, if_neg Bool.false_ne_true]
    cases hm : Table.find? r.models d.name with
    | some m =>
      refine .inl ⟨m, rfl, ?_⟩
      by_cases hplace : m.place = place
      · exact .inl ⟨hplace, if_pos hplace⟩
      · exact .inr ⟨hplace, if_neg hplace⟩
    | none =>
      refine .inr ⟨rfl, ?_⟩
      rcases addFields { r with models := Table.set r.models d.name ⟨place, []⟩ } d.name
        d.declaredFields with ⟨t, e | answer⟩
      · exact ⟨t, .error e, rfl, rfl⟩
      · exact ⟨t, .ok answer, rfl, rfl⟩

/-- The registration of a definition fails because it is refused, finds it registered, or registers
it with all fields that it declares. It registers no other one. -/
theorem registerOne_ends {d : Definition} (hd : r.definitions[place]? = some d) :
    (∀ other, (r.registerOne place).1.Entered other → r.Entered other ∨ other = place) ∧
    ((∃ e, (r.registerOne place).2 = .error e) ∧ ¬ (r.registerOne place).1.Accepts place ∨
      r.Entered place ∧ r.registerOne place = (r, .ok []) ∨
      (r.registerOne place).1.Filled place ∧
        (r.registerOne place).2 = .ok (embeddedPlaces d.declaredFields)) := by
  have hself : ∀ {s : Registry}, s.definitions = r.definitions → s.Accepts place →
      isIdentifier d.name = true ∧ Listable d.declaredFields ∧
        ∀ m, Table.find? s.models d.name = some m → m.place = place := by
    rintro s hs ⟨d', hd', haccepts⟩
    rw [hs, hd] at hd'
    cases hd'
    exact haccepts
  rcases registerOne_cases hd with ⟨hname, h⟩ | ⟨m, hm, ⟨hplace, h⟩ | ⟨hplace, h⟩⟩ |
    ⟨hnew, t, answer, hadd, h⟩
  · rw [h]
    refine ⟨fun _ => .inl, .inl ⟨⟨_, rfl⟩, fun haccepts => ?_⟩⟩
    rw [(hself rfl haccepts).1] at hname
    cases hname
  · rw [h]
    refine ⟨fun _ => .inl, .inr (.inl ⟨⟨d, m.fields, hd, ?_⟩, rfl⟩)⟩
    rw [hm, ← hplace]
  · rw [h]
    exact ⟨fun _ => .inl, .inl ⟨⟨_, rfl⟩, fun haccepts => hplace ((hself rfl haccepts).2.2 m hm)⟩⟩
  · have hdefinitions := registerOne_definitions r place
    obtain ⟨hothers, m, hm, hplace, hends⟩ :=
      addFields_ends (r := { r with models := Table.set r.models d.name ⟨place, []⟩ })
        (Table.find?_set_self r.models d.name ⟨place, []⟩) .nil d.declaredFields
    rw [h] at hdefinitions ⊢
    rw [hadd] at hothers hm hends
    dsimp only at hdefinitions hothers hm hplace hends ⊢
    refine ⟨?_, ?_⟩
    · rintro other ⟨d', fields, hd', hfound⟩
      by_cases hsame : d.name = d'.name
      · rw [← hsame, hm] at hfound
        rw [Option.some.inj hfound] at hplace
        exact .inr hplace
      · rw [hothers _ hsame, Table.find?_set_ne hsame] at hfound
        exact .inl ⟨d', fields, hdefinitions ▸ hd', hfound⟩
    · rcases hends with ⟨rfl, hfields⟩ | ⟨⟨e, rfl⟩, hfields⟩
      · refine .inr (.inr ⟨⟨d, m.fields, ⟨hdefinitions ▸ hd, ?_⟩, ?_⟩, rfl⟩)
        · rw [hm, ← hplace]
        · simp [hfields]
      · exact .inl ⟨⟨e, rfl⟩, fun haccepts => hfields (hself hdefinitions haccepts).2.1⟩

/-! ## Definitions that wait for others -/

/-- A registered definition has its fields, and those that it embeds are registered and marked or it
waits for them, unless it is excused. -/
def Progress (excused : Nat → Prop) (waits : Nat → Nat → Prop) (r : Registry) : Prop :=
  ∀ place, r.Entered place →
    (r.Filled place ∧ ∀ other, r.Embeds place other →
      r.Entered other ∧ r.Marked other ∨ waits place other) ∨ excused place

/-- A definition waits for one to be registered next, if it embeds all that come before that. -/
def Waits (r : Registry) (work : List Nat) (place other : Nat) : Prop :=
  ∃ front, front <+: work ∧ other ∈ front ∧ ∀ next ∈ front, r.Reaches place next

/-- A definition that a registered one embeds is refused. -/
def Blocked (r : Registry) (place : Nat) : Prop :=
  ∃ other, r.Reaches place other ∧ ¬ r.Accepts other

theorem Follows.blocked (h : r.Follows s) (hb : r.Blocked place) : s.Blocked place := by
  obtain ⟨other, hreaches, hrefused⟩ := hb
  exact ⟨other, h.reaches_eq ▸ hreaches, fun haccepts => hrefused (h.accepts haccepts)⟩

theorem Filled.entered (h : r.Filled place) : r.Entered place := by
  obtain ⟨d, fields, he, -⟩ := h
  exact ⟨d, fields, he⟩

section Progress

variable {excused : Nat → Prop} {waits : Nat → Nat → Prop}

namespace Progress

theorem mono {waits' : Nat → Nat → Prop} (h : Progress excused waits r)
    (hwaits : ∀ place other, waits place other →
      r.Entered other ∧ r.Marked other ∨ waits' place other) : Progress excused waits' r := by
  refine fun place hplace => (h place hplace).imp_left fun ⟨hfilled, hall⟩ => ⟨hfilled, ?_⟩
  exact fun other hother => (hall other hother).elim .inl (hwaits place other)

/-- Nobody waits any more when those that still do are excused. -/
theorem settle {excused' : Nat → Prop} (h : Progress excused waits r)
    (hwaits : ∀ place other, waits place other → excused' place)
    (hexcused : ∀ place, excused place → excused' place) :
    Progress excused' (fun _ _ => False) r := by
  intro place hplace
  rcases h place hplace with ⟨hfilled, hall⟩ | hexcuse
  · by_cases hdone : ∀ other, r.Embeds place other → r.Entered other ∧ r.Marked other
    · exact .inl ⟨hfilled, fun other hother => .inl (hdone other hother)⟩
    · obtain ⟨other, hother⟩ := not_forall.mp hdone
      obtain ⟨hembeds, hnot⟩ := Classical.not_imp.mp hother
      exact .inr (hwaits place other ((hall other hembeds).resolve_left hnot))
  · exact .inr (hexcused place hexcuse)

/-- What was registered keeps its progress, and so need only be shown what is new. -/
theorem follow (h : Progress excused waits r) (hrs : r.Follows s)
    (hnew : ∀ place, s.Entered place → r.Entered place ∨
      (s.Filled place ∧ ∀ other, s.Embeds place other →
        s.Entered other ∧ s.Marked other ∨ waits place other) ∨ excused place) :
    Progress excused waits s := by
  intro place hplace
  rcases hnew place hplace with hold | hnew
  · refine (h place hold).imp_left fun ⟨hfilled, hall⟩ =>
      ⟨hrs.filled hfilled, fun other hother => ?_⟩
    rw [hrs.embeds_eq] at hother
    exact (hall other hother).imp_left fun ⟨hentered, hmarked⟩ =>
      ⟨hrs.entered hentered, hrs.marked hmarked⟩
  · exact hnew

theorem markEmbedded (h : Progress excused waits r) (hr : r.Named) (place : Nat) :
    Progress excused waits (r.markEmbedded place) := by
  have hmark := markEmbedded_follows hr place
  refine h.follow hmark fun other hother => .inl ?_
  obtain ⟨d', fields, hd', hfound⟩ := hother
  obtain ⟨d, hd, hraised⟩ := hmark.definition hd'
  exact ⟨d, fields, hd, hraised.name_eq ▸ hfound⟩

/-- A definition that is registered waits for those that it embeds. -/
theorem registerOne {d : Definition} {places : List Nat} (h : Progress excused waits r)
    (hr : r.Named) (hd : r.definitions[place]? = some d)
    (hs : r.registerOne place = (s, .ok places)) :
    s.Entered place ∧ (∀ other ∈ places, r.Embeds place other) ∧
    Progress excused (fun asks other => waits asks other ∨ asks = place ∧ other ∈ places) s := by
  have hfollows := registerOne_follows hr place
  obtain ⟨hnew, hends⟩ := registerOne_ends hd
  rw [hs] at hfollows hnew hends
  have hkept : Progress excused
      (fun asks other => waits asks other ∨ asks = place ∧ other ∈ places) r :=
    h.mono fun _ _ hwait => .inr (.inl hwait)
  rcases hends with ⟨⟨e, he⟩, -⟩ | ⟨hentered, hsame⟩ | ⟨hfilled, hplaces⟩
  · cases he
  · cases hsame
    exact ⟨hentered, fun _ hother => absurd hother List.not_mem_nil, hkept⟩
  · obtain rfl := Except.ok.inj hplaces
    refine ⟨hfilled.entered, fun other hother => ⟨d, hd, hother⟩, ?_⟩
    refine hkept.follow hfollows fun other hother => (hnew other hother).imp_right ?_
    rintro rfl
    refine .inl ⟨hfilled, fun next hnext => .inr (.inr ⟨rfl, ?_⟩)⟩
    rw [hfollows.embeds_eq] at hnext
    obtain ⟨d', hd', hnext⟩ := hnext
    rw [hd] at hd'
    cases hd'
    exact hnext

/-- A definition that is refused is an excuse for itself and for all that embed it. -/
theorem registerOne_error {d : Definition} {e : Error} (h : Progress excused waits r)
    (hr : r.Named) (hd : r.definitions[place]? = some d)
    (hs : r.registerOne place = (s, .error e))
    (hwaits : ∀ asks other, waits asks other → r.Reaches asks place) :
    Progress (fun asks => excused asks ∨ s.Blocked asks) (fun _ _ => False) s := by
  have hfollows := registerOne_follows hr place
  obtain ⟨hnew, hends⟩ := registerOne_ends hd
  rw [hs] at hfollows hnew hends
  have hrefused : ¬ s.Accepts place := by
    rcases hends with ⟨-, hrefused⟩ | ⟨-, hsame⟩ | ⟨-, hplaces⟩
    · exact hrefused
    · cases hsame
    · cases hplaces
  have hkept : Progress (fun asks => excused asks ∨ s.Blocked asks) waits r :=
    fun asks hasks => (h asks hasks).imp_right .inl
  refine (hkept.follow hfollows fun asks hasks => (hnew asks hasks).imp_right ?_).settle ?_
    fun _ hexcuse => hexcuse
  · rintro rfl
    exact .inr (.inr ⟨asks, .refl, hrefused⟩)
  · exact fun asks other hwait =>
      .inr ⟨place, hfollows.reaches_eq ▸ hwaits asks other hwait, hrefused⟩

end Progress

theorem Waits.cons {work : List Nat} {asks : Nat} (h : r.Waits (place :: work) asks other) :
    r.Reaches asks place ∧ (other = place ∨ r.Waits work asks other) := by
  obtain ⟨front, hfront, hother, hreaches⟩ := h
  rcases List.prefix_cons_iff.mp hfront with rfl | ⟨rest, rfl, hrest⟩
  · cases hother
  · refine ⟨hreaches place List.mem_cons_self, (List.mem_cons.mp hother).imp_right fun hmem => ?_⟩
    exact ⟨rest, hrest, hmem, fun next hnext => hreaches next (List.mem_cons_of_mem _ hnext)⟩

theorem Waits.append {places work : List Nat} {asks : Nat} (h : r.Waits work asks other)
    (hplaces : ∀ next ∈ places, r.Reaches asks next) : r.Waits (places ++ work) asks other := by
  obtain ⟨front, hfront, hother, hreaches⟩ := h
  refine ⟨places ++ front, (List.prefix_append_right_inj places).mpr hfront,
    List.mem_append_right _ hother, fun next hnext => ?_⟩
  exact (List.mem_append.mp hnext).elim (hplaces next) (hreaches next)

theorem Follows.waits_iff (h : r.Follows s) {work : List Nat} {asks : Nat} :
    s.Waits work asks other ↔ r.Waits work asks other := by
  unfold Waits
  rw [h.reaches_eq]

theorem marked_markEmbedded (h : place < r.definitions.length) :
    (r.markEmbedded place).Marked place := by
  unfold markEmbedded Marked
  rw [List.getElem?_modify, List.getElem?_eq_getElem h]
  simp

/-- The registrations of embedded definitions end the waiting for them, or one is refused. -/
theorem registerEmbedded_progress {work : List Nat} (hr : r.Named) (hclosed : r.Closed)
    (hwork : ∀ place ∈ work, place < r.definitions.length)
    (h : Progress excused (r.Waits work) r) :
    Progress (fun place => excused place ∨
        (∃ e, (r.registerEmbedded work).2 = .error e) ∧ (r.registerEmbedded work).1.Blocked place)
      (fun _ _ => False) (r.registerEmbedded work).1 := by
  fun_induction registerEmbedded r work with
  | case1 r =>
    refine h.settle (fun place other hwait => ?_) fun _ => .inl
    obtain ⟨front, hfront, hmem, -⟩ := hwait
    rw [List.prefix_nil.mp hfront] at hmem
    cases hmem
  | case2 r place rest s places hs ih =>
    have hmark := markEmbedded_follows hr place
    have hone := registerOne_follows hmark.named place
    rw [hs] at hone
    have hplace := hwork place List.mem_cons_self
    obtain ⟨hentered, hembeds, hprogress⟩ := (h.markEmbedded hr place).registerOne hmark.named
      (List.getElem?_eq_getElem (hmark.known ▸ hplace)) hs
    have hmarked := hone.marked (marked_markEmbedded hplace)
    have hfollows := hmark.trans hone
    rw [hmark.embeds_eq] at hembeds
    refine ih hone.named (hfollows.closed hclosed) (fun next hnext => ?_) (hprogress.mono ?_)
    · rw [hfollows.known]
      rcases List.mem_append.mp hnext with hnext | hnext
      · exact hclosed place next (hembeds next hnext)
      · exact hwork next (List.mem_cons_of_mem _ hnext)
    · rintro asks other (hwait | ⟨rfl, hother⟩)
      · obtain ⟨hreaches, rfl | hwait⟩ := hwait.cons
        · exact .inl ⟨hentered, hmarked⟩
        · exact .inr (hfollows.waits_iff.mpr
            (hwait.append fun next hnext => hreaches.tail (hembeds next hnext)))
      · refine .inr (hfollows.waits_iff.mpr ⟨places, List.prefix_append _ _, hother, ?_⟩)
        exact fun next hnext => .single (hembeds next hnext)
  | case3 r place rest s e hs =>
    have hmark := markEmbedded_follows hr place
    have hplace := hmark.known ▸ hwork place List.mem_cons_self
    have hprogress := (h.markEmbedded hr place).registerOne_error hmark.named
      (List.getElem?_eq_getElem hplace) hs fun asks other hwait => hmark.reaches_eq ▸ hwait.cons.1
    exact hprogress.settle (fun _ _ hwait => hwait.elim) fun asks hexcuse =>
      hexcuse.imp_right fun hblocked => ⟨⟨e, rfl⟩, hblocked⟩

/-- A registration that returns leaves no definition waiting, and one that fails leaves only such
that embed one that is refused. -/
theorem register_progress (hr : r.Named) (hclosed : r.Closed)
    (hplace : place < r.definitions.length)
    (h : Progress excused (fun _ _ => False) r) :
    Progress (fun other => excused other ∨
        (∃ e, (r.register place).2 = .error e) ∧ (r.register place).1.Blocked other)
      (fun _ _ => False) (r.register place).1 := by
  have hfollows := registerOne_follows hr place
  have hd := List.getElem?_eq_getElem hplace
  unfold register
  rcases hs : r.registerOne place with ⟨s, e | places⟩
  · have hprogress := h.registerOne_error hr hd hs fun _ _ hwait => hwait.elim
    exact hprogress.settle (fun _ _ hwait => hwait.elim) fun asks hexcuse =>
      hexcuse.imp_right fun hblocked => ⟨⟨e, rfl⟩, hblocked⟩
  · rw [hs] at hfollows
    obtain ⟨-, hembeds, hprogress⟩ := h.registerOne hr hd hs
    refine registerEmbedded_progress hfollows.named (hfollows.closed hclosed) (fun next hnext => ?_)
      (hprogress.mono ?_)
    · rw [hfollows.known]
      exact hclosed place next (hembeds next hnext)
    · rintro asks other (hwait | ⟨rfl, hother⟩)
      · exact hwait.elim
      · refine .inr (hfollows.waits_iff.mpr ⟨places, List.prefix_refl _, hother, ?_⟩)
        exact fun next hnext => .single (hembeds next hnext)

/-- A definition without an excuse is complete, if none that it embeds has one. -/
theorem Progress.complete (h : Progress excused (fun _ _ => False) r) (hentered : r.Entered place)
    (hexcused : ∀ other, r.Reaches place other → ¬ excused other) : r.Complete place := by
  have hdone : ∀ other, r.Reaches place other → r.Entered other → r.Filled other ∧
      ∀ next, r.Embeds other next → r.Entered next ∧ r.Marked next := by
    intro other hother hentered
    obtain ⟨hfilled, hall⟩ := (h other hentered).resolve_right (hexcused other hother)
    exact ⟨hfilled, fun next hnext => (hall next hnext).resolve_right id⟩
  have hreached : ∀ other, r.Reaches place other → r.Entered other := by
    intro other hother
    induction hother with
    | refl => exact hentered
    | tail hother hnext ih => exact ((hdone _ hother ih).2 _ hnext).1
  refine ⟨fun other hother => (hdone other hother (hreached other hother)).1, ?_⟩
  intro other hother
  obtain ⟨last, hlast, hnext⟩ := Relation.TransGen.tail'_iff.mp hother
  exact ((hdone last hlast (hreached last hlast)).2 other hnext).2

/-! ## Calls -/

/-- A call is the registration of a definition and fails. -/
def Fails (r : Registry) (c : Call) : Prop :=
  ∃ place e, c = .register place ∧ (r.call c).2 = .error e

theorem call_follows (hr : r.Named) (c : Call) : r.Follows (r.call c).1 := by
  cases c with
  | register place => exact register_follows hr place
  | addField model f =>
    unfold call
    dsimp only
    split
    · rename_i s hs
      exact addField_follows hr hs
    · exact ⟨.refl r, rfl, hr⟩

theorem entered_addField {model : String} {f : Field} (h : r.addField model f = .ok s)
    (hs : s.Entered place) : r.Entered place := by
  obtain ⟨d, fields, hd, hfound⟩ := hs
  unfold addField at h
  split at h
  · cases h
  rename_i m hm
  split at h
  · cases h
  split at h
  · cases h
  cases h
  rw [Table.find?_set] at hfound
  split at hfound
  · rename_i hname
    cases hfound
    exact ⟨d, m.fields, hd, hname ▸ hm⟩
  · exact ⟨d, fields, hd, hfound⟩

/-- Only a registration that fails leaves definitions that wait for others. -/
theorem call_progress (hr : r.Named) (hclosed : r.Closed) (c : Call)
    (h : Progress excused (fun _ _ => False) r) :
    Progress (fun other => excused other ∨ r.Fails c ∧ (r.call c).1.Blocked other)
      (fun _ _ => False) (r.call c).1 := by
  have hfollows := call_follows hr c
  have hkept : Progress (fun other => excused other ∨ r.Fails c ∧ (r.call c).1.Blocked other)
      (fun _ _ => False) r := h.settle (fun _ _ hwait => hwait.elim) fun _ => .inl
  cases c with
  | register place =>
    by_cases hplace : place < r.definitions.length
    · refine (register_progress hr hclosed hplace h).settle (fun _ _ hwait => hwait.elim) ?_
      rintro other (hexcuse | ⟨⟨e, he⟩, hblocked⟩)
      · exact .inl hexcuse
      · exact .inr ⟨⟨place, e, rfl, he⟩, hblocked⟩
    · -- Nothing is known at that place, and nothing is registered.
      have hnone : r.registerOne place = (r, .ok []) := by
        unfold registerOne
        rw [List.getElem?_eq_none (Nat.le_of_not_lt hplace)]
      refine hkept.follow hfollows fun other hother => .inl ?_
      revert hother
      unfold call register
      dsimp only
      rw [hnone]
      dsimp only
      rw [registerEmbedded]
      exact id
  | addField model f =>
    refine hkept.follow hfollows fun other hother => .inl ?_
    revert hother
    unfold call
    dsimp only
    split
    · rename_i s hs
      exact entered_addField hs
    · exact id

end Progress

/-- The registry that calls lead to, from one that knows definitions and has registered none. -/
def after (definitions : List Definition) (calls : List Call) : Registry :=
  calls.foldl (fun r c => (r.call c).1) { definitions }

section After

variable {definitions : List Definition} {calls : List Call}

theorem after_append (front : List Call) (c : Call) :
    after definitions (front ++ [c]) = ((after definitions front).call c).1 :=
  List.foldl_concat ..

theorem reachable_known (definitions : List Definition) : Reachable { definitions } := by
  induction definitions using List.reverseRecOn with
  | nil => exact .empty
  | append_singleton ds d ih => exact ih.define d

theorem after_reachable (definitions : List Definition) (calls : List Call) :
    (after definitions calls).Reachable := by
  induction calls using List.reverseRecOn with
  | nil => exact reachable_known definitions
  | append_singleton front c ih =>
    rw [after_append]
    exact ih.call c

theorem after_follows (definitions : List Definition) (calls : List Call) :
    Follows { definitions } (after definitions calls) := by
  induction calls using List.reverseRecOn with
  | nil => exact ⟨.refl _, rfl, (reachable_known definitions).named⟩
  | append_singleton front c ih =>
    rw [after_append]
    exact ih.trans (call_follows ih.named c)

/-- Whatever fails on the way, a definition that is registered has its fields and has those that it
embeds registered, or embeds one that is refused. -/
theorem after_progress (hclosed : Closed { definitions }) (calls : List Call) :
    Progress (after definitions calls).Blocked (fun _ _ => False) (after definitions calls) := by
  induction calls using List.reverseRecOn with
  | nil =>
    rintro place ⟨d, fields, -, hfound⟩
    cases hfound
  | append_singleton front c ih =>
    have hfollows := after_follows definitions front
    rw [after_append]
    refine (call_progress hfollows.named (hfollows.closed hclosed) c ih).settle
      (fun _ _ hwait => hwait.elim) fun other hexcuse => ?_
    exact hexcuse.elim (call_follows hfollows.named c).blocked And.right

/-- Without a registration that fails no definition is left waiting. -/
theorem after_progress_of_succeeds (hclosed : Closed { definitions })
    (h : ∀ front c rest, calls = front ++ c :: rest → ¬ (after definitions front).Fails c) :
    Progress (fun _ => False) (fun _ _ => False) (after definitions calls) := by
  induction calls using List.reverseRecOn with
  | nil =>
    rintro place ⟨d, fields, -, hfound⟩
    cases hfound
  | append_singleton front c ih =>
    have hfollows := after_follows definitions front
    have hfront := ih fun front' c' rest hcalls => h front' c' (rest ++ [c]) (by simp [hcalls])
    rw [after_append]
    refine (call_progress hfollows.named (hfollows.closed hclosed) c hfront).settle
      (fun _ _ hwait => hwait.elim) fun other hexcuse => ?_
    exact hexcuse.elim id fun hfails => h front c [] rfl hfails.1

theorem register_entered (hr : r.Named) (hplace : place < r.definitions.length)
    (h : r.register place = (s, .ok ())) : s.Entered place := by
  obtain ⟨-, hends⟩ := registerOne_ends (List.getElem?_eq_getElem hplace)
  have hone := registerOne_follows hr place
  unfold register at h
  rcases hs : r.registerOne place with ⟨t, e | places⟩
  · rw [hs] at h
    cases h
  · rw [hs] at h hends hone
    have hfollows := registerEmbedded_follows hone.named places
    dsimp only at h
    rw [h] at hfollows
    rcases hends with ⟨⟨e, he⟩, -⟩ | ⟨hentered, hsame⟩ | ⟨hfilled, -⟩
    · cases he
    · cases hsame
      exact hfollows.entered hentered
    · exact hfollows.entered hfilled.entered

theorem Filled.accepts (hr : r.Reachable) (h : r.Filled place) : r.Accepts place := by
  obtain ⟨d, fields, ⟨hd, hfound⟩, hfields⟩ := h
  obtain ⟨hname, hlistable⟩ := hr.lists d.name _ hfound
  refine ⟨d, hd, hname, hlistable.of_prefix hfields, fun m hm => ?_⟩
  rw [hfound] at hm
  rw [← Option.some.inj hm]

/-- After any calls, of which some may have failed half way, a registration that returns completes
its definition exactly if the registry before it accepts every definition that is embedded; it need
not, as the definition may have been registered before, in part. If no registration has failed yet,
it completes the definition. -/
theorem register_completes_iff (hclosed : Closed { definitions }) (calls : List Call)
    (hplace : place < definitions.length)
    (h : (after definitions calls).register place = (s, .ok ())) :
    (s.Complete place ↔
      ∀ other, s.Reaches place other → (after definitions calls).Accepts other) ∧
    ((∀ front c rest, calls = front ++ c :: rest → ¬ (after definitions front).Fails c) →
      s.Complete place) := by
  have hstart := after_follows definitions calls
  have hclosed' := hstart.closed hclosed
  have hplace' : place < (after definitions calls).definitions.length := hstart.known ▸ hplace
  have hfollows := register_follows hstart.named place
  have hreachable := (after_reachable definitions calls).register place
  have hentered := register_entered hstart.named hplace' h
  rw [h] at hfollows hreachable
  dsimp only at hfollows hreachable
  have hprogress : ∀ {excused : Nat → Prop},
      Progress excused (fun _ _ => False) (after definitions calls) →
      Progress excused (fun _ _ => False) s := by
    intro excused hbefore
    have hafter := register_progress hstart.named hclosed' hplace' hbefore
    rw [h] at hafter
    refine hafter.settle (fun _ _ hwait => hwait.elim) fun other hexcuse => ?_
    exact hexcuse.elim id fun hfailed => by cases hfailed.1.choose_spec
  refine ⟨⟨fun hcomplete other hother => ?_, fun haccepts => ?_⟩, fun hsucceeds => ?_⟩
  · exact hfollows.accepts ((hcomplete.filled other hother).accepts hreachable)
  · refine (hprogress (after_progress hclosed calls)).complete hentered ?_
    rintro other hother ⟨next, hnext, hrefused⟩
    rw [← hfollows.reaches_eq] at hnext
    exact hrefused (haccepts next (Relation.ReflTransGen.trans hother hnext))
  · exact (hprogress (after_progress_of_succeeds hclosed hsucceeds)).complete hentered
      fun _ _ hexcused => hexcused

end After

/-! ## Things, crates and bottles -/

/-- A model whose second field is refused. -/
def thingModel : Definition :=
  ⟨"Thing", [{ name := "a" }, { name := "not-valid" }, { name := "b" }], .all, false, "", false,
    none⟩

/-- What the registration of things leaves. -/
def halfThings : Registry where
  definitions := [thingModel]
  models := [("Thing", ⟨0, thingModel.declaredFields.take 2⟩)]

/-- The first registration of things fails at their second field. The next one returns at once. -/
theorem register_thing_incomplete : Closed { definitions := [thingModel] } ∧
    register { definitions := [thingModel] } 0 =
      (halfThings, .error (.fieldNameInvalid "Thing" "not-valid")) ∧
    (after [thingModel] [.register 0]).register 0 = (halfThings, .ok ()) ∧
    ¬ halfThings.Complete 0 := by
  have hfirst : register { definitions := [thingModel] } 0 =
      (halfThings, .error (.fieldNameInvalid "Thing" "not-valid")) :=
    register_of_within (show pending { definitions := [thingModel] } < 2 by decide) rfl
  have hsecond : halfThings.register 0 = (halfThings, .ok ()) :=
    register_of_within (show halfThings.pending < 1 by decide) rfl
  refine ⟨?_, hfirst, ?_, fun hcomplete => ?_⟩
  · rintro place other ⟨d, hd, hother⟩
    obtain rfl := List.mem_singleton.mp (List.mem_of_getElem? hd)
    cases hother
  · show (register { definitions := [thingModel] } 0).1.register 0 = _
    rw [hfirst]
    exact hsecond
  · obtain ⟨d, fields, ⟨hd, hfound⟩, hfields⟩ := hcomplete.filled 0 .refl
    cases hd
    cases hfound
    exact absurd hfields.length_le (by decide)

def bottleModel : Definition :=
  ⟨"Bottle", [{ name := "label" }], .all, false, "", false, none⟩

/-- A crate, which embeds bottles: the definition behind its own. -/
def crateModel : Definition :=
  ⟨"Crate", [{ name := "code" }, embeddedAt "bottles" 1 "Bottle"], .all, false, "", false, none⟩

/-- Crates and bottles, of which bottles were registered first. -/
def crateModels : Registry where
  definitions := [crateModel, { bottleModel with embedded := true }]
  models := [("Bottle", ⟨1, bottleModel.declaredFields⟩), ("Crate", ⟨0, crateModel.declaredFields⟩)]

/-- Bottles are registered on their own and then marked as embedded in crates. -/
theorem register_crate_completes : Closed { definitions := [crateModel, bottleModel] } ∧
    (after [crateModel, bottleModel] [.register 1]).register 0 = (crateModels, .ok ()) ∧
    crateModels.Complete 0 ∧
    ∀ other, crateModels.Reaches 0 other →
      (after [crateModel, bottleModel] [.register 1]).Accepts other := by
  have hclosed : Closed { definitions := [crateModel, bottleModel] } := by
    rintro place other ⟨d, hd, hother⟩
    have hall : ∀ d ∈ [crateModel, bottleModel], ∀ other ∈ embeddedPlaces d.declaredFields,
        other < 2 := by decide
    exact hall d (List.mem_of_getElem? hd) other hother
  have hbottle : register { definitions := [crateModel, bottleModel] } 1 =
      ({ definitions := [crateModel, bottleModel],
         models := [("Bottle", ⟨1, bottleModel.declaredFields⟩)] }, .ok ()) :=
    register_of_within (show pending { definitions := [crateModel, bottleModel] } < 3 by decide) rfl
  have hcrate : (after [crateModel, bottleModel] [.register 1]).register 0 =
      (crateModels, .ok ()) := by
    show (register { definitions := [crateModel, bottleModel] } 1).1.register 0 = _
    rw [hbottle]
    exact register_of_within (show pending _ < 2 by decide) rfl
  obtain ⟨hiff, hcomplete⟩ := register_completes_iff hclosed [.register 1] (by decide) hcrate
  have hsucceeds : crateModels.Complete 0 := by
    refine hcomplete fun front c rest hcalls => ?_
    cases front with
    | nil =>
      cases hcalls
      rintro ⟨place, e, -, he⟩
      have hok : (register { definitions := [crateModel, bottleModel] } 1).2 = .error e := he
      rw [hbottle] at hok
      cases hok
    | cons first front =>
      have hlength := congrArg List.length hcalls
      simp at hlength
  exact ⟨hclosed, hcrate, hsucceeds, hiff.mp hsucceeds⟩

end Registry

end DocumentApi
