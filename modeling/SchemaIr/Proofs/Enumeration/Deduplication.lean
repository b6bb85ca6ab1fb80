import Mathlib.Data.List.Forall2
import SchemaIr.Proofs.Enumeration.Reference

/-! # With and without deduplication

Deduplication decides which inline enumerations make a group, and nothing else. Identities and typedefs are grouped and
named before inline enumerations are, and so have the same enumerations with it and without it (`get?_own_iff`); the
same is wrong (`exists_ofLeaves`); and every inline enumeration has some name in both cases. -/

namespace SchemaIr

namespace EnumGroups
variable {t : SchemaTree} {compress skip skip' : Bool}

/-! ### Sightings -/

/-- The same sighting or problem, or two inline enumerations. -/
inductive SightedAlike : Except Diagnostic Sighting → Except Diagnostic Sighting → Prop
  | same (x : Except Diagnostic Sighting) : SightedAlike x x
  | inline {s s' : Sighting} : s.group.kind = .simple → s'.group.kind = .simple → SightedAlike (.ok s) (.ok s')

theorem sight_alike (path : String) (leaf : NodeId) (member : TypeDescriptor) :
    SightedAlike (sight t compress skip path leaf member) (sight t compress skip' path leaf member) := by
  unfold sight
  dsimp only
  split
  · exact .same _
  · split
    · exact .same _
    · exact .inline rfl rfl

theorem sightings_alike (path : String) (leaf : NodeId) :
    List.Forall₂ SightedAlike (sightings t compress skip path leaf) (sightings t compress skip' path leaf) := by
  have hsame : ∀ xs, List.Forall₂ SightedAlike xs xs := fun xs => List.forall₂_same.mpr fun x _ => .same x
  unfold sightings
  split
  · exact hsame _
  · split
    · exact hsame _
    · dsimp only
      split
      · exact hsame _
      · rw [List.forall₂_map_left_iff, List.forall₂_map_right_iff]
        exact List.forall₂_same.mpr fun member _ => sight_alike path leaf member

theorem allSightings_alike (enumLeaves : Table NodeId) :
    List.Forall₂ SightedAlike (allSightings t enumLeaves compress skip) (allSightings t enumLeaves compress skip') := by
  unfold allSightings
  induction enumLeaves.entries with
  | nil => exact .nil
  | cons e rest ih =>
    rw [List.flatMap_cons, List.flatMap_cons]
    exact List.rel_append (sightings_alike e.1 e.2) ih

/-! ### Groups -/

/-- The groups of identities and typedefs are the same, and so are the problems. -/
structure OwnAlike (st st' : EnumGroups × List Diagnostic) : Prop where
  identities : st.1.identities = st'.1.identities
  typedefs : st.1.typedefs = st'.1.typedefs
  problems : st.2 = st'.2

theorem OwnAlike.take {st st' : EnumGroups × List Diagnostic} (h : OwnAlike st st') {x y : Except Diagnostic Sighting}
    (hxy : SightedAlike x y) : OwnAlike (take st x) (take st' y) := by
  obtain ⟨hidentities, htypedefs, hproblems⟩ := h
  cases hxy with
  | same x =>
    cases x with
    | error d => exact ⟨hidentities, htypedefs, congrArg (· ++ [d]) hproblems⟩
    | ok s =>
      simp only [EnumGroups.take, add]
      cases s.group.kind with
      | simple => exact ⟨hidentities, htypedefs, hproblems⟩
      | typedef => exact ⟨hidentities, congrArg (join · s) htypedefs, hproblems⟩
      | identity => exact ⟨congrArg (join · s) hidentities, htypedefs, hproblems⟩
  | inline hs hs' =>
    simp only [EnumGroups.take, add, hs, hs']
    exact ⟨hidentities, htypedefs, hproblems⟩

theorem foldl_take_alike {xs ys : List (Except Diagnostic Sighting)} (hxy : List.Forall₂ SightedAlike xs ys)
    {st st' : EnumGroups × List Diagnostic} (h : OwnAlike st st') : OwnAlike (xs.foldl take st) (ys.foldl take st') := by
  induction hxy generalizing st st' with
  | nil => exact h
  | cons hx _ ih => exact ih (h.take hx)

theorem ofLeaves_alike (t : SchemaTree) (enumLeaves : Table NodeId) (compress skip skip' : Bool) :
    OwnAlike (ofLeaves t enumLeaves compress skip) (ofLeaves t enumLeaves compress skip') := by
  rw [ofLeaves_eq, ofLeaves_eq]
  exact foldl_take_alike (allSightings_alike enumLeaves) ⟨rfl, rfl, rfl⟩

theorem OwnAlike.ofKind_eq {st st' : EnumGroups × List Diagnostic} (h : OwnAlike st st') {kind : EnumKind}
    (hkind : kind ≠ .simple) : st.1.ofKind kind = st'.1.ofKind kind := by
  cases kind with
  | simple => exact absurd rfl hkind
  | identity => exact h.identities
  | typedef => exact h.typedefs

theorem kind_of_get? {enumLeaves : Table NodeId} {kind : EnumKind} {key : String} {g : EnumGroup}
    (h : ((ofLeaves t enumLeaves compress skip).1.ofKind kind).get? key = some g) : g.kind = kind := by
  obtain ⟨s, hs, -, hg⟩ := ((ofLeaves_spec t enumLeaves compress skip).1 kind).founder h
  rw [hg]
  simpa using (List.mem_filter.mp hs).2

end EnumGroups

namespace EnumSet
variable {t : SchemaTree} {enumLeaves : Table NodeId} {compress skip skip' : Bool} {before : NameRegistry}
  {set set' : EnumSet}

/-! ### Names -/

/-- Inline enumerations leave the names of identities and typedefs alone. -/
theorem own_foldl_addInline (names : Table String) (groups : List EnumGroup) (set : EnumSet) :
    (groups.foldl (addInline names) set).identityNames = set.identityNames ∧
      (groups.foldl (addInline names) set).typedefNames = set.typedefNames := by
  induction groups generalizing set with
  | nil => exact ⟨rfl, rfl⟩
  | cons g rest ih =>
    have hstep : (addInline names set g).identityNames = set.identityNames ∧
        (addInline names set g).typedefNames = set.typedefNames := by
      unfold addInline
      split <;> exact ⟨rfl, rfl⟩
    rw [List.foldl_cons, (ih _).1, (ih _).2]
    exact hstep

/-- The same is wrong with and without deduplication. -/
theorem exists_ofLeaves (h : (ofLeaves t enumLeaves compress skip before).1 = .ok set) :
    ∃ set', (ofLeaves t enumLeaves compress skip' before).1 = .ok set' := by
  have halike := EnumGroups.ofLeaves_alike t enumLeaves compress skip skip'
  unfold ofLeaves at h ⊢
  dsimp only at h ⊢
  rw [← halike.identities, ← halike.problems]
  exact ⟨_, Diagnostics.settle_eq_ok_iff.mpr ⟨(Diagnostics.settle_eq_ok_iff.mp h).1, rfl⟩⟩

theorem own_names_eq (h : (ofLeaves t enumLeaves compress skip before).1 = .ok set)
    (h' : (ofLeaves t enumLeaves compress skip' before).1 = .ok set') :
    set.identityNames = set'.identityNames ∧ set.typedefNames = set'.typedefNames := by
  have halike := EnumGroups.ofLeaves_alike t enumLeaves compress skip skip'
  unfold ofLeaves at h h'
  dsimp only at h h'
  obtain ⟨-, rfl⟩ := Diagnostics.settle_eq_ok_iff.mp h
  obtain ⟨-, rfl⟩ := Diagnostics.settle_eq_ok_iff.mp h'
  rw [(own_foldl_addInline ..).1, (own_foldl_addInline ..).1, (own_foldl_addInline ..).2, (own_foldl_addInline ..).2,
    halike.identities, halike.typedefs]
  exact ⟨rfl, rfl⟩

/-! ### Enumerations -/

theorem get?_of_own (h : (ofLeaves t enumLeaves compress skip before).1 = .ok set)
    (h' : (ofLeaves t enumLeaves compress skip' before).1 = .ok set') {name : String} {e : Enumeration}
    (hkind : e.kind ≠ .simple) (he : set.enumerations.get? name = some e) : set'.enumerations.get? name = some e := by
  have halike := EnumGroups.ofLeaves_alike t enumLeaves compress skip skip'
  obtain ⟨hidentities, htypedefs⟩ := own_names_eq h h'
  obtain ⟨nameOf, hnaming⟩ := exists_naming_of_eq_ok h
  obtain ⟨nameOf', hnaming'⟩ := exists_naming_of_eq_ok h'
  obtain ⟨kind, key, g, hg, rfl, rfl⟩ := hnaming.only he
  have hown : kind ≠ .simple := fun hsimple => hkind ((EnumGroups.kind_of_get? hg).trans hsimple)
  have hg' := hg
  rw [halike.ofKind_eq hown] at hg'
  have hname : nameOf' kind key = nameOf kind key := by
    cases kind with
    | simple => exact absurd rfl hown
    | identity =>
      obtain ⟨_, -, hname⟩ := hnaming'.identity.mp (hidentities ▸ hnaming.identity.mpr ⟨g, hg, rfl⟩)
      exact hname
    | typedef =>
      obtain ⟨_, -, hname⟩ := hnaming'.typedef.mp (htypedefs ▸ hnaming.typedef.mpr ⟨g, hg, rfl⟩)
      exact hname
  exact hname ▸ hnaming'.entity hg'

theorem get?_own_iff (h : (ofLeaves t enumLeaves compress skip before).1 = .ok set)
    (h' : (ofLeaves t enumLeaves compress skip' before).1 = .ok set') {name : String} {e : Enumeration}
    (hkind : e.kind ≠ .simple) : set.enumerations.get? name = some e ↔ set'.enumerations.get? name = some e :=
  ⟨get?_of_own h h' hkind, get?_of_own h' h hkind⟩

theorem isSome_nameFor?_eq (h : (ofLeaves t enumLeaves compress skip before).1 = .ok set)
    (h' : (ofLeaves t enumLeaves compress skip' before).1 = .ok set') (leaf : NodeId) {m : TypeDescriptor}
    (henum : m.isEnumerated = true) : (set.nameFor? t leaf m).isSome = (set'.nameFor? t leaf m).isSome := by
  rw [Bool.eq_iff_iff, ← Option.ne_none_iff_isSome, ← Option.ne_none_iff_isSome, nameFor?_ne_none_iff h henum,
    nameFor?_ne_none_iff h' henum]

end EnumSet

end SchemaIr
