import SchemaIr.Enumeration.Set
import SchemaIr.Proofs.Naming.Registry

/-! # Naming groups

Each of the three ways of naming gives every group a name that was free before (`Assigned`): identities if
none of them is in conflict, typedefs and inline enumerations always.

Inline enumerations are named in rounds. A round puts each one that waits for a name in its place: it is
named, or waits for a longer name, or is left with one name to want (`Placed`). The ones that wait have a
context at least as long as the part of it that they ask for, and shorter than that part and the rounds that
are left together, so that no one waits after the last round (`nameRounds_spec`). -/

namespace SchemaIr.EnumSet
open NameRegistry (Assigned)

/-! ### Identities and typedefs -/

theorem mem_byName {groups : Table EnumGroup} {key : String} :
    (∃ name keys, (byName groups).get? name = some keys ∧ key ∈ keys) ↔ ∃ g, groups.get? key = some g := by
  have hget : ∀ name, (byName groups).get? name = _ :=
    Table.get?_collected (fun e : String × EnumGroup => ownName e.2) Prod.fst groups.entries
  constructor
  · rintro ⟨name, keys, hkeys, hmem⟩
    rw [hget] at hkeys
    split at hkeys
    · cases hkeys
    · cases hkeys
      obtain ⟨e, he, rfl⟩ := List.mem_map.mp hmem
      exact ⟨e.2, Table.get?_eq_some_iff.mpr (List.mem_filter.mp he).1⟩
  · rintro ⟨g, hg⟩
    have hin : (key, g) ∈ groups.entries.filter fun e => ownName e.2 = ownName g :=
      List.mem_filter.mpr ⟨Table.get?_eq_some_iff.mp hg, by simp⟩
    refine ⟨ownName g, _, (hget _).trans (if_neg ?_), List.mem_map.mpr ⟨(key, g), hin, rfl⟩⟩
    rw [List.isEmpty_iff]
    exact List.ne_nil_of_mem hin

/-- Naming goes on with identities: what is named stays named, and those that want a name get it unless they
    are in conflict. -/
theorem nameIdentity_spec {before : NameRegistry} {st : IdentityNames}
    (h : Assigned before st.registry st.names) (e : String × List String) :
    Assigned before (nameIdentity st e).registry (nameIdentity st e).names ∧
      (∀ key n, st.names.get? key = some n → ∃ n', (nameIdentity st e).names.get? key = some n') ∧
      ((nameIdentity st e).conflicts = [] →
        st.conflicts = [] ∧ ∀ key ∈ e.2, ∃ n, (nameIdentity st e).names.get? key = some n) := by
  unfold nameIdentity
  split
  · rename_i name key
    split
    · rename_i registry hins
      refine ⟨h.insert hins key, fun k n hk => ?_, fun hc => ⟨hc, fun k hk => ?_⟩⟩
      · dsimp only
        rw [Table.get?_insert]
        split
        · exact ⟨_, rfl⟩
        · exact ⟨n, hk⟩
      · rw [List.mem_singleton.mp hk]
        exact ⟨name, Table.get?_insert_self ..⟩
    · exact ⟨h, fun k n hk => ⟨n, hk⟩, fun hc => by simp at hc⟩
  · exact ⟨h, fun k n hk => ⟨n, hk⟩, fun hc => by simp at hc⟩

theorem foldl_nameIdentity {before : NameRegistry} (es : List (String × List String)) (st : IdentityNames)
    (h : Assigned before st.registry st.names) :
    Assigned before (es.foldl nameIdentity st).registry (es.foldl nameIdentity st).names ∧
      (∀ key n, st.names.get? key = some n → ∃ n', (es.foldl nameIdentity st).names.get? key = some n') ∧
      ((es.foldl nameIdentity st).conflicts = [] → st.conflicts = [] ∧
        ∀ e ∈ es, ∀ key ∈ e.2, ∃ n, (es.foldl nameIdentity st).names.get? key = some n) := by
  induction es generalizing st with
  | nil => exact ⟨h, fun key n hk => ⟨n, hk⟩, fun hc => ⟨hc, by simp⟩⟩
  | cons e rest ih =>
    obtain ⟨h₁, hkeep₁, hall₁⟩ := nameIdentity_spec h e
    obtain ⟨h₂, hkeep₂, hall₂⟩ := ih _ h₁
    refine ⟨h₂, fun key n hk => ?_, fun hc => ?_⟩
    · obtain ⟨n', hk'⟩ := hkeep₁ key n hk
      exact hkeep₂ key n' hk'
    · -- Conflicts are never taken back, so there was none after the first step either.
      obtain ⟨hc₁, hrest⟩ := hall₂ hc
      obtain ⟨hc₀, hfirst⟩ := hall₁ hc₁
      refine ⟨hc₀, fun e' he' key hkey => ?_⟩
      rcases List.mem_cons.mp he' with rfl | he'
      · obtain ⟨n, hn⟩ := hfirst key hkey
        exact hkeep₂ key n hn
      · exact hrest e' he' key hkey

theorem nameIdentities_spec (identities : Table EnumGroup) (registry : NameRegistry) :
    let st := nameIdentities identities registry
    Assigned registry st.registry st.names ∧
      (st.conflicts = [] → ∀ key g, identities.get? key = some g → ∃ n, st.names.get? key = some n) := by
  obtain ⟨hassigned, -, hall⟩ :=
    foldl_nameIdentity (byName identities).entries ⟨∅, registry, []⟩ (.refl registry)
  refine ⟨hassigned, fun hc key g hg => ?_⟩
  obtain ⟨name, keys, hkeys, hmem⟩ := mem_byName.mpr ⟨g, hg⟩
  exact (hall hc).2 (name, keys) (Table.get?_eq_some_iff.mp hkeys) key hmem

theorem code_of_mem_conflicts_nameIdentity {st : IdentityNames} {e : String × List String}
    (h : ∀ d ∈ st.conflicts, d.code = .identityNameConflict) :
    ∀ d ∈ (nameIdentity st e).conflicts, d.code = .identityNameConflict := by
  intro d hd
  unfold nameIdentity at hd
  split at hd
  · split at hd
    · exact h d hd
    · rcases List.mem_append.mp hd with hd | hd
      · exact h d hd
      · rw [List.mem_singleton.mp hd]
        rfl
  · rcases List.mem_append.mp hd with hd | hd
    · exact h d hd
    · rw [List.mem_singleton.mp hd]
      rfl

theorem code_of_mem_conflicts_foldl (es : List (String × List String)) {st : IdentityNames}
    (h : ∀ d ∈ st.conflicts, d.code = .identityNameConflict) :
    ∀ d ∈ (es.foldl nameIdentity st).conflicts, d.code = .identityNameConflict := by
  induction es generalizing st with
  | nil => exact h
  | cons e rest ih => exact ih (code_of_mem_conflicts_nameIdentity h)

theorem code_of_mem_conflicts {identities : Table EnumGroup} {registry : NameRegistry} {d : Diagnostic}
    (hd : d ∈ (nameIdentities identities registry).conflicts) : d.code = .identityNameConflict :=
  code_of_mem_conflicts_foldl _ (fun _ hnone => absurd hnone List.not_mem_nil) d hd

theorem nameTypedefs_spec (typedefs : Table EnumGroup) (registry : NameRegistry) :
    let result := nameTypedefs typedefs registry
    Assigned registry result.2 result.1 ∧
      ∀ key g, typedefs.get? key = some g → ∃ n, result.1.get? key = some n := by
  obtain ⟨hassigned, hkeys⟩ :=
    registry.resolveClashes_spec ((byName typedefs).map fun _ keys => NameSet.ofNames keys)
  refine ⟨hassigned, fun key g hg => ?_⟩
  obtain ⟨name, keys, hname, hmem⟩ := mem_byName.mpr ⟨g, hg⟩
  refine Option.isSome_iff_exists.mp ((hkeys key).mpr ⟨name, .ofNames keys, ?_, ?_⟩)
  · rw [Table.get?_map, hname]
    rfl
  · exact NameSet.mem_names_ofNames.mpr hmem

/-! ### Inline enumerations -/

/-- A representative path is named, is left with one name to want, or waits for a longer name. -/
def Placed (st : InlineNames) (path : String) : Prop :=
  (∃ n, st.names.get? path = some n) ∨ (∃ c paths, st.exhausted.get? c = some paths ∧ path ∈ paths.names) ∨
    ∃ p ∈ st.next, p.group.representativePath = path

/-- A part of a round: the given ones are put in their places, and no one else loses its place. -/
structure Advances (before : NameRegistry) (ps : List Pending) (st st' : InlineNames) : Prop where
  assigned : Assigned before st.registry st.names → Assigned before st'.registry st'.names
  keeps : ∀ {path : String}, Placed st path → Placed st' path
  places : ∀ {p : Pending}, p ∈ ps → Placed st' p.group.representativePath
  /-- Who waits afterwards waited before, or asks for one segment more. -/
  longer : ∀ {q : Pending}, q ∈ st'.next →
    q ∈ st.next ∨ ∃ p ∈ ps, p.exhausted = false ∧ q = { p with level := p.level + 1 }

namespace Advances
variable {before : NameRegistry} {ps qs : List Pending} {st st' st'' : InlineNames}

theorem refl (st : InlineNames) : Advances before [] st st := ⟨id, id, fun h => (nomatch h), .inl⟩

theorem trans (h : Advances before ps st st') (h' : Advances before qs st' st'') :
    Advances before (ps ++ qs) st st'' := by
  refine ⟨h'.assigned ∘ h.assigned, h'.keeps ∘ h.keeps, fun {p} hp => ?_, fun {q} hq => ?_⟩
  · rcases List.mem_append.mp hp with hp | hp
    · exact h'.keeps (h.places hp)
    · exact h'.places hp
  · rcases h'.longer hq with hq | ⟨p, hp, hlong⟩
    · rcases h.longer hq with hq | ⟨p, hp, hlong⟩
      · exact .inl hq
      · exact .inr ⟨p, List.mem_append_left _ hp, hlong⟩
    · exact .inr ⟨p, List.mem_append_right _ hp, hlong⟩

theorem putOff (name : String) (st : InlineNames) (p : Pending) :
    Advances before [p] st (putOff name st p) := by
  unfold EnumSet.putOff
  split
  · -- The sets of paths only grow.
    have hgrow : ∀ {c : String} {paths : NameSet} {path : String}, st.exhausted.get? c = some paths →
        path ∈ paths.names → ∃ c' paths', (st.exhausted.insert name
          ((st.exhausted.getD name ∅).add p.group.representativePath)).get? c' = some paths' ∧
            path ∈ paths'.names := by
      intro c paths path hc hpath
      by_cases hcn : c = name
      · subst hcn
        refine ⟨c, _, Table.get?_insert_self .., NameSet.mem_names_add.mpr (.inr ?_)⟩
        rwa [Table.getD, hc, Option.getD_some]
      · exact ⟨c, paths, by rw [Table.get?_insert, if_neg hcn, hc], hpath⟩
    refine ⟨id, fun {path} hpath => ?_, fun {q} hq => ?_, .inl⟩
    · rcases hpath with hn | ⟨c, paths, hc, hpath⟩ | hw
      · exact .inl hn
      · exact .inr (.inl (hgrow hc hpath))
      · exact .inr (.inr hw)
    · rw [List.mem_singleton.mp hq]
      exact .inr (.inl ⟨name, _, Table.get?_insert_self .., NameSet.mem_names_add.mpr (.inl rfl)⟩)
  · rename_i hlonger
    refine ⟨id, fun {path} hpath => ?_, fun {q} hq => ?_, fun {q} hq => ?_⟩
    · rcases hpath with hn | he | ⟨q, hq, hqp⟩
      · exact .inl hn
      · exact .inr (.inl he)
      · exact .inr (.inr ⟨q, List.mem_append_left _ hq, hqp⟩)
    · rw [List.mem_singleton.mp hq]
      exact .inr (.inr ⟨_, List.mem_append_right _ (List.mem_singleton_self _), rfl⟩)
    · rcases List.mem_append.mp hq with hq | hq
      · exact .inl hq
      · exact .inr ⟨p, List.mem_singleton_self p, by simpa using hlonger, List.mem_singleton.mp hq⟩

theorem foldl_putOff (name : String) (ps : List Pending) (st : InlineNames) :
    Advances before ps st (ps.foldl (EnumSet.putOff name) st) := by
  induction ps generalizing st with
  | nil => exact .refl st
  | cons p rest ih => exact (putOff name st p).trans (ih _)

theorem nameCandidate (st : InlineNames) (e : String × List Pending) :
    Advances before e.2 st (nameCandidate st e) := by
  unfold EnumSet.nameCandidate
  split
  · rename_i name p
    split
    · rename_i registry hins
      refine ⟨fun h => h.insert hins _, fun {path} hpath => ?_, fun {q} hq => ?_, .inl⟩
      · rcases hpath with ⟨n, hn⟩ | he | hw
        · refine .inl ?_
          dsimp only
          rw [Table.get?_insert]
          split
          · exact ⟨_, rfl⟩
          · exact ⟨n, hn⟩
        · exact .inr (.inl he)
        · exact .inr (.inr hw)
      · rw [List.mem_singleton.mp hq]
        exact .inl ⟨name, Table.get?_insert_self ..⟩
    · exact putOff name st p
  · exact foldl_putOff ..

theorem foldl_nameCandidate (es : List (String × List Pending)) (st : InlineNames) :
    Advances before (es.flatMap Prod.snd) st (es.foldl EnumSet.nameCandidate st) := by
  induction es generalizing st with
  | nil => exact .refl st
  | cons e rest ih => exact (nameCandidate st e).trans (ih _)

end Advances

/-- The ones under a name are all that have it for a candidate. -/
theorem eq_filter_of_mem_byCandidate {ps qs : List Pending} {name : String}
    (h : (name, qs) ∈ (byCandidate ps).entries) : qs = ps.filter (·.candidate = name) ∧ qs ≠ [] := by
  have hget := (Table.get?_collected Pending.candidate id ps name).symm.trans (Table.get?_eq_some_iff.mpr h)
  rw [List.map_id] at hget
  split at hget
  · cases hget
  · rename_i hsome
    cases hget
    exact ⟨rfl, fun hnil => hsome (List.isEmpty_iff.mpr hnil)⟩

theorem mem_byCandidate {ps : List Pending} {p : Pending} :
    p ∈ (byCandidate ps).entries.flatMap Prod.snd ↔ p ∈ ps := by
  rw [List.mem_flatMap]
  constructor
  · rintro ⟨⟨name, qs⟩, he, hp⟩
    rw [(eq_filter_of_mem_byCandidate he).1] at hp
    exact (List.mem_filter.mp hp).1
  · intro hp
    have hin : p ∈ ps.filter fun q => q.candidate = p.candidate := List.mem_filter.mpr ⟨hp, by simp⟩
    have hget := Table.get?_collected Pending.candidate id ps p.candidate
    rw [List.map_id] at hget
    refine ⟨(p.candidate, _), Table.get?_eq_some_iff.mp (hget.trans (if_neg ?_)), hin⟩
    rw [List.isEmpty_iff]
    exact List.ne_nil_of_mem hin

/-- After the rounds no one waits, and whoever had a place has one. -/
theorem nameRounds_spec {before : NameRegistry} (rounds : Nat) (st : InlineNames)
    (hlevel : ∀ p ∈ st.next,
      p.level ≤ p.group.context.length ∧ p.group.context.length < p.level + rounds)
    (hassigned : Assigned before st.registry st.names) :
    Assigned before (nameRounds rounds st).registry (nameRounds rounds st).names ∧
      (nameRounds rounds st).next = [] ∧ ∀ path, Placed st path → Placed (nameRounds rounds st) path := by
  induction rounds generalizing st with
  | zero =>
    refine ⟨hassigned, List.eq_nil_iff_forall_not_mem.mpr fun p hp => ?_, fun path h => h⟩
    have hbounds := hlevel p hp
    omega
  | succ rounds ih =>
    rw [nameRounds]
    split
    · rename_i hnone
      exact ⟨hassigned, List.isEmpty_iff.mp hnone, fun path h => h⟩
    · have hround : Advances before ((byCandidate st.next).entries.flatMap Prod.snd) { st with next := [] } _ :=
        .foldl_nameCandidate _ _
      -- Who still waits asks for one segment more, while there is one round less.
      have hnext : ∀ q ∈ ((byCandidate st.next).entries.foldl nameCandidate { st with next := [] }).next,
          q.level ≤ q.group.context.length ∧ q.group.context.length < q.level + rounds := by
        intro q hq
        rcases hround.longer hq with hq | ⟨p, hp, hlonger, rfl⟩
        · cases hq
        · have hbounds := hlevel p (mem_byCandidate.mp hp)
          have hlt : p.level < p.group.context.length := by simpa [Pending.exhausted] using hlonger
          dsimp only
          omega
      obtain ⟨hlast, hdone, hplaced⟩ := ih _ hnext (hround.assigned hassigned)
      refine ⟨hlast, hdone, fun path hpath => hplaced path ?_⟩
      rcases hpath with hn | he | ⟨p, hp, rfl⟩
      · exact hround.keeps (.inl hn)
      · exact hround.keeps (.inr (.inl he))
      · exact hround.places (mem_byCandidate.mpr hp)

theorem le_foldl_max (xs : List Nat) (a : Nat) : a ≤ xs.foldl max a ∧ ∀ x ∈ xs, x ≤ xs.foldl max a := by
  induction xs generalizing a with
  | nil => simp
  | cons x rest ih =>
    obtain ⟨ha, hrest⟩ := ih (max a x)
    refine ⟨Nat.le_trans (Nat.le_max_left a x) ha, fun y hy => ?_⟩
    rcases List.mem_cons.mp hy with rfl | hy
    · exact Nat.le_trans (Nat.le_max_right a y) ha
    · exact hrest y hy

/-- Every inline enumeration gets a name, by its representative path. -/
theorem nameInline_spec (inline : Table EnumGroup) (registry : NameRegistry) :
    let result := nameInline inline registry
    Assigned registry result.2 result.1 ∧
      ∀ key g, inline.get? key = some g → ∃ n, result.1.get? g.representativePath = some n := by
  let pending := inline.values.map fun g => Pending.mk g (min g.context.length 2)
  let rounds := (inline.values.map (·.context.length)).foldl max 0 + 1
  let st := nameRounds rounds ⟨∅, registry, ∅, pending⟩
  have hlevel : ∀ p ∈ pending, p.level ≤ p.group.context.length ∧ p.group.context.length < p.level + rounds := by
    intro p hp
    obtain ⟨g, hg, rfl⟩ := List.mem_map.mp hp
    have hmax := (le_foldl_max (inline.values.map (·.context.length)) 0).2 _ (List.mem_map.mpr ⟨g, hg, rfl⟩)
    dsimp only [rounds]
    omega
  obtain ⟨hassigned, hdone, hplaced⟩ := nameRounds_spec rounds ⟨∅, registry, ∅, pending⟩ hlevel (.refl registry)
  obtain ⟨hmore, hkeys⟩ := st.registry.resolveClashes_spec st.exhausted
  refine ⟨hassigned.union hmore, fun key g hg => ?_⟩
  -- At first everyone waits; at last no one does, and who is left with one name to want gets it by its key.
  have hwaits : Placed ⟨∅, registry, ∅, pending⟩ g.representativePath :=
    .inr (.inr ⟨_, List.mem_map.mpr ⟨g, Table.mem_values_iff.mpr ⟨key, hg⟩, rfl⟩, rfl⟩)
  have hget := Table.get?_union st.names (st.registry.resolveClashes st.exhausted).1 g.representativePath
  refine Option.isSome_iff_exists.mp ((congrArg Option.isSome hget).trans ?_)
  rw [Option.isSome_or, Bool.or_eq_true]
  rcases hplaced _ hwaits with ⟨n, hn⟩ | he | ⟨p, hp, -⟩
  · exact .inr (Option.isSome_iff_exists.mpr ⟨n, hn⟩)
  · exact .inl ((hkeys _).mpr he)
  · rw [hdone] at hp
    cases hp

end SchemaIr.EnumSet
