import Mathlib.Data.List.Nodup
import SchemaIr.Proofs.Diagnostic.Settle
import SchemaIr.Proofs.Enumeration.Groups
import SchemaIr.Proofs.Enumeration.Naming
import SchemaIr.Schema.Growth

/-! # Named groups

The set of enumerations has one enumeration for each group, under a name of its own that was free before
and is taken afterwards (`Naming`). Nothing else is in the set, so it is as large as there are groups. -/

namespace SchemaIr

namespace EnumGroups

/-- Every group, with its kind and key. -/
def members (groups : EnumGroups) : List (EnumKind × String × EnumGroup) :=
  groups.identities.entries.map (.identity, ·) ++ groups.typedefs.entries.map (.typedef, ·) ++
    groups.inline.entries.map (.simple, ·)

theorem mem_members {groups : EnumGroups} {kind : EnumKind} {key : String} {g : EnumGroup} :
    (kind, key, g) ∈ groups.members ↔ (groups.ofKind kind).get? key = some g := by
  cases kind <;> simp [members, ofKind, Table.get?_eq_some_iff]

theorem members_nodup (groups : EnumGroups) : (groups.members.map fun m => (m.1, m.2.1)).Nodup := by
  have one : ∀ (kind : EnumKind) (table : Table EnumGroup),
      ((table.entries.map (kind, ·)).map fun m => (m.1, m.2.1)).Nodup := by
    intro kind table
    rw [List.map_map]
    refine List.Nodup.of_map Prod.snd ?_
    rw [List.map_map]
    exact table.names_nodup
  have apart : ∀ {kind kind' : EnumKind} {table table' : Table EnumGroup}, kind ≠ kind' →
      ∀ a ∈ (table.entries.map (kind, ·)).map (fun m => (m.1, m.2.1)),
        ∀ b ∈ (table'.entries.map (kind', ·)).map (fun m => (m.1, m.2.1)), a ≠ b := by
    rintro kind kind' table table' hne a ha b hb rfl
    simp only [List.map_map, List.mem_map, Function.comp_apply] at ha hb
    obtain ⟨_, -, rfl⟩ := ha
    obtain ⟨_, -, heq⟩ := hb
    exact hne (Prod.mk.inj heq).1.symm
  simp only [members, List.map_append, List.nodup_append, one, true_and]
  refine ⟨apart (by decide), fun a ha => ?_⟩
  rcases List.mem_append.mp ha with ha | ha
  · exact apart (by decide) a ha
  · exact apart (by decide) a ha

theorem length_members (groups : EnumGroups) :
    groups.members.length = groups.identities.size + groups.typedefs.size + groups.inline.size := by
  simp [members, Table.size, Nat.add_assoc]

end EnumGroups

namespace EnumSet
open NameRegistry (Assigned)

/-- Every group is named in a set: by what `nameOf` gives for its kind and key. -/
structure Naming (groups : EnumGroups) (before after : NameRegistry) (set : EnumSet)
    (nameOf : EnumKind → String → String) : Prop where
  /-- Every group has an enumeration. -/
  entity : ∀ {kind key g}, (groups.ofKind kind).get? key = some g →
    set.enumerations.get? (nameOf kind key) = some (ofGroup (nameOf kind key) g)
  /-- Every enumeration is that of a group. -/
  only : ∀ {name e}, set.enumerations.get? name = some e →
    ∃ kind key g, (groups.ofKind kind).get? key = some g ∧ nameOf kind key = name ∧ e = ofGroup name g
  /-- Different groups have different names. -/
  injective : ∀ {kind key g kind' key' g'}, (groups.ofKind kind).get? key = some g →
    (groups.ofKind kind').get? key' = some g' → nameOf kind key = nameOf kind' key' → kind = kind' ∧ key = key'
  fresh : ∀ {kind key g}, (groups.ofKind kind).get? key = some g → before.contains (nameOf kind key) = false
  taken : ∀ {kind key g}, (groups.ofKind kind).get? key = some g → after.contains (nameOf kind key) = true
  size : set.enumerations.size = groups.identities.size + groups.typedefs.size + groups.inline.size
  /-- Leaves refer to an identity by its key, … -/
  identity : ∀ {key name}, set.identityNames.get? key = some name ↔
    ∃ g, groups.identities.get? key = some g ∧ nameOf .identity key = name
  /-- … to a typedef by its key, … -/
  typedef : ∀ {key name}, set.typedefNames.get? key = some name ↔
    ∃ g, groups.typedefs.get? key = some g ∧ nameOf .typedef key = name
  /-- … and to their inline enumeration by their path. -/
  inline : ∀ {path name}, set.inlineNames.get? path = some name ↔
    ∃ key g, groups.inline.get? key = some g ∧ path ∈ g.leafPaths.names ∧ nameOf .simple key = name

/-! ### Building the set -/

theorem foldl_addIdentity {names : Table String} {nameOf : String → String} {es : List (String × EnumGroup)}
    (h : ∀ e ∈ es, names.get? e.1 = some (nameOf e.1)) (set : EnumSet) :
    es.foldl (addIdentity names) set =
      { set with
        enumerations := (es.map fun e => (nameOf e.1, ofGroup (nameOf e.1) e.2)).foldl
          (fun t e => t.insert e.1 e.2) set.enumerations
        identityNames := (es.map fun e => (e.1, nameOf e.1)).foldl (fun t e => t.insert e.1 e.2)
          set.identityNames } := by
  induction es generalizing set with
  | nil => rfl
  | cons e rest ih =>
    have hstep : addIdentity names set e =
        { set with
          enumerations := set.enumerations.insert (nameOf e.1) (ofGroup (nameOf e.1) e.2)
          identityNames := set.identityNames.insert e.1 (nameOf e.1) } := by
      simp only [addIdentity, h e List.mem_cons_self]
    rw [List.foldl_cons, hstep, ih fun e' he' => h e' (List.mem_cons_of_mem _ he')]
    rfl

theorem foldl_addTypedef {names : Table String} {nameOf : String → String} {es : List (String × EnumGroup)}
    (h : ∀ e ∈ es, names.get? e.1 = some (nameOf e.1)) (set : EnumSet) :
    es.foldl (addTypedef names) set =
      { set with
        enumerations := (es.map fun e => (nameOf e.1, ofGroup (nameOf e.1) e.2)).foldl
          (fun t e => t.insert e.1 e.2) set.enumerations
        typedefNames := (es.map fun e => (e.1, nameOf e.1)).foldl (fun t e => t.insert e.1 e.2)
          set.typedefNames } := by
  induction es generalizing set with
  | nil => rfl
  | cons e rest ih =>
    have hstep : addTypedef names set e =
        { set with
          enumerations := set.enumerations.insert (nameOf e.1) (ofGroup (nameOf e.1) e.2)
          typedefNames := set.typedefNames.insert e.1 (nameOf e.1) } := by
      simp only [addTypedef, h e List.mem_cons_self]
    rw [List.foldl_cons, hstep, ih fun e' he' => h e' (List.mem_cons_of_mem _ he')]
    rfl

theorem foldl_addInline {names : Table String} {nameOf : String → String} {es : List (String × EnumGroup)}
    (h : ∀ e ∈ es, names.get? e.2.representativePath = some (nameOf e.1)) (set : EnumSet) :
    (es.map Prod.snd).foldl (addInline names) set =
      { set with
        enumerations := (es.map fun e => (nameOf e.1, ofGroup (nameOf e.1) e.2)).foldl
          (fun t e => t.insert e.1 e.2) set.enumerations
        inlineNames := (es.flatMap fun e => e.2.leafPaths.names.map (·, nameOf e.1)).foldl
          (fun t e => t.insert e.1 e.2) set.inlineNames } := by
  induction es generalizing set with
  | nil => rfl
  | cons e rest ih =>
    have hstep : addInline names set e.2 =
        { set with
          enumerations := set.enumerations.insert (nameOf e.1) (ofGroup (nameOf e.1) e.2)
          inlineNames := (e.2.leafPaths.names.map (·, nameOf e.1)).foldl (fun t e => t.insert e.1 e.2)
            set.inlineNames } := by
      simp only [addInline, h e List.mem_cons_self, List.foldl_map]
    rw [List.map_cons, List.foldl_cons, hstep, ih fun e' he' => h e' (List.mem_cons_of_mem _ he'),
      List.flatMap_cons, List.foldl_append]
    rfl

/-- Builds the set of groups whose names are given by kind and key. -/
def build (groups : EnumGroups) (nameOf : EnumKind → String → String) : EnumSet where
  enumerations := .ofList (groups.members.map fun m => (nameOf m.1 m.2.1, ofGroup (nameOf m.1 m.2.1) m.2.2))
  identityNames := .ofList (groups.identities.entries.map fun e => (e.1, nameOf .identity e.1))
  typedefNames := .ofList (groups.typedefs.entries.map fun e => (e.1, nameOf .typedef e.1))
  inlineNames :=
    .ofList (groups.inline.entries.flatMap fun e => e.2.leafPaths.names.map (·, nameOf .simple e.1))

theorem build_eq {groups : EnumGroups} {identities typedefs inline : Table String}
    (nameOf : EnumKind → String → String)
    (hi : ∀ e ∈ groups.identities.entries, identities.get? e.1 = some (nameOf .identity e.1))
    (ht : ∀ e ∈ groups.typedefs.entries, typedefs.get? e.1 = some (nameOf .typedef e.1))
    (hs : ∀ e ∈ groups.inline.entries, inline.get? e.2.representativePath = some (nameOf .simple e.1)) :
    groups.inline.values.foldl (addInline inline)
      (groups.typedefs.entries.foldl (addTypedef typedefs)
        (groups.identities.entries.foldl (addIdentity identities) ∅)) = build groups nameOf := by
  rw [foldl_addIdentity hi, foldl_addTypedef ht, Table.values, foldl_addInline hs]
  simp only [build, EnumGroups.members, Table.ofList, List.map_append, List.foldl_append, List.map_map]
  rfl

/-! ### What is in the set -/

section Build
variable {groups : EnumGroups} {nameOf : EnumKind → String → String}

/-- Identities and typedefs are referred to by the keys of their groups. -/
theorem get?_ofList_own_iff {kind : EnumKind} {table : Table EnumGroup} {key name : String} :
    (Table.ofList (table.entries.map fun e => (e.1, nameOf kind e.1))).get? key = some name ↔
      ∃ g, table.get? key = some g ∧ nameOf kind key = name := by
  rw [Table.get?_ofList_eq_some_iff]
  · simp only [List.mem_map, Prod.exists, Prod.mk.injEq, Table.get?_eq_some_iff]
    constructor
    · rintro ⟨_, g, hg, rfl, rfl⟩
      exact ⟨g, hg, rfl⟩
    · rintro ⟨g, hg, rfl⟩
      exact ⟨key, g, hg, rfl, rfl⟩
  · rintro v w hv hw
    obtain ⟨e, -, he⟩ := List.mem_map.mp hv
    obtain ⟨e', -, he'⟩ := List.mem_map.mp hw
    obtain ⟨hkey, rfl⟩ := Prod.mk.inj he
    obtain ⟨hkey', rfl⟩ := Prod.mk.inj he'
    rw [hkey, hkey']

/-- Inline enumerations are referred to by the paths of their leaves, if each belongs to one group. -/
theorem get?_inlineNames_build_iff
    (hpath : ∀ {key key' g g' path}, groups.inline.get? key = some g → groups.inline.get? key' = some g' →
      path ∈ g.leafPaths.names → path ∈ g'.leafPaths.names → key = key') {path name : String} :
    (build groups nameOf).inlineNames.get? path = some name ↔
      ∃ key g, groups.inline.get? key = some g ∧ path ∈ g.leafPaths.names ∧ nameOf .simple key = name := by
  have hmem : ∀ {n}, (path, n) ∈ (groups.inline.entries.flatMap fun e =>
      e.2.leafPaths.names.map (·, nameOf .simple e.1)) ↔
        ∃ key g, groups.inline.get? key = some g ∧ path ∈ g.leafPaths.names ∧ nameOf .simple key = n := by
    intro n
    simp only [List.mem_flatMap, List.mem_map, Prod.exists, Prod.mk.injEq, Table.get?_eq_some_iff]
    constructor
    · rintro ⟨key, g, hg, p, hp, rfl, rfl⟩
      exact ⟨key, g, hg, hp, rfl⟩
    · rintro ⟨key, g, hg, hp, rfl⟩
      exact ⟨key, g, hg, path, hp, rfl, rfl⟩
  refine (Table.get?_ofList_eq_some_iff fun v w hv hw => ?_).trans hmem
  obtain ⟨key, g, hg, hp, rfl⟩ := hmem.mp hv
  obtain ⟨key', g', hg', hp', rfl⟩ := hmem.mp hw
  rw [hpath hg hg' hp hp']

variable (hinj : ∀ {kind key g kind' key' g'}, (groups.ofKind kind).get? key = some g →
    (groups.ofKind kind').get? key' = some g' → nameOf kind key = nameOf kind' key' → kind = kind' ∧ key = key')
include hinj

/-- Where names differ, no two groups are entered under one name. -/
theorem names_nodup :
    ((groups.members.map fun m => (nameOf m.1 m.2.1, ofGroup (nameOf m.1 m.2.1) m.2.2)).map Prod.fst).Nodup := by
  have hpairs : (groups.members.map fun m => nameOf m.1 m.2.1) =
      (groups.members.map fun m => (m.1, m.2.1)).map fun k => nameOf k.1 k.2 := by
    rw [List.map_map]
    rfl
  rw [List.map_map]
  refine hpairs ▸ List.Nodup.map_on (fun k hk l hl heq => ?_) groups.members_nodup
  obtain ⟨⟨kind, key, g⟩, hm, rfl⟩ := List.mem_map.mp hk
  obtain ⟨⟨kind', key', g'⟩, hm', rfl⟩ := List.mem_map.mp hl
  obtain ⟨h₁, h₂⟩ := hinj (EnumGroups.mem_members.mp hm) (EnumGroups.mem_members.mp hm') heq
  exact Prod.ext h₁ h₂

theorem get?_enumerations_build_iff {name : String} {e : Enumeration} :
    (build groups nameOf).enumerations.get? name = some e ↔
      ∃ kind key g, (groups.ofKind kind).get? key = some g ∧ nameOf kind key = name ∧ e = ofGroup name g := by
  have hnodup := names_nodup hinj
  refine (Table.get?_ofList_eq_some_iff fun v w hv hw => ?_).trans ?_
  · have hv' := (Entries.find?_eq_some_iff hnodup).mpr hv
    have hw' := (Entries.find?_eq_some_iff hnodup).mpr hw
    exact Option.some.inj (hv'.symm.trans hw')
  · simp only [List.mem_map, Prod.exists, Prod.mk.injEq, EnumGroups.mem_members]
    constructor
    · rintro ⟨kind, key, g, hg, rfl, rfl⟩
      exact ⟨kind, key, g, hg, rfl, rfl⟩
    · rintro ⟨kind, key, g, hg, rfl, rfl⟩
      exact ⟨kind, key, g, hg, rfl, rfl⟩

/-- Names that differ make a naming of the set that is built with them. -/
theorem build_naming {before after : NameRegistry}
    (hpath : ∀ {key key' g g' path}, groups.inline.get? key = some g → groups.inline.get? key' = some g' →
      path ∈ g.leafPaths.names → path ∈ g'.leafPaths.names → key = key')
    (hfresh : ∀ {kind key g}, (groups.ofKind kind).get? key = some g → nameOf kind key ∉ before.taken)
    (htaken : ∀ {kind key g}, (groups.ofKind kind).get? key = some g → nameOf kind key ∈ after.taken) :
    Naming groups before after (build groups nameOf) nameOf where
  entity hg := (get?_enumerations_build_iff hinj).mpr ⟨_, _, _, hg, rfl, rfl⟩
  only := (get?_enumerations_build_iff hinj).mp
  injective := hinj
  fresh hg := Bool.eq_false_iff.mpr fun h => hfresh hg (NameRegistry.contains_iff.mp h)
  taken hg := NameRegistry.contains_iff.mpr (htaken hg)
  size := by rw [build, Table.size_ofList (names_nodup hinj), List.length_map, groups.length_members]
  identity := get?_ofList_own_iff
  typedef := get?_ofList_own_iff
  inline := get?_inlineNames_build_iff hpath

end Build

/-! ### Names of groups -/

section Phases
variable {groups : EnumGroups} {nameOf : EnumKind → String → String} {identities typedefs inline : Table String}
  {a b c d : NameRegistry}
  (hi : Assigned a b identities) (ht : Assigned b c typedefs) (hs : Assigned c d inline)
  (hidentity : ∀ {key g}, groups.identities.get? key = some g → identities.get? key = some (nameOf .identity key))
  (htypedef : ∀ {key g}, groups.typedefs.get? key = some g → typedefs.get? key = some (nameOf .typedef key))
  (hinline : ∀ {key g}, groups.inline.get? key = some g →
    inline.get? g.representativePath = some (nameOf .simple key))
include hi ht hs hidentity htypedef hinline

/-- Names that are given out kind after kind differ: a name of one kind was taken before names of a later kind were
    given out. -/
theorem eq_of_phases (hpath : ∀ {key key' g g'}, groups.inline.get? key = some g → groups.inline.get? key' = some g' →
      g.representativePath = g'.representativePath → key = key')
    {kind kind' : EnumKind} {key key' : String} {g g' : EnumGroup} (hg : (groups.ofKind kind).get? key = some g)
    (hg' : (groups.ofKind kind').get? key' = some g') (heq : nameOf kind key = nameOf kind' key') :
    kind = kind' ∧ key = key' := by
  have id_td : ∀ {key key' g g'}, groups.identities.get? key = some g → groups.typedefs.get? key' = some g' →
      nameOf .identity key ≠ nameOf .typedef key' := fun hg hg' heq =>
    ht.fresh (htypedef hg') (heq ▸ hi.taken (hidentity hg))
  have id_in : ∀ {key key' g g'}, groups.identities.get? key = some g → groups.inline.get? key' = some g' →
      nameOf .identity key ≠ nameOf .simple key' := fun hg hg' heq =>
    hs.fresh (hinline hg') (heq ▸ ht.grows (hi.taken (hidentity hg)))
  have td_in : ∀ {key key' g g'}, groups.typedefs.get? key = some g → groups.inline.get? key' = some g' →
      nameOf .typedef key ≠ nameOf .simple key' := fun hg hg' heq =>
    hs.fresh (hinline hg') (heq ▸ ht.taken (htypedef hg))
  cases kind <;> cases kind'
  · exact ⟨rfl, hpath hg hg' (hs.injective (hinline hg) (heq ▸ hinline hg'))⟩
  · exact absurd heq.symm (td_in hg' hg)
  · exact absurd heq.symm (id_in hg' hg)
  · exact absurd heq (td_in hg hg')
  · exact ⟨rfl, ht.injective (htypedef hg) (heq ▸ htypedef hg')⟩
  · exact absurd heq.symm (id_td hg' hg)
  · exact absurd heq (id_in hg hg')
  · exact absurd heq (id_td hg hg')
  · exact ⟨rfl, hi.injective (hidentity hg) (heq ▸ hidentity hg')⟩

theorem fresh_of_phases {kind : EnumKind} {key : String} {g : EnumGroup} (hg : (groups.ofKind kind).get? key = some g) :
    nameOf kind key ∉ a.taken := by
  cases kind with
  | identity => exact hi.fresh (hidentity hg)
  | typedef => exact fun hn => ht.fresh (htypedef hg) (hi.grows hn)
  | simple => exact fun hn => hs.fresh (hinline hg) (ht.grows (hi.grows hn))

theorem taken_of_phases {kind : EnumKind} {key : String} {g : EnumGroup} (hg : (groups.ofKind kind).get? key = some g) :
    nameOf kind key ∈ d.taken := by
  cases kind with
  | identity => exact hs.grows (ht.grows (hi.taken (hidentity hg)))
  | typedef => exact hs.grows (ht.taken (htypedef hg))
  | simple => exact hs.taken (hinline hg)

end Phases

variable {t : SchemaTree} {enumLeaves : Table NodeId} {compress skipDedup : Bool} {before after : NameRegistry}
  {set : EnumSet}

theorem key_eq_of_mem_leafPaths {key key' : String} {g g' : EnumGroup} {path : String}
    (hg : (EnumGroups.ofLeaves t enumLeaves compress skipDedup).1.inline.get? key = some g)
    (hg' : (EnumGroups.ofLeaves t enumLeaves compress skipDedup).1.inline.get? key' = some g')
    (hp : path ∈ g.leafPaths.names) (hp' : path ∈ g'.leafPaths.names) : key = key' := by
  have hjoined := (EnumGroups.ofLeaves_spec t enumLeaves compress skipDedup).1 .simple
  obtain ⟨s, hs, rfl, hsp⟩ := (hjoined.paths hg path).mp hp
  obtain ⟨s', hs', rfl, hsp'⟩ := (hjoined.paths hg' path).mp hp'
  simp only [List.mem_filter, decide_eq_true_eq] at hs hs'
  have hpath := (EnumGroups.mem_leafPaths_of_sighted hs.1).mp hsp
  have hpath' := (EnumGroups.mem_leafPaths_of_sighted hs'.1).mp hsp'
  rw [EnumGroups.inline_eq_of_path hs.1 hs'.1 hs.2 hs'.2 (hpath.symm.trans hpath')]

/-- The name of a group in the table of names for its kind; inline groups go by their representative paths. -/
def nameIn (groups : EnumGroups) (identities typedefs inline : Table String) : EnumKind → String → String
  | .identity, key => identities.getD key ""
  | .typedef, key => typedefs.getD key ""
  | .simple, key => ((groups.inline.get? key).bind (inline.get? ·.representativePath)).getD ""

/-- The registry with which the naming of inline enumerations begins. -/
def registryForInline (groups : EnumGroups) (before : NameRegistry) : NameRegistry :=
  (nameTypedefs groups.typedefs (nameIdentities groups.identities before).registry).2

/-- Three tables of names, given out one after the other, make a naming of all groups. -/
theorem exists_naming_inline (h : EnumSet.ofLeaves t enumLeaves compress skipDedup before = (.ok set, after)) :
    let groups := (EnumGroups.ofLeaves t enumLeaves compress skipDedup).1
    ∃ nameOf, Naming groups before after set nameOf ∧ ∀ {key g}, groups.inline.get? key = some g →
      (nameInline groups.inline (registryForInline groups before)).1.get? g.representativePath =
        some (nameOf .simple key) := by
  let groups := (EnumGroups.ofLeaves t enumLeaves compress skipDedup).1
  let identities := nameIdentities groups.identities before
  let typedefs := nameTypedefs groups.typedefs identities.registry
  let inline := nameInline groups.inline typedefs.2
  obtain ⟨hi, hiall⟩ := nameIdentities_spec groups.identities before
  obtain ⟨ht, htall⟩ := nameTypedefs_spec groups.typedefs identities.registry
  obtain ⟨hs, hsall⟩ := nameInline_spec groups.inline typedefs.2
  unfold EnumSet.ofLeaves at h
  dsimp only at h
  obtain ⟨hsettle, rfl⟩ := Prod.mk.injEq .. ▸ h
  obtain ⟨hclean, hset⟩ := Diagnostics.settle_eq_ok_iff.mp hsettle
  have hconflicts : identities.conflicts = [] := by
    refine List.eq_nil_iff_forall_not_mem.mpr fun d hd => ?_
    refine Bool.eq_false_iff.mp hclean (Diagnostics.hasErrors_iff.mpr ⟨d, List.mem_append_right _ hd, ?_⟩)
    rw [Diagnostic.isError, Diagnostic.severity, code_of_mem_conflicts hd]
    rfl
  let nameOf := nameIn groups identities.names typedefs.1 inline.1
  have hidentity : ∀ {key g}, groups.identities.get? key = some g →
      identities.names.get? key = some (nameOf .identity key) := by
    intro key g hg
    obtain ⟨n, hn⟩ := hiall hconflicts key g hg
    simp only [nameOf, nameIn, Table.getD, identities, hn, Option.getD_some]
  have htypedef : ∀ {key g}, groups.typedefs.get? key = some g →
      typedefs.1.get? key = some (nameOf .typedef key) := by
    intro key g hg
    obtain ⟨n, hn⟩ := htall key g hg
    simp only [nameOf, nameIn, Table.getD, typedefs, hn, Option.getD_some]
  have hinline : ∀ {key g}, groups.inline.get? key = some g →
      inline.1.get? g.representativePath = some (nameOf .simple key) := by
    intro key g hg
    obtain ⟨n, hn⟩ := hsall key g hg
    simp only [nameOf, nameIn, hg, Option.bind_some, inline, hn, Option.getD_some]
  have hbuild := build_eq nameOf (fun e he => hidentity (Table.get?_eq_some_iff.mpr he))
    (fun e he => htypedef (Table.get?_eq_some_iff.mpr he)) (fun e he => hinline (Table.get?_eq_some_iff.mpr he))
  obtain rfl : build groups nameOf = set := hbuild.symm.trans hset
  exact ⟨nameOf, build_naming
    (eq_of_phases hi ht hs hidentity htypedef hinline EnumGroups.key_eq_of_path) key_eq_of_mem_leafPaths
    (fresh_of_phases hi ht hs hidentity htypedef hinline) (taken_of_phases hi ht hs hidentity htypedef hinline), hinline⟩

theorem exists_naming (h : EnumSet.ofLeaves t enumLeaves compress skipDedup before = (.ok set, after)) :
    ∃ nameOf, Naming (EnumGroups.ofLeaves t enumLeaves compress skipDedup).1 before after set nameOf :=
  (exists_naming_inline h).imp fun _ hnaming => hnaming.1

end EnumSet

end SchemaIr
