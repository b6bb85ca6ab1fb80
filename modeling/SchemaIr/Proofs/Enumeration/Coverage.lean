import SchemaIr.Proofs.Enumeration.Reference
import SchemaIr.Proofs.Schema.Alternatives

/-! # Which leaves an enumeration covers

The leaves are sighted in the order of their paths, so a group holds what the leaf with the least of its paths says
(`exists_founder`). Where the naming succeeds, every enumeration of every leaf has a name, under which the leaf is
listed; every enumeration lists its leaves in order, and is represented by the first of them; and no leaf is listed in
two inline enumerations (`ofLeaves_covers`). -/

namespace SchemaIr

/-- A strictly increasing list begins with the least of its elements. -/
theorem head?_eq_of_least {names : List String} (hsorted : names.Pairwise (· < ·)) {name : String} (hname : name ∈ names)
    (hleast : ∀ other ∈ names, name ≤ other) : names.head? = some name := by
  cases names with
  | nil => cases hname
  | cons first rest =>
    rcases List.mem_cons.mp hname with rfl | hrest
    · rfl
    · have hlt := (List.pairwise_cons.mp hsorted).1 name hrest
      exact absurd hlt (String.not_lt.mpr (hleast first List.mem_cons_self))

namespace EnumGroups
variable {t : SchemaTree} {enumLeaves : Table NodeId} {compress skipDedup : Bool} {path : String} {leaf : NodeId}
  {m : TypeDescriptor} {s : Sighting}

/-! ### First sightings -/

theorem node_of_sight (h : sight t compress skipDedup path leaf m = .ok s) : s.group.node = leaf := by
  unfold sight at h
  dsimp only at h
  split at h
  · split at h <;> cases h
    rfl
  · split at h <;> cases h <;> rfl

/-- What is sighted of an inline enumeration. -/
theorem inline_of_sight (h : sight t compress skipDedup path leaf m = .ok s) (hkind : m.kind = .enumeration)
    (hnone : m.typedef = none) : s.group.kind = .simple ∧ s.group.values = m.values.map (·.name) ∧
      s.key = inlineKey t skipDedup leaf (context t compress leaf) (m.values.map (·.name)) := by
  simp only [sight, hkind, reduceCtorEq, ↓reduceIte, hnone, Except.ok.injEq] at h
  subst h
  exact ⟨rfl, rfl, rfl⟩

/-- Leaves are sighted in the order of their paths. -/
theorem pairwise_sighted : (sighted t enumLeaves compress skipDedup).Pairwise fun s s' =>
    s.group.representativePath ≤ s'.group.representativePath := by
  have hpath : ∀ {path leaf s}, .ok s ∈ sightings t compress skipDedup path leaf → s.group.representativePath = path := by
    intro path leaf s hs
    obtain ⟨_, -, -, m, -, hm⟩ := mem_sightings hs
    exact (sight_eq_ok hm).1
  have hok : ∀ {x : Except Diagnostic Sighting} {s}, x.toOption = some s → x = .ok s := fun h => ok_of_toOption h
  rw [sighted, allSightings, List.pairwise_filterMap, List.pairwise_flatMap]
  refine ⟨fun e _ => ?_, enumLeaves.sorted.imp fun hlt x hx y hy s hs s' hs' => ?_⟩
  · refine List.pairwise_of_forall_mem_list fun x hx y hy s hs s' hs' => ?_
    have hsame : s.group.representativePath = s'.group.representativePath :=
      (hpath (hok hs ▸ hx)).trans (hpath (hok hs' ▸ hy)).symm
    exact hsame ▸ String.le_refl _
  · rw [hpath (hok hs ▸ hx), hpath (hok hs' ▸ hy)]
    exact String.not_lt.mp (String.lt_asymm hlt)

/-- A group holds what the sighting with the least path says. -/
theorem exists_founder {kind : EnumKind} {key : String} {g : EnumGroup}
    (hg : ((ofLeaves t enumLeaves compress skipDedup).1.ofKind kind).get? key = some g) :
    ∃ s ∈ sighted t enumLeaves compress skipDedup, s.group.kind = kind ∧ s.key = key ∧
      g = { s.group with leafPaths := g.leafPaths } ∧
        ∀ s' ∈ sighted t enumLeaves compress skipDedup, s'.group.kind = kind → s'.key = key →
          s.group.representativePath ≤ s'.group.representativePath := by
  obtain ⟨s, hs, hsg⟩ := ((ofLeaves_spec t enumLeaves compress skipDedup).1 kind).first hg
  obtain ⟨hkey, before, after, hseen, hbefore⟩ := List.find?_eq_some_iff_append.mp hs
  have hmem := List.mem_of_find?_eq_some hs
  simp only [List.mem_filter, decide_eq_true_eq] at hmem hkey
  refine ⟨s, hmem.1, hmem.2, hkey, hsg, fun s' hs' hkind' hkey' => ?_⟩
  have hs' : s' ∈ before ++ s :: after := hseen ▸ List.mem_filter.mpr ⟨hs', by simpa using hkind'⟩
  have hsorted : (before ++ s :: after).Pairwise fun s s' => s.group.representativePath ≤ s'.group.representativePath :=
    hseen ▸ pairwise_sighted.filter _
  rcases List.mem_append.mp hs' with hfirst | hlater
  · exact absurd hkey' (by simpa using hbefore s' hfirst)
  · rcases List.mem_cons.mp hlater with rfl | hlater
    · exact String.le_refl _
    · exact (List.pairwise_cons.mp (List.pairwise_append.mp hsorted).2.1).1 s' hlater

/-- The groups of a kind are of that kind. -/
theorem kind_of_group {kind : EnumKind} {key : String} {g : EnumGroup}
    (hg : ((ofLeaves t enumLeaves compress skipDedup).1.ofKind kind).get? key = some g) : g.kind = kind := by
  obtain ⟨s, -, hkind, -, hsg, -⟩ := exists_founder hg
  exact (congrArg EnumGroup.kind hsg).trans hkind

/-- The leaves of a group are those where its sightings are made. -/
theorem mem_leafPaths_of_group {kind : EnumKind} {key : String} {g : EnumGroup}
    (hg : ((ofLeaves t enumLeaves compress skipDedup).1.ofKind kind).get? key = some g) :
    path ∈ g.leafPaths.names ↔ ∃ s ∈ sighted t enumLeaves compress skipDedup,
      s.group.kind = kind ∧ s.key = key ∧ path = s.group.representativePath := by
  rw [((ofLeaves_spec t enumLeaves compress skipDedup).1 kind).paths hg path]
  constructor
  · rintro ⟨s, hs, hkey, hpath⟩
    simp only [List.mem_filter, decide_eq_true_eq] at hs
    exact ⟨s, hs.1, hs.2, hkey, (mem_leafPaths_of_sighted hs.1).mp hpath⟩
  · rintro ⟨s, hs, hkind, hkey, hpath⟩
    exact ⟨s, List.mem_filter.mpr ⟨hs, by simpa using hkind⟩, hkey, (mem_leafPaths_of_sighted hs).mpr hpath⟩

end EnumGroups

namespace EnumSet
variable {t : SchemaTree} {enumLeaves : Table NodeId} {compress skipDedup : Bool} {before : NameRegistry}
  {set : EnumSet} {path : String} {leaf : NodeId} {type m : TypeDescriptor}

/-! ### Named leaves -/

/-- A leaf refers to what is sighted there by the name of the group. -/
theorem Naming.nameFor?_of_sight {after : NameRegistry} {nameOf : EnumKind → String → String}
    (hnaming : Naming (EnumGroups.ofLeaves t enumLeaves compress skipDedup).1 before after set nameOf)
    (hpath : t.pathString leaf = path) (henum : m.isEnumerated = true) {s : EnumGroups.Sighting} {g : EnumGroup}
    (hsight : EnumGroups.sight t compress skipDedup path leaf m = .ok s)
    (hg : ((EnumGroups.ofLeaves t enumLeaves compress skipDedup).1.ofKind s.group.kind).get? s.key = some g)
    (hlisted : path ∈ g.leafPaths.names) : set.nameFor? t leaf m = some (nameOf s.group.kind s.key) := by
  rcases (EnumGroups.sight_eq_ok hsight).2.2 with ⟨hk, hkind, -, i, hi, -, hkey⟩ | ⟨hk, hkind, -, d, hd, hkey⟩ |
    ⟨hk, hkind, hnone⟩
  · rw [hkind] at hg
    simp only [nameFor?, hk, hi, Option.bind_some]
    rw [← hkey, hkind]
    exact hnaming.identity.mpr ⟨g, hg, rfl⟩
  · rw [hkind] at hg
    simp only [nameFor?, kind_of_isEnumerated henum hk, hd]
    rw [← hkey, hkind]
    exact hnaming.typedef.mpr ⟨g, hg, rfl⟩
  · rw [hkind] at hg
    simp only [nameFor?, kind_of_isEnumerated henum hk, hnone]
    rw [hpath, hkind]
    exact hnaming.inline.mpr ⟨s.key, g, hg, hlisted, rfl⟩

/-- An enumeration of a leaf has the name of its group, which lists the leaf. -/
theorem exists_named (hkeyed : ∀ path leaf, enumLeaves.get? path = some leaf → t.pathString leaf = path)
    (h : (EnumSet.ofLeaves t enumLeaves compress skipDedup before).1 = .ok set) (hleaf : enumLeaves.get? path = some leaf)
    (htype : (t.node leaf).type = some type) (hm : type.IsAlternative m) (henum : m.isEnumerated = true) :
    ∃ s g name, EnumGroups.sight t compress skipDedup path leaf m = .ok s ∧
      s ∈ EnumGroups.sighted t enumLeaves compress skipDedup ∧
        ((EnumGroups.ofLeaves t enumLeaves compress skipDedup).1.ofKind s.group.kind).get? s.key = some g ∧
          path ∈ g.leafPaths.names ∧ set.nameFor? t leaf m = some name ∧
            set.enumerations.get? name = some (ofGroup name g) := by
  have hmember := TypeDescriptor.mem_enumeratedMembers_iff.mpr ⟨hm, henum⟩
  obtain ⟨s, g, hsight, hseen, hg⟩ := exists_group_at h hleaf htype hmember
  obtain ⟨nameOf, hnaming⟩ := exists_naming_of_eq_ok h
  have hlisted : path ∈ g.leafPaths.names :=
    (EnumGroups.mem_leafPaths_of_group hg).mpr ⟨s, hseen, rfl, rfl, (EnumGroups.sight_eq_ok hsight).1.symm⟩
  exact ⟨s, g, nameOf s.group.kind s.key, hsight, hseen, hg, hlisted,
    hnaming.nameFor?_of_sight (hkeyed path leaf hleaf) henum hsight hg hlisted, hnaming.entity hg⟩

/-! ### What is covered -/

/-- The enumerations of a set are those of the leaves in a table. -/
structure Covers (t : SchemaTree) (enumLeaves : Table NodeId) (set : EnumSet) : Prop where
  /-- Every enumeration of a leaf has a name, under which the leaf is listed. -/
  named : ∀ {path leaf type m}, enumLeaves.get? path = some leaf → (t.node leaf).type = some type →
    type.IsAlternative m → m.isEnumerated = true → ∃ name e, set.nameFor? t leaf m = some name ∧
      set.enumerations.get? name = some e ∧ path ∈ e.leafPaths
  /-- Only leaves of the table are listed. -/
  known : ∀ {name e path}, set.enumerations.get? name = some e → path ∈ e.leafPaths →
    ∃ leaf, enumLeaves.get? path = some leaf
  /-- The leaves of an enumeration are listed in order, … -/
  ordered : ∀ {name e}, set.enumerations.get? name = some e → e.leafPaths.Pairwise (· < ·)
  /-- … and the first of them represents it. -/
  represented : ∀ {name e}, set.enumerations.get? name = some e →
    e.leafPaths.head? = some e.representativePath ∧ enumLeaves.get? e.representativePath = some e.node
  /-- A leaf with an inline enumeration is listed in one, … -/
  inline : ∀ {path leaf type m}, enumLeaves.get? path = some leaf → (t.node leaf).type = some type →
    type.IsAlternative m → m.kind = .enumeration → m.typedef = none →
      ∃ name e, set.enumerations.get? name = some e ∧ e.kind = .simple ∧ path ∈ e.leafPaths
  /-- … and no leaf is listed in two. -/
  alone : ∀ {name name' e e' path}, set.enumerations.get? name = some e → set.enumerations.get? name' = some e' →
    e.kind = .simple → e'.kind = .simple → path ∈ e.leafPaths → path ∈ e'.leafPaths → name = name'

/-- The enumerations that are named are those of the leaves. -/
theorem ofLeaves_covers (hkeyed : ∀ path leaf, enumLeaves.get? path = some leaf → t.pathString leaf = path)
    (h : (EnumSet.ofLeaves t enumLeaves compress skipDedup before).1 = .ok set) : Covers t enumLeaves set := by
  obtain ⟨nameOf, hnaming⟩ := exists_naming_of_eq_ok h
  refine ⟨fun hleaf htype hm henum => ?_, fun he hpath => ?_, fun he => ?_, fun he => ?_,
    fun hleaf htype hm hkind hnone => ?_, fun he he' hkind hkind' hpath hpath' => ?_⟩
  · obtain ⟨s, g, name, -, -, -, hlisted, hname, hget⟩ := exists_named hkeyed h hleaf htype hm henum
    exact ⟨name, _, hname, hget, hlisted⟩
  · obtain ⟨kind, key, g, hg, rfl, rfl⟩ := hnaming.only he
    obtain ⟨s, hs, -, -, rfl⟩ := (EnumGroups.mem_leafPaths_of_group hg).mp hpath
    obtain ⟨leaf, hleaf, -⟩ := EnumGroups.leaf_of_sighted hs
    exact ⟨leaf, hleaf⟩
  · obtain ⟨kind, key, g, -, rfl, rfl⟩ := hnaming.only he
    exact List.pairwise_map.mpr g.leafPaths.sorted
  · obtain ⟨kind, key, g, hg, rfl, rfl⟩ := hnaming.only he
    obtain ⟨s, hs, hkind, hkey, hsg, hleast⟩ := EnumGroups.exists_founder hg
    obtain ⟨leaf, hleaf, hmem⟩ := EnumGroups.leaf_of_sighted hs
    obtain ⟨_, -, -, m, -, hsight⟩ := EnumGroups.mem_sightings hmem
    have hrep : g.representativePath = s.group.representativePath := by rw [hsg]
    have hnode : g.node = leaf := (congrArg EnumGroup.node hsg).trans (EnumGroups.node_of_sight hsight)
    simp only [ofGroup, hrep, hnode]
    refine ⟨head?_eq_of_least (List.pairwise_map.mpr g.leafPaths.sorted) ?_ fun other hother => ?_, hleaf⟩
    · exact (EnumGroups.mem_leafPaths_of_group hg).mpr ⟨s, hs, hkind, hkey, rfl⟩
    · obtain ⟨s', hs', hkind', hkey', rfl⟩ := (EnumGroups.mem_leafPaths_of_group hg).mp hother
      exact hleast s' hs' hkind' hkey'
  · obtain ⟨s, g, name, hsight, -, hg, hlisted, -, hget⟩ :=
      exists_named hkeyed h hleaf htype hm (by rw [TypeDescriptor.isEnumerated, hkind]; rfl)
    have hsimple := (EnumGroups.inline_of_sight hsight hkind hnone).1
    exact ⟨name, _, hget, (EnumGroups.kind_of_group hg).trans hsimple, hlisted⟩
  · obtain ⟨kind, key, g, hg, rfl, rfl⟩ := hnaming.only he
    obtain ⟨kind', key', g', hg', rfl, rfl⟩ := hnaming.only he'
    obtain rfl : kind = .simple := (EnumGroups.kind_of_group hg).symm.trans hkind
    obtain rfl : kind' = .simple := (EnumGroups.kind_of_group hg').symm.trans hkind'
    rw [key_eq_of_mem_leafPaths hg hg' hpath hpath']

/-- Two lamps with the same modes, one of which may have an identity for its mode as well. -/
def lamps : SchemaTree :=
  let modes : TypeDescriptor := { TypeDescriptor.ofKind .enumeration with values := [⟨"on", none⟩, ⟨"off", none⟩] }
  let more : TypeDescriptor := { TypeDescriptor.ofKind .identityref with identity := some ⟨"m", "mode", ["dim"]⟩ }
  let either : TypeDescriptor := { TypeDescriptor.ofKind .union with members := [modes, more] }
  ((((((SchemaTree.empty.addModule ⟨"m", "urn:m", none, false⟩).addChild 0 (.ofKind "a" .container "m")).addChild 1
    (.ofKind "lamp" .container "m")).addChild 2 { Node.ofKind "mode" .leaf "m" with type := some modes }).addChild 0
    (.ofKind "b" .container "m")).addChild 4 (.ofKind "lamp" .container "m")).addChild 5
    { Node.ofKind "mode" .leaf "m" with type := some either }

def lampModes : Table NodeId := .ofList [("/m/a/lamp/mode", 3), ("/m/b/lamp/mode", 6)]

theorem lampModes_keyed (path : String) (leaf : NodeId) (h : lampModes.get? path = some leaf) :
    lamps.pathString leaf = path := by
  have hall : ∀ e ∈ lampModes.entries, lamps.pathString e.2 = e.1 := by decide +kernel
  exact hall (path, leaf) (Table.get?_eq_some_iff.mp h)

theorem lamps_covers : ∃ set, (EnumSet.ofLeaves lamps lampModes false false ∅).1 = .ok set ∧
    set.enumerations.entries.map (fun e => (e.1, e.2.leafPaths)) =
      [("M_Lamp_Mode", ["/m/a/lamp/mode", "/m/b/lamp/mode"]), ("M_Mode", ["/m/b/lamp/mode"])] ∧
    Covers lamps lampModes set := by
  have hrun : ((EnumSet.ofLeaves lamps lampModes false false ∅).1.toOption.any fun set =>
      set.enumerations.entries.map (fun e => (e.1, e.2.leafPaths)) ==
        [("M_Lamp_Mode", ["/m/a/lamp/mode", "/m/b/lamp/mode"]), ("M_Mode", ["/m/b/lamp/mode"])]) = true := by
    decide +kernel
  obtain ⟨set, hset, hpaths⟩ := (Option.any_eq_true ..).mp hrun
  exact ⟨set, ok_of_toOption hset, beq_iff_eq.mp hpaths, ofLeaves_covers lampModes_keyed (ok_of_toOption hset)⟩

end EnumSet

end SchemaIr
