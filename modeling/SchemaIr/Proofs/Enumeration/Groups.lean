import SchemaIr.Enumeration.Group
import SchemaIr.Proofs.Table.Lookup

/-! # What groups hold

The groups of a kind are exactly the keys of the sightings of that kind (`Collected`). A group holds what its
first sighting says, and the paths of all its sightings. Since a leaf has at most one inline enumeration, two
inline groups are never represented by the same path (`key_eq_of_path`). -/

namespace SchemaIr.EnumGroups

/-- The groups of one kind by key. -/
def ofKind (groups : EnumGroups) : EnumKind → Table EnumGroup
  | .identity => groups.identities
  | .typedef => groups.typedefs
  | .simple => groups.inline

/-! ### Joining sightings -/

/-- The groups that sightings are joined into, one after the other. -/
structure Joined (seen : List Sighting) (groups : Table EnumGroup) : Prop where
  /-- Every sighting has a group. -/
  group : ∀ {s : Sighting}, s ∈ seen → ∃ g, groups.get? s.key = some g
  /-- A group holds what its first sighting says. -/
  first : ∀ {key : String} {g : EnumGroup}, groups.get? key = some g →
    ∃ s, seen.find? (·.key = key) = some s ∧ g = { s.group with leafPaths := g.leafPaths }
  /-- A group has the paths of its sightings. -/
  paths : ∀ {key : String} {g : EnumGroup}, groups.get? key = some g → ∀ path,
    path ∈ g.leafPaths.names ↔ ∃ s ∈ seen, s.key = key ∧ path ∈ s.group.leafPaths.names

namespace Joined
variable {seen : List Sighting} {groups : Table EnumGroup}

theorem nil : Joined [] ∅ := ⟨fun h => (nomatch h), fun h => (nomatch h), fun h => (nomatch h)⟩

theorem founder (h : Joined seen groups) {key : String} {g : EnumGroup} (hg : groups.get? key = some g) :
    ∃ s ∈ seen, s.key = key ∧ g = { s.group with leafPaths := g.leafPaths } := by
  obtain ⟨s, hs, hsg⟩ := h.first hg
  exact ⟨s, List.mem_of_find?_eq_some hs, by simpa using List.find?_some hs, hsg⟩

theorem find?_append_of_some {key : String} {s r : Sighting} (h : seen.find? (·.key = key) = some r) :
    (seen ++ [s]).find? (·.key = key) = some r := by
  rw [List.find?_append, h, Option.some_or]

theorem join (h : Joined seen groups) {s : Sighting} {g : EnumGroup} (hg : groups.get? s.key = some g) :
    Joined (seen ++ [s])
      (groups.insert s.key { g with leafPaths := g.leafPaths.union s.group.leafPaths }) := by
  refine ⟨fun {r} hr => ?_, fun {key k} hk => ?_, fun {key k} hk path => ?_⟩
  · rw [Table.get?_insert]
    split
    · exact ⟨_, rfl⟩
    · rename_i hne
      rcases List.mem_append.mp hr with hr | hr
      · exact h.group hr
      · exact absurd (congrArg Sighting.key (List.mem_singleton.mp hr)) hne
  · rw [Table.get?_insert] at hk
    split at hk
    · rename_i hkey
      cases hk
      obtain ⟨r, hr, hrg⟩ := h.first hg
      exact ⟨r, find?_append_of_some (hkey ▸ hr), by rw [hrg]⟩
    · obtain ⟨r, hr, hrg⟩ := h.first hk
      exact ⟨r, find?_append_of_some hr, hrg⟩
  · rw [Table.get?_insert] at hk
    split at hk
    · rename_i hkey
      cases hk
      rw [NameSet.mem_names_union, h.paths hg, hkey]
      simp only [List.mem_append, List.mem_singleton, or_and_right, exists_or, exists_eq_left, true_and]
    · rename_i hkey
      rw [h.paths hk]
      simp only [List.mem_append, List.mem_singleton, or_and_right, exists_or, exists_eq_left, Ne.symm hkey,
        false_and, or_false]

theorem found (h : Joined seen groups) {s : Sighting} (hg : groups.get? s.key = none) :
    Joined (seen ++ [s]) (groups.insert s.key s.group) := by
  have hnew : ∀ r ∈ seen, r.key ≠ s.key := by
    intro r hr hkey
    obtain ⟨g, hgr⟩ := h.group hr
    rw [hkey, hg] at hgr
    cases hgr
  refine ⟨fun {r} hr => ?_, fun {key k} hk => ?_, fun {key k} hk path => ?_⟩
  · rw [Table.get?_insert]
    split
    · exact ⟨_, rfl⟩
    · rename_i hne
      rcases List.mem_append.mp hr with hr | hr
      · exact h.group hr
      · exact absurd (congrArg Sighting.key (List.mem_singleton.mp hr)) hne
  · rw [Table.get?_insert] at hk
    split at hk
    · rename_i hkey
      cases hk
      have hnone : seen.find? (·.key = key) = none :=
        List.find?_eq_none.mpr fun r hr => by simpa [hkey] using hnew r hr
      exact ⟨s, by rw [List.find?_append, hnone, Option.none_or]; simp [hkey], rfl⟩
    · obtain ⟨r, hr, hrg⟩ := h.first hk
      exact ⟨r, find?_append_of_some hr, hrg⟩
  · rw [Table.get?_insert] at hk
    split at hk
    · rename_i hkey
      cases hk
      constructor
      · exact fun hp => ⟨s, by simp, hkey.symm, hp⟩
      · rintro ⟨r, hr, hrk, hp⟩
        rcases List.mem_append.mp hr with hr | hr
        · exact absurd (hrk.trans hkey) (hnew r hr)
        · rwa [List.mem_singleton.mp hr] at hp
    · rename_i hkey
      rw [h.paths hk]
      simp only [List.mem_append, List.mem_singleton, or_and_right, exists_or, exists_eq_left, Ne.symm hkey,
        false_and, or_false]

theorem step (h : Joined seen groups) (s : Sighting) : Joined (seen ++ [s]) (EnumGroups.join groups s) := by
  unfold EnumGroups.join
  split
  · rename_i hg
    exact h.join hg
  · rename_i hg
    exact h.found hg

end Joined

/-! ### Collecting sightings -/

/-- The groups of sightings, each kind apart. -/
def Collected (seen : List Sighting) (groups : EnumGroups) : Prop :=
  ∀ kind, Joined (seen.filter (·.group.kind = kind)) (groups.ofKind kind)

theorem Collected.add {seen : List Sighting} {groups : EnumGroups} (h : Collected seen groups) (s : Sighting) :
    Collected (seen ++ [s]) (groups.add s) := by
  intro kind
  rw [List.filter_append]
  by_cases hkind : s.group.kind = kind
  · have hmine : [s].filter (·.group.kind = kind) = [s] := by simp [hkind]
    have hadd : (groups.add s).ofKind kind = join (groups.ofKind kind) s := by
      subst hkind
      unfold EnumGroups.add
      cases s.group.kind <;> rfl
    rw [hmine, hadd]
    exact (h kind).step s
  · have hother : [s].filter (·.group.kind = kind) = [] := by simp [hkind]
    have hadd : (groups.add s).ofKind kind = groups.ofKind kind := by
      unfold EnumGroups.add
      cases hk : s.group.kind <;> cases kind <;> first | rfl | exact absurd hk hkind
    rw [hother, hadd, List.append_nil]
    exact h kind

variable (t : SchemaTree) (enumLeaves : Table NodeId) (compress skipDedup : Bool)

/-- The sightings at all enumerated leaves with which nothing is wrong. -/
def sighted : List Sighting := (allSightings t enumLeaves compress skipDedup).filterMap Except.toOption

/-- What is wrong with a sighting, if anything is. -/
def problem? : Except Diagnostic Sighting → Option Diagnostic
  | .ok _ => none
  | .error d => some d

/-- What is wrong at the enumerated leaves. -/
def unsighted : List Diagnostic := (allSightings t enumLeaves compress skipDedup).filterMap problem?

/-- Takes one more sighting to the groups, or what is wrong with it to the problems. -/
def take (st : EnumGroups × List Diagnostic) : Except Diagnostic Sighting → EnumGroups × List Diagnostic
  | .ok s => (st.1.add s, st.2)
  | .error d => (st.1, st.2 ++ [d])

theorem ofLeaves_eq : ofLeaves t enumLeaves compress skipDedup =
    (allSightings t enumLeaves compress skipDedup).foldl take (empty, []) := rfl

/-- The sightings still to come, after those that were collected. -/
theorem foldl_take (rest : List (Except Diagnostic Sighting)) {seen : List Sighting} {groups : EnumGroups}
    (problems : List Diagnostic) (h : Collected seen groups) :
    Collected (seen ++ rest.filterMap Except.toOption) (rest.foldl take (groups, problems)).1 ∧
      (rest.foldl take (groups, problems)).2 = problems ++ rest.filterMap problem? := by
  induction rest generalizing seen groups problems with
  | nil => exact ⟨by simpa using h, by simp⟩
  | cons s rest ih =>
    cases s with
    | ok s =>
      obtain ⟨hg, hp⟩ := ih problems (h.add s)
      exact ⟨by simpa [Except.toOption, take] using hg, hp⟩
    | error d =>
      obtain ⟨hg, hp⟩ := ih (problems ++ [d]) h
      exact ⟨hg, by simpa [problem?, take] using hp⟩

theorem ofLeaves_spec :
    Collected (sighted t enumLeaves compress skipDedup) (ofLeaves t enumLeaves compress skipDedup).1 ∧
      (ofLeaves t enumLeaves compress skipDedup).2 = unsighted t enumLeaves compress skipDedup := by
  have hempty : Collected [] empty := fun kind => by cases kind <;> exact Joined.nil
  rw [ofLeaves_eq]
  exact foldl_take (allSightings t enumLeaves compress skipDedup) [] hempty

/-! ### Sightings of a leaf -/

variable {t enumLeaves compress skipDedup} {path : String} {leaf : NodeId} {member : TypeDescriptor}
  {s s' : Sighting}

theorem sight_eq_ok (h : sight t compress skipDedup path leaf member = .ok s) :
    s.group.representativePath = path ∧ s.group.leafPaths = .ofNames [path] ∧
      ((member.kind = .identityref ∧ s.group.kind = .identity ∧
          s.key = ownKey s.group.module s.group.localName ∧
          ∃ i, member.identity = some i ∧ i.base ≠ "" ∧ s.key = ownKey i.module i.base) ∨
        (member.kind ≠ .identityref ∧ s.group.kind = .typedef ∧
          s.key = ownKey s.group.module s.group.localName ∧
          ∃ d, member.typedef = some d ∧ s.key = ownKey d.module d.name) ∨
        (member.kind ≠ .identityref ∧ s.group.kind = .simple ∧ member.typedef = none)) := by
  unfold sight at h
  dsimp only at h
  split at h
  · rename_i hkind
    split at h
    · cases h
    · rename_i i hi
      cases h
      rw [Option.filter_eq_some_iff] at hi
      exact ⟨rfl, rfl, .inl ⟨hkind, rfl, rfl, i, hi.1, by simpa using hi.2, rfl⟩⟩
  · rename_i hkind
    split at h
    · rename_i d hd
      cases h
      exact ⟨rfl, rfl, .inr (.inl ⟨hkind, rfl, rfl, d, hd, rfl⟩)⟩
    · rename_i hd
      cases h
      exact ⟨rfl, rfl, .inr (.inr ⟨hkind, rfl, hd⟩)⟩

/-- The sightings at a leaf are those of its enumerated alternatives, of which at most one is inline. -/
theorem mem_sightings (h : .ok s ∈ sightings t compress skipDedup path leaf) :
    ∃ type, (t.node leaf).type = some type ∧ (type.enumeratedMembers.filter (·.isInlineEnum)).length ≤ 1 ∧
      ∃ member ∈ type.enumeratedMembers, sight t compress skipDedup path leaf member = .ok s := by
  unfold sightings at h
  split at h
  · simp at h
  · rename_i type htype
    split at h
    · simp at h
    · dsimp only at h
      split at h
      · simp at h
      · rename_i hone
        obtain ⟨member, hm, hs⟩ := List.mem_map.mp h
        exact ⟨type, htype, Nat.le_of_not_lt hone, member, hm, hs⟩

theorem mem_sighted_iff : s ∈ sighted t enumLeaves compress skipDedup ↔
    ∃ path leaf, enumLeaves.get? path = some leaf ∧ .ok s ∈ sightings t compress skipDedup path leaf := by
  have hok : ∀ {x : Except Diagnostic Sighting}, x.toOption = some s ↔ x = .ok s := by
    intro x
    cases x <;> simp [Except.toOption]
  simp only [sighted, allSightings, List.mem_filterMap, List.mem_flatMap, hok, exists_eq_right, Prod.exists,
    Table.get?_eq_some_iff]

/-- The path of a sighting is that of the leaf where it is made. -/
theorem leaf_of_sighted (h : s ∈ sighted t enumLeaves compress skipDedup) :
    ∃ leaf, enumLeaves.get? s.group.representativePath = some leaf ∧
      .ok s ∈ sightings t compress skipDedup s.group.representativePath leaf := by
  obtain ⟨path, leaf, hleaf, hs⟩ := mem_sighted_iff.mp h
  obtain ⟨_, -, -, member, -, hm⟩ := mem_sightings hs
  rw [(sight_eq_ok hm).1]
  exact ⟨leaf, hleaf, hs⟩

theorem mem_leafPaths_of_sighted (h : s ∈ sighted t enumLeaves compress skipDedup) :
    path ∈ s.group.leafPaths.names ↔ path = s.group.representativePath := by
  obtain ⟨leaf, -, hs⟩ := leaf_of_sighted h
  obtain ⟨_, -, -, member, -, hm⟩ := mem_sightings hs
  rw [(sight_eq_ok hm).2.1, NameSet.mem_names_ofNames, List.mem_singleton]

/-- The groups of a kind are those of the sightings of that kind. -/
theorem ofKind_ofLeaves (kind : EnumKind) {key : String} :
    (∃ g, ((ofLeaves t enumLeaves compress skipDedup).1.ofKind kind).get? key = some g) ↔
      ∃ s ∈ sighted t enumLeaves compress skipDedup, s.group.kind = kind ∧ s.key = key := by
  have hjoined := (ofLeaves_spec t enumLeaves compress skipDedup).1 kind
  constructor
  · rintro ⟨g, hg⟩
    obtain ⟨s, hs, hkey, -⟩ := hjoined.founder hg
    simp only [List.mem_filter, decide_eq_true_eq] at hs
    exact ⟨s, hs.1, hs.2, hkey⟩
  · rintro ⟨s, hs, hkind, rfl⟩
    exact hjoined.group (List.mem_filter.mpr ⟨hs, by simpa using hkind⟩)

theorem inline_eq_of_path (h : s ∈ sighted t enumLeaves compress skipDedup)
    (h' : s' ∈ sighted t enumLeaves compress skipDedup) (hk : s.group.kind = .simple)
    (hk' : s'.group.kind = .simple) (hpath : s.group.representativePath = s'.group.representativePath) :
    s = s' := by
  obtain ⟨leaf, hleaf, hs⟩ := leaf_of_sighted h
  obtain ⟨leaf', hleaf', hs'⟩ := leaf_of_sighted h'
  rw [← hpath] at hleaf' hs'
  obtain rfl : leaf = leaf' := Option.some.inj (hleaf.symm.trans hleaf')
  obtain ⟨type, htype, hone, member, hm, hsight⟩ := mem_sightings hs
  obtain ⟨type', htype', -, member', hm', hsight'⟩ := mem_sightings hs'
  obtain rfl : type = type' := Option.some.inj (htype.symm.trans htype')
  -- Both come from the only inline alternative.
  have inline : ∀ {m : TypeDescriptor} {r : Sighting}, m ∈ type.enumeratedMembers →
      sight t compress skipDedup s.group.representativePath leaf m = .ok r → r.group.kind = .simple →
        m ∈ type.enumeratedMembers.filter (·.isInlineEnum) := by
    intro m r hm hr hkind
    refine List.mem_filter.mpr ⟨hm, ?_⟩
    have henum : m.isEnumerated = true := (List.mem_filter.mp hm).2
    rcases (sight_eq_ok hr).2.2 with ⟨-, hi, -⟩ | ⟨-, hd, -⟩ | ⟨hne, -, hnone⟩
    · rw [hkind] at hi
      cases hi
    · rw [hkind] at hd
      cases hd
    · simpa [TypeDescriptor.isInlineEnum, TypeDescriptor.isEnumerated, hne, hnone] using henum
  have heq : member = member' := by
    have hin := inline hm hsight hk
    have hin' := inline hm' hsight' hk'
    match hlist : type.enumeratedMembers.filter (·.isInlineEnum) with
    | [] =>
      rw [hlist] at hin
      cases hin
    | [m] =>
      rw [hlist] at hin hin'
      exact (List.mem_singleton.mp hin).trans (List.mem_singleton.mp hin').symm
    | _ :: _ :: _ =>
      rw [hlist] at hone
      simp at hone
  rw [heq, hsight'] at hsight
  exact (Except.ok.inj hsight).symm

/-- Two groups of inline enumerations are represented by different leaves. -/
theorem key_eq_of_path {key key' : String} {g g' : EnumGroup}
    (hg : (ofLeaves t enumLeaves compress skipDedup).1.inline.get? key = some g)
    (hg' : (ofLeaves t enumLeaves compress skipDedup).1.inline.get? key' = some g')
    (hpath : g.representativePath = g'.representativePath) : key = key' := by
  have hjoined := (ofLeaves_spec t enumLeaves compress skipDedup).1 .simple
  obtain ⟨s, hs, rfl, hsg⟩ := hjoined.founder hg
  obtain ⟨s', hs', rfl, hsg'⟩ := hjoined.founder hg'
  simp only [List.mem_filter, decide_eq_true_eq] at hs hs'
  rw [hsg, hsg'] at hpath
  rw [inline_eq_of_path hs.1 hs'.1 hs.2 hs'.2 hpath]

end SchemaIr.EnumGroups
