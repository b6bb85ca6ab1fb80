import SchemaIr.Proofs.Enumeration.Coverage
import SchemaIr.Proofs.Schema.DataTree
import SchemaIr.Proofs.Text.Pieces

/-! # The values of inline enumerations

Inline enumerations of one key form one group, which holds the values of the leaf with the least path. So a leaf's
enumeration has its own values exactly if the key tells it from all that come before it and have others
(`values_kept_iff`). With deduplication the values are part of the key, and where no bar stands in a name and no comma in
a value, they can be read off it (`values_eq_of_key`). -/

namespace SchemaIr.EnumSet
open EnumGroups (context inlineKey)

variable {t : SchemaTree} {enumLeaves : Table NodeId} {compress skipDedup : Bool} {before : NameRegistry}
  {set : EnumSet} {path : String} {leaf leaf' : NodeId} {m m' : TypeDescriptor}

/-- An inline enumeration of a leaf at a path in the table. -/
structure InlineAt (t : SchemaTree) (enumLeaves : Table NodeId) (path : String) (leaf : NodeId) (m : TypeDescriptor) :
    Prop where
  listed : enumLeaves.get? path = some leaf
  alternative : ∃ type, (t.node leaf).type = some type ∧ type.IsAlternative m
  kind : m.kind = .enumeration
  typedef : m.typedef = none

/-- The names of an enumeration's values, in order. -/
def valueNames (m : TypeDescriptor) : List String := m.values.map (·.name)

/-- The key by which an inline enumeration is grouped. -/
def groupKey (t : SchemaTree) (compress skipDedup : Bool) (leaf : NodeId) (m : TypeDescriptor) : String :=
  inlineKey t skipDedup leaf (context t compress leaf) (valueNames m)

/-- The enumeration that has the name of a leaf's enumeration has the same values. -/
def KeepsValues (t : SchemaTree) (set : EnumSet) (leaf : NodeId) (m : TypeDescriptor) : Prop :=
  ∃ name e, set.nameFor? t leaf m = some name ∧ set.enumerations.get? name = some e ∧ e.values = valueNames m

/-- The enumeration that has the name of a leaf's enumeration has the values of the first leaf of the same key. -/
def TakesValues (t : SchemaTree) (enumLeaves : Table NodeId) (compress skipDedup : Bool) (set : EnumSet) (leaf : NodeId)
    (m : TypeDescriptor) : Prop :=
  ∃ name e m₀, set.nameFor? t leaf m = some name ∧ set.enumerations.get? name = some e ∧ e.values = valueNames m₀ ∧
    InlineAt t enumLeaves e.representativePath e.node m₀ ∧
      groupKey t compress skipDedup e.node m₀ = groupKey t compress skipDedup leaf m ∧
        ∀ path' leaf' m', InlineAt t enumLeaves path' leaf' m' →
          groupKey t compress skipDedup leaf' m' = groupKey t compress skipDedup leaf m → e.representativePath ≤ path'

/-- Inline enumerations of one key have the same values. -/
def KeysTellValues (t : SchemaTree) (enumLeaves : Table NodeId) (compress skipDedup : Bool) : Prop :=
  ∀ path leaf m path' leaf' m', InlineAt t enumLeaves path leaf m → InlineAt t enumLeaves path' leaf' m' →
    groupKey t compress skipDedup leaf m = groupKey t compress skipDedup leaf' m' → valueNames m = valueNames m'

/-! ### The first of a key -/

/-- What is sighted of inline enumerations is at the leaves that have them. -/
theorem inlineAt_of_sighted {s : EnumGroups.Sighting} (hs : s ∈ EnumGroups.sighted t enumLeaves compress skipDedup)
    (hsimple : s.group.kind = .simple) : ∃ m, InlineAt t enumLeaves s.group.representativePath s.group.node m ∧
      s.group.values = valueNames m ∧ s.key = groupKey t compress skipDedup s.group.node m := by
  obtain ⟨leaf, hleaf, hmem⟩ := EnumGroups.leaf_of_sighted hs
  obtain ⟨type, htype, -, m, hm, hsight⟩ := EnumGroups.mem_sightings hmem
  obtain ⟨halternative, henum⟩ := TypeDescriptor.mem_enumeratedMembers_iff.mp hm
  obtain rfl := EnumGroups.node_of_sight hsight
  obtain ⟨hne, hnone⟩ : m.kind ≠ .identityref ∧ m.typedef = none := by
    rcases (EnumGroups.sight_eq_ok hsight).2.2 with ⟨-, hk, -⟩ | ⟨-, hk, -⟩ | ⟨hne, -, hnone⟩
    · rw [hsimple] at hk
      cases hk
    · rw [hsimple] at hk
      cases hk
    · exact ⟨hne, hnone⟩
  have hkind := kind_of_isEnumerated henum hne
  obtain ⟨-, hvalues, hkey⟩ := EnumGroups.inline_of_sight hsight hkind hnone
  exact ⟨m, ⟨hleaf, ⟨type, htype, halternative⟩, hkind, hnone⟩, hvalues, hkey⟩

section Named
variable (hkeyed : ∀ path leaf, enumLeaves.get? path = some leaf → t.pathString leaf = path)
  (h : (EnumSet.ofLeaves t enumLeaves compress skipDedup before).1 = .ok set)
include hkeyed h

/-- An inline enumeration is sighted, and has the name of the group of its key. -/
theorem exists_named_inline (hm : InlineAt t enumLeaves path leaf m) :
    (∃ s ∈ EnumGroups.sighted t enumLeaves compress skipDedup, s.group.kind = .simple ∧
      s.key = groupKey t compress skipDedup leaf m ∧ s.group.representativePath = path) ∧
    ∃ g name, ((EnumGroups.ofLeaves t enumLeaves compress skipDedup).1.ofKind .simple).get?
        (groupKey t compress skipDedup leaf m) = some g ∧
      set.nameFor? t leaf m = some name ∧ set.enumerations.get? name = some (ofGroup name g) := by
  obtain ⟨hleaf, ⟨type, htype, halternative⟩, hkind, hnone⟩ := hm
  obtain ⟨s, g, name, hsight, hseen, hg, -, hname, hget⟩ :=
    exists_named hkeyed h hleaf htype halternative (by rw [TypeDescriptor.isEnumerated, hkind]; rfl)
  obtain ⟨hsimple, -, hkey⟩ := EnumGroups.inline_of_sight hsight hkind hnone
  rw [hsimple, hkey] at hg
  exact ⟨⟨s, hseen, hsimple, hkey, (EnumGroups.sight_eq_ok hsight).1⟩, g, name, hg, hname, hget⟩

theorem takesValues (hm : InlineAt t enumLeaves path leaf m) :
    TakesValues t enumLeaves compress skipDedup set leaf m := by
  obtain ⟨-, g, name, hg, hname, hget⟩ := exists_named_inline hkeyed h hm
  obtain ⟨first, hfirst, hsimple, hkey, hfg, hleast⟩ := EnumGroups.exists_founder hg
  obtain ⟨m₀, hm₀, hvalues₀, hkey₀⟩ := inlineAt_of_sighted hfirst hsimple
  have hrep : g.representativePath = first.group.representativePath := by rw [hfg]
  have hnode : g.node = first.group.node := by rw [hfg]
  have hvalues : g.values = valueNames m₀ := by rw [hfg]; exact hvalues₀
  refine ⟨name, ofGroup name g, m₀, hname, hget, hvalues, ?_, ?_, fun path' leaf' m' hm' hkey' => ?_⟩
  · simpa only [ofGroup, hrep, hnode] using hm₀
  · simpa only [ofGroup, hnode] using hkey₀.symm.trans hkey
  · obtain ⟨⟨s, hs, hsimple', hskey, rfl⟩, -⟩ := exists_named_inline hkeyed h hm'
    simpa only [ofGroup, hrep] using hleast s hs hsimple' (hskey.trans hkey')

/-- All leaves keep the values of their inline enumerations exactly if the keys tell these values. -/
theorem keepsValues_iff : (∀ path leaf m, InlineAt t enumLeaves path leaf m → KeepsValues t set leaf m) ↔
    KeysTellValues t enumLeaves compress skipDedup := by
  constructor
  · intro hkeeps path leaf m path' leaf' m' hm hm' hkey
    -- Both leaves have the name of the one group of their key.
    have hvalues : ∀ {path leaf m}, InlineAt t enumLeaves path leaf m → ∀ {g},
        ((EnumGroups.ofLeaves t enumLeaves compress skipDedup).1.ofKind .simple).get?
          (groupKey t compress skipDedup leaf m) = some g → g.values = valueNames m := by
      intro path leaf m hm g hg
      obtain ⟨-, g', name', hg', hname', hget'⟩ := exists_named_inline hkeyed h hm
      obtain ⟨name, e, hname, he, hvalues⟩ := hkeeps path leaf m hm
      cases hg.symm.trans hg'
      cases hname.symm.trans hname'
      cases he.symm.trans hget'
      exact hvalues
    obtain ⟨-, g, name, hg, -⟩ := exists_named_inline hkeyed h hm
    exact (hvalues hm hg).symm.trans (hvalues hm' (hkey ▸ hg))
  · intro htell path leaf m hm
    obtain ⟨name, e, m₀, hname, he, hvalues, hm₀, hkey, -⟩ := takesValues hkeyed h hm
    exact ⟨name, e, hname, he, hvalues.trans (htell _ _ _ _ _ _ hm₀ hm hkey)⟩

end Named

/-! ### Values in the key -/

/-- What is joined to a key can be told apart: no bar stands in a name, and no comma in a value. -/
structure Plain (t : SchemaTree) (leaf : NodeId) (m : TypeDescriptor) : Prop where
  module : '|' ∉ (t.node leaf).module.toList
  names : ∀ id ∈ t.lineage leaf, '|' ∉ (t.name id).toList
  inhabited : m.values ≠ []
  values : ∀ v ∈ m.values, ',' ∉ v.name.toList

theorem toList_key (module parent name values : String) : ("|".intercalate [module, parent, name, values]).toList =
    module.toList ++ '|' :: (parent.toList ++ '|' :: (name.toList ++ '|' :: values.toList)) := by
  simp

/-- The segments of a context are names of the leaf and of nodes above it. -/
theorem exists_of_mem_context {segment : String} (h : segment ∈ context t compress leaf) :
    ∃ id ∈ t.lineage leaf, t.name id = segment := by
  rw [SchemaTree.lineage_eq]
  rcases List.mem_append.mp h with habove | hself
  · obtain ⟨a, ha, rfl⟩ := List.mem_map.mp (List.mem_reverse.mp habove)
    have hdata := (List.takeWhile_sublist _).subset (List.mem_filter.mp ha).1
    exact ⟨a, List.mem_cons_of_mem _ (List.mem_filter.mp hdata).1, rfl⟩
  · exact ⟨leaf, List.mem_cons_self, (List.mem_singleton.mp hself).symm⟩

theorem bar_notMem_parent (h : ∀ id ∈ t.lineage leaf, '|' ∉ (t.name id).toList) :
    '|' ∉ ((context t compress leaf).dropLast.getLast?.getD "").toList := by
  cases hparent : (context t compress leaf).dropLast.getLast? with
  | none => simp
  | some segment =>
    obtain ⟨id, hid, rfl⟩ := exists_of_mem_context (List.dropLast_subset _ (List.mem_of_getLast? hparent))
    exact h id hid

theorem values_eq_of_key (h : Plain t leaf m) (h' : Plain t leaf' m')
    (hkey : groupKey t compress false leaf m = groupKey t compress false leaf' m') : valueNames m = valueNames m' := by
  have htext := congrArg String.toList hkey
  simp only [groupKey, inlineKey, Bool.false_eq_true, ↓reduceIte, toList_key] at htext
  obtain ⟨-, htext⟩ := Text.append_sep_inj h.module h'.module htext
  obtain ⟨-, htext⟩ := Text.append_sep_inj (bar_notMem_parent h.names) (bar_notMem_parent h'.names) htext
  have hname : ∀ {leaf m}, Plain t leaf m → '|' ∉ (t.name leaf).toList := fun h =>
    h.names _ (SchemaTree.lineage_eq t _ ▸ List.mem_cons_self)
  obtain ⟨-, htext⟩ := Text.append_sep_inj (hname h) (hname h') htext
  have hvalues : ∀ {leaf m}, Plain t leaf m → valueNames m ≠ [] ∧ ∀ value ∈ valueNames m, ',' ∉ value.toList := fun h =>
    ⟨by simpa [valueNames] using h.inhabited, List.forall_mem_map.mpr h.values⟩
  exact Text.intercalate_inj rfl (hvalues h).1 (hvalues h').1 (hvalues h).2 (hvalues h').2
    (String.toList_injective htext)

/-! ### Values that are kept -/

/-- A leaf's inline enumeration gets the values of the first leaf of its key. So all leaves keep their values exactly if
    the keys tell these values, as they do with deduplication where all that is joined to a key can be told apart. -/
theorem values_kept_iff (hkeyed : ∀ path leaf, enumLeaves.get? path = some leaf → t.pathString leaf = path)
    (h : (EnumSet.ofLeaves t enumLeaves compress skipDedup before).1 = .ok set) :
    (∀ path leaf m, InlineAt t enumLeaves path leaf m → TakesValues t enumLeaves compress skipDedup set leaf m) ∧
      ((∀ path leaf m, InlineAt t enumLeaves path leaf m → KeepsValues t set leaf m) ↔
        KeysTellValues t enumLeaves compress skipDedup) ∧
      (skipDedup = false → (∀ path leaf m, InlineAt t enumLeaves path leaf m → Plain t leaf m) →
        ∀ path leaf m, InlineAt t enumLeaves path leaf m → KeepsValues t set leaf m) := by
  refine ⟨fun _ _ _ => takesValues hkeyed h, keepsValues_iff hkeyed h, ?_⟩
  rintro rfl hplain
  refine (keepsValues_iff hkeyed h).mpr fun path leaf m path' leaf' m' hm hm' => ?_
  exact values_eq_of_key (hplain _ _ _ hm) (hplain _ _ _ hm')

theorem lamps_values_kept : ∃ set, (EnumSet.ofLeaves lamps lampModes false false ∅).1 = .ok set ∧
    ∀ path leaf m, InlineAt lamps lampModes path leaf m → KeepsValues lamps set leaf m := by
  have hrun : (EnumSet.ofLeaves lamps lampModes false false ∅).1.toOption.isSome = true := by decide +kernel
  obtain ⟨set, hset⟩ := Option.isSome_iff_exists.mp hrun
  refine ⟨set, ok_of_toOption hset, (values_kept_iff lampModes_keyed (ok_of_toOption hset)).2.2 rfl ?_⟩
  have hall : ∀ e ∈ lampModes.entries, ∀ m ∈ ((lamps.node e.2).type.map (·.enumeratedMembers)).getD [],
      m.kind = .enumeration → '|' ∉ (lamps.node e.2).module.toList ∧
        (∀ id ∈ lamps.lineage e.2, '|' ∉ (lamps.name id).toList) ∧ m.values.isEmpty = false ∧
          ∀ v ∈ m.values, ',' ∉ v.name.toList := by
    decide +kernel
  rintro path leaf m ⟨hleaf, ⟨type, htype, halternative⟩, hkind, -⟩
  have hmember : m ∈ ((lamps.node leaf).type.map (·.enumeratedMembers)).getD [] := by
    rw [htype]
    exact TypeDescriptor.mem_enumeratedMembers_iff.mpr ⟨halternative, by rw [TypeDescriptor.isEnumerated, hkind]; rfl⟩
  obtain ⟨hmodule, hnames, hsome, hvalues⟩ := hall (path, leaf) (Table.get?_eq_some_iff.mp hleaf) m hmember hkind
  exact ⟨hmodule, hnames, List.isEmpty_eq_false_iff.mp hsome, hvalues⟩

/-- Two leaves of one name whose values are joined alike. -/
def switches : SchemaTree :=
  let mode (values : List String) : Node := { Node.ofKind "mode" .leaf "m" with
    type := some { TypeDescriptor.ofKind .enumeration with values := values.map (⟨·, none⟩) } }
  ((((((SchemaTree.empty.addModule ⟨"m", "urn:m", none, false⟩).addChild 0 (.ofKind "x" .container "m")).addChild 1
    (.ofKind "p" .container "m")).addChild 2 (mode ["a,b"])).addChild 0 (.ofKind "y" .container "m")).addChild 4
    (.ofKind "p" .container "m")).addChild 5 (mode ["a", "b"])

def switchModes : Table NodeId := .ofList [("/m/x/p/mode", 3), ("/m/y/p/mode", 6)]

/-- The values `a` and `b` make way for the one value `a,b`. -/
theorem switches_values_lost : ∃ set m, (EnumSet.ofLeaves switches switchModes false false ∅).1 = .ok set ∧
    (∀ path leaf, switchModes.get? path = some leaf → switches.pathString leaf = path) ∧
      InlineAt switches switchModes "/m/y/p/mode" 6 m ∧ valueNames m = ["a", "b"] ∧ ¬KeepsValues switches set 6 m := by
  have hkeyed : ∀ e ∈ switchModes.entries, switches.pathString e.2 = e.1 := by decide +kernel
  have hrun : ((EnumSet.ofLeaves switches switchModes false false ∅).1.toOption.any fun set =>
      (switches.node 6).type.any fun m => m.kind == .enumeration && m.typedef.isNone && valueNames m == ["a", "b"] &&
        ((set.nameFor? switches 6 m).bind set.enumerations.get?).map (·.values) == some ["a,b"]) = true := by
    decide +kernel
  obtain ⟨set, hset, hrun⟩ := (Option.any_eq_true ..).mp hrun
  obtain ⟨m, hm, hfacts⟩ := (Option.any_eq_true ..).mp hrun
  simp only [Bool.and_eq_true, beq_iff_eq, Option.isNone_iff_eq_none] at hfacts
  obtain ⟨⟨⟨hkind, hnone⟩, hvalues⟩, hlost⟩ := hfacts
  refine ⟨set, m, ok_of_toOption hset, fun path leaf hleaf => hkeyed (path, leaf) (Table.get?_eq_some_iff.mp hleaf),
    ⟨rfl, ⟨m, hm, .self (by simp [hkind])⟩, hkind, hnone⟩, hvalues, ?_⟩
  rintro ⟨name, e, hname, he, hkept⟩
  rw [hname, Option.bind_some, he, Option.map_some, hkept, hvalues] at hlost
  exact absurd hlost (by decide)

end SchemaIr.EnumSet
