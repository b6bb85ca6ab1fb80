import SchemaIr.Proofs.Leafref.Index
import SchemaIr.Proofs.Leafref.Path
import SchemaIr.Proofs.Schema.Joined

/-! # Leafrefs and one more module

A module that joins a tree shares its index with all others, and so it may take leafrefs away from them in two ways. It
may take over the short name that an absolute path begins with (`TakesOver`): of two modules with one short name the later
one by name counts. And one of its leaves may hide the target (`Hides`), which takes a slash in the
name of the module (`not_hides_of_notMem`). All other leafrefs lead where they led before (`target?_joined`). -/

namespace SchemaIr

namespace SchemaTree
variable {t : SchemaTree}

theorem rootModule_of_mem {name : String} {r id : NodeId} (h : t.RootsListed) (hroot : t.roots.get? name = some r)
    (hid : r ∈ t.lineage id) : t.rootModule id = name := by
  obtain ⟨-, hparent, hname, -⟩ := h.root hroot
  rw [rootModule_of_top (top_of_mem hid), rootModule_of_root hparent, hname]

/-- The path of a leaf goes on behind the name of its module. -/
theorem Rooted.dataPath_of_isLeafLike (h : t.Rooted) {id : NodeId} (hleaf : (t.kind id).isLeafLike = true) :
    ∃ rest, rest ≠ [] ∧ t.dataPath id = "" :: t.rootModule id :: rest := by
  obtain ⟨top, htop⟩ := exists_top t id
  have hmem := List.mem_of_getLast? htop
  have hnone := parent?_of_top htop
  have hkind := h.orphan (Nat.lt_of_le_of_lt (le_of_mem_lineage hmem) (lt_size_of_isLeafLike hleaf)) hnone
  have habove : top ∈ t.ancestors id := by
    rcases List.mem_cons.mp (lineage_eq t id ▸ hmem) with rfl | habove
    · rw [hkind] at hleaf
      cases hleaf
    · exact habove
  obtain ⟨rest, hne, hpath⟩ := dataPath_of_mem_ancestors (NodeKind.isChoiceOrCase_of_isLeafLike hleaf) habove
  refine ⟨rest, hne, ?_⟩
  rw [hpath, dataPath_of_top hnone (by rw [hkind]; rfl), rootModule, htop]
  rfl

end SchemaTree

/-! ### Qualified paths -/

namespace Leafref

/-- The qualifier of the first step of an absolute path. -/
def qualifier? (path : String) : Option String :=
  if IsRelative path then none else (Text.steps (cleaned path)).head?.bind fun first => (qualified first).1

end Leafref

namespace LeafIndex
open Leafref SchemaTree

variable {t u : SchemaTree} {info : ModuleInfo} {c x : NodeId} {q path : String}

theorem targetPath?_of_not_isRelative {index : LeafIndex} (h : ¬IsRelative path) : index.targetPath? t c path =
    (Text.steps (cleaned path)).head?.map fun first => "/".intercalate ("" :: index.firstModule t c (qualified first).1 ::
      (qualified first).2 :: (Text.steps (cleaned path)).tail.map unqualified) := by
  have habsolute : (cleaned path).toList.head? = some '/' := Decidable.not_not.mp h
  rw [cleaned] at habsolute
  rw [targetPath?, cleaned]
  simp only [habsolute, if_true]
  cases Text.steps (Text.trim (withoutPredicates path)) <;> rfl

/-- The index and the tree matter to a path by the module that its qualifier stands for, and by the path and the module of
    its context. -/
theorem targetPath?_congr_module {index index' : LeafIndex} (hpath : u.dataPath c = t.dataPath c)
    (hmodule : u.rootModule c = t.rootModule c)
    (h : ∀ q, qualifier? path = some q → (index'.module? q).getD q = (index.module? q).getD q) :
    index'.targetPath? u c path = index.targetPath? t c path := by
  by_cases hrelative : IsRelative path
  · rw [targetPath?_of_isRelative hrelative, targetPath?_of_isRelative hrelative, hpath]
  · rw [targetPath?_of_not_isRelative hrelative, targetPath?_of_not_isRelative hrelative]
    refine Option.map_congr fun first hfirst => ?_
    have hsame : index'.firstModule u c (qualified first).1 = index.firstModule t c (qualified first).1 := by
      cases hq : (qualified first).1 with
      | none => rw [firstModule, firstModule, hmodule]
      | some q =>
        rw [firstModule, firstModule]
        refine h q ?_
        rw [qualifier?, if_neg hrelative, hfirst]
        exact hq
    rw [hsame]

theorem targetPath?_of_qualifier? (h : qualifier? path = some q) : ∃ rest, rest ≠ [] ∧
    ∀ (index : LeafIndex) (t : SchemaTree) (c : NodeId),
      index.targetPath? t c path = some ("/".intercalate ("" :: (index.module? q).getD q :: rest)) := by
  rw [qualifier?] at h
  split at h
  · cases h
  · rename_i habsolute
    obtain ⟨first, hfirst, hq⟩ := Option.bind_eq_some_iff.mp h
    refine ⟨(qualified first).2 :: (Text.steps (cleaned path)).tail.map unqualified, List.cons_ne_nil _ _,
      fun index t c => ?_⟩
    rw [targetPath?_of_not_isRelative habsolute, hfirst, Option.map_some, hq, firstModule]

theorem path_ne {m m' : String} (hne : m ≠ m') {rest : List String} (hrest : rest ≠ []) :
    "/".intercalate ("" :: m :: rest) ≠ "/".intercalate ("" :: m' :: rest) := by
  obtain ⟨name, names, rfl⟩ := List.exists_cons_of_ne_nil hrest
  intro heq
  refine hne (String.toList_injective ?_)
  have hlist := congrArg String.toList heq
  simpa [String.intercalate_cons_cons, String.toList_append] using hlist

/-! ### Modules by short name -/

/-- The short names of modules, each with the name of the module. -/
def shortNames (modules : List ModuleInfo) : List (String × String) :=
  modules.filterMap fun m => m.shortName.map (·, m.name)

theorem mem_shortNames {modules : List ModuleInfo} {name : String} :
    (q, name) ∈ shortNames modules ↔ ∃ m ∈ modules, m.shortName = some q ∧ m.name = name := by
  simp only [shortNames, List.mem_filterMap, Option.map_eq_some_iff, Prod.mk.injEq]
  constructor
  · rintro ⟨m, hm, _, hq, rfl, rfl⟩
    exact ⟨m, hm, hq, rfl⟩
  · rintro ⟨m, hm, hq, rfl⟩
    exact ⟨m, hm, q, hq, rfl, rfl⟩

theorem shortNames_append (modules modules' : List ModuleInfo) :
    shortNames (modules ++ modules') = shortNames modules ++ shortNames modules' := List.filterMap_append

theorem module?_eq (t : SchemaTree) (q : String) :
    (ofTree t).module? q = Entries.find? q (shortNames t.modules.values).reverse := by
  rw [module?, ofTree, Table.get?_ofList]
  rfl

/-- A module of the tree has the short name and comes after the new one. -/
def IsOutranked (t : SchemaTree) (info : ModuleInfo) (q : String) : Prop :=
  ∃ m ∈ t.modules.values, m.shortName = some q ∧ info.name < m.name

/-- A module takes over a short name. The name stood for another module before, and no module that has it comes after the
    new one. -/
structure TakesOver (t : SchemaTree) (info : ModuleInfo) (q : String) : Prop where
  shortName : info.shortName = some q
  another : ((ofTree t).module? q).getD q ≠ info.name
  last : ¬IsOutranked t info q

section Modules
variable (ht : t.Grown) (hnew : t.modules.get? info.name = none) (h : Extends t info u)
include ht hnew h

theorem exists_modules : ∃ before after, t.modules.values = before ++ after ∧
    u.modules.values = before ++ info :: after ∧ (∀ m ∈ before, m.name < info.name) ∧
      ∀ m ∈ after, info.name < m.name := by
  obtain ⟨before, after, hsplit, hinsert, hbefore, hafter⟩ := Table.exists_insert hnew info
  have hname : ∀ e ∈ t.modules.entries, e.2.name = e.1 := fun e he =>
    (ht.exists_root (Table.get?_eq_some_iff.mpr he)).1
  rw [hsplit] at hname
  refine ⟨before.map Prod.snd, after.map Prod.snd, ?_, ?_, List.forall_mem_map.mpr fun e he => ?_,
    List.forall_mem_map.mpr fun e he => ?_⟩
  · rw [Table.values, hsplit, List.map_append]
  · rw [h.modules, Table.values, hinsert, List.map_append, List.map_cons]
  · rw [hname e (List.mem_append_left _ he)]
    exact hbefore e he
  · rw [hname e (List.mem_append_right _ he)]
    exact hafter e he

theorem module?_of_ne (hq : info.shortName ≠ some q) : (ofTree u).module? q = (ofTree t).module? q := by
  obtain ⟨before, after, hold, hall, -, -⟩ := exists_modules ht hnew h
  have hinfo : Entries.find? q (shortNames [info]).reverse = none := by
    refine Entries.find?_eq_none_iff.mpr fun ⟨q', name⟩ he heq => ?_
    obtain ⟨m, hm, hq', -⟩ := mem_shortNames.mp (List.mem_reverse.mp he)
    rw [List.mem_singleton.mp hm] at hq'
    exact hq (heq ▸ hq')
  rw [module?_eq, module?_eq, hold, hall, ← List.singleton_append]
  simp only [shortNames_append, List.reverse_append, Entries.find?_append, hinfo, Option.or_none]

/-- Of the modules with a short name the last one by name counts. -/
theorem module?_of_eq (hq : info.shortName = some q) :
    (¬IsOutranked t info q → (ofTree u).module? q = some info.name) ∧
      (IsOutranked t info q → (ofTree u).module? q = (ofTree t).module? q) := by
  obtain ⟨before, after, hold, hall, hbefore, hafter⟩ := exists_modules ht hnew h
  have hinfo : Entries.find? q (shortNames [info]).reverse = some info.name := by
    simp [shortNames, hq, Entries.find?]
  have hentries : (ofTree u).module? q = (Entries.find? q (shortNames after).reverse).or (some info.name) := by
    rw [module?_eq, hall, ← List.singleton_append]
    simp only [shortNames_append, List.reverse_append, Entries.find?_append, hinfo, Option.or_assoc, Option.some_or]
  cases hfind : Entries.find? q (shortNames after).reverse with
  | none =>
    rw [hentries, hfind, Option.none_or]
    refine ⟨fun _ => rfl, ?_⟩
    rintro ⟨m, hm, hmq, hlt⟩
    rcases List.mem_append.mp (hold ▸ hm) with hm | hm
    · exact absurd (hbefore m hm) (String.lt_asymm hlt)
    · refine absurd rfl (Entries.find?_eq_none_iff.mp hfind (q, m.name) (List.mem_reverse.mpr ?_))
      exact mem_shortNames.mpr ⟨m, hm, hmq, rfl⟩
  | some name =>
    obtain ⟨m, hm, hmq, -⟩ := mem_shortNames.mp (List.mem_reverse.mp (Entries.mem_of_find? hfind))
    refine ⟨fun hnot => absurd ⟨m, hold ▸ List.mem_append_right before hm, hmq, hafter m hm⟩ hnot, fun _ => ?_⟩
    rw [hentries, module?_eq, hold, shortNames_append, List.reverse_append, Entries.find?_append, hfind, Option.some_or,
      Option.some_or]

end Modules

/-! ### Leaves by path -/

/-- The leaves and leaf-lists below roots, each with its path. -/
def leafEntries (t : SchemaTree) (roots : List NodeId) : List (String × NodeId) :=
  ((roots.flatMap t.family).filter fun id => (t.kind id).isLeafLike).map fun id => (t.pathString id, id)

theorem leaf?_eq (t : SchemaTree) (path : String) :
    (ofTree t).leaf? path = Entries.find? path (leafEntries t t.roots.values).reverse := by
  rw [leaf?, ofTree, Table.get?_ofList]
  rfl

theorem leafEntries_append (t : SchemaTree) (roots roots' : List NodeId) :
    leafEntries t (roots ++ roots') = leafEntries t roots ++ leafEntries t roots' := by
  simp [leafEntries]

theorem mem_leafEntries {roots : List NodeId} : (path, x) ∈ leafEntries t roots ↔
    (t.kind x).isLeafLike = true ∧ t.pathString x = path ∧ ∃ r ∈ roots, r ∈ t.lineage x := by
  simp only [leafEntries, List.mem_map, List.mem_filter, List.mem_flatMap, mem_family_iff, Prod.mk.injEq]
  constructor
  · rintro ⟨id, ⟨habove, hkind⟩, hpath, rfl⟩
    exact ⟨hkind, hpath, habove⟩
  · rintro ⟨hkind, hpath, habove⟩
    exact ⟨x, ⟨habove, hkind⟩, hpath, rfl⟩

theorem leafEntries_extends (h : Extends t info u) {roots : List NodeId} (hroots : ∀ r ∈ roots, r < t.size) :
    leafEntries u roots = leafEntries t roots := by
  have hfamilies : roots.flatMap u.family = roots.flatMap t.family := by
    rw [List.flatMap_def, List.flatMap_def, List.map_congr_left fun r hr => h.family (hroots r hr)]
  have hlt : ∀ id ∈ roots.flatMap t.family, id < t.size := by
    intro id hid
    obtain ⟨r, hr, hid⟩ := List.mem_flatMap.mp hid
    rcases mem_lineage_iff.mp (mem_family_iff.mp hid) with rfl | ⟨p, hp, -⟩
    · exact hroots r hr
    · exact lt_size_of_parent? hp
  rw [leafEntries, leafEntries, hfamilies]
  have hleaves : (roots.flatMap t.family).filter (fun id => (u.kind id).isLeafLike) =
      (roots.flatMap t.family).filter fun id => (t.kind id).isLeafLike := by
    refine List.filter_congr fun id hid => ?_
    rw [SchemaTree.kind, SchemaTree.kind, h.node (hlt id hid)]
  rw [hleaves]
  exact List.map_congr_left fun id hid => by rw [h.pathString (hlt id (List.mem_filter.mp hid).1)]

/-- A leaf of the new module has the path of an older one, and the new module comes after that of the older one. -/
def Hides (t : SchemaTree) (info : ModuleInfo) (u : SchemaTree) (x : NodeId) : Prop :=
  t.rootModule x < info.name ∧ ∃ y, t.size ≤ y ∧ (u.kind y).isLeafLike = true ∧ u.pathString y = t.pathString x

section Leaves
variable (ht : t.Grown) (hnew : t.roots.get? info.name = none) (h : Extends t info u)
include ht hnew h

/-- Leaves of later modules are found first, then those of the new one, and then those of earlier modules. -/
theorem exists_leaf?_split (path : String) : ∃ earlier later : Option NodeId,
    (ofTree t).leaf? path = later.or earlier ∧
    (ofTree u).leaf? path = later.or ((Entries.find? path (leafEntries u [t.size]).reverse).or earlier) ∧
    (∀ x, earlier = some x → t.rootModule x < info.name) ∧ ∀ x, later = some x → info.name < t.rootModule x := by
  obtain ⟨before, after, hsplit, hinsert, hbefore, hafter⟩ := Table.exists_insert hnew t.size
  have hentry : ∀ e ∈ before ++ after, t.roots.get? e.1 = some e.2 := fun e he =>
    Table.get?_eq_some_iff.mpr (hsplit ▸ he)
  have hold : ∀ {entries}, entries ⊆ before ++ after →
      leafEntries u (entries.map Prod.snd) = leafEntries t (entries.map Prod.snd) := fun hsub =>
    leafEntries_extends h (List.forall_mem_map.mpr fun e he => (ht.rootsListed.root (hentry e (hsub he))).1)
  have hmodule : ∀ {entries x}, entries ⊆ before ++ after →
      Entries.find? path (leafEntries t (entries.map Prod.snd)).reverse = some x →
        ∃ e ∈ entries, t.rootModule x = e.1 := by
    intro entries x hsub hfound
    obtain ⟨-, -, r, hr, hmem⟩ := mem_leafEntries.mp (List.mem_reverse.mp (Entries.mem_of_find? hfound))
    obtain ⟨e, he, rfl⟩ := List.mem_map.mp hr
    exact ⟨e, he, rootModule_of_mem ht.rootsListed (hentry e (hsub he)) hmem⟩
  refine ⟨Entries.find? path (leafEntries t (before.map Prod.snd)).reverse,
    Entries.find? path (leafEntries t (after.map Prod.snd)).reverse, ?_, ?_, fun x hx => ?_, fun x hx => ?_⟩
  · rw [leaf?_eq, Table.values, hsplit, List.map_append, leafEntries_append, List.reverse_append, Entries.find?_append]
  · rw [leaf?_eq, h.roots, Table.values, hinsert, List.map_append, List.map_cons, ← List.singleton_append,
      leafEntries_append, leafEntries_append, hold (List.subset_append_left _ _),
      hold (List.subset_append_right _ _), List.reverse_append, List.reverse_append, Entries.find?_append,
      Entries.find?_append, Option.or_assoc]
  · obtain ⟨e, he, hname⟩ := hmodule (List.subset_append_left _ _) hx
    rw [hname]
    exact hbefore e he
  · obtain ⟨e, he, hname⟩ := hmodule (List.subset_append_right _ _) hx
    rw [hname]
    exact hafter e he

theorem leaf?_joined (hx : (ofTree t).leaf? path = some x) : (ofTree u).leaf? path = some x ↔ ¬Hides t info u x := by
  obtain ⟨hpath, hxleaf⟩ := leaf?_eq_some hx
  obtain ⟨earlier, later, hfind, hfind', hbefore, hafter⟩ := exists_leaf?_split ht hnew h path
  rw [hfind] at hx
  rw [hfind']
  cases later with
  | some y =>
    rw [Option.some_or] at hx ⊢
    refine iff_of_true hx ?_
    rintro ⟨hlt, -⟩
    exact String.lt_asymm hlt (hafter x hx)
  | none =>
    rw [Option.none_or] at hx ⊢
    rw [hx]
    cases hadded : Entries.find? path (leafEntries u [t.size]).reverse with
    | none =>
      refine iff_of_true rfl ?_
      rintro ⟨-, y, hy, hleaf, hypath⟩
      refine absurd rfl (Entries.find?_eq_none_iff.mp hadded (path, y) (List.mem_reverse.mpr (mem_leafEntries.mpr ?_)))
      exact ⟨hleaf, hypath.trans hpath, t.size, List.mem_singleton_self _,
        List.mem_of_getLast? (h.top hy (lt_size_of_isLeafLike hleaf))⟩
    | some y =>
      obtain ⟨hleaf, hypath, r, hr, hmem⟩ := mem_leafEntries.mp (List.mem_reverse.mp (Entries.mem_of_find? hadded))
      have hy : t.size ≤ y := List.mem_singleton.mp hr ▸ le_of_mem_lineage hmem
      rw [Option.some_or]
      refine iff_of_false (fun heq => ?_) fun hnot => hnot ⟨hbefore x hx, y, hy, hleaf, hypath.trans hpath.symm⟩
      exact Nat.not_le_of_lt (lt_size_of_isLeafLike hxleaf) (Option.some.inj heq ▸ hy)

end Leaves

/-- No leaf of a module without slashes in its name hides an older one: modules whose paths go on like one of it come
    after it. -/
theorem not_hides_of_notMem (ht : t.Grown) (hu : u.Grown) (h : Extends t info u) (hx : (t.kind x).isLeafLike = true)
    (hplain : '/' ∉ info.name.toList) : ¬Hides t info u x := by
  rintro ⟨hlt, y, hy, hleaf, hpath⟩
  obtain ⟨rest, hrest, hxpath⟩ := ht.rooted.dataPath_of_isLeafLike hx
  obtain ⟨rest', hrest', hypath⟩ := hu.rooted.dataPath_of_isLeafLike hleaf
  rw [h.rootModule_new hy (lt_size_of_isLeafLike hleaf)] at hypath
  obtain ⟨name, names, rfl⟩ := List.exists_cons_of_ne_nil hrest
  obtain ⟨name', names', rfl⟩ := List.exists_cons_of_ne_nil hrest'
  rw [pathString, pathString, hxpath, hypath] at hpath
  have hlist := congrArg String.toList hpath
  simp only [String.intercalate_cons_cons, String.toList_append, show "/".toList = ['/'] from rfl,
    show "".toList = [] from rfl, List.nil_append, List.singleton_append, List.cons.injEq, true_and,
    List.append_assoc] at hlist
  exact (Text.prefix_of_append_sep hplain hlist).le (String.lt_iff.mp hlt)

/-! ### Leafrefs -/

section Targets
variable (ht : t.Grown) (hnew : t.roots.get? info.name = none) (h : t.Joined info u)
include ht hnew h

theorem module?_joined (q : String) :
    (TakesOver t info q → ((ofTree u).module? q).getD q = info.name) ∧
      (¬TakesOver t info q → ((ofTree u).module? q).getD q = ((ofTree t).module? q).getD q) := by
  have hmodules : t.modules.get? info.name = none := by
    refine Option.eq_none_iff_forall_ne_some.mpr fun m hm => ?_
    obtain ⟨r, hr⟩ := (ht.exists_root hm).2
    rw [hnew] at hr
    cases hr
  have hlast : info.shortName = some q → ¬IsOutranked t info q → ((ofTree u).module? q).getD q = info.name := by
    intro hq hfirst
    rw [(module?_of_eq ht hmodules h.extends hq).1 hfirst]
    rfl
  refine ⟨fun htakes => hlast htakes.shortName htakes.last, fun hkeeps => ?_⟩
  by_cases hq : info.shortName = some q
  · by_cases houtranked : IsOutranked t info q
    · rw [(module?_of_eq ht hmodules h.extends hq).2 houtranked]
    · -- A name that stood for no module stands for the module of this name, as it does now.
      have hname : ((ofTree t).module? q).getD q = info.name := by
        refine Decidable.byContradiction fun hne => hkeeps ⟨hq, hne, houtranked⟩
      rw [hlast hq houtranked, hname]
  · rw [module?_of_ne ht hmodules h.extends hq]

/-- A module of a new name leaves every leafref its target but for two cases: it takes over the short name that the path
    is qualified by, so that the path leads to where the same names lead in the new module; or it has a slash in its name
    and hides the target behind a leaf with the same path. -/
theorem target?_joined (hc : (t.kind c).isLeafLike = true) (hx : (ofTree t).target? t c path = some x) :
    ((ofTree u).target? u c path = some x ↔ (∀ q, qualifier? path = some q → ¬TakesOver t info q) ∧ ¬Hides t info u x) ∧
      (∀ q, qualifier? path = some q → TakesOver t info q → ∃ m rest, m ≠ info.name ∧
        (ofTree t).targetPath? t c path = some ("/".intercalate ("" :: m :: rest)) ∧
        (ofTree u).targetPath? u c path = some ("/".intercalate ("" :: info.name :: rest))) ∧
      ('/' ∉ info.name.toList → ¬Hides t info u x) := by
  have hlt := lt_size_of_isLeafLike hc
  obtain ⟨result, hresult, hleaf⟩ := Option.bind_eq_some_iff.mp hx
  obtain ⟨hxpath, hxleaf⟩ := leaf?_eq_some hleaf
  have htaken : ∀ q, qualifier? path = some q → TakesOver t info q → ∃ m rest, m ≠ info.name ∧ rest ≠ [] ∧
      (ofTree t).targetPath? t c path = some ("/".intercalate ("" :: m :: rest)) ∧
      (ofTree u).targetPath? u c path = some ("/".intercalate ("" :: info.name :: rest)) := by
    intro q hq htakes
    obtain ⟨rest, hrest, htarget⟩ := targetPath?_of_qualifier? hq
    refine ⟨_, rest, htakes.another, hrest, htarget _ _ _, ?_⟩
    rw [htarget, (module?_joined ht hnew h q).1 htakes]
  -- Where the module takes over the path, the target would have its path in two modules.
  have hkept : (ofTree u).target? u c path = some x → ∀ q, qualifier? path = some q → ¬TakesOver t info q := by
    intro hux q hq htakes
    obtain ⟨m, rest, hne, hrest, htpath, hupath⟩ := htaken q hq htakes
    rw [target?, hupath, Option.bind_some] at hux
    have hpath := (leaf?_eq_some hux).1
    rw [h.extends.pathString (lt_size_of_isLeafLike hxleaf), hxpath] at hpath
    rw [htpath] at hresult
    exact path_ne hne hrest ((Option.some.inj hresult).trans hpath)
  have htarget : (∀ q, qualifier? path = some q → ¬TakesOver t info q) →
      ((ofTree u).target? u c path = some x ↔ ¬Hides t info u x) := by
    intro hkeeps
    have hpath : (ofTree u).targetPath? u c path = some result := by
      rw [← hresult]
      exact targetPath?_congr_module (h.extends.dataPath hlt) (h.extends.rootModule hlt) fun q hq =>
        (module?_joined ht hnew h q).2 (hkeeps q hq)
    rw [target?, hpath, Option.bind_some]
    exact leaf?_joined ht hnew h.extends hleaf
  refine ⟨⟨fun hux => ⟨hkept hux, (htarget (hkept hux)).mp hux⟩, fun ⟨hkeeps, hshown⟩ => (htarget hkeeps).mpr hshown⟩,
    fun q hq htakes => ?_, ?_⟩
  · obtain ⟨m, rest, hne, -, htpath, hupath⟩ := htaken q hq htakes
    exact ⟨m, rest, hne, htpath, hupath⟩
  · exact not_hides_of_notMem ht (h.grown ht) h.extends hxleaf

end Targets

/-- A link and its peer. -/
def network : SchemaTree :=
  (((SchemaTree.empty.addModule ⟨"net", "urn:net", some "n", false⟩).addChild 0 (.ofKind "link" .container "net")).addChild 1
    (.ofKind "name" .leaf "net")).addChild 1 (.ofKind "peer" .leaf "net")

/-- The network with a module that has links, too. -/
def networkWith (info : ModuleInfo) : SchemaTree :=
  ((network.addModule info).addChild 4 (.ofKind "link" .container info.name)).addChild 5 (.ofKind "name" .leaf info.name)

/-- The network with a module whose name is the path of the link. -/
def networkBelow : SchemaTree :=
  (network.addModule ⟨"net/link", "urn:link", none, false⟩).addChild 4 (.ofKind "name" .leaf "net/link")

theorem grown_network : network.Grown := .addChild _ _ (.addChild _ _ (.addChild _ _ (.addModule _ .empty)))

theorem joined_networkWith (info : ModuleInfo) : network.Joined info (networkWith info) :=
  .addChild _ (by decide) (.addChild _ (by decide) .addModule)

theorem network_joined : (ofTree network).target? network 3 "/n:link/name" = some 2 ∧
    (ofTree (networkWith ⟨"device", "urn:device", some "n", false⟩)).target?
      (networkWith ⟨"device", "urn:device", some "n", false⟩) 3 "/n:link/name" = some 2 := by
  have htarget : (ofTree network).target? network 3 "/n:link/name" = some 2 := by decide +kernel
  have hvalues : network.modules.values = [⟨"net", "urn:net", some "n", false⟩] := by decide +kernel
  obtain ⟨hkept, -, hshown⟩ := target?_joined grown_network (by decide +kernel)
    (joined_networkWith ⟨"device", "urn:device", some "n", false⟩) (by decide +kernel) htarget
  refine ⟨htarget, hkept.mpr ⟨fun q _ htakes => htakes.last ?_, hshown (by decide)⟩⟩
  -- The network comes after the devices, and keeps its short name.
  refine ⟨⟨"net", "urn:net", some "n", false⟩, ?_, htakes.shortName, by decide⟩
  rw [hvalues]
  exact List.mem_singleton_self _

/-- A module with the short name of the network takes its leafrefs over, and a module with a slash in its name hides a
    leaf of it. -/
theorem network_taken : network.Grown ∧ network.Unshadowed ∧ (network.kind 3).isLeafLike = true ∧
    (network.roots.get? "node" = none ∧
      network.Joined ⟨"node", "urn:node", some "n", false⟩ (networkWith ⟨"node", "urn:node", some "n", false⟩) ∧
      (ofTree network).target? network 3 "/n:link/name" = some 2 ∧
      (ofTree (networkWith ⟨"node", "urn:node", some "n", false⟩)).target?
        (networkWith ⟨"node", "urn:node", some "n", false⟩) 3 "/n:link/name" = some 6) ∧
    (network.roots.get? "net/link" = none ∧ network.Joined ⟨"net/link", "urn:link", none, false⟩ networkBelow ∧
      (ofTree network).target? network 3 "../name" = some 2 ∧
      (ofTree networkBelow).target? networkBelow 3 "../name" = some 5) := by
  refine ⟨grown_network, .of_ids (by decide +kernel), by decide +kernel, ?_, ?_⟩
  · exact ⟨by decide +kernel, joined_networkWith _, by decide +kernel, by decide +kernel⟩
  · exact ⟨by decide +kernel, .addChild _ (by decide) .addModule, by decide +kernel, by decide +kernel⟩

end LeafIndex

end SchemaIr
