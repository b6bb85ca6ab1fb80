import SchemaIr.Proofs.Enumeration.Values
import SchemaIr.Proofs.Schema.DistinctPaths

/-! # Which leaves share an enumeration

Two leaves share their inline enumeration exactly if these have one key (`shares_of_key`, `parted_of_key`). With
deduplication that is so wherever the parts of the key agree. Without it the key is the name of the topmost node and the
context, which ends below the nearest module above the leaf; behind the path of that module the context goes on to the
path of the leaf (`mergedPath_eq_append`). So leaves share an enumeration if compression takes their paths to one, and
different leaves have different ones without compression, as long as no modules stand below other nodes
(`aligned_of_roots`, `sharing_of_leaves`): the context of a leaf does not tell which module of a topmost node it is
below (`nestedModule_shares`). -/

namespace SchemaIr

namespace SchemaTree
variable {t : SchemaTree} {c : NodeId}

/-! ### Modules above a node -/

/-- The nearest module above a node. -/
def moduleAbove? (t : SchemaTree) (id : NodeId) : Option NodeId := (t.ancestors id).find? (t.kind · = .module)

/-- The data path of a node, without the empty segment at its beginning; under compression the wrappers above the node
    are left out. -/
def mergedPath (t : SchemaTree) (compress : Bool) (id : NodeId) : List String :=
  (((t.dataNodes (t.ancestors id)).filter fun a => !(compress && t.isConfigOrState a)).map t.name).reverse ++
    [t.name id]

theorem mergedPath_false (h : (t.kind c).isChoiceOrCase = false) : t.dataPath c = "" :: t.mergedPath false c := by
  rw [dataPath, lineage_eq, dataNodes_cons, h]
  simp [mergedPath]

end SchemaTree

namespace EnumSet
open EnumGroups (context inlineKey)
open SchemaTree (moduleAbove? mergedPath)

variable {t : SchemaTree} {enumLeaves : Table NodeId} {compress skipDedup : Bool} {before : NameRegistry}
  {set : EnumSet} {path path' : String} {leaf leaf' root root' : NodeId} {m m' : TypeDescriptor}

/-! ### Contexts -/

/-- The nearest segment above a leaf in its context. -/
def nearestSegment? (t : SchemaTree) (compress : Bool) (leaf : NodeId) : Option String :=
  (((t.dataNodes (t.ancestors leaf)).takeWhile (t.kind · ≠ .module)).find? fun a =>
    !(compress && t.isConfigOrState a)).map t.name

theorem getLast?_dropLast_context (t : SchemaTree) (compress : Bool) (leaf : NodeId) :
    (context t compress leaf).dropLast.getLast? = nearestSegment? t compress leaf := by
  rw [context, List.dropLast_concat, List.getLast?_reverse, List.head?_map, List.head?_filter, nearestSegment?]

/-- Behind the path of the nearest module the context goes on to the path of the leaf. -/
theorem mergedPath_eq_append (compress : Bool) (h : t.moduleAbove? leaf = some root) :
    t.mergedPath compress leaf = t.mergedPath compress root ++ context t compress leaf := by
  obtain ⟨hmodule, between, above, hancestors, hbetween⟩ := List.find?_eq_some_iff_append.mp h
  have hkind : t.kind root = .module := by simpa using hmodule
  have habove : t.ancestors root = above := by
    have hlineage : t.lineage leaf = (leaf :: between) ++ root :: above := by
      rw [SchemaTree.lineage_eq, hancestors, List.cons_append]
    rw [SchemaTree.ancestors, SchemaTree.lineage_of_append hlineage, List.tail_cons]
  have hdata : t.dataNodes (t.ancestors leaf) = t.dataNodes between ++ root :: t.dataNodes (t.ancestors root) := by
    rw [hancestors, habove, SchemaTree.dataNodes, List.filter_append, List.filter_cons, hkind]
    rfl
  have hbelow : (t.dataNodes (t.ancestors leaf)).takeWhile (t.kind · ≠ .module) = t.dataNodes between := by
    rw [hdata, List.takeWhile_append_of_pos, List.takeWhile_cons, hkind]
    · simp
    · intro a ha
      simpa using hbetween a (List.mem_filter.mp ha).1
  have hkept : t.isConfigOrState root = false := by rw [SchemaTree.isConfigOrState, hkind]; rfl
  unfold mergedPath context
  dsimp only
  rw [hbelow, hdata, List.filter_append, List.filter_cons, hkept]
  simp

/-! ### Leaves of one group -/

/-- The enumerations of two leaves are one, which lists both leaves. -/
def Shares (t : SchemaTree) (set : EnumSet) (leaf : NodeId) (m : TypeDescriptor) (leaf' : NodeId)
    (m' : TypeDescriptor) : Prop :=
  ∃ name e, set.nameFor? t leaf m = some name ∧ set.nameFor? t leaf' m' = some name ∧
    set.enumerations.get? name = some e ∧ t.pathString leaf ∈ e.leafPaths ∧ t.pathString leaf' ∈ e.leafPaths

/-- The enumerations of two leaves are two, each of which lists its leaf. -/
def Parted (t : SchemaTree) (set : EnumSet) (leaf : NodeId) (m : TypeDescriptor) (leaf' : NodeId)
    (m' : TypeDescriptor) : Prop :=
  ∃ name name' e e', set.nameFor? t leaf m = some name ∧ set.nameFor? t leaf' m' = some name' ∧ name ≠ name' ∧
    set.enumerations.get? name = some e ∧ set.enumerations.get? name' = some e' ∧
      t.pathString leaf ∈ e.leafPaths ∧ t.pathString leaf' ∈ e'.leafPaths

section Named
variable (hkeyed : ∀ path leaf, enumLeaves.get? path = some leaf → t.pathString leaf = path)
  (h : (EnumSet.ofLeaves t enumLeaves compress skipDedup before).1 = .ok set)
include hkeyed h

/-- An inline enumeration has the name of the group of its key, which lists the leaf. -/
theorem exists_listed_inline (hm : InlineAt t enumLeaves path leaf m) :
    ∃ g name, ((EnumGroups.ofLeaves t enumLeaves compress skipDedup).1.ofKind .simple).get?
        (groupKey t compress skipDedup leaf m) = some g ∧ path ∈ g.leafPaths.names ∧
      set.nameFor? t leaf m = some name ∧ set.enumerations.get? name = some (ofGroup name g) := by
  obtain ⟨⟨s, hs, hsimple, hkey, hpath⟩, g, name, hg, hname, hget⟩ := exists_named_inline hkeyed h hm
  exact ⟨g, name, hg, (EnumGroups.mem_leafPaths_of_group hg).mpr ⟨s, hs, hsimple, hkey, hpath.symm⟩, hname, hget⟩

theorem shares_of_key (hm : InlineAt t enumLeaves path leaf m) (hm' : InlineAt t enumLeaves path' leaf' m')
    (hkey : groupKey t compress skipDedup leaf m = groupKey t compress skipDedup leaf' m') :
    Shares t set leaf m leaf' m' := by
  obtain ⟨g, name, hg, hpath, hname, hget⟩ := exists_listed_inline hkeyed h hm
  obtain ⟨g', name', hg', hpath', hname', hget'⟩ := exists_listed_inline hkeyed h hm'
  rw [← hkey] at hg'
  obtain rfl : g = g' := Option.some.inj (hg.symm.trans hg')
  have hkind : g.kind = .simple := EnumGroups.kind_of_group hg
  -- No leaf is listed in two inline enumerations.
  obtain rfl : name = name' := (ofLeaves_covers hkeyed h).alone hget hget' hkind hkind hpath hpath
  refine ⟨name, ofGroup name g, hname, hname', hget, ?_, ?_⟩
  · rwa [hkeyed path leaf hm.listed]
  · rwa [hkeyed path' leaf' hm'.listed]

theorem parted_of_key (hm : InlineAt t enumLeaves path leaf m) (hm' : InlineAt t enumLeaves path' leaf' m')
    (hkey : groupKey t compress skipDedup leaf m ≠ groupKey t compress skipDedup leaf' m') :
    Parted t set leaf m leaf' m' := by
  obtain ⟨g, name, hg, hpath, hname, hget⟩ := exists_listed_inline hkeyed h hm
  obtain ⟨g', name', hg', hpath', hname', hget'⟩ := exists_listed_inline hkeyed h hm'
  refine ⟨name, name', ofGroup name g, ofGroup name' g', hname, hname', ?_, hget, hget', ?_, ?_⟩
  · rintro rfl
    have hpaths : g.leafPaths.names = g'.leafPaths.names :=
      congrArg Enumeration.leafPaths (Option.some.inj (hget.symm.trans hget'))
    exact hkey (key_eq_of_mem_leafPaths hg hg' hpath (hpaths ▸ hpath))
  · rwa [hkeyed path leaf hm.listed]
  · rwa [hkeyed path' leaf' hm'.listed]

end Named

/-! ### Keys -/

theorem groupKey_eq_of_parts (hmodule : (t.node leaf).module = (t.node leaf').module)
    (hsegment : nearestSegment? t compress leaf = nearestSegment? t compress leaf') (hname : t.name leaf = t.name leaf')
    (hvalues : valueNames m = valueNames m') :
    groupKey t compress false leaf m = groupKey t compress false leaf' m' := by
  simp only [groupKey, inlineKey, Bool.false_eq_true, ↓reduceIte, getLast?_dropLast_context, hmodule, hsegment, hname,
    hvalues]

theorem rootModule_of_moduleAbove? (h : t.moduleAbove? leaf = some root) : t.rootModule leaf = t.rootModule root := by
  refine SchemaTree.rootModule_of_top (SchemaTree.top_of_mem ?_)
  rw [SchemaTree.lineage_eq]
  exact List.mem_cons_of_mem _ (List.mem_of_find?_eq_some h)

/-- Both leaves are below modules, and within one topmost node the nearest modules have one path. -/
def Aligned (t : SchemaTree) (compress : Bool) (leaf leaf' : NodeId) : Prop :=
  ∃ root root', t.moduleAbove? leaf = some root ∧ t.moduleAbove? leaf' = some root' ∧
    (t.rootModule leaf = t.rootModule leaf' → t.mergedPath compress root = t.mergedPath compress root')

/-- Leaves with no module above them but the topmost nodes are aligned. -/
theorem aligned_of_roots (compress : Bool) (h : t.moduleAbove? leaf = some root)
    (h' : t.moduleAbove? leaf' = some root') (hroot : t.parent? root = none) (hroot' : t.parent? root' = none) :
    Aligned t compress leaf leaf' := by
  refine ⟨root, root', h, h', fun hname => ?_⟩
  rw [rootModule_of_moduleAbove? h, SchemaTree.rootModule_of_root hroot, rootModule_of_moduleAbove? h',
    SchemaTree.rootModule_of_root hroot'] at hname
  rw [mergedPath, mergedPath, SchemaTree.ancestors_of_root hroot, SchemaTree.ancestors_of_root hroot', hname]

/-- Aligned leaves below one topmost node have one key without deduplication if these have one merged path. -/
theorem groupKey_eq_of_mergedPath (h : Aligned t compress leaf leaf')
    (htop : (t.lineage leaf).getLast? = (t.lineage leaf').getLast?)
    (hpath : t.mergedPath compress leaf = t.mergedPath compress leaf') :
    groupKey t compress true leaf m = groupKey t compress true leaf' m' := by
  obtain ⟨root, root', hroot, hroot', hmodules⟩ := h
  have hname := SchemaTree.rootModule_of_top htop
  rw [mergedPath_eq_append compress hroot, mergedPath_eq_append compress hroot', hmodules hname,
    List.append_cancel_left_eq] at hpath
  simp only [groupKey, inlineKey, ↓reduceIte, hpath, hname]

/-- A leaf of the data tree whose path can be read off a key: neither slashes nor colons stand in the names above it. -/
structure Separable (t : SchemaTree) (leaf : NodeId) : Prop where
  data : (t.kind leaf).isChoiceOrCase = false
  names : ∀ id ∈ t.lineage leaf, '/' ∉ (t.name id).toList ∧ ':' ∉ (t.name id).toList

theorem slash_notMem_context (h : Separable t leaf) :
    ∀ segment ∈ context t compress leaf, '/' ∉ segment.toList := by
  intro segment hsegment
  obtain ⟨id, hid, rfl⟩ := exists_of_mem_context hsegment
  exact (h.names id hid).1

theorem colon_notMem_rootModule (h : Separable t leaf) : ':' ∉ (t.rootModule leaf).toList := by
  obtain ⟨top, htop⟩ := SchemaTree.exists_top t leaf
  rw [SchemaTree.rootModule, htop]
  exact (h.names top (List.mem_of_getLast? htop)).2

/-- The name of the topmost node and the context are read off a key without deduplication. -/
theorem context_eq_of_key (h : Separable t leaf) (h' : Separable t leaf')
    (hkey : groupKey t compress true leaf m = groupKey t compress true leaf' m') :
    t.rootModule leaf = t.rootModule leaf' ∧ context t compress leaf = context t compress leaf' := by
  have hsome : ∀ leaf, context t compress leaf ≠ [] := fun leaf => by simp [context]
  have htext : (t.rootModule leaf).toList ++ ':' :: ('/' :: ("/".intercalate (context t compress leaf)).toList) =
      (t.rootModule leaf').toList ++ ':' :: ('/' :: ("/".intercalate (context t compress leaf')).toList) := by
    simpa [groupKey, inlineKey] using congrArg String.toList hkey
  obtain ⟨hroot, hrest⟩ := Text.append_sep_inj (colon_notMem_rootModule h) (colon_notMem_rootModule h') htext
  have hjoined := String.toList_injective (List.cons.inj hrest).2
  exact ⟨String.toList_injective hroot, Text.intercalate_inj rfl (hsome leaf) (hsome leaf')
    (slash_notMem_context h) (slash_notMem_context h') hjoined⟩

/-- Aligned leaves of one key have one path, without deduplication and compression. -/
theorem pathString_eq_of_key (h : Separable t leaf) (h' : Separable t leaf') (haligned : Aligned t false leaf leaf')
    (hkey : groupKey t false true leaf m = groupKey t false true leaf' m') :
    t.pathString leaf = t.pathString leaf' := by
  obtain ⟨root, root', hroot, hroot', hmodules⟩ := haligned
  obtain ⟨hname, hcontext⟩ := context_eq_of_key h h' hkey
  rw [SchemaTree.pathString, SchemaTree.pathString, SchemaTree.mergedPath_false h.data,
    SchemaTree.mergedPath_false h'.data, mergedPath_eq_append false hroot, mergedPath_eq_append false hroot',
    hmodules hname, hcontext]

/-! ### Sharing -/

/-- With deduplication leaves share an enumeration if they agree in module, nearest segment, name and values. Without it
    aligned leaves do under compression if they are below one topmost node and the path of both is the same once the
    wrappers are left out; and without compression different aligned leaves have different ones, if the paths can be
    told apart at all. -/
theorem sharing_of_leaves (hkeyed : ∀ path leaf, enumLeaves.get? path = some leaf → t.pathString leaf = path)
    (h : (EnumSet.ofLeaves t enumLeaves compress skipDedup before).1 = .ok set)
    (hm : InlineAt t enumLeaves path leaf m) (hm' : InlineAt t enumLeaves path' leaf' m') :
    (skipDedup = false → (t.node leaf).module = (t.node leaf').module →
        nearestSegment? t compress leaf = nearestSegment? t compress leaf' → t.name leaf = t.name leaf' →
          valueNames m = valueNames m' → Shares t set leaf m leaf' m') ∧
      (skipDedup = true → compress = true → Aligned t true leaf leaf' →
        (t.lineage leaf).getLast? = (t.lineage leaf').getLast? →
          t.mergedPath true leaf = t.mergedPath true leaf' → Shares t set leaf m leaf' m') ∧
      (skipDedup = true → compress = false → leaf ≠ leaf' → Aligned t false leaf leaf' → Separable t leaf →
        Separable t leaf' → Parted t set leaf m leaf' m') := by
  refine ⟨?_, ?_, ?_⟩
  · rintro rfl hmodule hsegment hname hvalues
    exact shares_of_key hkeyed h hm hm' (groupKey_eq_of_parts hmodule hsegment hname hvalues)
  · rintro rfl rfl haligned htop hpath
    exact shares_of_key hkeyed h hm hm' (groupKey_eq_of_mergedPath haligned htop hpath)
  · rintro rfl rfl hne haligned hseparable hseparable'
    refine parted_of_key hkeyed h hm hm' fun hkey => hne ?_
    -- The table knows each leaf by its path.
    have hpath := pathString_eq_of_key hseparable hseparable' haligned hkey
    rw [hkeyed path leaf hm.listed, hkeyed path' leaf' hm'.listed] at hpath
    exact Option.some.inj (hm.listed.symm.trans (hpath ▸ hm'.listed))

/-- The type of leaves that are on or off. -/
def onOff : TypeDescriptor := { TypeDescriptor.ofKind .enumeration with values := [⟨"on", none⟩, ⟨"off", none⟩] }

/-- A leaf in both wrappers of a container. -/
def wrapped : SchemaTree :=
  let mode : Node := { Node.ofKind "mode" .leaf "m" with type := some onOff }
  (((((SchemaTree.empty.addModule ⟨"m", "urn:m", none, false⟩).addChild 0 (.ofKind "lamp" .container "m")).addChild 1
    (.ofKind "config" .container "m")).addChild 2 mode).addChild 1 (.ofKind "state" .container "m")).addChild 4 mode

def wrappedModes : Table NodeId := .ofList [("/m/lamp/config/mode", 3), ("/m/lamp/state/mode", 5)]

/-- Under compression the two share an enumeration, with and without deduplication; without both they do not. -/
theorem wrapped_sharing : ∃ deduplicated merged apart,
    (EnumSet.ofLeaves wrapped wrappedModes true false ∅).1 = .ok deduplicated ∧
      (EnumSet.ofLeaves wrapped wrappedModes true true ∅).1 = .ok merged ∧
        (EnumSet.ofLeaves wrapped wrappedModes false true ∅).1 = .ok apart ∧
          Shares wrapped deduplicated 3 onOff 5 onOff ∧ Shares wrapped merged 3 onOff 5 onOff ∧
            Parted wrapped apart 3 onOff 5 onOff := by
  have hkeyed : ∀ path leaf, wrappedModes.get? path = some leaf → wrapped.pathString leaf = path := by
    have hall : ∀ e ∈ wrappedModes.entries, wrapped.pathString e.2 = e.1 := by decide +kernel
    exact fun path leaf h => hall (path, leaf) (Table.get?_eq_some_iff.mp h)
  have hrun : ∀ compress skipDedup, (EnumSet.ofLeaves wrapped wrappedModes compress skipDedup ∅).1.toOption.isSome =
      true := by
    decide +kernel
  have hset := fun compress skipDedup => Option.isSome_iff_exists.mp (hrun compress skipDedup)
  obtain ⟨deduplicated, hdeduplicated⟩ := hset true false
  obtain ⟨merged, hmerged⟩ := hset true true
  obtain ⟨apart, hapart⟩ := hset false true
  have hconfig : InlineAt wrapped wrappedModes "/m/lamp/config/mode" 3 onOff :=
    ⟨rfl, ⟨onOff, rfl, .self (by decide)⟩, rfl, rfl⟩
  have hstate : InlineAt wrapped wrappedModes "/m/lamp/state/mode" 5 onOff :=
    ⟨rfl, ⟨onOff, rfl, .self (by decide)⟩, rfl, rfl⟩
  have hroot : wrapped.moduleAbove? 3 = some 0 ∧ wrapped.moduleAbove? 5 = some 0 := by decide +kernel
  have haligned : ∀ compress, Aligned wrapped compress 3 5 := fun compress =>
    aligned_of_roots compress hroot.1 hroot.2 rfl rfl
  have hseparable : ∀ leaf ∈ [3, 5], (wrapped.kind leaf).isChoiceOrCase = false ∧
      ∀ id ∈ wrapped.lineage leaf, '/' ∉ (wrapped.name id).toList ∧ ':' ∉ (wrapped.name id).toList := by
    decide +kernel
  obtain ⟨hdata, hnames⟩ := hseparable 3 (by simp)
  obtain ⟨hdata', hnames'⟩ := hseparable 5 (by simp)
  refine ⟨deduplicated, merged, apart, ok_of_toOption hdeduplicated, ok_of_toOption hmerged, ok_of_toOption hapart, ?_⟩
  refine ⟨(sharing_of_leaves hkeyed (ok_of_toOption hdeduplicated) hconfig hstate).1 rfl rfl (by decide +kernel) rfl
      rfl,
    (sharing_of_leaves hkeyed (ok_of_toOption hmerged) hconfig hstate).2.1 rfl rfl (haligned true)
      (by decide +kernel) (by decide +kernel),
    (sharing_of_leaves hkeyed (ok_of_toOption hapart) hconfig hstate).2.2 rfl rfl (by decide)
      (haligned false) ⟨hdata, hnames⟩ ⟨hdata', hnames'⟩⟩

/-- A leaf of a module, and two of one name and merged path, one of which is below another module within the first. -/
def nestedModule : SchemaTree :=
  let x : Node := { Node.ofKind "x" .leaf "m" with type := some onOff }
  (((((((SchemaTree.empty.addModule ⟨"m", "urn:m", none, false⟩).addChild 0 x).addChild 0
    (.ofKind "config" .container "m")).addChild 2 (.ofKind "a" .module "m")).addChild 3 x).addChild 0
    (.ofKind "state" .container "m")).addChild 5 (.ofKind "a" .container "m")).addChild 6 x

def nestedModuleLeaves : Table NodeId := .ofList [("/m/x", 1), ("/m/config/a/x", 4), ("/m/state/a/x", 7)]

/-- Without deduplication and compression the first leaf shares its enumeration with the one below the other module,
    though they are different; under compression the two of one merged path do not share theirs, though all are below
    one module at the top. -/
theorem nestedModule_shares : nestedModule.DistinctPaths ∧
    (∀ path leaf, nestedModuleLeaves.get? path = some leaf → nestedModule.pathString leaf = path) ∧
      (∀ leaf ∈ [1, 4, 7], Separable nestedModule leaf ∧ (nestedModule.lineage leaf).getLast? = some 0) ∧
        nestedModule.kind 0 = .module ∧ InlineAt nestedModule nestedModuleLeaves "/m/x" 1 onOff ∧
          InlineAt nestedModule nestedModuleLeaves "/m/config/a/x" 4 onOff ∧
            InlineAt nestedModule nestedModuleLeaves "/m/state/a/x" 7 onOff ∧
              (∃ set, (EnumSet.ofLeaves nestedModule nestedModuleLeaves false true ∅).1 = .ok set ∧
                Shares nestedModule set 1 onOff 4 onOff) ∧
                nestedModule.mergedPath true 4 = nestedModule.mergedPath true 7 ∧
                  ∃ set, (EnumSet.ofLeaves nestedModule nestedModuleLeaves true true ∅).1 = .ok set ∧
                    Parted nestedModule set 4 onOff 7 onOff := by
  have hkeyed : ∀ path leaf, nestedModuleLeaves.get? path = some leaf → nestedModule.pathString leaf = path := by
    have hall : ∀ e ∈ nestedModuleLeaves.entries, nestedModule.pathString e.2 = e.1 := by decide +kernel
    exact fun path leaf h => hall (path, leaf) (Table.get?_eq_some_iff.mp h)
  have hleaves : ∀ leaf ∈ [1, 4, 7], ((nestedModule.kind leaf).isChoiceOrCase = false ∧
      ∀ id ∈ nestedModule.lineage leaf, '/' ∉ (nestedModule.name id).toList ∧ ':' ∉ (nestedModule.name id).toList) ∧
        (nestedModule.lineage leaf).getLast? = some 0 := by
    decide +kernel
  have hrun : ∀ compress,
      (EnumSet.ofLeaves nestedModule nestedModuleLeaves compress true ∅).1.toOption.isSome = true := by
    decide +kernel
  have hset := fun compress => Option.isSome_iff_exists.mp (hrun compress)
  obtain ⟨plain, hplain⟩ := hset false
  obtain ⟨merged, hmerged⟩ := hset true
  have hfirst : InlineAt nestedModule nestedModuleLeaves "/m/x" 1 onOff :=
    ⟨rfl, ⟨onOff, rfl, .self (by decide)⟩, rfl, rfl⟩
  have hbelow : InlineAt nestedModule nestedModuleLeaves "/m/config/a/x" 4 onOff :=
    ⟨rfl, ⟨onOff, rfl, .self (by decide)⟩, rfl, rfl⟩
  have hbeside : InlineAt nestedModule nestedModuleLeaves "/m/state/a/x" 7 onOff :=
    ⟨rfl, ⟨onOff, rfl, .self (by decide)⟩, rfl, rfl⟩
  have hsame : groupKey nestedModule false true 1 onOff = groupKey nestedModule false true 4 onOff := by decide +kernel
  have hother : groupKey nestedModule true true 4 onOff ≠ groupKey nestedModule true true 7 onOff := by decide +kernel
  exact ⟨.of_ids (by decide +kernel), hkeyed,
    fun leaf hleaf => ⟨⟨(hleaves leaf hleaf).1.1, (hleaves leaf hleaf).1.2⟩, (hleaves leaf hleaf).2⟩, rfl, hfirst,
    hbelow, hbeside, ⟨plain, ok_of_toOption hplain, shares_of_key hkeyed (ok_of_toOption hplain) hfirst hbelow hsame⟩,
    by decide +kernel, merged, ok_of_toOption hmerged,
    parted_of_key hkeyed (ok_of_toOption hmerged) hbelow hbeside hother⟩

end EnumSet

end SchemaIr
