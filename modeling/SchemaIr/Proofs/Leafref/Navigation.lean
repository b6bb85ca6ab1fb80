import SchemaIr.Proofs.Leafref.Index
import SchemaIr.Proofs.Leafref.Path

/-! # Relative leafrefs as navigation

A relative path is followed along the names of a data path. In a tree that hides no nodes and tells them apart by their
paths, this is navigation from node to node: a step up leads to the data parent (`takeStep_up`), so that `k` steps up lead
to the `k`-th data ancestor (`dataAncestor?`); and names lead down from data child to data child (`LeadsDown`), since a path
that goes on behind that of a node by names belongs to the node at their end (`leadsDown_iff`). No path leaves the module:
what is followed always begins with the path of the module's root (`foldlM_inside`), and a path that climbs above it leads
nowhere (`foldlM_eq_none_iff`). -/

namespace SchemaIr

/-! ### Names -/

namespace Leafref

/-- A step that stands for the name of a node. -/
structure IsName (s : String) : Prop extends IsStep s where
  colon : ':' ∉ s.toList
  self : s ≠ "."
  up : s ≠ ".."

instance (s : String) : Decidable (IsName s) :=
  decidable_of_iff (IsStep s ∧ ':' ∉ s.toList ∧ s ≠ "." ∧ s ≠ "..")
    ⟨fun ⟨hstep, hcolon, hself, hup⟩ => ⟨hstep, hcolon, hself, hup⟩, fun h => ⟨h.toIsStep, h.colon, h.self, h.up⟩⟩

theorem isStep_up : IsStep ".." := by decide

/-! ### Paths that climb -/

def ups (steps : List String) : Nat := steps.countP fun step => Text.trim step = ".."

def downs (steps : List String) : Nat := steps.countP fun step => Text.trim step ≠ "." ∧ Text.trim step ≠ ".."

/-- A path climbs higher than some number of nodes above where it begins: up to some step it has more steps up than there
    are such nodes and steps down. -/
def Climbs (above : Nat) (steps : List String) : Prop := ∃ before, before <+: steps ∧ above + downs before < ups before

section Climbs
variable {above : Nat} {step : String} {rest : List String}

theorem not_climbs_nil (above : Nat) : ¬Climbs above [] := by
  rintro ⟨before, hbefore, hclimbs⟩
  rw [List.prefix_nil.mp hbefore] at hclimbs
  exact Nat.not_lt_zero _ hclimbs

theorem climbs_cons_iff : Climbs above (step :: rest) ↔
    ∃ before, before <+: rest ∧ above + downs (step :: before) < ups (step :: before) := by
  constructor
  · rintro ⟨before, hbefore, hclimbs⟩
    cases before with
    | nil => exact absurd hclimbs (Nat.not_lt_zero _)
    | cons first before =>
      obtain ⟨rfl, hrest⟩ := List.cons_prefix_cons.mp hbefore
      exact ⟨before, hrest, hclimbs⟩
  · rintro ⟨before, hbefore, hclimbs⟩
    exact ⟨step :: before, List.cons_prefix_cons.mpr ⟨rfl, hbefore⟩, hclimbs⟩

theorem climbs_stay (h : Text.trim step = ".") : Climbs above (step :: rest) ↔ Climbs above rest := by
  rw [climbs_cons_iff]
  simp [Climbs, ups, downs, h]

theorem climbs_zero_up (h : Text.trim step = "..") : Climbs 0 (step :: rest) :=
  climbs_cons_iff.mpr ⟨[], List.nil_prefix, by simp [ups, downs, h]⟩

theorem climbs_succ_up (h : Text.trim step = "..") : Climbs (above + 1) (step :: rest) ↔ Climbs above rest := by
  rw [climbs_cons_iff]
  refine exists_congr fun before => and_congr_right fun _ => ?_
  simp [ups, downs, h]
  omega

theorem climbs_down (hself : Text.trim step ≠ ".") (hup : Text.trim step ≠ "..") :
    Climbs above (step :: rest) ↔ Climbs (above + 1) rest := by
  rw [climbs_cons_iff]
  refine exists_congr fun before => and_congr_right fun _ => ?_
  simp [ups, downs, hself, hup]
  omega

end Climbs

end Leafref

/-! ### Nodes on the way -/

namespace SchemaTree
variable {t : SchemaTree} {a c p target : NodeId} {names : List String}

/-- A node of the tree that has a place in the data tree. -/
structure IsDataNode (t : SchemaTree) (c : NodeId) : Prop where
  lt_size : c < t.size
  isChoiceOrCase : (t.kind c).isChoiceOrCase = false

namespace IsDataNode

theorem of_isLeafLike (h : (t.kind c).isLeafLike = true) : t.IsDataNode c :=
  ⟨lt_size_of_isLeafLike h, NodeKind.isChoiceOrCase_of_isLeafLike h⟩

theorem dataParent (h : t.IsDataNode c) (ht : t.Regular) (hp : t.dataParent? c = some p) :
    t.IsDataNode p ∧ Offers t p c := by
  obtain ⟨hdata, hoffers⟩ := offers_of_dataParent? ht.matched h.isChoiceOrCase hp
  exact ⟨⟨Nat.lt_trans hoffers.bounds.1 h.lt_size, hdata⟩, hoffers⟩

/-- Besides the empty one, a data path has a segment for the node itself and one for every data ancestor. -/
theorem length_dataPath (h : t.IsDataNode c) : (t.dataPath c).length = (t.dataNodes (t.ancestors c)).length + 2 := by
  rw [dataPath_eq, lineage_eq, dataNodes_cons, h.isChoiceOrCase]
  simp

/-- Where no data parent is, the data path is as short as that of a module. -/
theorem length_of_dataParent?_eq_none (h : t.IsDataNode c) (hp : t.dataParent? c = none) : (t.dataPath c).length = 2 := by
  rw [h.length_dataPath, List.head?_eq_none_iff.mp hp]
  rfl

end IsDataNode

/-- The ancestor to which so many steps to the data parent lead. -/
def dataAncestor? (t : SchemaTree) : Nat → NodeId → Option NodeId
  | 0, c => some c
  | k + 1, c => (t.dataParent? c).bind (t.dataAncestor? k)

theorem isDataNode_of_dataAncestor? (ht : t.Regular) (hc : t.IsDataNode c) {k : Nat} (h : t.dataAncestor? k c = some a) :
    t.IsDataNode a := by
  induction k generalizing c with
  | zero =>
    cases h
    exact hc
  | succ k ih =>
    obtain ⟨p, hp, ha⟩ := Option.bind_eq_some_iff.mp h
    exact ih (hc.dataParent ht hp).1 ha

/-- Names lead from a node down to another one, each to a data child of this name. -/
inductive LeadsDown (t : SchemaTree) (a : NodeId) : List String → NodeId → Prop
  | here : LeadsDown t a [] a
  | down {names : List String} {node child : NodeId} : LeadsDown t a names node → child ∈ t.dataChildren node →
      LeadsDown t a (names ++ [t.name child]) child

theorem LeadsDown.dataPath (h : LeadsDown t a names target) (ht : t.Regular) :
    t.dataPath target = t.dataPath a ++ names := by
  induction h with
  | here => exact (List.append_nil _).symm
  | down _ hchild ih => rw [(mem_dataChildren.mp hchild).dataPath ht, ih, List.append_assoc]

/-- Names lead from one node to another exactly if the path of the other one goes on behind that of the first by them. -/
theorem leadsDown_iff (ht : t.Regular) (hpaths : t.DistinctDataPaths) (ha : t.IsDataNode a) (htarget : t.IsDataNode target) :
    LeadsDown t a names target ↔ t.dataPath target = t.dataPath a ++ names := by
  refine ⟨fun h => h.dataPath ht, fun hpath => ?_⟩
  induction names using List.reverseRecOn generalizing target with
  | nil =>
    rw [List.append_nil] at hpath
    obtain rfl := hpaths target a htarget.lt_size ha.lt_size htarget.isChoiceOrCase ha.isChoiceOrCase hpath
    exact .here
  | append_singleton names n ih =>
    cases hp : t.dataParent? target with
    | none =>
      have hlength := congrArg List.length hpath
      rw [htarget.length_of_dataParent?_eq_none hp, List.length_append, List.length_append, ha.length_dataPath,
        List.length_singleton] at hlength
      omega
    | some p =>
      obtain ⟨hpdata, hoffers⟩ := htarget.dataParent ht hp
      rw [hoffers.dataPath ht, ← List.append_assoc] at hpath
      obtain ⟨hppath, hname⟩ := List.append_inj' hpath rfl
      rw [← (List.cons.inj hname).1]
      exact .down (ih hpdata hppath) (mem_dataChildren.mpr hoffers)

end SchemaTree

namespace LeafIndex
open Leafref SchemaTree

variable {index : LeafIndex} {t : SchemaTree} {a c target root : NodeId} {names segments top : List String}

/-! ### Steps up and down -/

theorem takeStep_name {n : String} (h : IsName n) : takeStep segments n = some (segments ++ [n]) := by
  rw [takeStep, Text.trim_of_trimmed h.trimmed]
  simp only [h.self, h.up, if_false, unqualified_of_notMem h.colon]

theorem foldlM_names (h : ∀ n ∈ names, IsName n) : names.foldlM takeStep segments = some (segments ++ names) := by
  induction names generalizing segments with
  | nil => rw [List.append_nil]; rfl
  | cons n rest ih =>
    obtain ⟨hn, hrest⟩ := List.forall_mem_cons.mp h
    rw [List.foldlM_cons, takeStep_name hn, Option.bind_eq_bind, Option.bind_some, ih hrest, List.append_assoc]
    rfl

theorem takeStep_up (ht : t.Regular) (hc : t.IsDataNode c) :
    takeStep (t.dataPath c) ".." = (t.dataParent? c).map t.dataPath := by
  rw [takeStep, Text.trim_of_trimmed isStep_up.trimmed]
  simp only [show (".." = ".") = False by decide, if_false, if_true]
  cases hp : t.dataParent? c with
  | none => rw [hc.length_of_dataParent?_eq_none hp, if_pos (Nat.le_refl 2)]; rfl
  | some p =>
    obtain ⟨hpdata, hoffers⟩ := hc.dataParent ht hp
    have hlong : ¬(t.dataPath p ++ [t.name c]).length ≤ 2 := by
      rw [List.length_append, hpdata.length_dataPath, List.length_singleton]
      omega
    rw [hoffers.dataPath ht, if_neg hlong, List.dropLast_concat]
    rfl

theorem foldlM_up (ht : t.Regular) (hc : t.IsDataNode c) (k : Nat) :
    (List.replicate k "..").foldlM takeStep (t.dataPath c) = (t.dataAncestor? k c).map t.dataPath := by
  induction k generalizing c with
  | zero => rfl
  | succ k ih =>
    rw [List.replicate_succ, List.foldlM_cons, takeStep_up ht hc, dataAncestor?]
    cases hp : t.dataParent? c with
    | none => rfl
    | some p => exact ih (hc.dataParent ht hp).1

/-- Steps up and then names lead to where the names lead from the path of an ancestor. -/
theorem targetPath?_up_names (ht : t.Regular) (hc : t.IsDataNode c) (k : Nat) (hne : names ≠ [])
    (h : ∀ n ∈ names, IsName n) : index.targetPath? t c ("/".intercalate (List.replicate k ".." ++ names)) =
      (t.dataAncestor? k c).map fun a => "/".intercalate (t.dataPath a ++ names) := by
  have hsteps : ∀ s ∈ List.replicate k ".." ++ names, IsStep s := by
    intro s hs
    rcases List.mem_append.mp hs with hs | hs
    · rw [List.eq_of_mem_replicate hs]
      exact isStep_up
    · exact (h s hs).toIsStep
  rw [targetPath?_relative (List.append_ne_nil_of_right_ne_nil _ hne) hsteps, List.foldlM_append, foldlM_up ht hc]
  cases t.dataAncestor? k c with
  | none => rfl
  | some a => simp only [Option.map_some, Option.bind_eq_bind, Option.bind_some, foldlM_names h]

/-! ### The module of the context -/

theorem takeStep_inside {step : String} {segments' : List String} (htop : top.length = 2) (hinside : top <+: segments)
    (h : takeStep segments step = some segments') : top <+: segments' := by
  rw [takeStep] at h
  split at h
  · cases h
    exact hinside
  · split at h
    · split at h
      · cases h
      · rename_i hlong
        cases h
        obtain ⟨rest, rfl⟩ := hinside
        rw [List.dropLast_append_of_ne_nil fun hnil => hlong (by simp [hnil, htop])]
        exact List.prefix_append _ _
    · cases h
      exact hinside.trans (List.prefix_append _ _)

/-- A path that is followed from below a module stays below it. -/
theorem foldlM_inside {steps segments' : List String} (htop : top.length = 2) (hinside : top <+: segments)
    (h : steps.foldlM takeStep segments = some segments') : top <+: segments' := by
  induction steps generalizing segments with
  | nil =>
    cases h
    exact hinside
  | cons step rest ih =>
    rw [List.foldlM_cons] at h
    obtain ⟨next, hnext, hrest⟩ := Option.bind_eq_some_iff.mp h
    exact ih (takeStep_inside htop hinside hnext) hrest

/-- A path is not followed to its end exactly if it climbs above the module. -/
theorem foldlM_eq_none_iff {steps : List String} {above : Nat} (hlength : segments.length = above + 2) :
    steps.foldlM takeStep segments = none ↔ Climbs above steps := by
  induction steps generalizing segments above with
  | nil => simpa using not_climbs_nil above
  | cons step rest ih =>
    rw [List.foldlM_cons, takeStep]
    by_cases hself : Text.trim step = "."
    · rw [climbs_stay hself, ← ih hlength]
      simp only [hself, if_true, Option.bind_eq_bind, Option.bind_some]
    · by_cases hup : Text.trim step = ".."
      · cases above with
        | zero => simp [hup, hlength, climbs_zero_up hup]
        | succ above =>
          have hshorter : segments.dropLast.length = above + 2 := by
            rw [List.length_dropLast, hlength]
            rfl
          rw [climbs_succ_up hup, ← ih hshorter]
          simp [hup, hlength]
      · have hlonger : (segments ++ [unqualified (Text.trim step)]).length = above + 1 + 2 := by
          rw [List.length_append, hlength]
          rfl
        rw [climbs_down hself hup, ← ih hlonger]
        simp only [hself, hup, if_false, Option.bind_eq_bind, Option.bind_some]

/-! ### Targets -/

theorem indexed_iff (ht : t.Regular) : Indexed t target ↔ (t.kind target).isLeafLike = true := by
  refine ⟨Indexed.isLeafLike, fun hkind => ⟨hkind, ?_⟩⟩
  obtain ⟨root, hroot⟩ := exists_top t target
  have hle := le_of_mem_lineage (List.mem_of_getLast? hroot)
  have hlt := Nat.lt_of_le_of_lt hle (lt_size_of_isLeafLike hkind)
  exact ⟨t.name root, root, ht.orphan hlt (parent?_of_top hroot), hroot⟩

/-- The leaf at a path that goes on behind that of a node by names is the leaf to which the names lead from there. -/
theorem leaf?_append_names (h : t.Grown) (ht : t.Regular) (hnames : ∀ id, id < t.size → '/' ∉ (t.name id).toList)
    (hpaths : t.DistinctDataPaths) (ha : t.IsDataNode a) (hplain : ∀ n ∈ names, '/' ∉ n.toList) :
    (ofTree t).leaf? ("/".intercalate (t.dataPath a ++ names)) = some target ↔
      LeadsDown t a names target ∧ (t.kind target).isLeafLike = true := by
  have hdistinct := hpaths.distinctPaths hnames
  have hunique : ∀ x y, Indexed t x → Indexed t y → t.pathString x = t.pathString y → x = y := fun x y hx hy => by
    have hxdata := IsDataNode.of_isLeafLike hx.isLeafLike
    have hydata := IsDataNode.of_isLeafLike hy.isLeafLike
    exact hdistinct x y hxdata.lt_size hydata.lt_size hxdata.isChoiceOrCase hydata.isChoiceOrCase
  rw [leaf?_eq_some_iff h hunique, indexed_iff ht, and_comm]
  refine and_congr_left fun hkind => ?_
  have htarget := IsDataNode.of_isLeafLike hkind
  rw [leadsDown_iff ht hpaths ha htarget]
  refine ⟨fun hpath => ?_, congrArg "/".intercalate⟩
  have hslash : ∀ segment ∈ t.dataPath a ++ names, '/' ∉ segment.toList := fun segment hsegment =>
    (List.mem_append.mp hsegment).elim (slash_notMem_dataPath hnames ha.lt_size segment) (hplain segment)
  exact Text.intercalate_inj rfl (dataPath_ne_nil t target) (List.append_ne_nil_of_left_ne_nil (dataPath_ne_nil t a) _)
    (slash_notMem_dataPath hnames htarget.lt_size) hslash hpath

/-- In a tree that shows all of its nodes relative leafrefs are navigation. Steps up and then names lead from a leaf to the
    leaf to which the names lead down from its data ancestor so many steps up, and nowhere if there is none of these. A
    relative path has no target exactly if it climbs above the module, and else one in the module of the leaf. -/
theorem relative_exact (h : t.Grown) (hshadow : t.Unshadowed) (hnames : ∀ id, id < t.size → IsName (t.name id))
    (hpaths : t.DistinctDataPaths) (hc : (t.kind c).isLeafLike = true) :
    (∀ k names target, names ≠ [] → (∀ n ∈ names, IsName n) →
      ((ofTree t).target? t c ("/".intercalate (List.replicate k ".." ++ names)) = some target ↔
        ∃ a, t.dataAncestor? k c = some a ∧ LeadsDown t a names target ∧ (t.kind target).isLeafLike = true)) ∧
    (∀ path, IsRelative path → ((ofTree t).targetPath? t c path = none ↔
      Climbs (t.dataNodes (t.ancestors c)).length (Text.steps (cleaned path)))) ∧
    ∃ root, (t.lineage c).getLast? = some root ∧ t.roots.get? (t.name root) = some root ∧
      ∀ path result, IsRelative path → (ofTree t).targetPath? t c path = some result →
        ∃ rest, result = "/".intercalate (t.dataPath root ++ rest) := by
  have hslash : ∀ id, id < t.size → '/' ∉ (t.name id).toList := fun id hid => (hnames id hid).slash
  have ht := h.regular hshadow (hpaths.distinctPaths hslash)
  have hdata := IsDataNode.of_isLeafLike hc
  refine ⟨fun k names target hne hclean => ?_, fun path hrelative => ?_, ?_⟩
  · rw [target?, targetPath?_up_names ht hdata k hne hclean, Option.bind_map, Option.bind_eq_some_iff]
    refine exists_congr fun a => and_congr_right fun ha => ?_
    exact leaf?_append_names h ht hslash hpaths (isDataNode_of_dataAncestor? ht hdata ha) fun n hn => (hclean n hn).slash
  · rw [targetPath?_of_isRelative hrelative, Option.map_eq_none_iff, foldlM_eq_none_iff hdata.length_dataPath]
  · obtain ⟨-, name, root, hroot, htop⟩ := (indexed_iff ht).mpr hc
    obtain ⟨hrlt, hparent, hname, hkind⟩ := ht.root hroot
    refine ⟨root, htop, by rwa [hname], fun path result hrelative hresult => ?_⟩
    have hrdata : (t.kind root).isChoiceOrCase = false := by rw [hkind]; rfl
    have hlength : (t.dataPath root).length = 2 := by
      rw [dataPath_of_top hparent hrdata]
      rfl
    have habove : root ∈ t.ancestors c := by
      rcases List.mem_cons.mp (lineage_eq t c ▸ List.mem_of_getLast? htop) with rfl | hmem
      · rw [hkind] at hc
        cases hc
      · exact hmem
    obtain ⟨below, -, hbelow⟩ := dataPath_of_mem_ancestors hdata.isChoiceOrCase habove
    rw [targetPath?_of_isRelative hrelative, hbelow] at hresult
    obtain ⟨segments, hsegments, rfl⟩ := Option.map_eq_some_iff.mp hresult
    obtain ⟨rest, rfl⟩ := foldlM_inside hlength (List.prefix_append _ below) hsegments
    exact ⟨rest, rfl⟩

/-- A link with a choice of media, and beside the choice a peer with a leaf-list. -/
def link : SchemaTree :=
  (((((((SchemaTree.empty.addModule ⟨"net", "urn:net", none, false⟩).addChild 0 (.ofKind "link" .container "net")).addChild 1
    (.ofKind "name" .leaf "net")).addChild 1 (.ofKind "medium" .choice "net")).addChild 3
      (.ofKind "wired" .case "net")).addChild 4 (.ofKind "speed" .leaf "net")).addChild 1
        (.ofKind "peer" .container "net")).addChild 6 (.ofKind "rate" .leafList "net")

theorem link_relative : link.Grown ∧ link.Unshadowed ∧ (∀ id, id < link.size → IsName (link.name id)) ∧
    link.DistinctDataPaths ∧ (link.kind 7).isLeafLike = true ∧ link.dataAncestor? 2 7 = some 1 ∧
    LeadsDown link 1 ["speed"] 5 ∧ (ofTree link).target? link 7 "../../speed" = some 5 ∧
    (ofTree link).targetPath? link 7 "../name/../../../.." = none := by
  have hgrown : link.Grown := .addChild _ _ (.addChild _ _ (.addChild _ _ (.addChild _ _ (.addChild _ _ (.addChild _ _
    (.addChild _ _ (.addModule _ .empty)))))))
  have hshadow : link.Unshadowed := .of_ids (by decide +kernel)
  have hnames : ∀ id, id < link.size → IsName (link.name id) := by decide +kernel
  have hpaths : link.DistinctDataPaths := (DistinctPaths.of_ids (by decide +kernel)).distinctDataPaths
  have hkind : (link.kind 7).isLeafLike = true := by decide +kernel
  have hancestor : link.dataAncestor? 2 7 = some 1 := by decide +kernel
  have hoffers : Offers link 1 5 := .through (d := 3) (by decide +kernel) (by decide +kernel) (.through (d := 4)
    (by decide +kernel) (by decide +kernel) (.child (by decide +kernel) (by decide +kernel)))
  have hdown : LeadsDown link 1 ["speed"] 5 := .down .here (mem_dataChildren.mpr hoffers)
  obtain ⟨htarget, hnone, -⟩ := relative_exact hgrown hshadow hnames hpaths hkind
  refine ⟨hgrown, hshadow, hnames, hpaths, hkind, hancestor, hdown, ?_, (hnone _ (by decide +kernel)).mpr ?_⟩
  · exact (htarget 2 ["speed"] 5 (by decide) (by decide)).mpr ⟨1, hancestor, hdown, by decide +kernel⟩
  · exact ⟨["..", "name", "..", "..", "..", ".."], by decide +kernel, by decide +kernel⟩

end LeafIndex
end SchemaIr
