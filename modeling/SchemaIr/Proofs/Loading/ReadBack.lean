import SchemaIr.Proofs.Loading.Loaded
import SchemaIr.Proofs.Table.Order

/-! # Reading documents back from a tree

A tree is read back node by node (`SchemaTree.document`). What growth under a parent adds to a tree reads back as the
documents it was grown from, in name order and with the module of each node settled (`Gains`), and growth succeeds
exactly for documents without siblings of one name whose modules are all there (`exists_growNodes_iff`). -/

namespace SchemaIr

/-! ### Documents -/

namespace NodeDocument

mutual

/-- A node and all nodes below it. -/
def nodes : NodeDocument → List NodeDocument
  | ⟨name, kind, children, type, key, config, module, default⟩ =>
    ⟨name, kind, children, type, key, config, module, default⟩ :: nodesOf children

/-- The nodes of a list and all nodes below them. -/
def nodesOf : List NodeDocument → List NodeDocument
  | [] => []
  | n :: ns => nodes n ++ nodesOf ns

end

/-- Nodes in the order of their names. -/
def inNameOrder (ns : List NodeDocument) : List NodeDocument := ns.mergeSort fun a b => decide (a.name ≤ b.name)

mutual

/-- The node with all nodes below it in name order, each stating its module: the one that it names, or else the one
    that its nearest ancestor names. -/
def settled (parentModule : String) : NodeDocument → NodeDocument
  | ⟨name, kind, children, type, key, config, module, default⟩ =>
    let defining := module.getD parentModule
    ⟨name, kind, inNameOrder (settledAll defining children), type, key, config, some defining, default⟩

/-- Each node of a list settled. -/
def settledAll (parentModule : String) : List NodeDocument → List NodeDocument
  | [] => []
  | n :: ns => settled parentModule n :: settledAll parentModule ns

end

theorem name_settled (module : String) (n : NodeDocument) : (n.settled module).name = n.name := by
  cases n
  rfl

theorem settledAll_eq (module : String) (ns : List NodeDocument) : settledAll module ns = ns.map (settled module) := by
  induction ns with
  | nil => rfl
  | cons n rest ih => rw [settledAll, List.map_cons, ih]

/-- No two siblings share a name, and the modules that nodes name are in a library. -/
structure Consistent (lib : Library) (ns : List NodeDocument) : Prop where
  distinct : (ns.map (·.name)).Nodup
  below : ∀ n ∈ nodesOf ns, (n.children.map (·.name)).Nodup ∧ ∀ module ∈ n.module, lib.contains module = true

theorem consistent_nil (lib : Library) : Consistent lib [] := ⟨List.nodup_nil, by simp [nodesOf]⟩

theorem consistent_cons_iff {lib : Library} {n : NodeDocument} {ns : List NodeDocument} :
    Consistent lib (n :: ns) ↔ (n.name ∉ ns.map (·.name) ∧ Consistent lib n.children ∧
      ∀ module ∈ n.module, lib.contains module = true) ∧ Consistent lib ns := by
  obtain ⟨name, kind, children, type, key, config, module, default⟩ := n
  constructor
  · rintro ⟨hdistinct, hbelow⟩
    obtain ⟨hname, hdistinct⟩ := List.nodup_cons.mp hdistinct
    simp only [nodesOf, nodes, List.cons_append, List.mem_cons, List.mem_append] at hbelow
    obtain ⟨hchildren, hmodule⟩ := hbelow _ (.inl rfl)
    exact ⟨⟨hname, ⟨hchildren, fun n hn => hbelow n (.inr (.inl hn))⟩, hmodule⟩, hdistinct,
      fun n hn => hbelow n (.inr (.inr hn))⟩
  · rintro ⟨⟨hname, hchildren, hmodule⟩, hrest⟩
    refine ⟨List.nodup_cons.mpr ⟨hname, hrest.distinct⟩, fun n hn => ?_⟩
    simp only [nodesOf, nodes, List.cons_append, List.mem_cons, List.mem_append] at hn
    rcases hn with rfl | hn | hn
    · exact ⟨hchildren.distinct, hmodule⟩
    · exact hchildren.below n hn
    · exact hrest.below n hn

theorem settledAll_names (module : String) (ns : List NodeDocument) :
    (settledAll module ns).map (·.name) = ns.map (·.name) := by
  rw [settledAll_eq, List.map_map]
  exact List.map_congr_left fun n _ => name_settled module n

end NodeDocument

theorem ConfigFlag.statement_ofStatement (config : Option Bool) : (ofStatement config).statement = config := by
  cases config with
  | none => rfl
  | some b => cases b <;> rfl

namespace LoadedModule

/-- What a module says about itself. -/
def info (m : LoadedModule) : ModuleInfo := ⟨m.document.name, m.document.uri, m.document.shortName, m.importedOnly⟩

/-- The nodes of a module's document, settled, under a root. -/
def root (m : LoadedModule) : NodeDocument :=
  ⟨m.document.name, .module, NodeDocument.inNameOrder (NodeDocument.settledAll m.document.name m.document.children), none,
    none, none, some m.document.name, none⟩

end LoadedModule

/-! ### Reading back -/

namespace SchemaTree
variable {t u : SchemaTree}

/-- A node and all below it as a document: children in name order, and each node with the module that defines it. -/
def document (t : SchemaTree) (id : NodeId) : NodeDocument :=
  let n := t.node id
  ⟨n.name, n.kind, (t.children id).attach.map fun ⟨c, _⟩ => t.document c, n.type, n.key, n.config.statement,
    some n.module, n.default⟩
termination_by t.size - id
decreasing_by
  have := mem_children_bounds ‹c ∈ t.children id›
  omega

theorem document_eq (t : SchemaTree) (id : NodeId) :
    t.document id = ⟨(t.node id).name, (t.node id).kind, (t.children id).map t.document, (t.node id).type,
      (t.node id).key, (t.node id).config.statement, some (t.node id).module, (t.node id).default⟩ := by
  rw [document]
  simp

theorem modules_addChild (t : SchemaTree) (parent : NodeId) (n : Node) : (t.addChild parent n).modules = t.modules := by
  unfold addChild
  split <;> rfl

theorem node_childTable_eq {id : NodeId} (h : u.entries[id]? = t.entries[id]?) :
    u.node id = t.node id ∧ u.childTable id = t.childTable id := by
  simp [node, childTable, h]

/-- What stands below a node does not hang on older nodes, nor on what comes behind its tree. -/
theorem document_congr {id : Nat} (hid : id < t.size)
    (h : ∀ j : Nat, id ≤ j → j < t.size → u.entries[j]? = t.entries[j]?) : u.document id = t.document id := by
  induction hn : t.size - id using Nat.strongRecOn generalizing id with
  | ind k ih =>
    obtain ⟨hnode, htable⟩ := node_childTable_eq (h id (Nat.le_refl _) hid)
    have hchildren : (u.children id).map u.document = (t.children id).map t.document := by
      rw [show u.children id = t.children id from congrArg Table.values htable]
      refine List.map_congr_left fun c hc => ?_
      obtain ⟨hlt, hsize⟩ := mem_children_bounds hc
      exact ih (t.size - c) (by omega) hsize (fun j hj => h j (by omega)) rfl
    rw [document_eq, document_eq, hnode, hchildren]

/-- The documents of the children of a node. -/
def documents (t : SchemaTree) (id : NodeId) : Table NodeDocument := (t.childTable id).map fun _ c => t.document c

theorem get?_documents (t : SchemaTree) (id : NodeId) (name : String) :
    (t.documents id).get? name = (t.child? id name).map t.document := Table.get?_map ..

theorem values_documents (t : SchemaTree) (id : NodeId) : (t.documents id).values = (t.children id).map t.document := by
  simp [documents, Table.values, Table.map, children]

end SchemaTree

/-! ### Growth -/

namespace Library
variable {lib : Library} {source : LoadedModule} {t u v : SchemaTree} {parent : Nat} {module : String}

/-- Growth under a parent, by the nodes of some documents. -/
structure Gains (lib : Library) (module : String) (t u : SchemaTree) (parent : Nat) (ns : List NodeDocument) :
    Prop where
  modules : u.modules = t.modules
  roots : u.roots = t.roots
  size : u.size = t.size + (NodeDocument.nodesOf ns).length
  /-- All nodes but the parent stay as they are. -/
  entry : ∀ id : Nat, id < t.size → id ≠ parent → u.entries[id]? = t.entries[id]?
  node : u.node parent = t.node parent
  /-- The parent gains the documents for children. -/
  documents : u.documents parent = ns.foldl (fun table n => table.insert n.name (n.settled module)) (t.documents parent)
  /-- The modules of new nodes are in the library. -/
  defined : ∀ id : Nat, t.size ≤ id → id < u.size → lib.contains (u.node id).module = true
  consistent : NodeDocument.Consistent lib ns
  /-- The parent did not have children of these names. -/
  fresh : ∀ n ∈ ns, t.child? parent n.name = none

theorem Gains.nil (lib : Library) (module : String) (t : SchemaTree) (parent : NodeId) :
    Gains lib module t t parent [] where
  modules := rfl
  roots := rfl
  size := rfl
  entry _ _ _ := rfl
  node := rfl
  documents := rfl
  defined id hle hlt := absurd hlt (Nat.not_lt_of_le hle)
  consistent := NodeDocument.consistent_nil lib
  fresh := by simp

/-- A child that is gained answers to its name. -/
theorem Gains.child?_isSome (h : Gains lib module t u parent [n]) : (u.child? parent n.name).isSome = true := by
  have hget := SchemaTree.get?_documents u parent n.name
  rw [h.documents, List.foldl_cons, List.foldl_nil, Table.get?_insert_self] at hget
  cases hchild : u.child? parent n.name with
  | none => simp [hchild] at hget
  | some c => rfl

theorem Gains.child?_of_ne {n : NodeDocument} (h : Gains lib module t u parent [n]) {name : String} (hne : name ≠ n.name) :
    u.child? parent name = none ↔ t.child? parent name = none := by
  have hget := SchemaTree.get?_documents u parent name
  rw [h.documents, List.foldl_cons, List.foldl_nil, Table.get?_insert_of_ne _ hne, SchemaTree.get?_documents] at hget
  cases hu : u.child? parent name <;> cases ht : t.child? parent name <;> simp [hu, ht] at hget ⊢

theorem Gains.cons {n : NodeDocument} {ns : List NodeDocument} (hp : parent < t.size) (h₁ : Gains lib module t u parent [n])
    (h₂ : Gains lib module u v parent ns) : Gains lib module t v parent (n :: ns) := by
  have hsize : u.size = t.size + n.nodes.length := by simpa [NodeDocument.nodesOf] using h₁.size
  refine ⟨h₂.modules.trans h₁.modules, h₂.roots.trans h₁.roots, ?_, fun id hid hne => ?_, h₂.node.trans h₁.node, ?_,
    fun id hle hlt => ?_, ?_, fun m hm => ?_⟩
  · rw [h₂.size, hsize, NodeDocument.nodesOf, List.length_append, Nat.add_assoc]
  · rw [h₂.entry id (by omega) hne, h₁.entry id hid hne]
  · rw [h₂.documents, h₁.documents]
    rfl
  · by_cases hid : id < u.size
    · have hne : id ≠ parent := by omega
      rw [(SchemaTree.node_childTable_eq (h₂.entry id hid hne)).1]
      exact h₁.defined id hle hid
    · exact h₂.defined id (Nat.le_of_not_lt hid) hlt
  · obtain ⟨⟨-, hn⟩, -⟩ := NodeDocument.consistent_cons_iff.mp h₁.consistent
    refine NodeDocument.consistent_cons_iff.mpr ⟨⟨fun hmem => ?_, hn⟩, h₂.consistent⟩
    obtain ⟨m, hm, hname⟩ := List.mem_map.mp hmem
    have htaken := h₁.child?_isSome
    rw [← hname, h₂.fresh m hm] at htaken
    cases htaken
  · rcases List.mem_cons.mp hm with rfl | hm
    · exact h₁.fresh m (List.mem_singleton_self m)
    · by_cases hname : m.name = n.name
      · have htaken := h₁.child?_isSome
        rw [← hname, h₂.fresh m hm] at htaken
        cases htaken
      · exact (h₁.child?_of_ne hname).mp (h₂.fresh m hm)

/-- A parent that had no children has the documents for children, in name order. -/
theorem Gains.children_eq {ns : List NodeDocument} (h : Gains lib module t u parent ns) (hnone : t.documents parent = ∅) :
    (u.children parent).map u.document = NodeDocument.inNameOrder (NodeDocument.settledAll module ns) := by
  have hdistinct := h.consistent.distinct
  rw [← NodeDocument.settledAll_names module] at hdistinct
  calc (u.children parent).map u.document
      = (u.documents parent).values := (SchemaTree.values_documents u parent).symm
    _ = (Table.ofList ((NodeDocument.settledAll module ns).map fun n => (n.name, n))).values := by
      rw [h.documents, hnone, NodeDocument.settledAll_eq, Table.ofList, List.map_map, List.foldl_map]
      simp only [Function.comp_apply, NodeDocument.name_settled]
      rfl
    _ = NodeDocument.inNameOrder (NodeDocument.settledAll module ns) := Table.values_ofList_eq_mergeSort hdistinct

/-- What stands below younger nodes than the parent is read back as before. -/
theorem Gains.document_eq {ns : List NodeDocument} (h : Gains lib module t u parent ns) {id : Nat} (hlt : parent < id)
    (hid : id < t.size) : u.document id = t.document id :=
  SchemaTree.document_congr hid fun j hle hj => h.entry j hj (by omega)

section Child
variable (hp : parent < t.size) {name : String} {kind : NodeKind} {children : List NodeDocument}
  {type : Option TypeDescriptor} {key : Option String} {config : Option Bool} {stated default : Option String}
  (h : Gains lib (stated.getD module)
    (t.addChild parent ⟨name, kind, type, key, .ofStatement config, stated.getD module, default⟩) u t.size children)
include hp h

/-- The new child, with what it gains itself, reads back as its document. -/
theorem Gains.document_child : u.document t.size =
    NodeDocument.settled module ⟨name, kind, children, type, key, config, stated, default⟩ := by
  have hnone : (t.addChild parent ⟨name, kind, type, key, .ofStatement config, stated.getD module, default⟩).documents
      t.size = ∅ := by
    rw [SchemaTree.documents, SchemaTree.childTable, SchemaTree.entry_addChild hp, if_pos rfl]
    rfl
  rw [SchemaTree.document_eq, h.children_eq hnone, h.node, SchemaTree.node_addChild hp, if_pos rfl,
    NodeDocument.settled]
  simp only [ConfigFlag.statement_ofStatement]

/-- A child of a new name is gained with all that it gains itself. -/
theorem Gains.child (hdefining : lib.contains (stated.getD module) = true) (hfree : t.child? parent name = none) :
    Gains lib module t u parent [⟨name, kind, children, type, key, config, stated, default⟩] := by
  have hdocument := h.document_child hp
  generalize hnode : (⟨name, kind, type, key, .ofStatement config, stated.getD module, default⟩ : Node) = node at h
  have hname : node.name = name := by rw [← hnode]
  have hsize := SchemaTree.size_addChild hp node
  have hparent : u.entries[parent]? = (t.addChild parent node).entries[parent]? :=
    h.entry parent (by omega) (Nat.ne_of_lt hp)
  have hentry : ∀ id : Nat, id < t.size → id ≠ parent → u.entries[id]? = t.entries[id]? := fun id hid hne => by
    rw [h.entry id (by omega) (Nat.ne_of_lt hid), SchemaTree.entry_addChild hp, if_neg (Nat.ne_of_lt hid)]
    simp [Ne.symm hne]
  refine ⟨h.modules.trans (SchemaTree.modules_addChild t parent node), h.roots.trans (SchemaTree.roots_addChild hp node),
    ?_, hentry, ?_, ?_, fun id hle hlt => ?_, ?_, ?_⟩
  · rw [h.size, hsize]
    simp only [NodeDocument.nodesOf, NodeDocument.nodes, List.append_nil, List.length_cons]
    omega
  · rw [(SchemaTree.node_childTable_eq hparent).1, SchemaTree.node_addChild hp, if_neg (Nat.ne_of_lt hp)]
  · refine Table.ext_get? fun other => ?_
    have hchild : u.child? parent other = if other = name then some t.size else t.child? parent other := by
      rw [SchemaTree.child?, (SchemaTree.node_childTable_eq hparent).2]
      exact (SchemaTree.child?_addChild hp node parent other).trans (by simp [hname])
    rw [List.foldl_cons, List.foldl_nil, SchemaTree.get?_documents, hchild, Table.get?_insert,
      SchemaTree.get?_documents]
    split
    · exact congrArg some hdocument
    · cases hold : t.child? parent other with
      | none => rfl
      | some c =>
        obtain ⟨hlt, hc⟩ := SchemaTree.mem_children_bounds (SchemaTree.mem_children_iff.mpr ⟨other, hold⟩)
        exact congrArg some (SchemaTree.document_congr hc fun j hle hj => hentry j hj (by omega))
  · by_cases hid : id = t.size
    · rw [hid, h.node, SchemaTree.node_addChild hp, if_pos rfl, ← hnode]
      exact hdefining
    · exact h.defined id (by omega) hlt
  · refine NodeDocument.consistent_cons_iff.mpr ⟨⟨List.not_mem_nil, h.consistent, fun m hm => ?_⟩,
      NodeDocument.consistent_nil lib⟩
    cases hm
    exact hdefining
  · rintro n hn
    rw [List.mem_singleton.mp hn]
    exact hfree

end Child

theorem growNodes_cons_eq_ok {n : NodeDocument} {ns : List NodeDocument} :
    growNodes lib source parent module t (n :: ns) = .ok v ↔
      ∃ u, growNode lib source parent module t n = .ok u ∧ growNodes lib source parent module u ns = .ok v := by
  rw [growNodes]
  cases growNode lib source parent module t n <;> simp [bind, Except.bind]

/-- A node is grown as a child of a new name, defined by a module of the library, and then all below it. -/
theorem growNode_eq_ok {name : String} {kind : NodeKind} {children : List NodeDocument} {type : Option TypeDescriptor}
    {key : Option String} {config : Option Bool} {stated default : Option String} :
    growNode lib source parent module t ⟨name, kind, children, type, key, config, stated, default⟩ = .ok u ↔
      lib.contains (stated.getD module) = true ∧ t.child? parent name = none ∧
      growNodes lib source t.size (stated.getD module)
        (t.addChild parent ⟨name, kind, type, key, .ofStatement config, stated.getD module, default⟩) children = .ok u := by
  rw [growNode]
  cases hdefining : lib.contains (stated.getD module) with
  | false => simp
  | true =>
    cases hchild : t.child? parent name <;> simp [SchemaTree.addNewChild, NodeDocument.node, hchild]

mutual

theorem gains_of_growNode : ∀ {n : NodeDocument} {t u : SchemaTree} {parent : Nat} {module : String}, parent < t.size →
    growNode lib source parent module t n = .ok u → Gains lib module t u parent [n]
  | ⟨name, kind, children, type, key, config, stated, default⟩, t, u, parent, module, hp, hu => by
    obtain ⟨hdefining, hfree, hchildren⟩ := growNode_eq_ok.mp hu
    have hlt : t.size <
        (t.addChild parent ⟨name, kind, type, key, .ofStatement config, stated.getD module, default⟩).size := by
      rw [SchemaTree.size_addChild hp]
      exact Nat.lt_succ_self _
    exact (gains_of_growNodes hlt hchildren).child hp hdefining hfree

theorem gains_of_growNodes : ∀ {ns : List NodeDocument} {t u : SchemaTree} {parent : Nat} {module : String},
    parent < t.size →
    growNodes lib source parent module t ns = .ok u → Gains lib module t u parent ns
  | [], t, u, parent, module, _, hu => by
    cases hu
    exact .nil lib module t parent
  | n :: ns, t, u, parent, module, hp, hu => by
    obtain ⟨v, hv, hu⟩ := growNodes_cons_eq_ok.mp hu
    have hfirst := gains_of_growNode hp hv
    have hlt : parent < v.size := by rw [hfirst.size]; omega
    exact hfirst.cons hp (gains_of_growNodes hlt hu)

end

/-! ### When growth succeeds -/

mutual

theorem exists_growNode : ∀ {n : NodeDocument} {t : SchemaTree} {parent : Nat} {module : String}, parent < t.size →
    lib.contains module = true → NodeDocument.Consistent lib [n] → t.child? parent n.name = none →
    ∃ u, growNode lib source parent module t n = .ok u
  | ⟨name, kind, children, type, key, config, stated, default⟩, t, parent, module, hp, hmodule, hn, hfree => by
    obtain ⟨⟨-, hchildren, hstated⟩, -⟩ := NodeDocument.consistent_cons_iff.mp hn
    have hdefining : lib.contains (stated.getD module) = true := by
      cases stated with
      | none => exact hmodule
      | some other => exact hstated other rfl
    let grown := t.addChild parent ⟨name, kind, type, key, .ofStatement config, stated.getD module, default⟩
    have hlt : t.size < grown.size := by
      rw [SchemaTree.size_addChild hp]
      exact Nat.lt_succ_self _
    have hnone : ∀ c ∈ children, grown.child? t.size c.name = none := fun c _ => by
      rw [SchemaTree.child?_eq, SchemaTree.entry_addChild hp, if_pos rfl]
      rfl
    obtain ⟨u, hu⟩ := exists_growNodes hlt hdefining hchildren hnone
    exact ⟨u, growNode_eq_ok.mpr ⟨hdefining, hfree, hu⟩⟩

theorem exists_growNodes : ∀ {ns : List NodeDocument} {t : SchemaTree} {parent : Nat} {module : String},
    parent < t.size →
    lib.contains module = true → NodeDocument.Consistent lib ns → (∀ n ∈ ns, t.child? parent n.name = none) →
    ∃ u, growNodes lib source parent module t ns = .ok u
  | [], t, _, _, _, _, _, _ => ⟨t, rfl⟩
  | n :: ns, t, parent, module, hp, hmodule, hns, hfree => by
    obtain ⟨⟨hname, hn, hstated⟩, hrest⟩ := NodeDocument.consistent_cons_iff.mp hns
    obtain ⟨u, hu⟩ := exists_growNode hp hmodule
      (NodeDocument.consistent_cons_iff.mpr ⟨⟨List.not_mem_nil, hn, hstated⟩, NodeDocument.consistent_nil lib⟩)
      (hfree n List.mem_cons_self)
    have hgains := gains_of_growNode hp hu
    have hlt : parent < u.size := by rw [hgains.size]; omega
    obtain ⟨v, hv⟩ := exists_growNodes hlt hmodule hrest fun m hm =>
      (hgains.child?_of_ne fun heq => hname (heq ▸ List.mem_map_of_mem hm)).mpr (hfree m (List.mem_cons_of_mem _ hm))
    exact ⟨v, growNodes_cons_eq_ok.mpr ⟨u, hu, hv⟩⟩

end

/-! ### Modules -/

/-- A tree holds some modules: they alone are in its tables, and under the root of each its document is read back. -/
structure Holds (lib : Library) (t : SchemaTree) (ms : List LoadedModule) : Prop where
  modules : t.modules = Table.ofList (ms.map fun m => (m.document.name, m.info))
  roots : ∀ name, (t.roots.get? name).isSome = true ↔ name ∈ ms.map (·.document.name)
  document : ∀ m ∈ ms, ∃ r, r < t.size ∧ t.roots.get? m.document.name = some r ∧ t.document r = m.root
  size : t.size = ms.length + (ms.flatMap fun m => NodeDocument.nodesOf m.document.children).length
  defined : ∀ id : Nat, id < t.size → lib.contains (t.node id).module = true

theorem holds_empty (lib : Library) : Holds lib .empty [] where
  modules := rfl
  roots name := by
    rw [show SchemaTree.empty.roots.get? name = none from rfl]
    simp
  document := by simp
  size := rfl
  defined id hid := absurd hid (Nat.not_lt_zero _)

section Module
variable {ms : List LoadedModule} {m : LoadedModule}

theorem gains_of_growModule (hu : growModule lib t m = .ok u) :
    Gains lib m.document.name (t.addModule m.info) u t.size m.document.children :=
  gains_of_growNodes (by rw [SchemaTree.size_addModule]; exact Nat.lt_succ_self _) hu

/-- A new root has no children yet. -/
theorem documents_addModule (t : SchemaTree) (info : ModuleInfo) : (t.addModule info).documents t.size = ∅ := by
  rw [SchemaTree.documents, SchemaTree.childTable, SchemaTree.entry_addModule, if_pos rfl]
  rfl

theorem document_of_growModule (hu : growModule lib t m = .ok u) : u.document t.size = m.root := by
  have h := gains_of_growModule hu
  rw [SchemaTree.document_eq, h.children_eq (documents_addModule t m.info), h.node, SchemaTree.node_addModule, if_pos rfl]
  rfl

/-- A module that is new is held behind the others, which stay as they are. -/
theorem Holds.growModule (h : Holds lib t ms) (hname : lib.contains m.document.name = true)
    (hnew : m.document.name ∉ ms.map (·.document.name)) (hu : growModule lib t m = .ok u) : Holds lib u (ms ++ [m]) := by
  have hgains := gains_of_growModule hu
  have hsize := SchemaTree.size_addModule t m.info
  have hle : t.size < u.size := by rw [hgains.size]; omega
  have hentry : ∀ id : Nat, id < t.size → u.entries[id]? = t.entries[id]? := fun id hid => by
    rw [hgains.entry id (by omega) (Nat.ne_of_lt hid), SchemaTree.entry_addModule, if_neg (Nat.ne_of_lt hid)]
  have hroots : u.roots = t.roots.insert m.document.name t.size := hgains.roots
  refine ⟨?_, fun name => ?_, fun m' hm' => ?_, ?_, fun id hid => ?_⟩
  · rw [hgains.modules, SchemaTree.addModule, h.modules, List.map_append, Table.ofList, Table.ofList, List.foldl_append]
    rfl
  · rw [hroots, Table.get?_insert, List.map_append, List.mem_append, ← h.roots]
    by_cases heq : name = m.document.name <;> simp [heq]
  · rcases List.mem_append.mp hm' with hold | hthis
    · obtain ⟨r, hr, hget, hdocument⟩ := h.document m' hold
      have hne : m'.document.name ≠ m.document.name := fun heq => hnew (heq ▸ List.mem_map_of_mem hold)
      refine ⟨r, Nat.lt_trans hr hle, ?_, ?_⟩
      · rw [hroots, Table.get?_insert_of_ne _ hne, hget]
      · rw [← hdocument]
        exact SchemaTree.document_congr hr fun j _ hj => hentry j hj
    · rw [List.mem_singleton.mp hthis]
      exact ⟨t.size, hle, by rw [hroots, Table.get?_insert_self], document_of_growModule hu⟩
  · rw [hgains.size, hsize, h.size]
    simp only [List.length_append, List.flatMap_append, List.length_singleton, List.flatMap_singleton]
    omega
  · by_cases hlt : id < t.size
    · rw [(SchemaTree.node_childTable_eq (hentry id hlt)).1]
      exact h.defined id hlt
    · by_cases hroot : id = t.size
      · rw [hroot, hgains.node, SchemaTree.node_addModule, if_pos rfl]
        exact hname
      · exact hgains.defined id (by omega) hid

theorem exists_growModule_iff (hname : lib.contains m.document.name = true) :
    (∃ u, Library.growModule lib t m = .ok u) ↔ NodeDocument.Consistent lib m.document.children := by
  refine ⟨fun ⟨u, hu⟩ => (gains_of_growModule hu).consistent, fun h => exists_growNodes ?_ hname h fun n _ => ?_⟩
  · rw [SchemaTree.size_addModule]
    exact Nat.lt_succ_self _
  · rw [SchemaTree.child?_eq, SchemaTree.entry_addModule, if_pos rfl]
    rfl

theorem growModules_cons_eq_ok : (m :: ms).foldlM (Library.growModule lib) t = .ok v ↔
    ∃ u, Library.growModule lib t m = .ok u ∧ ms.foldlM (Library.growModule lib) u = .ok v := by
  rw [List.foldlM_cons]
  cases Library.growModule lib t m <;> simp [bind, Except.bind]

theorem Holds.growModules {held : List LoadedModule} (h : Holds lib t held)
    (hnames : ∀ m ∈ ms, lib.contains m.document.name = true)
    (hnodup : ((held ++ ms).map (·.document.name)).Nodup) (hu : ms.foldlM (Library.growModule lib) t = .ok u) :
    Holds lib u (held ++ ms) := by
  induction ms generalizing t held with
  | nil =>
    cases hu
    simpa using h
  | cons m rest ih =>
    obtain ⟨v, hv, hu⟩ := growModules_cons_eq_ok.mp hu
    have hnew : m.document.name ∉ held.map (·.document.name) := fun hmem => by
      rw [List.map_append, List.map_cons] at hnodup
      exact (List.nodup_append.mp hnodup).2.2 _ hmem _ List.mem_cons_self rfl
    have hheld := h.growModule (hnames m List.mem_cons_self) hnew hv
    rw [List.append_cons] at hnodup ⊢
    exact ih hheld (fun m' hm' => hnames m' (List.mem_cons_of_mem _ hm')) hnodup hu

theorem exists_growModules_iff (hnames : ∀ m ∈ ms, lib.contains m.document.name = true) :
    (∃ u, ms.foldlM (Library.growModule lib) t = .ok u) ↔ ∀ m ∈ ms, NodeDocument.Consistent lib m.document.children := by
  induction ms generalizing t with
  | nil => exact iff_of_true ⟨t, rfl⟩ (by simp)
  | cons m rest ih =>
    have hname := hnames m List.mem_cons_self
    have hrest : ∀ m' ∈ rest, lib.contains m'.document.name = true := fun m' hm' => hnames m' (List.mem_cons_of_mem _ hm')
    rw [List.forall_mem_cons]
    constructor
    · rintro ⟨v, hv⟩
      obtain ⟨u, hu, hv⟩ := growModules_cons_eq_ok.mp hv
      exact ⟨(exists_growModule_iff hname).mp ⟨u, hu⟩, (ih hrest).mp ⟨v, hv⟩⟩
    · rintro ⟨hm, hms⟩
      obtain ⟨u, hu⟩ := (exists_growModule_iff (t := t) hname).mpr hm
      obtain ⟨v, hv⟩ := (ih (t := u) hrest).mpr hms
      exact ⟨v, growModules_cons_eq_ok.mpr ⟨u, hu, hv⟩⟩

end Module

/-! ### Libraries -/

theorem Named.contains_name (h : lib.Named) : ∀ m ∈ lib.values, lib.contains m.document.name = true := fun m hm => by
  obtain ⟨name, hget⟩ := Table.mem_values_iff.mp hm
  exact Table.contains_iff.mpr ⟨m, (h name m hget).symm ▸ hget⟩

theorem Named.holds (h : lib.Named) (ht : lib.tree = .ok t) : Holds lib t lib.values := by
  have hnodup : (lib.values.map (·.document.name)).Nodup := h.map_name_values ▸ lib.names_nodup
  exact (holds_empty lib).growModules h.contains_name hnodup ht

theorem Named.exists_tree_iff (h : lib.Named) :
    (∃ t, lib.tree = .ok t) ↔ ∀ name m, lib.get? name = some m → NodeDocument.Consistent lib m.document.children := by
  refine (exists_growModules_iff h.contains_name).trans ⟨fun hall name m hget => ?_, fun hall m hm => ?_⟩
  · exact hall m (Table.mem_values_iff.mpr ⟨name, hget⟩)
  · obtain ⟨name, hget⟩ := Table.mem_values_iff.mp hm
    exact hall name m hget

end Library

end SchemaIr
