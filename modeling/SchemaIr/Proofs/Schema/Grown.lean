import SchemaIr.Proofs.Loading.Loaded
import SchemaIr.Proofs.Schema.DataTree

/-! # Grown trees

Every tree grows out of the empty one, module by module and child by child, and what its nodes state is settled on the
way (`Grown`). Growth may shadow a child and replace a module, so that the links down show less than the links up; but
a child still has the node for its parent, and only modules are without one (`Rooted`). Loading grows its trees, too
(`Loaded.grown`). -/

namespace SchemaIr

namespace SchemaTree
variable {t u : SchemaTree}

/-- A tree that grew out of the empty one. -/
inductive Grown : SchemaTree → Prop
  | empty : Grown .empty
  | addModule {t : SchemaTree} (info : ModuleInfo) : Grown t → Grown (t.addModule info)
  | addChild {t : SchemaTree} (parent : NodeId) (node : Node) : Grown t → Grown (t.addChild parent node)
  | setConfig {t : SchemaTree} (id : NodeId) (config : Bool) : Grown t → Grown (t.setConfig id config)
  | setModule {t : SchemaTree} (id : NodeId) (module : String) : Grown t → Grown (t.setModule id module)
  | setDefault {t : SchemaTree} (id : NodeId) (value : String) : Grown t → Grown (t.setDefault id value)

/-- The links down go along links up, and only modules have no parent. -/
structure Rooted (t : SchemaTree) : Prop where
  up : ∀ {id c : NodeId} {name : String}, t.child? id name = some c → t.parent? c = some id ∧ t.name c = name
  orphan : ∀ {r : NodeId}, r < t.size → t.parent? r = none → t.kind r = .module

/-! ### What restating changes -/

section Restate
variable (t) (id : NodeId) (f : Node → Node)

theorem entry_restate (i : NodeId) : (t.restate id f).entries[i]? =
    t.entries[i]?.map fun e => if id = i then { e with node := f e.node } else e := by
  simp only [restate, Array.getElem?_modify]
  split
  · rfl
  · cases t.entries[i]? <;> rfl

theorem size_restate : (t.restate id f).size = t.size := Array.size_modify

theorem parent?_restate (i : NodeId) : (t.restate id f).parent? i = t.parent? i := by
  rw [parent?, parent?, entry_restate]
  cases t.entries[i]? with
  | none => rfl
  | some e =>
    simp only [Option.map_some, Option.bind_some]
    split <;> rfl

theorem child?_restate (i : NodeId) (name : String) : (t.restate id f).child? i name = t.child? i name := by
  rw [child?_eq, child?_eq, entry_restate]
  cases t.entries[i]? with
  | none => rfl
  | some e =>
    simp only [Option.map_some, Option.bind_some]
    split <;> rfl

variable {f}

/-- A node keeps what no restating changes. -/
theorem node_restate {α : Type} {part : Node → α} (hf : ∀ n, part (f n) = part n) (i : NodeId) :
    part ((t.restate id f).node i) = part (t.node i) := by
  rw [node_eq, node_eq, entry_restate]
  cases t.entries[i]? with
  | none => rfl
  | some e =>
    simp only [Option.map_some, Option.getD_some]
    split
    · exact hf e.node
    · rfl

end Restate

/-! ### Growth keeps trees rooted -/

namespace Rooted

theorem empty : SchemaTree.empty.Rooted where
  up h := by simp [SchemaTree.empty, child?_eq] at h
  orphan h := by cases h

theorem addModule (h : t.Rooted) (info : ModuleInfo) : (t.addModule info).Rooted where
  up {id c name} hc := by
    rw [child?_addModule] at hc
    obtain ⟨hparent, hname⟩ := h.up hc
    rw [parent?_addModule, SchemaTree.name, node_addModule, if_neg (Nat.ne_of_lt (lt_size_of_parent? hparent))]
    exact ⟨hparent, hname⟩
  orphan {r} hr hnone := by
    rw [size_addModule] at hr
    rw [parent?_addModule] at hnone
    rw [kind, node_addModule]
    split
    · rfl
    · rename_i hne
      exact h.orphan (Nat.lt_of_le_of_ne (Nat.le_of_lt_succ hr) hne) hnone

theorem addChild (h : t.Rooted) (parent : NodeId) (n : Node) : (t.addChild parent n).Rooted := by
  by_cases hp : parent < t.size
  · refine ⟨fun {id c name} hc => ?_, fun {r} hr hnone => ?_⟩
    · rw [child?_addChild hp] at hc
      rw [parent?_addChild hp, SchemaTree.name, node_addChild hp]
      split at hc
      · rename_i heq
        cases hc
        rw [if_pos rfl, if_pos rfl]
        exact ⟨congrArg some heq.1.symm, heq.2.symm⟩
      · obtain ⟨hparent, hname⟩ := h.up hc
        have hne := Nat.ne_of_lt (lt_size_of_parent? hparent)
        rw [if_neg hne, if_neg hne]
        exact ⟨hparent, hname⟩
    · rw [size_addChild hp] at hr
      rw [parent?_addChild hp] at hnone
      rw [kind, node_addChild hp]
      split at hnone
      · cases hnone
      · rename_i hne
        rw [if_neg hne]
        exact h.orphan (Nat.lt_of_le_of_ne (Nat.le_of_lt_succ hr) hne) hnone
  · have hsame : t.addChild parent n = t := dif_neg hp
    rwa [hsame]

/-- A tree stays rooted where nodes keep their names and kinds. -/
theorem restate (h : t.Rooted) (id : NodeId) {f : Node → Node} (hname : ∀ n, (f n).name = n.name)
    (hkind : ∀ n, (f n).kind = n.kind) : (t.restate id f).Rooted where
  up hc := by
    rw [child?_restate] at hc
    rw [parent?_restate, SchemaTree.name, node_restate t id hname]
    exact h.up hc
  orphan hr hnone := by
    rw [size_restate] at hr
    rw [parent?_restate] at hnone
    rw [kind, node_restate t id hkind]
    exact h.orphan hr hnone

end Rooted

theorem Grown.rooted (h : t.Grown) : t.Rooted := by
  induction h with
  | empty => exact .empty
  | addModule info _ ih => exact ih.addModule info
  | addChild parent node _ ih => exact ih.addChild parent node
  | setConfig id config _ ih => exact ih.restate id (fun _ => rfl) fun _ => rfl
  | setModule id module _ ih => exact ih.restate id (fun _ => rfl) fun _ => rfl
  | setDefault id value _ ih => exact ih.restate id (fun _ => rfl) fun _ => rfl

/-! ### Paths -/

namespace Rooted

theorem parent_of_mem (h : t.Rooted) {id c : NodeId} (hc : c ∈ t.children id) : t.parent? c = some id := by
  obtain ⟨name, hname⟩ := mem_children_iff.mp hc
  exact (h.up hname).1

theorem dataPath_of_offers (h : t.Rooted) {p c : NodeId} (hoffers : Offers t p c) :
    t.dataPath c = t.dataPath p ++ [t.name c] :=
  hoffers.dataPath_of_up h.parent_of_mem

/-- The data path of a node begins with the name of its module. -/
theorem two_le_length_dataPath (h : t.Rooted) {c : NodeId} (hc : c < t.size) : 2 ≤ (t.dataPath c).length := by
  induction c using Nat.strongRecOn with
  | ind c ih =>
    rw [dataPath_eq, lineage_eq, dataNodes_cons]
    cases hp : t.parent? c with
    | none =>
      rw [h.orphan hc hp]
      simp [NodeKind.isChoiceOrCase]
    | some p =>
      have hlt := parent?_lt hp
      have hparent := ih p hlt (Nat.lt_trans hlt hc)
      rw [dataPath_eq] at hparent
      rw [ancestors_of_parent hp]
      split
      · exact hparent
      · simp only [List.map_cons, List.reverse_cons, List.length_cons, List.length_append] at hparent ⊢
        omega

theorem three_le_length_dataPath (h : t.Rooted) {c : NodeId} (hc : (t.kind c).isDirectory = true) :
    3 ≤ (t.dataPath c).length := by
  have hlt := lt_size_of_isDirectory hc
  cases hp : t.parent? c with
  | none =>
    rw [h.orphan hlt hp] at hc
    cases hc
  | some p =>
    have hparent := h.two_le_length_dataPath (Nat.lt_trans (parent?_lt hp) hlt)
    rw [dataPath_of_parent hp]
    cases hk : t.kind c <;> rw [hk] at hc <;> cases hc
    all_goals
      simp [NodeKind.isChoiceOrCase]
      omega

end Rooted

end SchemaTree

/-! ### Loading -/

namespace Library
open SchemaTree (Grown)

theorem grown_of_addNewChild {t u : SchemaTree} {parent : NodeId} {n : Node} (h : t.Grown)
    (hu : t.addNewChild parent n = .ok u) : u.Grown := by
  unfold SchemaTree.addNewChild at hu
  split at hu
  · cases hu
  · cases hu
    exact h.addChild parent n

mutual

theorem grown_of_growNode {lib : Library} {source : LoadedModule} {parent : NodeId} {module : String} {t u : SchemaTree} :
    ∀ {n : NodeDocument}, t.Grown → growNode lib source parent module t n = .ok u → u.Grown
  | ⟨_, _, _, _, _, _, _, _⟩, h, hu => by
    rw [growNode] at hu
    split at hu
    · dsimp only at hu
      split at hu
      · rename_i grown hgrown
        exact grown_of_growNodes (grown_of_addNewChild h hgrown) hu
      · cases hu
    · cases hu

theorem grown_of_growNodes {lib : Library} {source : LoadedModule} {parent : NodeId} {module : String} {t u : SchemaTree} :
    ∀ {ns : List NodeDocument}, t.Grown → growNodes lib source parent module t ns = .ok u → u.Grown
  | [], h, hu => by
    cases hu
    exact h
  | _ :: _, h, hu => by
    rw [growNodes] at hu
    simp only [bind, Except.bind] at hu
    split at hu
    · cases hu
    · rename_i v hv
      exact grown_of_growNodes (grown_of_growNode h hv) hu

end

theorem grown_of_growModules {lib : Library} {ms : List LoadedModule} {t u : SchemaTree} (h : t.Grown)
    (hu : ms.foldlM (growModule lib) t = .ok u) : u.Grown := by
  induction ms generalizing t with
  | nil =>
    cases hu
    exact h
  | cons m rest ih =>
    rw [List.foldlM_cons] at hu
    simp only [bind, Except.bind] at hu
    split at hu
    · cases hu
    · rename_i v hv
      exact ih (grown_of_growNodes (h.addModule _) hv) hu

end Library

theorem SchemaTree.Loaded.grown {t : SchemaTree} (h : t.Loaded) : t.Grown := by
  obtain ⟨lib, -, ht⟩ := h
  exact Library.grown_of_growModules .empty ht

end SchemaIr
