import SchemaIr.Proofs.Schema.Search
import SchemaIr.Proofs.Schema.Unshadowed
import SchemaIr.Proofs.Table.Order

/-! # One more module

A tree may be joined by a module of a new name, with nodes that grow below its root (`Joined`). What there was before
stays as it was: an older node keeps its entry (`Extends`), and with it its lineage, its paths and its family. A new
node has the new root on top. -/

namespace SchemaIr

namespace Search
variable {t : SchemaTree} {s s' : Search}

theorem run_eq (t : SchemaTree) (s : Search) :
    s.run t = match s.look? t with
      | none => s.found.reverse
      | some s' => s'.run t := by
  rw [run]
  split <;> rename_i hlook <;> rw [hlook]

/-- What a look puts onto the stack is right below a node of the tree. -/
theorem stack_lt_of_look? (hlook : s.look? t = some s') (hs : ∀ id ∈ s.stack, id < t.size) :
    ∀ id ∈ s'.stack, id < t.size := by
  obtain ⟨stack, found⟩ := s
  cases stack with
  | nil => cases hlook
  | cons id rest =>
    have hrest : ∀ c ∈ rest, c < t.size := fun c hc => hs c (List.mem_cons_of_mem id hc)
    simp only [look?] at hlook
    split at hlook
    · cases hlook
      exact hrest
    · cases hlook
      intro c hc
      rcases List.mem_append.mp hc with hc | hc
      · exact (SchemaTree.mem_offspring_bounds (List.mem_filter.mp hc).1).2
      · exact hrest c hc

end Search

namespace SchemaTree
variable {t u : SchemaTree} {info : ModuleInfo} {id : NodeId}

/-- A tree grew by one module and by nodes below its root. -/
inductive Joined (t : SchemaTree) (info : ModuleInfo) : SchemaTree → Prop
  | addModule : Joined t info (t.addModule info)
  | addChild {u : SchemaTree} {parent : NodeId} (node : Node) : t.size ≤ parent → Joined t info u →
      Joined t info (u.addChild parent node)
  | setConfig {u : SchemaTree} {id : NodeId} (config : Bool) : t.size ≤ id → Joined t info u →
      Joined t info (u.setConfig id config)
  | setModule {u : SchemaTree} {id : NodeId} (module : String) : t.size ≤ id → Joined t info u →
      Joined t info (u.setModule id module)
  | setDefault {u : SchemaTree} {id : NodeId} (value : String) : t.size ≤ id → Joined t info u →
      Joined t info (u.setDefault id value)

theorem Joined.grown (h : t.Joined info u) (ht : t.Grown) : u.Grown := by
  induction h with
  | addModule => exact ht.addModule info
  | addChild node _ _ ih => exact ih.addChild _ node
  | setConfig config _ _ ih => exact ih.setConfig _ config
  | setModule module _ _ ih => exact ih.setModule _ module
  | setDefault value _ _ ih => exact ih.setDefault _ value

/-- A tree has all nodes of an older one as they were, and besides them one module and nodes below its root. -/
structure Extends (t : SchemaTree) (info : ModuleInfo) (u : SchemaTree) : Prop where
  entry : ∀ id, id < t.size → u.entries[id]? = t.entries[id]?
  size_lt : t.size < u.size
  parent_le : ∀ {id p : NodeId}, t.size ≤ id → u.parent? id = some p → t.size ≤ p
  orphan : ∀ {id : NodeId}, t.size ≤ id → id < u.size → u.parent? id = none → id = t.size
  name : u.name t.size = info.name
  roots : u.roots = t.roots.insert info.name t.size
  modules : u.modules = t.modules.insert info.name info

namespace Extends

theorem addModule (t : SchemaTree) (info : ModuleInfo) : Extends t info (t.addModule info) where
  entry id hid := by rw [entry_addModule, if_neg (Nat.ne_of_lt hid)]
  size_lt := by
    rw [size_addModule]
    exact Nat.lt_succ_self _
  parent_le hid hp := by
    rw [parent?_addModule] at hp
    exact absurd (lt_size_of_parent? hp) (Nat.not_lt_of_le hid)
  orphan hid hlt _ := by
    rw [size_addModule] at hlt
    exact Nat.le_antisymm (Nat.le_of_lt_succ hlt) hid
  name := by
    rw [SchemaTree.name, node_addModule, if_pos rfl]
    rfl
  roots := rfl
  modules := rfl

theorem addChild (h : Extends t info u) {parent : NodeId} (hparent : t.size ≤ parent) (n : Node) :
    Extends t info (u.addChild parent n) := by
  by_cases hp : parent < u.size
  · have hroot : t.size ≠ u.size := Nat.ne_of_lt h.size_lt
    refine ⟨fun id hid => ?_, ?_, fun {id p} hid hup => ?_, fun {id} hid hlt hnone => ?_, ?_, ?_, ?_⟩
    · -- An older node is neither the new one nor its parent.
      rw [entry_addChild hp, if_neg (Nat.ne_of_lt (Nat.lt_trans hid h.size_lt)), h.entry id hid]
      have hne : parent ≠ id := Nat.ne_of_gt (Nat.lt_of_lt_of_le hid hparent)
      simp [hne]
    · rw [size_addChild hp]
      exact Nat.lt_succ_of_lt h.size_lt
    · rw [parent?_addChild hp] at hup
      split at hup
      · cases hup
        exact hparent
      · exact h.parent_le hid hup
    · rw [parent?_addChild hp] at hnone
      rw [size_addChild hp] at hlt
      split at hnone
      · cases hnone
      · rename_i hne
        exact h.orphan hid (Nat.lt_of_le_of_ne (Nat.le_of_lt_succ hlt) hne) hnone
    · rw [SchemaTree.name, node_addChild hp, if_neg hroot]
      exact h.name
    · rw [roots_addChild hp, h.roots]
    · have hlt : parent < u.entries.size := hp
      simp only [SchemaTree.addChild, hlt, ↓reduceDIte, h.modules]
  · have hsame : u.addChild parent n = u := dif_neg hp
    rwa [hsame]

theorem restate (h : Extends t info u) (hid : t.size ≤ id) {f : Node → Node} (hname : ∀ n, (f n).name = n.name) :
    Extends t info (u.restate id f) where
  entry i hi := by
    have hne : id ≠ i := Nat.ne_of_gt (Nat.lt_of_lt_of_le hi hid)
    rw [entry_restate, h.entry i hi]
    simp [hne]
  size_lt := by
    rw [size_restate]
    exact h.size_lt
  parent_le hi hp := h.parent_le hi (parent?_restate u id f _ ▸ hp)
  orphan hi hlt hnone := h.orphan hi (size_restate u id f ▸ hlt) (parent?_restate u id f _ ▸ hnone)
  name := (node_restate u id hname _).trans h.name
  roots := h.roots
  modules := h.modules

end Extends

theorem Joined.extends (h : t.Joined info u) : Extends t info u := by
  induction h with
  | addModule => exact .addModule t info
  | addChild node hparent _ ih => exact ih.addChild hparent node
  | setConfig config hid _ ih => exact ih.restate hid fun _ => rfl
  | setModule module hid _ ih => exact ih.restate hid fun _ => rfl
  | setDefault value hid _ ih => exact ih.restate hid fun _ => rfl

namespace Extends
variable (h : Extends t info u)
include h

/-! ### Older nodes -/

theorem node (hid : id < t.size) : u.node id = t.node id := by
  rw [node_eq, node_eq, h.entry id hid]

theorem parent? (hid : id < t.size) : u.parent? id = t.parent? id := by
  rw [SchemaTree.parent?, SchemaTree.parent?, h.entry id hid]

theorem lineage (hid : id < t.size) : u.lineage id = t.lineage id := by
  induction id using Nat.strongRecOn with
  | ind id ih =>
    cases hp : t.parent? id with
    | none => rw [lineage_of_root hp, lineage_of_root ((h.parent? hid).trans hp)]
    | some p =>
      have hlt := parent?_lt hp
      rw [lineage_of_parent hp, lineage_of_parent ((h.parent? hid).trans hp), ih p hlt (Nat.lt_trans hlt hid)]

theorem dataPath (hid : id < t.size) : u.dataPath id = t.dataPath id := by
  have hnode : ∀ a ∈ t.lineage id, u.node a = t.node a := fun a ha =>
    h.node (Nat.lt_of_le_of_lt (le_of_mem_lineage ha) hid)
  have hdata : u.dataNodes (t.lineage id) = t.dataNodes (t.lineage id) := by
    refine List.filter_congr fun a ha => ?_
    rw [SchemaTree.kind, SchemaTree.kind, hnode a ha]
  rw [dataPath_eq, dataPath_eq, h.lineage hid, hdata]
  refine congrArg (fun names => "" :: names.reverse) (List.map_congr_left fun a ha => ?_)
  rw [SchemaTree.name, SchemaTree.name, hnode a (List.mem_filter.mp ha).1]

theorem pathString (hid : id < t.size) : u.pathString id = t.pathString id := by
  rw [SchemaTree.pathString, SchemaTree.pathString, h.dataPath hid]

theorem rootModule (hid : id < t.size) : u.rootModule id = t.rootModule id := by
  obtain ⟨top, htop⟩ := exists_top t id
  have hlt := Nat.lt_of_le_of_lt (le_of_mem_lineage (List.mem_of_getLast? htop)) hid
  rw [SchemaTree.rootModule, SchemaTree.rootModule, h.lineage hid, htop]
  exact congrArg Node.name (h.node hlt)

/-- Nothing new stands right below an older node. -/
theorem offspring (hid : id < t.size) : u.offspring id = t.offspring id := by
  obtain ⟨added, hadded⟩ := Nat.exists_eq_add_of_le (Nat.le_of_lt h.size_lt)
  have hrange : u.ids = t.ids ++ (List.range added).map (t.size + ·) := by
    rw [ids, ids, hadded, List.range_add]
  have hnew : ((List.range added).map (t.size + ·)).filter (fun c => u.parent? c == some id) = [] := by
    refine List.filter_eq_nil_iff.mpr fun c hc hp => ?_
    obtain ⟨k, -, rfl⟩ := List.mem_map.mp hc
    exact absurd hid (Nat.not_lt_of_le (h.parent_le (Nat.le_add_right _ k) (beq_iff_eq.mp hp)))
  rw [SchemaTree.offspring, SchemaTree.offspring, hrange, List.filter_append, hnew, List.append_nil]
  refine List.filter_congr fun c hc => ?_
  rw [h.parent? (List.mem_range.mp hc)]

theorem look? {s : Search} (hs : ∀ id ∈ s.stack, id < t.size) : s.look? u = s.look? t := by
  obtain ⟨stack, found⟩ := s
  cases stack with
  | nil => rfl
  | cons id rest => simp only [Search.look?, h.offspring (hs id List.mem_cons_self)]

theorem run {s : Search} (hs : ∀ id ∈ s.stack, id < t.size) : s.run u = s.run t := by
  -- A search that stays among older nodes looks at the same ones, and every look takes it nearer to its end.
  induction s using (Search.look_wellFounded t).induction with
  | _ s ih =>
    rw [Search.run_eq, Search.run_eq, h.look? hs]
    cases hlook : s.look? t with
    | none => rfl
    | some s' => exact ih s' hlook (Search.stack_lt_of_look? hlook hs)

theorem family (hid : id < t.size) : u.family id = t.family id :=
  h.run fun _ hc => List.mem_singleton.mp hc ▸ hid

/-! ### New nodes -/

theorem size_le_of_mem_lineage {a : NodeId} (hid : t.size ≤ id) (ha : a ∈ u.lineage id) : t.size ≤ a := by
  induction id using Nat.strongRecOn with
  | ind id ih =>
    rcases mem_lineage_iff.mp ha with rfl | ⟨p, hp, ha⟩
    · exact hid
    · exact ih p (parent?_lt hp) (h.parent_le hid hp) ha

/-- The new root stands on top of every new node. -/
theorem top (hid : t.size ≤ id) (hlt : id < u.size) : (u.lineage id).getLast? = some t.size := by
  obtain ⟨top, htop⟩ := exists_top u id
  have hmem := List.mem_of_getLast? htop
  have htlt := Nat.lt_of_le_of_lt (le_of_mem_lineage hmem) hlt
  rw [htop, h.orphan (h.size_le_of_mem_lineage hid hmem) htlt (parent?_of_top htop)]

theorem rootModule_new (hid : t.size ≤ id) (hlt : id < u.size) : u.rootModule id = info.name := by
  rw [SchemaTree.rootModule, h.top hid hlt]
  exact h.name

end Extends

end SchemaTree

end SchemaIr
