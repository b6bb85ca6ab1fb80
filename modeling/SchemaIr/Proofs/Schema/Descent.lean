import SchemaIr.Proofs.Schema.Regular

/-! # Descent in the data tree

A node offers its children and, in place of a choice or case, what that one offers (`Offers`). Descent goes
from a node to what it offers, and on below containers and lists (`Descends`). In a regular tree the data
path grows by one name with every node on the way down, so nodes of one path stand at one depth
(`Clash.exists_of_dataPath_eq`). -/

namespace SchemaIr

theorem NodeKind.isChoiceOrCase_of_isDirectory {kind : NodeKind} (h : kind.isDirectory = true) :
    kind.isChoiceOrCase = false := by
  cases kind <;> simp_all [NodeKind.isDirectory, NodeKind.isChoiceOrCase]

theorem NodeKind.isChoiceOrCase_of_isLeafLike {kind : NodeKind} (h : kind.isLeafLike = true) :
    kind.isChoiceOrCase = false := by
  cases kind <;> simp_all [NodeKind.isLeafLike, NodeKind.isChoiceOrCase]

namespace SchemaTree

variable {t : SchemaTree}

/-! ### Upwards -/

theorem lineage_of_parent {c p : NodeId} (h : t.parent? c = some p) : t.lineage c = c :: t.lineage p := by
  rw [lineage]
  split
  · rename_i q hq
    rw [h] at hq
    rw [Option.some.inj hq]
  · rename_i hnone
    rw [h] at hnone
    cases hnone

theorem lineage_of_root {r : NodeId} (h : t.parent? r = none) : t.lineage r = [r] := by
  rw [lineage]
  split
  · rename_i q hq
    rw [h] at hq
    cases hq
  · rfl

/-- A choice or case adds nothing to the data path of its parent, any other node its name. -/
theorem dataPath_of_parent {c p : NodeId} (h : t.parent? c = some p) :
    t.dataPath c = t.dataPath p ++ if (t.kind c).isChoiceOrCase then [] else [t.name c] := by
  rw [dataPath, dataPath, lineage_of_parent h, dataNodes, List.filter_cons]
  cases (t.kind c).isChoiceOrCase <;> simp [dataNodes]

theorem dataPath_of_top {r : NodeId} (hparent : t.parent? r = none) (hdata : (t.kind r).isChoiceOrCase = false) :
    t.dataPath r = ["", t.name r] := by
  simp [dataPath, lineage_of_root hparent, dataNodes, hdata]

theorem Regular.dataPath_of_root (h : t.Regular) {name : String} {r : NodeId} (hr : t.roots.get? name = some r) :
    t.dataPath r = ["", name] := by
  obtain ⟨-, hparent, hname, hkind⟩ := h.root hr
  rw [dataPath_of_top hparent (by rw [hkind]; rfl), hname]

/-! ### Offered nodes -/

/-- A node in the data tree right below another one: a child, or one that a choice or case among the children
    offers. -/
inductive Offers (t : SchemaTree) : NodeId → NodeId → Prop
  | child {p c : NodeId} : c ∈ t.children p → (t.kind c).isChoiceOrCase = false → Offers t p c
  | through {p d c : NodeId} : d ∈ t.children p → (t.kind d).isChoiceOrCase = true → Offers t d c → Offers t p c

theorem dataChildren_eq (t : SchemaTree) (p : NodeId) : t.dataChildren p =
    (t.children p).flatMap fun c => if (t.kind c).isChoiceOrCase then t.dataChildren c else [c] := by
  rw [dataChildren, List.flatMap_def, List.flatMap_def, List.map_attach_eq_pmap, List.pmap_eq_map]

theorem mem_dataChildren {p c : NodeId} : c ∈ t.dataChildren p ↔ Offers t p c := by
  constructor
  · intro h
    induction p using dataChildren.induct t with
    | case1 p ih =>
      rw [dataChildren_eq] at h
      obtain ⟨d, hd, hc⟩ := List.mem_flatMap.mp h
      split at hc
      · rename_i hchoice
        exact .through hd hchoice (ih d hd hc)
      · rename_i hdata
        rw [List.mem_singleton.mp hc]
        exact .child hd (by simpa using hdata)
  · intro h
    induction h with
    | child hc hdata =>
      rw [dataChildren_eq]
      refine List.mem_flatMap.mpr ⟨_, hc, ?_⟩
      simp [hdata]
    | through hd hchoice _ ih =>
      rw [dataChildren_eq]
      refine List.mem_flatMap.mpr ⟨_, hd, ?_⟩
      simpa [hchoice] using ih

namespace Offers
variable {p c : NodeId}

theorem isChoiceOrCase (h : Offers t p c) : (t.kind c).isChoiceOrCase = false := by
  induction h with
  | child _ hdata => exact hdata
  | through _ _ _ ih => exact ih

theorem bounds {p c : Nat} (h : Offers t p c) : p < c ∧ c < t.size :=
  mem_dataChildren_bounds (mem_dataChildren.mpr h)

theorem dataPath_of_up (h : Offers t p c) (hup : ∀ {id c : NodeId}, c ∈ t.children id → t.parent? c = some id) :
    t.dataPath c = t.dataPath p ++ [t.name c] := by
  induction h with
  | child hc hdata => rw [dataPath_of_parent (hup hc), hdata]; rfl
  | through hd hchoice _ ih =>
    rw [ih, dataPath_of_parent (hup hd), hchoice]
    simp

theorem dataPath (h : Offers t p c) (ht : t.Regular) : t.dataPath c = t.dataPath p ++ [t.name c] :=
  h.dataPath_of_up ht.parent_of_mem

/-- What a choice or case offers has a choice or case for its parent. -/
theorem parent_of_choice (h : Offers t p c) (ht : t.Regular) (hp : (t.kind p).isChoiceOrCase = true) :
    ∃ q, t.parent? c = some q ∧ (t.kind q).isChoiceOrCase = true := by
  induction h with
  | child hc _ => exact ⟨_, ht.parent_of_mem hc, hp⟩
  | through _ hchoice _ ih => exact ih hchoice

end Offers

/-! ### Descent -/

/-- A node below another one, with containers, lists, choices and cases only on the way. -/
inductive Descends (t : SchemaTree) : NodeId → NodeId → Prop
  | offered {p c : NodeId} : Offers t p c → Descends t p c
  | deeper {p d c : NodeId} : Offers t p d → (t.kind d).isDirectory = true → Descends t d c → Descends t p c

theorem Descends.step {p d c : NodeId} (h : Descends t p d) (hd : (t.kind d).isDirectory = true)
    (hc : Offers t d c) : Descends t p c := by
  induction h with
  | offered ho => exact .deeper ho hd (.offered hc)
  | deeper ho hk _ ih => exact .deeper ho hk (ih hd hc)

/-- A node that is reached from a generation root. -/
def Reached (t : SchemaTree) (c : NodeId) : Prop := ∃ r ∈ t.generationRoots, Descends t r c

/-- A generation root, or a container or list that is reached from one: what is below it is reached, too. -/
def Opens (t : SchemaTree) (p : NodeId) : Prop :=
  p ∈ t.generationRoots ∨ Reached t p ∧ (t.kind p).isDirectory = true

theorem Opens.reached {p c : NodeId} (h : Opens t p) (hc : Offers t p c) : Reached t c := by
  rcases h with hr | ⟨⟨r, hr, hd⟩, hk⟩
  · exact ⟨p, hr, .offered hc⟩
  · exact ⟨r, hr, hd.step hk hc⟩

theorem Descends.exists_opens {p c : NodeId} (h : Descends t p c) (hp : Opens t p) :
    ∃ q, Opens t q ∧ Offers t q c := by
  induction h with
  | offered ho => exact ⟨_, hp, ho⟩
  | deeper ho hk _ ih => exact ih (.inr ⟨hp.reached ho, hk⟩)

theorem Reached.exists_opens {c : NodeId} (h : Reached t c) : ∃ p, Opens t p ∧ Offers t p c := by
  obtain ⟨r, hr, hd⟩ := h
  exact hd.exists_opens (.inl hr)

theorem mem_generationRoots {r : NodeId} (h : r ∈ t.generationRoots) : ∃ name, t.roots.get? name = some r := by
  obtain ⟨name, hname⟩ := Table.mem_values_iff.mp h
  exact ⟨name, (Table.get?_filter_eq_some_iff.mp hname).1⟩

namespace Regular

/-- A root has a data path of two segments, and what is reached a longer one. -/
theorem length_dataPath_of_mem_generationRoots (ht : t.Regular) {r : NodeId} (h : r ∈ t.generationRoots) :
    (t.dataPath r).length = 2 := by
  obtain ⟨name, hname⟩ := mem_generationRoots h
  rw [ht.dataPath_of_root hname]
  rfl

theorem length_dataPath_of_opens (ht : t.Regular) {p : NodeId} (h : Opens t p) : 2 ≤ (t.dataPath p).length := by
  induction p using Nat.strongRecOn with
  | ind p ih =>
    rcases h with hr | ⟨hreached, -⟩
    · exact Nat.le_of_eq (ht.length_dataPath_of_mem_generationRoots hr).symm
    · obtain ⟨q, hq, ho⟩ := hreached.exists_opens
      have hlen := ih q ho.bounds.1 hq
      rw [ho.dataPath ht, List.length_append]
      omega

theorem length_dataPath_of_reached (ht : t.Regular) {c : NodeId} (h : Reached t c) :
    3 ≤ (t.dataPath c).length := by
  obtain ⟨p, hp, ho⟩ := h.exists_opens
  have hlen := ht.length_dataPath_of_opens hp
  rw [ho.dataPath ht, List.length_append, List.length_singleton]
  omega

end Regular

/-! ### Clashes -/

/-- Two nodes that one node offers under the same name. -/
structure Clash (t : SchemaTree) (p a b : NodeId) : Prop where
  opens : Opens t p
  ne : a ≠ b
  left : Offers t p a
  right : Offers t p b
  name : t.name a = t.name b
  /-- No other node of the parent's path opens onto anything. -/
  topmost : ∀ {q : NodeId}, Opens t q → t.dataPath q = t.dataPath p → q = p

end SchemaTree

end SchemaIr
