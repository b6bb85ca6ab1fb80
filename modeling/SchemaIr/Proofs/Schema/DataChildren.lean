import Mathlib.Data.List.Nodup
import SchemaIr.Proofs.Schema.Steps

/-! # Data children and data parents

The data children of a node are found on the way down, through choices and cases that are nested to any depth; the data
parent of a node is found on the way up. Where no child is shadowed, one undoes the other: a node lists the nodes of the
data tree that have it for their data parent, and each of them once (`dataChildren_inverse`). -/

namespace SchemaIr.SchemaTree

variable {t : SchemaTree}

/-! ### Each node once -/

/-- No two siblings stand in one lineage. -/
theorem eq_of_mem_lineage {a b c p : NodeId} (ha : t.parent? a = some p) (hb : t.parent? b = some p)
    (hac : a ∈ t.lineage c) (hbc : b ∈ t.lineage c) : a = b := by
  have hlength : (t.lineage a).length = (t.lineage b).length := by
    rw [lineage_of_parent ha, lineage_of_parent hb, List.length_cons, List.length_cons]
  have hsuffix : t.lineage a <:+ t.lineage b :=
    List.suffix_of_suffix_length_le (lineage_suffix_of_mem hac) (lineage_suffix_of_mem hbc) (Nat.le_of_eq hlength)
  have hsame := hsuffix.eq_of_length hlength
  rw [lineage_eq, lineage_eq] at hsame
  exact (List.cons.inj hsame).1

namespace Rooted

theorem nodup_children (h : t.Rooted) (p : NodeId) : (t.children p).Nodup := by
  have hdistinct : ((t.children p).map t.name).Nodup :=
    Table.nodup_map_values fun hc hc' heq => (h.up hc).2.symm.trans (heq.trans (h.up hc').2)
  exact hdistinct.of_map

theorem mem_lineage_of_offers (h : t.Rooted) {p c : NodeId} (hoffers : Offers t p c) : p ∈ t.lineage c := by
  induction hoffers with
  | child hc _ =>
    rw [lineage_of_parent (h.parent_of_mem hc), lineage_eq]
    exact List.mem_cons_of_mem _ List.mem_cons_self
  | @through p d c hd _ _ ih =>
    refine (lineage_suffix_of_mem ih).subset ?_
    rw [lineage_of_parent (h.parent_of_mem hd), lineage_eq]
    exact List.mem_cons_of_mem _ List.mem_cons_self

/-- What stands in the place of a child has the child above it, or is the child. -/
theorem mem_lineage_of_part (h : t.Rooted) {c x : NodeId}
    (hx : x ∈ if (t.kind c).isChoiceOrCase then t.dataChildren c else [c]) : c ∈ t.lineage x := by
  split at hx
  · exact h.mem_lineage_of_offers (mem_dataChildren.mp hx)
  · rw [List.mem_singleton.mp hx, lineage_eq]
    exact List.mem_cons_self

/-- No node is listed twice: what two children stand for is apart, since neither is above the other. -/
theorem nodup_dataChildren (h : t.Rooted) (p : NodeId) : (t.dataChildren p).Nodup := by
  induction p using dataChildren.induct t with
  | case1 p ih =>
    rw [dataChildren_eq, List.nodup_flatMap]
    refine ⟨fun c hc => ?_, (h.nodup_children p).imp_of_mem fun {a b} ha hb hne x hxa hxb => ?_⟩
    · split
      · exact ih c hc
      · exact List.nodup_singleton c
    · exact hne (eq_of_mem_lineage (h.parent_of_mem ha) (h.parent_of_mem hb) (h.mem_lineage_of_part hxa)
        (h.mem_lineage_of_part hxb))

end Rooted

/-! ### Lines from the top -/

/-- The nodes from a topmost one down to a node, each the parent of the next one. -/
structure LineTo (t : SchemaTree) (line : List NodeId) (c : NodeId) : Prop where
  top : ∃ r, line.head? = some r ∧ t.parent? r = none
  down : line.IsChain fun p c => t.parent? c = some p
  last : line.getLast? = some c

theorem lineTo_lineage (t : SchemaTree) (c : NodeId) : LineTo t (t.lineage c).reverse c where
  top := by
    obtain ⟨top, htop⟩ := exists_top t c
    exact ⟨top, List.head?_reverse.trans htop, parent?_of_top htop⟩
  down := List.isChain_reverse.mpr (isChain_lineage t c)
  last := by rw [List.getLast?_reverse, lineage_eq, List.head?_cons]

theorem schemaPath_eq (t : SchemaTree) (c : NodeId) : t.schemaPath c = "" :: (t.lineage c).reverse.map t.name := by
  rw [schemaPath, List.map_reverse]

theorem dataPath_eq_map (t : SchemaTree) (c : NodeId) :
    t.dataPath c = "" :: ((t.lineage c).reverse.filter fun id => !(t.kind id).isChoiceOrCase).map t.name := by
  rw [dataPath, dataNodes, List.filter_reverse, List.map_reverse]

/-! ### Down and up -/

/-- Where no child is shadowed, the data children of a node that is neither choice nor case are the nodes of the data
    tree that have it for their data parent. The data path of each of them goes on behind that of the node by its name,
    and is its schema path without the choices and cases on the line from the top. -/
theorem dataChildren_inverse (h : t.Grown) (hshadow : t.Unshadowed) {n : NodeId}
    (hn : (t.kind n).isChoiceOrCase = false) :
    (t.dataChildren n).Nodup ∧
      (∀ d, d ∈ t.dataChildren n ↔ (t.kind d).isChoiceOrCase = false ∧ t.dataParent? d = some n) ∧
      ∀ d ∈ t.dataChildren n, t.dataPath d = t.dataPath n ++ [t.name d] ∧ (t.dataPath d).Sublist (t.schemaPath d) ∧
        ∃ line, LineTo t line d ∧ t.schemaPath d = "" :: line.map t.name ∧
          t.dataPath d = "" :: (line.filter fun id => !(t.kind id).isChoiceOrCase).map t.name := by
  refine ⟨h.rooted.nodup_dataChildren n, fun d => ?_, fun d hd => ⟨?_, ?_, ?_⟩⟩
  · rw [mem_dataChildren, offers_iff (h.rooted.matched hshadow) hn]
  · exact h.rooted.dataPath_of_offers (mem_dataChildren.mp hd)
  · rw [schemaPath_eq, dataPath_eq_map]
    exact (List.filter_sublist.map t.name).cons_cons ""
  · exact ⟨_, lineTo_lineage t d, schemaPath_eq t d, dataPath_eq_map t d⟩

/-- A container with a choice, in a case of which stands another choice. -/
def nestedChoices : SchemaTree :=
  built [.module "m" "urn:m" none, .addOwnChild 0 "a" .container, .addOwnChild 1 "outer" .choice,
    .addOwnChild 2 "first" .case, .addOwnChild 3 "inner" .choice, .addOwnChild 4 "second" .case,
    .addOwnChild 5 "b" .container, .addOwnChild 3 "c" .anydata]

theorem nestedChoices_inverse : nestedChoices.Unshadowed ∧ 6 ∈ nestedChoices.dataChildren 1 ∧
    nestedChoices.dataParent? 6 = some 1 ∧ (nestedChoices.dataChildren 1).Nodup ∧
    nestedChoices.dataPath 6 = nestedChoices.dataPath 1 ++ ["b"] := by
  have hgrown : nestedChoices.Grown := grown_iff.mpr ⟨_, rfl⟩
  have hshadow : nestedChoices.Unshadowed := .of_ids (by decide)
  obtain ⟨hnodup, hmem, hpaths⟩ := dataChildren_inverse hgrown hshadow (n := 1) rfl
  have hoffers : Offers nestedChoices 1 6 := by
    refine .through (d := 2) ?_ rfl (.through (d := 3) ?_ rfl (.through (d := 4) ?_ rfl (.through (d := 5) ?_ rfl
      (.child ?_ rfl)))) <;> decide
  have hlisted : 6 ∈ nestedChoices.dataChildren 1 := mem_dataChildren.mpr hoffers
  exact ⟨hshadow, hlisted, ((hmem 6).mp hlisted).2, hnodup, (hpaths 6 hlisted).1⟩

end SchemaIr.SchemaTree
