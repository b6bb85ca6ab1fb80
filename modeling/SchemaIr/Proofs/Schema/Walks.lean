import Mathlib.Data.List.Chain
import SchemaIr.Proofs.Schema.DataTree

/-! # Walks up a tree

Whatever is asked of a node and its ancestors is found on a walk, which looks at one node at a time and goes on at its
parent. A walk passes the lineage of the node where it begins, and ends at the topmost one. -/

namespace SchemaIr.SchemaTree

/-- Each node of a lineage has the next one for its parent. -/
theorem isChain_lineage (t : SchemaTree) (c : NodeId) : (t.lineage c).IsChain fun a b => t.parent? a = some b := by
  induction c using Nat.strongRecOn with
  | ind c ih =>
    cases hp : t.parent? c with
    | none =>
      rw [lineage_of_root hp]
      exact .singleton c
    | some p =>
      have hrest := ih p (parent?_lt hp)
      rw [lineage_eq] at hrest
      rw [lineage_of_parent hp, lineage_eq]
      exact .cons_cons hp hrest

theorem isConfig_eq (t : SchemaTree) (c : NodeId) :
    t.isConfig c = (t.node c).config.statement.getD ((t.parent? c).elim true t.isConfig) := by
  cases hp : t.parent? c with
  | none =>
    rw [isConfig, lineage_of_root hp, List.findSome?_cons]
    cases (t.node c).config.statement <;> rfl
  | some p =>
    rw [Option.elim_some, isConfig, lineage_of_parent hp, List.findSome?_cons]
    cases (t.node c).config.statement <;> rfl

theorem dataParent?_eq (t : SchemaTree) (c : NodeId) : t.dataParent? c =
    (t.parent? c).bind fun p => if (t.kind p).isChoiceOrCase then t.dataParent? p else some p := by
  cases hp : t.parent? c with
  | none =>
    rw [dataParent?, ancestors_of_root hp]
    rfl
  | some p =>
    rw [dataParent?, ancestors_of_parent hp, lineage_eq, dataNodes_cons, Option.bind_some]
    split <;> rfl

theorem dataPath_eq_append (t : SchemaTree) (c : NodeId) : t.dataPath c =
    (t.parent? c).elim [""] t.dataPath ++ if (t.kind c).isChoiceOrCase then [] else [t.name c] := by
  cases hp : t.parent? c with
  | none =>
    rw [dataPath_eq, lineage_of_root hp, dataNodes_cons]
    split <;> rfl
  | some p => exact dataPath_of_parent hp

theorem rootModule_eq (t : SchemaTree) (c : NodeId) :
    t.rootModule c = (t.parent? c).elim (t.name c) t.rootModule := by
  cases hp : t.parent? c with
  | none => exact rootModule_of_root hp
  | some p =>
    refine rootModule_of_top (top_of_mem ?_)
    rw [lineage_of_parent hp, lineage_eq t p]
    exact List.mem_cons_of_mem _ List.mem_cons_self

end SchemaIr.SchemaTree
