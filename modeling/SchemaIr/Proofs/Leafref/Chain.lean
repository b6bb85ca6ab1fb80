import Mathlib.Logic.Relation
import SchemaIr.Proofs.Leafref.Index
import SchemaIr.Schema.Growth

/-! # Chains of leafrefs

A leafref refers to the node to which its path leads (`Refers`). Where this is a leafref as well, the chain goes on, up
to a node that is none (`Chain`). Chains that begin with the same node are the same, and there is none where a cycle is
reached. Following leafrefs takes a chain to its end if it has no more nodes than looks are allowed
(`follow_eq_some_iff`); so a path leads to the end of the chain that it begins if this has 32 nodes or less, and nowhere
otherwise (`chainTarget?_exact`). -/

namespace SchemaIr

open Relation

/-! ### Cycles -/

/-- Some cycle is reached from an element. -/
def ReachesCycle {α : Type} (R : α → α → Prop) (a : α) : Prop := ∃ c, ReflTransGen R a c ∧ TransGen R c c

namespace ReachesCycle
variable {α : Type} {R : α → α → Prop} {a b : α}

theorem head (hab : R a b) (h : ReachesCycle R b) : ReachesCycle R a := by
  obtain ⟨c, hbc, hcycle⟩ := h
  exact ⟨c, .head hab hbc, hcycle⟩

/-- From where a cycle is reached there is a step after which it still is. -/
theorem exists_step (h : ReachesCycle R a) : ∃ b, R a b ∧ ReachesCycle R b := by
  obtain ⟨c, hac, hcycle⟩ := h
  rcases hac.cases_head with rfl | ⟨b, hab, hbc⟩
  · -- On the cycle itself the next step stays on it.
    obtain ⟨b, hab, hba⟩ := TransGen.head'_iff.mp hcycle
    exact ⟨b, hab, a, hba, hcycle⟩
  · exact ⟨b, hab, c, hbc, hcycle⟩

theorem mono {S : α → α → Prop} (hsteps : ∀ a b, R a b → S a b) (h : ReachesCycle R a) : ReachesCycle S a := by
  obtain ⟨c, hway, hcycle⟩ := h
  exact ⟨c, ReflTransGen.mono hsteps _ _ hway, TransGen.mono hsteps _ _ hcycle⟩

end ReachesCycle

namespace LeafIndex

variable {index : LeafIndex} {t : SchemaTree} {context id next other target : NodeId} {nodes rest : List NodeId}
  {fuel : Nat} {path : String}

/-! ### One leafref -/

/-- The type of a node is a leafref with a path, and this path leads to another node. -/
def Refers (index : LeafIndex) (t : SchemaTree) (id next : NodeId) : Prop :=
  ∃ type path, (t.node id).type = some type ∧ type.isLeafref = true ∧ type.path = some path ∧
    index.target? t id path = some next

namespace Refers

theorem isLeafref (h : Refers index t id next) : (t.node id).isLeafref = true := by
  obtain ⟨type, _, htype, href, -⟩ := h
  simpa [Node.isLeafref, htype] using href

theorem unique (h : Refers index t id next) (h' : Refers index t id other) : next = other := by
  obtain ⟨type, path, htype, -, hpath, htarget⟩ := h
  obtain ⟨type', path', htype', -, hpath', htarget'⟩ := h'
  obtain rfl := Option.some.inj (htype.symm.trans htype')
  obtain rfl := Option.some.inj (hpath.symm.trans hpath')
  exact Option.some.inj (htarget.symm.trans htarget')

end Refers

instance : Decidable (Refers index t id next) :=
  decidable_of_iff (((t.node id).type.filter (·.isLeafref)).any fun type =>
      type.path.any fun path => index.target? t id path == some next)
    (by simp [Refers, Option.any_eq_true])

/-- A look stays at a node that is no leafref, and goes on where a leafref refers to. -/
theorem follow_succ_eq_some_iff : index.follow t (fuel + 1) id = some target ↔
    ((t.node id).isLeafref = false ∧ id = target) ∨
      ∃ next, Refers index t id next ∧ index.follow t fuel next = some target := by
  rw [follow]
  cases htype : (t.node id).type with
  | none => simp [Node.isLeafref, Refers, htype]
  | some type =>
    cases href : type.isLeafref with
    | false => simp [Node.isLeafref, Refers, htype, href]
    | true =>
      simp only [Node.isLeafref, Refers, htype, href, if_true, bind, Option.bind_eq_some_iff, Option.map_some,
        Option.getD_some, Bool.true_eq_false, false_and, false_or, Option.some.injEq]
      constructor
      · rintro ⟨path, hpath, next, hnext, hfollow⟩
        exact ⟨next, ⟨type, path, rfl, href, hpath, hnext⟩, hfollow⟩
      · rintro ⟨next, ⟨_, path, rfl, -, hpath, hnext⟩, hfollow⟩
        exact ⟨path, hpath, next, hnext, hfollow⟩

/-! ### Chains -/

/-- The nodes of a chain in order: each refers to the next one, and the last one is no leafref. -/
structure Chain (index : LeafIndex) (t : SchemaTree) (nodes : List NodeId) (target : NodeId) : Prop where
  refers : nodes.IsChain (Refers index t)
  last : nodes.getLast? = some target
  ends : (t.node target).isLeafref = false

/-- A chain is a node that is no leafref, or a leafref in front of the chain to which it refers. -/
theorem chain_cons_iff : Chain index t (id :: nodes) target ↔
    ((t.node id).isLeafref = false ∧ id = target ∧ nodes = []) ∨
      ∃ next rest, nodes = next :: rest ∧ Refers index t id next ∧ Chain index t (next :: rest) target := by
  constructor
  · rintro ⟨hrefers, hlast, hends⟩
    cases nodes with
    | nil =>
      obtain rfl : id = target := Option.some.inj hlast
      exact .inl ⟨hends, rfl, rfl⟩
    | cons next rest =>
      obtain ⟨hnext, hrest⟩ := List.isChain_cons_cons.mp hrefers
      rw [List.getLast?_cons_cons] at hlast
      exact .inr ⟨next, rest, rfl, hnext, hrest, hlast, hends⟩
  · rintro (⟨hplain, rfl, rfl⟩ | ⟨next, rest, rfl, hnext, hrest, hlast, hends⟩)
    · exact ⟨.singleton _, rfl, hplain⟩
    · exact ⟨List.isChain_cons_cons.mpr ⟨hnext, hrest⟩, by rwa [List.getLast?_cons_cons], hends⟩

theorem Chain.unique {nodes' : List NodeId} (h : Chain index t (id :: nodes) target)
    (h' : Chain index t (id :: nodes') other) : nodes = nodes' ∧ target = other := by
  induction nodes generalizing id nodes' with
  | nil =>
    rcases chain_cons_iff.mp h with ⟨hplain, rfl, -⟩ | ⟨_, _, hnil, -⟩
    · rcases chain_cons_iff.mp h' with ⟨-, rfl, rfl⟩ | ⟨_, _, -, hnext, -⟩
      · exact ⟨rfl, rfl⟩
      · rw [hnext.isLeafref] at hplain
        cases hplain
    · cases hnil
  | cons next rest ih =>
    rcases chain_cons_iff.mp h with ⟨-, -, hnil⟩ | ⟨_, _, heq, hnext, hrest⟩
    · cases hnil
    · cases heq
      rcases chain_cons_iff.mp h' with ⟨hplain, -⟩ | ⟨next', rest', rfl, hnext', hrest'⟩
      · rw [hnext.isLeafref] at hplain
        cases hplain
      · obtain rfl := hnext.unique hnext'
        obtain ⟨rfl, rfl⟩ := ih hrest hrest'
        exact ⟨rfl, rfl⟩

theorem not_chain_of_reachesCycle (h : ReachesCycle (Refers index t) id) : ¬Chain index t (id :: nodes) target := by
  induction nodes generalizing id with
  | nil =>
    obtain ⟨_, hnext, -⟩ := h.exists_step
    intro hchain
    rcases chain_cons_iff.mp hchain with ⟨hplain, -⟩ | ⟨_, _, hnil, -⟩
    · rw [hnext.isLeafref] at hplain
      cases hplain
    · cases hnil
  | cons next rest ih =>
    obtain ⟨step, hstep, hcycle⟩ := h.exists_step
    intro hchain
    rcases chain_cons_iff.mp hchain with ⟨-, -, hnil⟩ | ⟨_, _, heq, hnext, hrest⟩
    · cases hnil
    · cases heq
      obtain rfl := hstep.unique hnext
      exact ih hcycle hrest

/-- Looks at the nodes of a chain lead to its end, if there are as many looks as nodes. -/
theorem follow_eq_some_iff : index.follow t fuel id = some target ↔
    ∃ nodes, Chain index t (id :: nodes) target ∧ nodes.length < fuel := by
  induction fuel generalizing id with
  | zero => simp [follow]
  | succ fuel ih =>
    rw [follow_succ_eq_some_iff]
    constructor
    · rintro (⟨hplain, rfl⟩ | ⟨next, hnext, hfollow⟩)
      · exact ⟨[], chain_cons_iff.mpr (.inl ⟨hplain, rfl, rfl⟩), Nat.succ_pos fuel⟩
      · obtain ⟨nodes, hchain, hlength⟩ := ih.mp hfollow
        exact ⟨next :: nodes, chain_cons_iff.mpr (.inr ⟨next, nodes, rfl, hnext, hchain⟩), Nat.succ_lt_succ hlength⟩
    · rintro ⟨nodes, hchain, hlength⟩
      rcases chain_cons_iff.mp hchain with ⟨hplain, rfl, -⟩ | ⟨next, rest, rfl, hnext, hrest⟩
      · exact .inl ⟨hplain, rfl⟩
      · exact .inr ⟨next, hnext, ih.mpr ⟨rest, hrest, Nat.lt_of_succ_lt_succ hlength⟩⟩

/-! ### The chain of a path -/

/-- The chain that a path begins: the path leads to its first node. Counted with the path, there are as many leafrefs in
    it as nodes. -/
structure ChainOf (index : LeafIndex) (t : SchemaTree) (context : NodeId) (path : String) (nodes : List NodeId)
    (target : NodeId) : Prop extends Chain index t nodes target where
  first : index.target? t context path = nodes.head?

theorem chainTarget?_eq_some_iff : index.chainTarget? t context path = some target ↔
    ∃ nodes, ChainOf index t context path nodes target ∧ nodes.length ≤ maxChain := by
  rw [chainTarget?, Option.bind_eq_some_iff]
  constructor
  · rintro ⟨first, hfirst, hfollow⟩
    obtain ⟨nodes, hchain, hlength⟩ := follow_eq_some_iff.mp hfollow
    exact ⟨first :: nodes, ⟨hchain, hfirst⟩, hlength⟩
  · rintro ⟨nodes, ⟨hchain, hfirst⟩, hlength⟩
    cases nodes with
    | nil => cases hchain.last
    | cons first rest => exact ⟨first, hfirst, follow_eq_some_iff.mpr ⟨rest, hchain, hlength⟩⟩

theorem ChainOf.unique {nodes' : List NodeId} (h : ChainOf index t context path nodes target)
    (h' : ChainOf index t context path nodes' other) : nodes = nodes' ∧ target = other := by
  obtain ⟨hchain, hfirst⟩ := h
  obtain ⟨hchain', hfirst'⟩ := h'
  cases nodes with
  | nil => cases hchain.last
  | cons first rest =>
    cases nodes' with
    | nil => cases hchain'.last
    | cons first' rest' =>
      obtain rfl : first = first' := Option.some.inj (hfirst.symm.trans hfirst')
      obtain ⟨rfl, rfl⟩ := hchain.unique hchain'
      exact ⟨rfl, rfl⟩

theorem isLeafref_of_chainTarget? (h : index.chainTarget? t context path = some target) :
    (t.node target).isLeafref = false := by
  obtain ⟨_, hchain, -⟩ := chainTarget?_eq_some_iff.mp h
  exact hchain.ends

/-- A path leads along leafrefs to the end of the chain that it begins, if this has no more than 32 nodes. It never leads
    to a leafref, and not to any node if a cycle is reached; and a chain of 32 leafrefs, the path included, is followed to
    its end, while one of 33 is not. -/
theorem chainTarget?_exact (index : LeafIndex) (t : SchemaTree) (context : NodeId) (path : String) :
    (∀ target, index.chainTarget? t context path = some target ↔
        ∃ nodes, ChainOf index t context path nodes target ∧ nodes.length ≤ 32) ∧
      (∀ target, index.chainTarget? t context path = some target → (t.node target).isLeafref = false) ∧
      (∀ first, index.target? t context path = some first → ReachesCycle (Refers index t) first →
        index.chainTarget? t context path = none) ∧
      ∀ nodes target, ChainOf index t context path nodes target →
        (nodes.length ≤ 32 → index.chainTarget? t context path = some target) ∧
          (32 < nodes.length → index.chainTarget? t context path = none) := by
  refine ⟨fun target => chainTarget?_eq_some_iff, fun target => isLeafref_of_chainTarget?, fun first hfirst hcycle => ?_,
    fun nodes target hchain => ⟨fun hlength => chainTarget?_eq_some_iff.mpr ⟨nodes, hchain, hlength⟩, fun hlength => ?_⟩⟩
  · refine Option.eq_none_iff_forall_ne_some.mpr fun target htarget => ?_
    obtain ⟨nodes, ⟨hchain, hhead⟩, -⟩ := chainTarget?_eq_some_iff.mp htarget
    cases nodes with
    | nil => cases hchain.last
    | cons node rest =>
      obtain rfl : first = node := Option.some.inj (hfirst.symm.trans hhead)
      exact not_chain_of_reachesCycle hcycle hchain
  · refine Option.eq_none_iff_forall_ne_some.mpr fun other hother => ?_
    obtain ⟨nodes', hchain', hlength'⟩ := chainTarget?_eq_some_iff.mp hother
    obtain ⟨rfl, -⟩ := hchain.unique hchain'
    exact Nat.not_le_of_lt hlength hlength'

/-- Leaves each of which is a leafref to the next one, up to the last one, which holds a text; and a leafref to itself. -/
def row : SchemaTree :=
  let leafref (name : String) : TypeDescriptor := { TypeDescriptor.ofKind .leafref with path := some ("../" ++ name) }
  let leaf (name : String) (type : TypeDescriptor) : Node := { Node.ofKind name .leaf "m" with type := some type }
  let linked : SchemaTree := (List.range 32).foldl (fun t i => t.addChild 0 (leaf (toString i) (leafref (toString (i + 1)))))
    (SchemaTree.empty.addModule ⟨"m", "urn:m", none, false⟩)
  (linked.addChild 0 (leaf "32" (.ofKind .string))).addChild 0 (leaf "loop" (leafref "loop"))

/-- The chain of all 33 leaves is too long, the one without the first leaf is not; and the leaf that refers to itself begins
    no chain. -/
theorem row_chains : ChainOf (ofTree row) row 33 "../0" (List.range' 1 33) 33 ∧
    (ofTree row).chainTarget? row 33 "../0" = none ∧ ChainOf (ofTree row) row 33 "../1" (List.range' 2 32) 33 ∧
    (ofTree row).chainTarget? row 33 "../1" = some 33 ∧ ReachesCycle (Refers (ofTree row) row) 34 ∧
    (ofTree row).chainTarget? row 33 "../loop" = none := by
  have hrun : (List.range' 1 33).IsChain (Refers (ofTree row) row) ∧ Refers (ofTree row) row 34 34 ∧
      (row.node 33).isLeafref = false ∧ (ofTree row).target? row 33 "../0" = some 1 ∧
        (ofTree row).target? row 33 "../1" = some 2 ∧ (ofTree row).target? row 33 "../loop" = some 34 := by
    decide +kernel
  obtain ⟨hrefers, hself, hends, hlong, hshort, hloop⟩ := hrun
  have hlongest : ChainOf (ofTree row) row 33 "../0" (List.range' 1 33) 33 := ⟨⟨hrefers, rfl, hends⟩, hlong⟩
  have hshorter : ChainOf (ofTree row) row 33 "../1" (List.range' 2 32) 33 := ⟨⟨hrefers.tail, rfl, hends⟩, hshort⟩
  have hcycle : ReachesCycle (Refers (ofTree row) row) 34 := ⟨34, .refl, .single hself⟩
  refine ⟨hlongest, ((chainTarget?_exact (ofTree row) row 33 "../0").2.2.2 _ _ hlongest).2 (by decide), hshorter,
    ((chainTarget?_exact (ofTree row) row 33 "../1").2.2.2 _ _ hshorter).1 (by decide), hcycle, ?_⟩
  exact (chainTarget?_exact (ofTree row) row 33 "../loop").2.2.1 34 hloop hcycle

/-! ### Chains in the index of a tree -/

theorem leaf?_of_target? (h : (ofTree t).target? t context path = some target) :
    (ofTree t).leaf? (t.pathString target) = some target := by
  obtain ⟨targetPath, -, hleaf⟩ := Option.bind_eq_some_iff.mp h
  rwa [(leaf?_eq_some hleaf).1]

/-- Every node of a chain is the leaf that the index has at its path. -/
theorem Chain.leaf?_last (h : Chain (ofTree t) t (id :: nodes) target)
    (hid : (ofTree t).leaf? (t.pathString id) = some id) : (ofTree t).leaf? (t.pathString target) = some target := by
  induction nodes generalizing id with
  | nil =>
    obtain rfl : id = target := Option.some.inj h.last
    exact hid
  | cons next rest ih =>
    rcases chain_cons_iff.mp h with ⟨-, -, hnil⟩ | ⟨_, _, heq, ⟨_, _, -, -, -, hnext⟩, hrest⟩
    · cases hnil
    · cases heq
      exact ih hrest (leaf?_of_target? hnext)

theorem leaf?_of_chainTarget? (h : (ofTree t).chainTarget? t context path = some target) :
    (ofTree t).leaf? (t.pathString target) = some target := by
  obtain ⟨nodes, ⟨hchain, hfirst⟩, -⟩ := chainTarget?_eq_some_iff.mp h
  cases nodes with
  | nil => cases hchain.last
  | cons first rest => exact hchain.leaf?_last (leaf?_of_target? hfirst)

end LeafIndex
end SchemaIr
