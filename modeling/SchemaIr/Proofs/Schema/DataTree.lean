import SchemaIr.Proofs.Schema.Descent

/-! # The data tree upwards

Descent goes down from node to node; the ancestors of a node lead back up. A node is offered by the closest
ancestor that is neither choice nor case, and by no other such node (`offers_iff`); and a container or list is
reached exactly if all its ancestors are open (`reached_iff`). The data path of a node goes on behind that of each
of its ancestors (`dataPath_of_mem_ancestors`). -/

namespace SchemaIr.SchemaTree

variable {t : SchemaTree}

/-! ### Ancestors -/

theorem lineage_eq (t : SchemaTree) (c : NodeId) : t.lineage c = c :: t.ancestors c := by
  rw [ancestors, lineage, List.tail_cons]

theorem ancestors_of_parent {c p : NodeId} (h : t.parent? c = some p) : t.ancestors c = t.lineage p := by
  rw [ancestors, lineage_of_parent h, List.tail_cons]

theorem ancestors_of_root {r : NodeId} (h : t.parent? r = none) : t.ancestors r = [] := by
  rw [ancestors, lineage_of_root h, List.tail_cons]

theorem lineage_suffix_of_mem {a c : NodeId} (h : a ∈ t.lineage c) : t.lineage a <:+ t.lineage c := by
  induction c using Nat.strongRecOn with
  | ind c ih =>
    rw [lineage_eq] at h
    rcases List.mem_cons.mp h with rfl | h
    · exact List.suffix_refl _
    · cases hp : t.parent? c with
      | none => rw [ancestors_of_root hp] at h; cases h
      | some p =>
        rw [ancestors_of_parent hp] at h
        rw [lineage_of_parent hp]
        exact (ih p (parent?_lt hp) h).trans (List.suffix_cons c _)

/-- What stands above a node in a lineage are its ancestors. -/
theorem lineage_of_append {a c : NodeId} {before after : List NodeId} (h : t.lineage c = before ++ a :: after) :
    t.lineage a = a :: after := by
  induction before generalizing c with
  | nil =>
    obtain rfl : c = a := (List.cons.inj (lineage_eq t c ▸ h)).1
    exact h
  | cons x rest ih =>
    rw [lineage_eq, List.cons_append] at h
    have hancestors := (List.cons.inj h).2
    cases hp : t.parent? c with
    | none =>
      rw [ancestors_of_root hp] at hancestors
      simp at hancestors
    | some p =>
      rw [ancestors_of_parent hp] at hancestors
      exact ih hancestors

theorem ancestors_subset {a c : NodeId} (h : a ∈ t.ancestors c) : t.ancestors a ⊆ t.ancestors c := by
  cases hp : t.parent? c with
  | none => rw [ancestors_of_root hp] at h; cases h
  | some p =>
    rw [ancestors_of_parent hp] at h ⊢
    have hsub := (lineage_suffix_of_mem h).subset
    rw [lineage_eq] at hsub
    exact fun x hx => hsub (List.mem_cons_of_mem a hx)

theorem lt_of_mem_ancestors {a c : Nat} (h : a ∈ t.ancestors c) : a < c := by
  induction c using Nat.strongRecOn with
  | ind c ih =>
    cases hp : t.parent? c with
    | none =>
      rw [ancestors_of_root hp] at h
      cases h
    | some p =>
      have hlt := parent?_lt hp
      rw [ancestors_of_parent hp, lineage_eq] at h
      rcases List.mem_cons.mp h with rfl | h
      · exact hlt
      · exact Nat.lt_trans (ih p hlt h) hlt

theorem le_of_mem_lineage {a c : Nat} (h : a ∈ t.lineage c) : a ≤ c := by
  rw [lineage_eq] at h
  rcases List.mem_cons.mp h with rfl | h
  · exact Nat.le_refl _
  · exact Nat.le_of_lt (lt_of_mem_ancestors h)

/-! ### Topmost nodes -/

theorem exists_top (t : SchemaTree) (id : NodeId) : ∃ top, (t.lineage id).getLast? = some top := by
  rw [lineage_eq, List.getLast?_cons]
  exact ⟨_, rfl⟩

theorem top_of_mem {a c : NodeId} (h : a ∈ t.lineage c) : (t.lineage c).getLast? = (t.lineage a).getLast? := by
  obtain ⟨between, hbetween⟩ := lineage_suffix_of_mem h
  obtain ⟨top, htop⟩ := exists_top t a
  rw [← hbetween, List.getLast?_append, htop]
  rfl

/-- Nothing stands above a topmost node. -/
theorem parent?_of_top {c top : NodeId} (h : (t.lineage c).getLast? = some top) : t.parent? top = none := by
  refine Option.eq_none_iff_forall_ne_some.mpr fun p hp => ?_
  have htop := h
  rw [top_of_mem (List.mem_of_getLast? h), lineage_of_parent hp] at htop
  obtain ⟨top', htop'⟩ := exists_top t p
  rw [lineage_eq, List.getLast?_cons_cons, ← lineage_eq, htop'] at htop
  obtain rfl := Option.some.inj htop
  exact Nat.not_le_of_lt (parent?_lt hp) (le_of_mem_lineage (List.mem_of_getLast? htop'))

theorem rootModule_of_top {a c : NodeId} (h : (t.lineage a).getLast? = (t.lineage c).getLast?) :
    t.rootModule a = t.rootModule c := by
  obtain ⟨top, htop⟩ := exists_top t c
  rw [rootModule, rootModule, h, htop]
  rfl

theorem rootModule_of_root {a : NodeId} (h : t.parent? a = none) : t.rootModule a = t.name a := by
  rw [rootModule, lineage_of_root h]
  rfl

/-! ### Data nodes -/

theorem dataNodes_cons (t : SchemaTree) (c : NodeId) (ids : List NodeId) :
    t.dataNodes (c :: ids) = if (t.kind c).isChoiceOrCase then t.dataNodes ids else c :: t.dataNodes ids := by
  rw [dataNodes, List.filter_cons]
  cases (t.kind c).isChoiceOrCase <;> rfl

theorem dataPath_eq (t : SchemaTree) (c : NodeId) :
    t.dataPath c = "" :: ((t.dataNodes (t.lineage c)).map t.name).reverse := rfl

theorem dataPath_ne_nil (t : SchemaTree) (c : NodeId) : t.dataPath c ≠ [] := List.cons_ne_nil _ _

/-- The data path of a node goes on behind that of an ancestor. -/
theorem dataPath_of_mem_ancestors {a c : NodeId} (hc : (t.kind c).isChoiceOrCase = false) (h : a ∈ t.ancestors c) :
    ∃ rest, rest ≠ [] ∧ t.dataPath c = t.dataPath a ++ rest := by
  cases hp : t.parent? c with
  | none => rw [ancestors_of_root hp] at h; cases h
  | some p =>
    rw [ancestors_of_parent hp] at h
    obtain ⟨between, hbetween⟩ := lineage_suffix_of_mem h
    refine ⟨((t.dataNodes between).map t.name).reverse ++ [t.name c], by simp, ?_⟩
    rw [dataPath_of_parent hp, hc, dataPath_eq, dataPath_eq, ← hbetween]
    simp [dataNodes]

/-! ### Offered nodes -/

/-- Parents and children are the same links, seen from both ends. -/
structure Matched (t : SchemaTree) : Prop where
  parent_of_mem : ∀ {p c : NodeId}, c ∈ t.children p → t.parent? c = some p
  mem_of_parent : ∀ {p c : NodeId}, t.parent? c = some p → c ∈ t.children p

theorem Regular.matched (ht : t.Regular) : t.Matched :=
  ⟨ht.parent_of_mem, fun hp => mem_children_iff.mpr ⟨_, ht.down hp⟩⟩

/-- What a node offers has the node, and then its ancestors, above it. -/
theorem Offers.dataNodes_ancestors {p c : NodeId} (h : Offers t p c) (ht : t.Matched) :
    t.dataNodes (t.ancestors c) = t.dataNodes (t.lineage p) := by
  induction h with
  | child hc _ => rw [ancestors_of_parent (ht.parent_of_mem hc)]
  | through hd hchoice _ ih =>
    rw [ih, lineage_of_parent (ht.parent_of_mem hd), dataNodes_cons, if_pos hchoice]

/-- A node that is offered to a choice or case is offered to the closest ancestor that is none. -/
theorem Offers.of_head? (ht : t.Matched) {p q c : NodeId} (h : Offers t q c)
    (hp : (t.dataNodes (t.lineage q)).head? = some p) : Offers t p c := by
  induction q using Nat.strongRecOn with
  | ind q ih =>
    rw [lineage_eq, dataNodes_cons] at hp
    split at hp
    · rename_i hchoice
      cases hq : t.parent? q with
      | none => rw [ancestors_of_root hq] at hp; cases hp
      | some q' =>
        rw [ancestors_of_parent hq] at hp
        exact ih q' (parent?_lt hq) (.through (ht.mem_of_parent hq) hchoice h) hp
    · cases hp
      exact h

/-- A node offers exactly the nodes whose closest ancestor, choices and cases aside, it is. -/
theorem offers_iff (ht : t.Matched) {p c : NodeId} (hp : (t.kind p).isChoiceOrCase = false) :
    Offers t p c ↔ (t.kind c).isChoiceOrCase = false ∧ t.dataParent? c = some p := by
  constructor
  · intro h
    refine ⟨h.isChoiceOrCase, ?_⟩
    rw [dataParent?, h.dataNodes_ancestors ht, lineage_eq, dataNodes_cons, hp]
    rfl
  · rintro ⟨hc, hparent⟩
    rw [dataParent?] at hparent
    cases hq : t.parent? c with
    | none => rw [ancestors_of_root hq] at hparent; cases hparent
    | some q =>
      rw [ancestors_of_parent hq, lineage_eq, dataNodes_cons] at hparent
      refine Offers.of_head? ht (.child (ht.mem_of_parent hq) hc) ?_
      rwa [lineage_eq, dataNodes_cons]

theorem offers_of_dataParent? (ht : t.Matched) {p c : NodeId} (hc : (t.kind c).isChoiceOrCase = false)
    (h : t.dataParent? c = some p) : (t.kind p).isChoiceOrCase = false ∧ Offers t p c := by
  have hp : (t.kind p).isChoiceOrCase = false := by simpa using (List.mem_filter.mp (List.mem_of_head? h)).2
  exact ⟨hp, (offers_iff ht hp).mpr ⟨hc, h⟩⟩

theorem Offers.parent?_ne_none {p c : NodeId} (h : Offers t p c) (ht : t.Regular) : t.parent? c ≠ none := by
  induction h with
  | child hc _ => simp [ht.parent_of_mem hc]
  | through _ _ _ ih => exact ih

theorem Descends.exists_offers {p c : NodeId} (h : Descends t p c) : ∃ q, Offers t q c := by
  induction h with
  | offered ho => exact ⟨_, ho⟩
  | deeper _ _ _ ih => exact ih

/-! ### Reached nodes -/

/-- Every node above is a container or list, a choice or case, or the root of a module to generate for. -/
def AllOpen (t : SchemaTree) (c : NodeId) : Prop :=
  ∀ a ∈ t.ancestors c, (t.kind a).isDirectory = true ∨ (t.kind a).isChoiceOrCase = true ∨ a ∈ t.generationRoots

/-- Every node above is a container or list, a choice or case, or one of the roots. -/
def Visited (t : SchemaTree) (roots : List NodeId) (c : NodeId) : Prop :=
  ∀ a ∈ t.ancestors c, (t.kind a).isDirectory = true ∨ (t.kind a).isChoiceOrCase = true ∨ a ∈ roots

section Visited
variable {roots : List NodeId}

theorem Visited.offered {p c : NodeId} (hp : t.Visited roots p) (h : Offers t p c) (ht : t.Regular)
    (hopen : (t.kind p).isDirectory = true ∨ (t.kind p).isChoiceOrCase = true ∨ p ∈ roots) :
    t.Visited roots c := by
  induction h with
  | child hc _ =>
    intro a ha
    rw [ancestors_of_parent (ht.parent_of_mem hc), lineage_eq] at ha
    rcases List.mem_cons.mp ha with rfl | ha
    · exact hopen
    · exact hp a ha
  | through hd hchoice _ ih =>
    refine ih (fun a ha => ?_) (.inr (.inl hchoice))
    rw [ancestors_of_parent (ht.parent_of_mem hd), lineage_eq] at ha
    rcases List.mem_cons.mp ha with rfl | ha
    · exact hopen
    · exact hp a ha

theorem Descends.visited {p c : NodeId} (h : Descends t p c) (ht : t.Regular) (hp : t.Visited roots p)
    (hopen : (t.kind p).isDirectory = true ∨ (t.kind p).isChoiceOrCase = true ∨ p ∈ roots) :
    t.Visited roots c := by
  induction h with
  | offered ho => exact hp.offered ho ht hopen
  | deeper ho hkind _ ih => exact ih (hp.offered ho ht hopen) (.inl hkind)

end Visited

/-- Above a node that is no root stands one that is neither choice nor case: the root itself is none. -/
theorem Regular.exists_dataParent (ht : t.Regular) {c : NodeId} (hparent : t.parent? c ≠ none) :
    ∃ p, t.dataParent? c = some p := by
  induction c using Nat.strongRecOn with
  | ind c ih =>
    obtain ⟨q, hq⟩ := Option.ne_none_iff_exists'.mp hparent
    rw [dataParent?, ancestors_of_parent hq, lineage_eq, dataNodes_cons]
    split
    · rename_i hchoice
      refine ih q (parent?_lt hq) fun hnone => ?_
      -- A node without parent is the root of a module, which is no choice.
      have hlt : q < t.size := Nat.lt_trans (parent?_lt hq) (lt_size_of_parent? hq)
      rw [(ht.root (ht.orphan hlt hnone)).2.2.2] at hchoice
      cases hchoice
    · exact ⟨q, rfl⟩

/-- A node that is not there is of no known kind. -/
theorem lt_size_of_kind {c : NodeId} (h : t.kind c ≠ .unknown) : c < t.size := by
  refine Decidable.byContradiction fun hge => h ?_
  have hnone : t.entries[c]? = none := Array.getElem?_eq_none (Nat.le_of_not_lt hge)
  rw [kind, node_eq, hnone]
  rfl

theorem lt_size_of_isDirectory {c : NodeId} (h : (t.kind c).isDirectory = true) : c < t.size :=
  lt_size_of_kind fun hkind => by rw [hkind] at h; cases h

theorem lt_size_of_isLeafLike {c : NodeId} (h : (t.kind c).isLeafLike = true) : c < t.size :=
  lt_size_of_kind fun hkind => by rw [hkind] at h; cases h

/-- Only modules are roots. -/
theorem Regular.parent_of_kind (ht : t.Regular) {c : NodeId} (hmodule : t.kind c ≠ .module)
    (hknown : t.kind c ≠ .unknown) : t.parent? c ≠ none :=
  fun hnone => hmodule (ht.root (ht.orphan (lt_size_of_kind hknown) hnone)).2.2.2

/-- A container or list is no root. -/
theorem Regular.parent_of_isDirectory (ht : t.Regular) {c : NodeId} (h : (t.kind c).isDirectory = true) :
    t.parent? c ≠ none :=
  ht.parent_of_kind (fun hkind => by rw [hkind] at h; cases h) (fun hkind => by rw [hkind] at h; cases h)

/-- What descends from roots is in the data tree, below a parent, and visited from them; and nothing else is. -/
theorem descends_iff (ht : t.Regular) {roots : List NodeId} (hroots : ∀ r ∈ roots, t.parent? r = none) {c : NodeId} :
    (∃ r ∈ roots, Descends t r c) ↔
      (t.kind c).isChoiceOrCase = false ∧ t.parent? c ≠ none ∧ t.Visited roots c := by
  constructor
  · rintro ⟨r, hr, hdescends⟩
    obtain ⟨p, hp⟩ := hdescends.exists_offers
    refine ⟨hp.isChoiceOrCase, hp.parent?_ne_none ht, hdescends.visited ht (fun a ha => ?_) (.inr (.inr hr))⟩
    rw [ancestors_of_root (hroots r hr)] at ha
    cases ha
  · rintro ⟨hdata, hparent, hvisited⟩
    induction c using Nat.strongRecOn with
    | ind c ih =>
      obtain ⟨p, hp⟩ := ht.exists_dataParent hparent
      have hmem := (List.mem_filter.mp (List.mem_of_head? hp)).1
      obtain ⟨hpp, hoffers⟩ := offers_of_dataParent? ht.matched hdata hp
      rcases hvisited p hmem with hdir | hchoice | hroot
      · obtain ⟨r, hr, hdescends⟩ := ih p hoffers.bounds.1 hpp (ht.parent_of_isDirectory hdir) fun a ha =>
          hvisited a (ancestors_subset hmem ha)
        exact ⟨r, hr, hdescends.step hdir hoffers⟩
      · rw [hpp] at hchoice
        cases hchoice
      · exact ⟨p, hroot, .offered hoffers⟩

theorem parent?_of_mem_generationRoots (ht : t.Regular) {r : NodeId} (h : r ∈ t.generationRoots) : t.parent? r = none := by
  obtain ⟨name, hname⟩ := mem_generationRoots h
  exact (ht.root hname).2.1

/-- What is reached is in the data tree, below a parent, and everything above it is open; and nothing else is. -/
theorem reached_iff_allOpen (ht : t.Regular) {c : NodeId} :
    Reached t c ↔ (t.kind c).isChoiceOrCase = false ∧ t.parent? c ≠ none ∧ t.AllOpen c :=
  descends_iff ht fun _ hr => parent?_of_mem_generationRoots ht hr

/-- A container or list is reached exactly if everything above it is open. -/
theorem reached_iff (ht : t.Regular) {c : NodeId} (hkind : (t.kind c).isDirectory = true) :
    Reached t c ↔ t.AllOpen c := by
  rw [reached_iff_allOpen ht]
  exact ⟨fun h => h.2.2,
    fun hopen => ⟨NodeKind.isChoiceOrCase_of_isDirectory hkind, ht.parent_of_isDirectory hkind, hopen⟩⟩

end SchemaIr.SchemaTree
