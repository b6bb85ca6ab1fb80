import SchemaIr.Loading.Tree
import SchemaIr.Proofs.Schema.Regular

/-! # Loaded trees

What loading gives is the tree of a library in which every document stands under its own name
(`Loaded.of_load`). Such a tree is regular (`Loaded.regular`): its growth refuses a second child of one
name, and adds each module once. -/

namespace SchemaIr

namespace Library
variable {lib : Library}

/-- Every document stands under its own name. -/
def Named (lib : Library) : Prop := ∀ name m, lib.get? name = some m → m.document.name = name

/-! ### Loading documents -/

theorem Named.empty : Named ∅ := fun _ _ h => by cases h

theorem Named.insert (h : lib.Named) {name : String} {m : LoadedModule} (hm : m.document.name = name) :
    Named (lib.insert name m) := fun other m' hget => by
  rw [Table.get?_insert] at hget
  split at hget
  · rename_i heq
    cases hget
    exact hm.trans heq.symm
  · exact h other m' hget

theorem Named.loadRequested {disk : Disk} {paths : List String} {queue : List Import} (h : lib.Named)
    {result : Library × List Import} (hr : loadRequested disk paths lib queue = .ok result) :
    result.1.Named := by
  induction paths generalizing lib queue with
  | nil =>
    cases hr
    exact h
  | cons path rest ih =>
    simp only [Library.loadRequested, bind, Except.bind] at hr
    split at hr
    · cases hr
    · split at hr
      · cases hr
      · rename_i document _ _
        exact ih (h.insert (m := ⟨document, path, false⟩) rfl) hr

theorem Named.loadImport {disk : Disk} {searchPaths : List String} {i : Import} (h : lib.Named)
    {result : Library × List Import} (hr : loadImport disk searchPaths lib i = .ok result) :
    result.1.Named := by
  unfold Library.loadImport at hr
  dsimp only [bind, Except.bind] at hr
  split at hr
  · cases hr
  · split at hr
    · cases hr
    · split at hr
      · rename_i heq
        cases hr
        exact h.insert heq
      · cases hr

theorem Named.loadImports {disk : Disk} {searchPaths : List String} {files : Nat} {queue : List Import}
    (h : lib.Named) {result : Library} (hr : loadImports disk searchPaths files lib queue = .ok result) :
    result.Named := by
  fun_induction Library.loadImports disk searchPaths files lib queue with
  | case1 => cases hr; exact h
  | case2 _ _ _ _ _ ih => exact ih h hr
  | case3 => cases hr
  | case4 lib i rest _ files ih =>
    simp only [bind, Except.bind] at hr
    split at hr
    · cases hr
    · rename_i result' hload
      exact ih _ _ (h.loadImport hload) hr

theorem Named.of_load {disk : Disk} {paths searchPaths : List String}
    (hr : Library.load disk paths searchPaths = .ok lib) : lib.Named := by
  simp only [load, bind, Except.bind] at hr
  split at hr
  · cases hr
  · rename_i result hreq
    exact (Named.empty.loadRequested hreq).loadImports hr

/-! ### Growing the tree -/

/-- Growth below a node: the tree stays regular and keeps its roots, and no node is lost. -/
structure Grows (t u : SchemaTree) : Prop where
  regular : t.Regular → u.Regular
  roots : u.roots = t.roots
  size_le : t.size ≤ u.size

namespace Grows
variable {t u v : SchemaTree}

theorem refl (t : SchemaTree) : Grows t t := ⟨id, rfl, Nat.le_refl _⟩

theorem trans (h₁ : Grows t u) (h₂ : Grows u v) : Grows t v :=
  ⟨h₂.regular ∘ h₁.regular, h₂.roots.trans h₁.roots, Nat.le_trans h₁.size_le h₂.size_le⟩

theorem addNewChild {parent : NodeId} (hp : parent < t.size) {n : Node} (hu : t.addNewChild parent n = .ok u) :
    Grows t u ∧ t.size < u.size := by
  unfold SchemaTree.addNewChild at hu
  split at hu
  · cases hu
  · rename_i hfree
    cases hu
    have hsize := SchemaTree.size_addChild hp n
    exact ⟨⟨fun h => h.addChild hp (by simpa using hfree), SchemaTree.roots_addChild hp n, by omega⟩, by omega⟩

mutual

theorem growNode {lib : Library} {source : LoadedModule} {parent : NodeId} {module : String} {t u : SchemaTree} :
    ∀ {n : NodeDocument}, parent < t.size → growNode lib source parent module t n = .ok u → Grows t u
  | ⟨_, _, _, _, _, _, _, _⟩, hp, hu => by
    rw [Library.growNode] at hu
    split at hu
    · dsimp only at hu
      split at hu
      · rename_i grown hgrown
        obtain ⟨hg, hlt⟩ := Grows.addNewChild hp hgrown
        exact hg.trans (growNodes hlt hu)
      · cases hu
    · cases hu

theorem growNodes {lib : Library} {source : LoadedModule} {parent : NodeId} {module : String} {t u : SchemaTree} :
    ∀ {ns : List NodeDocument}, parent < t.size → growNodes lib source parent module t ns = .ok u → Grows t u
  | [], _, hu => by
    cases hu
    exact refl _
  | _ :: _, hp, hu => by
    rw [Library.growNodes] at hu
    simp only [bind, Except.bind] at hu
    split at hu
    · cases hu
    · rename_i v hv
      have hg := growNode hp hv
      exact hg.trans (growNodes (Nat.lt_of_lt_of_le hp hg.size_le) hu)

end

end Grows

/-- A module that is new keeps the tree regular and adds its name to the roots. -/
theorem growModule_regular {t u : SchemaTree} {m : LoadedModule} (h : t.Regular)
    (hnew : t.roots.get? m.document.name = none) (hu : growModule lib t m = .ok u) :
    u.Regular ∧ ∀ name, u.roots.get? name ≠ none → t.roots.get? name ≠ none ∨ name = m.document.name := by
  have hg := Grows.growNodes (by rw [SchemaTree.size_addModule]; exact Nat.lt_succ_self _) hu
  refine ⟨hg.regular (h.addModule hnew), fun name hname => ?_⟩
  rw [hg.roots, show (SchemaTree.addModule t _).roots = t.roots.insert m.document.name t.size from rfl,
    Table.get?_insert] at hname
  split at hname
  · exact Or.inr ‹_›
  · exact Or.inl hname

theorem growModules_regular {ms : List LoadedModule} {t u : SchemaTree} (h : t.Regular)
    (hnodup : (ms.map (·.document.name)).Nodup) (hnew : ∀ m ∈ ms, t.roots.get? m.document.name = none)
    (hu : ms.foldlM (growModule lib) t = .ok u) : u.Regular := by
  induction ms generalizing t with
  | nil =>
    cases hu
    exact h
  | cons m rest ih =>
    rw [List.foldlM_cons] at hu
    simp only [bind, Except.bind] at hu
    split at hu
    · cases hu
    · rename_i v hv
      obtain ⟨hm, hrest⟩ := List.nodup_cons.mp hnodup
      obtain ⟨hreg, hroots⟩ := growModule_regular h (hnew m List.mem_cons_self) hv
      refine ih hreg hrest (fun m' hm' => ?_) hu
      rcases hname : v.roots.get? m'.document.name with _ | r
      · rfl
      · rcases hroots m'.document.name (by simp [hname]) with hold | heq
        · exact absurd (hnew m' (List.mem_cons_of_mem _ hm')) hold
        · exact absurd (List.mem_map.mpr ⟨m', hm', heq⟩) hm

/-- The names of the documents are those of the table. -/
theorem Named.map_name_values (h : lib.Named) : lib.values.map (·.document.name) = lib.names := by
  rw [Table.values, Table.names, List.map_map]
  exact List.map_congr_left fun e he => h _ _ (Table.get?_eq_some_iff.mpr he)

theorem Named.regular (h : lib.Named) {t : SchemaTree} (ht : lib.tree = .ok t) : t.Regular :=
  growModules_regular .empty (h.map_name_values ▸ lib.names_nodup) (fun _ _ => rfl) ht

end Library

/-! ### Loaded trees -/

/-- A tree as loading gives it: that of a library in which every document stands under its own name. -/
def SchemaTree.Loaded (t : SchemaTree) : Prop := ∃ lib : Library, lib.Named ∧ lib.tree = .ok t

namespace SchemaTree.Loaded
variable {t : SchemaTree}

theorem of_load {disk : Disk} {paths searchPaths : List String}
    (h : SchemaTree.load disk paths searchPaths = .ok t) : t.Loaded := by
  simp only [SchemaTree.load, bind, Except.bind] at h
  split at h
  · cases h
  · rename_i lib hlib
    exact ⟨lib, Library.Named.of_load hlib, h⟩

theorem regular (h : t.Loaded) : t.Regular := by
  obtain ⟨lib, hnamed, ht⟩ := h
  exact hnamed.regular ht

end SchemaTree.Loaded

end SchemaIr
