import Mathlib.Data.List.Pairwise
import SchemaIr.Proofs.Schema.Unshadowed
import SchemaIr.Proofs.Schema.Walks
import SchemaIr.Schema.Steps

/-! # Trees that are built step by step

Parents are read off one kind of link and children off another. What the steps have added tells both (`Records`): an
older node is the parent of a node if the node was added under it, and the child of a name is the one that was added
last. So the links up and down form a forest (`Forest`), on which walks end either way. -/

namespace SchemaIr

/-- A child that was added, by its parent, its name and its number. -/
structure Addition where
  parent : NodeId
  name : String
  id : NodeId

/-- Two children were not added under one node and name. -/
def Addition.Apart (a b : Addition) : Prop := ¬(a.parent = b.parent ∧ a.name = b.name)

instance : Std.Symm Addition.Apart := ⟨fun _ _ h hsame => h ⟨hsame.1.symm, hsame.2.symm⟩⟩

/-- The child that was added last under a node and name. -/
def latest? (log : List Addition) (parent : NodeId) (name : String) : Option NodeId :=
  (log.reverse.find? fun a => a.parent == parent && a.name == name).map (·.id)

theorem latest?_append (log : List Addition) (a : Addition) (parent : NodeId) (name : String) :
    latest? (log ++ [a]) parent name =
      if parent = a.parent ∧ name = a.name then some a.id else latest? log parent name := by
  rw [latest?, List.reverse_append, List.reverse_singleton, List.singleton_append, List.find?_cons]
  by_cases h : parent = a.parent ∧ name = a.name
  · obtain ⟨rfl, rfl⟩ := h
    simp
  · have hother : (a.parent == parent && a.name == name) = false :=
      Bool.eq_false_iff.mpr fun heq => h <| by
        simpa [Bool.and_eq_true, eq_comm (a := a.parent), eq_comm (a := a.name)] using heq
    rw [hother, if_neg h, latest?]

theorem exists_of_latest? {log : List Addition} {parent id : NodeId} {name : String}
    (h : latest? log parent name = some id) : ∃ a ∈ log, a.parent = parent ∧ a.name = name ∧ a.id = id := by
  obtain ⟨a, ha, rfl⟩ := Option.map_eq_some_iff.mp h
  obtain ⟨hparent, hname⟩ : a.parent = parent ∧ a.name = name := by simpa using List.find?_some ha
  exact ⟨a, List.mem_reverse.mp (List.mem_of_find?_eq_some ha), hparent, hname, rfl⟩

theorem latest?_eq_none {log : List Addition} {parent : NodeId} {name : String} :
    latest? log parent name = none ↔ ∀ a ∈ log, ¬(a.parent = parent ∧ a.name = name) := by
  simp [latest?, List.find?_eq_none]

namespace SchemaTree

variable {t u : SchemaTree} {log : List Addition}

/-! ### Additions -/

/-- The child that a step adds. A name that is taken keeps a new child away. -/
def added? (t : SchemaTree) : GrowthStep → Option Addition
  | .addChild parent node => (t.nextChild? parent).map (⟨parent, node.name, ·⟩)
  | .addNewChild parent node =>
    if (t.child? parent node.name).isSome then none else (t.nextChild? parent).map (⟨parent, node.name, ·⟩)
  | .addOwnChild parent name _ => (t.nextChild? parent).map (⟨parent, name, ·⟩)
  | _ => none

/-- The children that steps add, in the order of the steps. -/
def additions (t : SchemaTree) : List GrowthStep → List Addition
  | [] => []
  | step :: rest => (t.added? step).toList ++ (t.take step).1.additions rest

/-- What a step makes of a tree, and the child that it adds. -/
inductive Change (t : SchemaTree) : SchemaTree → Option Addition → Prop
  | module (info : ModuleInfo) : Change t (t.addModule info) none
  | child {parent : NodeId} (node : Node) : parent < t.size →
      Change t (t.addChild parent node) (some ⟨parent, node.name, t.size⟩)
  | restated (id : NodeId) (f : Node → Node) : (∀ n, (f n).name = n.name) → Change t (t.restate id f) none
  | unchanged : Change t t none

theorem take_addNewChild (t : SchemaTree) (parent : NodeId) (node : Node) : t.take (.addNewChild parent node) =
    if (t.child? parent node.name).isSome then (t, .error ⟨t.pathString parent, node.name⟩)
    else (t.addChild parent node, .ok (t.nextChild? parent)) := by
  rw [take, addNewChild]
  by_cases htaken : (t.child? parent node.name).isSome = true
  · rw [if_pos htaken, if_pos htaken]
  · rw [if_neg htaken, if_neg htaken]

/-- Adding a child changes nothing where there is no parent for it. -/
theorem change_addChild (t : SchemaTree) (parent : NodeId) (node : Node) {name : String} (hname : node.name = name) :
    Change t (t.addChild parent node) ((t.nextChild? parent).map (⟨parent, name, ·⟩)) := by
  subst hname
  by_cases hp : parent < t.size
  · rw [nextChild?, if_pos hp]
    exact .child node hp
  · have hsame : t.addChild parent node = t := dif_neg hp
    rw [nextChild?, if_neg hp, hsame]
    exact .unchanged

theorem change_take (t : SchemaTree) (step : GrowthStep) : Change t (t.take step).1 (t.added? step) := by
  cases step with
  | module name uri shortName => exact .module _
  | addModule info => exact .module info
  | addChild parent node => exact change_addChild t parent node rfl
  | addNewChild parent node =>
    rw [take_addNewChild, added?]
    split
    · exact .unchanged
    · exact change_addChild t parent node rfl
  | addOwnChild parent name kind => exact change_addChild t parent _ (kind.name_node name _)
  | setConfig id config => exact .restated id (fun n => { n with config := .ofStatement (some config) }) fun _ => rfl
  | setModule id module => exact .restated id (fun n => { n with module }) fun _ => rfl
  | setDefault id value => exact .restated id (fun n => { n with default := some value }) fun _ => rfl

/-! ### What the additions tell -/

/-- The additions tell the links of a tree. -/
structure Records (t : SchemaTree) (log : List Addition) : Prop where
  /-- Nodes are numbered in the order in which they were added, so each was added once. -/
  increasing : log.Pairwise (·.id < ·.id)
  bound : ∀ a ∈ log, a.id < t.size
  name_eq : ∀ a ∈ log, t.name a.id = a.name
  parent?_eq : ∀ p c : NodeId, t.parent? c = some p ↔ ∃ a ∈ log, a.parent = p ∧ a.id = c
  child?_eq : ∀ (p : NodeId) (name : String), t.child? p name = latest? log p name

namespace Records

theorem empty : Records .empty [] where
  increasing := .nil
  bound _ ha := by cases ha
  name_eq _ ha := by cases ha
  parent?_eq p c := by simp [SchemaTree.empty, parent?]
  child?_eq p name := by simp [SchemaTree.empty, SchemaTree.child?_eq, latest?]

theorem addModule (h : Records t log) (info : ModuleInfo) : Records (t.addModule info) log where
  increasing := h.increasing
  bound a ha := by
    rw [size_addModule]
    exact Nat.lt_succ_of_lt (h.bound a ha)
  name_eq a ha := by
    rw [SchemaTree.name, node_addModule, if_neg (Nat.ne_of_lt (h.bound a ha))]
    exact h.name_eq a ha
  parent?_eq p c := by
    rw [parent?_addModule]
    exact h.parent?_eq p c
  child?_eq p name := by
    rw [child?_addModule]
    exact h.child?_eq p name

theorem addChild (h : Records t log) {parent : NodeId} (hp : parent < t.size) (node : Node) :
    Records (t.addChild parent node) (log ++ [⟨parent, node.name, t.size⟩]) where
  increasing := by
    refine List.pairwise_append.mpr ⟨h.increasing, List.pairwise_singleton _ _, fun a ha b hb => ?_⟩
    rw [List.mem_singleton.mp hb]
    exact h.bound a ha
  bound a ha := by
    rw [size_addChild hp]
    rcases List.mem_append.mp ha with ha | ha
    · exact Nat.lt_succ_of_lt (h.bound a ha)
    · rw [List.mem_singleton.mp ha]
      exact Nat.lt_succ_self _
  name_eq a ha := by
    rw [SchemaTree.name, node_addChild hp]
    rcases List.mem_append.mp ha with ha | ha
    · rw [if_neg (Nat.ne_of_lt (h.bound a ha))]
      exact h.name_eq a ha
    · rw [List.mem_singleton.mp ha, if_pos rfl]
  parent?_eq p c := by
    rw [parent?_addChild hp]
    by_cases hc : c = t.size
    · -- None of the older additions is of the new node.
      have hold : ¬∃ a ∈ log, a.parent = p ∧ a.id = c := by
        rintro ⟨a, ha, -, hid⟩
        exact Nat.ne_of_lt (h.bound a ha) (hid.trans hc)
      simp only [List.mem_append, List.mem_singleton, or_and_right, exists_or, hold, false_or, exists_eq_left]
      simp [hc]
    · rw [if_neg hc, h.parent?_eq]
      simp only [List.mem_append, List.mem_singleton, or_and_right, exists_or, exists_eq_left]
      simp [Ne.symm hc]
  child?_eq p name := by
    rw [child?_addChild hp, latest?_append, h.child?_eq]

theorem restate (h : Records t log) (id : NodeId) (f : Node → Node) (hf : ∀ n, (f n).name = n.name) :
    Records (t.restate id f) log where
  increasing := h.increasing
  bound a ha := by
    rw [size_restate]
    exact h.bound a ha
  name_eq a ha := by
    rw [SchemaTree.name, node_restate t id hf]
    exact h.name_eq a ha
  parent?_eq p c := by
    rw [parent?_restate]
    exact h.parent?_eq p c
  child?_eq p name := by
    rw [child?_restate]
    exact h.child?_eq p name

theorem change (h : Records t log) {a : Option Addition} (hchange : Change t u a) : Records u (log ++ a.toList) := by
  cases hchange with
  | module info => simpa using h.addModule info
  | child node hp => exact h.addChild hp node
  | restated id f hf => simpa using h.restate id f hf
  | unchanged => simpa using h

theorem grow (h : Records t log) (steps : List GrowthStep) : Records (t.grow steps).1 (log ++ t.additions steps) := by
  induction steps generalizing t log with
  | nil => simpa [SchemaTree.grow, additions] using h
  | cons step rest ih =>
    have hnext := ih (h.change (change_take t step))
    rwa [List.append_assoc] at hnext

end Records

/-! ### Additions under fresh names -/

/-- A step gives no child a name that is taken. Where it is the step's own matter to see to that, it does. -/
def Fresh (t : SchemaTree) : GrowthStep → Prop
  | .addChild parent node => t.child? parent node.name = none
  | .addOwnChild parent name _ => t.child? parent name = none
  | _ => True

/-- None of the steps gives a child a name that is taken by then. -/
def FreshAlong (t : SchemaTree) : List GrowthStep → Prop
  | [] => True
  | step :: rest => t.Fresh step ∧ (t.take step).1.FreshAlong rest

theorem Fresh.child?_eq_none {step : GrowthStep} (h : t.Fresh step) {a : Addition} (ha : t.added? step = some a) :
    t.child? a.parent a.name = none := by
  cases step with
  | addChild parent node =>
    obtain ⟨id, -, rfl⟩ := Option.map_eq_some_iff.mp ha
    exact h
  | addNewChild parent node =>
    simp only [added?] at ha
    split at ha
    · cases ha
    · rename_i hfree
      obtain ⟨id, -, rfl⟩ := Option.map_eq_some_iff.mp ha
      simpa using hfree
  | addOwnChild parent name kind =>
    obtain ⟨id, -, rfl⟩ := Option.map_eq_some_iff.mp ha
    exact h
  | _ => cases ha

/-- No two children were added under one node and name. -/
def Distinct (log : List Addition) : Prop := log.Pairwise Addition.Apart

theorem Records.distinct_grow (h : Records t log) (hdistinct : Distinct log) {steps : List GrowthStep}
    (hfresh : t.FreshAlong steps) : Distinct (log ++ t.additions steps) := by
  induction steps generalizing t log with
  | nil => simpa [additions] using hdistinct
  | cons step rest ih =>
    obtain ⟨hstep, hrest⟩ := hfresh
    have hnext : Distinct (log ++ (t.added? step).toList) := by
      refine List.pairwise_append.mpr ⟨hdistinct, ?_, fun a ha b hb => ?_⟩
      · cases t.added? step <;> simp
      · have hnone := hstep.child?_eq_none (Option.mem_toList.mp hb)
        rw [h.child?_eq] at hnone
        exact latest?_eq_none.mp hnone a ha
    have hall := ih (h.change (change_take t step)) hnext hrest
    rwa [List.append_assoc] at hall

theorem latest?_of_mem (hdistinct : Distinct log) {a : Addition} (ha : a ∈ log) :
    latest? log a.parent a.name = some a.id := by
  cases hlatest : latest? log a.parent a.name with
  | none => exact absurd ⟨rfl, rfl⟩ (latest?_eq_none.mp hlatest a ha)
  | some id =>
    obtain ⟨b, hb, hparent, hname, rfl⟩ := exists_of_latest? hlatest
    have hsame : a = b := Classical.byContradiction fun hne =>
      hdistinct.forall ha hb hne ⟨hparent.symm, hname.symm⟩
    rw [hsame]

theorem Records.unshadowed (h : Records t log) (hdistinct : Distinct log) : t.Unshadowed := fun p c hparent => by
  obtain ⟨a, ha, rfl, rfl⟩ := (h.parent?_eq p c).mp hparent
  rw [h.name_eq a ha, h.child?_eq]
  exact latest?_of_mem hdistinct ha

/-! ### Steps that fail -/

/-- A step that fails leaves the tree as it is. -/
theorem take_of_error {step : GrowthStep} {d : DuplicateChild} (h : (t.take step).2 = .error d) :
    (t.take step).1 = t := by
  cases step with
  | addNewChild parent node =>
    rw [take_addNewChild] at h ⊢
    split at h
    · rename_i htaken
      rw [if_pos htaken]
    · cases h
  | _ => cases h

theorem take_addNewChild_eq_error {parent : NodeId} {node : Node} {d : DuplicateChild} :
    (t.take (.addNewChild parent node)).2 = .error d ↔
      (t.child? parent node.name).isSome = true ∧ d = ⟨t.pathString parent, node.name⟩ := by
  rw [take_addNewChild]
  split
  · rename_i htaken
    exact ⟨fun h => ⟨htaken, (Except.error.inj h).symm⟩, fun h => h.2 ▸ rfl⟩
  · rename_i hfree
    exact ⟨nofun, fun h => absurd h.1 hfree⟩

/-- A child is refused where an addition has its name. -/
theorem Records.take_addNewChild_eq_error (h : Records t log) {parent : NodeId} {node : Node} {d : DuplicateChild} :
    (t.take (.addNewChild parent node)).2 = .error d ↔
      (∃ a ∈ log, a.parent = parent ∧ a.name = node.name) ∧ d = ⟨t.pathString parent, node.name⟩ := by
  have htaken : (t.child? parent node.name).isSome = true ↔ ∃ a ∈ log, a.parent = parent ∧ a.name = node.name := by
    rw [← Option.ne_none_iff_isSome, h.child?_eq, Ne, latest?_eq_none]
    simp
  rw [SchemaTree.take_addNewChild_eq_error, htaken]

/-! ### Runs of steps -/

theorem grow_append (t : SchemaTree) (steps after : List GrowthStep) :
    (t.grow (steps ++ after)).1 = ((t.grow steps).1.grow after).1 := by
  induction steps generalizing t with
  | nil => rfl
  | cons step rest ih => exact ih (t.take step).1

/-- What a step makes of a tree that steps have built is built by one step more. -/
theorem exists_built_take (h : ∃ steps, built steps = t) (step : GrowthStep) :
    ∃ steps, built steps = (t.take step).1 := by
  obtain ⟨steps, rfl⟩ := h
  exact ⟨steps ++ [step], grow_append empty steps [step]⟩

theorem Grown.take (h : t.Grown) (step : GrowthStep) : (t.take step).1.Grown := by
  cases step with
  | module name uri shortName => exact h.addModule _
  | addModule info => exact h.addModule info
  | addChild parent node => exact h.addChild parent node
  | addNewChild parent node =>
    rw [take_addNewChild]
    split
    · exact h
    · exact h.addChild parent node
  | addOwnChild parent name kind => exact h.addChild parent _
  | setConfig id config => exact h.setConfig id config
  | setModule id module => exact h.setModule id module
  | setDefault id value => exact h.setDefault id value

/-- The trees that grow are those that steps build. -/
theorem grown_iff : t.Grown ↔ ∃ steps, built steps = t := by
  constructor
  · intro h
    induction h with
    | empty => exact ⟨[], rfl⟩
    | addModule info _ ih => exact exists_built_take ih (.addModule info)
    | addChild parent node _ ih => exact exists_built_take ih (.addChild parent node)
    | setConfig id config _ ih => exact exists_built_take ih (.setConfig id config)
    | setModule id module _ ih => exact exists_built_take ih (.setModule id module)
    | setDefault id value _ ih => exact exists_built_take ih (.setDefault id value)
  · rintro ⟨steps, rfl⟩
    have hgrow : ∀ {t : SchemaTree}, t.Grown → (t.grow steps).1.Grown := by
      induction steps with
      | nil => exact id
      | cons step rest ih => exact fun h => ih (h.take step)
    exact hgrow .empty

/-! ### The forest -/

/-- The links up and down agree as far as both go, and lead from older to younger nodes. So what goes on along them,
    node by node, comes to an end. -/
structure Forest (t : SchemaTree) : Prop where
  older : ∀ {p c : NodeId}, t.parent? c = some p → p < c
  up : ∀ {p c : NodeId} {name : String}, t.child? p name = some c → t.parent? c = some p ∧ t.name c = name
  climb_wellFounded : WellFounded fun p c : NodeId => t.parent? c = some p
  descent_wellFounded : WellFounded fun c p : NodeId => c ∈ t.children p
  /-- A walk up goes from parent to parent until there is none. -/
  climb : ∀ c, (t.lineage c).IsChain (fun a b => t.parent? a = some b) ∧
    ∃ top, (t.lineage c).getLast? = some top ∧ t.parent? top = none
  isConfig_step : ∀ c, t.isConfig c = (t.node c).config.statement.getD ((t.parent? c).elim true t.isConfig)
  dataPath_step : ∀ c, t.dataPath c =
    (t.parent? c).elim [""] t.dataPath ++ if (t.kind c).isChoiceOrCase then [] else [t.name c]
  dataParent?_step : ∀ c, t.dataParent? c =
    (t.parent? c).bind fun p => if (t.kind p).isChoiceOrCase then t.dataParent? p else some p
  rootModule_step : ∀ c, t.rootModule c = (t.parent? c).elim (t.name c) t.rootModule
  dataChildren_step : ∀ p, t.dataChildren p =
    (t.children p).flatMap fun c => if (t.kind c).isChoiceOrCase then t.dataChildren c else [c]

theorem Grown.forest (h : t.Grown) : Forest t where
  older := parent?_lt
  up := h.rooted.up
  climb_wellFounded := Subrelation.wf (fun hp => parent?_lt hp) Nat.lt_wfRel.wf
  descent_wellFounded := by
    refine Subrelation.wf (fun {c p} hc => ?_) (measure fun id => t.size - id).wf
    have hbounds : p < c ∧ c < t.size := mem_children_bounds hc
    exact Nat.sub_lt_sub_left (Nat.lt_trans hbounds.1 hbounds.2) hbounds.1
  climb c := by
    obtain ⟨top, htop⟩ := exists_top t c
    exact ⟨isChain_lineage t c, top, htop, parent?_of_top htop⟩
  isConfig_step := isConfig_eq t
  dataPath_step := dataPath_eq_append t
  dataParent?_step := dataParent?_eq t
  rootModule_step := rootModule_eq t
  dataChildren_step := dataChildren_eq t

/-- Steps build a forest, in which parents and children are as the additions tell. A child is refused where its name is
    taken, and a step that fails might as well have been left out. Where no step gives a child a name that is taken,
    each node with a parent is the child of its name. -/
theorem built_forest (steps : List GrowthStep) :
    Records (built steps) (empty.additions steps) ∧ Forest (built steps) ∧
      (∀ (parent : NodeId) (node : Node) (d : DuplicateChild),
        ((built steps).take (.addNewChild parent node)).2 = .error d ↔
          (∃ a ∈ empty.additions steps, a.parent = parent ∧ a.name = node.name) ∧
            d = ⟨(built steps).pathString parent, node.name⟩) ∧
      (∀ (step : GrowthStep) (d : DuplicateChild) (after : List GrowthStep),
        ((built steps).take step).2 = .error d → built (steps ++ step :: after) = built (steps ++ after)) ∧
      (empty.FreshAlong steps → (built steps).Unshadowed) := by
  have hrecords : Records (built steps) (empty.additions steps) := Records.empty.grow steps
  have hgrown : (built steps).Grown := grown_iff.mpr ⟨steps, rfl⟩
  refine ⟨hrecords, hgrown.forest, fun _ _ _ => hrecords.take_addNewChild_eq_error, fun step d after hd => ?_,
    fun hfresh => hrecords.unshadowed (Records.empty.distinct_grow .nil hfresh)⟩
  rw [built, built, grow_append, grow_append]
  have hsame : ((built steps).take step).1 = built steps := take_of_error hd
  show (((built steps).take step).1.grow after).1 = ((built steps).grow after).1
  rw [hsame]

/-- A module with a container, under which a name is tried twice. -/
def sampleSteps : List GrowthStep :=
  [.module "m" "urn:m" none, .addOwnChild 0 "a" .container, .addNewChild 1 (.ofKind "b" .leaf "m"),
    .addNewChild 1 (.ofKind "b" .choice "m"), .addOwnChild 1 "c" (.list none)]

theorem sampleSteps_unshadowed : empty.FreshAlong sampleSteps ∧ (built sampleSteps).Unshadowed := by
  have hfresh : empty.FreshAlong sampleSteps := ⟨trivial, rfl, trivial, trivial, rfl, trivial⟩
  exact ⟨hfresh, (built_forest sampleSteps).2.2.2.2 hfresh⟩

end SchemaTree

end SchemaIr
