import SchemaIr.Proofs.Diagnostic.Order
import SchemaIr.Proofs.Directory.Discovery
import SchemaIr.Proofs.Schema.Alternatives
import SchemaIr.Proofs.Schema.Unshadowed

/-! # What discovery tells

Discovery visits the nodes that have nothing but the given roots, containers, lists, choices and cases above them, and
tells of each what it is by itself. It fails exactly if it visits a node that has no place in a schema, and then tells
of each such node once; otherwise its tables hold the directories to generate and the enumerated leaves, and nothing
else (`discover_discovers`). -/

namespace SchemaIr

namespace Discovery
open SchemaTree (Descends DistinctPaths Grown Regular Unshadowed)

variable {t : SchemaTree} {roots : List NodeId} {compress : Bool}

/-! ### What is to be told -/

/-- A node of a module, or of no known kind, below another node. -/
structure Misplaced (t : SchemaTree) (roots : List NodeId) (id : NodeId) : Prop where
  below : t.parent? id ≠ none
  visited : t.Visited roots id
  kind : t.kind id = .module ∨ t.kind id = .unknown

/-- A list, or a container that compression does not merge into the node around it: a choice or case offers it, or it
    neither parts configuration from state nor surrounds a list. -/
structure Generated (t : SchemaTree) (roots : List NodeId) (compress : Bool) (id : NodeId) : Prop where
  visited : t.Visited roots id
  kept : t.kind id = .list ∨ t.kind id = .container ∧
    (compress = false ∨ (∃ p, t.parent? id = some p ∧ (t.kind p).isChoiceOrCase = true) ∨
      t.isConfigOrState id = false ∧ t.isListWrapper id = false)

/-- A leaf or leaf-list with an enumeration or identityref among the alternatives of its type. -/
structure Enumerated (t : SchemaTree) (roots : List NodeId) (id : NodeId) : Prop where
  visited : t.Visited roots id
  kind : t.kind id = .leaf ∨ t.kind id = .leafList
  type : ∃ type m, (t.node id).type = some type ∧ type.IsAlternative m ∧ m.isEnumerated = true

theorem Misplaced.lt_size {id : NodeId} (h : Misplaced t roots id) : id < t.size := by
  obtain ⟨p, hp⟩ := Option.ne_none_iff_exists'.mp h.below
  exact SchemaTree.lt_size_of_parent? hp

theorem Misplaced.isChoiceOrCase {id : NodeId} (h : Misplaced t roots id) : (t.kind id).isChoiceOrCase = false := by
  rcases h.kind with hk | hk <;> rw [hk] <;> rfl

theorem Generated.isDirectory {id : NodeId} (h : Generated t roots compress id) : (t.kind id).isDirectory = true := by
  rcases h.kept with hk | ⟨hk, -⟩ <;> rw [hk] <;> rfl

theorem Enumerated.isLeafLike {id : NodeId} (h : Enumerated t roots id) : (t.kind id).isLeafLike = true := by
  rcases h.kind with hk | hk <;> rw [hk] <;> rfl

theorem Enumerated.isChoiceOrCase {id : NodeId} (h : Enumerated t roots id) : (t.kind id).isChoiceOrCase = false := by
  rcases h.kind with hk | hk <;> rw [hk] <;> rfl

theorem Enumerated.lt_size {id : NodeId} (h : Enumerated t roots id) : id < t.size :=
  SchemaTree.lt_size_of_kind fun hkind => by rcases h.kind with hk | hk <;> rw [hk] at hkind <;> cases hkind

/-- The diagnostic of a misplaced node. -/
def misplacedError (t : SchemaTree) (id : NodeId) : Diagnostic := .unknownKind (t.pathString id) (t.kind id).name

/-- What discovery is to give: the errors of all misplaced nodes in the order of their paths, or, if there is none, the
    two tables. -/
inductive Discovers (t : SchemaTree) (roots : List NodeId) (compress : Bool) : Except Diagnostics Entities → Prop
  | misplaced (ids : List NodeId) : ids ≠ [] → (∀ id, id ∈ ids ↔ Misplaced t roots id) →
      (ids.map t.pathString).Pairwise (· < ·) → Discovers t roots compress (.error ⟨ids.map (misplacedError t)⟩)
  | found {entities : Entities} : (∀ id, ¬Misplaced t roots id) →
      (∀ path m, entities.directories.get? path = some m ↔
        ∃ id, m = .schema id ∧ t.pathString id = path ∧ Generated t roots compress id) →
      (∀ path id, entities.enumLeaves.get? path = some id ↔ t.pathString id = path ∧ Enumerated t roots id) →
      Discovers t roots compress (.ok entities)

/-! ### What is found -/

theorem isMerged_eq_false_iff {id : NodeId} : isMerged t compress id = false ↔ compress = false ∨
    (∃ p, t.parent? id = some p ∧ (t.kind p).isChoiceOrCase = true) ∨
      t.isConfigOrState id = false ∧ t.isListWrapper id = false := by
  unfold isMerged isElided
  cases compress <;> cases t.isConfigOrState id <;> cases t.isListWrapper id <;> simp [Option.any_eq_true]

theorem isMerged_of_list {id : NodeId} (h : t.kind id = .list) : isMerged t compress id = false := by
  refine isMerged_eq_false_iff.mpr (.inr (.inr ⟨?_, ?_⟩))
  · simp [SchemaTree.isConfigOrState, h]
  · simp [SchemaTree.isListWrapper, SchemaTree.wrappedList?, h]

theorem isEnumLeaf_iff {id : NodeId} : isEnumLeaf t id = true ↔
    ∃ type m, (t.node id).type = some type ∧ type.IsAlternative m ∧ m.isEnumerated = true := by
  unfold isEnumLeaf
  cases (t.node id).type with
  | none => simp
  | some type => simp [TypeDescriptor.containsEnumerated_iff]

theorem unknownKind_mem_own_iff {c id : NodeId} : .unknownKind id ∈ own t compress c ↔
    id = c ∧ (t.kind c = .module ∨ t.kind c = .unknown) := by
  unfold own leafFinding
  cases t.kind c <;> cases isMerged t compress c <;> cases isEnumLeaf t c <;> simp

section Regular
variable (ht : t.Regular) (hroots : ∀ r ∈ roots, ∃ name, t.roots.get? name = some r)
include ht hroots

/-- What is visited below the roots is found to be what it is by itself. -/
theorem mem_findings_visited_iff {f : Finding} : f ∈ findings t roots [] compress ↔
    ∃ c, (t.kind c).isChoiceOrCase = false ∧ t.parent? c ≠ none ∧ t.Visited roots c ∧ f ∈ own t compress c := by
  have hparent : ∀ r ∈ roots, t.parent? r = none := fun r hr => by
    obtain ⟨name, hname⟩ := hroots r hr
    exact (ht.root hname).2.1
  rw [mem_findings_of_roots_iff ht hroots]
  refine exists_congr fun c => ?_
  rw [SchemaTree.descends_iff ht hparent, and_iff_right (passes_nil t c), and_assoc, and_assoc]

theorem directory_mem_visited_iff {id : NodeId} :
    .directory id ∈ findings t roots [] compress ↔ Generated t roots compress id := by
  rw [mem_findings_visited_iff ht hroots]
  constructor
  · rintro ⟨c, -, -, hvisited, hown⟩
    obtain ⟨rfl, hkind, hmerged⟩ := directory_mem_own_iff.mp hown
    refine ⟨hvisited, ?_⟩
    cases hk : t.kind id <;> rw [hk] at hkind <;> cases hkind
    · exact .inr ⟨rfl, isMerged_eq_false_iff.mp hmerged⟩
    · exact .inl rfl
  · intro h
    have hkind := h.isDirectory
    have hmerged : isMerged t compress id = false := by
      rcases h.kept with hk | ⟨-, hkept⟩
      · exact isMerged_of_list hk
      · exact isMerged_eq_false_iff.mpr hkept
    exact ⟨id, NodeKind.isChoiceOrCase_of_isDirectory hkind, ht.parent_of_isDirectory hkind, h.visited,
      directory_mem_own_iff.mpr ⟨rfl, hkind, hmerged⟩⟩

theorem enumLeaf_mem_visited_iff {id : NodeId} :
    .enumLeaf id ∈ findings t roots [] compress ↔ Enumerated t roots id := by
  rw [mem_findings_visited_iff ht hroots]
  constructor
  · rintro ⟨c, -, -, hvisited, hown⟩
    obtain ⟨rfl, hkind, henum⟩ := enumLeaf_mem_own_iff.mp hown
    refine ⟨hvisited, ?_, isEnumLeaf_iff.mp henum⟩
    cases hk : t.kind id <;> rw [hk] at hkind <;> cases hkind
    · exact .inl rfl
    · exact .inr rfl
  · intro h
    have hbelow : t.parent? id ≠ none := by
      rcases h.kind with hk | hk <;> exact ht.parent_of_kind (by simp [hk]) (by simp [hk])
    exact ⟨id, h.isChoiceOrCase, hbelow, h.visited,
      enumLeaf_mem_own_iff.mpr ⟨rfl, h.isLeafLike, isEnumLeaf_iff.mpr h.type⟩⟩

theorem unknownKind_mem_visited_iff {id : NodeId} :
    .unknownKind id ∈ findings t roots [] compress ↔ Misplaced t roots id := by
  rw [mem_findings_visited_iff ht hroots]
  constructor
  · rintro ⟨c, -, hbelow, hvisited, hown⟩
    obtain ⟨rfl, hkind⟩ := unknownKind_mem_own_iff.mp hown
    exact ⟨hbelow, hvisited, hkind⟩
  · intro h
    exact ⟨id, h.isChoiceOrCase, h.below, h.visited, unknownKind_mem_own_iff.mpr ⟨rfl, h.kind⟩⟩

end Regular

/-! ### What is told -/

variable {found : List Finding}

/-- Where directories differ in their paths, each stands under its own. -/
theorem get?_directories_iff (h : ∀ a b, .directory a ∈ found → .directory b ∈ found →
    t.pathString a = t.pathString b → a = b) {path : String} {m : MappedDirectory} :
    (directories t found).get? path = some m ↔
      ∃ id, m = .schema id ∧ t.pathString id = path ∧ .directory id ∈ found := by
  constructor
  · intro hget
    obtain ⟨id, rfl, hmem, hpath⟩ := get?_directories_eq_some hget
    exact ⟨id, rfl, hpath, hmem⟩
  · rintro ⟨id, rfl, rfl, hmem⟩
    obtain ⟨e, he⟩ := exists_get?_directories (t := t) hmem
    obtain ⟨e', heq, hmem', hpath⟩ := get?_directories_eq_some he
    cases heq
    rw [he, h e id hmem' hmem hpath]

theorem get?_enumLeaves_iff (h : ∀ a b, .enumLeaf a ∈ found → .enumLeaf b ∈ found →
    t.pathString a = t.pathString b → a = b) {path : String} {id : NodeId} :
    (enumLeaves t found).get? path = some id ↔ t.pathString id = path ∧ .enumLeaf id ∈ found := by
  constructor
  · intro hget
    obtain ⟨hmem, hpath⟩ := get?_enumLeaves_eq_some hget
    exact ⟨hpath, hmem⟩
  · rintro ⟨rfl, hmem⟩
    obtain ⟨e, he⟩ := exists_get?_enumLeaves (t := t) hmem
    obtain ⟨hmem', hpath⟩ := get?_enumLeaves_eq_some he
    rw [he, h e id hmem' hmem hpath]

theorem mem_problems_iff {d : Diagnostic} : d ∈ found.filterMap (problem? t) ↔
    ∃ id, .unknownKind id ∈ found ∧ d = misplacedError t id := by
  rw [List.mem_filterMap]
  constructor
  · rintro ⟨f, hf, hd⟩
    cases f with
    | unknownKind id =>
      cases hd
      exact ⟨id, hf, rfl⟩
    | directory id => cases hd
    | enumLeaf id => cases hd
  · rintro ⟨id, hid, rfl⟩
    exact ⟨_, hid, rfl⟩

/-- Nodes that differ in their paths are listed in the order of their paths. -/
theorem exists_sorted (ids : List NodeId) (p : NodeId → Prop) [DecidablePred p] (hp : ∀ id, p id → id ∈ ids)
    (hpath : ∀ a b, p a → p b → t.pathString a = t.pathString b → a = b) :
    ∃ sorted : List NodeId, (∀ id, id ∈ sorted ↔ p id) ∧ (sorted.map t.pathString).Pairwise (· < ·) := by
  let table : Table NodeId := Table.ofList ((ids.filter p).map fun id => (t.pathString id, id))
  have hget : ∀ {path id}, table.get? path = some id ↔ p id ∧ t.pathString id = path := by
    intro path id
    refine (Table.get?_ofList_eq_some_iff fun v w hv hw => ?_).trans ?_
    · simp only [List.mem_map, List.mem_filter, decide_eq_true_eq, Prod.mk.injEq] at hv hw
      obtain ⟨a, ⟨-, ha⟩, hapath, rfl⟩ := hv
      obtain ⟨b, ⟨-, hb⟩, hbpath, rfl⟩ := hw
      exact hpath a b ha hb (hapath.trans hbpath.symm)
    · simp only [List.mem_map, List.mem_filter, decide_eq_true_eq, Prod.mk.injEq]
      constructor
      · rintro ⟨a, ⟨-, ha⟩, hapath, rfl⟩
        exact ⟨ha, hapath⟩
      · rintro ⟨hid, hidpath⟩
        exact ⟨id, ⟨hp id hid, hid⟩, hidpath, rfl⟩
  refine ⟨table.values, fun id => ?_, ?_⟩
  · simp [Table.mem_values_iff, hget]
  · rw [Table.values, List.map_map]
    refine List.pairwise_map.mpr (table.sorted.imp_of_mem fun {a b} ha hb hlt => ?_)
    have hpa := (hget.mp (Table.get?_eq_some_iff.mpr ha)).2
    have hpb := (hget.mp (Table.get?_eq_some_iff.mpr hb)).2
    rwa [Function.comp_apply, Function.comp_apply, hpa, hpb]

/-! ### The whole of it -/

section Distinct
variable (ht : t.Regular) (hpaths : t.DistinctPaths) (hroots : ∀ r ∈ roots, ∃ name, t.roots.get? name = some r)
include ht hroots

/-- Discovery has a problem with each misplaced node. -/
theorem mem_problems_visited_iff {d : Diagnostic} : d ∈ (findings t roots [] compress).filterMap (problem? t) ↔
    ∃ id, Misplaced t roots id ∧ d = misplacedError t id :=
  mem_problems_iff.trans (exists_congr fun id => by rw [unknownKind_mem_visited_iff ht hroots])

include hpaths

/-- The sorted problems are told in the order of the paths of their nodes. -/
theorem exists_sorted_problems : ∃ ids : List NodeId, (∀ id, id ∈ ids ↔ Misplaced t roots id) ∧
    (ids.map t.pathString).Pairwise (· < ·) ∧
      Diagnostics.sort ⟨(findings t roots [] compress).filterMap (problem? t)⟩ = ⟨ids.map (misplacedError t)⟩ := by
  classical
  have hunique : ∀ a b, Misplaced t roots a → Misplaced t roots b → t.pathString a = t.pathString b → a = b :=
    fun a b ha hb => hpaths a b ha.lt_size hb.lt_size ha.isChoiceOrCase hb.isChoiceOrCase
  obtain ⟨ids, hids, hsorted⟩ := exists_sorted (List.range t.size) (Misplaced t roots)
    (fun id hid => List.mem_range.mpr hid.lt_size) hunique
  refine ⟨ids, hids, hsorted, Diagnostics.sort_eq_iff.mpr ⟨?_, fun d => ?_⟩⟩
  · exact List.pairwise_map.mpr ((List.pairwise_map.mp hsorted).imp Diagnostic.before_of_path_lt)
  · rw [mem_problems_visited_iff ht hroots, List.mem_map]
    exact exists_congr fun id => by rw [hids, eq_comm]

theorem get?_directories_visited_iff {path : String} {m : MappedDirectory} :
    (directories t (findings t roots [] compress)).get? path = some m ↔
      ∃ id, m = .schema id ∧ t.pathString id = path ∧ Generated t roots compress id := by
  have hmem : ∀ id, .directory id ∈ findings t roots [] compress ↔ Generated t roots compress id := fun id =>
    directory_mem_visited_iff ht hroots
  rw [get?_directories_iff fun a b ha hb => ?_]
  · exact exists_congr fun id => by rw [hmem]
  · exact hpaths.directory_unique ((hmem a).mp ha).isDirectory ((hmem b).mp hb).isDirectory

theorem get?_enumLeaves_visited_iff {path : String} {id : NodeId} :
    (enumLeaves t (findings t roots [] compress)).get? path = some id ↔
      t.pathString id = path ∧ Enumerated t roots id := by
  have hmem : ∀ id, .enumLeaf id ∈ findings t roots [] compress ↔ Enumerated t roots id := fun id =>
    enumLeaf_mem_visited_iff ht hroots
  rw [get?_enumLeaves_iff fun a b ha hb => ?_, hmem]
  have ha := (hmem a).mp ha
  have hb := (hmem b).mp hb
  exact hpaths a b ha.lt_size hb.lt_size ha.isChoiceOrCase hb.isChoiceOrCase

end Distinct

/-- Discovery over a tree that hides no child and tells its nodes apart by their paths gives what it is to give. -/
theorem discover_discovers (h : t.Grown) (hshadow : t.Unshadowed) (hpaths : t.DistinctPaths)
    (hroots : ∀ r ∈ roots, ∃ name, t.roots.get? name = some r) :
    Discovers t roots compress (Entities.discover t roots [] compress) := by
  have ht := h.regular hshadow hpaths
  have hproblem : ∀ d, d ∈ (findings t roots [] compress).filterMap (problem? t) ↔
      ∃ id, Misplaced t roots id ∧ d = misplacedError t id := fun d => mem_problems_visited_iff ht hroots
  rw [Entities.discover, Diagnostics.settle_of_errors fun d hd => ?_]
  · split
    · rename_i hnone
      refine .found (fun id hid => ?_) (fun path m => get?_directories_visited_iff ht hpaths hroots)
        fun path id => get?_enumLeaves_visited_iff ht hpaths hroots
      exact List.eq_nil_iff_forall_not_mem.mp hnone _ ((hproblem _).mpr ⟨id, hid, rfl⟩)
    · rename_i hsome
      obtain ⟨d, hd⟩ := List.exists_mem_of_ne_nil _ hsome
      obtain ⟨id, hid, -⟩ := (hproblem d).mp hd
      obtain ⟨ids, hids, hsorted, hsort⟩ := exists_sorted_problems ht hpaths hroots
      rw [hsort]
      exact .misplaced ids (List.ne_nil_of_mem ((hids id).mpr hid)) hids hsorted
  · obtain ⟨_, -, rfl⟩ := (hproblem d).mp hd
    rfl

/-- A container around a list, whose wrapper has an enumeration and whose choice offers a container of state. -/
def interfaces : Library :=
  let node (name : String) (kind : NodeKind) (type : Option TypeDescriptor) (children : List NodeDocument) : NodeDocument :=
    ⟨name, kind, children, type, none, none, none, none⟩
  let enumeration : TypeDescriptor := { TypeDescriptor.ofKind .enumeration with values := [⟨"on", none⟩] }
  let union : TypeDescriptor := { TypeDescriptor.ofKind .union with members := [.ofKind .string, .ofKind .identityref] }
  .ofList [("m", ⟨⟨"m", "urn:m", none, [], [node "interfaces" .container none [node "interface" .list none
    [node "config" .container none [node "mode" .leaf (some enumeration) []],
     node "how" .choice none [node "state" .container none [node "type" .leaf (some union) []]]]]]⟩, "m.json", false⟩)]

theorem interfaces_discovers : ∃ t entities, interfaces.tree = .ok t ∧ t.Unshadowed ∧ t.DistinctPaths ∧
    t.roots.get? "m" = some 0 ∧ Discovers t [0] true (Entities.discover t [0] [] true) ∧
      Entities.discover t [0] [] true = .ok entities ∧
        entities.directories.names = ["/m/interfaces/interface", "/m/interfaces/interface/state"] ∧
        entities.enumLeaves.names = ["/m/interfaces/interface/config/mode", "/m/interfaces/interface/state/type"] := by
  have hrun : (interfaces.tree.toOption.any fun t => (Entities.discover t [0] [] true).toOption.any fun entities =>
      (t.ids.all fun c => (t.parent? c).all fun p => t.child? p (t.name c) == some c) &&
      (t.ids.all fun a => t.ids.all fun b =>
          (t.kind a).isChoiceOrCase || (t.kind b).isChoiceOrCase || t.pathString a != t.pathString b || a == b) &&
      t.roots.get? "m" == some 0 &&
      entities.directories.names == ["/m/interfaces/interface", "/m/interfaces/interface/state"] &&
      entities.enumLeaves.names ==
        ["/m/interfaces/interface/config/mode", "/m/interfaces/interface/state/type"]) = true := by
    decide +kernel
  obtain ⟨t, ht, hrun⟩ := (Option.any_eq_true ..).mp hrun
  obtain ⟨entities, hentities, hfacts⟩ := (Option.any_eq_true ..).mp hrun
  simp only [Bool.and_eq_true, beq_iff_eq] at hfacts
  obtain ⟨⟨⟨⟨hshadow, hpaths⟩, hroot⟩, hdirectories⟩, hleaves⟩ := hfacts
  have hgrown : t.Grown :=
    SchemaTree.Loaded.grown ⟨interfaces, Library.Named.empty.insert rfl, ok_of_toOption ht⟩
  have hshadow : t.Unshadowed := .of_ids hshadow
  have hpaths := DistinctPaths.of_ids hpaths
  refine ⟨t, entities, ok_of_toOption ht, hshadow, hpaths, hroot,
    discover_discovers hgrown hshadow hpaths fun r hr => ?_, ok_of_toOption hentities, hdirectories, hleaves⟩
  exact ⟨"m", List.mem_singleton.mp hr ▸ hroot⟩

end Discovery

end SchemaIr
