import SchemaIr.Proofs.Directory.Fields
import SchemaIr.Proofs.Generation.Prepare
import SchemaIr.Proofs.Ir.Assembly
import SchemaIr.Proofs.Loading.Loaded
import SchemaIr.Proofs.Schema.DataTree
import SchemaIr.Proofs.Text.Pieces

/-! # Nodes of one data path

Data paths leave out choices and cases, so two nodes may share one. Their paths come from a clash: two nodes
that one node offers under the same name (`SchemaTree.Clash`). The fields of a directory tell of a clash, and so do
those of the fake root, unless compression or left out state lets one of the two go, or nothing has them both for
fields (`Untold`). Then a run may let it pass (`Excused`), but not where one of the two takes the place of the other
in the tables of discovery (`Overwritten`). That is missed, and so are some clashes beside names with slashes in them,
as paths are joined with slashes (`Missed`). -/

namespace SchemaIr

namespace Generation
open SchemaTree (Reached Opens Offers Clash Regular)
open Discovery (isMerged)
open Fields (givesWay candidates)

variable {t : SchemaTree} {s : GenerateSettings} {input : Assembly.Input} {p a b : NodeId}

/-- Discovery finds a node as a directory. -/
def Found (t : SchemaTree) (s : GenerateSettings) (c : NodeId) : Prop := .directory c ∈ found t s.compression.compresses

/-- Two nodes of the tree of a library that are reached, and share a data path. -/
structure Twins (lib : Library) (t : SchemaTree) (a b : NodeId) : Prop where
  tree : lib.tree = .ok t
  loaded : t.Loaded
  left : Reached t a
  right : Reached t b
  ne : a ≠ b
  path : t.dataPath a = t.dataPath b

/-- The node stands in the data tree below generation roots, with containers, lists, choices and cases only above it. -/
def isReached (t : SchemaTree) (c : NodeId) : Bool :=
  !(t.kind c).isChoiceOrCase && (t.parent? c).isSome &&
    (t.ancestors c).all fun a => (t.kind a).isDirectory || (t.kind a).isChoiceOrCase || t.generationRoots.contains a

theorem reached_of_isReached (ht : t.Regular) {c : NodeId} (h : isReached t c = true) : Reached t c := by
  simp only [isReached, Bool.and_eq_true, Bool.not_eq_true', List.all_eq_true, Bool.or_eq_true,
    List.contains_iff_mem, or_assoc] at h
  obtain ⟨⟨hdata, hparent⟩, hvisited⟩ := h
  exact (SchemaTree.reached_iff_allOpen ht).mpr ⟨hdata, Option.isSome_iff_ne_none.mp hparent, hvisited⟩

/-- The tree of a library, if the two nodes of it are twins. -/
def twinTree? (lib : Library) (a b : NodeId) : Option SchemaTree :=
  lib.tree.toOption.filter fun t => isReached t a && isReached t b && a != b && t.dataPath a == t.dataPath b

theorem twins_of_twinTree? {lib : Library} (hlib : lib.Named) (h : twinTree? lib a b = some t) : Twins lib t a b := by
  obtain ⟨htree, hfacts⟩ := Option.filter_eq_some_iff.mp h
  simp only [Bool.and_eq_true, bne_iff_ne, beq_iff_eq] at hfacts
  obtain ⟨⟨⟨ha, hb⟩, hne⟩, hpath⟩ := hfacts
  have hloaded : t.Loaded := ⟨lib, hlib, ok_of_toOption htree⟩
  exact ⟨ok_of_toOption htree, hloaded, reached_of_isReached hloaded.regular ha, reached_of_isReached hloaded.regular hb,
    hne, hpath⟩

/-- A run succeeds although two nodes share a data path. -/
def Silent (lib : Library) (s : GenerateSettings) : Prop :=
  ∃ t a b ir, Twins lib t a b ∧ t.generate s = some (.ok ir)

theorem silent_of_run {lib : Library} (hlib : lib.Named)
    (h : ((twinTree? lib a b).bind fun t => result? (t.generate s)).isSome = true) : Silent lib s := by
  obtain ⟨ir, hir⟩ := Option.isSome_iff_exists.mp h
  obtain ⟨t, ht, hir⟩ := Option.bind_eq_some_iff.mp hir
  exact ⟨t, a, b, ir, twins_of_twinTree? hlib ht, some_ok_of_result? hir⟩

/-- A library of one module. -/
def alone (name : String) (nodes : List NodeDocument) : Library :=
  .ofList [(name, ⟨⟨name, "urn:m", none, [], nodes⟩, "m.json", false⟩)]

theorem alone_named (name : String) (nodes : List NodeDocument) : (alone name nodes).Named :=
  Library.Named.empty.insert rfl

def leaf (name : String) : NodeDocument := ⟨name, .leaf, [], some (.ofKind .string), none, none, none, none⟩

def container (name : String) (nodes : List NodeDocument) : NodeDocument :=
  ⟨name, .container, nodes, none, none, none, none, none⟩

/-- A list of entries that have nothing but a key. -/
def list (name key : String) : NodeDocument := ⟨name, .list, [leaf key], none, some key, none, none, none⟩

/-- A choice of two nodes. -/
def either (one two : NodeDocument) : NodeDocument :=
  let case (name : String) (child : NodeDocument) : NodeDocument := ⟨name, .case, [child], none, none, none, none, none⟩
  ⟨"either", .choice, [case "one" one, case "two" two], none, none, none, none, none⟩

def leafref (path : String) : TypeDescriptor := { TypeDescriptor.ofKind .leafref with path := some path }

/-- An enumeration of two values. -/
def onOff : TypeDescriptor := { TypeDescriptor.ofKind .enumeration with values := [⟨"on", none⟩, ⟨"off", none⟩] }

/-- Clashes that runs miss: two containers and two enumerated leaves, of which a table keeps one only, and slashes in
    the name of a container and of a module. -/
theorem clashes_missed :
    Silent (alone "m" [either (container "x" [leaf "a"]) (container "x" [leaf "b"])])
      { GenerateSettings.default with withFakeRoot := true } ∧
    Silent (alone "m" [either { leaf "x" with type := some onOff } { leaf "x" with type := some onOff }]) .default ∧
    Silent (alone "m" [container "a" [container "b" [either (leaf "x") (leaf "x")]], container "a/b" [leaf "y"]])
      .default ∧
    Silent (alone "m/n" [container "x" [leaf "a"], either (leaf "x") (leaf "z")])
      { GenerateSettings.default with withFakeRoot := true } := by
  refine ⟨?_, ?_, ?_, ?_⟩
  · exact silent_of_run (a := 3) (b := 6) (alone_named _ _) (by decide +kernel)
  · exact silent_of_run (a := 3) (b := 5) (alone_named _ _) (by decide +kernel)
  · exact silent_of_run (a := 5) (b := 7) (alone_named _ _) (by decide +kernel)
  · exact silent_of_run (a := 1) (b := 5) (alone_named _ _) (by decide +kernel)

end Generation

end SchemaIr
