import SchemaIr.Proofs.Ir.Alike
import SchemaIr.Proofs.Ir.Types

/-! # Compressions that can be interchanged

Where two compressions choose the same fields and the same holders of keys, assembling with one gives what assembling
with the other gives, up to the names of directories and what they get into, or fails as the other does
(`build_alike`). -/

namespace SchemaIr

/-! ### Results that differ in the names of directories -/

/-- Directories of one node, with the same fields and keys. -/
structure Directory.Alike (d d' : Directory) : Prop extends d.SameNode d' where
  fields : ∀ name, Option.Rel (Field.Alike d.name d'.name) (d.fields.get? name) (d'.fields.get? name)

/-- The two fields name no directory, or those at one path. -/
def Ir.SamePlace (a b : Ir) (f f' : Field) : Prop :=
  f.directory = none ∧ f'.directory = none ∨ ∃ path d d', a.directories.get? path = some d ∧
    b.directories.get? path = some d' ∧ f.directory = some d.name ∧ f'.directory = some d'.name

/-- Results that differ only in the names of directories, where they stand in fields and in the names of unions, too. -/
structure Ir.Alike (a b : Ir) : Prop where
  directories : ∀ path, Option.Rel Directory.Alike (a.directories.get? path) (b.directories.get? path)
  references : ∀ path d d' name f f', a.directories.get? path = some d → b.directories.get? path = some d' →
    d.fields.get? name = some f → d'.fields.get? name = some f' → a.SamePlace b f f'
  enumerations : a.enumerations = b.enumerations
  notes : a.notes = b.notes

namespace Assembly.Input

/-- Fields of one node name directories at one path, where the same is kept there. -/
theorem samePlace_of_kept (input input' : Input) {a b : Ir} (htree : input'.tree = input.tree)
    (ha : (input.build ∅).1 = some (.ok a)) (hb : (input'.build ∅).1 = some (.ok b)) {path name : String} {d d' : Directory}
    {f f' : Field} (hd : a.directories.get? path = some d) (hd' : b.directories.get? path = some d')
    (hf : d.fields.get? name = some f) (hf' : d'.fields.get? name = some f') (hnode : f.node = f'.node)
    (hsame : (input.tree.kind f.node).isDirectory = true →
      input.kept.get? (input.tree.pathString f.node) = input'.kept.get? (input.tree.pathString f.node)) :
    a.SamePlace b f f' := by
  obtain ⟨-, hnamed⟩ := field_of_directory ha hd hf
  obtain ⟨-, hnamed'⟩ := field_of_directory hb hd' hf'
  rw [htree, ← hnode] at hnamed'
  by_cases hkind : (input.tree.kind f.node).isDirectory = true
  · rw [if_pos hkind] at hnamed hnamed'
    cases hkept : input.kept.get? (input.tree.pathString f.node) with
    | none =>
      rw [get?_names_eq_none hkept] at hnamed
      rw [get?_names_eq_none (hsame hkind ▸ hkept)] at hnamed'
      exact .inl ⟨hnamed, hnamed'⟩
    | some m =>
      obtain ⟨e, he, hname⟩ := exists_directory ha hkept
      obtain ⟨e', he', hname'⟩ := exists_directory hb (hsame hkind ▸ hkept)
      exact .inr ⟨_, e, e', he, he', hnamed.trans hname, hnamed'.trans hname'⟩
  · rw [if_neg hkind] at hnamed hnamed'
    exact .inl ⟨hnamed, hnamed'⟩

/-- Both compressions leave out the same state, choose the same fields for every node, and find the same holders of
    keys; and neither shows a shadow path. -/
structure Interchangeable (t : SchemaTree) (compression compression' : Compression) : Prop where
  state : compression.excludesState = compression'.excludesState
  fields : ∀ dir, t.fields compression dir = t.fields compression' dir
  holders : ∀ list, t.kind list = .list → ListKey.SameHolders t compression.compresses compression'.compresses list
  unshadowed : Unshadowed t compression
  unshadowed' : Unshadowed t compression'

variable {input : Input} {compression compression' : Compression} {a b : Ir}
  (h : Interchangeable input.tree compression compression')
include h

theorem keeps_eq : (input.under compression).keeps = (input.under compression').keeps := by
  funext id
  simp only [keeps, under_tree, under_compression, h.state]

theorem kept_eq : (input.under compression).kept = (input.under compression').kept := by
  unfold kept
  rw [keeps_eq h]
  rfl

theorem parallel : Parallel (fun _ => true) MappedType.Alike (input.under compression) (input.under compression') where
  toComparable := comparable_under h.unshadowed h.unshadowed'
  keeps := (keeps_eq h).symm
  fields dir := (h.fields dir).symm
  holders := h.holders

theorem buildDirectory_alike (names names' : Table String) (path : String) (m : MappedDirectory) :
    BuiltAlike Directory.Alike ((input.under compression).buildDirectory names path m)
      ((input.under compression').buildDirectory names' path m) := by
  refine ((parallel h).buildDirectory_matches path m).alike fun d d' hd hmatches => ?_
  obtain ⟨hpath, hroot, hmodule, hfields, hkeys⟩ := hmatches
  refine ⟨⟨hpath, hroot, hmodule, rel_imp hkeys fun _ _ _ _ hks => hks.alike⟩, fun name => ?_⟩
  exact rel_imp (hfields name) fun f f' hf _ hmatch => hmatch.alike (shadowPath_of_buildDirectory h.unshadowed hd hf)

/-! ### The result -/

theorem samePlace_of_build (ha : ((input.under compression).build ∅).1 = some (.ok a))
    (hb : ((input.under compression').build ∅).1 = some (.ok b)) {path name : String} {d d' : Directory} {f f' : Field}
    (hd : a.directories.get? path = some d) (hd' : b.directories.get? path = some d') (hf : d.fields.get? name = some f)
    (hf' : d'.fields.get? name = some f') (hnode : f.node = f'.node) : a.SamePlace b f f' :=
  samePlace_of_kept (input.under compression) (input.under compression') rfl ha hb hd hd' hf hf' hnode fun _ => by
    rw [kept_eq h]

theorem buildDirectories_alike (names names' : Table String) :
    ((input.under compression).buildDirectories names).diagnostics =
        ((input.under compression').buildDirectories names').diagnostics ∧
      ((input.under compression).buildDirectories names).ends =
        ((input.under compression').buildDirectories names').ends ∧
      ∀ path, Option.Rel Directory.Alike (((input.under compression).buildDirectories names).value.get? path)
        (((input.under compression').buildDirectories names').value.get? path) := by
  rw [buildDirectories_eq, buildDirectories_eq, kept_eq h]
  exact collect_alike fun path m _ => buildDirectory_alike h names names' path m

/-- Both compressions give alike results, or the same is wrong under both, or assembling ends under none of them. -/
theorem build_alike : Diagnostics.Agree Ir.Alike ((input.under compression).build ∅).1
    ((input.under compression').build ∅).1 := by
  obtain ⟨hproblems, hends, hdirectories⟩ :=
    buildDirectories_alike h ((input.under compression).names ∅).1 ((input.under compression').names ∅).1
  rcases ha : ((input.under compression).build ∅).1 with _ | problems | a
  · have hnever := build_eq_none_iff.mp ha
    rw [hends] at hnever
    rw [build_eq_none_iff.mpr hnever]
    exact .endless
  · have hwrong := build_eq_error_iff.mp ha
    rw [hproblems, hends] at hwrong
    rw [build_eq_error_iff.mpr hwrong]
    exact .error _
  · have hclean := exists_build_iff.mp ⟨a, ha⟩
    rw [hproblems, hends] at hclean
    obtain ⟨b, hb⟩ := exists_build_iff.mpr hclean
    rw [hb]
    rw [← (build_eq_ok ha).2, ← (build_eq_ok hb).2] at hdirectories
    refine .ok ⟨hdirectories, fun path d d' name f f' hd hd' hf hf' => ?_, ?_, ?_⟩
    · have hkept := congrArg (Table.get? · path) (kept_eq h).symm
      exact samePlace_of_build h ha hb hd hd' hf hf' ((parallel h).node_eq ha hb hkept hd hd' hf hf')
    · rw [enumerations_of_build ha, enumerations_of_build hb]
      rfl
    · rw [notes_of_build ha, notes_of_build hb, hproblems]

end Assembly.Input

end SchemaIr
