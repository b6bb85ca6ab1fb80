import SchemaIr.Proofs.Directory.Incompressible
import SchemaIr.Proofs.Generation.Targets

/-! # Compressing what cannot be compressed

On a tree with nothing to compress, compression changes nothing but the names of directories: a run ends alike with it and
without it, in results that are alike or in the same problems, or it ends neither way, which takes a union that leads back
to itself (`compressed_alike`). -/

namespace SchemaIr

namespace Generation
variable {t : SchemaTree} {s : GenerateSettings}

/-- The same is prepared, whether compressed or not. -/
theorem prepare_incompressible (ht : t.Incompressible) (hroot : s.withFakeRoot = false) (compression : Compression) :
    prepare t { s with compression } = (prepare t s).map (·.under compression) := by
  refine prepare_under ?_ (fun directories => ?_) fun leaves => ?_
  · unfold discover
    dsimp only
    rw [Entities.discover_eq ht _ _ compression.compresses s.compression.compresses]
  · simp [addFakeRoot, hroot]
  · exact EnumSet.ofLeaves_compress_eq ht leaves ..

/-- On a tree with nothing to compress, compressions that leave out the same state, such as none and the two
    preferences, give results without a fake root that differ only in the names of directories; or the same is
    wrong under both. Only where some union leads back to itself there may be no result, and then under neither. -/
theorem compressed_alike (ht : t.Incompressible) (hroot : s.withFakeRoot = false) {compression compression' : Compression}
    (hstate : compression.excludesState = compression'.excludesState) :
    (∃ a b, t.generate { s with compression } = some (.ok a) ∧ t.generate { s with compression := compression' } = some (.ok b) ∧
        a.Alike b) ∨
      (∃ problems, t.generate { s with compression } = some (.error problems) ∧
        t.generate { s with compression := compression' } = some (.error problems)) ∨
      ¬TypeContext.Acyclic t (LeafIndex.ofTree t) ∧ t.generate { s with compression } = none ∧
        t.generate { s with compression := compression' } = none := by
  have hprepared := prepare_incompressible ht hroot compression
  have hprepared' := prepare_incompressible ht hroot compression'
  cases hprepare : prepare t s with
  | error problems =>
    rw [hprepare] at hprepared hprepared'
    exact .inr (.inl ⟨problems, generate_of_prepare_error hprepared, generate_of_prepare_error hprepared'⟩)
  | ok input =>
    rw [hprepare] at hprepared hprepared'
    have htree := (ready_of_prepare hprepare).tree
    have hinterchange : Assembly.Input.Interchangeable input.tree compression compression' :=
      htree ▸ ht.interchangeable hstate
    have hbuild := Assembly.Input.build_alike hinterchange
    rw [← generate_of_prepare hprepared, ← generate_of_prepare hprepared'] at hbuild
    have hendless : t.generate { s with compression } = none → ¬TypeContext.Acyclic t (LeafIndex.ofTree t) := by
      intro hnone hacyclic
      obtain ⟨result, hresult⟩ := exists_generate_of_acyclic hacyclic { s with compression }
      rw [hnone] at hresult
      cases hresult
    generalize t.generate { s with compression } = result at hbuild hendless ⊢
    generalize t.generate { s with compression := compression' } = result' at hbuild ⊢
    cases hbuild with
    | ok halike => exact .inl ⟨_, _, rfl, rfl, halike⟩
    | error problems => exact .inr (.inl ⟨problems, rfl, rfl⟩)
    | endless => exact .inr (.inr ⟨hendless rfl, rfl, rfl⟩)

/-- A list with a key and a union, beside a leaf. -/
def keyedList : Library :=
  let node (name : String) (kind : NodeKind) (key : Option String) (children : List NodeDocument) : NodeDocument :=
    ⟨name, kind, children, none, key, none, none, none⟩
  let leaf (name : String) (type : TypeDescriptor) : NodeDocument := ⟨name, .leaf, [], some type, none, none, none, none⟩
  let union : TypeDescriptor := { TypeDescriptor.ofKind .union with members := [.ofKind .string, .ofKind .uint8] }
  .ofList [("m", ⟨⟨"m", "urn:m", none, [],
    [node "top" .container none
      [leaf "title" (.ofKind .string),
        node "entry" .list (some "id") [leaf "id" (.ofKind .string), leaf "value" union]]]⟩, "m.json", false⟩)]

theorem keyedList_alike : ∃ t a b d d', keyedList.tree = .ok t ∧ t.Incompressible ∧
    t.generate GenerateSettings.default = some (.ok a) ∧
    t.generate { GenerateSettings.default with compression := .preferConfig } = some (.ok b) ∧ a.Alike b ∧
    a.directories.get? "/m/top/entry" = some d ∧ b.directories.get? "/m/top/entry" = some d' ∧ d.name ≠ d'.name := by
  have hrun : (keyedList.tree.toOption.any fun t =>
      (t.ids.all fun id => !t.isConfigOrState id && !t.isListWrapper id) &&
      (t.ids.all fun list => (t.node list).keyNames.all fun key =>
        (t.child? list key).toList.all (fun c => !(t.node c).isLeafref) &&
          (t.children list).all fun c => t.name c != key || !(t.node c).isLeafref) &&
      (result? (t.generate GenerateSettings.default)).any fun a =>
      (result? (t.generate { GenerateSettings.default with compression := .preferConfig })).any fun b =>
      (a.directories.get? "/m/top/entry").any fun d => (b.directories.get? "/m/top/entry").any fun d' =>
        d.name != d'.name) = true := by
    decide +kernel
  obtain ⟨t, ht, hfacts⟩ := (Option.any_eq_true ..).mp hrun
  simp only [Bool.and_eq_true] at hfacts
  obtain ⟨⟨hplain, hkeys⟩, hfacts⟩ := hfacts
  obtain ⟨a, ha, hfacts⟩ := (Option.any_eq_true ..).mp hfacts
  obtain ⟨b, hb, hfacts⟩ := (Option.any_eq_true ..).mp hfacts
  obtain ⟨d, hd, hfacts⟩ := (Option.any_eq_true ..).mp hfacts
  obtain ⟨d', hd', hnames⟩ := (Option.any_eq_true ..).mp hfacts
  have hincompressible : t.Incompressible := .of_ids hplain hkeys
  have ha := some_ok_of_result? ha
  have hb := some_ok_of_result? hb
  rcases @compressed_alike t GenerateSettings.default hincompressible rfl .uncompressed .preferConfig rfl with
    ⟨a', b', ha', hb', halike⟩ | ⟨problems, hproblems, -⟩ | ⟨-, hnone, -⟩
  · obtain rfl : a = a' := Except.ok.inj (Option.some.inj (ha.symm.trans ha'))
    obtain rfl : b = b' := Except.ok.inj (Option.some.inj (hb.symm.trans hb'))
    exact ⟨t, a, b, d, d', ok_of_toOption ht, hincompressible, ha, hb, halike, hd, hd', by simpa using hnames⟩
  · cases ha.symm.trans hproblems
  · cases ha.symm.trans hnone

end Generation

end SchemaIr
