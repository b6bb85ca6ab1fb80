import SchemaIr.Proofs.Directory.Collected
import SchemaIr.Proofs.Enumeration.Reference
import SchemaIr.Proofs.Generation.Prepare
import SchemaIr.Proofs.Ir.Misses
import SchemaIr.Proofs.Leafref.Path
import SchemaIr.Proofs.Loading.Loaded

/-! # Enumerations without name

Two passes have to agree on the enumerations: the collection of the leaves whose enumerations get names, and the
mapping of the types of fields and keys, which asks for these names. The collection follows the leafrefs that
are visible from the generation roots. The mapping goes on from the end of a chain to the leafrefs of a union
there, and it maps the keys of lists whatever node they name. An enumeration has no name exactly if the mapping
meets it and it is none of the collected ones (`Unnamed`). Where no two leaves share a path, what is collected
are at least the enumerations of the leaves that are reached, and those to which their leafrefs lead at once
(`Prepared.leads_on_of_unnamed`). -/

namespace SchemaIr

namespace Generation
open Assembly.Input (MapsLeaf)
open Entities (LeafrefTarget)
open SchemaTree (Reached Regular)
open TypeContext (Acyclic LeadsTo Meets)

variable {t : SchemaTree} {s : GenerateSettings} {input : Assembly.Input}

/-! ### Collected enumerations -/

/-- The enumerations of a leaf at a path get names: leafrefs lead to the leaf, or discovery finds it and they lead
    to no other leaf of the same path. -/
inductive Collects (t : SchemaTree) (compress : Bool) : String → NodeId → Prop
  | target {leaf : NodeId} : LeafrefTarget t t.generationRoots leaf → Collects t compress (t.pathString leaf) leaf
  | found {path : String} {leaf : NodeId} : (Discovery.enumLeaves t (found t compress)).get? path = some leaf →
      (∀ target, LeafrefTarget t t.generationRoots target → t.pathString target ≠ path) → Collects t compress path leaf

theorem get?_collected_iff {compress : Bool} {path : String} {leaf : NodeId} :
    (collected t compress).get? path = some leaf ↔ Collects t compress path leaf := by
  rw [collected, Entities.get?_addLeafrefTargets_iff]
  constructor
  · rintro (⟨htarget, rfl⟩ | ⟨hfound, hother⟩)
    · exact .target htarget
    · exact .found hfound hother
  · intro h
    cases h with
    | target htarget => exact .inl ⟨htarget, rfl⟩
    | found hfound hother => exact .inr ⟨hfound, hother⟩

/-- No two leaves share a path. -/
def UniquePaths (t : SchemaTree) : Prop :=
  ∀ a b, (t.kind a).isLeafLike = true → (t.kind b).isLeafLike = true → t.pathString a = t.pathString b → a = b

/-- No collected leaf has the enumeration that a leaf has. -/
def Unnamed (t : SchemaTree) (compress : Bool) (holder : NodeId) (m : TypeDescriptor) : Prop :=
  ∀ path leaf type m', Collects t compress path leaf → (t.node leaf).type = some type →
    m' ∈ type.enumeratedMembers → ¬SameEnum (t.pathString holder) m path m'

theorem Prepared.nameFor?_eq_none_iff (h : Prepared t s input) {holder : NodeId} {m : TypeDescriptor}
    (henum : m.isEnumerated = true) :
    input.enums.nameFor? t holder m = none ↔ Unnamed t s.compression.compresses holder m := by
  rw [← not_iff_not, ← Ne, EnumSet.nameFor?_ne_none_iff h.enums henum]
  simp only [EnumSet.ListedAt, get?_collected_iff, Unnamed, not_forall, not_not]
  constructor
  · rintro ⟨path, m', ⟨leaf, type, hleaf, htype, hm'⟩, hsame⟩
    exact ⟨path, leaf, type, m', hleaf, htype, hm', hsame⟩
  · rintro ⟨path, leaf, type, m', hleaf, htype, hm', hsame⟩
    exact ⟨path, m', ⟨leaf, type, hleaf, htype, hm'⟩, hsame⟩

/-! ### What is collected for sure -/

section Collected
variable {compress : Bool} {leaf holder : NodeId} {type m : TypeDescriptor}

theorem isEnumLeaf_of_mem (htype : (t.node leaf).type = some type) (hm : m ∈ type.alternatives)
    (henum : m.isEnumerated = true) : Discovery.isEnumLeaf t leaf = true := by
  rw [Discovery.isEnumLeaf, htype]
  exact List.any_eq_true.mpr ⟨m, hm, henum⟩

/-- What discovery finds is collected, if no other leaf has the same path. -/
theorem Collects.of_reached (ht : t.Regular) (hpaths : UniquePaths t) (hreached : Reached t leaf)
    (hkind : (t.kind leaf).isLeafLike = true) (henum : Discovery.isEnumLeaf t leaf = true) :
    Collects t compress (t.pathString leaf) leaf := by
  by_cases htarget : LeafrefTarget t t.generationRoots leaf
  · exact .target htarget
  · have hmem : Discovery.Finding.enumLeaf leaf ∈ Generation.found t compress :=
      (Discovery.enumLeaf_mem_findings_iff ht).mpr ⟨hreached, hkind, henum⟩
    obtain ⟨other, hother⟩ := Discovery.exists_get?_enumLeaves (t := t) hmem
    obtain ⟨hfound, hpath⟩ := Discovery.get?_enumLeaves_eq_some hother
    have hleaf := ((Discovery.enumLeaf_mem_findings_iff ht).mp hfound).2.1
    obtain rfl := hpaths _ _ hleaf hkind hpath
    refine .found hother fun target hit hsame => htarget ?_
    exact hpaths _ _ hit.isLeafLike hkind hsame ▸ hit

/-- No enumeration of a collected leaf is without name. -/
theorem Prepared.not_unnamed (h : Prepared t s input)
    (hcollects : Collects t s.compression.compresses (t.pathString leaf) leaf) (htype : (t.node leaf).type = some type)
    (hm : m ∈ type.alternatives) (henum : m.isEnumerated = true) :
    ¬Unnamed t s.compression.compresses leaf m := by
  intro hunnamed
  have hmember : m ∈ type.enumeratedMembers := List.mem_filter.mpr ⟨hm, henum⟩
  have hlisted : EnumSet.ListedAt t (collected t s.compression.compresses) (t.pathString leaf) m :=
    ⟨leaf, type, get?_collected_iff.mpr hcollects, htype, hmember⟩
  exact hunnamed _ _ _ _ hcollects htype hmember (EnumSet.sameEnum_self h.enums hlisted henum)

end Collected

/-! ### Errors of the passes before -/

theorem code_of_discover_eq_error {problems : Diagnostics} (h : discover t (LeafIndex.ofTree t) s = .error problems)
    {d : Diagnostic} (hd : d ∈ problems.items) : d.code = .unknownNodeKind := by
  unfold discover Entities.discover at h
  simp only [bind, Except.bind, pure, Except.pure] at h
  split at h
  · rename_i found hfound
    cases h
    obtain ⟨-, rfl⟩ := Diagnostics.settle_eq_error_iff.mp hfound
    obtain ⟨finding, -, hproblem⟩ := List.mem_filterMap.mp (Diagnostics.mem_sort.mp hd)
    cases finding with
    | unknownKind id =>
      cases hproblem
      rfl
    | directory id => cases hproblem
    | enumLeaf id => cases hproblem
  · cases h

/-- No pass before assembling tells of an enumeration without name. -/
theorem code_of_prepare_eq_error {problems : Diagnostics} (h : prepare t s = .error problems) {d : Diagnostic}
    (hd : d ∈ problems.items) : d.code ≠ .enumWithoutContext := by
  unfold prepare at h
  simp only [bind, Except.bind, pure, Except.pure] at h
  split at h
  · rename_i hdiscover
    cases h
    rw [code_of_discover_eq_error hdiscover hd]
    decide
  · split at h
    · rename_i hroot
      cases h
      unfold addFakeRoot at hroot
      split at hroot
      · rw [FakeRoot.code_of_add_eq_error hroot hd]
        decide
      · cases hroot
    · split at h
      · rename_i henums
        cases h
        exact EnumSet.code_of_ofLeaves_eq_error henums hd
      · cases h

/-! ### Enumerations that are missed -/

theorem Prepared.misses_iff (h : Prepared t s input) {leaf : NodeId} :
    input.types.Misses leaf ↔ ∃ type holder m, (t.node leaf).type = some type ∧
      Meets t (LeafIndex.ofTree t) leaf type holder m ∧ Unnamed t s.compression.compresses holder m := by
  simp only [TypeContext.Misses, Assembly.Input.types, h.tree, h.index]
  constructor
  · rintro ⟨type, holder, m, htype, hmeets, hname⟩
    exact ⟨type, holder, m, htype, hmeets, (h.nameFor?_eq_none_iff hmeets.isEnumerated).mp hname⟩
  · rintro ⟨type, holder, m, htype, hmeets, hunnamed⟩
    exact ⟨type, holder, m, htype, hmeets, (h.nameFor?_eq_none_iff hmeets.isEnumerated).mpr hunnamed⟩

/-- Where no union leads back to itself, a run without exclusions tells of an enumeration without name exactly if
    it comes to assembling, and there the type of a field or key leads to an enumeration that is not collected. -/
theorem tells_unnamed_iff (hs : s.excludeModules = []) (hacyclic : Acyclic t (LeafIndex.ofTree t)) :
    (∃ problems, t.generate s = some (.error problems) ∧ problems.contains .enumWithoutContext = true) ↔
      ∃ input leaf type holder m, prepare t s = .ok input ∧ MapsLeaf input leaf ∧
        (t.node leaf).type = some type ∧ Meets t (LeafIndex.ofTree t) leaf type holder m ∧
          Unnamed t s.compression.compresses holder m := by
  cases hprepare : prepare t s with
  | error problems =>
    rw [generate_of_prepare_error hprepare]
    have hother : problems.contains .enumWithoutContext = false := Bool.eq_false_iff.mpr fun hcontains => by
      obtain ⟨d, hd, hcode⟩ := Diagnostics.contains_iff.mp hcontains
      exact code_of_prepare_eq_error hprepare hd hcode
    simp [hother]
  | ok input =>
    rw [generate_of_prepare hprepare]
    have hprepared := prepare_eq_ok hs hprepare
    have hinput : Acyclic input.tree input.index := by rwa [hprepared.tree, hprepared.index]
    simp only [Assembly.Input.build_misses_iff hinput, hprepared.misses_iff, Except.ok.injEq]
    constructor
    · rintro ⟨leaf, hleaf, type, holder, m, hmiss⟩
      exact ⟨input, leaf, type, holder, m, rfl, hleaf, hmiss⟩
    · rintro ⟨_, leaf, type, holder, m, rfl, hleaf, hmiss⟩
      exact ⟨leaf, hleaf, type, holder, m, hmiss⟩

/-- A leafref without a path leads nowhere but to the leaf itself. -/
theorem eq_of_chainTarget?_empty (hpaths : UniquePaths t) {leaf target : NodeId} {type : TypeDescriptor}
    (hkind : (t.kind leaf).isLeafLike = true) (htype : (t.node leaf).type = some type)
    (hnone : type.isLeafref = true → type.path = none)
    (h : (LeafIndex.ofTree t).chainTarget? t leaf "" = some target) : target = leaf := by
  rw [LeafIndex.chainTarget?, LeafIndex.target?, LeafIndex.targetPath?_empty, Option.bind_some] at h
  obtain ⟨first, hfirst, hfollow⟩ := Option.bind_eq_some_iff.mp h
  obtain ⟨hpath, hleaf⟩ := LeafIndex.leaf?_eq_some hfirst
  obtain rfl := hpaths _ _ hleaf hkind hpath
  rw [LeafIndex.maxChain, LeafIndex.follow, htype] at hfollow
  dsimp only at hfollow
  split at hfollow
  · rename_i href
    rw [hnone href] at hfollow
    cases hfollow
  · exact (Option.some.inj hfollow).symm

/-- Where no two leaves share a path, what a reached leaf misses lies behind a union at the end of a chain: its own
    enumerations are collected, and those to which its leafrefs lead at once. -/
theorem Prepared.leads_on_of_unnamed (h : Prepared t s input) (ht : t.Regular) (hpaths : UniquePaths t)
    (hacyclic : Acyclic t (LeafIndex.ofTree t)) {leaf : NodeId} (hreached : Reached t leaf)
    (hkind : (t.kind leaf).isLeafLike = true) {type m : TypeDescriptor} (htype : (t.node leaf).type = some type)
    {holder : NodeId} (hmeets : Meets t (LeafIndex.ofTree t) leaf type holder m)
    (hunnamed : Unnamed t s.compression.compresses holder m) :
    ∃ target next, LeadsTo t (LeafIndex.ofTree t) leaf target ∧ LeadsTo t (LeafIndex.ofTree t) target next := by
  cases hmeets with
  | here hm henum =>
    have henumLeaf := isEnumLeaf_of_mem htype hm henum
    exact absurd hunnamed (h.not_unnamed (.of_reached ht hpaths hreached hkind henumLeaf) htype hm henum)
  | @follow _ target _ _ a targetType _ ha href htarget htargetType hmeets =>
    have hleads : LeadsTo t (LeafIndex.ofTree t) leaf target :=
      ⟨type, a, targetType, htype, ha, href, htarget, htargetType⟩
    cases hmeets with
    | here hm henum =>
      have henumLeaf := isEnumLeaf_of_mem htargetType hm henum
      cases hpath : a.path with
      | some path =>
        have hmem : path ∈ type.leafrefPaths := List.mem_filterMap.mpr ⟨a, ha, by rw [if_pos href, hpath]⟩
        obtain ⟨root, hroot, hdescends⟩ := hreached
        have hrootKind : (t.kind root).isLeafLike = false := by
          rw [Discovery.kind_of_mem_generationRoots ht hroot]
          rfl
        rw [hpath, Option.getD_some] at htarget
        have hit : LeafrefTarget t t.generationRoots holder :=
          ⟨henumLeaf, root, hroot, leaf, type, Entities.visible_of_descends hdescends hrootKind, hkind, htype, path,
            hmem, htarget⟩
        exact absurd hunnamed (h.not_unnamed (.target hit) htargetType hm henum)
      | none =>
        -- The leafref leads back to the leaf, which then leads to itself.
        rw [hpath, Option.getD_none] at htarget
        have hnone : type.isLeafref = true → type.path = none := fun hplain => by
          rw [← TypeDescriptor.eq_of_mem_alternatives_leafref hplain ha, hpath]
        obtain rfl := eq_of_chainTarget?_empty hpaths hkind htype hnone htarget
        exact absurd (.single hleads) (hacyclic.irrefl _)
    | @follow _ next _ _ b nextType _ hb hbref hnext hnextType _ =>
      exact ⟨target, next, hleads, targetType, b, nextType, htargetType, hb, hbref, hnext, hnextType⟩

/-- A leafref into a module that is only imported leads to a union there, and the union on to an enumeration. -/
def acrossModules : Library :=
  let node (name : String) (kind : NodeKind) (children : List NodeDocument) (type : Option TypeDescriptor) :
      NodeDocument := ⟨name, kind, children, type, none, none, none, none⟩
  let leafref (path : String) : TypeDescriptor := { TypeDescriptor.ofKind .leafref with path := some path }
  let mode : TypeDescriptor := { TypeDescriptor.ofKind .enumeration with values := [⟨"a", none⟩, ⟨"b", none⟩] }
  let union : TypeDescriptor :=
    { TypeDescriptor.ofKind .union with members := [leafref "../mode", .ofKind .string] }
  .ofList
    [("m", ⟨⟨"m", "urn:m", none, ["t"],
        [node "top" .container [node "l" .leaf [] (some (leafref "/t:d/t:u"))] none]⟩, "m.json", false⟩),
      ("t", ⟨⟨"t", "urn:t", some "t", [],
        [node "d" .container [node "mode" .leaf [] (some mode), node "u" .leaf [] (some union)] none]⟩,
        "t.json", true⟩)]

theorem acrossModules_named : acrossModules.Named := by
  refine (Library.Named.empty.insert ?_).insert ?_ <;> rfl

theorem acrossModules_tree : ∃ t, acrossModules.tree = .ok t ∧ t.Loaded ∧ Acyclic t (LeafIndex.ofTree t) ∧
    ∀ a b, a < t.size → b < t.size → t.pathString a = t.pathString b → a = b := by
  have hrun : (acrossModules.tree.toOption.any fun t =>
      TypeContext.leadsDown t (LeafIndex.ofTree t) [0, 0, 2, 0, 0, 0, 1] &&
        (List.range t.size).all fun a => (List.range t.size).all fun b =>
          t.pathString a != t.pathString b || a == b) = true := by
    decide +kernel
  obtain ⟨t, ht, hfacts⟩ := (Option.any_eq_true ..).mp hrun
  obtain ⟨hdown, hdistinct⟩ := Bool.and_eq_true_iff.mp hfacts
  have htree := ok_of_toOption ht
  refine ⟨t, htree, ⟨acrossModules, acrossModules_named, htree⟩, Acyclic.of_leadsDown hdown,
    fun a b ha hb hpath => ?_⟩
  have hpair := List.all_eq_true.mp (List.all_eq_true.mp hdistinct a (List.mem_range.mpr ha)) b
    (List.mem_range.mpr hb)
  simpa [hpath] using hpair

theorem acrossModules_tells_unnamed_iff : ∃ t, t.Loaded ∧ Acyclic t (LeafIndex.ofTree t) ∧
    ((∃ problems, t.generate .default = some (.error problems) ∧ problems.contains .enumWithoutContext = true) ↔
      ∃ input leaf type holder m, prepare t .default = .ok input ∧ MapsLeaf input leaf ∧
        (t.node leaf).type = some type ∧ Meets t (LeafIndex.ofTree t) leaf type holder m ∧
          Unnamed t GenerateSettings.default.compression.compresses holder m) := by
  obtain ⟨t, -, hloaded, hacyclic, -⟩ := acrossModules_tree
  exact ⟨t, hloaded, hacyclic, tells_unnamed_iff rfl hacyclic⟩

/-- The enumeration behind the union has no name, though no two nodes share a path and no union leads back. -/
theorem acrossModules_has_unnamed : ∃ t problems, acrossModules.tree = .ok t ∧ t.Loaded ∧
    Acyclic t (LeafIndex.ofTree t) ∧
      (∀ a b, a < t.size → b < t.size → t.pathString a = t.pathString b → a = b) ∧
        t.generate .default = some (.error problems) ∧ problems.contains .enumWithoutContext = true := by
  have hrun : (acrossModules.tree.toOption.any fun t =>
      (problems? (t.generate .default)).any (·.contains .enumWithoutContext)) = true := by
    decide +kernel
  obtain ⟨t, htree, hloaded, hacyclic, hdistinct⟩ := acrossModules_tree
  rw [htree, Except.toOption, Option.any_some] at hrun
  obtain ⟨problems, hproblems, hcontains⟩ := (Option.any_eq_true ..).mp hrun
  exact ⟨t, problems, htree, hloaded, hacyclic, hdistinct, some_error_of_problems? hproblems, hcontains⟩

end Generation

end SchemaIr
