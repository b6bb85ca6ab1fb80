import SchemaIr.Directory.Discovery
import SchemaIr.Proofs.Diagnostic.Settle
import SchemaIr.Proofs.Schema.Descent

/-! # What discovery finds

The walk meets every node that is reached from the roots and that exclusion lets pass (`Passes`), and finds each to be
what it is by itself (`own`): an enumerated leaf, a node of a kind that has no place, or a directory, unless
compression merges the node into the one around it (`isMerged`). Exclusion is looked at for every node on the way
down but the choices and cases right inside others. Of what is found under one path one thing stands. -/

namespace SchemaIr

/-! ### Exclusion -/

namespace SchemaTree

theorem isExcluded_nil (t : SchemaTree) (id : NodeId) : t.isExcluded [] id = false := by
  unfold isExcluded
  split <;> rfl

theorem withoutExcluded_nil (t : SchemaTree) (ids : List NodeId) : t.withoutExcluded [] ids = ids := by
  simp [withoutExcluded, isExcluded_nil]

end SchemaTree

namespace Discovery
open SchemaTree (Offers Descends Reached Regular)

variable {t : SchemaTree} {excluded : List String} {compress : Bool}

/-! ### What exclusion lets pass -/

/-- A choice or case right inside another one. The walk takes what a choice offers at once, and so does not look at
    the choices and cases in it. -/
def isNestedChoice (t : SchemaTree) (id : NodeId) : Bool :=
  (t.kind id).isChoiceOrCase && (t.parent? id).any fun p => (t.kind p).isChoiceOrCase

/-- Neither the node nor anything above it is excluded, nested choices and cases aside. -/
def Passes (t : SchemaTree) (excluded : List String) (id : NodeId) : Prop :=
  ∀ a ∈ t.lineage id, t.isExcluded excluded a = true → isNestedChoice t a = true

theorem passes_nil (t : SchemaTree) (id : NodeId) : Passes t [] id := fun a _ ha => by
  rw [SchemaTree.isExcluded_nil] at ha
  cases ha

/-- Below a node that passes, a node passes unless it is looked at and excluded. -/
theorem passes_of_parent {p c : NodeId} (hparent : t.parent? c = some p) :
    Passes t excluded c ↔ Passes t excluded p ∧ (t.isExcluded excluded c = true → isNestedChoice t c = true) := by
  rw [Passes, SchemaTree.lineage_of_parent hparent, List.forall_mem_cons]
  exact and_comm

theorem isNestedChoice_of_data {c : NodeId} (hdata : (t.kind c).isChoiceOrCase = false) :
    isNestedChoice t c = false := by
  rw [isNestedChoice, hdata, Bool.false_and]

theorem passes_of_data {p c : NodeId} (hparent : t.parent? c = some p)
    (hplain : (t.kind c).isChoiceOrCase = false ∨ (t.kind p).isChoiceOrCase = false) :
    Passes t excluded c ↔ Passes t excluded p ∧ t.isExcluded excluded c = false := by
  have hnested : isNestedChoice t c = false := by
    rcases hplain with hc | hp
    · exact isNestedChoice_of_data hc
    · rw [isNestedChoice, hparent, Option.any_some, hp, Bool.and_false]
  rw [passes_of_parent hparent, hnested]
  simp

/-- What a choice or case offers passes with it, unless it is excluded itself. -/
theorem passes_of_choice (ht : t.Regular) {d c : NodeId} (hd : (t.kind d).isChoiceOrCase = true) (h : Offers t d c) :
    Passes t excluded c ↔ Passes t excluded d ∧ t.isExcluded excluded c = false := by
  induction h with
  | child hc hdata => exact passes_of_data (ht.parent_of_mem hc) (.inl hdata)
  | @through d e c he hchoice _ ih =>
    have hparent := ht.parent_of_mem he
    have hnested : isNestedChoice t e = true := by
      rw [isNestedChoice, hparent, hchoice, Option.any_some, hd, Bool.and_true]
    rw [ih hchoice, passes_of_parent hparent, hnested]
    simp

/-! ### The walk -/

/-- A container that compression merges into the node around it. A choice offers its containers as
    directories of their own. -/
def isMerged (t : SchemaTree) (compress : Bool) (id : NodeId) : Bool :=
  isElided t compress id && !(t.parent? id).any fun p => (t.kind p).isChoiceOrCase

/-- What a node that the walk meets is found to be. -/
def own (t : SchemaTree) (compress : Bool) (id : NodeId) : List Finding :=
  match t.kind id with
  | .leaf | .leafList => leafFinding t id
  | .container | .list => if isMerged t compress id then [] else [.directory id]
  | .choice | .case | .anydata => []
  | .module | .unknown => [.unknownKind id]

/-- What is found at a node that the walk meets, and below it. -/
def met (t : SchemaTree) (excluded : List String) (compress : Bool) (id : NodeId) : List Finding :=
  own t compress id ++ if (t.kind id).isDirectory then walk t excluded compress id else []

theorem isMerged_of_child (ht : t.Regular) (compress : Bool) {p c : NodeId} (hc : c ∈ t.children p)
    (hp : (t.kind p).isChoiceOrCase = false) : isMerged t compress c = isElided t compress c := by
  simp [isMerged, ht.parent_of_mem hc, hp]

theorem isMerged_of_choice (ht : t.Regular) (compress : Bool) {p c : NodeId} (hc : Offers t p c)
    (hp : (t.kind p).isChoiceOrCase = true) : isMerged t compress c = false := by
  obtain ⟨q, hq, hkind⟩ := hc.parent_of_choice ht hp
  simp [isMerged, hq, hkind]

/-- What the walk finds at a node that a choice or case offers, and below it. -/
def metInChoice (t : SchemaTree) (excluded : List String) (compress : Bool) (id : NodeId) : List Finding :=
  match t.kind id with
  | .leaf | .leafList => leafFinding t id
  | .container | .list => .directory id :: walk t excluded compress id
  | .anydata => []
  | .choice | .case | .module | .unknown => [.unknownKind id]

/-- What a choice or case offers is found as what it is, and the walk goes on below it. -/
theorem met_of_choice (ht : t.Regular) {p c : NodeId} (hc : Offers t p c) (hp : (t.kind p).isChoiceOrCase = true) :
    met t excluded compress c = metInChoice t excluded compress c := by
  have hmerged := isMerged_of_choice ht compress hc hp
  have hdata := hc.isChoiceOrCase
  unfold met own metInChoice
  cases hkind : t.kind c <;> simp_all [NodeKind.isChoiceOrCase, NodeKind.isDirectory]

/-- The walk goes on with what a node offers and exclusion lets pass. -/
theorem mem_walk_step (ht : t.Regular) {p : NodeId} (hp : (t.kind p).isChoiceOrCase = false)
    (hpasses : Passes t excluded p) {f : Finding} : f ∈ walk t excluded compress p ↔
      ∃ c, Offers t p c ∧ Passes t excluded c ∧ f ∈ met t excluded compress c := by
  rw [walk]
  constructor
  · intro hf
    obtain ⟨⟨c, hc⟩, -, hf⟩ := List.mem_flatMap.mp hf
    have hmerged := isMerged_of_child ht compress hc hp
    dsimp only at hf
    split at hf
    · cases hf
    · rename_i hexcluded
      have hpass : Passes t excluded c :=
        (passes_of_data (ht.parent_of_mem hc) (.inr hp)).mpr ⟨hpasses, by simpa using hexcluded⟩
      cases hkind : t.kind c with
      | choice | case =>
        have hchoice : (t.kind c).isChoiceOrCase = true := by rw [hkind]; rfl
        simp only [hkind] at hf
        obtain ⟨⟨d, hd⟩, -, hf⟩ := List.mem_flatMap.mp hf
        have hoffers := SchemaTree.mem_dataChildren.mp hd
        dsimp only at hf
        split at hf
        · cases hf
        · rename_i hexcluded'
          refine ⟨d, .through hc hchoice hoffers, ?_, ?_⟩
          · exact (passes_of_choice ht hchoice hoffers).mpr ⟨hpass, by simpa using hexcluded'⟩
          · rwa [met_of_choice ht hoffers hchoice]
      | container | list =>
        refine ⟨c, .child hc (by rw [hkind]; rfl), hpass, ?_⟩
        cases helided : isElided t compress c <;>
          simpa [met, own, hkind, hmerged, helided, NodeKind.isDirectory] using hf
      | anydata =>
        rw [hkind] at hf
        cases hf
      | leaf | leafList | module | unknown =>
        refine ⟨c, .child hc (by rw [hkind]; rfl), hpass, ?_⟩
        simpa [met, own, hkind, NodeKind.isDirectory] using hf
  · rintro ⟨c, hoffers, hpass, hf⟩
    cases hoffers with
    | child hc hdata =>
      have hmerged := isMerged_of_child ht compress hc hp
      have hexcluded := ((passes_of_data (ht.parent_of_mem hc) (.inr hp)).mp hpass).2
      refine List.mem_flatMap.mpr ⟨⟨c, hc⟩, List.mem_attach _ _, ?_⟩
      cases hkind : t.kind c with
      | choice | case =>
        rw [hkind] at hdata
        cases hdata
      | container | list =>
        cases helided : isElided t compress c <;>
          simpa [met, own, hkind, hmerged, helided, hexcluded, NodeKind.isDirectory] using hf
      | anydata => simp [met, own, hkind, NodeKind.isDirectory] at hf
      | leaf | leafList | module | unknown =>
        simpa [met, own, hkind, hexcluded, NodeKind.isDirectory] using hf
    | @through _ d _ hd hchoice hoffers =>
      obtain ⟨hpass, hexcluded⟩ := (passes_of_choice ht hchoice hoffers).mp hpass
      have hexcluded' := ((passes_of_data (ht.parent_of_mem hd) (.inr hp)).mp hpass).2
      rw [met_of_choice ht hoffers hchoice] at hf
      have hmem : f ∈ (t.dataChildren d).attach.flatMap fun x =>
          if t.isExcluded excluded x.1 then [] else metInChoice t excluded compress x.1 :=
        List.mem_flatMap.mpr ⟨⟨c, SchemaTree.mem_dataChildren.mpr hoffers⟩, List.mem_attach _ _, by simpa [hexcluded] using hf⟩
      refine List.mem_flatMap.mpr ⟨⟨d, hd⟩, List.mem_attach _ _, ?_⟩
      cases hkind : t.kind d <;> rw [hkind] at hchoice <;> cases hchoice
      all_goals
        simp only [hkind, hexcluded', Bool.false_eq_true, ↓reduceIte]
        exact hmem

/-- The directories that the walk finds are containers and lists, whatever the tree. -/
theorem isDirectory_of_mem_walk {p d : NodeId} (h : .directory d ∈ walk t excluded compress p) :
    (t.kind d).isDirectory = true := by
  have hleaf : ∀ c, .directory d ∉ leafFinding t c := fun c hc => by
    unfold leafFinding at hc
    split at hc <;> simp at hc
  induction p using walk.induct t with
  | case1 p ih ihChoice =>
    rw [walk] at h
    obtain ⟨⟨c, hc⟩, -, h⟩ := List.mem_flatMap.mp h
    dsimp only at h
    split at h
    · cases h
    · cases hkind : t.kind c with
      | leaf | leafList =>
        simp only [hkind] at h
        exact absurd h (hleaf c)
      | container | list =>
        simp only [hkind] at h
        split at h
        · exact ih c hc h
        · rcases List.mem_cons.mp h with heq | h
          · cases heq
            rw [hkind]
            rfl
          · exact ih c hc h
      | choice | case =>
        simp only [hkind] at h
        obtain ⟨⟨e, he⟩, -, h⟩ := List.mem_flatMap.mp h
        dsimp only at h
        split at h
        · cases h
        · cases hoffered : t.kind e with
          | leaf | leafList =>
            simp only [hoffered] at h
            exact absurd h (hleaf e)
          | container | list =>
            simp only [hoffered] at h
            rcases List.mem_cons.mp h with heq | h
            · cases heq
              rw [hoffered]
              rfl
            · exact ihChoice c hc e he h
          | anydata | choice | case | module | unknown => simp [hoffered] at h
      | anydata | module | unknown => simp [hkind] at h

theorem mem_met_iff {f : Finding} {c : NodeId} : f ∈ met t excluded compress c ↔
    f ∈ own t compress c ∨ (t.kind c).isDirectory = true ∧ f ∈ walk t excluded compress c := by
  cases h : (t.kind c).isDirectory <;> simp [met, h]

theorem Passes.of_offers (ht : t.Regular) {p c : NodeId} (h : Offers t p c) (hc : Passes t excluded c) :
    Passes t excluded p := by
  induction h with
  | child hmem _ => exact ((passes_of_parent (ht.parent_of_mem hmem)).mp hc).1
  | through hmem _ _ ih => exact ((passes_of_parent (ht.parent_of_mem hmem)).mp (ih hc)).1

/-- What stands above a node that passes does, too. -/
theorem Passes.of_descends (ht : t.Regular) {p c : NodeId} (h : Descends t p c) (hc : Passes t excluded c) :
    Passes t excluded p := by
  induction h with
  | offered ho => exact .of_offers ht ho hc
  | deeper ho _ _ ih => exact .of_offers ht ho (ih hc)

/-- The walk finds the nodes below that pass to be what they are. -/
theorem mem_walk_iff (ht : t.Regular) {p : NodeId} (hp : (t.kind p).isChoiceOrCase = false)
    (hpasses : Passes t excluded p) {f : Finding} : f ∈ walk t excluded compress p ↔
      ∃ c, Descends t p c ∧ Passes t excluded c ∧ f ∈ own t compress c := by
  constructor
  · induction hn : t.size - p using Nat.strongRecOn generalizing p with
    | ind n ih =>
      intro hf
      obtain ⟨c, ho, hpass, hf⟩ := (mem_walk_step ht hp hpasses).mp hf
      rcases mem_met_iff.mp hf with hown | ⟨hkind, hbelow⟩
      · exact ⟨c, .offered ho, hpass, hown⟩
      · have hb := ho.bounds
        obtain ⟨d, hd, hpass', hown⟩ :=
          ih (t.size - c) (by omega) (NodeKind.isChoiceOrCase_of_isDirectory hkind) hpass rfl hbelow
        exact ⟨d, .deeper ho hkind hd, hpass', hown⟩
  · rintro ⟨c, hd, hpass, hown⟩
    induction hd with
    | offered ho => exact (mem_walk_step ht hp hpasses).mpr ⟨_, ho, hpass, mem_met_iff.mpr (.inl hown)⟩
    | deeper ho hkind hd ih =>
      have hpass' := Passes.of_descends ht hd hpass
      have hbelow := ih (NodeKind.isChoiceOrCase_of_isDirectory hkind) hpass' hpass hown
      exact (mem_walk_step ht hp hpasses).mpr ⟨_, ho, hpass', mem_met_iff.mpr (.inr ⟨hkind, hbelow⟩)⟩

theorem kind_of_mem_generationRoots (ht : t.Regular) {r : NodeId} (h : r ∈ t.generationRoots) :
    t.kind r = .module := by
  obtain ⟨name, hname⟩ := SchemaTree.mem_generationRoots h
  exact (ht.root hname).2.2.2

/-- What descends from the roots of modules and passes is found to be what it is, and nothing else is found. -/
theorem mem_findings_of_roots_iff (ht : t.Regular) {roots : List NodeId}
    (hroots : ∀ r ∈ roots, ∃ name, t.roots.get? name = some r) {f : Finding} :
    f ∈ findings t roots excluded compress ↔
      ∃ c, (∃ r ∈ roots, Descends t r c) ∧ Passes t excluded c ∧ f ∈ own t compress c := by
  have hroot : ∀ {r : NodeId}, r ∈ roots → (t.kind r).isChoiceOrCase = false := fun hr => by
    obtain ⟨name, hname⟩ := hroots _ hr
    rw [(ht.root hname).2.2.2]
    rfl
  have hpasses : ∀ {r : NodeId}, r ∈ roots → (Passes t excluded r ↔ t.isExcluded excluded r = false) := by
    intro r hr
    obtain ⟨name, hname⟩ := hroots r hr
    rw [Passes, SchemaTree.lineage_of_root (ht.root hname).2.1, List.forall_mem_singleton, isNestedChoice_of_data (hroot hr)]
    simp
  rw [findings, List.mem_flatMap]
  constructor
  · rintro ⟨r, hr, hf⟩
    obtain ⟨hr, hexcluded⟩ := List.mem_filter.mp hr
    have hpass := (hpasses hr).mpr (by simpa using hexcluded)
    obtain ⟨c, hd, hc, hown⟩ := (mem_walk_iff ht (hroot hr) hpass).mp hf
    exact ⟨c, ⟨r, hr, hd⟩, hc, hown⟩
  · rintro ⟨c, ⟨r, hr, hd⟩, hc, hown⟩
    have hpass := Passes.of_descends ht hd hc
    refine ⟨r, List.mem_filter.mpr ⟨hr, by simpa using (hpasses hr).mp hpass⟩, ?_⟩
    exact (mem_walk_iff ht (hroot hr) hpass).mpr ⟨c, hd, hc, hown⟩

/-- What is reached and passes is found to be what it is, and nothing else is found. -/
theorem mem_findings_passes_iff (ht : t.Regular) {f : Finding} :
    f ∈ findings t t.generationRoots excluded compress ↔
      ∃ c, Reached t c ∧ Passes t excluded c ∧ f ∈ own t compress c :=
  mem_findings_of_roots_iff ht fun _ hr => SchemaTree.mem_generationRoots hr

/-- Where nothing is excluded, all that is reached is found to be what it is. -/
theorem mem_findings_iff (ht : t.Regular) {f : Finding} :
    f ∈ findings t t.generationRoots [] compress ↔ ∃ c, Reached t c ∧ f ∈ own t compress c := by
  rw [mem_findings_passes_iff ht]
  exact exists_congr fun c => and_congr_right fun _ => and_iff_right (passes_nil t c)

theorem directory_mem_own_iff {c d : NodeId} : .directory d ∈ own t compress c ↔
    d = c ∧ (t.kind c).isDirectory = true ∧ isMerged t compress c = false := by
  unfold own leafFinding
  cases t.kind c <;> cases isMerged t compress c <;> cases isEnumLeaf t c <;> simp [NodeKind.isDirectory]

theorem enumLeaf_mem_own_iff {c d : NodeId} : .enumLeaf d ∈ own t compress c ↔
    d = c ∧ (t.kind c).isLeafLike = true ∧ isEnumLeaf t c = true := by
  unfold own leafFinding
  cases t.kind c <;> cases isMerged t compress c <;> cases isEnumLeaf t c <;> simp [NodeKind.isLeafLike]

/-- A container or list is found unless it is merged. -/
theorem directory_mem_findings_iff (ht : t.Regular) {d : NodeId} :
    .directory d ∈ findings t t.generationRoots [] compress ↔
      Reached t d ∧ (t.kind d).isDirectory = true ∧ isMerged t compress d = false := by
  simp only [mem_findings_iff ht, directory_mem_own_iff]
  constructor
  · rintro ⟨c, hc, rfl, hkind, hmerged⟩
    exact ⟨hc, hkind, hmerged⟩
  · rintro ⟨hd, hkind, hmerged⟩
    exact ⟨d, hd, rfl, hkind, hmerged⟩

theorem enumLeaf_mem_findings_iff (ht : t.Regular) {d : NodeId} :
    .enumLeaf d ∈ findings t t.generationRoots [] compress ↔
      Reached t d ∧ (t.kind d).isLeafLike = true ∧ isEnumLeaf t d = true := by
  simp only [mem_findings_iff ht, enumLeaf_mem_own_iff]
  constructor
  · rintro ⟨c, hc, rfl, hkind, henum⟩
    exact ⟨hc, hkind, henum⟩
  · rintro ⟨hd, hkind, henum⟩
    exact ⟨d, hd, rfl, hkind, henum⟩

/-! ### Where modules are excluded -/

/-- A container or list is found unless it is merged or does not pass. -/
theorem directory_mem_findings_passes_iff (ht : t.Regular) {d : NodeId} :
    .directory d ∈ findings t t.generationRoots excluded compress ↔
      Reached t d ∧ (t.kind d).isDirectory = true ∧ isMerged t compress d = false ∧ Passes t excluded d := by
  simp only [mem_findings_passes_iff ht, directory_mem_own_iff]
  constructor
  · rintro ⟨c, hc, hpass, rfl, hkind, hmerged⟩
    exact ⟨hc, hkind, hmerged, hpass⟩
  · rintro ⟨hd, hkind, hmerged, hpass⟩
    exact ⟨d, hd, hpass, rfl, hkind, hmerged⟩

/-- Nothing more is found where modules are excluded. -/
theorem findings_subset (ht : t.Regular) (excluded : List String) :
    findings t t.generationRoots excluded compress ⊆ findings t t.generationRoots [] compress := by
  intro f hf
  obtain ⟨c, hc, -, hown⟩ := (mem_findings_passes_iff ht).mp hf
  exact (mem_findings_iff ht).mpr ⟨c, hc, hown⟩

/-! ### What stands under a path -/

variable {found : List Finding} {path : String}

theorem get?_directories_eq_some {m : MappedDirectory} (h : (directories t found).get? path = some m) :
    ∃ d, m = .schema d ∧ .directory d ∈ found ∧ t.pathString d = path := by
  rw [directories, Table.get?_ofList] at h
  obtain ⟨f, hf, heq⟩ := List.mem_filterMap.mp (List.mem_reverse.mp (Entries.mem_of_find? h))
  split at heq
  · rename_i d
    cases heq
    exact ⟨d, rfl, hf, rfl⟩
  · cases heq

theorem exists_get?_directories {d : NodeId} (h : .directory d ∈ found) :
    ∃ e, (directories t found).get? (t.pathString d) = some (.schema e) := by
  cases hget : (directories t found).get? (t.pathString d) with
  | some m =>
    obtain ⟨e, rfl, -⟩ := get?_directories_eq_some hget
    exact ⟨e, rfl⟩
  | none =>
    rw [directories, Table.get?_ofList] at hget
    refine absurd rfl (Entries.find?_eq_none_iff.mp hget (t.pathString d, .schema d) (List.mem_reverse.mpr ?_))
    exact List.mem_filterMap.mpr ⟨_, h, rfl⟩

theorem get?_enumLeaves_eq_some {d : NodeId} (h : (enumLeaves t found).get? path = some d) :
    .enumLeaf d ∈ found ∧ t.pathString d = path := by
  rw [enumLeaves, Table.get?_ofList] at h
  obtain ⟨f, hf, heq⟩ := List.mem_filterMap.mp (List.mem_reverse.mp (Entries.mem_of_find? h))
  split at heq
  · cases heq
    exact ⟨hf, rfl⟩
  · cases heq

theorem exists_get?_enumLeaves {d : NodeId} (h : .enumLeaf d ∈ found) :
    ∃ e, (enumLeaves t found).get? (t.pathString d) = some e := by
  refine Option.ne_none_iff_exists'.mp fun hget => ?_
  rw [enumLeaves, Table.get?_ofList] at hget
  refine absurd rfl (Entries.find?_eq_none_iff.mp hget (t.pathString d, d) (List.mem_reverse.mpr ?_))
  exact List.mem_filterMap.mpr ⟨_, h, rfl⟩

end Discovery

end SchemaIr
