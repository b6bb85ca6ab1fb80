import Mathlib.Data.List.Forall2
import SchemaIr.Proofs.Diagnostic.Order
import SchemaIr.Proofs.Directory.Fields
import SchemaIr.Proofs.Table.Order

/-! # Which candidate becomes a field

What each child of a directory contributes, and in which order, is said here by rules (`Sequence`), from the children
in name order (`Listed`) upwards. For every directory the rules give exactly one list of candidates, and the first
candidate of a name becomes its field, unless a direct one has a direct one of its name behind it
(`fields_resolves`). -/

namespace SchemaIr

/-! ### Lists put together -/

/-- One list after the other, where a relation gives a list for each element. -/
def Joins {α β : Type} (R : α → List β → Prop) (as : List α) (bs : List β) : Prop :=
  ∃ pieces, List.Forall₂ R as pieces ∧ bs = pieces.flatten

theorem forall₂_iff_eq_map {α β : Type} {R : α → β → Prop} {f : α → β} {as : List α}
    (h : ∀ a ∈ as, ∀ b, R a b ↔ b = f a) {bs : List β} : List.Forall₂ R as bs ↔ bs = as.map f := by
  induction as generalizing bs with
  | nil => simp
  | cons a as ih =>
    obtain ⟨ha, has⟩ := List.forall_mem_cons.mp h
    rw [List.forall₂_cons_left_iff, List.map_cons]
    constructor
    · rintro ⟨b, bs, hb, hbs, rfl⟩
      rw [(ha b).mp hb, (ih has).mp hbs]
    · rintro rfl
      exact ⟨f a, as.map f, (ha _).mpr rfl, (ih has).mpr rfl, rfl⟩

theorem joins_iff {α β : Type} {R : α → List β → Prop} {f : α → List β} {as : List α}
    (h : ∀ a ∈ as, ∀ piece, R a piece ↔ piece = f a) {bs : List β} : Joins R as bs ↔ bs = as.flatMap f := by
  rw [List.flatMap_def]
  constructor
  · rintro ⟨pieces, hpieces, rfl⟩
    rw [(forall₂_iff_eq_map h).mp hpieces]
  · rintro rfl
    exact ⟨_, (forall₂_iff_eq_map h).mpr rfl, rfl⟩

namespace Fields

variable {t : SchemaTree} {compression : Compression} {noState : Bool} {dir c : NodeId}

/-! ### What stands where -/

/-- The children of a node in the order of the names under which they stand. -/
def Listed (t : SchemaTree) (id : NodeId) (cs : List NodeId) : Prop :=
  ∃ es : List (String × NodeId), es.Pairwise (fun a b => a.1 < b.1) ∧
    (∀ name c, (name, c) ∈ es ↔ t.child? id name = some c) ∧ cs = es.map Prod.snd

/-- What stands for a node in the data tree, in name order: what its children stand for, if it is a choice or case, and
    the node itself otherwise. -/
inductive Stands (t : SchemaTree) : NodeId → List NodeId → Prop
  | self {c : NodeId} : (t.kind c).isChoiceOrCase = false → Stands t c [c]
  | children {c : NodeId} {cs : List NodeId} {pieces : List (List NodeId)} : (t.kind c).isChoiceOrCase = true →
      Listed t c cs → List.Forall₂ (Stands t) cs pieces → Stands t c pieces.flatten

/-- A container whose only child is a list. -/
structure Surrounds (t : SchemaTree) (c list : NodeId) : Prop where
  container : t.kind c = .container
  only : Listed t c [list]
  list : t.kind list = .list

/-- A container named `config` or `state`. -/
structure IsWrapper (t : SchemaTree) (c : NodeId) : Prop where
  container : t.kind c = .container
  name : t.name c = "config" ∨ t.name c = "state"

/-- A leafref leaf that is named as a key of its writable list. -/
structure RepeatsKey (t : SchemaTree) (dir c : NodeId) : Prop where
  list : t.kind dir = .list
  config : t.isConfig dir = true
  leaf : t.kind c = .leaf
  key : t.name c ∈ (t.node dir).keyNames
  leafref : ∃ type, (t.node c).type = some type ∧ type.kind = .leafref

/-- What a child of a wrapper contributes. -/
inductive Member (t : SchemaTree) : NodeId → List Candidate → Prop
  | list {c list : NodeId} : Surrounds t c list → Member t c [⟨list, .wrapper⟩]
  | other {c : NodeId} {ids : List NodeId} : (∀ list, ¬Surrounds t c list) → Stands t c ids →
      Member t c (ids.map (⟨·, .wrapper⟩))

/-- What a wrapper contributes: nothing, if it is state and state is left out. -/
inductive Merged (t : SchemaTree) (noState : Bool) : NodeId → List Candidate → Prop
  | leftOut {w : NodeId} : noState = true → t.isConfig w = false → Merged t noState w []
  | members {w : NodeId} {children : List NodeId} {cs : List Candidate} : (noState = true → t.isConfig w = true) →
      Listed t w children → Joins (Member t) children cs → Merged t noState w cs

/-- What a child of a directory contributes under compression. -/
inductive Contributes (t : SchemaTree) (noState : Bool) (dir : NodeId) : NodeId → List Candidate → Prop
  | wrapper {c : NodeId} {cs : List Candidate} : IsWrapper t c → Merged t noState c cs → Contributes t noState dir c cs
  | list {c list : NodeId} : ¬IsWrapper t c → Surrounds t c list → Contributes t noState dir c [⟨list, .direct⟩]
  | key {c : NodeId} : ¬IsWrapper t c → (∀ list, ¬Surrounds t c list) → RepeatsKey t dir c →
      Contributes t noState dir c []
  | other {c : NodeId} {ids : List NodeId} : ¬IsWrapper t c → (∀ list, ¬Surrounds t c list) → ¬RepeatsKey t dir c →
      Stands t c ids → Contributes t noState dir c (ids.map (⟨·, .direct⟩))

/-- What a child of a directory contributes without compression. -/
def Offered (t : SchemaTree) (c : NodeId) (cs : List Candidate) : Prop :=
  ∃ ids, Stands t c ids ∧ cs = ids.map (⟨·, .direct⟩)

/-- All that a directory has to offer, before any of it is left out as state. -/
inductive Source (t : SchemaTree) (compression : Compression) (dir : NodeId) : List Candidate → Prop
  | uncompressed {children : List NodeId} {cs : List Candidate} : compression.compresses = false →
      Listed t dir children → Joins (Offered t) children cs → Source t compression dir cs
  /-- The members of the preferred wrapper come first. -/
  | preferring {w : NodeId} {children : List NodeId} {first rest : List Candidate} : compression.compresses = true →
      t.child? dir compression.preferred = some w → IsWrapper t w → Merged t compression.excludesState w first →
      Listed t dir children → Joins (Contributes t compression.excludesState dir) (children.filter (· ≠ w)) rest →
      Source t compression dir (first ++ rest)
  | compressed {children : List NodeId} {cs : List Candidate} : compression.compresses = true →
      (∀ w, t.child? dir compression.preferred = some w → ¬IsWrapper t w) →
      Listed t dir children → Joins (Contributes t compression.excludesState dir) children cs →
      Source t compression dir cs

/-- The candidates of a directory in the order in which they are to become fields. -/
inductive Sequence (t : SchemaTree) (compression : Compression) (dir : NodeId) : List Candidate → Prop
  | state : compression.excludesState = true → t.isConfig dir = false → Sequence t compression dir []
  | all {cs : List Candidate} : compression.excludesState = false → Source t compression dir cs →
      Sequence t compression dir cs
  | config {cs : List Candidate} : compression.excludesState = true → t.isConfig dir = true →
      Source t compression dir cs → Sequence t compression dir (cs.filter (t.isConfig ·.node))

/-! ### What the rules give -/

theorem listed_iff {id : NodeId} {cs : List NodeId} : Listed t id cs ↔ cs = t.children id := by
  constructor
  · rintro ⟨es, hsorted, hmem, rfl⟩
    have htable : (⟨es, hsorted⟩ : Table NodeId) = t.childTable id := by
      refine Table.ext_get? fun name => Option.ext fun c => ?_
      exact Table.get?_eq_some_iff.trans (hmem name c)
    rw [SchemaTree.children, ← htable, Table.values]
  · rintro rfl
    exact ⟨(t.childTable id).entries, (t.childTable id).sorted, fun _ _ => Table.get?_eq_some_iff.symm, rfl⟩

theorem stands_iff {ids : List NodeId} :
    Stands t c ids ↔ ids = if (t.kind c).isChoiceOrCase then t.dataChildren c else [c] := by
  induction c using SchemaTree.dataChildren.induct t generalizing ids with
  | case1 c ih =>
    cases hchoice : (t.kind c).isChoiceOrCase with
    | false =>
      constructor
      · intro h
        cases h with
        | self _ => rfl
        | children h => rw [hchoice] at h; cases h
      · rintro rfl
        exact .self hchoice
    | true =>
      have hjoins : Stands t c ids ↔ Joins (Stands t) (t.children c) ids := by
        constructor
        · intro h
          cases h with
          | self h => rw [hchoice] at h; cases h
          | children _ hlisted hpieces => exact ⟨_, listed_iff.mp hlisted ▸ hpieces, rfl⟩
        · rintro ⟨pieces, hpieces, rfl⟩
          exact .children hchoice (listed_iff.mpr rfl) hpieces
      rw [hjoins, joins_iff fun d hd _ => ih d hd, SchemaTree.dataChildren_eq]
      rfl

theorem wrappedList?_eq_some_iff {list : NodeId} : t.wrappedList? c = some list ↔ Surrounds t c list := by
  constructor
  · intro h
    obtain ⟨hkind, hchildren, hlist⟩ := wrappedList?_eq_some h
    exact ⟨hkind, listed_iff.mpr hchildren.symm, hlist⟩
  · rintro ⟨hkind, honly, hlist⟩
    simp [SchemaTree.wrappedList?, hkind, ← listed_iff.mp honly, hlist]

theorem wrappedList?_eq_none_iff : t.wrappedList? c = none ↔ ∀ list, ¬Surrounds t c list := by
  simp only [← wrappedList?_eq_some_iff, Option.eq_none_iff_forall_ne_some, ne_eq]

theorem isConfigOrState_iff : t.isConfigOrState c = true ↔ IsWrapper t c := by
  simp only [SchemaTree.isConfigOrState, Bool.and_eq_true, Bool.or_eq_true, beq_iff_eq]
  exact ⟨fun h => ⟨h.1, h.2⟩, fun h => ⟨h.container, h.name⟩⟩

theorem isOwnLeafrefKey_iff : isOwnLeafrefKey t dir c = true ↔ RepeatsKey t dir c := by
  have hleafref : (t.node c).isLeafref = true ↔ ∃ type, (t.node c).type = some type ∧ type.kind = .leafref := by
    unfold Node.isLeafref TypeDescriptor.isLeafref
    cases (t.node c).type <;> simp
  simp only [isOwnLeafrefKey, Bool.and_eq_true, beq_iff_eq, List.contains_iff_mem, hleafref]
  exact ⟨fun ⟨⟨⟨⟨hlist, hconfig⟩, hleaf⟩, hkey⟩, href⟩ => ⟨hlist, hconfig, hleaf, hkey, href⟩,
    fun h => ⟨⟨⟨⟨h.list, h.config⟩, h.leaf⟩, h.key⟩, h.leafref⟩⟩

theorem member_iff {cs : List Candidate} : Member t c cs ↔ cs = match t.wrappedList? c with
    | some list => [⟨list, .wrapper⟩]
    | none => resolve t .wrapper c := by
  cases hlist : t.wrappedList? c with
  | some list =>
    have hsurrounds := wrappedList?_eq_some_iff.mp hlist
    constructor
    · intro h
      cases h with
      | list h => rw [Option.some.inj (hlist.symm.trans (wrappedList?_eq_some_iff.mpr h))]
      | other h => exact absurd hsurrounds (h list)
    · rintro rfl
      exact .list hsurrounds
  | none =>
    have hnone := wrappedList?_eq_none_iff.mp hlist
    constructor
    · intro h
      cases h with
      | list h => exact absurd h (hnone _)
      | other _ hstands => rw [stands_iff.mp hstands, resolve]
    · rintro rfl
      exact .other hnone (stands_iff.mpr rfl)

theorem merged_iff {cs : List Candidate} : Merged t noState c cs ↔ cs = ofWrapper t noState c := by
  have hjoins : Joins (Member t) (t.children c) cs ↔ cs = (t.children c).flatMap fun d =>
      match t.wrappedList? d with
      | some list => [⟨list, .wrapper⟩]
      | none => resolve t .wrapper d := joins_iff fun d _ _ => member_iff (c := d)
  unfold ofWrapper
  split
  · rename_i hkept
    constructor
    · intro h
      cases h with
      | leftOut hno hstate => rw [isKept_iff.mp hkept hno] at hstate; cases hstate
      | members _ hlisted h => exact hjoins.mp (listed_iff.mp hlisted ▸ h)
    · intro h
      exact .members (isKept_iff.mp hkept) (listed_iff.mpr rfl) (hjoins.mpr h)
  · rename_i hleft
    rw [isKept_iff, Classical.not_imp, Bool.not_eq_true] at hleft
    constructor
    · intro h
      cases h with
      | leftOut => rfl
      | members hkept => rw [hkept hleft.1] at hleft; cases hleft.2
    · rintro rfl
      exact .leftOut hleft.1 hleft.2

theorem contributes_iff {cs : List Candidate} : Contributes t noState dir c cs ↔ cs = ofChild t noState dir c := by
  unfold ofChild
  by_cases hwrapper : IsWrapper t c
  · rw [if_pos (isConfigOrState_iff.mpr hwrapper), ← merged_iff]
    refine ⟨fun h => ?_, .wrapper hwrapper⟩
    cases h with
    | wrapper _ h => exact h
    | list h | key h | other h => exact absurd hwrapper h
  rw [if_neg fun h => hwrapper (isConfigOrState_iff.mp h)]
  cases hlist : t.wrappedList? c with
  | some list =>
    have hsurrounds := wrappedList?_eq_some_iff.mp hlist
    constructor
    · intro h
      cases h with
      | wrapper h => exact absurd h hwrapper
      | list _ h => rw [Option.some.inj (hlist.symm.trans (wrappedList?_eq_some_iff.mpr h))]
      | key _ h | other _ h => exact absurd hsurrounds (h list)
    · rintro rfl
      exact .list hwrapper hsurrounds
  | none =>
    have hnone := wrappedList?_eq_none_iff.mp hlist
    by_cases hkey : RepeatsKey t dir c
    · rw [if_pos (isOwnLeafrefKey_iff.mpr hkey)]
      constructor
      · intro h
        cases h with
        | wrapper h => exact absurd h hwrapper
        | list _ h => exact absurd h (hnone _)
        | key => rfl
        | other _ _ h => exact absurd hkey h
      · rintro rfl
        exact .key hwrapper hnone hkey
    · rw [if_neg fun h => hkey (isOwnLeafrefKey_iff.mp h)]
      constructor
      · intro h
        cases h with
        | wrapper h => exact absurd h hwrapper
        | list _ h => exact absurd h (hnone _)
        | key _ _ h => exact absurd h hkey
        | other _ _ _ hstands => rw [stands_iff.mp hstands, resolve]
      · rintro rfl
        exact .other hwrapper hnone hkey (stands_iff.mpr rfl)

theorem offered_iff {cs : List Candidate} : Offered t c cs ↔ cs = resolve t .direct c := by
  constructor
  · rintro ⟨ids, hstands, rfl⟩
    rw [stands_iff.mp hstands, resolve]
  · rintro rfl
    exact ⟨_, stands_iff.mpr rfl, rfl⟩

theorem source_iff {cs : List Candidate} : Source t compression dir cs ↔ cs = sources t compression dir := by
  unfold sources
  by_cases hcomp : compression.compresses = true
  · rw [if_pos hcomp]
    have hjoins : ∀ {children : List NodeId} {cs : List Candidate},
        Joins (Contributes t compression.excludesState dir) children cs ↔
          cs = children.flatMap (ofChild t compression.excludesState dir) :=
      joins_iff fun d _ _ => contributes_iff (c := d)
    cases hfirst : preferred? t compression dir with
    | some w =>
      obtain ⟨hchild, hw⟩ := Option.filter_eq_some_iff.mp hfirst
      constructor
      · intro h
        cases h with
        | uncompressed h => rw [hcomp] at h; cases h
        | preferring _ hchild' _ hmerged hlisted hrest =>
          cases Option.some.inj (hchild.symm.trans hchild')
          rw [listed_iff.mp hlisted] at hrest
          rw [merged_iff.mp hmerged, hjoins.mp hrest]
          simp
        | compressed _ hnone => exact absurd (isConfigOrState_iff.mp hw) (hnone w hchild)
      · rintro rfl
        refine .preferring hcomp hchild (isConfigOrState_iff.mp hw) (merged_iff.mpr rfl) (listed_iff.mpr rfl) ?_
        exact hjoins.mpr (by simp)
    | none =>
      have hnone : ∀ w, t.child? dir compression.preferred = some w → ¬IsWrapper t w := fun w hchild hw => by
        rw [preferred?, hchild, Option.filter_some, if_pos (isConfigOrState_iff.mpr hw)] at hfirst
        cases hfirst
      constructor
      · intro h
        cases h with
        | uncompressed h => rw [hcomp] at h; cases h
        | preferring _ hchild hw => exact absurd hw (hnone _ hchild)
        | compressed _ _ hlisted hrest =>
          rw [listed_iff.mp hlisted] at hrest
          rw [hjoins.mp hrest]
          simp
      · rintro rfl
        exact .compressed hcomp hnone (listed_iff.mpr rfl) (hjoins.mpr (by simp))
  · rw [if_neg hcomp]
    have hjoins : Joins (Offered t) (t.children dir) cs ↔ cs = (t.children dir).flatMap (resolve t .direct) :=
      joins_iff fun d _ _ => offered_iff (c := d)
    constructor
    · intro h
      cases h with
      | uncompressed _ hlisted h => exact hjoins.mp (listed_iff.mp hlisted ▸ h)
      | preferring h | compressed h => exact absurd h hcomp
    · intro h
      exact .uncompressed (Bool.eq_false_iff.mpr hcomp) (listed_iff.mpr rfl) (hjoins.mpr h)

/-- The candidates of a directory that is kept, and none of one that is left out as state. -/
theorem sequence_iff {cs : List Candidate} : Sequence t compression dir cs ↔
    cs = if isKept t compression.excludesState dir then candidates t compression dir else [] := by
  have hsource : ∀ {cs}, Source t compression dir cs ↔ cs = sources t compression dir := source_iff
  unfold candidates
  cases hno : compression.excludesState with
  | false =>
    simp only [isKept, Bool.not_false, Bool.true_or, if_true, List.filter_true]
    constructor
    · intro h
      cases h with
      | state h | config h => rw [hno] at h; cases h
      | all _ h => exact hsource.mp h
    · intro h
      exact .all hno (hsource.mpr h)
  | true =>
    simp only [isKept, Bool.not_true, Bool.false_or]
    cases hdir : t.isConfig dir with
    | false =>
      constructor
      · intro h
        cases h with
        | state => rfl
        | all h => rw [hno] at h; cases h
        | config _ h => rw [hdir] at h; cases h
      · rintro rfl
        exact .state hno hdir
    | true =>
      constructor
      · intro h
        cases h with
        | state _ h => rw [hdir] at h; cases h
        | all h => rw [hno] at h; cases h
        | config _ _ h => rw [hsource.mp h]; rfl
      · rintro rfl
        exact .config hno hdir (hsource.mpr rfl)

/-! ### What becomes of the candidates -/

/-- The first candidate of a name. -/
def First (t : SchemaTree) (cs : List Candidate) (name : String) (first : Candidate) : Prop :=
  ∃ before after, cs = before ++ first :: after ∧ t.name first.node = name ∧ ∀ c ∈ before, t.name c.node ≠ name

/-- Behind the first candidate of a name, which is direct, stands another direct one. -/
structure Clash (t : SchemaTree) (cs : List Candidate) (first second : Candidate) : Prop where
  direct : first.origin = .direct ∧ second.origin = .direct
  behind : ∃ before after, cs = before ++ second :: after ∧ First t before (t.name second.node) first

/-- What is to become of the candidates of a directory: the errors of all clashes in order, or, if there is none, the
    first candidate of each name. -/
inductive Resolves (t : SchemaTree) (dir : NodeId) (cs : List Candidate) : Except Diagnostics (Table NodeId) → Prop
  | clash {problems : Diagnostics} : (∃ first second, Clash t cs first second) →
      problems.items.Pairwise Diagnostic.Before →
      (∀ d, d ∈ problems.items ↔ ∃ first second, Clash t cs first second ∧ d = clashError t dir (first, second)) →
      Resolves t dir cs (.error problems)
  | fields {nodes : Table NodeId} : (∀ first second, ¬Clash t cs first second) →
      (∀ name id, nodes.get? name = some id ↔ ∃ first, First t cs name first ∧ first.node = id) →
      Resolves t dir cs (.ok nodes)

theorem first_iff {cs : List Candidate} {name : String} {first : Candidate} :
    First t cs name first ↔ cs.find? (fun c => t.name c.node = name) = some first := by
  rw [List.find?_eq_some_iff_append]
  simp only [decide_eq_true_eq, decide_eq_false_iff_not, Bool.not_eq_true', decide_eq_false_iff_not]
  constructor
  · rintro ⟨before, after, hcs, hname, hbefore⟩
    exact ⟨hname, before, after, hcs, hbefore⟩
  · rintro ⟨hname, before, after, hcs, hbefore⟩
    exact ⟨before, after, hcs, hname, hbefore⟩

theorem clash_iff {cs : List Candidate} {first second : Candidate} :
    Clash t cs first second ↔ (first, second) ∈ (cs.foldl (choose t) ⟨∅, []⟩).clashes := by
  rw [mem_clashes_iff]
  constructor
  · rintro ⟨hdirect, before, after, hcs, hfirst⟩
    exact ⟨before, after, hcs, first_iff.mp hfirst, hdirect⟩
  · rintro ⟨before, after, hcs, hfirst, hdirect⟩
    exact ⟨hdirect, before, after, hcs, first_iff.mpr hfirst⟩

/-- Choosing among candidates, and settling what was chosen, makes of them what is to become of them. -/
theorem resolves_choose (t : SchemaTree) (dir : NodeId) (cs : List Candidate) :
    Resolves t dir cs (Diagnostics.settle ⟨(cs.foldl (choose t) ⟨∅, []⟩).clashes.map (clashError t dir)⟩
      ((cs.foldl (choose t) ⟨∅, []⟩).fields.map fun _ c => c.node)) := by
  generalize hst : cs.foldl (choose t) ⟨∅, []⟩ = st
  have hclash : ∀ d, d ∈ st.clashes.map (clashError t dir) ↔
      ∃ first second, Clash t cs first second ∧ d = clashError t dir (first, second) := by
    intro d
    simp only [clash_iff, hst, List.mem_map, Prod.exists, eq_comm]
  rw [Diagnostics.settle_of_errors fun d hd => ?_]
  · split
    · rename_i hnone
      refine .fields (fun first second h => ?_) fun name id => ?_
      · exact List.eq_nil_iff_forall_not_mem.mp hnone _ ((hclash _).mpr ⟨first, second, h, rfl⟩)
      · simp only [first_iff]
        rw [Table.get?_map, ← hst, get?_foldl_choose, Option.map_eq_some_iff]
        rfl
    · rename_i hsome
      obtain ⟨d, hd⟩ := List.exists_mem_of_ne_nil _ hsome
      obtain ⟨first, second, h, -⟩ := (hclash d).mp hd
      exact .clash ⟨first, second, h⟩ (Diagnostics.pairwise_sort _) fun d => Diagnostics.mem_sort.trans (hclash d)
  · obtain ⟨_, _, -, rfl⟩ := (hclash d).mp hd
    rfl

end Fields

open Fields in
/-- A directory has exactly one sequence of candidates, and its fields are what is to become of them. -/
theorem SchemaTree.fields_resolves (t : SchemaTree) (compression : Compression) (dir : NodeId) :
    ∃ cs, (∀ cs', Sequence t compression dir cs' ↔ cs' = cs) ∧ Resolves t dir cs (t.fields compression dir) := by
  refine ⟨_, fun _ => sequence_iff, ?_⟩
  unfold SchemaTree.fields
  split
  · exact resolves_choose t dir (candidates t compression dir)
  · exact resolves_choose t dir []

end SchemaIr
