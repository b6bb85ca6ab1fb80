import SchemaIr.Proofs.Directory.Ownership

/-! # Owned directories are candidates

What a directory owns is a candidate for a field of it, if it is a container or list that is not merged itself
(`exists_candidate`). On the way between the two stand a wrapper, the container that surrounds the list, or one in the
other; a wrapper right inside a merged one is not looked into (`isDeepWrapper`). -/

namespace SchemaIr

namespace Fields
open SchemaTree (Offers Regular)
open Discovery (isElided isMerged isMerged_of_child)

variable {t : SchemaTree} {compression : Compression} {p q w id : NodeId}

/-- A wrapper, and more than one of a list, right inside a wrapper that is merged. -/
def isDeepWrapper (t : SchemaTree) (compress : Bool) (id : NodeId) : Bool :=
  isNestedWrapper t compress id && (t.parent? id).any (isMerged t compress)

/-! ### Merged containers -/

theorem parent_of_isMerged (ht : t.Regular) (h : isMerged t true w = true) :
    t.kind w = .container ∧ (t.isConfigOrState w = true ∨ t.isListWrapper w = true) ∧
      ∃ p, t.parent? w = some p ∧ (t.kind p).isChoiceOrCase = false := by
  simp only [isMerged, isElided, Bool.true_and, Bool.and_eq_true, Bool.or_eq_true, Bool.not_eq_true'] at h
  obtain ⟨helided, hplain⟩ := h
  have hkind : t.kind w = .container := by
    rcases helided with hwrapper | hlist
    · exact isDirectory_of_isConfigOrState hwrapper
    · obtain ⟨list, hlist⟩ := Option.isSome_iff_exists.mp hlist
      exact (wrappedList?_eq_some hlist).1
  obtain ⟨p, hp⟩ := Option.ne_none_iff_exists'.mp (ht.parent_of_isDirectory (by rw [hkind]; rfl))
  rw [hp, Option.any_some] at hplain
  exact ⟨hkind, helided, p, hp, hplain⟩

/-- The parent of a merged container is merged only if it is a wrapper with more in it than a list. -/
theorem isConfigOrState_of_isMerged (ht : t.Regular) (hw : t.kind w = .container) (hparent : t.parent? w = some p)
    (hp : isMerged t true p = true) : t.isConfigOrState p = true ∧ t.isListWrapper p = false := by
  have hnotList : t.isListWrapper p = false := by
    refine Bool.eq_false_iff.mpr fun hlist => ?_
    obtain ⟨list, hlist⟩ := Option.isSome_iff_exists.mp hlist
    obtain ⟨-, hchildren, hkind⟩ := wrappedList?_eq_some hlist
    have hmem : w ∈ t.children p := SchemaTree.mem_children_iff.mpr ⟨_, ht.down hparent⟩
    rw [hchildren, List.mem_singleton] at hmem
    rw [hmem, hkind] at hw
    cases hw
  obtain ⟨-, hwrapper | hlist, -⟩ := parent_of_isMerged ht hp
  · exact ⟨hwrapper, hnotList⟩
  · rw [hnotList] at hlist
    cases hlist

/-! ### Sources -/

theorem mem_sources_of_wrapper (hcomp : compression.compresses = true) (hw : w ∈ t.children p)
    (hwrapper : t.isConfigOrState w = true) {c : Candidate} (hc : c ∈ ofWrapper t compression.excludesState w) :
    c ∈ sources t compression p := by
  refine (mem_sources_iff hcomp).mpr ⟨w, hw, ?_⟩
  rwa [ofChild, if_pos hwrapper]

theorem mem_sources_of_wrappedList (hcomp : compression.compresses = true) (hw : w ∈ t.children p)
    (hwrapper : t.isConfigOrState w = false) (hlist : t.wrappedList? w = some id) :
    ⟨id, .direct⟩ ∈ sources t compression p :=
  (mem_sources_iff hcomp).mpr ⟨w, hw, by simp [ofChild, hwrapper, hlist]⟩

theorem mem_ofWrapper_of_wrappedList {noState : Bool} (hkept : isKept t noState w = true) (hq : q ∈ t.children w)
    (hlist : t.wrappedList? q = some id) : ⟨id, .wrapper⟩ ∈ ofWrapper t noState w := by
  rw [ofWrapper, if_pos hkept]
  refine List.mem_flatMap.mpr ⟨q, hq, ?_⟩
  rw [hlist]
  exact List.mem_singleton_self _

/-- A child of a wrapper comes out of it as it is, unless it surrounds a list. -/
theorem mem_ofWrapper_of_child {noState : Bool} (hkept : isKept t noState w = true) (hid : id ∈ t.children w)
    (hdata : (t.kind id).isChoiceOrCase = false) (hlist : t.isListWrapper id = false) :
    ⟨id, .wrapper⟩ ∈ ofWrapper t noState w := by
  have hnone : t.wrappedList? id = none := by simpa [SchemaTree.isListWrapper] using hlist
  rw [ofWrapper, if_pos hkept]
  refine List.mem_flatMap.mpr ⟨id, hid, ?_⟩
  rw [hnone]
  exact mem_resolve_iff.mpr ⟨rfl, .inl ⟨hdata, rfl⟩⟩

theorem mem_ofWrapper_of_offers (ht : t.Regular) {noState : Bool} (hkept : isKept t noState w = true)
    (hw : t.kind w = .container) (hoffers : Offers t w id) (hid : isMerged t true id = false) :
    ⟨id, .wrapper⟩ ∈ ofWrapper t noState w := by
  cases hoffers with
  | child hc hdata =>
    refine mem_ofWrapper_of_child hkept hc hdata ?_
    rw [isMerged_of_child ht _ hc (isChoiceOrCase_of_container hw)] at hid
    simp only [isElided, Bool.true_and, Bool.or_eq_false_iff] at hid
    exact hid.2
  | @through _ d _ hd hchoice ho =>
    rw [ofWrapper, if_pos hkept]
    refine List.mem_flatMap.mpr ⟨d, hd, ?_⟩
    rw [(@not_special_of_choice t w d hchoice).2.1]
    exact mem_resolve_iff.mpr ⟨rfl, .inr ⟨hchoice, ho⟩⟩

/-! ### Candidates of owners -/

/-- What is left out as state takes everything below it along. -/
def StateClosed (t : SchemaTree) : Prop :=
  ∀ id, t.isConfig id = true → ∀ a ∈ t.ancestors id, t.isConfig a = true

theorem StateClosed.of_ids (h : (t.ids.all fun id => !t.isConfig id || (t.ancestors id).all t.isConfig) = true) :
    StateClosed t := by
  intro id hconfig a ha
  have hlt : id < t.size := by
    cases hparent : t.parent? id with
    | none =>
      rw [SchemaTree.ancestors_of_root hparent] at ha
      cases ha
    | some p => exact SchemaTree.lt_size_of_parent? hparent
  have hid := List.all_eq_true.mp h id (List.mem_range.mpr hlt)
  rw [hconfig, Bool.not_true, Bool.false_or] at hid
  exact List.all_eq_true.mp hid a ha

theorem StateClosed.isKept (h : StateClosed t) {noState : Bool} (hid : isKept t noState id = true) {a : NodeId}
    (ha : a ∈ t.ancestors id) : isKept t noState a = true := by
  cases noState with
  | false => rfl
  | true => exact h id hid a ha

/-- A container or list that is not merged is a candidate of the node that offers it, if that is not merged. -/
theorem candidate_of_offers (ht : t.Regular) (hkind : (t.kind id).isDirectory = true)
    (hid : isMerged t compression.compresses id = false) (hoffers : Offers t p id)
    (hp : (t.kind p).isChoiceOrCase = false) (hkept : isKept t compression.excludesState id = true) :
    ⟨id, .direct⟩ ∈ candidates t compression p := by
  refine direct_mem_candidates ht hoffers (Bool.eq_false_iff.mpr fun hway => ?_) hkept
  simp only [givesWay, Bool.and_eq_true, beq_iff_eq] at hway
  obtain ⟨⟨hcomp, hparent⟩, hspecial⟩ := hway
  rw [hcomp, isMerged_of_child ht _ (SchemaTree.mem_children_iff.mpr ⟨_, ht.down hparent⟩) hp] at hid
  simp only [isElided, Bool.true_and, Bool.or_eq_false_iff] at hid
  simp only [hid.1, hid.2, Bool.false_or, isOwnLeafrefKey, Bool.and_eq_true, beq_iff_eq] at hspecial
  rw [hspecial.1.1.2] at hkind
  cases hkind

theorem eq_of_offers_wrappedList {list : NodeId} (h : t.wrappedList? q = some list) (hoffers : Offers t q id) : id = list := by
  obtain ⟨-, hchildren, hkind⟩ := wrappedList?_eq_some h
  cases hoffers with
  | child hc _ =>
    rw [hchildren] at hc
    exact List.mem_singleton.mp hc
  | through hd hchoice _ =>
    rw [hchildren] at hd
    rw [List.mem_singleton.mp hd, hkind] at hchoice
    cases hchoice

/-- What stands in a merged container comes to the owner through a wrapper, the container around the list, or both. -/
theorem candidate_of_merged (ht : t.Regular) (hstate : StateClosed t) (hcomp : compression.compresses = true)
    (hid : isMerged t true id = false) (hkept : isKept t compression.excludesState id = true)
    (hdeep : ∀ a ∈ t.ancestors id, isDeepWrapper t true a = false) (hq : q ∈ t.ancestors id)
    (hmerged : isMerged t true q = true) (hoffers : Offers t q id) (howner : owner? t true q = some p) :
    ∃ c ∈ candidates t compression p, c.node = id := by
  obtain ⟨hqkind, hspecial, w, hw, hwdata⟩ := parent_of_isMerged ht hmerged
  have hqchild : q ∈ t.children w := SchemaTree.mem_children_iff.mpr ⟨_, ht.down hw⟩
  have habove : w ∈ t.ancestors q := by
    rw [SchemaTree.ancestors_of_parent hw, SchemaTree.lineage_eq]
    exact List.mem_cons_self
  have hwmem : w ∈ t.ancestors id := SchemaTree.ancestors_subset hq habove
  rw [owner?_of_parent hw, hwdata, Bool.false_or] at howner
  have hcandidate : ∀ {c : Candidate}, c ∈ sources t compression p → c.node = id →
      ∃ c ∈ candidates t compression p, c.node = id := by
    rintro c hc rfl
    exact ⟨c, List.mem_filter.mpr ⟨hc, hkept⟩, rfl⟩
  cases hwm : isMerged t true w with
  | false =>
    rw [if_neg (Bool.eq_false_iff.mp hwm)] at howner
    cases howner
    cases hwrapper : t.isConfigOrState q with
    | true =>
      have hmem := mem_ofWrapper_of_offers ht (hstate.isKept hkept hq) hqkind hoffers hid
      exact hcandidate (mem_sources_of_wrapper hcomp hqchild hwrapper hmem) rfl
    | false =>
      rw [hwrapper] at hspecial
      obtain ⟨list, hlist⟩ := Option.isSome_iff_exists.mp (hspecial.resolve_left Bool.false_ne_true)
      obtain rfl := eq_of_offers_wrappedList hlist hoffers
      exact hcandidate (mem_sources_of_wrappedList hcomp hqchild hwrapper hlist) rfl
  | true =>
    rw [if_pos hwm] at howner
    obtain ⟨hwwrapper, hwlist⟩ := isConfigOrState_of_isMerged ht hqkind hw hwm
    -- Were there more than a list in the inner container, it would be a deep wrapper.
    obtain ⟨list, hlist⟩ : ∃ list, t.wrappedList? q = some list := by
      refine Option.isSome_iff_exists.mp ((Bool.not_eq_false _).mp fun hnone => ?_)
      have hqwrapper : t.isConfigOrState q = true := by
        refine hspecial.resolve_right fun hlist => ?_
        rw [SchemaTree.isListWrapper, hnone] at hlist
        cases hlist
      have hnotdeep := hdeep q hq
      simp [isDeepWrapper, isNestedWrapper, hqwrapper, SchemaTree.isListWrapper, hnone, hw, hwwrapper, hwm] at hnotdeep
    obtain rfl := eq_of_offers_wrappedList hlist hoffers
    obtain ⟨hwkind, -, v, hv, hvdata⟩ := parent_of_isMerged ht hwm
    have hvm : isMerged t true v = false := Bool.eq_false_iff.mpr fun hvm => by
      obtain ⟨hvwrapper, -⟩ := isConfigOrState_of_isMerged ht hwkind hv hvm
      have hnotdeep := hdeep w hwmem
      simp [isDeepWrapper, isNestedWrapper, hwwrapper, hwlist, hv, hvwrapper, hvm] at hnotdeep
    have hwchild : w ∈ t.children v := SchemaTree.mem_children_iff.mpr ⟨_, ht.down hv⟩
    rw [owner?_of_parent hv, hvdata, Bool.false_or, if_neg (Bool.eq_false_iff.mp hvm)] at howner
    cases howner
    have hmem := mem_ofWrapper_of_wrappedList (hstate.isKept hkept hwmem) hqchild hlist
    exact hcandidate (mem_sources_of_wrapper hcomp hwchild hwwrapper hmem) rfl

/-- A directory has a candidate for each container or list that it owns, unless a deep wrapper stands in between. -/
theorem exists_candidate (ht : t.Regular) (hstate : StateClosed t) (hkind : (t.kind id).isDirectory = true)
    (hid : isMerged t compression.compresses id = false) (hkept : isKept t compression.excludesState id = true)
    (hdeep : ∀ a ∈ t.ancestors id, isDeepWrapper t compression.compresses a = false)
    (howner : owner? t compression.compresses id = some p) :
    ∃ c ∈ candidates t compression p, c.node = id := by
  obtain ⟨q, hq⟩ := ht.exists_dataParent (ht.parent_of_isDirectory hkind)
  have hqdata : (t.kind q).isChoiceOrCase = false := by
    have hmem := (List.mem_filter.mp (List.mem_of_head? hq)).2
    simpa using hmem
  have hqmem : q ∈ t.ancestors id := (List.mem_filter.mp (List.mem_of_head? hq)).1
  have hoffers := (SchemaTree.offers_iff ht.matched hqdata).mpr ⟨NodeKind.isChoiceOrCase_of_isDirectory hkind, hq⟩
  rw [owner?_of_offers ht hqdata hoffers] at howner
  cases hcomp : compression.compresses with
  | false =>
    have hplain : isMerged t compression.compresses q = false := by simp [isMerged, isElided, hcomp]
    rw [if_neg (Bool.eq_false_iff.mp hplain)] at howner
    cases howner
    exact ⟨_, candidate_of_offers ht hkind hid hoffers hqdata hkept, rfl⟩
  | true =>
    rw [hcomp] at howner hdeep
    cases hqm : isMerged t true q with
    | false =>
      rw [if_neg (Bool.eq_false_iff.mp hqm)] at howner
      cases howner
      exact ⟨_, candidate_of_offers ht hkind hid hoffers hqdata hkept, rfl⟩
    | true =>
      rw [if_pos hqm] at howner
      rw [hcomp] at hid
      exact candidate_of_merged ht hstate hcomp hid hkept hdeep hqmem hqm hoffers howner

end Fields

end SchemaIr
