import SchemaIr.Directory.Fields
import SchemaIr.Proofs.Directory.Discovery

/-! # The fields of a directory

Of the candidates of one name the first becomes the field, and a later one is an error exactly where both
are direct (`fields_eq_ok`, `clash_of_direct`). What a directory offers is a direct candidate unless compression
puts something else in its place (`direct_mem_candidates`); and a candidate that is a container or list is
found by discovery, unless it is a wrapper right inside a wrapper (`kept_of_candidate`). -/

namespace SchemaIr

namespace Fields
open SchemaTree (Offers Opens Reached Regular)
open Discovery (isElided isMerged isMerged_of_child isMerged_of_choice)

variable {t : SchemaTree}

theorem isKept_iff {noState : Bool} {id : NodeId} :
    isKept t noState id = true ↔ (noState = true → t.isConfig id = true) := by
  cases noState <;> simp [isKept]

/-! ### Choosing among candidates -/

/-- A candidate becomes the field of its name unless another one is that already. -/
theorem get?_choose (st : Chosen) (c : Candidate) (name : String) :
    (choose t st c).fields.get? name = (st.fields.get? name).or ([c].find? fun c => t.name c.node = name) := by
  have hfound : ∀ {first}, st.fields.get? (t.name c.node) = some first →
      st.fields.get? name = (st.fields.get? name).or ([c].find? fun c => t.name c.node = name) := by
    intro first hfirst
    by_cases hname : t.name c.node = name
    · rw [← hname, hfirst, Option.some_or]
    · simp [hname]
  unfold choose
  split
  · rename_i hnone
    by_cases hname : t.name c.node = name
    · simp [← hname, hnone]
    · simp [Table.get?_insert, hname, Ne.symm hname]
  · rename_i first hfirst
    split <;> exact hfound hfirst

/-- Two direct candidates of one name clash, and no others. -/
theorem mem_clashes_choose_iff {st : Chosen} {c : Candidate} {clash : Candidate × Candidate} :
    clash ∈ (choose t st c).clashes ↔ clash ∈ st.clashes ∨ clash.2 = c ∧
      st.fields.get? (t.name clash.2.node) = some clash.1 ∧ clash.1.origin = .direct ∧ clash.2.origin = .direct := by
  obtain ⟨a, b⟩ := clash
  unfold choose
  cases hget : st.fields.get? (t.name c.node) with
  | none =>
    refine ⟨.inl, fun h => h.resolve_right ?_⟩
    rintro ⟨rfl, hfirst, -⟩
    rw [hget] at hfirst
    cases hfirst
  | some first =>
    cases hfo : first.origin <;> cases hco : c.origin <;> simp only [hfo] <;> grind

theorem get?_foldl_choose (cs : List Candidate) (st : Chosen) (name : String) :
    (cs.foldl (choose t) st).fields.get? name =
      (st.fields.get? name).or (cs.find? fun c => t.name c.node = name) := by
  induction cs generalizing st with
  | nil => simp
  | cons c rest ih =>
    rw [List.foldl_cons, ih, get?_choose, Option.or_assoc, ← List.find?_append]
    rfl

/-- A direct candidate clashes with the first one of its name, if that one comes before it and is direct, too. -/
theorem mem_clashes_foldl_choose_iff {clash : Candidate × Candidate} (cs : List Candidate) {st : Chosen} :
    clash ∈ (cs.foldl (choose t) st).clashes ↔ clash ∈ st.clashes ∨ ∃ before after, cs = before ++ clash.2 :: after ∧
      (st.fields.get? (t.name clash.2.node)).or (before.find? fun c => t.name c.node = t.name clash.2.node) = some clash.1 ∧
      clash.1.origin = .direct ∧ clash.2.origin = .direct := by
  induction cs generalizing st with
  | nil => simp
  | cons d rest ih =>
    rw [List.foldl_cons, ih, mem_clashes_choose_iff, or_assoc]
    refine or_congr_right ?_
    simp only [get?_choose, Option.or_assoc, ← List.find?_append, List.singleton_append]
    constructor
    · rintro (⟨rfl, hfirst, hdirect⟩ | ⟨before, after, rfl, hfirst, hdirect⟩)
      · exact ⟨[], rest, rfl, by simpa using hfirst, hdirect⟩
      · exact ⟨d :: before, after, rfl, hfirst, hdirect⟩
    · rintro ⟨before, after, hcs, hfirst, hdirect⟩
      rcases List.cons_eq_append_iff.mp hcs with ⟨rfl, hhead⟩ | ⟨before, rfl, rfl⟩
      · exact .inl ⟨(List.cons.inj hhead).1, by simpa using hfirst, hdirect⟩
      · exact .inr ⟨before, after, rfl, hfirst, hdirect⟩

theorem mem_clashes_iff {clash : Candidate × Candidate} {cs : List Candidate} :
    clash ∈ (cs.foldl (choose t) ⟨∅, []⟩).clashes ↔ ∃ before after, cs = before ++ clash.2 :: after ∧
      before.find? (fun c => t.name c.node = t.name clash.2.node) = some clash.1 ∧
        clash.1.origin = .direct ∧ clash.2.origin = .direct :=
  (mem_clashes_foldl_choose_iff cs).trans ((or_iff_right List.not_mem_nil).trans Iff.rfl)

/-- Under compression a child makes way for what is in it, or for the leaf that holds its key. -/
def givesWay (t : SchemaTree) (compress : Bool) (dir child : NodeId) : Bool :=
  compress && t.parent? child == some dir &&
    (t.isConfigOrState child || t.isListWrapper child || isOwnLeafrefKey t dir child)

theorem wrappedList?_eq_some {c list : NodeId} (h : t.wrappedList? c = some list) :
    t.kind c = .container ∧ t.children c = [list] ∧ t.kind list = .list := by
  unfold SchemaTree.wrappedList? at h
  split at h
  · rename_i hkind hchildren
    split at h
    · rename_i hlist
      cases h
      exact ⟨hkind, hchildren, hlist⟩
    · cases h
  · cases h

theorem mem_resolve_iff {origin : Origin} {child : NodeId} {c : Candidate} : c ∈ resolve t origin child ↔
    c.origin = origin ∧ ((t.kind child).isChoiceOrCase = false ∧ c.node = child ∨
      (t.kind child).isChoiceOrCase = true ∧ Offers t child c.node) := by
  unfold resolve
  rw [List.mem_map]
  cases h : (t.kind child).isChoiceOrCase
  · constructor
    · rintro ⟨n, hn, rfl⟩
      exact ⟨rfl, .inl ⟨rfl, by simpa using hn⟩⟩
    · rintro ⟨rfl, ⟨-, hn⟩ | ⟨hf, -⟩⟩
      · exact ⟨c.node, by simp [hn], rfl⟩
      · cases hf
  · constructor
    · rintro ⟨n, hn, rfl⟩
      exact ⟨rfl, .inr ⟨rfl, SchemaTree.mem_dataChildren.mp (by simpa using hn)⟩⟩
    · rintro ⟨rfl, ⟨hf, -⟩ | ⟨-, hn⟩⟩
      · cases hf
      · exact ⟨c.node, by simpa using SchemaTree.mem_dataChildren.mpr hn, rfl⟩

theorem not_special_of_choice {dir d : NodeId} (h : (t.kind d).isChoiceOrCase = true) :
    t.isConfigOrState d = false ∧ t.wrappedList? d = none ∧ isOwnLeafrefKey t dir d = false := by
  unfold SchemaTree.isConfigOrState SchemaTree.wrappedList? isOwnLeafrefKey
  cases hk : t.kind d <;> simp_all [NodeKind.isChoiceOrCase]

theorem ofChild_eq_resolve {noState : Bool} {dir d : NodeId} (h₁ : t.isConfigOrState d = false)
    (h₂ : t.wrappedList? d = none) (h₃ : isOwnLeafrefKey t dir d = false) :
    ofChild t noState dir d = resolve t .direct d := by
  simp [ofChild, h₁, h₂, h₃]

theorem preferred?_eq_some {compression : Compression} {dir w : NodeId} (h : preferred? t compression dir = some w) :
    w ∈ t.children dir ∧ t.isConfigOrState w = true := by
  obtain ⟨hchild, hw⟩ := Option.filter_eq_some_iff.mp h
  exact ⟨SchemaTree.mem_children_iff.mpr ⟨_, hchild⟩, hw⟩

/-- Where no state is left out, all sources are candidates. -/
theorem candidates_eq_sources {compression : Compression} (hstate : compression.excludesState = false) (dir : NodeId) :
    candidates t compression dir = sources t compression dir :=
  List.filter_eq_self.mpr fun _ _ => by rw [hstate]; rfl

/-- Under compression the sources are what the children contribute, in an order that depends on the preference. -/
theorem mem_sources_iff {compression : Compression} (hcomp : compression.compresses = true) {dir : NodeId} {c : Candidate} :
    c ∈ sources t compression dir ↔ ∃ child ∈ t.children dir, c ∈ ofChild t compression.excludesState dir child := by
  rw [sources, if_pos hcomp, List.mem_append, List.mem_flatMap]
  constructor
  · rintro (hc | ⟨child, hchild, hc⟩)
    · cases hfirst : preferred? t compression dir with
      | none => simp [hfirst] at hc
      | some w =>
        obtain ⟨hw, hwrapper⟩ := preferred?_eq_some hfirst
        refine ⟨w, hw, ?_⟩
        rw [ofChild, if_pos hwrapper]
        simpa [hfirst] using hc
    · exact ⟨child, (List.mem_filter.mp hchild).1, hc⟩
  · rintro ⟨child, hchild, hc⟩
    by_cases hfirst : some child = preferred? t compression dir
    · rw [ofChild, if_pos (preferred?_eq_some hfirst.symm).2] at hc
      rw [← hfirst]
      exact .inl hc
    · exact .inr ⟨child, List.mem_filter.mpr ⟨hchild, decide_eq_true hfirst⟩, hc⟩

/-- What a directory offers is a direct candidate, unless it gives way or is left out as state. -/
theorem direct_mem_candidates (ht : t.Regular) {compression : Compression} {dir a : NodeId} (ha : Offers t dir a)
    (hway : givesWay t compression.compresses dir a = false)
    (hkept : isKept t compression.excludesState a = true) :
    ⟨a, .direct⟩ ∈ candidates t compression dir := by
  refine List.mem_filter.mpr ⟨?_, hkept⟩
  -- The child through which the directory offers the node, of which nothing is special under compression.
  obtain ⟨d, hd, hres, hplain⟩ : ∃ d ∈ t.children dir, ⟨a, .direct⟩ ∈ resolve t .direct d ∧
      (compression.compresses = true →
        t.isConfigOrState d = false ∧ t.wrappedList? d = none ∧ isOwnLeafrefKey t dir d = false) := by
    cases ha with
    | child hc hdata =>
      refine ⟨a, hc, mem_resolve_iff.mpr ⟨rfl, .inl ⟨hdata, rfl⟩⟩, fun hcomp => ?_⟩
      simp only [givesWay, hcomp, ht.parent_of_mem hc, beq_self_eq_true, Bool.true_and, Bool.or_eq_false_iff] at hway
      exact ⟨hway.1.1, by simpa [SchemaTree.isListWrapper] using hway.1.2, hway.2⟩
    | through hd hchoice ho =>
      exact ⟨_, hd, mem_resolve_iff.mpr ⟨rfl, .inr ⟨hchoice, ho⟩⟩, fun _ => not_special_of_choice hchoice⟩
  by_cases hcomp : compression.compresses = true
  · obtain ⟨h₁, h₂, h₃⟩ := hplain hcomp
    refine (mem_sources_iff hcomp).mpr ⟨d, hd, ?_⟩
    rwa [ofChild_eq_resolve h₁ h₂ h₃]
  · rw [sources, if_neg hcomp]
    exact List.mem_flatMap.mpr ⟨d, hd, hres⟩

/-! ### Containers and lists among the candidates -/

/-- A container `config` or `state` right inside another one, and more than a wrapper of a list. -/
def isNestedWrapper (t : SchemaTree) (compress : Bool) (id : NodeId) : Bool :=
  compress && t.isConfigOrState id && !t.isListWrapper id && (t.parent? id).any t.isConfigOrState

/-- What a candidate is to discovery: reached, and merged only if it is a nested wrapper. -/
def Kept (t : SchemaTree) (compress : Bool) (id : NodeId) : Prop :=
  Reached t id ∧ (isMerged t compress id = true → isNestedWrapper t compress id = true)

theorem isDirectory_of_isConfigOrState {w : NodeId} (h : t.isConfigOrState w = true) :
    t.kind w = .container := by
  simp only [SchemaTree.isConfigOrState, Bool.and_eq_true, beq_iff_eq] at h
  exact h.1

/-- A container among what an open node offers opens, too. -/
theorem opens_of_container {dir w : NodeId} (hdir : Opens t dir) (hw : w ∈ t.children dir)
    (hkind : t.kind w = .container) : Opens t w :=
  .inr ⟨hdir.reached (.child hw (by rw [hkind]; rfl)), by rw [hkind]; rfl⟩

theorem kept_of_wrappedList (ht : t.Regular) {compress : Bool} {dir c list : NodeId} (hdir : Opens t dir)
    (hc : c ∈ t.children dir) (h : t.wrappedList? c = some list) : Kept t compress list := by
  obtain ⟨hkind, hchildren, hlist⟩ := wrappedList?_eq_some h
  have hmem : list ∈ t.children c := hchildren ▸ List.mem_singleton_self list
  refine ⟨(opens_of_container hdir hc hkind).reached (.child hmem (by rw [hlist]; rfl)), fun hmerged => ?_⟩
  rw [isMerged_of_child ht _ hmem (by rw [hkind]; rfl)] at hmerged
  simp [isElided, SchemaTree.isConfigOrState, SchemaTree.isListWrapper, SchemaTree.wrappedList?, hlist] at hmerged

theorem kept_of_choice (ht : t.Regular) {compress : Bool} {dir d a : NodeId} (hdir : Opens t dir)
    (hd : d ∈ t.children dir) (hchoice : (t.kind d).isChoiceOrCase = true) (ha : Offers t d a) :
    Kept t compress a := by
  refine ⟨hdir.reached (.through hd hchoice ha), fun hmerged => ?_⟩
  rw [isMerged_of_choice ht _ ha hchoice] at hmerged
  cases hmerged

theorem opens_isChoiceOrCase (ht : t.Regular) {dir : NodeId} (h : Opens t dir) :
    (t.kind dir).isChoiceOrCase = false := by
  rcases h with hr | ⟨-, hk⟩
  · rw [Discovery.kind_of_mem_generationRoots ht hr]
    rfl
  · exact NodeKind.isChoiceOrCase_of_isDirectory hk

theorem kept_of_ofWrapper (ht : t.Regular) {compress noState : Bool} (hcomp : compress = true) {dir w : NodeId}
    (hdir : Opens t dir) (hw : w ∈ t.children dir) (hwrapper : t.isConfigOrState w = true) {c : Candidate}
    (hc : c ∈ ofWrapper t noState w) : Kept t compress c.node := by
  have hopen := opens_of_container hdir hw (isDirectory_of_isConfigOrState hwrapper)
  unfold ofWrapper at hc
  split at hc
  · obtain ⟨d, hd, hc⟩ := List.mem_flatMap.mp hc
    split at hc
    · rename_i list hlist
      rw [List.mem_singleton.mp hc]
      exact kept_of_wrappedList ht hopen hd hlist
    · rename_i hnone
      rcases mem_resolve_iff.mp hc with ⟨-, ⟨hdata, hnode⟩ | ⟨hchoice, ho⟩⟩
      · rw [hnode]
        refine ⟨hopen.reached (.child hd hdata), fun hmerged => ?_⟩
        rw [isMerged_of_child ht _ hd (opens_isChoiceOrCase ht hopen)] at hmerged
        have hlist : t.isListWrapper d = false := by rw [SchemaTree.isListWrapper, hnone]; rfl
        simp only [isElided, hcomp, hlist, Bool.true_and, Bool.or_false] at hmerged
        simp [isNestedWrapper, hcomp, hmerged, hlist, ht.parent_of_mem hd, hwrapper]
      · exact kept_of_choice ht hopen hd hchoice ho
  · cases hc

theorem kept_of_ofChild (ht : t.Regular) {compress noState : Bool} (hcomp : compress = true) {dir d : NodeId}
    (hdir : Opens t dir) (hd : d ∈ t.children dir) {c : Candidate} (hc : c ∈ ofChild t noState dir d) :
    Kept t compress c.node := by
  unfold ofChild at hc
  split at hc
  · rename_i hwrapper
    exact kept_of_ofWrapper ht hcomp hdir hd hwrapper hc
  · rename_i hplain
    split at hc
    · rename_i list hlist
      rw [List.mem_singleton.mp hc]
      exact kept_of_wrappedList ht hdir hd hlist
    · rename_i hnone
      split at hc
      · cases hc
      · rcases mem_resolve_iff.mp hc with ⟨-, ⟨hdata, hnode⟩ | ⟨hchoice, ho⟩⟩
        · rw [hnode]
          refine ⟨hdir.reached (.child hd hdata), fun hmerged => ?_⟩
          rw [isMerged_of_child ht _ hd (opens_isChoiceOrCase ht hdir)] at hmerged
          simp [isElided, hplain, SchemaTree.isListWrapper, hnone] at hmerged
        · exact kept_of_choice ht hdir hd hchoice ho

/-- Every candidate is reached, and discovery merges it only if it is a nested wrapper. -/
theorem kept_of_candidate (ht : t.Regular) {compression : Compression} {dir : NodeId} (hdir : Opens t dir)
    {c : Candidate} (hc : c ∈ candidates t compression dir) : Kept t compression.compresses c.node := by
  have hc := (List.mem_filter.mp hc).1
  by_cases hcomp : compression.compresses = true
  · obtain ⟨d, hd, hc⟩ := (mem_sources_iff hcomp).mp hc
    exact kept_of_ofChild ht hcomp hdir hd hc
  · rw [sources, if_neg hcomp] at hc
    obtain ⟨d, hd, hc⟩ := List.mem_flatMap.mp hc
    rcases mem_resolve_iff.mp hc with ⟨-, ⟨hdata, hnode⟩ | ⟨hchoice, ho⟩⟩
    · rw [hnode]
      refine ⟨hdir.reached (.child hd hdata), fun hmerged => ?_⟩
      simp [isMerged, isElided, hcomp] at hmerged
    · exact kept_of_choice ht hdir hd hchoice ho

end Fields

/-! ### The fields -/

namespace SchemaTree
open Fields

variable {t : SchemaTree} {compression : Compression} {dir : NodeId}

/-- The fields of a directory that is kept are the first candidates of their names. -/
theorem fields_eq_ok {nodes : Table NodeId} (h : t.fields compression dir = .ok nodes)
    (hkept : isKept t compression.excludesState dir = true) (name : String) :
    nodes.get? name = ((candidates t compression dir).find? fun c => t.name c.node = name).map (·.node) := by
  rw [fields, if_pos hkept] at h
  obtain ⟨-, rfl⟩ := Diagnostics.settle_eq_ok_iff.mp h
  rw [Table.get?_map, Fields.chosen, get?_foldl_choose]
  rfl

theorem mem_candidates_of_fields {nodes : Table NodeId} (h : t.fields compression dir = .ok nodes)
    (hkept : isKept t compression.excludesState dir = true) {name : String} {a : NodeId}
    (ha : nodes.get? name = some a) : ∃ c ∈ candidates t compression dir, c.node = a ∧ t.name a = name := by
  rw [fields_eq_ok h hkept] at ha
  obtain ⟨c, hc, rfl⟩ := Option.map_eq_some_iff.mp ha
  exact ⟨c, List.mem_of_find?_eq_some hc, rfl, by simpa using List.find?_some hc⟩

end SchemaTree

end SchemaIr
