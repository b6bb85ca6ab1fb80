import SchemaIr.Directory.FakeRoot
import SchemaIr.Proofs.Directory.Discovery
import SchemaIr.Proofs.Diagnostic.Order
import SchemaIr.Proofs.Table.Order

/-! # The fields of the fake root

The top-level entities stand for their names one after another; of several entities of one name the first does, and every
later one is an error (`Repeats`). So the fake root is added exactly where no two entities share a name, and its fields
are then the entities under their names; otherwise every later entity is told together with the first one of its name
(`add_exact`). Which entities there are, and in which order, is said without looking at the paths one by one
(`Candidates`). -/

namespace SchemaIr.FakeRoot

variable {t : SchemaTree}

/-- No path of three segments is that of the fake root. -/
theorem intercalate_ne_path {segments : List String} (h : 3 ≤ segments.length) : "/".intercalate segments ≠ path := by
  match segments with
  | a :: b :: c :: rest =>
    rw [String.intercalate_cons_cons, String.intercalate_cons_cons]
    intro heq
    have hlength := congrArg String.length heq
    simp only [String.length_append, path, show "/".length = 1 from rfl] at hlength
    omega
  | [] | [_] | [_, _] => simp at h

/-! ### Choosing entities -/

theorem get?_choose (st : Chosen) (id : NodeId) (name : String) : (choose t st id).fields.get? name =
    (st.fields.get? name).or ([id].find? fun e => t.name e = name) := by
  unfold choose
  split
  · rename_i first hfirst
    by_cases hname : t.name id = name
    · rw [← hname, hfirst, Option.some_or]
    · simp [hname]
  · rename_i hfree
    by_cases hname : t.name id = name
    · rw [← hname, hfree, Table.get?_insert_self]
      simp
    · rw [Table.get?_insert_of_ne _ (Ne.symm hname)]
      simp [hname]

theorem mem_errors_choose_iff {st : Chosen} {id : NodeId} {d : Diagnostic} : d ∈ (choose t st id).errors ↔ d ∈ st.errors ∨
    ∃ first, st.fields.get? (t.name id) = some first ∧
      d = .sameRootEntry path (t.name id) (t.pathString first) (t.pathString id) := by
  unfold choose
  split
  · rename_i first hfirst
    rw [List.mem_append, List.mem_singleton]
    simp [hfirst]
  · rename_i hfree
    simp [hfree]

theorem get?_foldl_choose (ids : List NodeId) (st : Chosen) (name : String) :
    (ids.foldl (choose t) st).fields.get? name = (st.fields.get? name).or (ids.find? fun id => t.name id = name) := by
  induction ids generalizing st with
  | nil => simp
  | cons id rest ih =>
    rw [List.foldl_cons, ih, get?_choose, Option.or_assoc, ← List.find?_append]
    rfl

/-- An entity stands behind another one of its name, which is the first with this name. -/
def Repeats (t : SchemaTree) (ids : List NodeId) (first later : NodeId) : Prop :=
  ∃ before after, ids = before ++ later :: after ∧ before.find? (fun id => t.name id = t.name later) = some first

theorem mem_errors_foldl_choose_iff {d : Diagnostic} (ids : List NodeId) {st : Chosen} :
    d ∈ (ids.foldl (choose t) st).errors ↔ d ∈ st.errors ∨ ∃ first later before after, ids = before ++ later :: after ∧
      (st.fields.get? (t.name later)).or (before.find? fun id => t.name id = t.name later) = some first ∧
      d = .sameRootEntry path (t.name later) (t.pathString first) (t.pathString later) := by
  induction ids generalizing st with
  | nil => simp
  | cons id rest ih =>
    rw [List.foldl_cons, ih, mem_errors_choose_iff, or_assoc]
    refine or_congr_right ?_
    simp only [get?_choose, Option.or_assoc, ← List.find?_append, List.singleton_append]
    constructor
    · rintro (⟨first, hfirst, rfl⟩ | ⟨first, later, before, after, rfl, hfirst, rfl⟩)
      · exact ⟨first, id, [], rest, rfl, by simpa using hfirst, rfl⟩
      · exact ⟨first, later, id :: before, after, rfl, hfirst, rfl⟩
    · rintro ⟨first, later, before, after, hids, hfirst, rfl⟩
      rcases List.cons_eq_append_iff.mp hids with ⟨rfl, hhead⟩ | ⟨before, rfl, rfl⟩
      · obtain ⟨rfl, -⟩ := List.cons.inj hhead
        exact .inl ⟨first, by simpa using hfirst, rfl⟩
      · exact .inr ⟨first, later, before, after, rfl, hfirst, rfl⟩

theorem mem_errors_iff {ids : List NodeId} {d : Diagnostic} : d ∈ (ids.foldl (choose t) ⟨∅, []⟩).errors ↔
    ∃ first later, Repeats t ids first later ∧
      d = .sameRootEntry path (t.name later) (t.pathString first) (t.pathString later) := by
  rw [mem_errors_foldl_choose_iff, or_iff_right List.not_mem_nil]
  constructor
  · rintro ⟨first, later, before, after, hids, hfirst, hd⟩
    exact ⟨first, later, ⟨before, after, hids, hfirst⟩, hd⟩
  · rintro ⟨first, later, ⟨before, after, hids, hfirst⟩, hd⟩
    exact ⟨first, later, before, after, hids, hfirst, hd⟩

/-- Names differ exactly where no entity repeats one. -/
theorem nodup_names_iff {ids : List NodeId} : (ids.map t.name).Nodup ↔ ∀ first later, ¬Repeats t ids first later := by
  constructor
  · rintro hnodup first later ⟨before, after, rfl, hfirst⟩
    rw [List.map_append, List.map_cons] at hnodup
    have hname : t.name first = t.name later := by simpa using List.find?_some hfirst
    have hmem : t.name first ∈ before.map t.name := List.mem_map_of_mem (List.mem_of_find?_eq_some hfirst)
    exact (List.nodup_append.mp hnodup).2.2 _ hmem _ List.mem_cons_self hname
  · intro hnone
    induction ids with
    | nil => exact List.nodup_nil
    | cons id rest ih =>
      refine List.nodup_cons.mpr ⟨fun hmem => ?_, ih fun first later ⟨before, after, hrest, hfirst⟩ => ?_⟩
      · -- The first of the rest with the name of `id` repeats it.
        obtain ⟨later, hlater, hname⟩ := List.mem_map.mp hmem
        obtain ⟨before, after, rfl⟩ := List.append_of_mem hlater
        exact hnone id later ⟨id :: before, after, rfl, by simp [hname]⟩
      · by_cases hname : t.name id = t.name later
        · exact hnone id later ⟨id :: before, after, by rw [hrest, List.cons_append], by simp [hname]⟩
        · exact hnone first later ⟨id :: before, after, by rw [hrest, List.cons_append], by simp [hname, hfirst]⟩

/-- Where names differ, each entity stands for its own. -/
theorem get?_chosen_iff {ids : List NodeId} (h : (ids.map t.name).Nodup) {name : String} {id : NodeId} :
    (ids.foldl (choose t) ⟨∅, []⟩).fields.get? name = some id ↔ id ∈ ids ∧ t.name id = name := by
  rw [get?_foldl_choose, show (∅ : Table NodeId).get? name = none from rfl, Option.none_or]
  refine ⟨fun hget => ?_, fun ⟨hmem, hname⟩ => ?_⟩
  · exact ⟨List.mem_of_find?_eq_some hget, by simpa using List.find?_some hget⟩
  · obtain ⟨before, after, rfl⟩ := List.append_of_mem hmem
    subst hname
    have hfree : before.find? (fun e => t.name e = t.name id) = none := by
      refine Option.eq_none_iff_forall_ne_some.mpr fun first hfirst => ?_
      exact nodup_names_iff.mp h first id ⟨before, after, rfl, hfirst⟩
    rw [List.find?_append, hfree, Option.none_or, List.find?_cons_of_pos (by simp)]

/-! ### Adding the root -/

/-- The entities at the top level. -/
def entities (t : SchemaTree) (directories : Table MappedDirectory) (elements : List NodeId) (compress : Bool) :
    List NodeId :=
  topDirectories t directories compress ++ elements

variable {directories result : Table MappedDirectory} {elements : List NodeId} {name : String} {compress : Bool}

/-- The root is put among the directories unless the choice of its fields has errors; then they stay as they are. -/
theorem create_eq (chosen : Chosen) (h : (entities t directories elements compress).foldl (choose t) ⟨∅, []⟩ = chosen) :
    create t elements name compress directories =
      if Diagnostics.hasErrors ⟨chosen.errors⟩ then (.error (Diagnostics.sort ⟨chosen.errors⟩), directories)
      else (.ok (), directories.insert path (.fakeRoot (GenerateSettings.nameOrDefault name) chosen.fields)) := by
  subst h
  rw [entities]
  simp only [create, Diagnostics.settle, bind, StateT.bind, get, getThe, MonadStateOf.get, StateT.get, pure]
  split <;> rfl

theorem add_eq : add t directories elements name compress =
    Diagnostics.settle ⟨((entities t directories elements compress).foldl (choose t) ⟨∅, []⟩).errors⟩
      (directories.insert path (.fakeRoot (GenerateSettings.nameOrDefault name)
        ((entities t directories elements compress).foldl (choose t) ⟨∅, []⟩).fields)) := by
  rw [add, create_eq _ rfl, Diagnostics.settle]
  split <;> rfl

theorem add_eq_ok_iff : add t directories elements name compress = .ok result ↔
    ((entities t directories elements compress).map t.name).Nodup ∧
      directories.insert path (.fakeRoot (GenerateSettings.nameOrDefault name)
        ((entities t directories elements compress).foldl (choose t) ⟨∅, []⟩).fields) = result := by
  rw [add_eq, Diagnostics.settle_eq_ok_iff, nodup_names_iff]
  refine and_congr_left fun _ => ?_
  constructor
  · intro hclean first later hrepeats
    have hmem := mem_errors_iff.mpr ⟨first, later, hrepeats, rfl⟩
    exact Bool.eq_false_iff.mp hclean (Diagnostics.hasErrors_iff.mpr ⟨_, hmem, rfl⟩)
  · intro hnone
    refine Bool.eq_false_iff.mpr fun herror => ?_
    obtain ⟨d, hd, -⟩ := Diagnostics.hasErrors_iff.mp herror
    obtain ⟨first, later, hrepeats, -⟩ := mem_errors_iff.mp hd
    exact hnone first later hrepeats

theorem add_eq_ok (h : add t directories elements name compress = .ok result) :
    (∀ a ∈ entities t directories elements compress, ∀ b ∈ entities t directories elements compress,
      t.name a = t.name b → a = b) ∧
      ∃ fields, result = directories.insert path (.fakeRoot (GenerateSettings.nameOrDefault name) fields) ∧
        ∀ n id, fields.get? n = some id ↔ id ∈ entities t directories elements compress ∧ t.name id = n := by
  obtain ⟨hnodup, rfl⟩ := add_eq_ok_iff.mp h
  refine ⟨fun a ha b hb hname => ?_, _, rfl, fun n id => get?_chosen_iff hnodup⟩
  have hfields {n : String} {id : NodeId} := @get?_chosen_iff _ _ hnodup n id
  exact Option.some.inj ((hfields.mpr ⟨ha, rfl⟩).symm.trans (hfields.mpr ⟨hb, hname.symm⟩))

theorem mem_of_add_eq_error {problems : Diagnostics} (h : add t directories elements name compress = .error problems)
    {d : Diagnostic} : d ∈ problems.items ↔
      ∃ first later, Repeats t (entities t directories elements compress) first later ∧
        d = .sameRootEntry path (t.name later) (t.pathString first) (t.pathString later) := by
  rw [add_eq] at h
  obtain ⟨-, rfl⟩ := Diagnostics.settle_eq_error_iff.mp h
  exact Diagnostics.mem_sort.trans mem_errors_iff

theorem code_of_add_eq_error {problems : Diagnostics} (h : add t directories elements name compress = .error problems)
    {d : Diagnostic} (hd : d ∈ problems.items) : d.code = .duplicateRootEntry := by
  obtain ⟨_, _, -, rfl⟩ := (mem_of_add_eq_error h).mp hd
  rfl

theorem isTopLevel_of_mem {id : NodeId} (h : id ∈ topDirectories t directories compress) :
    ∃ path, directories.get? path = some (.schema id) ∧ isTopLevel t directories compress path id = true := by
  obtain ⟨⟨path, dir⟩, he, hid⟩ := List.mem_filterMap.mp h
  split at hid
  · rename_i heq
    cases heq
    split at hid
    · rename_i htop
      cases hid
      exact ⟨_, Table.get?_eq_some_iff.mpr he, htop⟩
    · cases hid
  · cases hid

theorem mem_topDirectories {id : NodeId} (h : id ∈ topDirectories t directories compress) :
    ∃ path, directories.get? path = some (.schema id) := by
  obtain ⟨path, hget, -⟩ := isTopLevel_of_mem h
  exact ⟨path, hget⟩

theorem offers_of_mem_topLeaves {excluded : List String} {id : NodeId}
    (h : id ∈ topLeaves t t.generationRoots excluded) : ∃ r ∈ t.generationRoots, SchemaTree.Offers t r id := by
  obtain ⟨r, hr, hid⟩ := List.mem_flatMap.mp h
  exact ⟨r, (List.mem_filter.mp hr).1, SchemaTree.mem_dataChildren.mp (List.mem_filter.mp hid).1⟩

theorem mem_topLeaves {id : NodeId} : id ∈ topLeaves t t.generationRoots [] ↔
    (∃ r ∈ t.generationRoots, SchemaTree.Offers t r id) ∧ (t.kind id).isLeafLike = true := by
  simp only [topLeaves, SchemaTree.withoutExcluded_nil, SchemaTree.isExcluded_nil, Bool.not_false, Bool.and_true,
    List.mem_flatMap, List.mem_filter, SchemaTree.mem_dataChildren]
  constructor
  · rintro ⟨r, hr, ho, hk⟩
    exact ⟨⟨r, hr, ho⟩, hk⟩
  · rintro ⟨⟨r, hr, ho⟩, hk⟩
    exact ⟨r, hr, ho, hk⟩

/-! ### Candidates -/

/-- A directory is at the top if its path has three segments; under compression also if it is a list whose path has
    four, and no directory stands at the first three. -/
inductive AtTop (t : SchemaTree) (directories : Table MappedDirectory) (compress : Bool) (path : String) (id : NodeId) :
    Prop
  | outermost : (Text.pieces '/' path).length = 3 → AtTop t directories compress path id
  | surrounded : compress = true → t.kind id = .list → (Text.pieces '/' path).length = 4 →
      directories.get? ("/".intercalate ((Text.pieces '/' path).take 3)) = none → AtTop t directories compress path id

theorem isTopLevel_iff {path : String} {id : NodeId} :
    isTopLevel t directories compress path id = true ↔ AtTop t directories compress path id := by
  simp only [isTopLevel, Table.contains, Bool.or_eq_true, Bool.and_eq_true, beq_iff_eq, Bool.not_eq_true',
    Option.isSome_eq_false_iff, Option.isNone_iff_eq_none]
  constructor
  · rintro (hthree | ⟨⟨⟨hfour, hcompress⟩, hlist⟩, hparent⟩)
    · exact .outermost hthree
    · exact .surrounded hcompress hlist hfour hparent
  · rintro (hthree | ⟨hcompress, hlist, hfour, hparent⟩)
    · exact .inl hthree
    · exact .inr ⟨⟨⟨hfour, hcompress⟩, hlist⟩, hparent⟩

/-- The top-level entities in their order: the directories at the top, by path, and then the given elements. -/
def Candidates (t : SchemaTree) (directories : Table MappedDirectory) (elements : List NodeId) (compress : Bool)
    (ids : List NodeId) : Prop :=
  ∃ tops : Table NodeId, (∀ path id, tops.get? path = some id ↔
      directories.get? path = some (.schema id) ∧ AtTop t directories compress path id) ∧
    ids = tops.values ++ elements

/-- The node of a directory at the top, under its path. -/
def topOf? (t : SchemaTree) (directories : Table MappedDirectory) (compress : Bool) :
    String × MappedDirectory → Option (String × NodeId)
  | (path, .schema id) => if isTopLevel t directories compress path id then some (path, id) else none
  | (_, .fakeRoot _ _) => none

theorem topOf?_eq_some_iff {e : String × MappedDirectory} {path : String} {id : NodeId} :
    topOf? t directories compress e = some (path, id) ↔
      e = (path, .schema id) ∧ AtTop t directories compress path id := by
  obtain ⟨other, _ | _⟩ := e
  · simp only [topOf?, ← isTopLevel_iff]
    grind
  · simp [topOf?]

/-- The directories at the top, by path. -/
def tops (t : SchemaTree) (directories : Table MappedDirectory) (compress : Bool) : Table NodeId where
  entries := directories.entries.filterMap (topOf? t directories compress)
  sorted := by
    refine List.Pairwise.filterMap _ (fun a a' hlt b hb b' hb' => ?_) directories.sorted
    obtain ⟨rfl, -⟩ := topOf?_eq_some_iff.mp hb
    obtain ⟨rfl, -⟩ := topOf?_eq_some_iff.mp hb'
    exact hlt

theorem values_tops : (tops t directories compress).values = topDirectories t directories compress := by
  rw [Table.values, tops, List.map_filterMap, topDirectories]
  congr 1
  funext e
  obtain ⟨path, _ | _⟩ := e
  · simp only [topOf?]
    split <;> rfl
  · rfl

theorem candidates_iff {ids : List NodeId} :
    Candidates t directories elements compress ids ↔ ids = entities t directories elements compress := by
  have htops : ∀ path id, (tops t directories compress).get? path = some id ↔
      directories.get? path = some (.schema id) ∧ AtTop t directories compress path id := by
    intro path id
    simp only [Table.get?_eq_some_iff, tops, List.mem_filterMap, topOf?_eq_some_iff]
    constructor
    · rintro ⟨_, hmem, rfl, htop⟩
      exact ⟨hmem, htop⟩
    · rintro ⟨hmem, htop⟩
      exact ⟨_, hmem, rfl, htop⟩
  constructor
  · rintro ⟨other, hother, rfl⟩
    have heq : other = tops t directories compress :=
      Table.ext_get? fun path => Option.ext fun id => (hother path id).trans (htops path id).symm
    rw [heq, values_tops, entities]
  · rintro rfl
    exact ⟨tops t directories compress, htops, by rw [values_tops, entities]⟩

/-! ### Success and failure -/

/-- The directories after the root was asked for. -/
def after (t : SchemaTree) (directories : Table MappedDirectory) (elements : List NodeId) (name : String)
    (compress : Bool) : Table MappedDirectory :=
  (create t elements name compress directories).2

theorem after_of_add_eq_ok (h : add t directories elements name compress = .ok result) :
    after t directories elements name compress = result := by
  rw [add, create_eq _ rfl] at h
  rw [after, create_eq _ rfl]
  split at h
  · cases h
  · rename_i hclean
    rw [if_neg hclean]
    exact Except.ok.inj h

theorem after_of_add_eq_error {problems : Diagnostics} (h : add t directories elements name compress = .error problems) :
    after t directories elements name compress = directories := by
  rw [add, create_eq _ rfl] at h
  rw [after, create_eq _ rfl]
  split at h
  · rename_i herrors
    rw [if_pos herrors]
  · cases h

/-- The fake root is added exactly if no two candidates share a name. Then nothing changes but what stands at its path,
    where each candidate is a field under its name. Otherwise nothing changes at all, and each candidate behind the first
    one of its name is told, together with this one and each pair once. -/
theorem add_exact (t : SchemaTree) (directories : Table MappedDirectory) (elements : List NodeId) (name : String)
    (compress : Bool) : ∃ ids, (∀ other, Candidates t directories elements compress other ↔ other = ids) ∧
      ((∃ result, add t directories elements name compress = .ok result) ↔ (ids.map t.name).Nodup) ∧
      (∀ result, add t directories elements name compress = .ok result → ∃ fields,
        (∀ p, (after t directories elements name compress).get? p =
          if p = "/" then some (.fakeRoot (GenerateSettings.nameOrDefault name) fields) else directories.get? p) ∧
        ∀ n id, fields.get? n = some id ↔ id ∈ ids ∧ t.name id = n) ∧
      ∀ problems, add t directories elements name compress = .error problems →
        after t directories elements name compress = directories ∧ problems.items.Nodup ∧
          ∀ d, d ∈ problems.items ↔ ∃ first later, Repeats t ids first later ∧
            d = .sameRootEntry "/" (t.name later) (t.pathString first) (t.pathString later) := by
  refine ⟨entities t directories elements compress, fun _ => candidates_iff, ?_, fun result hresult => ?_,
    fun problems hproblems => ?_⟩
  · exact ⟨fun ⟨_, hresult⟩ => (add_eq_ok_iff.mp hresult).1, fun hnodup => ⟨_, add_eq_ok_iff.mpr ⟨hnodup, rfl⟩⟩⟩
  · obtain ⟨-, fields, rfl, hfields⟩ := add_eq_ok hresult
    refine ⟨fields, fun p => ?_, hfields⟩
    rw [after_of_add_eq_ok hresult, Table.get?_insert, path]
  · refine ⟨after_of_add_eq_error hproblems, ?_, fun d => mem_of_add_eq_error hproblems⟩
    rw [add_eq] at hproblems
    obtain ⟨-, rfl⟩ := Diagnostics.settle_eq_error_iff.mp hproblems
    exact (Diagnostics.pairwise_sort _).imp And.right

end SchemaIr.FakeRoot
