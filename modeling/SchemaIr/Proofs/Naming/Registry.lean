import SchemaIr.Naming.Registry
import SchemaIr.Proofs.Table.Lookup

/-! # Names given out by a registry

Whatever a registry gives out was free before and is taken afterwards, and nothing is ever given back. A
table of names that a registry gave out (`Assigned`) is therefore injective, and two such tables, one
filled after the other, share no name. A name that is made unique is the wanted one with underscores after
it (`Disambiguates`). -/

namespace SchemaIr

namespace NameRegistry

theorem contains_iff {r : NameRegistry} {name : String} : r.contains name = true ↔ name ∈ r.taken := by
  simp [contains]

theorem insert_eq_true {r r' : NameRegistry} {name : String} (h : r.insert name = (true, r')) :
    name ∉ r.taken ∧ r'.taken = name :: r.taken := by
  unfold insert at h
  split at h
  · cases h
  · rename_i hfree
    cases h
    exact ⟨fun hmem => hfree (contains_iff.mpr hmem), rfl⟩

/-! ### Unique names -/

/-- The taken names that are at least as long as a name. -/
def longer (r : NameRegistry) (name : String) : List String := r.taken.filter fun n => name.length ≤ n.length

/-- With one more underscore, a taken name has fewer to meet: it is not among the longer ones itself. -/
theorem length_longer_lt {r : NameRegistry} {name : String} (h : r.contains name = true) :
    (r.longer (name ++ "_")).length < (r.longer name).length := by
  have hlonger : r.longer (name ++ "_") = (r.longer name).filter fun n => name.length + 1 ≤ n.length := by
    rw [longer, longer, List.filter_filter]
    refine List.filter_congr fun n _ => ?_
    have hlen : (name ++ "_").length = name.length + 1 := by
      rw [String.length_append]
      rfl
    rw [hlen, ← Bool.decide_and, decide_eq_decide]
    omega
  rw [hlonger, List.length_filter_lt_length_iff_exists]
  exact ⟨name, List.mem_filter.mpr ⟨contains_iff.mp h, by simp⟩, by simp⟩

/-- One underscore for each taken name that is long enough suffices: every try is longer than the last. -/
theorem free_not_taken (r : NameRegistry) : ∀ (fuel : Nat) (name : String),
    (r.longer name).length ≤ fuel → r.free name fuel ∉ r.taken
  | 0, name, h => by
    intro hmem
    have hnil := List.eq_nil_of_length_eq_zero (Nat.le_zero.mp h)
    have hin : name ∈ r.longer name := List.mem_filter.mpr ⟨hmem, by simp⟩
    rw [hnil] at hin
    cases hin
  | fuel + 1, name, h => by
    rw [free]
    split
    · rename_i htaken
      have hlt := length_longer_lt htaken
      exact free_not_taken r fuel (name ++ "_") (by omega)
    · rename_i hfree
      exact fun hmem => hfree (contains_iff.mpr hmem)

theorem makeUnique_spec (r : NameRegistry) (base : String) :
    (r.makeUnique base).1 ∉ r.taken ∧ (r.makeUnique base).2.taken = (r.makeUnique base).1 :: r.taken := by
  have hfree : r.free base r.size ∉ r.taken := r.free_not_taken r.size base (List.length_filter_le _ _)
  refine ⟨hfree, ?_⟩
  have hcontains : r.contains (r.free base r.size) = false := by
    rw [Bool.eq_false_iff]
    exact fun h => hfree (contains_iff.mp h)
  simp [makeUnique, insert, hcontains]

/-! ### Underscores -/

/-- The name is the wanted one with underscores after it. -/
def Disambiguates (base name : String) : Prop := ∃ n, name.toList = base.toList ++ List.replicate n '_'

theorem disambiguates_free (r : NameRegistry) (fuel : Nat) (base : String) : Disambiguates base (r.free base fuel) := by
  induction fuel generalizing base with
  | zero => exact ⟨0, by simp [free]⟩
  | succ fuel ih =>
    rw [free]
    split
    · obtain ⟨n, hn⟩ := ih (base ++ "_")
      refine ⟨n + 1, ?_⟩
      rw [hn, String.toList_append, List.append_assoc, List.replicate_succ]
      rfl
    · exact ⟨0, by simp⟩

theorem disambiguates_makeUnique (r : NameRegistry) (base : String) : Disambiguates base (r.makeUnique base).1 :=
  disambiguates_free r r.size base

/-! ### Tables of names -/

/-- A registry gave out the names of a table: each was free before, each is taken afterwards, and no two keys
    share one. -/
structure Assigned (before after : NameRegistry) (names : Table String) : Prop where
  fresh : ∀ {key name : String}, names.get? key = some name → name ∉ before.taken
  taken : ∀ {key name : String}, names.get? key = some name → name ∈ after.taken
  injective : ∀ {key other name : String},
    names.get? key = some name → names.get? other = some name → key = other
  /-- No name is given back. -/
  grows : ∀ {name : String}, name ∈ before.taken → name ∈ after.taken

namespace Assigned
variable {a b c : NameRegistry} {names more : Table String}

theorem refl (r : NameRegistry) : Assigned r r ∅ :=
  ⟨fun h => (nomatch h), fun h => (nomatch h), fun h => (nomatch h), id⟩

theorem give (h : Assigned a b names) {name : String} (hfree : name ∉ b.taken) (hc : c.taken = name :: b.taken)
    (key : String) : Assigned a c (names.insert key name) := by
  have hold : ∀ {k : String}, names.get? k ≠ some name := fun hk => hfree (h.taken hk)
  refine ⟨fun {k n} hk => ?_, fun {k n} hk => ?_, fun {k l n} hk hl => ?_, fun {n} hn => ?_⟩
  · rw [Table.get?_insert] at hk
    split at hk
    · cases hk
      exact fun hn => hfree (h.grows hn)
    · exact h.fresh hk
  · rw [Table.get?_insert] at hk
    rw [hc]
    split at hk
    · cases hk
      exact List.mem_cons_self
    · exact List.mem_cons_of_mem _ (h.taken hk)
  · rw [Table.get?_insert] at hk hl
    split at hk <;> split at hl
    · rename_i hkk hll
      exact hkk.trans hll.symm
    · cases hk
      exact absurd hl hold
    · cases hl
      exact absurd hk hold
    · exact h.injective hk hl
  · rw [hc]
    exact List.mem_cons_of_mem _ (h.grows hn)

theorem insert (h : Assigned a b names) {name : String} (hc : b.insert name = (true, c)) (key : String) :
    Assigned a c (names.insert key name) :=
  h.give (insert_eq_true hc).1 (insert_eq_true hc).2 key

theorem makeUnique (h : Assigned a b names) (base key : String) :
    Assigned a (b.makeUnique base).2 (names.insert key (b.makeUnique base).1) :=
  h.give (b.makeUnique_spec base).1 (b.makeUnique_spec base).2 key

theorem makeUniqueEach (candidate : String) (keys : List String) (h : Assigned a b names) :
    Assigned a (makeUniqueEach candidate keys b).2
      ((makeUniqueEach candidate keys b).1.foldl (fun t e => t.insert e.1 e.2) names) := by
  induction keys generalizing b names with
  | nil => exact h
  | cons key rest ih =>
    rw [NameRegistry.makeUniqueEach, List.foldl_cons]
    exact ih (h.makeUnique candidate key)

/-- Names given out later differ from those given out before. -/
theorem union (h : Assigned a b names) (h' : Assigned b c more) : Assigned a c (names.union more) := by
  have hcase : ∀ {k n : String}, (names.union more).get? k = some n → more.get? k = some n ∨ names.get? k = some n := by
    intro k n hk
    rw [Table.get?_union] at hk
    exact Option.or_eq_some_iff.mp hk |>.imp_right And.right
  refine ⟨fun hk => ?_, fun hk => ?_, fun hk hl => ?_, fun hn => h'.grows (h.grows hn)⟩
  · rcases hcase hk with hk | hk
    · exact fun hn => h'.fresh hk (h.grows hn)
    · exact h.fresh hk
  · rcases hcase hk with hk | hk
    · exact h'.taken hk
    · exact h'.grows (h.taken hk)
  · rcases hcase hk with hk | hk <;> rcases hcase hl with hl | hl
    · exact h'.injective hk hl
    · exact absurd (h.taken hl) (h'.fresh hk)
    · exact absurd (h.taken hk) (h'.fresh hl)
    · exact h.injective hk hl

end Assigned

/-! ### Clashing names -/

theorem makeUniqueEach_keys (candidate : String) (keys : List String) (r : NameRegistry) :
    (makeUniqueEach candidate keys r).1.map Prod.fst = keys := by
  induction keys generalizing r with
  | nil => rfl
  | cons key rest ih => simp [makeUniqueEach, ih]

theorem get?_foldl_insert_isSome_iff {t : Table String} {es : List (String × String)} {key : String} :
    ((es.foldl (fun t e => t.insert e.1 e.2) t).get? key).isSome = true ↔
      key ∈ es.map Prod.fst ∨ (t.get? key).isSome = true := by
  rw [Table.get?_foldl_insert, Option.isSome_or, Bool.or_eq_true]
  refine or_congr_left ?_
  rw [← Option.ne_none_iff_isSome, Ne, Entries.find?_eq_none_iff]
  simp

/-- Gives out the names for one more candidate. -/
def giveEach (st : Table String × NameRegistry) (e : String × NameSet) : Table String × NameRegistry :=
  let given := makeUniqueEach e.1 e.2.names st.2
  (given.1.foldl (fun t e => t.insert e.1 e.2) st.1, given.2)

theorem resolveClashes_eq (r : NameRegistry) (clashes : Table NameSet) :
    r.resolveClashes clashes = clashes.entries.foldl giveEach (∅, r) := rfl

/-- What candidates still to come add to the names given so far. -/
theorem foldl_giveEach {a b : NameRegistry} {names : Table String} (es : List (String × NameSet))
    (h : Assigned a b names) :
    Assigned a (es.foldl giveEach (names, b)).2 (es.foldl giveEach (names, b)).1 ∧
      ∀ key, ((es.foldl giveEach (names, b)).1.get? key).isSome = true ↔
        (∃ e ∈ es, key ∈ e.2.names) ∨ (names.get? key).isSome = true := by
  induction es generalizing names b with
  | nil => exact ⟨h, fun key => by simp⟩
  | cons e rest ih =>
    obtain ⟨hassigned, hkeys⟩ := ih (h.makeUniqueEach e.1 e.2.names)
    refine ⟨hassigned, fun key => (hkeys key).trans ?_⟩
    rw [get?_foldl_insert_isSome_iff, makeUniqueEach_keys, ← or_assoc]
    refine or_congr_left ?_
    simp only [List.mem_cons, exists_eq_or_imp]
    exact or_comm

/-- Every key of every candidate gets a name, and no other key does. -/
theorem resolveClashes_spec (r : NameRegistry) (clashes : Table NameSet) :
    Assigned r (r.resolveClashes clashes).2 (r.resolveClashes clashes).1 ∧
      ∀ key, ((r.resolveClashes clashes).1.get? key).isSome = true ↔
        ∃ candidate keys, clashes.get? candidate = some keys ∧ key ∈ keys.names := by
  rw [resolveClashes_eq]
  obtain ⟨hassigned, hkeys⟩ := foldl_giveEach clashes.entries (.refl r)
  refine ⟨hassigned, fun key => (hkeys key).trans ?_⟩
  constructor
  · rintro (⟨e, he, hkey⟩ | hnone)
    · exact ⟨e.1, e.2, Table.get?_eq_some_iff.mpr he, hkey⟩
    · cases hnone
  · rintro ⟨candidate, keys, hget, hkey⟩
    exact .inl ⟨(candidate, keys), Table.get?_eq_some_iff.mp hget, hkey⟩

theorem disambiguates_makeUniqueEach {candidate : String} {keys : List String} {r : NameRegistry} :
    ∀ e ∈ (makeUniqueEach candidate keys r).1, e.1 ∈ keys ∧ Disambiguates candidate e.2 := by
  induction keys generalizing r with
  | nil => exact fun e he => nomatch he
  | cons key rest ih =>
    intro e he
    rcases List.mem_cons.mp he with rfl | he
    · exact ⟨List.mem_cons_self, disambiguates_makeUnique r candidate⟩
    · exact ⟨List.mem_cons_of_mem _ (ih e he).1, (ih e he).2⟩

theorem disambiguates_foldl_giveEach {es : List (String × NameSet)} {st : Table String × NameRegistry}
    {key name : String} (h : (es.foldl giveEach st).1.get? key = some name) :
    (∃ e ∈ es, key ∈ e.2.names ∧ Disambiguates e.1 name) ∨ st.1.get? key = some name := by
  induction es generalizing st with
  | nil => exact .inr h
  | cons e rest ih =>
    rcases ih h with ⟨e', he', hname⟩ | hold
    · exact .inl ⟨e', List.mem_cons_of_mem _ he', hname⟩
    · rw [giveEach, Table.get?_foldl_insert, Option.or_eq_some_iff] at hold
      rcases hold with hgiven | ⟨-, hbefore⟩
      · have hmem := List.mem_reverse.mp (Entries.mem_of_find? hgiven)
        exact .inl ⟨e, List.mem_cons_self, disambiguates_makeUniqueEach _ hmem⟩
      · exact .inr hbefore

/-- The names of a candidate's keys are the candidate with underscores after it. -/
theorem disambiguates_resolveClashes {r : NameRegistry} {clashes : Table NameSet} {key name : String}
    (h : (r.resolveClashes clashes).1.get? key = some name) :
    ∃ candidate keys, clashes.get? candidate = some keys ∧ key ∈ keys.names ∧ Disambiguates candidate name := by
  rw [resolveClashes_eq] at h
  rcases disambiguates_foldl_giveEach h with ⟨e, he, hkey, hname⟩ | hnone
  · exact ⟨e.1, e.2, Table.get?_eq_some_iff.mpr he, hkey, hname⟩
  · cases hnone

end NameRegistry

end SchemaIr
