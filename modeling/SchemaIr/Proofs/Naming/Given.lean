import SchemaIr.Proofs.Naming.Registry
import SchemaIr.Proofs.Table.Order

/-! # Names given out along a run

A registry is asked for names one by one, or for those of all keys of a clash set (`Request`). Underscores may lead to a
name that is itself wanted later, so that no name is given out twice is a matter of the whole run: whatever is given
out was free at the beginning, no two of these names are the same, and the registry holds them all and nothing else that
is new (`Gives`). A clash set is resolved like a row of single requests, candidate by candidate and key by key
(`resolveClashes_eq_inTurn`). -/

namespace SchemaIr.NameRegistry

/-! ### Unique names -/

/-- A name with some underscores after it. -/
def underscored (base : String) (n : Nat) : String := base ++ String.ofList (List.replicate n '_')

/-- The name is the wanted one with as few underscores after it as make it free. -/
def FirstFree (r : NameRegistry) (base name : String) : Prop :=
  ∃ n, name = underscored base n ∧ r.contains name = false ∧ ∀ k < n, r.contains (underscored base k) = true

theorem underscored_zero (base : String) : underscored base 0 = base := String.append_empty

theorem underscored_succ (base : String) (n : Nat) : underscored (base ++ "_") n = underscored base (n + 1) := by
  apply String.toList_injective
  simp [underscored, List.replicate_succ]

/-- A taken name is tried again with one more underscore, and this does not go on forever. -/
theorem retry_wellFounded (r : NameRegistry) :
    WellFounded fun next name => r.contains name = true ∧ next = name ++ "_" :=
  Subrelation.wf (fun ⟨htaken, hnext⟩ => hnext ▸ length_longer_lt htaken)
    (InvImage.wf (fun name => (r.longer name).length) Nat.lt_wfRel.wf)

theorem contains_eq_false_iff {r : NameRegistry} {name : String} : r.contains name = false ↔ name ∉ r.taken := by
  rw [Bool.eq_false_iff, Ne, contains_iff]

theorem exists_free_eq (r : NameRegistry) (fuel : Nat) (base : String) :
    ∃ n, r.free base fuel = underscored base n ∧ ∀ k < n, r.contains (underscored base k) = true := by
  induction fuel generalizing base with
  | zero => exact ⟨0, (underscored_zero base).symm, nofun⟩
  | succ fuel ih =>
    rw [free]
    split
    · rename_i htaken
      obtain ⟨n, hn, hbefore⟩ := ih (base ++ "_")
      refine ⟨n + 1, hn.trans (underscored_succ base n), fun k hk => ?_⟩
      cases k with
      | zero => rwa [underscored_zero]
      | succ k => exact underscored_succ base k ▸ hbefore k (Nat.lt_of_succ_lt_succ hk)
    · exact ⟨0, (underscored_zero base).symm, nofun⟩

theorem firstFree_makeUnique (r : NameRegistry) (base : String) : r.FirstFree base (r.makeUnique base).1 := by
  obtain ⟨n, hn, hbefore⟩ := r.exists_free_eq r.size base
  exact ⟨n, hn, contains_eq_false_iff.mpr (r.makeUnique_spec base).1, hbefore⟩

/-- The wanted name is given out as it is exactly where it is free. -/
theorem makeUnique_eq_iff {r : NameRegistry} {base : String} :
    (r.makeUnique base).1 = base ↔ r.contains base = false := by
  obtain ⟨n, hn, hfree, hbefore⟩ := r.firstFree_makeUnique base
  refine ⟨fun heq => heq ▸ hfree, fun hbase => ?_⟩
  cases n with
  | zero => rw [hn, underscored_zero]
  | succ n =>
    have htaken := hbefore 0 (Nat.succ_pos n)
    rw [underscored_zero, hbase] at htaken
    cases htaken

/-! ### Requests -/

/-- What a registry may be asked for. -/
inductive Request
  | insert (name : String)
  | makeUnique (base : String)
  | resolveClashes (clashes : Table NameSet)

/-- The candidates of a clash set with their keys: in order, and the keys of each in order. -/
def wanted (clashes : Table NameSet) : List (String × String) :=
  clashes.entries.flatMap fun e => e.2.names.map (e.1, ·)

namespace Request

/-- The registry after a request. -/
def after (r : NameRegistry) : Request → NameRegistry
  | insert name => (r.insert name).2
  | makeUnique base => (r.makeUnique base).2
  | resolveClashes clashes => (r.resolveClashes clashes).2

/-- The names that are given out for a request. -/
def given (r : NameRegistry) : Request → List String
  | insert name => if (r.insert name).1 then [name] else []
  | makeUnique base => [(r.makeUnique base).1]
  | resolveClashes clashes => (r.resolveClashes clashes).1.values

/-- No key of a clash set stands under two candidates. -/
def DistinctKeys : Request → Prop
  | insert _ | makeUnique _ => True
  | resolveClashes clashes => ∀ {candidate other keys others key}, clashes.get? candidate = some keys →
      clashes.get? other = some others → key ∈ keys.names → key ∈ others.names → candidate = other

/-- The single requests that a clash set stands for. -/
def row (pairs : List (String × String)) : List Request := pairs.map fun pair => makeUnique pair.1

end Request

/-- The registry after some requests. -/
def along (r : NameRegistry) (requests : List Request) : NameRegistry := requests.foldl Request.after r

/-- The names that are given out for some requests, in order. -/
def handedOut (r : NameRegistry) : List Request → List String
  | [] => []
  | q :: rest => q.given r ++ handedOut (q.after r) rest

/-! ### What is given out -/

/-- From one registry to a later one, some names are given out that were free before, and no name twice. -/
structure Gives (before after : NameRegistry) (names : List String) : Prop where
  taken : after.taken.Perm (names ++ before.taken)
  fresh : ∀ name ∈ names, before.contains name = false
  nodup : names.Nodup

namespace Gives
variable {a b c : NameRegistry} {names more : List String}

theorem refl (r : NameRegistry) : Gives r r [] := ⟨.refl _, nofun, .nil⟩

theorem size (h : Gives a b names) : b.size = a.size + names.length := by
  rw [NameRegistry.size, h.taken.length_eq, List.length_append, NameRegistry.size, Nat.add_comm]

theorem single {name : String} (hfree : name ∉ a.taken) (htaken : b.taken = name :: a.taken) : Gives a b [name] :=
  ⟨.of_eq htaken, by simpa [contains_eq_false_iff] using hfree, List.nodup_singleton _⟩

theorem makeUnique (r : NameRegistry) (base : String) : Gives r (r.makeUnique base).2 [(r.makeUnique base).1] :=
  .single (r.makeUnique_spec base).1 (r.makeUnique_spec base).2

/-- Names that are given out later differ from those that were given out before. -/
theorem trans (h : Gives a b names) (h' : Gives b c more) : Gives a c (names ++ more) := by
  have hlater : ∀ name ∈ more, name ∉ names ∧ name ∉ a.taken := fun name hname => by
    have hfree := contains_eq_false_iff.mp (h'.fresh name hname)
    rw [h.taken.mem_iff, List.mem_append, not_or] at hfree
    exact hfree
  refine ⟨?_, fun name hname => ?_, ?_⟩
  · have hperm : c.taken.Perm (more ++ (names ++ a.taken)) := h'.taken.trans (h.taken.append_left more)
    rw [← List.append_assoc] at hperm
    exact hperm.trans (List.perm_append_comm.append_right a.taken)
  · rcases List.mem_append.mp hname with hname | hname
    · exact h.fresh name hname
    · exact contains_eq_false_iff.mpr (hlater name hname).2
  · refine List.nodup_append.mpr ⟨h.nodup, h'.nodup, fun name hname other hother heq => ?_⟩
    exact (hlater other hother).1 (heq ▸ hname)

theorem contains (h : Gives a b names) {name : String} (hname : a.contains name = true) : b.contains name = true :=
  contains_iff.mpr (h.taken.mem_iff.mpr (List.mem_append_right names (contains_iff.mp hname)))

theorem perm (h : Gives a b names) (hperm : names.Perm more) : Gives a b more where
  taken := h.taken.trans (hperm.append_right a.taken)
  fresh name hname := h.fresh name (hperm.mem_iff.mpr hname)
  nodup := hperm.nodup_iff.mp h.nodup

end Gives

/-! ### Clash sets -/

/-- Each key with the name that it is given where candidates are made unique in turn. -/
def inTurn (r : NameRegistry) : List (String × String) → List (String × String)
  | [] => []
  | (candidate, key) :: rest => (key, (r.makeUnique candidate).1) :: inTurn (r.makeUnique candidate).2 rest

theorem along_append (r : NameRegistry) (qs rest : List Request) : r.along (qs ++ rest) = (r.along qs).along rest :=
  List.foldl_append

theorem along_row_append (r : NameRegistry) (pairs rest : List (String × String)) :
    r.along (Request.row (pairs ++ rest)) = (r.along (Request.row pairs)).along (Request.row rest) := by
  rw [← along_append, Request.row, List.map_append]
  rfl

theorem inTurn_append (r : NameRegistry) (pairs rest : List (String × String)) :
    r.inTurn (pairs ++ rest) = r.inTurn pairs ++ (r.along (Request.row pairs)).inTurn rest := by
  induction pairs generalizing r with
  | nil => rfl
  | cons pair pairs ih =>
    rw [List.cons_append, inTurn, inTurn, ih, List.cons_append]
    rfl

theorem keys_inTurn (r : NameRegistry) (pairs : List (String × String)) :
    (r.inTurn pairs).map Prod.fst = pairs.map Prod.snd := by
  induction pairs generalizing r with
  | nil => rfl
  | cons pair pairs ih => rw [inTurn, List.map_cons, List.map_cons, ih]

theorem gives_inTurn (r : NameRegistry) (pairs : List (String × String)) :
    Gives r (r.along (Request.row pairs)) ((r.inTurn pairs).map Prod.snd) := by
  induction pairs generalizing r with
  | nil => exact .refl r
  | cons pair pairs ih => exact (Gives.makeUnique r pair.1).trans (ih (r.makeUnique pair.1).2)

theorem contains_makeUnique (r : NameRegistry) (base : String) : (r.makeUnique base).2.contains base = true := by
  cases hbase : r.contains base with
  | true => exact (Gives.makeUnique r base).contains hbase
  | false =>
    rw [contains_iff, (r.makeUnique_spec base).2, makeUnique_eq_iff.mpr hbase]
    exact List.mem_cons_self

/-- A candidate is taken once its turn has come. -/
theorem contains_along_row (r : NameRegistry) {pairs : List (String × String)} {candidate key : String}
    (h : (candidate, key) ∈ pairs) : (r.along (Request.row pairs)).contains candidate = true := by
  obtain ⟨before, rest, rfl⟩ := List.append_of_mem h
  rw [along_row_append]
  exact (gives_inTurn _ rest).contains (contains_makeUnique _ candidate)

theorem makeUniqueEach_eq (candidate : String) (keys : List String) (r : NameRegistry) :
    makeUniqueEach candidate keys r =
      (r.inTurn (keys.map (candidate, ·)), r.along (Request.row (keys.map (candidate, ·)))) := by
  induction keys generalizing r with
  | nil => rfl
  | cons key keys ih =>
    simp only [makeUniqueEach, ih]
    rfl

theorem foldl_giveEach_eq (es : List (String × NameSet)) (st : Table String × NameRegistry) : es.foldl giveEach st =
    ((st.2.inTurn (es.flatMap fun e => e.2.names.map (e.1, ·))).foldl (fun t e => t.insert e.1 e.2) st.1,
      st.2.along (Request.row (es.flatMap fun e => e.2.names.map (e.1, ·)))) := by
  induction es generalizing st with
  | nil => rfl
  | cons e es ih =>
    rw [List.foldl_cons, ih, giveEach, makeUniqueEach_eq, List.flatMap_cons, inTurn_append, List.foldl_append,
      along_row_append]

/-- A clash set is resolved by giving names to its keys in turn. -/
theorem resolveClashes_eq_inTurn (r : NameRegistry) (clashes : Table NameSet) : r.resolveClashes clashes =
    (Table.ofList (r.inTurn (wanted clashes)), r.along (Request.row (wanted clashes))) := by
  rw [resolveClashes_eq, foldl_giveEach_eq]
  rfl

theorem mem_wanted {clashes : Table NameSet} {candidate key : String} : (candidate, key) ∈ wanted clashes ↔
    ∃ keys, clashes.get? candidate = some keys ∧ key ∈ keys.names := by
  simp only [wanted, List.mem_flatMap, List.mem_map, Table.get?_eq_some_iff]
  constructor
  · rintro ⟨⟨candidate, keys⟩, he, key, hkey, heq⟩
    cases heq
    exact ⟨keys, he, hkey⟩
  · rintro ⟨keys, he, hkey⟩
    exact ⟨(candidate, keys), he, key, hkey, rfl⟩

/-- Candidates are wanted in order, and for each of them the keys in order. -/
theorem pairwise_wanted (clashes : Table NameSet) :
    (wanted clashes).Pairwise fun a b => a.1 < b.1 ∨ a.1 = b.1 ∧ a.2 < b.2 := by
  refine List.pairwise_flatMap.mpr ⟨fun e _ => ?_, clashes.sorted.imp fun {e e'} hlt a ha b hb => ?_⟩
  · have hkeys : e.2.names.Pairwise (· < ·) := List.pairwise_map.mpr e.2.sorted
    exact List.pairwise_map.mpr (hkeys.imp fun hlt => .inr ⟨rfl, hlt⟩)
  · obtain ⟨key, -, rfl⟩ := List.mem_map.mp ha
    obtain ⟨other, -, rfl⟩ := List.mem_map.mp hb
    exact .inl hlt

/-- In a clash set without a key of two candidates, no key is wanted twice. -/
theorem distinctKeys_iff {clashes : Table NameSet} :
    (Request.resolveClashes clashes).DistinctKeys ↔ ((wanted clashes).map Prod.snd).Nodup := by
  constructor
  · intro h
    refine List.pairwise_map.mpr (List.Pairwise.imp_of_mem (fun {a b} ha hb hlt heq => ?_) (pairwise_wanted clashes))
    obtain ⟨keys, hkeys, ha⟩ := mem_wanted.mp ha
    obtain ⟨others, hothers, hb⟩ := mem_wanted.mp hb
    have hcandidate := h hkeys hothers (heq ▸ ha) hb
    rcases hlt with hlt | ⟨-, hlt⟩
    · exact String.lt_irrefl _ (hcandidate ▸ hlt)
    · exact String.lt_irrefl _ (heq ▸ hlt)
  · intro h candidate other keys others key hkeys hothers hkey hkey'
    have hpair := List.inj_on_of_nodup_map h (mem_wanted.mpr ⟨keys, hkeys, hkey⟩) (mem_wanted.mpr ⟨others, hothers, hkey'⟩)
    exact congrArg Prod.fst (hpair rfl)

/-- How a clash set is resolved: a name is given to each of its keys, and to no other one, by making the candidates unique
    in turn. -/
structure Resolves (r : NameRegistry) (clashes : Table NameSet) (names : Table String) : Prop where
  keys : ∀ key, names.contains key = true ↔ ∃ candidate keys, clashes.get? candidate = some keys ∧ key ∈ keys.names
  ordered : (wanted clashes).Pairwise fun a b => a.1 < b.1 ∨ a.1 = b.1 ∧ a.2 < b.2
  inTurn : ∀ {before rest candidate key}, wanted clashes = before ++ (candidate, key) :: rest →
    names.get? key = some ((r.along (Request.row before)).makeUnique candidate).1
  /-- A key has the candidate itself if that is free when its turn comes. -/
  plain : ∀ {before rest candidate key}, wanted clashes = before ++ (candidate, key) :: rest →
    (names.get? key = some candidate ↔ (r.along (Request.row before)).contains candidate = false)
  /-- It is not free any more behind the first key of the candidate. -/
  first : ∀ {before rest candidate key other}, wanted clashes = before ++ (candidate, key) :: rest →
    (candidate, other) ∈ before → names.get? key ≠ some candidate

section Resolved
variable (r : NameRegistry) {clashes : Table NameSet} (h : (Request.resolveClashes clashes).DistinctKeys)
include h

theorem perm_entries_resolveClashes : (r.resolveClashes clashes).1.entries.Perm (r.inTurn (wanted clashes)) := by
  rw [resolveClashes_eq_inTurn]
  exact Table.entries_ofList_perm (keys_inTurn r _ ▸ distinctKeys_iff.mp h)

theorem gives_resolveClashes : Gives r (r.resolveClashes clashes).2 (r.resolveClashes clashes).1.values := by
  have hafter : (r.resolveClashes clashes).2 = r.along (Request.row (wanted clashes)) :=
    congrArg Prod.snd (resolveClashes_eq_inTurn r clashes)
  rw [hafter]
  exact (gives_inTurn r (wanted clashes)).perm ((perm_entries_resolveClashes r h).map Prod.snd).symm

theorem resolves_resolveClashes : Resolves r clashes (r.resolveClashes clashes).1 := by
  have hturn : ∀ {before rest candidate key}, wanted clashes = before ++ (candidate, key) :: rest →
      (r.resolveClashes clashes).1.get? key = some ((r.along (Request.row before)).makeUnique candidate).1 := by
    intro before rest candidate key hsplit
    refine Table.get?_eq_some_iff.mpr ((perm_entries_resolveClashes r h).mem_iff.mpr ?_)
    rw [hsplit, inTurn_append]
    exact List.mem_append_right _ List.mem_cons_self
  have hplain : ∀ {before rest candidate key}, wanted clashes = before ++ (candidate, key) :: rest →
      ((r.resolveClashes clashes).1.get? key = some candidate ↔
        (r.along (Request.row before)).contains candidate = false) := fun hsplit => by
    rw [hturn hsplit, Option.some.injEq, makeUnique_eq_iff]
  refine ⟨(r.resolveClashes_spec clashes).2, pairwise_wanted clashes, hturn, hplain, fun hsplit hmem heq => ?_⟩
  rw [hplain hsplit, contains_along_row r hmem] at heq
  cases heq

end Resolved

/-! ### Runs -/

/-- What is answered to a request. -/
def Answers (r : NameRegistry) : Request → Prop
  | .insert name => (r.insert name).1 = true ↔ r.contains name = false
  | .makeUnique base => (WellFounded fun next name => r.contains name = true ∧ next = name ++ "_") ∧
      r.FirstFree base (r.makeUnique base).1
  | .resolveClashes clashes => Resolves r clashes (r.resolveClashes clashes).1

theorem gives_given (r : NameRegistry) {q : Request} (h : q.DistinctKeys) : Gives r (q.after r) (q.given r) := by
  cases q with
  | insert name =>
    cases hname : r.contains name with
    | true => simpa [Request.after, Request.given, insert, hname] using Gives.refl r
    | false =>
      have hinsert : r.insert name = (true, { r with taken := name :: r.taken }) := by simp [insert, hname]
      rw [Request.after, Request.given, hinsert]
      exact .single (contains_eq_false_iff.mp hname) rfl
  | makeUnique base => exact .makeUnique r base
  | resolveClashes clashes => exact gives_resolveClashes r h

theorem gives_handedOut (r : NameRegistry) {requests : List Request} (h : ∀ q ∈ requests, q.DistinctKeys) :
    Gives r (r.along requests) (r.handedOut requests) := by
  induction requests generalizing r with
  | nil => exact .refl r
  | cons q rest ih =>
    obtain ⟨hq, hrest⟩ := List.forall_mem_cons.mp h
    exact (gives_given r hq).trans (ih (q.after r) hrest)

theorem answers_of_distinctKeys (r : NameRegistry) {q : Request} (h : q.DistinctKeys) : r.Answers q := by
  cases q with
  | insert name => cases hname : r.contains name <;> simp [Answers, insert, hname]
  | makeUnique base => exact ⟨r.retry_wellFounded, r.firstFree_makeUnique base⟩
  | resolveClashes clashes => exact resolves_resolveClashes r h

/-- Along any run, a registry answers every request as it should, and the names that it gives out were free at the
    beginning, are different from one another, and are counted. -/
theorem handedOut_once (r : NameRegistry) (requests : List Request) (h : ∀ q ∈ requests, q.DistinctKeys) :
    (r.handedOut requests).Nodup ∧ (∀ name ∈ r.handedOut requests, r.contains name = false) ∧
      (r.along requests).size = r.size + (r.handedOut requests).length ∧
      ∀ before q rest, requests = before ++ q :: rest → (r.along before).Answers q := by
  have hgives := gives_handedOut r h
  refine ⟨hgives.nodup, hgives.fresh, hgives.size, fun before q rest hsplit => ?_⟩
  exact answers_of_distinctKeys _ (h q (hsplit ▸ List.mem_append_right before List.mem_cons_self))

/-- Two keys that want the same name, one that wants the name which the second of them would get, and one that wants a
    taken name. -/
def crowded : Table NameSet :=
  .ofList [("Mod", .ofNames ["/x", "/y"]), ("Mod_", .ofNames ["/z"]), ("Taken", .ofNames ["/t"])]

/-- A run in which underscores lead to names that are wanted, too. -/
def crowdedRun : List Request := [.insert "Mod__", .insert "Taken", .resolveClashes crowded, .makeUnique "Mod"]

theorem crowdedRun_handedOut : (∀ q ∈ crowdedRun, q.DistinctKeys) ∧
    (⟨["Taken"], 0⟩ : NameRegistry).handedOut crowdedRun = ["Mod__", "Taken_", "Mod", "Mod_", "Mod___", "Mod____"] ∧
    ((⟨["Taken"], 0⟩ : NameRegistry).handedOut crowdedRun).Nodup ∧
    ((⟨["Taken"], 0⟩ : NameRegistry).along crowdedRun).size = 1 + 6 := by
  have hnames : (⟨["Taken"], 0⟩ : NameRegistry).handedOut crowdedRun =
      ["Mod__", "Taken_", "Mod", "Mod_", "Mod___", "Mod____"] := by decide +kernel
  have hkeys : ∀ q ∈ crowdedRun, q.DistinctKeys := by
    have hcrowded : (Request.resolveClashes crowded).DistinctKeys := distinctKeys_iff.mpr (by decide +kernel)
    simpa [crowdedRun] using ⟨trivial, trivial, hcrowded, trivial⟩
  obtain ⟨hnodup, -, hsize, -⟩ := handedOut_once ⟨["Taken"], 0⟩ crowdedRun hkeys
  exact ⟨hkeys, hnames, hnodup, hsize.trans (by rw [hnames]; rfl)⟩

end SchemaIr.NameRegistry
