import Mathlib.Data.List.Pairwise
import Mathlib.Logic.Function.Iterate
import SchemaIr.Proofs.Enumeration.Coverage

/-! # Rounds of naming

An inline enumeration asks for the last two segments of its context first, and for one segment more in the next round
if it is blocked: another enumeration wants the same name in this round, or the name is taken (`Blocked`). What a round
does is told of each name that is wanted, with the registry as it stands at the beginning of the round (`Takes`), since
a name that is given out in the round is no other name that is wanted in it. From one round the run follows (`Run`):
after as many rounds as the longest context has segments no one waits, and every enumeration has the name of the least
part of its context at which it was not blocked, with underscores after it only if it was blocked with the whole
context (`simple_names_grow`). -/

namespace SchemaIr.EnumSet

/-- One round of naming inline enumerations. -/
def nameRound (st : InlineNames) : InlineNames :=
  (byCandidate st.next).entries.foldl nameCandidate { st with next := [] }

/-- The one that wants a name, when it asks for one segment more. -/
def Pending.longer (p : Pending) : Pending := { p with level := p.level + 1 }

/-- Two that want names stand for different groups: their leaves have different paths. -/
def Pending.Apart (p q : Pending) : Prop := p.group.representativePath ≠ q.group.representativePath

instance : Std.Symm Pending.Apart := ⟨fun _ _ h => h.symm⟩

/-- An enumeration that waits cannot have the name that it wants: another one wants it too, or it is taken. -/
structure Blocked (st : InlineNames) (p : Pending) : Prop where
  waits : p ∈ st.next
  clash : (∃ q ∈ st.next, q.Apart p ∧ q.candidate = p.candidate) ∨ st.registry.contains p.candidate = true

/-- No two enumerations that wait stand for one group. -/
def Distinct (st : InlineNames) : Prop := st.next.Pairwise Pending.Apart

/-- One name is left for an enumeration to want. -/
def LeftWith (st : InlineNames) (name path : String) : Prop :=
  ∃ paths, st.exhausted.get? name = some paths ∧ path ∈ paths.names

variable {st st' st'' : InlineNames} {registry : NameRegistry} {name path : String} {p q : Pending} {ps : List Pending}
  {e : String × List Pending} {es es' : List (String × List Pending)}

/-! ### One name -/

/-- Those that want a name cannot have it: they are several, or it is taken. -/
def Clash (registry : NameRegistry) (e : String × List Pending) : Prop :=
  1 < e.2.length ∨ registry.contains e.1 = true

instance (registry : NameRegistry) (e : String × List Pending) : Decidable (Clash registry e) :=
  inferInstanceAs (Decidable (_ ∨ _))

theorem nameCandidate_of_clash (h : Clash st.registry e) : nameCandidate st e = e.2.foldl (putOff e.1) st := by
  unfold nameCandidate
  split
  · rename_i name p
    have htaken : st.registry.contains name = true := h.resolve_left (Nat.lt_irrefl 1)
    rw [NameRegistry.insert, if_pos htaken]
    rfl
  · rfl

theorem nameCandidate_of_free (h : ¬Clash st.registry e) (hne : e.2 ≠ []) : ∃ p, e.2 = [p] ∧ nameCandidate st e =
    { st with
      names := st.names.insert p.group.representativePath e.1
      registry := (st.registry.insert e.1).2 } := by
  obtain ⟨name, ps⟩ := e
  obtain ⟨hfew, hfree⟩ := not_or.mp h
  match ps with
  | [] => exact absurd rfl hne
  | [p] =>
    refine ⟨p, rfl, ?_⟩
    rw [nameCandidate, NameRegistry.insert, if_neg hfree]
  | _ :: _ :: _ => exact absurd (by simp) hfew

/-- What the ones that are put off ask for next. -/
def putOffs (registry : NameRegistry) (e : String × List Pending) : List Pending :=
  if Clash registry e then (e.2.filter (!·.exhausted)).map .longer else []

theorem clash_of_mem_putOffs (h : q ∈ putOffs registry e) :
    Clash registry e ∧ ∃ p ∈ e.2, p.exhausted = false ∧ q = p.longer := by
  unfold putOffs at h
  split at h
  · rename_i hclash
    obtain ⟨p, hp, rfl⟩ := List.mem_map.mp h
    obtain ⟨hp, hlonger⟩ := List.mem_filter.mp hp
    exact ⟨hclash, p, hp, by simpa using hlonger, rfl⟩
  · cases h

theorem foldl_putOff_eq (name : String) (ps : List Pending) (st : InlineNames) :
    (ps.foldl (putOff name) st).next = st.next ++ (ps.filter (!·.exhausted)).map .longer ∧
      (ps.foldl (putOff name) st).names = st.names ∧ (ps.foldl (putOff name) st).registry = st.registry := by
  induction ps generalizing st with
  | nil => simp
  | cons p rest ih =>
    obtain ⟨hnext, hnames, hregistry⟩ := ih (putOff name st p)
    rw [List.foldl_cons, hnext, hnames, hregistry]
    unfold putOff
    split
    · rename_i hexhausted
      simp [hexhausted]
    · rename_i hlonger
      simp [hlonger, Pending.longer]

theorem leftWith_foldl_putOff {c : String} (h : LeftWith (ps.foldl (putOff name) st) c path) :
    LeftWith st c path ∨ c = name ∧ ∃ p ∈ ps, p.exhausted = true ∧ p.group.representativePath = path := by
  induction ps generalizing st with
  | nil => exact .inl h
  | cons p rest ih =>
    rcases ih h with hold | ⟨rfl, q, hq, hrest⟩
    · unfold putOff at hold
      split at hold
      · rename_i hexhausted
        obtain ⟨paths, hget, hpath⟩ := hold
        dsimp only at hget
        rw [Table.get?_insert] at hget
        split at hget
        · rename_i hc
          subst hc
          cases hget
          rcases NameSet.mem_names_add.mp hpath with rfl | hbefore
          · exact .inr ⟨rfl, p, List.mem_cons_self, hexhausted, rfl⟩
          · cases hgot : st.exhausted.get? c with
            | none =>
              rw [Table.getD, hgot] at hbefore
              cases hbefore
            | some paths =>
              rw [Table.getD, hgot] at hbefore
              exact .inl ⟨paths, hgot, hbefore⟩
        · exact .inl ⟨paths, hget, hpath⟩
      · exact .inl hold
    · exact .inr ⟨rfl, q, List.mem_cons_of_mem _ hq, hrest⟩

/-! ### One round -/

/-- A part of a round, in which what wants some names is dealt with; the registry is that of the round's beginning. -/
structure Takes (registry : NameRegistry) (es : List (String × List Pending)) (st st' : InlineNames) : Prop where
  next : st'.next = st.next ++ es.flatMap (putOffs registry)
  names : ∀ {path name : String}, st'.names.get? path = some name →
    st.names.get? path = some name ∨ ∃ ps, (name, ps) ∈ es ∧ ∃ p ∈ ps, p.group.representativePath = path
  exhausted : ∀ {name path : String}, LeftWith st' name path → LeftWith st name path ∨
    ∃ ps, (name, ps) ∈ es ∧ Clash registry (name, ps) ∧
      ∃ p ∈ ps, p.exhausted = true ∧ p.group.representativePath = path
  /-- Only names that were wanted are given out. -/
  registry : ∀ {name : String}, name ∉ es.map Prod.fst → st'.registry.contains name = st.registry.contains name

theorem Takes.refl (registry : NameRegistry) (st : InlineNames) : Takes registry [] st st :=
  ⟨by simp, .inl, .inl, fun _ => rfl⟩

theorem Takes.trans (h : Takes registry es st st') (h' : Takes registry es' st' st'') :
    Takes registry (es ++ es') st st'' := by
  refine ⟨?_, fun {path name} hname => ?_, fun {name path} hleft => ?_, fun {name} hname => ?_⟩
  · rw [h'.next, h.next, List.flatMap_append, List.append_assoc]
  · rcases h'.names hname with hbefore | ⟨ps, hps, hp⟩
    · exact (h.names hbefore).imp_right fun ⟨ps, hps, hp⟩ => ⟨ps, List.mem_append_left _ hps, hp⟩
    · exact .inr ⟨ps, List.mem_append_right _ hps, hp⟩
  · rcases h'.exhausted hleft with hbefore | ⟨ps, hps, hp⟩
    · exact (h.exhausted hbefore).imp_right fun ⟨ps, hps, hp⟩ => ⟨ps, List.mem_append_left _ hps, hp⟩
    · exact .inr ⟨ps, List.mem_append_right _ hps, hp⟩
  · rw [List.map_append, List.mem_append, not_or] at hname
    exact (h'.registry hname.2).trans (h.registry hname.1)

theorem contains_insert_of_ne {r : NameRegistry} {name other : String} (h : other ≠ name) :
    (r.insert name).2.contains other = r.contains other := by
  unfold NameRegistry.insert
  split
  · rfl
  · simp [NameRegistry.contains, h]

theorem Takes.one (hne : e.2 ≠ []) (hregistry : st.registry.contains e.1 = registry.contains e.1) :
    Takes registry [e] st (nameCandidate st e) := by
  have hclash : Clash st.registry e ↔ Clash registry e := by rw [Clash, Clash, hregistry]
  by_cases h : Clash st.registry e
  · obtain ⟨hnext, hnames, hsame⟩ := foldl_putOff_eq e.1 e.2 st
    rw [nameCandidate_of_clash h]
    refine ⟨?_, fun hname => .inl (hnames ▸ hname), fun {name path} hleft => ?_, fun _ => by rw [hsame]⟩
    · rw [hnext, List.flatMap_singleton, putOffs, if_pos (hclash.mp h)]
    · exact (leftWith_foldl_putOff hleft).imp_right fun ⟨hname, hp⟩ =>
        ⟨e.2, by rw [hname, List.mem_singleton], by rw [hname]; exact hclash.mp h, hp⟩
  · obtain ⟨p, hp, heq⟩ := nameCandidate_of_free h hne
    rw [heq]
    refine ⟨?_, fun {path name} hname => ?_, .inl, fun {name} hname => ?_⟩
    · rw [List.flatMap_singleton, putOffs, if_neg (mt hclash.mpr h), List.append_nil]
    · rw [Table.get?_insert] at hname
      split at hname
      · rename_i hpath
        cases hname
        exact .inr ⟨e.2, List.mem_singleton_self e, p, hp ▸ List.mem_singleton_self p, hpath.symm⟩
      · exact .inl hname
    · exact contains_insert_of_ne (by simpa using hname)

/-- Names that are wanted once each are dealt with one after the other: none of them is given out before its turn. -/
theorem Takes.foldl (hnodup : (es.map Prod.fst).Nodup) (hne : ∀ e ∈ es, e.2 ≠ [])
    (hregistry : ∀ e ∈ es, st.registry.contains e.1 = registry.contains e.1) :
    Takes registry es st (es.foldl nameCandidate st) := by
  induction es generalizing st with
  | nil => exact .refl registry st
  | cons e rest ih =>
    obtain ⟨hfirst, hrest⟩ := List.nodup_cons.mp hnodup
    have hone : Takes registry [e] st (nameCandidate st e) :=
      .one (hne e List.mem_cons_self) (hregistry e List.mem_cons_self)
    refine hone.trans (ih hrest (fun e' he' => hne e' (List.mem_cons_of_mem _ he')) fun e' he' => ?_)
    have hother : e'.1 ∉ [e].map Prod.fst := fun hmem => hfirst (by
      rw [← List.mem_singleton.mp hmem]
      exact List.mem_map_of_mem he')
    exact (hone.registry hother).trans (hregistry e' (List.mem_cons_of_mem _ he'))

theorem mem_of_mem_byCandidate (h : (name, ps) ∈ (byCandidate st.next).entries) (hp : p ∈ ps) :
    p ∈ st.next ∧ p.candidate = name := by
  rw [(eq_filter_of_mem_byCandidate h).1] at hp
  simpa using hp

theorem takes_nameRound (st : InlineNames) :
    Takes st.registry (byCandidate st.next).entries { st with next := [] } (nameRound st) :=
  .foldl (Table.names_nodup _) (fun _ he => (eq_filter_of_mem_byCandidate he).2) fun _ _ => rfl

/-- Of several in pairwise relation each is in relation to another one. -/
theorem exists_related_of_pairwise {α : Type} {R : α → α → Prop} [Std.Symm R] {xs : List α} (hpairwise : xs.Pairwise R)
    (hmany : 1 < xs.length) {a : α} (ha : a ∈ xs) : ∃ b ∈ xs, R b a := by
  match xs with
  | [] | [_] => simp at hmany
  | first :: second :: rest =>
    obtain ⟨hfirst, -⟩ := List.pairwise_cons.mp hpairwise
    rcases List.mem_cons.mp ha with rfl | hrest
    · exact ⟨second, by simp, symm (hfirst second List.mem_cons_self)⟩
    · exact ⟨first, List.mem_cons_self, hfirst a hrest⟩

theorem blocked_of_clash (hdistinct : Distinct st) (he : (name, ps) ∈ (byCandidate st.next).entries)
    (hclash : Clash st.registry (name, ps)) (hp : p ∈ ps) : Blocked st p := by
  obtain ⟨hwaits, rfl⟩ := mem_of_mem_byCandidate he hp
  refine ⟨hwaits, hclash.imp (fun hmany => ?_) id⟩
  have hpairwise := hdistinct.filter (·.candidate = p.candidate)
  rw [← (eq_filter_of_mem_byCandidate he).1] at hpairwise
  obtain ⟨q, hq, hne⟩ := exists_related_of_pairwise hpairwise hmany hp
  exact ⟨q, (mem_of_mem_byCandidate he hq).1, hne, (mem_of_mem_byCandidate he hq).2⟩

/-- Who waits after a round was blocked in it, and asks for one segment more. -/
theorem exists_blocked_of_mem_nameRound (hdistinct : Distinct st) (hq : q ∈ (nameRound st).next) :
    ∃ p, Blocked st p ∧ p.exhausted = false ∧ q = p.longer := by
  rw [(takes_nameRound st).next, List.nil_append] at hq
  obtain ⟨⟨name, ps⟩, he, hq⟩ := List.mem_flatMap.mp hq
  obtain ⟨hclash, p, hp, hlonger, rfl⟩ := clash_of_mem_putOffs hq
  exact ⟨p, blocked_of_clash hdistinct he hclash hp, hlonger, rfl⟩

/-- Who is named in a round has the name that it wanted. -/
theorem names_nameRound (h : (nameRound st).names.get? path = some name) : st.names.get? path = some name ∨
    ∃ p ∈ st.next, p.group.representativePath = path ∧ p.candidate = name := by
  refine ((takes_nameRound st).names h).imp id ?_
  rintro ⟨ps, hps, p, hp, hpath⟩
  obtain ⟨hwaits, hname⟩ := mem_of_mem_byCandidate hps hp
  exact ⟨p, hwaits, hpath, hname⟩

/-- For whom one name is left was blocked with the whole context. -/
theorem leftWith_nameRound (hdistinct : Distinct st) (h : LeftWith (nameRound st) name path) : LeftWith st name path ∨
    ∃ p, Blocked st p ∧ p.exhausted = true ∧ p.group.representativePath = path ∧ p.candidate = name := by
  refine ((takes_nameRound st).exhausted h).imp id ?_
  rintro ⟨ps, hps, hclash, p, hp, hexhausted, hpath⟩
  exact ⟨p, blocked_of_clash hdistinct hps hclash hp, hexhausted, hpath, (mem_of_mem_byCandidate hps hp).2⟩

theorem Distinct.nameRound (h : Distinct st) : Distinct (nameRound st) := by
  rw [Distinct, (takes_nameRound st).next, List.nil_append, List.pairwise_flatMap]
  refine ⟨fun e he => ?_, ?_⟩
  · unfold putOffs
    split
    · rw [List.pairwise_map, (eq_filter_of_mem_byCandidate he).1]
      exact (h.filter _).filter _
    · exact .nil
  · refine (byCandidate st.next).sorted.imp_of_mem fun {e e'} he he' hlt x hx y hy => ?_
    obtain ⟨-, p, hp, -, rfl⟩ := clash_of_mem_putOffs hx
    obtain ⟨-, q, hq, -, rfl⟩ := clash_of_mem_putOffs hy
    obtain ⟨hp, hname⟩ := mem_of_mem_byCandidate he hp
    obtain ⟨hq, hname'⟩ := mem_of_mem_byCandidate he' hq
    -- Those that want different names are different.
    have hne : p ≠ q := fun heq => String.lt_irrefl e.1 (by
      rwa [← hname', ← heq, hname] at hlt)
    exact show Pending.Apart p q from List.Pairwise.forall h hp hq hne

/-! ### The run -/

/-- The least part of a context that is asked for. -/
def shortest (g : EnumGroup) : Nat := min g.context.length 2

/-- Where the naming of inline enumerations begins. -/
def inlineStart (inline : Table EnumGroup) (registry : NameRegistry) : InlineNames :=
  ⟨∅, registry, ∅, inline.values.map fun g => ⟨g, shortest g⟩⟩

/-- The length of the longest context. -/
def longest (inline : Table EnumGroup) : Nat := (inline.values.map (·.context.length)).foldl max 0

/-- An enumeration that asks for a part of its context was blocked with every smaller part, in the round in which it
    asked for it. -/
structure Grown (start : InlineNames) (g : EnumGroup) (level : Nat) : Prop where
  least : shortest g ≤ level
  most : level ≤ g.context.length
  blocked : ∀ lower, shortest g ≤ lower → lower < level → Blocked (nameRounds (lower - shortest g) start) ⟨g, lower⟩

/-- An enumeration was blocked with its whole context. -/
structure Spent (start : InlineNames) (g : EnumGroup) : Prop where
  grown : Grown start g g.context.length
  blocked : Blocked (nameRounds (g.context.length - shortest g) start) ⟨g, g.context.length⟩

theorem nameRound_of_next_eq_nil (h : st.next = []) : nameRound st = st := by
  obtain ⟨names, registry, exhausted, next⟩ := st
  cases h
  rfl

/-- The rounds may go on when no one waits, since nothing happens then. -/
theorem nameRounds_eq_iterate (n : Nat) (st : InlineNames) : nameRounds n st = nameRound^[n] st := by
  induction n generalizing st with
  | zero => rfl
  | succ n ih =>
    rw [nameRounds, Function.iterate_succ_apply]
    split
    · rename_i hnone
      have hfixed := nameRound_of_next_eq_nil (List.isEmpty_iff.mp hnone)
      rw [hfixed, Function.iterate_fixed hfixed]
    · exact ih (nameRound st)

theorem nameRounds_succ (n : Nat) (st : InlineNames) : nameRounds (n + 1) st = nameRound (nameRounds n st) := by
  rw [nameRounds_eq_iterate, nameRounds_eq_iterate, Function.iterate_succ_apply']

/-- What is so after a number of rounds. -/
structure Run (inline : Table EnumGroup) (start : InlineNames) (n : Nat) (st : InlineNames) : Prop where
  distinct : Distinct st
  waiting : ∀ {g : EnumGroup} {level : Nat}, ⟨g, level⟩ ∈ st.next →
    g ∈ inline.values ∧ level = shortest g + n ∧ Grown start g level
  named : ∀ {path name : String}, st.names.get? path = some name → ∃ g ∈ inline.values,
    g.representativePath = path ∧ ∃ level, Grown start g level ∧ Pending.candidate ⟨g, level⟩ = name
  left : ∀ {name path : String}, LeftWith st name path → ∃ g ∈ inline.values,
    g.representativePath = path ∧ Spent start g ∧ Pending.candidate ⟨g, g.context.length⟩ = name

section Run
variable {inline : Table EnumGroup} {start : InlineNames} {n : Nat} {g : EnumGroup}

/-- Who is blocked with a part of its context has grown to one segment more. -/
theorem Grown.longer (h : Grown start g (shortest g + n)) (hblocked : Blocked (nameRounds n start) ⟨g, shortest g + n⟩)
    (hmore : shortest g + n < g.context.length) : Grown start g (shortest g + n + 1) := by
  refine ⟨Nat.le_succ_of_le h.least, hmore, fun lower hleast hlt => ?_⟩
  rcases Nat.lt_succ_iff_lt_or_eq.mp hlt with hlt | rfl
  · exact h.blocked lower hleast hlt
  · rwa [Nat.add_sub_cancel_left]

theorem Run.begin (hdistinct : (inline.values.map (·.representativePath)).Nodup)
    (registry : NameRegistry) : Run inline (inlineStart inline registry) 0 (inlineStart inline registry) := by
  have hapart : (inlineStart inline registry).next.Pairwise Pending.Apart :=
    List.pairwise_map.mpr ((List.pairwise_map.mp hdistinct).imp id)
  refine ⟨hapart, fun hwaits => ?_, fun h => (nomatch h), fun ⟨_, h, _⟩ => (nomatch h)⟩
  obtain ⟨g, hg, hp⟩ := List.mem_map.mp hwaits
  cases hp
  exact ⟨hg, rfl, Nat.le_refl _, Nat.min_le_left _ _, fun lower hleast hlt => absurd hlt (Nat.not_lt.mpr hleast)⟩

/-- A round keeps it all. -/
theorem Run.step (h : Run inline start n (nameRounds n start)) :
    Run inline start (n + 1) (nameRounds (n + 1) start) := by
  rw [nameRounds_succ]
  refine ⟨h.distinct.nameRound, fun hwaits => ?_, fun {path name} hname => ?_, fun {name path} hleft => ?_⟩
  · obtain ⟨⟨g, level⟩, hblocked, hlonger, hq⟩ := exists_blocked_of_mem_nameRound h.distinct hwaits
    cases hq
    obtain ⟨hg, rfl, hgrown⟩ := h.waiting hblocked.waits
    have hmore : shortest g + n < g.context.length := by simpa [Pending.exhausted] using hlonger
    exact ⟨hg, rfl, hgrown.longer hblocked hmore⟩
  · rcases names_nameRound hname with hbefore | ⟨p, hwaits, rfl, rfl⟩
    · exact h.named hbefore
    · obtain ⟨hg, -, hgrown⟩ := h.waiting hwaits
      exact ⟨p.group, hg, rfl, p.level, hgrown, rfl⟩
  · rcases leftWith_nameRound h.distinct hleft with hbefore | ⟨⟨g, level⟩, hblocked, hexhausted, rfl, rfl⟩
    · exact h.left hbefore
    · obtain ⟨hg, rfl, hgrown⟩ := h.waiting hblocked.waits
      have hwhole : shortest g + n = g.context.length :=
        Nat.le_antisymm hgrown.most (by simpa [Pending.exhausted] using hexhausted)
      refine ⟨g, hg, rfl, ⟨hwhole ▸ hgrown, ?_⟩, by rw [hwhole]⟩
      rw [← hwhole, Nat.add_sub_cancel_left]
      exact hblocked

theorem run_nameRounds (hdistinct : (inline.values.map (·.representativePath)).Nodup)
    (registry : NameRegistry) (n : Nat) :
    Run inline (inlineStart inline registry) n (nameRounds n (inlineStart inline registry)) := by
  induction n with
  | zero => exact .begin hdistinct registry
  | succ n ih => exact ih.step

/-- After as many rounds as the longest context has segments no one waits, if every context has a segment. -/
theorem next_nameRounds_longest
    (hdistinct : (inline.values.map (·.representativePath)).Nodup)
    (hsegments : ∀ g ∈ inline.values, g.context ≠ []) (registry : NameRegistry) :
    (nameRounds (longest inline) (inlineStart inline registry)).next = [] := by
  refine List.eq_nil_iff_forall_not_mem.mpr fun p hp => ?_
  obtain ⟨hg, hlevel, hgrown⟩ := (run_nameRounds hdistinct registry (longest inline)).waiting hp
  have hlongest : p.group.context.length ≤ longest inline :=
    (le_foldl_max _ 0).2 _ (List.mem_map_of_mem hg)
  have hsome := List.length_pos_iff.mpr (hsegments p.group hg)
  have hmost := hgrown.most
  rw [hlevel, shortest] at hmost
  omega

/-- The name that an inline enumeration gets: underscores come only after a whole context with which it was blocked. -/
theorem exists_grown_of_nameInline
    (hdistinct : (inline.values.map (·.representativePath)).Nodup) {path : String}
    (h : (nameInline inline registry).1.get? path = some name) : ∃ g ∈ inline.values, g.representativePath = path ∧
      ∃ level underscores, Grown (inlineStart inline registry) g level ∧
        (0 < underscores → level = g.context.length ∧ Spent (inlineStart inline registry) g) ∧
          name = Pending.candidate ⟨g, level⟩ ++ String.ofList (List.replicate underscores '_') := by
  have hrun := run_nameRounds hdistinct registry (longest inline + 1)
  change ((nameRounds (longest inline + 1) (inlineStart inline registry)).names.union
    (NameRegistry.resolveClashes _ (nameRounds (longest inline + 1) (inlineStart inline registry)).exhausted).1).get? path =
      some name at h
  rw [Table.get?_union, Option.or_eq_some_iff] at h
  rcases h with hresolved | ⟨-, hnamed⟩
  · obtain ⟨candidate, paths, hpaths, hpath, underscores, hname⟩ :=
      NameRegistry.disambiguates_resolveClashes hresolved
    obtain ⟨g, hg, hrep, hspent, rfl⟩ := hrun.left ⟨paths, hpaths, hpath⟩
    refine ⟨g, hg, hrep, g.context.length, underscores, hspent.grown, fun _ => ⟨rfl, hspent⟩, ?_⟩
    exact String.toList_injective (by rw [hname, String.toList_append, String.toList_ofList])
  · obtain ⟨g, hg, hrep, level, hgrown, rfl⟩ := hrun.named hnamed
    exact ⟨g, hg, hrep, level, 0, hgrown, fun hpos => absurd hpos (Nat.lt_irrefl 0), by simp⟩

end Run

/-! ### The names -/

section Names
variable {t : SchemaTree} {enumLeaves : Table NodeId} {compress skipDedup : Bool} {before after : NameRegistry}
  {set : EnumSet}

theorem context_ne_nil_of_sight {leaf : NodeId} {m : TypeDescriptor} {s : EnumGroups.Sighting}
    (h : EnumGroups.sight t compress skipDedup path leaf m = .ok s) (hkind : s.group.kind = .simple) :
    s.group.context ≠ [] := by
  unfold EnumGroups.sight at h
  dsimp only at h
  split at h
  · split at h <;> cases h
    cases hkind
  · split at h <;> cases h
    · cases hkind
    · simp [EnumGroups.context]

theorem context_ne_nil {key : String} {g : EnumGroup}
    (hg : (EnumGroups.ofLeaves t enumLeaves compress skipDedup).1.inline.get? key = some g) : g.context ≠ [] := by
  have hjoined := (EnumGroups.ofLeaves_spec t enumLeaves compress skipDedup).1 .simple
  obtain ⟨s, hs, -, hsg⟩ := hjoined.founder hg
  obtain ⟨hs, hkind⟩ := List.mem_filter.mp hs
  obtain ⟨leaf, -, hsight⟩ := EnumGroups.leaf_of_sighted hs
  obtain ⟨_, -, -, m, -, hm⟩ := EnumGroups.mem_sightings hsight
  rw [hsg]
  exact context_ne_nil_of_sight hm (by simpa using hkind)

theorem nodup_representativePaths (t : SchemaTree) (enumLeaves : Table NodeId) (compress skipDedup : Bool) :
    ((EnumGroups.ofLeaves t enumLeaves compress skipDedup).1.inline.values.map (·.representativePath)).Nodup :=
  Table.nodup_map_values fun hg hg' hpath => EnumGroups.key_eq_of_path hg hg' hpath

/-- Every inline enumeration of a set has the name of its module and the last segments of its context, as many as it
    had to ask for: at least two, if the context has them, and one more for each round in which it was blocked.
    Underscores come only after the whole context, if it was blocked with that as well. In every round the ones that
    wait ask for no more segments than there are, and no one waits after as many rounds as the longest context has
    segments. -/
theorem simple_names_grow (h : EnumSet.ofLeaves t enumLeaves compress skipDedup before = (.ok set, after)) :
    let groups := (EnumGroups.ofLeaves t enumLeaves compress skipDedup).1
    let start := inlineStart groups.inline (registryForInline groups before)
    (∀ name e, set.enumerations.get? name = some e → e.kind = .simple →
      ∃ g ∈ groups.inline.values, e = ofGroup name g ∧ ∃ level underscores, Grown start g level ∧
        (0 < underscores → level = g.context.length ∧ Spent start g) ∧
          name = Naming.qualify g.module (g.context.drop (g.context.length - level)) ++
            String.ofList (List.replicate underscores '_')) ∧
      (∀ n, ∀ p ∈ (nameRounds n start).next, p.level = shortest p.group + n ∧ p.level ≤ p.group.context.length) ∧
        (nameRounds (longest groups.inline) start).next = [] := by
  intro groups start
  have hdistinct := nodup_representativePaths t enumLeaves compress skipDedup
  obtain ⟨nameOf, hnaming, hinline⟩ := exists_naming_inline h
  refine ⟨fun name e he hsimple => ?_, fun n p hp => ?_, ?_⟩
  · obtain ⟨kind, key, g, hg, rfl, rfl⟩ := hnaming.only he
    obtain rfl : kind = .simple := (EnumGroups.kind_of_group hg).symm.trans hsimple
    obtain ⟨g', hg', hpath, level, underscores, hgrown, hspent, hname⟩ :=
      exists_grown_of_nameInline hdistinct (hinline hg)
    -- The group with the representative path is this one.
    obtain ⟨key', hkey'⟩ := Table.mem_values_iff.mp hg'
    obtain rfl := EnumGroups.key_eq_of_path hkey' hg hpath
    obtain rfl : g' = g := Option.some.inj (hkey'.symm.trans hg)
    exact ⟨g', hg', rfl, level, underscores, hgrown, hspent, hname⟩
  · obtain ⟨-, hlevel, hgrown⟩ := (run_nameRounds hdistinct (registryForInline groups before) n).waiting hp
    exact ⟨hlevel, hgrown.most⟩
  · refine next_nameRounds_longest hdistinct (fun g hg => ?_) _
    obtain ⟨key, hkey⟩ := Table.mem_values_iff.mp hg
    exact context_ne_nil hkey

/-- Without deduplication the lamps' modes are blocked with two segments, one of them with the whole context, too. -/
theorem lamps_names_grow : ∃ set after, EnumSet.ofLeaves lamps lampModes false true ⟨["M_A_Lamp_Mode"], 0⟩ =
      (.ok set, after) ∧ set.enumerations.names = ["M_A_Lamp_Mode_", "M_B_Lamp_Mode", "M_Mode"] ∧
    let groups := (EnumGroups.ofLeaves lamps lampModes false true).1
    let start := inlineStart groups.inline (registryForInline groups ⟨["M_A_Lamp_Mode"], 0⟩)
    (∀ name e, set.enumerations.get? name = some e → e.kind = .simple →
      ∃ g ∈ groups.inline.values, e = ofGroup name g ∧ ∃ level underscores, Grown start g level ∧
        (0 < underscores → level = g.context.length ∧ Spent start g) ∧
          name = Naming.qualify g.module (g.context.drop (g.context.length - level)) ++
            String.ofList (List.replicate underscores '_')) ∧
      (nameRounds (longest groups.inline) start).next = [] := by
  have hrun : (EnumSet.ofLeaves lamps lampModes false true ⟨["M_A_Lamp_Mode"], 0⟩).1.toOption.map
      (·.enumerations.names) = some ["M_A_Lamp_Mode_", "M_B_Lamp_Mode", "M_Mode"] := by
    decide +kernel
  match h : EnumSet.ofLeaves lamps lampModes false true ⟨["M_A_Lamp_Mode"], 0⟩ with
  | (.ok set, after) =>
    rw [h] at hrun
    obtain ⟨hnames, -, hends⟩ := simple_names_grow h
    exact ⟨set, after, rfl, Option.some.inj hrun, hnames, hends⟩
  | (.error _, _) =>
    rw [h] at hrun
    cases hrun

end Names

end SchemaIr.EnumSet
