import SchemaIr.Proofs.Diagnostic.Order

/-! # Gathering diagnostics

Diagnostics are gathered one by one, and a batch that was gathered elsewhere is merged as it is or sorted
(`Gathering`). The outcome of settling it depends on the set of its diagnostics alone: not on their order, nor on
their number, nor on the way they came together (`settle_canonical`). Of repetitions only those that stand side by side
are dropped, so this rests on an order that tells any two diagnostics apart (`Diagnostic.before_iff_precedes`). -/

namespace SchemaIr

namespace Diagnostic

/-! ### The order, part by part -/

/-- One diagnostic comes before another one: by path, then by code, by message and by context. -/
def Precedes (a b : Diagnostic) : Prop :=
  a.path < b.path ∨ a.path = b.path ∧
    (a.code.rank < b.code.rank ∨ a.code = b.code ∧
      (a.message < b.message ∨ a.message = b.message ∧ a.context < b.context))

theorem leTexts_iff : ∀ {as bs : List String}, leTexts as bs = true ↔ as < bs ∨ as = bs
  | [], [] => by simp [leTexts]
  | [], b :: bs => by simp [leTexts]
  | a :: as, [] => by simp [leTexts]
  | a :: as, b :: bs => by
    have ih : leTexts as bs = true ↔ as < bs ∨ as = bs := leTexts_iff
    rw [leTexts, List.cons_lt_cons_iff, List.cons.injEq]
    grind

theorem Precedes.irrefl (a : Diagnostic) : ¬a.Precedes a := by
  have htexts : ¬a.context < a.context := List.lt_irrefl a.context
  unfold Precedes
  grind

theorem before_iff_precedes {a b : Diagnostic} : a.Before b ↔ a.Precedes b := by
  have hle : a.le b = true ↔ a.Precedes b ∨ a = b := by
    rw [le_iff, leTexts_iff, Precedes]
    cases a
    cases b
    grind
  refine ⟨fun ⟨h, hne⟩ => (hle.mp h).resolve_right hne, fun h => ⟨hle.mpr (.inl h), ?_⟩⟩
  rintro rfl
  exact Precedes.irrefl _ h

end Diagnostic

namespace Diagnostics
open Diagnostic (Precedes)

/-! ### What is sorted -/

theorem sort_eq_of_mem_iff {ds es : Diagnostics} (h : ∀ d, d ∈ ds.items ↔ d ∈ es.items) : ds.sort = es.sort :=
  sort_eq_iff.mpr ⟨es.pairwise_sort, fun d => mem_sort.trans (h d).symm⟩

theorem sort_sort (ds : Diagnostics) : ds.sort.sort = ds.sort := sort_eq_of_mem_iff fun _ => mem_sort

theorem mem_withoutErrors {ds : Diagnostics} {d : Diagnostic} :
    d ∈ ds.withoutErrors.items ↔ d ∈ ds.items ∧ d.isError = false := by
  rw [withoutErrors, notes, List.mem_filter, Bool.not_eq_true']

theorem withoutErrors_sort (ds : Diagnostics) : ds.sort.withoutErrors = ds.withoutErrors.sort := by
  have hpairwise : ds.sort.withoutErrors.items.Pairwise Diagnostic.Before := ds.pairwise_sort.filter _
  refine (sort_eq_iff.mpr ⟨hpairwise, fun d => ?_⟩).symm
  rw [mem_withoutErrors, mem_withoutErrors, mem_sort]

end Diagnostics

/-! ### Gatherings -/

/-- A way in which diagnostics come together. -/
inductive Gathering
  | empty
  | push (before : Gathering) (d : Diagnostic)
  | merge (before other : Gathering)
  | sorted (before : Gathering)

namespace Gathering
open Diagnostic (Precedes)

/-- The batch that is gathered. -/
def batch : Gathering → Diagnostics
  | empty => ∅
  | push before d => before.batch.push d
  | merge before other => before.batch ++ other.batch
  | sorted before => before.batch.sort

/-- A diagnostic is among those that are gathered. -/
inductive Has : Gathering → Diagnostic → Prop
  | pushed {before : Gathering} {d : Diagnostic} : Has (push before d) d
  | before {before : Gathering} {d other : Diagnostic} : Has before d → Has (push before other) d
  | mergedInto {before other : Gathering} {d : Diagnostic} : Has before d → Has (merge before other) d
  | merged {before other : Gathering} {d : Diagnostic} : Has other d → Has (merge before other) d
  | sorted {before : Gathering} {d : Diagnostic} : Has before d → Has (.sorted before) d

theorem mem_batch {g : Gathering} {d : Diagnostic} : d ∈ g.batch.items ↔ g.Has d := by
  induction g with
  | empty => exact iff_of_false List.not_mem_nil nofun
  | push before other ih =>
    rw [batch, Diagnostics.push, List.mem_append, ih, List.mem_singleton]
    constructor
    · rintro (h | rfl)
      · exact .before h
      · exact .pushed
    · intro h
      cases h with
      | pushed => exact .inr rfl
      | before h => exact .inl h
  | merge before other ih ih' =>
    rw [batch, Diagnostics.items_append, List.mem_append, ih, ih']
    constructor
    · rintro (h | h)
      · exact .mergedInto h
      · exact .merged h
    · intro h
      cases h with
      | mergedInto h => exact .inl h
      | merged h => exact .inr h
  | sorted before ih =>
    rw [batch, Diagnostics.mem_sort, ih]
    exact ⟨.sorted, fun h => by cases h; assumption⟩

/-- Gatherings of the same diagnostics have the same outcome. If an error is among them, this is one batch, which lists
    each diagnostic once and in order; otherwise it is the value that was asked for. A batch that is sorted stays as it
    is when it is sorted again, and its errors can be dropped before or after. -/
theorem settle_canonical {α : Type} {g h : Gathering} (hsame : ∀ d, g.Has d ↔ h.Has d) (value other : α) :
    ((∃ d, g.Has d ∧ d.isError = true) → ∃ problems, g.batch.settle value = .error problems ∧
        h.batch.settle other = .error problems ∧ (∀ d, d ∈ problems.items ↔ g.Has d) ∧
        problems.items.Nodup ∧ problems.items.Pairwise Precedes) ∧
      ((∀ d, g.Has d → d.isError = false) → g.batch.settle value = .ok value ∧ h.batch.settle other = .ok other) ∧
      g.batch.sort.sort = g.batch.sort ∧ g.batch.sort.withoutErrors = g.batch.withoutErrors.sort := by
  have herrors : ∀ {g : Gathering}, g.batch.hasErrors = true ↔ ∃ d, g.Has d ∧ d.isError = true := by
    simp only [Diagnostics.hasErrors_iff, mem_batch, implies_true]
  have hnone : ∀ {g : Gathering}, (∀ d, g.Has d → d.isError = false) → g.batch.hasErrors = false := fun hnotes =>
    Bool.eq_false_iff.mpr fun hany => by
      obtain ⟨d, hd, herror⟩ := herrors.mp hany
      rw [hnotes d hd] at herror
      cases herror
  refine ⟨fun hany => ?_, fun hnotes => ?_, Diagnostics.sort_sort _, Diagnostics.withoutErrors_sort _⟩
  · obtain ⟨d, hd, herror⟩ := hany
    have hsort : h.batch.sort = g.batch.sort :=
      Diagnostics.sort_eq_of_mem_iff fun d => by rw [mem_batch, mem_batch, hsame]
    have hpairwise := g.batch.pairwise_sort
    exact ⟨g.batch.sort, Diagnostics.settle_eq_error_iff.mpr ⟨herrors.mpr ⟨d, hd, herror⟩, rfl⟩,
      Diagnostics.settle_eq_error_iff.mpr ⟨herrors.mpr ⟨d, (hsame d).mp hd, herror⟩, hsort⟩,
      fun d => Diagnostics.mem_sort.trans mem_batch, hpairwise.imp And.right,
      hpairwise.imp Diagnostic.before_iff_precedes.mp⟩
  · have hnotes' : ∀ d, h.Has d → d.isError = false := fun d hd => hnotes d ((hsame d).mpr hd)
    exact ⟨Diagnostics.settle_eq_ok_iff.mpr ⟨hnone hnotes, rfl⟩, Diagnostics.settle_eq_ok_iff.mpr ⟨hnone hnotes', rfl⟩⟩

/-- An error that is told twice, around a note. -/
def twice : Gathering := ((empty.push (.noListKey "/m/l")).push (.keyless "/m/k")).push (.noListKey "/m/l")

/-- The same error once, after the note, which was gathered elsewhere. -/
def once : Gathering := (empty.merge (sorted (empty.push (.keyless "/m/k")))).push (.noListKey "/m/l")

theorem twice_settle_canonical : (∀ d, twice.Has d ↔ once.Has d) ∧ (∃ d, twice.Has d ∧ d.isError = true) ∧
    twice.batch ≠ once.batch ∧ twice.batch.settle () = .error ⟨[.keyless "/m/k", .noListKey "/m/l"]⟩ ∧
      once.batch.settle () = .error ⟨[.keyless "/m/k", .noListKey "/m/l"]⟩ := by
  have hitems : twice.batch.items = [.noListKey "/m/l", .keyless "/m/k", .noListKey "/m/l"] ∧
      once.batch.items = [.keyless "/m/k", .noListKey "/m/l"] := by decide +kernel
  have hsame : ∀ d, twice.Has d ↔ once.Has d := fun d => by
    rw [← mem_batch, ← mem_batch, hitems.1, hitems.2]
    grind
  have hany : ∃ d, twice.Has d ∧ d.isError = true := ⟨_, .pushed, rfl⟩
  have hsorted : twice.batch.sort = ⟨[.keyless "/m/k", .noListKey "/m/l"]⟩ := by
    refine Diagnostics.sort_eq_iff.mpr ⟨List.pairwise_pair.mpr (Diagnostic.before_of_path_lt (by decide)), fun d => ?_⟩
    rw [hitems.1]
    grind
  obtain ⟨problems, htwice, honce, -⟩ := (settle_canonical hsame () ()).1 hany
  obtain rfl : problems = _ := (Diagnostics.settle_eq_error_iff.mp htwice).2.symm.trans hsorted
  exact ⟨hsame, hany, by decide +kernel, htwice, honce⟩

end Gathering

end SchemaIr
