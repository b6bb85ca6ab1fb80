import SchemaIr.Diagnostic.Batch

/-! # Settling a batch

A batch is settled to its value exactly if it holds no error, and to an error batch with the same
diagnostics otherwise: sorting a batch and dropping repetitions loses none of them. -/

namespace SchemaIr

theorem ok_of_toOption {ε α : Type} {x : Except ε α} {a : α} (h : x.toOption = some a) : x = .ok a := by
  cases x with
  | ok b => exact congrArg Except.ok (Option.some.inj h)
  | error _ => cases h

/-- What comes out of something that may not end, if it ends without an error. -/
def result? {ε α : Type} (x : Option (Except ε α)) : Option α := x.bind Except.toOption

theorem some_ok_of_result? {ε α : Type} {x : Option (Except ε α)} {a : α} (h : result? x = some a) :
    x = some (.ok a) := by
  obtain ⟨y, rfl, hy⟩ := Option.bind_eq_some_iff.mp h
  exact congrArg some (ok_of_toOption hy)

/-- What is told by something that may not end, if it ends with an error. -/
def problems? {ε α : Type} : Option (Except ε α) → Option ε
  | some (.error problems) => some problems
  | _ => none

theorem some_error_of_problems? {ε α : Type} {x : Option (Except ε α)} {problems : ε} (h : problems? x = some problems) :
    x = some (.error problems) := by
  unfold problems? at h
  split at h <;> cases h
  rfl

namespace Diagnostics

/-! ### Diagnostics of a batch -/

@[simp] theorem items_empty : (∅ : Diagnostics).items = [] := rfl

@[simp] theorem items_single {d : Diagnostic} : (single d).items = [d] := rfl

@[simp] theorem items_append {a b : Diagnostics} : (a ++ b).items = a.items ++ b.items := rfl

theorem mem_dropRepeats {d : Diagnostic} : ∀ {ds : List Diagnostic}, d ∈ dropRepeats ds ↔ d ∈ ds
  | [] => Iff.rfl
  | [_] => Iff.rfl
  | a :: b :: rest => by
    have ih : d ∈ dropRepeats (b :: rest) ↔ d ∈ b :: rest := mem_dropRepeats
    simp only [dropRepeats]
    split
    · rename_i hab
      rw [ih, hab, List.mem_cons (a := d) (b := b) (l := b :: rest)]
      exact ⟨Or.inr, fun h => h.elim (fun h => h ▸ List.mem_cons_self) id⟩
    · rw [List.mem_cons, ih, List.mem_cons (a := d) (b := a)]

@[simp] theorem mem_sort {ds : Diagnostics} {d : Diagnostic} : d ∈ ds.sort.items ↔ d ∈ ds.items := by
  rw [sort, mem_dropRepeats, List.mem_mergeSort]

theorem hasErrors_iff {ds : Diagnostics} : ds.hasErrors = true ↔ ∃ d ∈ ds.items, d.isError = true :=
  List.any_eq_true

theorem contains_iff {ds : Diagnostics} {code : DiagnosticCode} :
    ds.contains code = true ↔ ∃ d ∈ ds.items, d.code = code := by
  simp [contains]

@[simp] theorem contains_sort {ds : Diagnostics} {code : DiagnosticCode} :
    ds.sort.contains code = ds.contains code := by
  rw [Bool.eq_iff_iff, contains_iff, contains_iff]
  simp only [mem_sort]

@[simp] theorem hasErrors_sort {ds : Diagnostics} : ds.sort.hasErrors = ds.hasErrors := by
  rw [Bool.eq_iff_iff, hasErrors_iff, hasErrors_iff]
  simp only [mem_sort]

@[simp] theorem contains_single {d : Diagnostic} {code : DiagnosticCode} :
    (single d).contains code = (d.code == code) := by
  simp [contains, single]

/-! ### Settling -/

variable {α : Type}

theorem settle_eq_ok_iff {ds : Diagnostics} {value result : α} :
    ds.settle value = .ok result ↔ ds.hasErrors = false ∧ value = result := by
  cases h : ds.hasErrors <;> simp [settle, h]

theorem settle_eq_error_iff {ds problems : Diagnostics} {value : α} :
    ds.settle value = .error problems ↔ ds.hasErrors = true ∧ ds.sort = problems := by
  cases h : ds.hasErrors <;> simp [settle, h]

/-- A batch of errors is settled to its value exactly if it is empty. -/
theorem settle_of_errors {ds : Diagnostics} {value : α} (h : ∀ d ∈ ds.items, d.isError = true) :
    ds.settle value = if ds.items = [] then .ok value else .error ds.sort := by
  split
  · rename_i hnil
    exact settle_eq_ok_iff.mpr ⟨by rw [hasErrors, hnil, List.any_nil], rfl⟩
  · rename_i hne
    obtain ⟨d, hd⟩ := List.exists_mem_of_ne_nil _ hne
    exact settle_eq_error_iff.mpr ⟨hasErrors_iff.mpr ⟨d, hd, h d hd⟩, rfl⟩

theorem hasErrors_of_settle {ds problems : Diagnostics} {value : α} (h : ds.settle value = .error problems) :
    problems.hasErrors = true := by
  obtain ⟨herr, rfl⟩ := settle_eq_error_iff.mp h
  rwa [hasErrors_sort]

/-- A batch with a code that is an error is settled to an error batch with that code. -/
theorem contains_of_settle_iff {ds : Diagnostics} {value : α} {code : DiagnosticCode} (h : code.severity = .error) :
    (∃ problems, ds.settle value = .error problems ∧ problems.contains code = true) ↔ ds.contains code = true := by
  constructor
  · rintro ⟨problems, hsettle, hcode⟩
    obtain ⟨-, rfl⟩ := settle_eq_error_iff.mp hsettle
    rwa [contains_sort] at hcode
  · intro hcode
    obtain ⟨d, hd, hdcode⟩ := contains_iff.mp hcode
    have herr : d.isError = true := by
      rw [Diagnostic.isError, Diagnostic.severity, hdcode, h]
      rfl
    exact ⟨ds.sort, settle_eq_error_iff.mpr ⟨hasErrors_iff.mpr ⟨d, hd, herr⟩, rfl⟩, by rwa [contains_sort]⟩

/-- Both runs give results, which are related, both fail with the same problems, or neither of them ends. -/
inductive Agree (R : α → α → Prop) : Option (Except Diagnostics α) → Option (Except Diagnostics α) → Prop
  | ok {a b : α} : R a b → Agree R (some (.ok a)) (some (.ok b))
  | error (problems : Diagnostics) : Agree R (some (.error problems)) (some (.error problems))
  | endless : Agree R none none

/-- The same batch is settled to both of two values, or to neither. -/
theorem Agree.settle {R : α → α → Prop} {a b : α} (h : R a b) (ds : Diagnostics) :
    Agree R (some (ds.settle a)) (some (ds.settle b)) := by
  unfold Diagnostics.settle
  split
  · exact .error _
  · exact .ok h

end Diagnostics

end SchemaIr
