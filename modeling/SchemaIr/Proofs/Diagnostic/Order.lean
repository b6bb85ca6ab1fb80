import SchemaIr.Proofs.Diagnostic.Settle

/-! # The order of a batch

Diagnostics are in a linear order: by path, then by code, message and context (`le_iff`). A sorted batch lists each
of its diagnostics once, in strictly increasing order, and is the only such list (`sort_eq_iff`). So a batch that is
handed back says nothing about the order in which its problems were met. -/

namespace SchemaIr

namespace Diagnostic

/-! ### Lists of texts -/

theorem leTexts_total : ∀ as bs : List String, leTexts as bs = true ∨ leTexts bs as = true
  | [], _ => .inl rfl
  | _ :: _, [] => .inr rfl
  | a :: as, b :: bs => by
    have ih := leTexts_total as bs
    simp only [leTexts]
    grind

theorem leTexts_antisymm : ∀ {as bs : List String}, leTexts as bs = true → leTexts bs as = true → as = bs
  | [], [], _, _ => rfl
  | [], _ :: _, _, h => nomatch h
  | _ :: _, [], h, _ => nomatch h
  | a :: as, b :: bs, h, h' => by
    have ih := @leTexts_antisymm as bs
    simp only [leTexts] at h h'
    grind

theorem leTexts_trans : ∀ {as bs cs : List String}, leTexts as bs = true → leTexts bs cs = true →
    leTexts as cs = true
  | [], _, _, _, _ => rfl
  | _ :: _, [], _, h, _ => nomatch h
  | _ :: _, _ :: _, [], _, h => nomatch h
  | a :: as, b :: bs, c :: cs, h, h' => by
    have ih := @leTexts_trans as bs cs
    simp only [leTexts] at h h' ⊢
    grind

/-! ### Diagnostics -/

theorem rank_injective {c d : DiagnosticCode} (h : c.rank = d.rank) : c = d := by
  cases c <;> cases d <;> first | rfl | cases h

/-- One diagnostic comes before another by the first part in which they differ. -/
theorem le_iff {a b : Diagnostic} : a.le b = true ↔ a.path < b.path ∨ a.path = b.path ∧
    (a.code.rank < b.code.rank ∨ a.code = b.code ∧
      (a.message < b.message ∨ a.message = b.message ∧ leTexts a.context b.context = true)) := by
  have hrank := @rank_injective a.code b.code
  unfold le
  grind

theorem le_total (a b : Diagnostic) : a.le b = true ∨ b.le a = true := by
  have hcontext := leTexts_total a.context b.context
  have hrank := @rank_injective a.code b.code
  rw [le_iff, le_iff]
  grind

theorem le_antisymm {a b : Diagnostic} (h : a.le b = true) (h' : b.le a = true) : a = b := by
  rw [le_iff] at h h'
  have hpath : a.path = b.path := by grind
  have hcode : a.code = b.code := by grind
  have hmessage : a.message = b.message := by grind
  have hcontext : a.context = b.context := leTexts_antisymm (by grind) (by grind)
  cases a
  cases b
  simp_all

theorem le_trans {a b c : Diagnostic} (h : a.le b = true) (h' : b.le c = true) : a.le c = true := by
  have hcontext := @leTexts_trans a.context b.context c.context
  rw [le_iff] at h h' ⊢
  grind

/-- One diagnostic comes before another one, which differs from it. -/
def Before (a b : Diagnostic) : Prop := a.le b = true ∧ a ≠ b

theorem Before.asymm {a b : Diagnostic} (h : a.Before b) : ¬b.Before a := fun h' => h.2 (le_antisymm h.1 h'.1)

theorem before_of_path_lt {a b : Diagnostic} (h : a.path < b.path) : a.Before b :=
  ⟨le_iff.mpr (.inl h), fun heq => String.lt_irrefl _ (heq ▸ h)⟩

end Diagnostic

namespace Diagnostics
open Diagnostic (Before)

/-! ### Sorted batches -/

/-- What is left of a sorted list without its repetitions strictly increases. -/
theorem pairwise_dropRepeats : ∀ {ds : List Diagnostic}, ds.Pairwise (fun a b => a.le b = true) →
    (dropRepeats ds).Pairwise Before
  | [], _ => .nil
  | [_], _ => List.pairwise_singleton _ _
  | a :: b :: rest, h => by
    obtain ⟨ha, hrest⟩ := List.pairwise_cons.mp h
    have ih : (dropRepeats (b :: rest)).Pairwise Before := pairwise_dropRepeats hrest
    simp only [dropRepeats]
    split
    · exact ih
    · rename_i hab
      refine List.pairwise_cons.mpr ⟨fun d hd => ?_, ih⟩
      have hd := mem_dropRepeats.mp hd
      refine ⟨ha d hd, fun heq => hab ?_⟩
      -- The first of the rest lies between two equal diagnostics.
      have hba : b.le a = true := by
        rcases List.mem_cons.mp hd with rfl | hd
        · exact heq ▸ ha d List.mem_cons_self
        · exact heq ▸ (List.pairwise_cons.mp hrest).1 d hd
      exact Diagnostic.le_antisymm (ha b List.mem_cons_self) hba

theorem pairwise_sort (ds : Diagnostics) : ds.sort.items.Pairwise Before := by
  refine pairwise_dropRepeats (List.pairwise_mergeSort (fun a b c hab hbc => ?_) (fun a b => ?_) ds.items)
  · exact Diagnostic.le_trans hab hbc
  · rw [Bool.or_eq_true]
    exact Diagnostic.le_total a b

/-- Strictly increasing lists of the same diagnostics are equal. -/
theorem eq_of_pairwise {as bs : List Diagnostic} (ha : as.Pairwise Before) (hb : bs.Pairwise Before)
    (h : ∀ d, d ∈ as ↔ d ∈ bs) : as = bs := by
  have nodup : ∀ {ds : List Diagnostic}, ds.Pairwise Before → ds.Nodup := fun hds => hds.imp And.right
  have hperm : as.Perm bs := (List.perm_ext_iff_of_nodup (nodup ha) (nodup hb)).mpr h
  exact hperm.eq_of_pairwise (fun a b _ _ hab hba => absurd hba hab.asymm) ha hb

/-- A sorted batch is the strictly increasing list of what is in the batch. -/
theorem sort_eq_iff {ds sorted : Diagnostics} :
    ds.sort = sorted ↔ sorted.items.Pairwise Before ∧ ∀ d, d ∈ sorted.items ↔ d ∈ ds.items := by
  constructor
  · rintro rfl
    exact ⟨ds.pairwise_sort, fun _ => mem_sort⟩
  · rintro ⟨hsorted, hmem⟩
    have hitems : ds.sort.items = sorted.items :=
      eq_of_pairwise ds.pairwise_sort hsorted fun d => mem_sort.trans (hmem d).symm
    cases sorted
    exact congrArg Diagnostics.mk hitems

end Diagnostics

end SchemaIr
