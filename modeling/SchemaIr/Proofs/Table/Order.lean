import Mathlib.Data.List.Nodup
import SchemaIr.Proofs.Table.Lookup

/-! # Order in tables

A table is settled by its lookups, since its order is that of the names (`ext_get?`). So listing a table of values
under their own keys sorts them (`values_ofList_eq_mergeSort`), and a new name is written between the smaller ones and the greater ones
(`exists_insert`). -/

namespace SchemaIr

theorem Entries.Sorted.exists_insert {α : Type} {name : String} {es : List (String × α)} (h : Sorted es) (value : α)
    (hnew : find? name es = none) : ∃ before after, es = before ++ after ∧
      Entries.insert name value es = before ++ (name, value) :: after ∧ (∀ e ∈ before, e.1 < name) ∧
      ∀ e ∈ after, name < e.1 := by
  induction es with
  | nil => exact ⟨[], [], rfl, rfl, nofun, nofun⟩
  | cons x rest ih =>
    obtain ⟨k, v⟩ := x
    obtain ⟨hfirst, hrest⟩ := List.pairwise_cons.mp h
    have hnames := find?_eq_none_iff.mp hnew
    by_cases hlt : name < k
    · refine ⟨[], (k, v) :: rest, rfl, by simp [Entries.insert, hlt], nofun, fun e he => ?_⟩
      rcases List.mem_cons.mp he with rfl | he
      · exact hlt
      · exact String.lt_trans hlt (hfirst e he)
    · have hne : name ≠ k := Ne.symm (hnames (k, v) List.mem_cons_self)
      obtain ⟨before, after, hsplit, hinsert, hbefore, hafter⟩ :=
        ih hrest (find?_eq_none_iff.mpr fun e he => hnames e (List.mem_cons_of_mem _ he))
      refine ⟨(k, v) :: before, after, by rw [hsplit, List.cons_append], ?_, fun e he => ?_, hafter⟩
      · simp [Entries.insert, hlt, hne, hinsert]
      · rcases List.mem_cons.mp he with rfl | he
        · exact Std.lt_of_le_of_ne (String.not_lt.mp hlt) (Ne.symm hne)
        · exact hbefore e he

namespace Table
variable {α : Type}

theorem entries_nodup (t : Table α) : t.entries.Nodup := t.names_nodup.of_map _

/-- Tables that answer every lookup alike are equal. -/
theorem ext_get? {t u : Table α} (h : ∀ name, t.get? name = u.get? name) : t = u := by
  have hperm : t.entries.Perm u.entries := by
    refine (List.perm_ext_iff_of_nodup t.entries_nodup u.entries_nodup).mpr fun ⟨name, value⟩ => ?_
    rw [← get?_eq_some_iff, ← get?_eq_some_iff, h]
  exact Table.ext (hperm.eq_of_pairwise (fun a b _ _ hab hba => absurd hba (String.lt_asymm hab)) t.sorted u.sorted)

theorem exists_insert {t : Table α} {name : String} (hnew : t.get? name = none) (value : α) :
    ∃ before after, t.entries = before ++ after ∧ (t.insert name value).entries = before ++ (name, value) :: after ∧
      (∀ e ∈ before, e.1 < name) ∧ ∀ e ∈ after, name < e.1 :=
  t.sorted.exists_insert value hnew

theorem isEmpty_iff {t : Table α} : t.isEmpty = true ↔ t = ∅ := by
  rw [isEmpty, List.isEmpty_iff]
  exact ⟨fun h => Table.ext h, fun h => congrArg entries h⟩

/-- Writing the entries of a table one by one gives the table back. -/
theorem ofList_entries (t : Table α) : ofList t.entries = t := by
  refine ext_get? fun name => Option.ext fun v => ?_
  rw [get?_ofList_eq_some_iff, get?_eq_some_iff]
  intro v w hv hw
  exact Option.some.inj ((get?_eq_some_iff.mpr hv).symm.trans (get?_eq_some_iff.mpr hw))

/-- Where no name stands twice, a table has the entries of its list. -/
theorem entries_ofList_perm {es : List (String × α)} (h : (es.map Prod.fst).Nodup) : (ofList es).entries.Perm es := by
  refine (List.perm_ext_iff_of_nodup (entries_nodup _) (h.of_map _)).mpr fun ⟨name, value⟩ => ?_
  rw [← get?_eq_some_iff, get?_ofList_eq_some_iff]
  intro v w hv hw
  exact congrArg Prod.snd (List.inj_on_of_nodup_map h hv hw rfl)

section Keys
variable {key : α → String} {xs : List α} (h : (xs.map key).Nodup)
include h

/-- Values with different keys are found under their keys. -/
theorem get?_ofList_keys {name : String} {x : α} :
    (ofList (xs.map fun x => (key x, x))).get? name = some x ↔ x ∈ xs ∧ key x = name := by
  rw [get?_ofList_eq_some_iff]
  · constructor
    · intro hmem
      obtain ⟨y, hy, heq⟩ := List.mem_map.mp hmem
      cases heq
      exact ⟨hy, rfl⟩
    · rintro ⟨hx, rfl⟩
      exact List.mem_map.mpr ⟨x, hx, rfl⟩
  · intro v w hv hw
    obtain ⟨y, hy, heq⟩ := List.mem_map.mp hv
    obtain ⟨z, hz, heq'⟩ := List.mem_map.mp hw
    cases heq
    obtain ⟨hkey, rfl⟩ := Prod.mk.inj heq'
    exact List.inj_on_of_nodup_map h hy hz hkey.symm

/-- Values with different keys, listed from their table, are in the order of the keys. -/
theorem values_ofList_eq_mergeSort :
    (ofList (xs.map fun x => (key x, x))).values = xs.mergeSort fun a b => decide (key a ≤ key b) := by
  generalize ht : ofList (xs.map fun x => (key x, x)) = t
  have hget : ∀ {name x}, t.get? name = some x ↔ x ∈ xs ∧ key x = name := ht ▸ get?_ofList_keys h
  have hmem : ∀ {x}, x ∈ t.values ↔ x ∈ xs := by
    intro x
    simp [mem_values_iff, hget]
  have hnodup : t.values.Nodup := by
    refine List.Nodup.of_map key (nodup_map_values fun {name other v w} hv hw heq => ?_)
    exact (hget.mp hv).2.symm.trans (heq.trans (hget.mp hw).2)
  have hsorted : t.values.Pairwise (key · ≤ key ·) := by
    refine List.pairwise_map.mpr (List.Pairwise.imp_of_mem (fun {e e'} he he' hlt => ?_) t.sorted)
    rw [(hget.mp (get?_eq_some_iff.mpr he)).2, (hget.mp (get?_eq_some_iff.mpr he')).2]
    exact Std.le_of_lt hlt
  have hperm : t.values.Perm (xs.mergeSort fun a b => decide (key a ≤ key b)) := by
    refine ((List.perm_ext_iff_of_nodup hnodup (h.of_map key)).mpr fun x => hmem).trans ?_
    exact (List.mergeSort_perm _ _).symm
  refine hperm.eq_of_pairwise (fun a b ha hb hab hba => ?_) hsorted ?_
  · exact List.inj_on_of_nodup_map h (hmem.mp ha) (hmem.mp (hperm.mem_iff.mpr hb)) (String.le_antisymm hab hba)
  · refine (List.pairwise_mergeSort (fun a b c hab hbc => ?_) (fun a b => ?_) xs).imp of_decide_eq_true
    · exact decide_eq_true (String.le_trans (of_decide_eq_true hab) (of_decide_eq_true hbc))
    · simpa using String.le_total (key a) (key b)

end Keys

end Table

end SchemaIr
