import SchemaIr.Text.Pieces

/-! # Texts without blanks at their ends

Trimming leaves a text alone that has no white space at its ends (`trim_of_trimmed`). Texts that are not empty keep
this together: joined by slashes, they have the ends of the first and the last one (`Trimmed.intercalate`). -/

namespace SchemaIr.Text

/-- No white space stands at either end. -/
structure Trimmed (s : String) : Prop where
  head : ∀ c ∈ s.toList.head?, isBlank c = false
  last : ∀ c ∈ s.toList.getLast?, isBlank c = false

instance (s : String) : Decidable (Trimmed s) :=
  decidable_of_iff (s.toList.head?.all (!isBlank ·) = true ∧ s.toList.getLast?.all (!isBlank ·) = true) <| by
    simp only [Option.all_eq_true, Bool.not_eq_true']
    exact ⟨fun ⟨hhead, hlast⟩ => ⟨hhead, hlast⟩, fun h => ⟨h.head, h.last⟩⟩

theorem Trimmed.of_notMem {s : String} (h : ∀ c ∈ s.toList, isBlank c = false) : Trimmed s where
  head c hc := h c (List.mem_of_mem_head? hc)
  last c hc := h c (List.mem_of_getLast? hc)

theorem Trimmed.slash {s : String} (h : Trimmed s) : Trimmed ("/" ++ s) where
  head c hc := by
    rw [String.toList_append] at hc
    cases hc
    decide
  last c hc := by
    rw [String.toList_append, List.getLast?_append] at hc
    cases hlast : s.toList.getLast? with
    | none =>
      rw [hlast] at hc
      cases hc
      decide
    | some d =>
      rw [hlast] at hc
      exact h.last c (hlast.trans hc)

theorem dropWhile_of_head? {p : Char → Bool} {cs : List Char} (h : ∀ c ∈ cs.head?, p c = false) :
    cs.dropWhile p = cs := by
  cases cs with
  | nil => rfl
  | cons c rest => rw [List.dropWhile_cons, h c rfl]; rfl

theorem trim_of_trimmed {s : String} (h : Trimmed s) : trim s = s := by
  have hback : s.toList.reverse.dropWhile isBlank = s.toList.reverse :=
    dropWhile_of_head? fun c hc => h.last c (List.head?_reverse ▸ hc)
  rw [trim, dropWhile_of_head? h.head, hback, List.reverse_reverse, String.ofList_toList]

/-! ### Joined texts -/

theorem head?_intercalate {sep l : List Char} (hl : l ≠ []) (rest : List (List Char)) :
    (sep.intercalate (l :: rest)).head? = l.head? := by
  obtain ⟨c, cs, rfl⟩ := List.exists_cons_of_ne_nil hl
  cases rest with
  | nil => rw [List.intercalate_singleton]
  | cons l' rest => rw [List.intercalate_cons_cons]; rfl

theorem getLast?_intercalate {sep l : List Char} {ls : List (List Char)} (hl : l ≠ []) (h : ls.getLast? = some l) :
    (sep.intercalate ls).getLast? = l.getLast? := by
  induction ls with
  | nil => cases h
  | cons l₀ rest ih =>
    cases rest with
    | nil =>
      obtain rfl : l₀ = l := Option.some.inj h
      rw [List.intercalate_singleton]
    | cons l₁ rest =>
      have hlast := ih (List.getLast?_cons_cons ▸ h)
      obtain ⟨c, hc⟩ := Option.ne_none_iff_exists'.mp fun hnone => hl (List.getLast?_eq_none_iff.mp hnone)
      rw [List.intercalate_cons_cons, List.getLast?_append, hlast, hc]
      rfl

theorem Trimmed.intercalate {ss : List String} (h : ∀ s ∈ ss, s ≠ "" ∧ Trimmed s) : Trimmed ("/".intercalate ss) := by
  have hne : ∀ s ∈ ss, s.toList ≠ [] := fun s hs hnil => (h s hs).1 (String.toList_eq_nil_iff.mp hnil)
  cases ss with
  | nil => exact .of_notMem fun c hc => by simp at hc
  | cons s rest =>
    refine ⟨fun c hc => ?_, fun c hc => ?_⟩
    · rw [String.toList_intercalate, List.map_cons, head?_intercalate (hne s List.mem_cons_self)] at hc
      exact (h s List.mem_cons_self).2.head c hc
    · obtain ⟨last, hlast⟩ : ∃ last, (s :: rest).getLast? = some last := ⟨_, List.getLast?_cons⟩
      have hmem := List.mem_of_getLast? hlast
      have hmap : ((s :: rest).map String.toList).getLast? = some last.toList := by
        rw [List.getLast?_map, hlast]
        rfl
      rw [String.toList_intercalate, getLast?_intercalate (hne last hmem) hmap] at hc
      exact (h last hmem).2.last c hc

end SchemaIr.Text
