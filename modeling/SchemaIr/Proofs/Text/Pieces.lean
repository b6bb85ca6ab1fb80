import SchemaIr.Text.Pieces

/-! # Pieces of paths

The pieces of a text joined by separators give the text back (`intercalate_pieces`). A path that goes on behind
another one has the pieces of both (`pieces_append`), so it has no fewer pieces than segments
(`length_le_length_pieces`); it has more if a slash stands in a segment, and else the segments are its pieces
(`pieces_intercalate`, `pieces_of_length`). -/

namespace SchemaIr.Text

/-! ### Pieces of characters -/

theorem piecesBy_ne_nil (p : Char → Bool) : ∀ cs : List Char, piecesBy p cs ≠ []
  | [] => List.cons_ne_nil _ _
  | c :: cs => by
    rw [piecesBy]
    split
    · exact List.cons_ne_nil _ _
    · split <;> exact List.cons_ne_nil _ _

theorem piecesBy_append {p : Char → Bool} {sep : Char} (h : p sep = true) (xs ys : List Char) :
    piecesBy p (xs ++ sep :: ys) = piecesBy p xs ++ piecesBy p ys := by
  induction xs with
  | nil => simp [piecesBy, h]
  | cons x rest ih =>
    rw [List.cons_append, piecesBy, piecesBy, ih]
    split
    · rfl
    · obtain ⟨q, qs, hpieces⟩ := List.exists_cons_of_ne_nil (piecesBy_ne_nil p rest)
      rw [hpieces]
      rfl

theorem intercalate_piecesBy (sep : Char) (cs : List Char) : [sep].intercalate (piecesBy (· == sep) cs) = cs := by
  induction cs with
  | nil => rfl
  | cons c rest ih =>
    obtain ⟨q, qs, hpieces⟩ := List.exists_cons_of_ne_nil (piecesBy_ne_nil (· == sep) rest)
    rw [piecesBy, hpieces]
    rw [hpieces] at ih
    split
    · rename_i hsep
      rw [List.intercalate_cons_cons, ih, beq_iff_eq.mp hsep]
      rfl
    · -- The character goes in front of the first piece, whether others follow or not.
      cases qs with
      | nil =>
        rw [List.intercalate_singleton] at ih ⊢
        rw [ih]
      | cons r rs =>
        rw [List.intercalate_cons_cons] at ih ⊢
        rw [← ih]
        rfl

theorem piecesBy_of_notMem {sep : Char} {cs : List Char} (h : sep ∉ cs) : piecesBy (· == sep) cs = [cs] := by
  induction cs with
  | nil => rfl
  | cons c rest ih =>
    simp only [List.mem_cons, not_or] at h
    rw [piecesBy, ih h.2, if_neg (by simpa using Ne.symm h.1)]

/-- A text is cut off before its first separator. -/
theorem piecesBy_append_sep {sep : Char} {xs : List Char} (h : sep ∉ xs) (ys : List Char) :
    piecesBy (· == sep) (xs ++ sep :: ys) = xs :: piecesBy (· == sep) ys := by
  rw [piecesBy_append (p := (· == sep)) (beq_self_eq_true sep), piecesBy_of_notMem h, List.singleton_append]

/-- Joined pieces are cut apart again. -/
theorem piecesBy_intercalate {sep : Char} {ls : List (List Char)} (hne : ls ≠ []) (h : ∀ l ∈ ls, sep ∉ l) :
    piecesBy (· == sep) ([sep].intercalate ls) = ls := by
  induction ls with
  | nil => exact absurd rfl hne
  | cons l rest ih =>
    obtain ⟨hl, hrest⟩ := List.forall_mem_cons.mp h
    cases rest with
    | nil => rw [List.intercalate_singleton, piecesBy_of_notMem hl]
    | cons l' rest =>
      have happend : [sep].intercalate (l :: l' :: rest) = l ++ sep :: [sep].intercalate (l' :: rest) := by
        rw [List.intercalate_cons_cons, List.append_assoc]
        rfl
      rw [happend, piecesBy_append_sep hl, ih (List.cons_ne_nil _ _) hrest]

/-- A text without separators is told from what stands behind the first one. -/
theorem append_sep_inj {sep : Char} {xs xs' ys ys' : List Char} (h : sep ∉ xs) (h' : sep ∉ xs')
    (heq : xs ++ sep :: ys = xs' ++ sep :: ys') : xs = xs' ∧ ys = ys' := by
  have hpieces := congrArg (piecesBy (· == sep)) heq
  rw [piecesBy_append_sep h, piecesBy_append_sep h'] at hpieces
  obtain rfl : xs = xs' := (List.cons.inj hpieces).1
  exact ⟨rfl, (List.cons.inj (List.append_cancel_left heq)).2⟩

/-- What stands before any separator of a text begins with what stands before the first one. -/
theorem prefix_of_append_sep {sep : Char} {xs xs' ys ys' : List Char} (h : sep ∉ xs)
    (heq : xs ++ sep :: ys = xs' ++ sep :: ys') : xs <+: xs' := by
  by_cases h' : sep ∈ xs'
  · obtain ⟨first, rest, rfl, hfirst⟩ := List.eq_append_cons_of_mem h'
    rw [List.append_assoc, List.cons_append] at heq
    rw [(append_sep_inj h hfirst heq).1]
    exact List.prefix_append _ _
  · obtain rfl := (append_sep_inj h h' heq).1
    exact List.prefix_refl xs

/-- Texts without the separator are told from what they are joined to. -/
theorem intercalate_inj {sep : Char} {s : String} (hs : s.toList = [sep]) {xs ys : List String} (hx : xs ≠ [])
    (hy : ys ≠ []) (hxs : ∀ x ∈ xs, sep ∉ x.toList) (hys : ∀ y ∈ ys, sep ∉ y.toList)
    (heq : s.intercalate xs = s.intercalate ys) : xs = ys := by
  have hcut : ∀ {xs : List String}, xs ≠ [] → (∀ x ∈ xs, sep ∉ x.toList) →
      piecesBy (· == sep) (s.intercalate xs).toList = xs.map String.toList := by
    intro xs hne hfree
    rw [String.toList_intercalate, hs]
    exact piecesBy_intercalate (by simpa using hne) (List.forall_mem_map.mpr hfree)
  refine (List.map_inj_right fun _ _ => (String.toList_injective ·)).mp ?_
  rw [← hcut hx hxs, ← hcut hy hys, heq]

/-! ### Pieces of paths -/

theorem pieces_ne_nil (sep : Char) (s : String) : pieces sep s ≠ [] := fun h =>
  piecesBy_ne_nil _ _ (List.map_eq_nil_iff.mp h)

theorem intercalate_pieces (s : String) : "/".intercalate (pieces '/' s) = s := by
  apply String.toList_injective
  rw [String.toList_intercalate, pieces, List.map_map,
    show String.toList ∘ String.ofList = id from funext fun _ => String.toList_ofList, List.map_id]
  exact intercalate_piecesBy '/' s.toList

theorem pieces_append (x y : String) : pieces '/' (x ++ "/" ++ y) = pieces '/' x ++ pieces '/' y := by
  simp only [pieces, String.toList_append, List.append_assoc]
  rw [← List.map_append, ← piecesBy_append (p := (· == '/')) (show ('/' == '/') = true from rfl)]
  rfl

/-- Segments without slashes, joined to a path, are its pieces. -/
theorem pieces_intercalate {segments : List String} (hne : segments ≠ []) (h : ∀ x ∈ segments, '/' ∉ x.toList) :
    pieces '/' ("/".intercalate segments) = segments := by
  rw [pieces, String.toList_intercalate, show "/".toList = ['/'] from rfl,
    piecesBy_intercalate (by simpa using hne) (List.forall_mem_map.mpr h), List.map_map,
    show String.ofList ∘ String.toList = id from funext fun _ => String.ofList_toList, List.map_id]

/-- Steps that are not empty are cut apart as they were joined. -/
theorem steps_intercalate {segments : List String} (h : ∀ x ∈ segments, x ≠ "" ∧ '/' ∉ x.toList) :
    steps ("/".intercalate segments) = segments := by
  by_cases hne : segments = []
  · rw [hne]
    rfl
  · rw [steps, pieces_intercalate hne fun x hx => (h x hx).2]
    exact List.filter_eq_self.mpr fun x hx => decide_eq_true (h x hx).1

/-- A slash at the beginning of a path adds no step. -/
theorem steps_slash (s : String) : steps ("/" ++ s) = steps s := by
  have hpieces : pieces '/' ("/" ++ s) = "" :: pieces '/' s := by
    rw [pieces, String.toList_append, show "/".toList ++ s.toList = '/' :: s.toList from rfl, piecesBy]
    rfl
  rw [steps, hpieces]
  rfl

/-- A text is cut after what has no separator in it. -/
theorem cutAt?_append {sep : Char} {mark : String} (hmark : mark.toList = [sep]) {x : String} (h : sep ∉ x.toList)
    (y : String) : cutAt? sep (x ++ mark ++ y) = some (x, y) := by
  have hpass : ∀ c ∈ x.toList, decide (c ≠ sep) = true := fun c hc => decide_eq_true fun hsep => h (hsep ▸ hc)
  have htext : (x ++ mark ++ y).toList = x.toList ++ sep :: y.toList := by
    rw [String.toList_append, String.toList_append, hmark, List.append_assoc]
    rfl
  rw [cutAt?, htext, List.dropWhile_append_of_pos hpass, List.takeWhile_append_of_pos hpass]
  simp

/-- A text without the separator is not cut. -/
theorem cutAt?_of_notMem {sep : Char} {s : String} (h : sep ∉ s.toList) : cutAt? sep s = none := by
  have hpass : ∀ c ∈ s.toList, decide (c ≠ sep) = true := fun c hc => decide_eq_true fun hsep => h (hsep ▸ hc)
  have hnil : (s.toList ++ []).dropWhile (· ≠ sep) = [] := List.dropWhile_append_of_pos hpass
  rw [List.append_nil] at hnil
  rw [cutAt?, hnil]

theorem length_le_length_pieces (segments : List String) :
    segments.length ≤ (pieces '/' ("/".intercalate segments)).length := by
  induction segments with
  | nil => exact Nat.zero_le _
  | cons x rest ih =>
    cases rest with
    | nil => exact List.length_pos_iff.mpr (pieces_ne_nil _ _)
    | cons y rest =>
      have hx := List.length_pos_iff.mpr (pieces_ne_nil '/' x)
      rw [String.intercalate_cons_cons, pieces_append, List.length_append, List.length_cons]
      omega

end SchemaIr.Text
