import SchemaIr.Leafref.Index
import SchemaIr.Proofs.Text.Blanks
import SchemaIr.Proofs.Text.Pieces

/-! # Leafref paths step by step

A path that is put together of steps is taken apart into the same steps, whatever may stand in front of it: the path is
followed one step after the other from the data path of its context (`targetPath?_relative`), or goes on behind a
module that its first step names (`targetPath?_absolute`). Where two paths differ in their predicates only, they lead
to the same place (`targetPath?_congr`). -/

namespace SchemaIr

namespace Leafref

/-! ### Steps -/

/-- A text that is a step where it stands between slashes: it is not empty, and nothing in it parts a path, begins a
    predicate or is trimmed. -/
structure IsStep (s : String) : Prop where
  nonempty : s ≠ ""
  slash : '/' ∉ s.toList
  bracket : '[' ∉ s.toList
  trimmed : Text.Trimmed s

instance (s : String) : Decidable (IsStep s) :=
  decidable_of_iff (s ≠ "" ∧ '/' ∉ s.toList ∧ '[' ∉ s.toList ∧ Text.Trimmed s)
    ⟨fun ⟨h₁, h₂, h₃, h₄⟩ => ⟨h₁, h₂, h₃, h₄⟩, fun h => ⟨h.nonempty, h.slash, h.bracket, h.trimmed⟩⟩

theorem IsStep.of_chars {s : String} (hne : s ≠ "") (h : ∀ c ∈ s.toList, Text.isBlank c = false ∧ c ∉ ['/', '[']) :
    IsStep s where
  nonempty := hne
  slash hc := (h _ hc).2 (by decide)
  bracket hc := (h _ hc).2 (by decide)
  trimmed := .of_notMem fun c hc => (h c hc).1

/-! ### Predicates -/

section Predicates
variable {xs p : List Char} {s : String}

theorem dropPredicates_cons {c : Char} (h : c ≠ '[') (cs : List Char) :
    dropPredicates (c :: cs) = c :: dropPredicates cs := by
  rw [dropPredicates, if_neg h]

theorem dropPredicates_append (h : '[' ∉ xs) (ys : List Char) :
    dropPredicates (xs ++ ys) = xs ++ dropPredicates ys := by
  induction xs with
  | nil => rfl
  | cons x rest ih =>
    simp only [List.mem_cons, not_or] at h
    obtain ⟨hx, hrest⟩ := h
    rw [List.cons_append, dropPredicates_cons (Ne.symm hx), ih hrest, List.cons_append]

/-- A predicate is dropped up to its closing bracket; no matter what else is in it, opening brackets included. -/
theorem dropPredicates_predicate (h : ']' ∉ p) (ys : List Char) :
    dropPredicates ('[' :: (p ++ ']' :: ys)) = dropPredicates ys := by
  have hpass : ∀ c ∈ p, decide (c ≠ ']') = true := fun c hc => decide_eq_true fun heq => h (heq ▸ hc)
  have hclosing : (p ++ ']' :: ys).dropWhile (· ≠ ']') = ']' :: ys := by
    rw [List.dropWhile_append_of_pos hpass]
    rfl
  rw [dropPredicates, if_pos rfl]
  split
  · rename_i hnil
    rw [hclosing] at hnil
    cases hnil
  · rename_i hcons
    rw [hclosing] at hcons
    cases hcons
    rfl

theorem withoutPredicates_of_notMem (h : '[' ∉ s.toList) : withoutPredicates s = s := by
  have hdrop := dropPredicates_append h []
  rw [List.append_nil, dropPredicates, List.append_nil] at hdrop
  rw [withoutPredicates, hdrop, String.ofList_toList]

theorem bracket_notMem_intercalate {steps : List String} (h : ∀ s ∈ steps, '[' ∉ s.toList) :
    '[' ∉ ("/".intercalate steps).toList := by
  induction steps with
  | nil => exact List.not_mem_nil
  | cons s rest ih =>
    obtain ⟨hs, hrest⟩ := List.forall_mem_cons.mp h
    cases rest with
    | nil => exact hs
    | cons s' rest =>
      rw [String.intercalate_cons_cons, String.toList_append, String.toList_append, List.mem_append, List.mem_append]
      rintro ((hmem | hmem) | hmem)
      · exact hs hmem
      · cases List.mem_singleton.mp hmem
      · exact ih hrest hmem

end Predicates

/-! ### Qualifiers -/

theorem qualified_of_notMem {s : String} (h : ':' ∉ s.toList) : qualified s = (none, s) := by
  rw [qualified, Text.cutAt?_of_notMem h]

theorem qualified_append {q : String} (h : ':' ∉ q.toList) (s : String) :
    qualified (q ++ ":" ++ s) = (some q, s) := by
  rw [qualified, Text.cutAt?_append rfl h]

theorem unqualified_of_notMem {s : String} (h : ':' ∉ s.toList) : unqualified s = s := by
  rw [unqualified, qualified_of_notMem h]

/-! ### Relative paths -/

/-- What is left of a path without its predicates and the white space around it. -/
def cleaned (path : String) : String := Text.trim (withoutPredicates path)

/-- The path begins at its context, and not at a module. -/
def IsRelative (path : String) : Prop := (cleaned path).toList.head? ≠ some '/'

instance (path : String) : Decidable (IsRelative path) := inferInstanceAs (Decidable (¬ _))

end Leafref

namespace LeafIndex
open Leafref

variable {index : LeafIndex} {t : SchemaTree} {context : NodeId} {first : String} {steps rest : List String}

/-! ### Paths of steps -/

theorem head?_path_ne (hfirst : IsStep first) (rest : List String) :
    ("/".intercalate (first :: rest)).toList.head? ≠ some '/' := by
  have hne : first.toList ≠ [] := fun hnil => hfirst.nonempty (String.toList_eq_nil_iff.mp hnil)
  rw [String.toList_intercalate, List.map_cons, Text.head?_intercalate hne]
  exact fun hhead => hfirst.slash (List.mem_of_head? hhead)

/-- Predicates do not matter for where a path leads. -/
theorem targetPath?_congr {path path' : String} (h : withoutPredicates path = withoutPredicates path') :
    index.targetPath? t context path = index.targetPath? t context path' := by
  rw [targetPath?, h, targetPath?]

/-- A relative path is followed step by step from the data path of its context. -/
theorem targetPath?_of_isRelative {path : String} (h : IsRelative path) : index.targetPath? t context path =
    ((Text.steps (cleaned path)).foldlM takeStep (t.dataPath context)).map ("/".intercalate ·) := by
  rw [targetPath?]
  exact if_neg h

theorem targetPath?_relative (hne : steps ≠ []) (h : ∀ s ∈ steps, IsStep s) :
    index.targetPath? t context ("/".intercalate steps) =
      (steps.foldlM takeStep (t.dataPath context)).map ("/".intercalate ·) := by
  obtain ⟨first, rest, rfl⟩ := List.exists_cons_of_ne_nil hne
  have hcleaned : cleaned ("/".intercalate (first :: rest)) = "/".intercalate (first :: rest) := by
    rw [cleaned, withoutPredicates_of_notMem (bracket_notMem_intercalate fun s hs => (h s hs).bracket)]
    exact Text.trim_of_trimmed (.intercalate fun s hs => ⟨(h s hs).nonempty, (h s hs).trimmed⟩)
  have hrelative : IsRelative ("/".intercalate (first :: rest)) := by
    rw [IsRelative, hcleaned]
    exact head?_path_ne (h first List.mem_cons_self) rest
  rw [targetPath?_of_isRelative hrelative, hcleaned,
    Text.steps_intercalate fun s hs => ⟨(h s hs).nonempty, (h s hs).slash⟩]

/-- A path of steps behind a slash leads into the module of its first step, and there by the names of the others. -/
theorem targetPath?_absolute (h : ∀ s ∈ first :: rest, IsStep s) :
    index.targetPath? t context ("/" ++ "/".intercalate (first :: rest)) = some ("/".intercalate
      ("" :: index.firstModule t context (qualified first).1 :: (qualified first).2 :: rest.map unqualified)) := by
  have hplain : withoutPredicates ("/" ++ "/".intercalate (first :: rest)) = "/" ++ "/".intercalate (first :: rest) := by
    refine withoutPredicates_of_notMem ?_
    rw [String.toList_append]
    exact List.not_mem_append (by decide) (bracket_notMem_intercalate fun s hs => (h s hs).bracket)
  have htrim := Text.trim_of_trimmed (Text.Trimmed.intercalate fun s hs => ⟨(h s hs).nonempty, (h s hs).trimmed⟩).slash
  have hsteps : Text.steps ("/" ++ "/".intercalate (first :: rest)) = first :: rest := by
    rw [Text.steps_slash, Text.steps_intercalate fun s hs => ⟨(h s hs).nonempty, (h s hs).slash⟩]
  have hhead : ("/" ++ "/".intercalate (first :: rest)).toList.head? = some '/' := by
    rw [String.toList_append]
    rfl
  rw [targetPath?, hplain, htrim, if_pos hhead, hsteps]

/-- The path without steps leads to where it stands. -/
theorem targetPath?_empty (index : LeafIndex) (t : SchemaTree) (context : NodeId) :
    index.targetPath? t context "" = some (t.pathString context) := by
  have htrim : Text.trim (Leafref.withoutPredicates "") = "" := by
    simp [Leafref.withoutPredicates, Leafref.dropPredicates, Text.trim]
  have hsteps : Text.steps "" = [] := by
    simp [Text.steps, Text.pieces, Text.piecesBy]
  simp [targetPath?, htrim, hsteps, SchemaTree.pathString]

end LeafIndex
end SchemaIr
