import Mathlib.Logic.Relation
import SchemaIr.Proofs.Schema.DataTree
import SchemaIr.Schema.Search

/-! # What a search finds

No search goes on forever (`look_wellFounded`), and where one ends is what `run` gives (`exists_end`). A search that
begins at a node finds this node and all nodes below it (`mem_family_iff`). What carries this is an invariant of its
looks (`Searching`): all that is found or on the stack is below the first node, and all that is right below a node that
is found is itself found or on the stack. -/

namespace SchemaIr

namespace SchemaTree
variable {t : SchemaTree}

theorem mem_offspring_iff {id c : NodeId} : c ∈ t.offspring id ↔ t.parent? c = some id := by
  rw [offspring, List.mem_filter, beq_iff_eq]
  exact ⟨fun h => h.2, fun h => ⟨List.mem_range.mpr (lt_size_of_parent? h), h⟩⟩

/-- A lineage is the node itself and the lineage of its parent. -/
theorem mem_lineage_iff {a c : NodeId} : a ∈ t.lineage c ↔ a = c ∨ ∃ p, t.parent? c = some p ∧ a ∈ t.lineage p := by
  cases hp : t.parent? c with
  | none => simp [lineage_of_root hp]
  | some p => simp [lineage_of_parent hp]

end SchemaTree

namespace Search
open Relation (ReflTransGen)

variable {t : SchemaTree} {s s' : Search} {root id : NodeId}

/-! ### The end of a search -/

/-- A look leads from one point of a search to the next. -/
def Looks (t : SchemaTree) (s s' : Search) : Prop := s.look? t = some s'

/-- From no point on does a search go on forever. -/
theorem look_wellFounded (t : SchemaTree) : WellFounded fun s' s => Looks t s s' :=
  Subrelation.wf remaining_lt (InvImage.wf (remaining t) Nat.lt_wfRel.wf)

theorem stack_of_look?_eq_none (h : s.look? t = none) : s.stack = [] := by
  unfold look? at h
  split at h
  · assumption
  · split at h <;> cases h

/-- Looks lead to where nothing is left to be looked at, and what is found there is what the search gives. -/
theorem exists_end (t : SchemaTree) (s : Search) :
    ∃ last, ReflTransGen (Looks t) s last ∧ last.stack = [] ∧ s.run t = last.found.reverse := by
  induction s using (look_wellFounded t).induction with
  | _ s ih =>
    cases h : s.look? t with
    | none => exact ⟨s, .refl, stack_of_look?_eq_none h, by rw [run]; split <;> simp_all⟩
    | some s' =>
      obtain ⟨last, hlooks, hstack, hrun⟩ := ih s' h
      refine ⟨last, .head h hlooks, hstack, ?_⟩
      rw [← hrun, run]
      split <;> simp_all

/-! ### The invariant -/

/-- A search that began at a node: it stays below the node, and passes over nothing there. -/
structure Searching (t : SchemaTree) (root : NodeId) (s : Search) : Prop where
  below : ∀ id, id ∈ s.stack ∨ id ∈ s.found → root ∈ t.lineage id
  begun : root ∈ s.stack ∨ root ∈ s.found
  closed : ∀ id ∈ s.found, ∀ c, t.parent? c = some id → c ∈ s.stack ∨ c ∈ s.found

namespace Searching

theorem start (t : SchemaTree) (root : NodeId) : Searching t root (.start root) where
  below id h := by
    rcases h with h | h
    · rw [List.mem_singleton.mp h, SchemaTree.mem_lineage_iff]
      exact .inl rfl
    · cases h
  begun := .inl (List.mem_singleton_self root)
  closed _ h := by cases h

section Look
variable {rest found : List NodeId}

theorem pass (h : Searching t root ⟨id :: rest, found⟩) (hold : id ∈ found) : Searching t root ⟨rest, found⟩ := by
  -- What was on the stack still is, or was the node that is passed over.
  have kept : ∀ {c : NodeId}, c ∈ id :: rest ∨ c ∈ found → c ∈ rest ∨ c ∈ found := by
    rintro c (hc | hc)
    · rcases List.mem_cons.mp hc with rfl | hc
      · exact .inr hold
      · exact .inl hc
    · exact .inr hc
  exact ⟨fun c hc => h.below c (hc.imp_left (List.mem_cons_of_mem id)), kept h.begun,
    fun a ha c hc => kept (h.closed a ha c hc)⟩

/-- A node that was not found before is found, and what is right below it is looked at next. -/
theorem find (h : Searching t root ⟨id :: rest, found⟩) :
    Searching t root ⟨(t.offspring id).filter (· ∉ id :: found) ++ rest, id :: found⟩ := by
  have kept : ∀ {c : NodeId}, c ∈ id :: rest ∨ c ∈ found →
      c ∈ (t.offspring id).filter (· ∉ id :: found) ++ rest ∨ c ∈ id :: found := by
    rintro c (hc | hc)
    · rcases List.mem_cons.mp hc with rfl | hc
      · exact .inr List.mem_cons_self
      · exact .inl (List.mem_append_right _ hc)
    · exact .inr (List.mem_cons_of_mem id hc)
  have hid : root ∈ t.lineage id := h.below id (.inl List.mem_cons_self)
  refine ⟨fun c hc => ?_, kept h.begun, fun a ha c hc => ?_⟩
  · rcases hc with hc | hc
    · rcases List.mem_append.mp hc with hc | hc
      · have hparent := SchemaTree.mem_offspring_iff.mp (List.mem_filter.mp hc).1
        exact SchemaTree.mem_lineage_iff.mpr (.inr ⟨id, hparent, hid⟩)
      · exact h.below c (.inl (List.mem_cons_of_mem id hc))
    · rcases List.mem_cons.mp hc with rfl | hc
      · exact hid
      · exact h.below c (.inr hc)
  · rcases List.mem_cons.mp ha with rfl | ha
    · by_cases hfound : c ∈ a :: found
      · exact .inr hfound
      · refine .inl (List.mem_append_left _ (List.mem_filter.mpr ⟨SchemaTree.mem_offspring_iff.mpr hc, ?_⟩))
        exact decide_eq_true hfound
    · exact kept (h.closed a ha c hc)

end Look

theorem look (h : Searching t root s) (hlook : Looks t s s') : Searching t root s' := by
  obtain ⟨stack, found⟩ := s
  cases stack with
  | nil => cases hlook
  | cons id rest =>
    simp only [Looks, look?] at hlook
    split at hlook
    · rename_i hold
      cases hlook
      exact h.pass hold
    · cases hlook
      exact h.find

theorem looks (h : Searching t root s) (hlooks : ReflTransGen (Looks t) s s') : Searching t root s' := by
  induction hlooks with
  | refl => exact h
  | tail _ hlook ih => exact ih.look hlook

theorem mem_found_iff (h : Searching t root s) (hend : s.stack = []) : id ∈ s.found ↔ root ∈ t.lineage id := by
  have nothing : ∀ {c : NodeId}, c ∈ s.stack ∨ c ∈ s.found → c ∈ s.found := by
    rintro c (hc | hc)
    · rw [hend] at hc
      cases hc
    · exact hc
  refine ⟨fun hid => h.below id (.inr hid), fun hroot => ?_⟩
  induction id using Nat.strongRecOn with
  | ind id ih =>
    rcases SchemaTree.mem_lineage_iff.mp hroot with rfl | ⟨p, hp, hroot⟩
    · exact nothing h.begun
    · exact nothing (h.closed p (ih p (SchemaTree.parent?_lt hp) hroot) id hp)

end Searching
end Search

namespace SchemaTree
variable {t : SchemaTree} {root id : NodeId}

/-- The family of a node are the nodes that have it in their lineage. -/
theorem mem_family_iff : id ∈ t.family root ↔ root ∈ t.lineage id := by
  obtain ⟨last, hlooks, hend, hrun⟩ := Search.exists_end t (.start root)
  rw [family, hrun, List.mem_reverse]
  exact ((Search.Searching.start t root).looks hlooks).mem_found_iff hend

end SchemaTree

end SchemaIr
