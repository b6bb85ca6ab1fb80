import Mathlib.Data.List.Pairwise
import SchemaIr.Proofs.Directory.Fields

/-! # The fields of an uncompressed directory

Without compression every candidate is a direct one. A directory then has fields exactly if its candidates differ in name,
and each candidate is one (`exists_fields_iff`, `get?_fields_iff_mem`). To leave out state is to leave out the candidates
that are state (`fields_excludeState`). -/

namespace SchemaIr

namespace Fields
variable {t : SchemaTree} {compression : Compression} {dir : NodeId}

/-! ### Candidates that differ in name -/

/-- No two of the candidates share a name. -/
def Distinct (t : SchemaTree) (cs : List Candidate) : Prop := cs.Pairwise fun c d => t.name c.node ≠ t.name d.node

theorem Distinct.find?_eq_some {cs : List Candidate} (h : Distinct t cs) {c : Candidate} (hc : c ∈ cs) :
    cs.find? (fun d => t.name d.node = t.name c.node) = some c := by
  cases hfind : cs.find? (fun d => t.name d.node = t.name c.node) with
  | none => exact absurd (by simp) (List.find?_eq_none.mp hfind c hc)
  | some first =>
    have hname : t.name first.node = t.name c.node := by simpa using List.find?_some hfind
    have : Std.Symm fun c d : Candidate => t.name c.node ≠ t.name d.node := ⟨fun _ _ => Ne.symm⟩
    refine congrArg some (Classical.byContradiction fun hne => ?_)
    exact List.Pairwise.forall h (List.mem_of_find?_eq_some hfind) hc hne hname

/-- Where the names differ, there is no clash. -/
theorem Distinct.clashes_eq {cs : List Candidate} (h : Distinct t cs) : (cs.foldl (choose t) ⟨∅, []⟩).clashes = [] := by
  refine List.eq_nil_iff_forall_not_mem.mpr fun clash hclash => ?_
  obtain ⟨before, after, rfl, hfirst, -⟩ := mem_clashes_iff.mp hclash
  have hne := (List.pairwise_append.mp h).2.2 _ (List.mem_of_find?_eq_some hfirst) _ List.mem_cons_self
  exact hne (by simpa using List.find?_some hfirst)

/-- Direct candidates without clashes differ in name. -/
theorem distinct_of_clashes {cs : List Candidate} (hcs : ∀ c ∈ cs, c.origin = .direct)
    (h : (cs.foldl (choose t) ⟨∅, []⟩).clashes = []) : Distinct t cs := by
  refine List.pairwise_iff_getElem.mpr fun i j hi hj hij hname => ?_
  have hmem : cs[i] ∈ cs.take j := List.mem_take_iff_getElem.mpr ⟨i, by omega, rfl⟩
  cases hfirst : (cs.take j).find? fun c => t.name c.node = t.name cs[j].node with
  | none => exact absurd (by simpa using hname) (List.find?_eq_none.mp hfirst _ hmem)
  | some first =>
    have hdirect := hcs first (List.mem_of_mem_take (List.mem_of_find?_eq_some hfirst))
    have hclash : (first, cs[j]) ∈ (cs.foldl (choose t) ⟨∅, []⟩).clashes :=
      mem_clashes_iff.mpr ⟨cs.take j, cs.drop (j + 1), by simp, hfirst, hdirect, hcs _ (List.getElem_mem hj)⟩
    rw [h] at hclash
    cases hclash

/-! ### Without compression -/

theorem origin_of_mem_candidates (hcomp : compression.compresses = false) {c : Candidate}
    (hc : c ∈ candidates t compression dir) : c.origin = .direct := by
  have hsource := (List.mem_filter.mp hc).1
  rw [sources, hcomp] at hsource
  obtain ⟨d, -, hresolved⟩ := List.mem_flatMap.mp hsource
  exact (mem_resolve_iff.mp hresolved).1

theorem exists_fields_iff (hcomp : compression.compresses = false) (hdir : isKept t compression.excludesState dir = true) :
    (∃ nodes, t.fields compression dir = .ok nodes) ↔ Distinct t (candidates t compression dir) := by
  rw [SchemaTree.fields, if_pos hdir]
  constructor
  · rintro ⟨nodes, hnodes⟩
    obtain ⟨hclean, -⟩ := Diagnostics.settle_eq_ok_iff.mp hnodes
    have hclashes : (chosen t compression dir).clashes = [] := by
      refine List.eq_nil_iff_forall_not_mem.mpr fun clash hclash => Bool.eq_false_iff.mp hclean ?_
      exact Diagnostics.hasErrors_iff.mpr ⟨_, List.mem_map.mpr ⟨clash, hclash, rfl⟩, rfl⟩
    exact distinct_of_clashes (fun c => origin_of_mem_candidates hcomp) hclashes
  · intro hdistinct
    have hclashes : (chosen t compression dir).clashes = [] := hdistinct.clashes_eq
    dsimp only
    rw [hclashes]
    exact ⟨_, Diagnostics.settle_eq_ok_iff.mpr ⟨rfl, rfl⟩⟩

theorem get?_fields_iff_mem (hcomp : compression.compresses = false) (hdir : isKept t compression.excludesState dir = true)
    {nodes : Table NodeId} (h : t.fields compression dir = .ok nodes) {name : String} {a : NodeId} :
    nodes.get? name = some a ↔ ∃ c ∈ candidates t compression dir, c.node = a ∧ t.name a = name := by
  refine ⟨SchemaTree.mem_candidates_of_fields h hdir, ?_⟩
  rintro ⟨c, hc, rfl, rfl⟩
  have hdistinct := (exists_fields_iff hcomp hdir).mp ⟨nodes, h⟩
  rw [SchemaTree.fields_eq_ok h hdir, hdistinct.find?_eq_some hc, Option.map_some]

/-! ### Without state -/

theorem candidates_excludeState (t : SchemaTree) (dir : NodeId) :
    candidates t .uncompressedExcludeState dir = (candidates t .uncompressed dir).filter fun c => t.isConfig c.node := by
  rw [@candidates_eq_sources t .uncompressed rfl]
  rfl

/-- A directory that is configuration has without state those of its fields that are configuration. -/
theorem fields_excludeState (hdir : t.isConfig dir = true) {nodes : Table NodeId}
    (h : t.fields .uncompressed dir = .ok nodes) : ∃ nodes', t.fields .uncompressedExcludeState dir = .ok nodes' ∧
      ∀ name a, nodes'.get? name = some a ↔ nodes.get? name = some a ∧ t.isConfig a = true := by
  have hkept : isKept t Compression.uncompressedExcludeState.excludesState dir = true := hdir
  have hdistinct := (exists_fields_iff rfl rfl).mp ⟨nodes, h⟩
  have hfiltered : Distinct t (candidates t .uncompressedExcludeState dir) := by
    rw [candidates_excludeState]
    exact hdistinct.filter _
  obtain ⟨nodes', hnodes'⟩ := (exists_fields_iff rfl hkept).mpr hfiltered
  refine ⟨nodes', hnodes', fun name a => ?_⟩
  rw [get?_fields_iff_mem rfl rfl h, get?_fields_iff_mem rfl hkept hnodes', candidates_excludeState]
  constructor
  · rintro ⟨c, hc, rfl, hname⟩
    obtain ⟨hmem, hconfig⟩ := List.mem_filter.mp hc
    exact ⟨⟨c, hmem, rfl, hname⟩, hconfig⟩
  · rintro ⟨⟨c, hmem, rfl, hname⟩, hconfig⟩
    exact ⟨c, List.mem_filter.mpr ⟨hmem, hconfig⟩, rfl, hname⟩

end Fields

end SchemaIr
