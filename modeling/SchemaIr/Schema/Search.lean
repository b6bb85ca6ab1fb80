import SchemaIr.Schema.Tree

/-! # Searching a schema tree

All nodes below a node are found depth first, along the links from parents to children; shadowed children
are among them. A search has a stack of nodes that are still to be looked at, and remembers the nodes that it
has found (`Search`). It goes on look by look until the stack is empty: every look leaves fewer nodes to
find, or as many and a smaller stack (`Search.remaining_lt`). -/

namespace SchemaIr

/-- Where a search stands. -/
structure Search where
  /-- The nodes still to be looked at, the next one first. -/
  stack : List NodeId
  /-- The nodes found so far, the latest one first. -/
  found : List NodeId

namespace Search

/-- The search that begins at a node. -/
def start (root : NodeId) : Search := ⟨[root], []⟩

/-- One look: a node that was found before is passed over. Any other node is found, and the nodes right below
    it that were not found before are looked at next, in order of creation. -/
def look? (t : SchemaTree) (s : Search) : Option Search :=
  match s.stack with
  | [] => none
  | id :: rest =>
    if id ∈ s.found then some ⟨rest, s.found⟩
    else some ⟨(t.offspring id).filter (· ∉ id :: s.found) ++ rest, id :: s.found⟩

/-- The nodes of the tree that are not found yet. -/
def unfound (t : SchemaTree) (s : Search) : List NodeId := t.ids.filter (· ∉ s.found)

/-- What becomes less with every look. A node that is found brings at most all nodes of the tree onto the
    stack. -/
def remaining (t : SchemaTree) (s : Search) : Nat := (s.unfound t).length * (t.size + 1) + s.stack.length

theorem length_unfound_lt {t : SchemaTree} {id : Nat} {stack stack' found : List NodeId} (h : id < t.size)
    (hnew : id ∉ found) : (unfound t ⟨stack', id :: found⟩).length < (unfound t ⟨stack, found⟩).length := by
  have hsub : unfound t ⟨stack', id :: found⟩ = (unfound t ⟨stack, found⟩).filter (· ≠ id) := by
    simp [unfound, List.filter_filter]
  rw [hsub]
  refine List.length_filter_lt_length_iff_exists.mpr ⟨id, List.mem_filter.mpr ⟨List.mem_range.mpr h, ?_⟩, by simp⟩
  simpa using hnew

theorem remaining_lt {t : SchemaTree} {s s' : Search} (h : s.look? t = some s') :
    s'.remaining t < s.remaining t := by
  obtain ⟨stack, found⟩ := s
  cases stack with
  | nil => cases h
  | cons id rest =>
    simp only [look?] at h
    split at h
    · cases h
      simp [remaining, unfound]
    · rename_i hnew
      cases h
      have hbelow : ((t.offspring id).filter (· ∉ id :: found)).length ≤ (t.offspring id).length :=
        List.length_filter_le ..
      simp only [remaining, List.length_append, List.length_cons]
      by_cases hid : id < t.size
      · have hsize := t.length_offspring_le id
        have hfewer : (unfound t ⟨(t.offspring id).filter (· ∉ id :: found) ++ rest, id :: found⟩).length <
            (unfound t ⟨id :: rest, found⟩).length := length_unfound_lt hid hnew
        have hproduct := Nat.mul_le_mul_right (t.size + 1) hfewer
        rw [Nat.succ_mul] at hproduct
        omega
      · -- Nothing stands below a number of no node.
        have hnone : t.offspring id = [] := List.eq_nil_iff_forall_not_mem.mpr fun c hc =>
          hid (Nat.lt_trans (SchemaTree.mem_offspring_bounds hc).1 (SchemaTree.mem_offspring_bounds hc).2)
        have hsame : unfound t ⟨rest, id :: found⟩ = unfound t ⟨id :: rest, found⟩ := by
          refine List.filter_congr fun c hc => ?_
          have hne : c ≠ id := fun heq => hid (heq ▸ List.mem_range.mp hc)
          simp [hne]
        rw [hnone, List.filter_nil, List.nil_append, hsame, List.length_nil]
        omega

/-- Goes on to the end of a search; the nodes found, in the order in which they were. -/
def run (t : SchemaTree) (s : Search) : List NodeId :=
  match _h : s.look? t with
  | none => s.found.reverse
  | some s' => s'.run t
termination_by s.remaining t
decreasing_by exact remaining_lt ‹_›

end Search

/-- A node and all nodes below it, every parent before its children, siblings in order of creation. -/
def SchemaTree.family (t : SchemaTree) (id : NodeId) : List NodeId := (Search.start id).run t

end SchemaIr
