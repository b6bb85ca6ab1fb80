import SchemaIr.ListKey.Basic
import SchemaIr.Proofs.MappedType.Ending
import SchemaIr.Proofs.Table.Order
import SchemaIr.Schema.Growth

/-! # The keys of a list

Each key name of a list stands for itself: there is a leaf that holds it (`Holder`), whose type may be one that cannot be
mapped to its end (`Endless`), and there are diagnostics that come of it (`Wrong`), whatever the other keys are. What is
found along the names (`Gathered`) is told by this alone, and so are the keys of a list (`listKeys_exact`): there are keys
exactly if every name is sound (`Sound`), and otherwise the batch has all that is wrong with any of them. -/

namespace SchemaIr

namespace Table
variable {α : Type} {table : Table α} {names : List String} {P : String → α → Prop} {key : String}
  (h : ∀ name v, table.get? name = some v ↔ name ∈ names ∧ P name v)
include h

/-- A table of what is told of some names is one of what is told of another one, too, where nothing is. -/
theorem get?_concat_none (hkey : ∀ v, ¬P key v) (name : String) (v : α) :
    table.get? name = some v ↔ name ∈ names ++ [key] ∧ P name v := by
  rw [h, List.mem_append, List.mem_singleton]
  refine and_congr_left fun hp => ⟨Or.inl, fun hname => hname.resolve_right fun heq => ?_⟩
  exact hkey v (heq ▸ hp)

theorem get?_concat_insert (key : String) (value : α) (hkey : ∀ v, P key v ↔ v = value) (name : String) (v : α) :
    (table.insert key value).get? name = some v ↔ name ∈ names ++ [key] ∧ P name v := by
  rw [get?_insert, List.mem_append, List.mem_singleton]
  split
  · rename_i hname
    rw [hname, hkey]
    exact ⟨fun heq => ⟨.inr rfl, (Option.some.inj heq).symm⟩, fun hv => congrArg some hv.2.symm⟩
  · rename_i hname
    rw [h]
    exact and_congr_left fun _ => ⟨Or.inl, fun hor => hor.resolve_right hname⟩

end Table

namespace ListKey
variable {t : SchemaTree} {ctx : TypeContext} {compress : Bool} {list leaf target : NodeId} {owner key : String}

/-! ### Holders -/

/-- The last two steps in the path of a leafref key, without predicates and qualifiers, name a child of the list and then a
    child of this one. -/
def LeadsBelow (t : SchemaTree) (list key target : NodeId) : Prop :=
  ∃ type path steps dir leaf container, (t.node key).type = some type ∧ type.path = some path ∧
    Text.steps (Leafref.withoutPredicates path) = steps ++ [dir, leaf] ∧
    t.child? list (Leafref.unqualified dir) = some container ∧
    t.child? container (Leafref.unqualified leaf) = some target

theorem redirect?_eq_some_iff : redirect? t list leaf = some target ↔ LeadsBelow t list leaf target := by
  simp only [redirect?, Option.bind_eq_bind, Option.bind_eq_some_iff, LeadsBelow]
  constructor
  · rintro ⟨type, htype, path, hpath, h⟩
    split at h
    · rename_i last dir before hsteps
      obtain ⟨container, hdir, hlast⟩ := Option.bind_eq_some_iff.mp h
      refine ⟨type, path, before.reverse, dir, last, container, htype, hpath, ?_, hdir, hlast⟩
      rw [List.reverse_eq_iff.mp hsteps]
      simp
    · cases h
  · rintro ⟨type, path, steps, dir, last, container, htype, hpath, hsteps, hdir, hlast⟩
    refine ⟨type, htype, path, hpath, ?_⟩
    rw [hsteps]
    simp [hdir, hlast]

/-- The leaf that holds a key: the key itself, or what a leafref key leads to if lists are compressed. A leafref key that
    leads nowhere holds itself. -/
inductive Holder (t : SchemaTree) (compress : Bool) (list : NodeId) (key : String) : NodeId → Prop
  | self {leaf : NodeId} : t.child? list key = some leaf → (compress && (t.node leaf).isLeafref) = false →
      Holder t compress list key leaf
  | redirected {leaf target : NodeId} : t.child? list key = some leaf → (compress && (t.node leaf).isLeafref) = true →
      LeadsBelow t list leaf target → Holder t compress list key target
  | lost {leaf : NodeId} : t.child? list key = some leaf → (compress && (t.node leaf).isLeafref) = true →
      (∀ target, ¬LeadsBelow t list leaf target) → Holder t compress list key leaf

/-- A key is a leafref that leads nowhere below its list. -/
def Lost (t : SchemaTree) (compress : Bool) (list : NodeId) (key : String) : Prop :=
  ∃ leaf, t.child? list key = some leaf ∧ (compress && (t.node leaf).isLeafref) = true ∧
    ∀ target, ¬LeadsBelow t list leaf target

theorem holder_of_child? (compress : Bool) (hchild : t.child? list key = some leaf) :
    Holder t compress list key (holder t compress list key leaf).1 ∧
      ∀ d, d ∈ (holder t compress list key leaf).2 ↔ Lost t compress list key ∧ d = .lostKey (t.pathString list) key := by
  have honly : ∀ {leaf'}, t.child? list key = some leaf' → leaf' = leaf := fun h => Option.some.inj (h.symm.trans hchild)
  rw [holder]
  split
  · rename_i hleafref
    cases hredirect : redirect? t list leaf with
    | some target =>
      have hleads := redirect?_eq_some_iff.mp hredirect
      refine ⟨.redirected hchild hleafref hleads, fun d => ?_⟩
      refine iff_of_false List.not_mem_nil ?_
      rintro ⟨⟨leaf', hchild', -, hlost⟩, -⟩
      exact hlost target (honly hchild' ▸ hleads)
    | none =>
      have hlost : ∀ target, ¬LeadsBelow t list leaf target := fun target hleads => by
        rw [redirect?_eq_some_iff.mpr hleads] at hredirect
        cases hredirect
      refine ⟨.lost hchild hleafref hlost, fun d => ?_⟩
      rw [List.mem_singleton]
      exact ⟨fun hd => ⟨⟨leaf, hchild, hleafref, hlost⟩, hd⟩, And.right⟩
  · rename_i hplain
    refine ⟨.self hchild (Bool.eq_false_iff.mpr hplain), fun d => ?_⟩
    refine iff_of_false List.not_mem_nil ?_
    rintro ⟨⟨leaf', hchild', hleafref, -⟩, -⟩
    exact hplain (honly hchild' ▸ hleafref)

theorem Holder.exists_child (h : Holder t compress list key target) : ∃ leaf, t.child? list key = some leaf := by
  cases h with
  | self hchild _ => exact ⟨_, hchild⟩
  | redirected hchild _ _ => exact ⟨_, hchild⟩
  | lost hchild _ _ => exact ⟨_, hchild⟩

theorem Holder.eq (h : Holder t compress list key target) (hchild : t.child? list key = some leaf) :
    (holder t compress list key leaf).1 = target := by
  cases h with
  | self hchild' hplain =>
    obtain rfl := Option.some.inj (hchild'.symm.trans hchild)
    rw [holder, if_neg (Bool.eq_false_iff.mp hplain)]
  | redirected hchild' hleafref hleads =>
    obtain rfl := Option.some.inj (hchild'.symm.trans hchild)
    rw [holder, if_pos hleafref, redirect?_eq_some_iff.mpr hleads]
  | lost hchild' hleafref hlost =>
    obtain rfl := Option.some.inj (hchild'.symm.trans hchild)
    have hnone : redirect? t list target = none := Option.eq_none_iff_forall_ne_some.mpr fun other hredirect =>
      hlost other (redirect?_eq_some_iff.mp hredirect)
    rw [holder, if_pos hleafref, hnone]

theorem Holder.unique {target' : NodeId} (h : Holder t compress list key target) (h' : Holder t compress list key target') :
    target = target' := by
  obtain ⟨leaf, hchild⟩ := h.exists_child
  exact (h.eq hchild).symm.trans (h'.eq hchild)

/-! ### What comes of one key -/

/-- A diagnostic that comes of a key: it is no child of the list, or leads nowhere, or the type of the leaf that holds it
    is not mapped. -/
inductive Wrong (ctx : TypeContext) (compress : Bool) (list : NodeId) (owner key : String) : Diagnostic → Prop
  | missing : ctx.tree.child? list key = none → Wrong ctx compress list owner key
      (.noSuchKey (ctx.tree.pathString list) key (closest? key ((ctx.tree.children list).map ctx.tree.name)))
  | lost : Lost ctx.tree compress list key →
      Wrong ctx compress list owner key (.lostKey (ctx.tree.pathString list) key)
  | type {leaf : NodeId} {problems : Diagnostics} {d : Diagnostic} : Holder ctx.tree compress list key leaf →
      ctx.leafType leaf owner = some (.error problems) → d ∈ problems.items → Wrong ctx compress list owner key d

/-- A key with a type: it is a child of the list, leads somewhere if it has to, and there is a type of the leaf that
    holds it. -/
def Sound (ctx : TypeContext) (compress : Bool) (list : NodeId) (owner key : String) : Prop :=
  ¬Lost ctx.tree compress list key ∧
    ∃ leaf type, Holder ctx.tree compress list key leaf ∧ ctx.leafType leaf owner = some (.ok type)

/-- A key is never done with: the mapping of the type of the leaf that holds it does not end. -/
def Endless (ctx : TypeContext) (compress : Bool) (list : NodeId) (owner key : String) : Prop :=
  ∃ leaf, Holder ctx.tree compress list key leaf ∧ ¬ctx.Ends owner leaf

theorem not_endless (hacyclic : TypeContext.Acyclic ctx.tree ctx.index) (compress : Bool) (list : NodeId)
    (owner key : String) : ¬Endless ctx compress list owner key := by
  rintro ⟨leaf, -, hendless⟩
  exact hendless (hacyclic.ends owner leaf)

theorem hasErrors_of_leafType {problems : Diagnostics} (h : ctx.leafType leaf owner = some (.error problems)) :
    problems.hasErrors = true := by
  rw [TypeContext.leafType] at h
  split at h
  · cases h
    rfl
  · obtain ⟨result, hresolve, hresult⟩ := Option.map_eq_some_iff.mp h
    obtain ⟨out, -, rfl⟩ := Option.map_eq_some_iff.mp hresolve
    cases hsettle : Diagnostics.settle ⟨out.problems⟩ out.mapped with
    | ok m =>
      rw [hsettle] at hresult
      cases hresult
    | error problems' =>
      rw [hsettle] at hresult
      cases hresult
      exact Diagnostics.hasErrors_of_settle hsettle

theorem sound_iff : Sound ctx compress list owner key ↔
    ¬Endless ctx compress list owner key ∧ ∀ d, Wrong ctx compress list owner key d → d.isError = false := by
  constructor
  · rintro ⟨hfound, leaf, type, hholder, htype⟩
    refine ⟨fun ⟨leaf', hholder', hendless⟩ => ?_, fun d hd => ?_⟩
    · rw [hholder'.unique hholder, ← TypeContext.leafType_eq_none_iff, htype] at hendless
      cases hendless
    cases hd with
    | missing hnone =>
      obtain ⟨child, hchild⟩ := hholder.exists_child
      rw [hnone] at hchild
      cases hchild
    | lost hlost => exact absurd hlost hfound
    | type hholder' herror _ =>
      rw [hholder.unique hholder', herror] at htype
      cases htype
  · rintro ⟨hends, hnone⟩
    have hfound : ¬Lost ctx.tree compress list key := fun hlost => Bool.noConfusion (hnone _ (.lost hlost))
    refine ⟨hfound, ?_⟩
    cases hchild : ctx.tree.child? list key with
    | none => exact Bool.noConfusion (hnone _ (.missing hchild))
    | some child =>
      have hholder := (holder_of_child? compress hchild).1
      match htype : ctx.leafType (holder ctx.tree compress list key child).1 owner with
      | some (.ok type) => exact ⟨_, type, hholder, htype⟩
      | some (.error problems) =>
        obtain ⟨d, hd, herror⟩ := Diagnostics.hasErrors_iff.mp (hasErrors_of_leafType htype)
        rw [hnone d (.type hholder htype hd)] at herror
        cases herror
      | none => exact absurd ⟨_, hholder, TypeContext.leafType_eq_none_iff.mp htype⟩ hends

/-! ### What is found along the keys -/

/-- What was found along some names is what comes of each of them. -/
structure Gathered (ctx : TypeContext) (compress : Bool) (list : NodeId) (owner : String) (names : List String)
    (found : Found) : Prop where
  problems : ∀ d, d ∈ found.problems.items ↔ ∃ key ∈ names, Wrong ctx compress list owner key d
  nodes : ∀ key leaf, found.keys.nodes.get? key = some leaf ↔ key ∈ names ∧ Holder ctx.tree compress list key leaf
  paths : ∀ key path, found.keys.paths.get? key = some path ↔
    key ∈ names ∧ ∃ leaf, Holder ctx.tree compress list key leaf ∧ path = ctx.tree.pathString leaf
  types : ∀ key type, found.keys.types.get? key = some type ↔
    key ∈ names ∧ ∃ leaf, Holder ctx.tree compress list key leaf ∧ ctx.leafType leaf owner = some (.ok type)
  ends : found.ends = true ↔ ∀ key ∈ names, ¬Endless ctx compress list owner key

namespace Gathered
variable {names : List String} {found : Found}

theorem start (ctx : TypeContext) (compress : Bool) (list : NodeId) (owner : String) (keys : List String) :
    Gathered ctx compress list owner [] ⟨⟨keys, ∅, ∅, ∅⟩, ∅, true⟩ where
  problems d := iff_of_false List.not_mem_nil fun ⟨_, hkey, _⟩ => List.not_mem_nil hkey
  nodes _ _ := iff_of_false (fun h => by cases h) fun h => List.not_mem_nil h.1
  paths _ _ := iff_of_false (fun h => by cases h) fun h => List.not_mem_nil h.1
  types _ _ := iff_of_false (fun h => by cases h) fun h => List.not_mem_nil h.1
  ends := iff_of_true rfl fun _ hkey => absurd hkey List.not_mem_nil

theorem mem_problems_concat (h : Gathered ctx compress list owner names found) (key : String) (d : Diagnostic) :
    (∃ other ∈ names ++ [key], Wrong ctx compress list owner other d) ↔
      d ∈ found.problems.items ∨ Wrong ctx compress list owner key d := by
  rw [h.problems]
  simp only [List.mem_append, List.mem_singleton, or_and_right, exists_or, exists_eq_left]

theorem not_endless_concat (h : Gathered ctx compress list owner names found) (key : String) :
    (∀ other ∈ names ++ [key], ¬Endless ctx compress list owner other) ↔
      found.ends = true ∧ ¬Endless ctx compress list owner key := by
  rw [h.ends]
  simp only [List.mem_append, List.mem_singleton, or_imp, forall_and, forall_eq]

theorem find_missing (h : Gathered ctx compress list owner names found) (hchild : ctx.tree.child? list key = none) :
    Gathered ctx compress list owner (names ++ [key]) (ListKey.find ctx compress list owner found key) := by
  have hnone : ∀ leaf, ¬Holder ctx.tree compress list key leaf := fun leaf hholder => by
    obtain ⟨child, hchild'⟩ := hholder.exists_child
    rw [hchild] at hchild'
    cases hchild'
  unfold ListKey.find
  simp only [hchild]
  refine ⟨fun d => ?_, Table.get?_concat_none h.nodes hnone, ?_, ?_, ?_⟩
  · rw [h.mem_problems_concat]
    refine List.mem_append.trans (or_congr_right ⟨fun hd => ?_, fun hd => ?_⟩)
    · rw [List.mem_singleton.mp hd]
      exact .missing hchild
    · cases hd with
      | missing _ => exact List.mem_singleton_self _
      | lost hlost =>
        obtain ⟨leaf, hleaf, -⟩ := hlost
        rw [hchild] at hleaf
        cases hleaf
      | type hholder _ _ => exact absurd hholder (hnone _)
  · exact Table.get?_concat_none h.paths fun _ ⟨leaf, hholder, _⟩ => hnone leaf hholder
  · exact Table.get?_concat_none h.types fun _ ⟨leaf, hholder, _⟩ => hnone leaf hholder
  · rw [h.not_endless_concat]
    exact (and_iff_left fun ⟨leaf, hholder, _⟩ => hnone leaf hholder).symm

theorem find_child (h : Gathered ctx compress list owner names found) {child : NodeId}
    (hchild : ctx.tree.child? list key = some child) :
    Gathered ctx compress list owner (names ++ [key]) (ListKey.find ctx compress list owner found key) := by
  obtain ⟨hholder, hlost⟩ := holder_of_child? compress hchild
  unfold ListKey.find
  simp only [hchild]
  -- From here on there is but the leaf that holds the key, and whether the key is lost.
  generalize holder ctx.tree compress list key child = held at hholder hlost
  obtain ⟨leaf, lost⟩ := held
  have honly : ∀ {leaf'}, Holder ctx.tree compress list key leaf' ↔ leaf' = leaf :=
    fun {leaf'} => ⟨fun h => h.unique hholder, fun heq => heq ▸ hholder⟩
  have hnodes := Table.get?_concat_insert h.nodes key leaf fun _ => honly
  have hpaths := Table.get?_concat_insert h.paths key (ctx.tree.pathString leaf) fun path => by simp [honly]
  have hwrong : ∀ d, Wrong ctx compress list owner key d ↔
      d ∈ lost ∨ ∃ problems, ctx.leafType leaf owner = some (.error problems) ∧ d ∈ problems.items := by
    intro d
    constructor
    · rintro (hnone | hlost' | ⟨hholder', herror, hd⟩)
      · rw [hchild] at hnone
        cases hnone
      · exact .inl ((hlost _).mpr ⟨hlost', rfl⟩)
      · exact .inr ⟨_, honly.mp hholder' ▸ herror, hd⟩
    · rintro (hd | ⟨problems, herror, hd⟩)
      · obtain ⟨hlost', rfl⟩ := (hlost d).mp hd
        exact .lost hlost'
      · exact .type hholder herror hd
  have hends : Endless ctx compress list owner key ↔ ctx.leafType leaf owner = none := by
    simp only [Endless, honly, exists_eq_left, TypeContext.leafType_eq_none_iff]
  -- The case of a type that is mapped, that of one that is not, and that of a mapping without an end.
  match htype : ctx.leafType leaf owner with
  | some (.ok type) =>
    refine ⟨fun d => ?_, hnodes, hpaths, Table.get?_concat_insert h.types key type fun type' => ?_, ?_⟩
    · rw [h.mem_problems_concat, hwrong, htype]
      refine List.mem_append.trans (or_congr_right ?_)
      simp
    · simp only [honly, exists_eq_left, htype, Option.some.injEq, Except.ok.injEq]
      exact eq_comm
    · rw [h.not_endless_concat, hends, htype]
      simp
  | some (.error problems) =>
    refine ⟨fun d => ?_, hnodes, hpaths, Table.get?_concat_none h.types ?_, ?_⟩
    · rw [h.mem_problems_concat, hwrong, htype, ← or_assoc]
      refine List.mem_append.trans (or_congr List.mem_append ?_)
      simp
    · rintro type ⟨leaf', hholder', hok⟩
      rw [honly.mp hholder', htype] at hok
      cases hok
    · rw [h.not_endless_concat, hends, htype]
      simp
  | none =>
    refine ⟨fun d => ?_, hnodes, hpaths, Table.get?_concat_none h.types ?_, ?_⟩
    · rw [h.mem_problems_concat, hwrong, htype]
      refine List.mem_append.trans (or_congr_right ?_)
      simp
    · rintro type ⟨leaf', hholder', hok⟩
      rw [honly.mp hholder', htype] at hok
      cases hok
    · rw [h.not_endless_concat, hends, htype]
      simp

theorem find (h : Gathered ctx compress list owner names found) (key : String) :
    Gathered ctx compress list owner (names ++ [key]) (ListKey.find ctx compress list owner found key) := by
  cases hchild : ctx.tree.child? list key with
  | none => exact h.find_missing hchild
  | some child => exact h.find_child hchild

theorem foldl (h : Gathered ctx compress list owner names found) (keys : List String) :
    Gathered ctx compress list owner (names ++ keys) (keys.foldl (ListKey.find ctx compress list owner) found) := by
  induction keys generalizing names found with
  | nil => rwa [List.append_nil]
  | cons key rest ih =>
    have hrest := ih (h.find key)
    rwa [List.append_assoc] at hrest

end Gathered

/-! ### The keys of a list -/

/-- The keys of a list are complete: each table has an entry for every key name and for nothing else, which is the leaf that
    holds the key, its type, or its path. -/
structure Complete (ctx : TypeContext) (compress : Bool) (list : NodeId) (owner : String) (keys : ListKeys) : Prop where
  declared : keys.keys = (ctx.tree.node list).keyNames
  types : ∀ key, keys.types.contains key = true ↔ key ∈ keys.keys
  nodes : ∀ key, keys.nodes.contains key = true ↔ key ∈ keys.keys
  paths : ∀ key, keys.paths.contains key = true ↔ key ∈ keys.keys
  entry : ∀ key ∈ keys.keys, ∃ leaf type, Holder ctx.tree compress list key leaf ∧
    keys.nodes.get? key = some leaf ∧ keys.types.get? key = some type ∧ ctx.leafType leaf owner = some (.ok type) ∧
    keys.paths.get? key = some (ctx.tree.pathString leaf)

theorem table_unique {α : Type} {a b : Table α} {names : List String}
    (ha : ∀ key, a.contains key = true ↔ key ∈ names) (hb : ∀ key, b.contains key = true ↔ key ∈ names)
    (h : ∀ key ∈ names, a.get? key = b.get? key) : a = b := by
  refine Table.ext_get? fun key => ?_
  by_cases hkey : key ∈ names
  · exact h key hkey
  · have hnone : ∀ {table : Table α}, (∀ key, table.contains key = true ↔ key ∈ names) → table.get? key = none :=
      fun hnames => Option.eq_none_iff_forall_ne_some.mpr fun v hv =>
        hkey ((hnames key).mp (Table.contains_iff.mpr ⟨v, hv⟩))
    rw [hnone ha, hnone hb]

theorem Complete.unique {keys keys' : ListKeys} (h : Complete ctx compress list owner keys)
    (h' : Complete ctx compress list owner keys') : keys = keys' := by
  have hnames : keys.keys = keys'.keys := h.declared.trans h'.declared.symm
  have hentry : ∀ key ∈ keys.keys, keys.types.get? key = keys'.types.get? key ∧
      keys.nodes.get? key = keys'.nodes.get? key ∧ keys.paths.get? key = keys'.paths.get? key := by
    intro key hkey
    obtain ⟨leaf, type, hholder, hnode, htype, hleaf, hpath⟩ := h.entry key hkey
    obtain ⟨leaf', type', hholder', hnode', htype', hleaf', hpath'⟩ := h'.entry key (hnames ▸ hkey)
    obtain rfl := hholder.unique hholder'
    obtain rfl := Except.ok.inj (Option.some.inj (hleaf.symm.trans hleaf'))
    exact ⟨htype.trans htype'.symm, hnode.trans hnode'.symm, hpath.trans hpath'.symm⟩
  have htypes := table_unique h.types (hnames ▸ h'.types) fun key hkey => (hentry key hkey).1
  have hnodes := table_unique h.nodes (hnames ▸ h'.nodes) fun key hkey => (hentry key hkey).2.1
  have hpaths := table_unique h.paths (hnames ▸ h'.paths) fun key hkey => (hentry key hkey).2.2
  cases keys
  cases keys'
  simp only at hnames htypes hnodes hpaths
  rw [hnames, htypes, hnodes, hpaths]

theorem Gathered.complete {found : Found} (h : Gathered ctx compress list owner found.keys.keys found)
    (hkeys : found.keys.keys = (ctx.tree.node list).keyNames)
    (hsound : ∀ key ∈ found.keys.keys, Sound ctx compress list owner key) :
    Complete ctx compress list owner found.keys where
  declared := hkeys
  types key := by
    rw [Table.contains_iff]
    refine ⟨fun ⟨type, htype⟩ => ((h.types key type).mp htype).1, fun hkey => ?_⟩
    obtain ⟨-, leaf, type, hholder, htype⟩ := hsound key hkey
    exact ⟨type, (h.types key type).mpr ⟨hkey, leaf, hholder, htype⟩⟩
  nodes key := by
    rw [Table.contains_iff]
    refine ⟨fun ⟨leaf, hleaf⟩ => ((h.nodes key leaf).mp hleaf).1, fun hkey => ?_⟩
    obtain ⟨-, leaf, -, hholder, -⟩ := hsound key hkey
    exact ⟨leaf, (h.nodes key leaf).mpr ⟨hkey, hholder⟩⟩
  paths key := by
    rw [Table.contains_iff]
    refine ⟨fun ⟨path, hpath⟩ => ((h.paths key path).mp hpath).1, fun hkey => ?_⟩
    obtain ⟨-, leaf, -, hholder, -⟩ := hsound key hkey
    exact ⟨_, (h.paths key _).mpr ⟨hkey, leaf, hholder, rfl⟩⟩
  entry key hkey := by
    obtain ⟨-, leaf, type, hholder, htype⟩ := hsound key hkey
    exact ⟨leaf, type, hholder, (h.nodes key leaf).mpr ⟨hkey, hholder⟩,
      (h.types key type).mpr ⟨hkey, leaf, hholder, htype⟩, htype, (h.paths key _).mpr ⟨hkey, leaf, hholder, rfl⟩⟩

theorem keys_foldl_find (ctx : TypeContext) (compress : Bool) (list : NodeId) (owner : String) (found : Found)
    (names : List String) : (names.foldl (find ctx compress list owner) found).keys.keys = found.keys.keys := by
  induction names generalizing found with
  | nil => rfl
  | cons key rest ih =>
    rw [List.foldl_cons, ih]
    unfold find
    dsimp only
    split
    · rfl
    · split <;> rfl

/-- Where a list has key names, the keys are what is found along them, if the types of all of them can be mapped to the
    end. -/
theorem listKeys_of_names (compress : Bool) (owner : String) (hlist : ctx.tree.kind list = .list)
    (hnames : (ctx.tree.node list).keyNames ≠ []) :
    ∃ found : Found, found.keys.keys = (ctx.tree.node list).keyNames ∧
      Gathered ctx compress list owner found.keys.keys found ∧ ctx.listKeys compress list owner =
        if found.ends then some (found.problems.settle (some found.keys)) else none := by
  have hkeys := keys_foldl_find ctx compress list owner ⟨⟨(ctx.tree.node list).keyNames, ∅, ∅, ∅⟩, ∅, true⟩
    (ctx.tree.node list).keyNames
  refine ⟨_, hkeys, ?_, ?_⟩
  · rw [hkeys]
    exact (Gathered.start ctx compress list owner (ctx.tree.node list).keyNames).foldl _
  · rw [TypeContext.listKeys, if_neg (not_not_intro hlist), if_neg (by simpa using hnames)]

/-- Names are all sound exactly if every mapping along them ends and nothing that was found is an error. -/
theorem Gathered.sound_iff {names : List String} {found : Found} (h : Gathered ctx compress list owner names found) :
    (∀ key ∈ names, Sound ctx compress list owner key) ↔ found.ends = true ∧ found.problems.hasErrors = false := by
  constructor
  · intro hsound
    refine ⟨h.ends.mpr fun key hkey => (ListKey.sound_iff.mp (hsound key hkey)).1, Bool.eq_false_iff.mpr fun herrors => ?_⟩
    obtain ⟨d, hd, herror⟩ := Diagnostics.hasErrors_iff.mp herrors
    obtain ⟨key, hkey, hwrong⟩ := (h.problems d).mp hd
    rw [(ListKey.sound_iff.mp (hsound key hkey)).2 d hwrong] at herror
    cases herror
  · rintro ⟨hends, hclean⟩ key hkey
    refine ListKey.sound_iff.mpr ⟨h.ends.mp hends key hkey, fun d hd => Bool.eq_false_iff.mpr fun herror => ?_⟩
    rw [Diagnostics.hasErrors_iff.mpr ⟨d, (h.problems d).mpr ⟨key, hkey, hd⟩, herror⟩] at hclean
    cases hclean

theorem listKeys_eq_keys_iff {keys : ListKeys} : ctx.listKeys compress list owner = some (.ok (some keys)) ↔
    ctx.tree.kind list = .list ∧ (ctx.tree.node list).keyNames ≠ [] ∧
      (∀ key ∈ (ctx.tree.node list).keyNames, Sound ctx compress list owner key) ∧
      Complete ctx compress list owner keys := by
  constructor
  · intro h
    have hlist : ctx.tree.kind list = .list := by
      refine Decidable.byContradiction fun hne => ?_
      rw [TypeContext.listKeys, if_pos hne] at h
      cases h
    have hnames : (ctx.tree.node list).keyNames ≠ [] := by
      intro hnil
      rw [TypeContext.listKeys, if_neg (not_not_intro hlist), if_pos (by simp [hnil])] at h
      split at h <;> cases h
    obtain ⟨found, hkeys, hgathered, hanswer⟩ := listKeys_of_names compress owner hlist hnames
    rw [hanswer, Option.ite_none_right_eq_some] at h
    obtain ⟨hends, h⟩ := h
    obtain ⟨hclean, heq⟩ := Diagnostics.settle_eq_ok_iff.mp (Option.some.inj h)
    have hsound := hgathered.sound_iff.mpr ⟨hends, hclean⟩
    have hcomplete := hgathered.complete hkeys hsound
    cases heq
    rw [hkeys] at hsound
    exact ⟨hlist, hnames, hsound, hcomplete⟩
  · rintro ⟨hlist, hnames, hsound, hcomplete⟩
    obtain ⟨found, hkeys, hgathered, hanswer⟩ := listKeys_of_names compress owner hlist hnames
    rw [← hkeys] at hsound
    obtain ⟨hends, hclean⟩ := hgathered.sound_iff.mp hsound
    rw [hanswer, if_pos hends, hcomplete.unique (hgathered.complete hkeys hsound)]
    exact congrArg some (Diagnostics.settle_eq_ok_iff.mpr ⟨hclean, rfl⟩)

theorem listKeys_eq_no_keys_iff : ctx.listKeys compress list owner = some (.ok none) ↔
    ctx.tree.kind list = .list ∧ (ctx.tree.node list).keyNames = [] ∧ ctx.tree.isConfig list = false := by
  by_cases hlist : ctx.tree.kind list = .list
  · by_cases hnames : (ctx.tree.node list).keyNames = []
    · rw [TypeContext.listKeys, if_neg (not_not_intro hlist), if_pos (by simp [hnames])]
      cases hconfig : ctx.tree.isConfig list <;> simp [hlist, hnames]
    · refine iff_of_false (fun h => ?_) fun h => hnames h.2.1
      obtain ⟨found, -, -, hanswer⟩ := listKeys_of_names compress owner hlist hnames
      rw [hanswer, Option.ite_none_right_eq_some] at h
      cases (Diagnostics.settle_eq_ok_iff.mp (Option.some.inj h.2)).2
  · refine iff_of_false (fun h => ?_) fun h => hlist h.1
    rw [TypeContext.listKeys, if_pos hlist] at h
    cases h

theorem listKeys_eq_none_iff : ctx.listKeys compress list owner = none ↔
    ctx.tree.kind list = .list ∧ ∃ key ∈ (ctx.tree.node list).keyNames, Endless ctx compress list owner key := by
  by_cases hlist : ctx.tree.kind list = .list
  · by_cases hnames : (ctx.tree.node list).keyNames = []
    · rw [TypeContext.listKeys, if_neg (not_not_intro hlist), if_pos (by simp [hnames])]
      simp [hnames]
    · obtain ⟨found, hkeys, hgathered, hanswer⟩ := listKeys_of_names compress owner hlist hnames
      have hends := not_congr hgathered.ends
      rw [hkeys] at hends
      push Not at hends
      rw [hanswer, ← hends]
      simp [hlist]
  · rw [TypeContext.listKeys, if_pos hlist]
    simp [hlist]

/-- A key that is not sound fails the list, whose batch has all that is wrong with any of its keys. -/
theorem listKeys_of_not_sound (hlist : ctx.tree.kind list = .list) (hnames : (ctx.tree.node list).keyNames ≠ [])
    (hends : ∀ key ∈ (ctx.tree.node list).keyNames, ¬Endless ctx compress list owner key)
    (h : ¬∀ key ∈ (ctx.tree.node list).keyNames, Sound ctx compress list owner key) :
    ∃ problems, ctx.listKeys compress list owner = some (.error problems) ∧
      ∀ d, d ∈ problems.items ↔ ∃ key ∈ (ctx.tree.node list).keyNames, Wrong ctx compress list owner key d := by
  obtain ⟨found, hkeys, hgathered, hanswer⟩ := listKeys_of_names compress owner hlist hnames
  rw [← hkeys] at h hends ⊢
  have hended := hgathered.ends.mpr hends
  have herrors : found.problems.hasErrors = true := by
    refine (Bool.not_eq_false _).mp fun hclean => h ?_
    exact hgathered.sound_iff.mpr ⟨hended, hclean⟩
  rw [hanswer, if_pos hended]
  refine ⟨found.problems.sort, congrArg some (Diagnostics.settle_eq_error_iff.mpr ⟨herrors, rfl⟩), fun d => ?_⟩
  rw [Diagnostics.mem_sort]
  exact hgathered.problems d

/-- A list has no keys if it has no key names and is read-only; it has keys exactly if it has key names and all of them
    are sound, and then these are complete. There is no answer exactly if the mapping of the type of some key does not end,
    which takes a union that leads back to itself. In all other cases there is an error: a node that is no list and a list
    that lacks a key have it to themselves, and of the key names every one that is no child is told of, every one that leads
    nowhere, and nothing but what is wrong with one of them. -/
theorem listKeys_exact (ctx : TypeContext) (compress : Bool) (list : NodeId) (owner : String) :
    (ctx.listKeys compress list owner = some (.ok none) ↔
      ctx.tree.kind list = .list ∧ (ctx.tree.node list).keyNames = [] ∧ ctx.tree.isConfig list = false) ∧
    ((∃ keys, ctx.listKeys compress list owner = some (.ok (some keys))) ↔
      ctx.tree.kind list = .list ∧ (ctx.tree.node list).keyNames ≠ [] ∧
        ∀ key ∈ (ctx.tree.node list).keyNames, Sound ctx compress list owner key) ∧
    (∀ keys, ctx.listKeys compress list owner = some (.ok (some keys)) → Complete ctx compress list owner keys) ∧
    (ctx.tree.kind list ≠ .list → ctx.listKeys compress list owner =
      some (.error (.single (.noList (ctx.tree.pathString list) (ctx.tree.kind list).name)))) ∧
    (ctx.tree.kind list = .list → (ctx.tree.node list).keyNames = [] → ctx.tree.isConfig list = true →
      ctx.listKeys compress list owner = some (.error (.single (.noListKey (ctx.tree.pathString list))))) ∧
    (ctx.tree.kind list = .list → (ctx.tree.node list).keyNames ≠ [] →
      (∀ key ∈ (ctx.tree.node list).keyNames, ¬Endless ctx compress list owner key) →
      (¬∀ key ∈ (ctx.tree.node list).keyNames, Sound ctx compress list owner key) →
      ∃ problems, ctx.listKeys compress list owner = some (.error problems) ∧
        (∀ key ∈ (ctx.tree.node list).keyNames, ctx.tree.child? list key = none →
          .noSuchKey (ctx.tree.pathString list) key (closest? key ((ctx.tree.children list).map ctx.tree.name)) ∈
            problems.items) ∧
        (∀ key ∈ (ctx.tree.node list).keyNames, Lost ctx.tree compress list key →
          .lostKey (ctx.tree.pathString list) key ∈ problems.items) ∧
        ∀ d ∈ problems.items, ∃ key ∈ (ctx.tree.node list).keyNames, Wrong ctx compress list owner key d) ∧
    (ctx.listKeys compress list owner = none ↔
      ctx.tree.kind list = .list ∧ ∃ key ∈ (ctx.tree.node list).keyNames, Endless ctx compress list owner key) ∧
    (TypeContext.Acyclic ctx.tree ctx.index → ∀ key, ¬Endless ctx compress list owner key) := by
  refine ⟨listKeys_eq_no_keys_iff, ⟨?_, ?_⟩, fun keys h => (listKeys_eq_keys_iff.mp h).2.2.2, fun hlist => ?_,
    fun hlist hnames hconfig => ?_, fun hlist hnames hends hunsound => ?_, listKeys_eq_none_iff,
    fun hacyclic key => not_endless hacyclic compress list owner key⟩
  · rintro ⟨keys, h⟩
    obtain ⟨hlist, hnames, hsound, -⟩ := listKeys_eq_keys_iff.mp h
    exact ⟨hlist, hnames, hsound⟩
  · rintro ⟨hlist, hnames, hsound⟩
    obtain ⟨found, hkeys, hgathered, -⟩ := listKeys_of_names compress owner hlist hnames
    have hcomplete := hgathered.complete hkeys (hkeys.symm ▸ hsound)
    exact ⟨_, listKeys_eq_keys_iff.mpr ⟨hlist, hnames, hsound, hcomplete⟩⟩
  · rw [TypeContext.listKeys, if_pos hlist]
  · rw [TypeContext.listKeys, if_neg (not_not_intro hlist), if_pos (by simp [hnames]), if_pos hconfig]
  · obtain ⟨problems, herror, hitems⟩ := listKeys_of_not_sound hlist hnames hends hunsound
    refine ⟨problems, herror, fun key hkey hnone => ?_, fun key hkey hlost => ?_, fun d hd => (hitems d).mp hd⟩
    · exact (hitems _).mpr ⟨key, hkey, .missing hnone⟩
    · exact (hitems _).mpr ⟨key, hkey, .lost hlost⟩

/-- A list with three key names: one for a leaf, one for a leafref to a leaf that is not there, and one for nothing. Beside
    it a container has a key name, too. -/
def interface : SchemaTree :=
  let index : TypeDescriptor := { TypeDescriptor.ofKind .leafref with path := some "../state/index" }
  ((((SchemaTree.empty.addModule ⟨"net", "urn:net", none, false⟩).addChild 0
    { Node.ofKind "interface" .list "net" with key := some "name index gone" }).addChild 1
    { Node.ofKind "name" .leaf "net" with type := some (.ofKind .string) }).addChild 1
    { Node.ofKind "index" .leaf "net" with type := some index }).addChild 0
    { Node.ofKind "link" .container "net" with key := some "gone" }

theorem interface_keys :
    ∃ problems, (TypeContext.mk interface (.ofTree interface) .empty).listKeys true 1 "Interface" = some (.error problems) ∧
      problems.contains .unknownListKey = true ∧ problems.contains .unresolvedKeyLeafref = true := by
  have hnames : (interface.node 1).keyNames = ["name", "index", "gone"] := by decide +kernel
  have hgone : interface.child? 1 "gone" = none := by decide +kernel
  have hlost : Lost interface true 1 "index" := by
    refine ⟨3, by decide +kernel, by decide +kernel, fun target hleads => ?_⟩
    have hnone : redirect? interface 1 3 = none := by decide +kernel
    rw [redirect?_eq_some_iff.mpr hleads] at hnone
    cases hnone
  have hacyclic : TypeContext.Acyclic interface (.ofTree interface) := by
    have hdown : TypeContext.leadsDown interface (.ofTree interface) [] = true := by decide +kernel
    exact .of_leadsDown hdown
  have hunsound : ¬∀ key ∈ (interface.node 1).keyNames,
      Sound ⟨interface, .ofTree interface, .empty⟩ true 1 "Interface" key := fun hsound =>
    (hsound "index" (by simp [hnames])).1 hlost
  obtain ⟨-, -, -, -, -, hunsoundKeys, -, hends⟩ :=
    listKeys_exact ⟨interface, .ofTree interface, .empty⟩ true 1 "Interface"
  obtain ⟨problems, herror, hmissing, hlosts, -⟩ := hunsoundKeys (by decide +kernel) (by simp [hnames])
    (fun key _ => hends hacyclic key) hunsound
  refine ⟨problems, herror, Diagnostics.contains_iff.mpr ⟨_, hmissing "gone" (by simp [hnames]) hgone, rfl⟩,
    Diagnostics.contains_iff.mpr ⟨_, hlosts "index" (by simp [hnames]) hlost, rfl⟩⟩

/-- A container is told that it is no list, and nothing of the key name that is no child of it. -/
theorem link_keys : (interface.node 4).keyNames = ["gone"] ∧ interface.child? 4 "gone" = none ∧
    (TypeContext.mk interface (.ofTree interface) .empty).listKeys false 4 "Link" =
      some (.error (.single (.noList "/net/link" "container"))) ∧
    (Diagnostics.single (.noList "/net/link" "container")).contains .unknownListKey = false := by
  have hkind : interface.kind 4 = .container := by decide +kernel
  have hpath : interface.pathString 4 = "/net/link" := by decide +kernel
  refine ⟨by decide +kernel, by decide +kernel, ?_, rfl⟩
  rw [TypeContext.listKeys, hkind, hpath]
  rfl

end ListKey

end SchemaIr
