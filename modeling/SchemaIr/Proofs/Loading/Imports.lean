import Mathlib.Logic.Relation
import SchemaIr.Loading.Library
import SchemaIr.Proofs.Table.Lookup

/-! # Loading imports to the end

Imports are loaded turn by turn (`Turn`), and nothing bounds the number of turns but the disk: a turn either loads one
of the modules that its files hold and that were not loaded before, or leaves one import less to look at. So the turns
come to an end wherever they begin, also where imports go in circles (`turn_wellFounded`). The bound that `loadImports`
is given is never reached: it loads what the turns load, and fails where they fail (`loads_load`). -/

namespace SchemaIr.Library
open Relation (ReflTransGen)

variable {disk : Disk} {paths searchPaths : List String} {lib : Library}

/-! ### What is read -/

/-- The module document in a file. -/
def documentIn? (bytes : ByteArray) : Option ModuleDocument :=
  (String.fromUTF8? bytes).bind fun text => (Json.Decode.text ModuleDocument.decode text).toOption

/-- The names of the modules in the files of a disk. -/
def namesOn (disk : Disk) : List String := disk.files.values.filterMap fun bytes => (documentIn? bytes).map (·.name)

/-- A document that is read stands in a file. -/
theorem mem_namesOn_of_readModule {path : String} {document : ModuleDocument}
    (h : readModule disk path = .ok document) : document.name ∈ namesOn disk := by
  unfold readModule at h
  split at h
  · split at h
    · cases h
    · rename_i text htext
      split at h
      · rename_i read hread
        cases h
        obtain ⟨bytes, hbytes, hutf⟩ := Option.bind_eq_some_iff.mp htext
        obtain ⟨place, -, hfile⟩ := Option.bind_eq_some_iff.mp hbytes
        refine List.mem_filterMap.mpr ⟨bytes, Table.mem_values_iff.mpr ⟨_, hfile⟩, ?_⟩
        simp [documentIn?, hutf, hread, Except.toOption]
      · cases h
  · cases h

/-- An import is loaded from the file that is found for it, which must hold the module of its name. -/
theorem loadImport_eq_ok {i : Import} {result : Library × List Import} :
    loadImport disk searchPaths lib i = .ok result ↔ ∃ path document, findImport? disk searchPaths i = some path ∧
      readModule disk path = .ok document ∧ document.name = i.module ∧
      result = (lib.insert i.module ⟨document, path, true⟩, importsOf document path) := by
  unfold loadImport
  cases hpath : findImport? disk searchPaths i with
  | none => simp
  | some path =>
    cases hread : readModule disk path with
    | error e => simp [hread, bind, Except.bind]
    | ok document =>
      by_cases hname : document.name = i.module
      · simp [hread, bind, Except.bind, hname, eq_comm]
      · simp [hread, bind, Except.bind, hname]

/-- A requested file is read, and its module must not be there already. -/
theorem loadRequested_cons_eq_ok {path : String} {queue : List Import} {result : Library × List Import} :
    loadRequested disk (path :: paths) lib queue = .ok result ↔ ∃ document, readModule disk path = .ok document ∧
      lib.contains document.name = false ∧
      loadRequested disk paths (lib.insert document.name ⟨document, path, false⟩) (queue ++ importsOf document path) =
        .ok result := by
  rw [loadRequested]
  cases hread : readModule disk path with
  | error e => simp [bind, Except.bind]
  | ok document => cases hnew : lib.contains document.name <;> simp [bind, Except.bind, hnew]

/-! ### Turns -/

/-- Where loading stands: what is loaded, and the imports that are still to be looked at. -/
structure Progress where
  lib : Library
  queue : List Import

/-- One turn: the first import is passed over, or its module is loaded and the imports which that states are put
    last. -/
inductive Turn (disk : Disk) (searchPaths : List String) : Progress → Progress → Prop
  | known {lib : Library} {i : Import} {rest : List Import} (h : lib.contains i.module = true) :
    Turn disk searchPaths ⟨lib, i :: rest⟩ ⟨lib, rest⟩
  | loaded {lib grown : Library} {i : Import} {rest more : List Import} (hnew : lib.contains i.module = false)
    (h : loadImport disk searchPaths lib i = .ok (grown, more)) :
    Turn disk searchPaths ⟨lib, i :: rest⟩ ⟨grown, rest ++ more⟩

/-- No turn is left, because no import is left or because the first one cannot be loaded. -/
inductive Ends (disk : Disk) (searchPaths : List String) : Progress → Except LoadError Library → Prop
  | done {lib : Library} : Ends disk searchPaths ⟨lib, []⟩ (.ok lib)
  | failed {lib : Library} {i : Import} {rest : List Import} {e : LoadError} (hnew : lib.contains i.module = false)
    (h : loadImport disk searchPaths lib i = .error e) : Ends disk searchPaths ⟨lib, i :: rest⟩ (.error e)

/-- Some number of turns leads to an outcome. -/
def LeadsTo (disk : Disk) (searchPaths : List String) (s : Progress) (outcome : Except LoadError Library) : Prop :=
  ∃ last, ReflTransGen (Turn disk searchPaths) s last ∧ Ends disk searchPaths last outcome

theorem LeadsTo.of_turn {s s' : Progress} {outcome : Except LoadError Library} (h : Turn disk searchPaths s s')
    (hs : LeadsTo disk searchPaths s' outcome) : LeadsTo disk searchPaths s outcome := by
  obtain ⟨last, hturns, hends⟩ := hs
  exact ⟨last, .head h hturns, hends⟩

/-- Where loading stands, there is one turn to take, or one outcome. -/
theorem turn_unique {s a b : Progress} (ha : Turn disk searchPaths s a) (hb : Turn disk searchPaths s b) : a = b := by
  cases ha with
  | known h =>
    cases hb with
    | known _ => rfl
    | loaded hnew _ => simp [h] at hnew
  | loaded hnew h =>
    cases hb with
    | known h' => simp [h'] at hnew
    | loaded _ h' =>
      cases h.symm.trans h'
      rfl

theorem not_turn_of_ends {s s' : Progress} {outcome : Except LoadError Library} (h : Ends disk searchPaths s outcome)
    (ht : Turn disk searchPaths s s') : False := by
  cases h with
  | done => cases ht
  | failed hnew hfail =>
    cases ht with
    | known h => simp [h] at hnew
    | loaded _ h => cases hfail.symm.trans h

theorem ends_unique {s : Progress} {a b : Except LoadError Library} (ha : Ends disk searchPaths s a)
    (hb : Ends disk searchPaths s b) : a = b := by
  cases ha with
  | done =>
    cases hb
    rfl
  | failed _ h =>
    cases hb with
    | failed _ h' => exact congrArg _ (Except.error.inj (h.symm.trans h'))

theorem LeadsTo.unique {s : Progress} {a b : Except LoadError Library} (ha : LeadsTo disk searchPaths s a)
    (hb : LeadsTo disk searchPaths s b) : a = b := by
  obtain ⟨last, hturns, hends⟩ := ha
  induction hturns using ReflTransGen.head_induction_on with
  | refl =>
    obtain ⟨last', hturns', hends'⟩ := hb
    rcases hturns'.cases_head with rfl | ⟨next, hnext, -⟩
    · exact ends_unique hends hends'
    · exact (not_turn_of_ends hends hnext).elim
  | head hturn _ ih =>
    obtain ⟨last', hturns', hends'⟩ := hb
    rcases hturns'.cases_head with rfl | ⟨next, hnext, hrest⟩
    · exact (not_turn_of_ends hends' hturn).elim
    · obtain rfl := turn_unique hturn hnext
      exact ih ⟨last', hrest, hends'⟩

/-! ### The end -/

/-- The modules in the files of a disk that are not loaded yet. -/
def unloaded (disk : Disk) (lib : Library) : List String := (namesOn disk).filter fun name => !lib.contains name

/-- Loading a module that was read leaves fewer to load. -/
theorem length_unloaded_insert_lt {path name : String} {document : ModuleDocument} {m : LoadedModule}
    (hread : readModule disk path = .ok document) (hname : document.name = name) (hnew : lib.contains name = false) :
    (unloaded disk (lib.insert name m)).length < (unloaded disk lib).length := by
  have hmem : name ∈ namesOn disk := hname ▸ mem_namesOn_of_readModule hread
  have hsub : unloaded disk (lib.insert name m) = (unloaded disk lib).filter (· ≠ name) := by
    rw [unloaded, unloaded, List.filter_filter]
    refine List.filter_congr fun other _ => ?_
    by_cases h : other = name <;> simp [Table.contains, Table.get?_insert, h]
  rw [hsub]
  exact List.length_filter_lt_length_iff_exists.mpr ⟨name, List.mem_filter.mpr ⟨hmem, by simp [hnew]⟩, by simp⟩

theorem length_unloaded_of_loadImport {i : Import} {result : Library × List Import}
    (hnew : lib.contains i.module = false) (h : loadImport disk searchPaths lib i = .ok result) :
    (unloaded disk result.1).length < (unloaded disk lib).length := by
  obtain ⟨path, document, -, hread, hname, rfl⟩ := loadImport_eq_ok.mp h
  exact length_unloaded_insert_lt hread hname hnew

/-- What becomes less with every turn: the modules to load, or else the imports to look at. -/
def remaining (disk : Disk) (s : Progress) : Nat × Nat := ((unloaded disk s.lib).length, s.queue.length)

theorem Turn.remaining_lt {s s' : Progress} (h : Turn disk searchPaths s s') :
    Prod.Lex (· < ·) (· < ·) (remaining disk s') (remaining disk s) := by
  cases h with
  | known _ => exact Prod.Lex.right _ (Nat.lt_succ_self _)
  | loaded hnew h => exact Prod.Lex.left _ _ (length_unloaded_of_loadImport hnew h)

/-- From no point on do turns go on forever. -/
theorem turn_wellFounded (disk : Disk) (searchPaths : List String) :
    WellFounded fun s' s => Turn disk searchPaths s s' :=
  Subrelation.wf (fun h => h.remaining_lt) (InvImage.wf (remaining disk) (Prod.lex Nat.lt_wfRel Nat.lt_wfRel).wf)

/-! ### The bound -/

/-- With more files than modules to load, loading imports has the outcome of the turns. -/
theorem leadsTo_loadImports {files : Nat} {queue : List Import}
    (h : queue = [] ∨ (unloaded disk lib).length < files) :
    LeadsTo disk searchPaths ⟨lib, queue⟩ (loadImports disk searchPaths files lib queue) := by
  fun_induction loadImports disk searchPaths files lib queue with
  | case1 => exact ⟨_, .refl, .done⟩
  | case2 files lib i rest hknown ih =>
    refine .of_turn (.known hknown) (ih ?_)
    exact .inr (h.resolve_left (List.cons_ne_nil _ _))
  | case3 lib i rest _ => exact absurd (h.resolve_left (List.cons_ne_nil _ _)) (Nat.not_lt_zero _)
  | case4 lib i rest hnew files ih =>
    have hbound := h.resolve_left (List.cons_ne_nil _ _)
    have hnew : lib.contains i.module = false := by simpa using hnew
    cases hload : loadImport disk searchPaths lib i with
    | error e => exact ⟨_, .refl, .failed hnew hload⟩
    | ok result =>
      have hless := length_unloaded_of_loadImport hnew hload
      exact .of_turn (.loaded hnew hload) (ih result.1 result.2 (.inr (by omega)))

/-- Imports stem from modules of the disk, which the requested files hold already. -/
theorem length_unloaded_of_loadRequested {queue : List Import} {result : Library × List Import}
    (h : queue = [] ∨ (unloaded disk lib).length < disk.files.size)
    (hr : loadRequested disk paths lib queue = .ok result) :
    result.2 = [] ∨ (unloaded disk result.1).length < disk.files.size := by
  induction paths generalizing lib queue with
  | nil =>
    cases hr
    exact h
  | cons path rest ih =>
    obtain ⟨document, hread, hnew, hr⟩ := loadRequested_cons_eq_ok.mp hr
    refine ih (.inr ?_) hr
    calc (unloaded disk (lib.insert document.name ⟨document, path, false⟩)).length
        < (unloaded disk lib).length := length_unloaded_insert_lt hread rfl hnew
      _ ≤ (namesOn disk).length := List.length_filter_le _ _
      _ ≤ disk.files.values.length := List.length_filterMap_le _ _
      _ = disk.files.size := List.length_map _

/-- Loading the requested files in order, and then their imports turn by turn, comes to an outcome. -/
inductive Loads (disk : Disk) (paths searchPaths : List String) : Except LoadError Library → Prop
  | refused {e : LoadError} (h : loadRequested disk paths ∅ [] = .error e) : Loads disk paths searchPaths (.error e)
  | turns {lib : Library} {queue : List Import} {outcome : Except LoadError Library}
    (h : loadRequested disk paths ∅ [] = .ok (lib, queue)) (hturns : LeadsTo disk searchPaths ⟨lib, queue⟩ outcome) :
    Loads disk paths searchPaths outcome

theorem loads_load (disk : Disk) (paths searchPaths : List String) :
    Loads disk paths searchPaths (load disk paths searchPaths) := by
  cases hr : loadRequested disk paths ∅ [] with
  | error e =>
    have hload : load disk paths searchPaths = .error e := by simp [load, hr, bind, Except.bind]
    exact hload ▸ .refused hr
  | ok result =>
    have hload : load disk paths searchPaths =
        loadImports disk searchPaths disk.files.size result.1 result.2 := by
      simp [load, hr, bind, Except.bind]
    exact hload ▸ .turns hr (leadsTo_loadImports (length_unloaded_of_loadRequested (.inl rfl) hr))

theorem Loads.unique {a b : Except LoadError Library} (ha : Loads disk paths searchPaths a)
    (hb : Loads disk paths searchPaths b) : a = b := by
  cases ha with
  | refused h =>
    cases hb with
    | refused h' => exact congrArg _ (Except.error.inj (h.symm.trans h'))
    | turns h' _ => cases h.symm.trans h'
  | turns h hturns =>
    cases hb with
    | refused h' => cases h.symm.trans h'
    | turns h' hturns' =>
      cases h.symm.trans h'
      exact hturns.unique hturns'

end SchemaIr.Library
