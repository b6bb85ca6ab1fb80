import SchemaIr.Proofs.Leafref.Path
import SchemaIr.Proofs.Schema.Unshadowed

/-! # Ways to write a leafref path

A step may be written with the short name of a module in front of it, and with predicates behind it (`Writing`). Neither
changes where a path leads, whatever stands in the predicates: slashes, colons and opening brackets in them go with them
(`withoutPredicates_path`), and what is left differs in qualifiers only, which are dropped step by step
(`takeStep_qualified`). The exception is the first step of an absolute path, whose qualifier names the module that the path
leads into (`targetPath?_writing`). -/

namespace SchemaIr

namespace Leafref

/-! ### Written steps -/

/-- No character has a meaning in a path: none is white space, a slash, a colon or a bracket. -/
def IsPlain (s : String) : Prop := ∀ c ∈ s.toList, Text.isBlank c = false ∧ c ∉ ['/', ':', '[', ']']

instance (s : String) : Decidable (IsPlain s) :=
  List.decidableBAll (fun c => Text.isBlank c = false ∧ c ∉ ['/', ':', '[', ']']) s.toList

theorem IsPlain.colon_notMem {s : String} (h : IsPlain s) : ':' ∉ s.toList := fun hc => (h _ hc).2 (by decide)

theorem IsPlain.chars {s : String} (h : IsPlain s) : ∀ c ∈ s.toList, Text.isBlank c = false ∧ c ∉ ['/', '['] := fun c hc => by
  obtain ⟨hblank, hmark⟩ := h c hc
  simp only [List.mem_cons, not_or] at hmark ⊢
  exact ⟨hblank, hmark.1, hmark.2.2.1, List.not_mem_nil⟩

/-- A way to write a step: perhaps with a qualifier, and with any number of predicates. -/
structure Writing where
  step : String
  qualifier : Option String
  /-- What stands in the brackets of each predicate. -/
  predicates : List String
  nonempty : step ≠ ""
  plain : IsPlain step
  plain_qualifier : ∀ q ∈ qualifier, IsPlain q
  /-- Steps that name no node are not qualified. -/
  named : qualifier.isSome = true → step ≠ "." ∧ step ≠ ".."
  closed : ∀ p ∈ predicates, ']' ∉ p.toList

namespace Writing

/-- The step with its qualifier, without predicates. -/
def qualified (w : Writing) : String :=
  match w.qualifier with
  | some q => q ++ ":" ++ w.step
  | none => w.step

/-- The step as it is written. -/
def text (w : Writing) : String := w.qualified ++ String.join (w.predicates.map fun p => "[" ++ p ++ "]")

theorem isStep (w : Writing) : IsStep w.step := .of_chars w.nonempty w.plain.chars

theorem qualified_eq (w : Writing) : Leafref.qualified w.qualified = (w.qualifier, w.step) := by
  rw [Writing.qualified]
  cases hq : w.qualifier with
  | none => exact qualified_of_notMem w.plain.colon_notMem
  | some q => exact qualified_append (w.plain_qualifier q hq).colon_notMem w.step

theorem unqualified_qualified (w : Writing) : unqualified w.qualified = w.step := by
  rw [unqualified, qualified_eq]

theorem colon_mem_qualified {w : Writing} {q : String} (h : w.qualifier = some q) : ':' ∈ w.qualified.toList := by
  simp [Writing.qualified, h, String.toList_append]

theorem isStep_qualified (w : Writing) : IsStep w.qualified := by
  cases hq : w.qualifier with
  | none =>
    rw [Writing.qualified, hq]
    exact w.isStep
  | some q =>
    refine .of_chars (fun hempty => ?_) fun c hc => ?_
    · have hcolon := colon_mem_qualified hq
      rw [hempty] at hcolon
      cases hcolon
    · rw [Writing.qualified, hq] at hc
      have hparts : c ∈ q.toList ∨ c = ':' ∨ c ∈ w.step.toList := by simpa [String.toList_append] using hc
      rcases hparts with hc | rfl | hc
      · exact (w.plain_qualifier q hq).chars c hc
      · decide
      · exact w.plain.chars c hc

/-! ### Predicates -/

theorem dropPredicates_predicates {ps : List String} (h : ∀ p ∈ ps, ']' ∉ p.toList) (ys : List Char) :
    dropPredicates ((String.join (ps.map fun p => "[" ++ p ++ "]")).toList ++ ys) = dropPredicates ys := by
  induction ps with
  | nil => rfl
  | cons p rest ih =>
    obtain ⟨hp, hrest⟩ := List.forall_mem_cons.mp h
    have hsplit : (String.join ((p :: rest).map fun p => "[" ++ p ++ "]")).toList ++ ys =
        '[' :: (p.toList ++ ']' :: ((String.join (rest.map fun p => "[" ++ p ++ "]")).toList ++ ys)) := by
      simp [String.toList_append]
    rw [hsplit, dropPredicates_predicate hp, ih hrest]

theorem dropPredicates_text (w : Writing) (ys : List Char) :
    dropPredicates (w.text.toList ++ ys) = w.qualified.toList ++ dropPredicates ys := by
  rw [text, String.toList_append, List.append_assoc, dropPredicates_append w.isStep_qualified.bracket,
    dropPredicates_predicates w.closed]

/-- What is left of a path without its predicates are its qualified steps. -/
theorem dropPredicates_path (ws : List Writing) :
    dropPredicates ("/".intercalate (ws.map text)).toList = ("/".intercalate (ws.map Writing.qualified)).toList := by
  induction ws with
  | nil => simp [dropPredicates]
  | cons w rest ih =>
    cases rest with
    | nil =>
      have htext := w.dropPredicates_text []
      rw [List.append_nil, dropPredicates, List.append_nil] at htext
      exact htext
    | cons w' rest =>
      simp only [List.map_cons, String.intercalate_cons_cons, String.toList_append, List.append_assoc] at ih ⊢
      rw [dropPredicates_text, dropPredicates_append (by decide), ih]

theorem withoutPredicates_path {lead : String} (hlead : '[' ∉ lead.toList) (ws : List Writing) :
    withoutPredicates (lead ++ "/".intercalate (ws.map text)) =
      withoutPredicates (lead ++ "/".intercalate (ws.map Writing.qualified)) := by
  have hplain : '[' ∉ (lead ++ "/".intercalate (ws.map Writing.qualified)).toList := by
    rw [String.toList_append]
    exact List.not_mem_append hlead (bracket_notMem_intercalate
      (List.forall_mem_map.mpr fun w _ => w.isStep_qualified.bracket))
  rw [withoutPredicates_of_notMem hplain, withoutPredicates, String.toList_append, dropPredicates_append hlead,
    dropPredicates_path, ← String.toList_append, String.ofList_toList]

end Writing
end Leafref

namespace LeafIndex
open Leafref (Writing)

variable {index : LeafIndex} {t : SchemaTree} {context : NodeId}

/-! ### Where written paths lead -/

theorem takeStep_qualified (segments : List String) (w : Writing) :
    takeStep segments w.qualified = takeStep segments w.step := by
  cases hq : w.qualifier with
  | none => rw [Writing.qualified, hq]
  | some q =>
    obtain ⟨hself, hup⟩ := w.named (by rw [hq]; rfl)
    -- With a colon in it the step is neither of the two that name no node.
    have hcolon := Writing.colon_mem_qualified hq
    have hself' : w.qualified ≠ "." := fun heq => absurd (heq ▸ hcolon) (by decide)
    have hup' : w.qualified ≠ ".." := fun heq => absurd (heq ▸ hcolon) (by decide)
    have hname : Leafref.unqualified w.step = w.step := Leafref.unqualified_of_notMem w.plain.colon_notMem
    rw [takeStep, takeStep, Text.trim_of_trimmed w.isStep_qualified.trimmed, Text.trim_of_trimmed w.isStep.trimmed]
    simp only [hself, hup, hself', hup', if_false, w.unqualified_qualified, hname]

theorem targetPath?_texts (ws : List Writing) : index.targetPath? t context ("/".intercalate (ws.map Writing.text)) =
    index.targetPath? t context ("/".intercalate (ws.map (·.step))) := by
  have hwithout := Writing.withoutPredicates_path (show '[' ∉ "".toList by decide) ws
  rw [String.empty_append, String.empty_append] at hwithout
  rw [targetPath?_congr hwithout]
  by_cases hne : ws = []
  · rw [hne]
    rfl
  · rw [targetPath?_relative (by simpa using hne) (List.forall_mem_map.mpr fun w _ => w.isStep_qualified),
      targetPath?_relative (by simpa using hne) (List.forall_mem_map.mpr fun w _ => w.isStep)]
    simp only [List.foldlM_map, takeStep_qualified]

/-- An absolute path leads into the module that its first step names, and there by the steps without qualifiers and
    predicates. -/
theorem targetPath?_slash_texts (w : Writing) (rest : List Writing) :
    index.targetPath? t context ("/" ++ "/".intercalate ((w :: rest).map Writing.text)) = some ("/".intercalate
      (["", index.firstModule t context w.qualifier] ++ (w :: rest).map (·.step))) := by
  have hsteps : ∀ s ∈ (w :: rest).map Writing.qualified, Leafref.IsStep s :=
    List.forall_mem_map.mpr fun w _ => w.isStep_qualified
  have hnames : (rest.map Writing.qualified).map Leafref.unqualified = rest.map (·.step) := by
    rw [List.map_map]
    exact List.map_congr_left fun w _ => w.unqualified_qualified
  rw [targetPath?_congr (Writing.withoutPredicates_path (by decide) _), List.map_cons, targetPath?_absolute hsteps,
    w.qualified_eq, hnames]
  rfl

theorem targetPath?_slash_steps (w : Writing) (rest : List Writing) :
    index.targetPath? t context ("/" ++ "/".intercalate ((w :: rest).map (·.step))) = some ("/".intercalate
      (["", index.firstModule t context none] ++ (w :: rest).map (·.step))) := by
  have hsteps : ∀ s ∈ (w :: rest).map (·.step), Leafref.IsStep s := List.forall_mem_map.mpr fun w _ => w.isStep
  have hnames : (rest.map (·.step)).map Leafref.unqualified = rest.map (·.step) := by
    rw [List.map_map]
    exact List.map_congr_left fun w _ => Leafref.unqualified_of_notMem w.plain.colon_notMem
  rw [List.map_cons, targetPath?_absolute hsteps, Leafref.qualified_of_notMem w.plain.colon_notMem, hnames]
  rfl

theorem module?_ofTree {x : String} {m : ModuleInfo} (hm : m ∈ t.modules.values) (hx : m.shortName = some x)
    (honly : ∀ m' ∈ t.modules.values, m'.shortName = some x → m' = m) : (ofTree t).module? x = some m.name := by
  have hentry : ∀ {name}, (x, name) ∈ (t.modules.values.filterMap fun m => m.shortName.map (·, m.name)) ↔ name = m.name := by
    intro name
    simp only [List.mem_filterMap, Option.map_eq_some_iff, Prod.mk.injEq]
    constructor
    · rintro ⟨m', hm', _, hx', rfl, rfl⟩
      rw [honly m' hm' hx']
    · rintro rfl
      exact ⟨m, hm, x, hx, rfl, rfl⟩
  rw [module?, ofTree, Table.get?_ofList]
  cases hfind : Entries.find? x (t.modules.values.filterMap fun m => m.shortName.map (·, m.name)).reverse with
  | none => exact absurd rfl (Entries.find?_eq_none_iff.mp hfind (x, m.name) (List.mem_reverse.mpr (hentry.mpr rfl)))
  | some name => rw [hentry.mp (List.mem_reverse.mp (Entries.mem_of_find? hfind))]

/-- Predicates and qualifiers do not change where a path leads, be it relative or absolute, but for the qualifier of the
    first step of an absolute path. If that is the short name of one module only, the path leads into this module. -/
theorem targetPath?_writing (index : LeafIndex) (t : SchemaTree) (context : NodeId) (ws : List Writing) :
    index.targetPath? t context ("/".intercalate (ws.map Writing.text)) =
        index.targetPath? t context ("/".intercalate (ws.map (·.step))) ∧
      ((∀ w ∈ ws.head?, w.qualifier = none) →
        index.targetPath? t context ("/" ++ "/".intercalate (ws.map Writing.text)) =
          index.targetPath? t context ("/" ++ "/".intercalate (ws.map (·.step)))) ∧
      (t.Grown → ∀ w ∈ ws.head?, ∀ x, w.qualifier = some x → ∀ m ∈ t.modules.values, m.shortName = some x →
        (∀ m' ∈ t.modules.values, m'.shortName = some x → m' = m) →
          ∃ root, t.roots.get? m.name = some root ∧
            (ofTree t).targetPath? t context ("/" ++ "/".intercalate (ws.map Writing.text)) =
              some ("/".intercalate (t.dataPath root ++ ws.map (·.step)))) := by
  refine ⟨targetPath?_texts ws, fun hfirst => ?_, fun ht w hw x hq m hm hx honly => ?_⟩
  · cases ws with
    | nil => rfl
    | cons w rest =>
      rw [targetPath?_slash_texts, targetPath?_slash_steps, hfirst w rfl]
  · obtain ⟨rest, rfl⟩ := List.head?_eq_some_iff.mp hw
    obtain ⟨name, hname⟩ := Table.mem_values_iff.mp hm
    obtain ⟨rfl, root, hroot⟩ := ht.exists_root hname
    obtain ⟨-, hparent, hrootname, hkind⟩ := ht.rootsListed.root hroot
    refine ⟨root, hroot, ?_⟩
    rw [targetPath?_slash_texts, hq, firstModule, module?_ofTree hm hx honly,
      SchemaTree.dataPath_of_top hparent (by rw [hkind]; rfl), hrootname]
    rfl

/-- A list of interfaces with their names, in a module with the short name `d`. -/
def interfaces : SchemaTree :=
  (((SchemaTree.empty.addModule ⟨"devices", "urn:devices", some "d", false⟩).addChild 0
    (.ofKind "interfaces" .container "devices")).addChild 1 (.ofKind "interface" .list "devices")).addChild 2
      (.ofKind "name" .leaf "devices")

/-- The way from the list to the names, with a predicate that looks like a path itself. -/
def toNames : List Writing :=
  [⟨"interface", some "d", ["d:name = current()/../[x"], by decide, by decide, by decide, by decide, by decide⟩,
    ⟨"name", none, [], by decide, by decide, by decide, by decide, by decide⟩]

/-- The container around the list, perhaps with the short name of its module. -/
def toInterfaces (qualifier : Option String) (h : ∀ q ∈ qualifier, Leafref.IsPlain q) : Writing where
  step := "interfaces"
  qualifier := qualifier
  predicates := []
  nonempty := by decide
  plain := by decide
  plain_qualifier := h
  named _ := by decide
  closed := nofun

theorem interfaces_writing : interfaces.Grown ∧
    (ofTree interfaces).targetPath? interfaces 1 "d:interface[d:name = current()/../[x]/name" =
      (ofTree interfaces).targetPath? interfaces 1 "interface/name" ∧
    (ofTree interfaces).targetPath? interfaces 1 "/interfaces/d:interface[d:name = current()/../[x]/name" =
      (ofTree interfaces).targetPath? interfaces 1 "/interfaces/interface/name" ∧
    (ofTree interfaces).targetPath? interfaces 1 "/d:interfaces/d:interface[d:name = current()/../[x]/name" =
      some "/devices/interfaces/interface/name" := by
  have hgrown : interfaces.Grown := .addChild _ _ (.addChild _ _ (.addChild _ _ (.addModule _ .empty)))
  have hvalues : interfaces.modules.values = [⟨"devices", "urn:devices", some "d", false⟩] := by decide +kernel
  obtain ⟨root, hroot, htarget⟩ := (targetPath?_writing (ofTree interfaces) interfaces 1
    (toInterfaces (some "d") (by decide) :: toNames)).2.2 hgrown _ rfl "d" rfl ⟨"devices", "urn:devices", some "d", false⟩
      (by rw [hvalues]; exact List.mem_singleton_self _) rfl (by rw [hvalues]; exact fun m hm _ => List.mem_singleton.mp hm)
  obtain rfl : 0 = root := Option.some.inj hroot
  refine ⟨hgrown, (targetPath?_writing (ofTree interfaces) interfaces 1 toNames).1, ?_, htarget.trans ?_⟩
  · exact (targetPath?_writing (ofTree interfaces) interfaces 1 (toInterfaces none nofun :: toNames)).2.1 fun w hw => by
      cases hw
      rfl
  · decide +kernel

end LeafIndex
end SchemaIr
