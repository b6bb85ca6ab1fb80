import SchemaIr.Naming.Camel
import SchemaIr.Proofs.Text.Uppercase

/-! # Laws of camel case

Each character contributes on its own to a camel-case name; of what stands before it, only whether that ends in a
separator counts (`camelChars_append`). So names are put together as texts are: an underscore between two texts
stands between their names, and a hyphen or a dot between them goes. What comes out is in camel case already
(`IsCamel`), and exactly such texts are left alone (`camel_eq_self_iff`). Of the case mapping this takes no more than
that upper case has no separators and begins with its own upper case. -/

namespace SchemaIr.Naming

/-! ### Names of joined texts -/

/-- A word ends at the character. -/
def Separates (c : Char) : Prop := c = '-' ∨ c = '.' ∨ c = '_'

instance (c : Char) : Decidable (Separates c) := inferInstanceAs (Decidable (_ ∨ _))

/-- What a character contributes to a camel-case name. -/
def camelChar (capital : Bool) (c : Char) : List Char :=
  if c = '-' ∨ c = '.' then [] else if c = '_' then ['_'] else if capital then Text.upper c else [c]

/-- Whether the character that follows is capitalised. -/
def capitalAfter (capital : Bool) (cs : List Char) : Bool := cs.foldl (fun _ c => decide (Separates c)) capital

theorem camelChar_of_not_separates {c : Char} (h : ¬ Separates c) (capital : Bool) :
    camelChar capital c = if capital then Text.upper c else [c] := by
  simp only [Separates, not_or] at h
  simp [camelChar, h]

theorem camelChars_cons (capital : Bool) (c : Char) (cs : List Char) :
    camelChars capital (c :: cs) = camelChar capital c ++ camelChars (decide (Separates c)) cs := by
  by_cases h : Separates c
  · rcases h with rfl | rfl | rfl <;> rfl
  · rw [camelChar_of_not_separates h, decide_eq_false h]
    simp only [Separates, not_or] at h
    simp [camelChars, h]

theorem camelChars_append (capital : Bool) (xs ys : List Char) :
    camelChars capital (xs ++ ys) = camelChars capital xs ++ camelChars (capitalAfter capital xs) ys := by
  induction xs generalizing capital with
  | nil => rfl
  | cons c xs ih =>
    rw [List.cons_append, camelChars_cons, camelChars_cons, ih, List.append_assoc]
    rfl

/-- Behind a separator, a name begins anew. -/
theorem camel_separated {sep : Char} (h : Separates sep) {mark : String} (hmark : mark.toList = [sep]) (a b : String) :
    camel (a ++ mark ++ b) = camel a ++ String.ofList (camelChar true sep) ++ camel b := by
  have hsep : ∀ capital, camelChar capital sep = camelChar true sep := by
    intro capital
    rcases h with rfl | rfl | rfl <;> rfl
  apply String.toList_injective
  simp only [camel, String.toList_append, String.toList_ofList, hmark, List.append_assoc, List.singleton_append]
  rw [camelChars_append, camelChars_cons, hsep, decide_eq_true h]

theorem camel_underscore (a b : String) : camel (a ++ "_" ++ b) = camel a ++ "_" ++ camel b :=
  camel_separated (.inr (.inr rfl)) rfl a b

theorem camel_hyphen (a b : String) : camel (a ++ "-" ++ b) = camel a ++ camel b := by
  rw [camel_separated (.inl rfl) rfl]
  simp [camelChar]

theorem camel_dot (a b : String) : camel (a ++ "." ++ b) = camel a ++ camel b := by
  rw [camel_separated (.inr (.inl rfl)) rfl]
  simp [camelChar]

theorem joinCamel_eq (segments : List String) : joinCamel segments = camel ("_".intercalate segments) := by
  induction segments with
  | nil => rfl
  | cons x rest ih =>
    cases rest with
    | nil => simp [joinCamel]
    | cons y rest =>
      rw [joinCamel, List.map_cons] at ih
      rw [joinCamel, List.map_cons, List.map_cons, String.intercalate_cons_cons, ih, String.intercalate_cons_cons,
        camel_underscore]

theorem qualify_eq (module : String) (segments : List String) :
    qualify module segments = camel ("_".intercalate (module :: segments)) := by
  cases segments with
  | nil => simp [qualify]
  | cons x rest =>
    rw [String.intercalate_cons_cons, camel_underscore, ← joinCamel_eq]
    rfl

/-! ### Texts in camel case -/

/-- The characters are in camel case: no hyphen and no dot is among them, and a word begins with its own upper
    case. -/
inductive IsCamel : Bool → List Char → Prop
  | nil {capital : Bool} : IsCamel capital []
  | underscore {capital : Bool} {cs : List Char} : IsCamel true cs → IsCamel capital ('_' :: cs)
  | letter {capital : Bool} {c : Char} {cs : List Char} : ¬ Separates c → (capital = true → Text.upper c = [c]) →
      IsCamel false cs → IsCamel capital (c :: cs)

namespace IsCamel
variable {capital : Bool} {cs : List Char}

/-- Where a word may begin, it may also go on. -/
theorem weaken (h : IsCamel true cs) : IsCamel capital cs := by
  cases h with
  | nil => exact .nil
  | underscore hcs => exact .underscore hcs
  | letter hc hupper hcs => exact .letter hc (fun _ => hupper rfl) hcs

theorem append {us : List Char} (hus : ∀ u ∈ us, ¬ Separates u) (h : IsCamel false cs) : IsCamel false (us ++ cs) := by
  induction us with
  | nil => exact h
  | cons u us ih =>
    obtain ⟨hu, hrest⟩ := List.forall_mem_cons.mp hus
    exact .letter hu nofun (ih hrest)

theorem notMem (h : IsCamel capital cs) {c : Char} (hc : c = '-' ∨ c = '.') : c ∉ cs := by
  induction h with
  | nil => exact List.not_mem_nil
  | underscore _ ih =>
    rintro (_ | ⟨_, hmem⟩)
    · simp at hc
    · exact ih hmem
  | letter hd _ _ ih =>
    rintro (_ | ⟨_, hmem⟩)
    · exact hd (hc.imp_right .inl)
    · exact ih hmem

theorem camelChars_eq (h : IsCamel capital cs) : camelChars capital cs = cs := by
  induction h with
  | nil => rfl
  | underscore _ ih => rw [camelChars_cons, show decide (Separates '_') = true from rfl, ih]; rfl
  | @letter capital c cs hc hupper _ ih =>
    rw [camelChars_cons, camelChar_of_not_separates hc, decide_eq_false hc, ih]
    cases capital with
    | true => rw [if_pos rfl, hupper rfl]; rfl
    | false => rfl

end IsCamel

theorem not_separates_of_mem_upper {c u : Char} (hc : ¬ Separates c) (hu : u ∈ Text.upper c) : ¬ Separates u := by
  intro hsep
  have hmark : ¬ Text.CapitalOrBeyond u := by
    rcases hsep with rfl | rfl | rfl <;> decide
  exact hc (Text.eq_of_mem_upper hu hmark ▸ hsep)

theorem isCamel_camelChars (capital : Bool) (cs : List Char) : IsCamel capital (camelChars capital cs) := by
  induction cs generalizing capital with
  | nil => exact .nil
  | cons c cs ih =>
    rw [camelChars_cons]
    by_cases hsep : Separates c
    · rw [decide_eq_true hsep]
      rcases hsep with rfl | rfl | rfl
      · exact (ih true).weaken
      · exact (ih true).weaken
      · exact .underscore (ih true)
    rw [camelChar_of_not_separates hsep, decide_eq_false hsep]
    cases capital with
    | false => exact .letter hsep nofun (ih false)
    | true =>
      -- Only the first of several upper-case characters begins the word.
      obtain ⟨u, us, hupper, hu⟩ := Text.upper_head c
      have hus : ∀ x ∈ u :: us, ¬ Separates x := fun x hx => not_separates_of_mem_upper hsep (hupper ▸ hx)
      obtain ⟨hfirst, hlater⟩ := List.forall_mem_cons.mp hus
      rw [if_pos rfl, hupper]
      exact .letter hfirst (fun _ => hu) (.append hlater (ih false))

theorem isCamel_camel (s : String) : IsCamel true (camel s).toList := by
  rw [camel, String.toList_ofList]
  exact isCamel_camelChars true s.toList

theorem camel_eq_self_iff {s : String} : camel s = s ↔ IsCamel true s.toList := by
  constructor
  · intro h
    have hcamel := isCamel_camel s
    rwa [h] at hcamel
  · intro h
    rw [camel, h.camelChars_eq, String.ofList_toList]

/-- The name of joined texts is the joined name of the texts, so a name of several segments depends only on what
    they are joined to. A name is its own name: it is in camel case, with no hyphen and no dot. -/
theorem camel_homomorphic :
    (∀ a b, camel (a ++ "_" ++ b) = camel a ++ "_" ++ camel b) ∧
    (∀ a b, camel (a ++ "-" ++ b) = camel (a ++ "." ++ b) ∧ camel (a ++ "." ++ b) = camel a ++ camel b) ∧
    (∀ segments, joinCamel segments = camel ("_".intercalate segments)) ∧
    (∀ module segments, qualify module segments = camel ("_".intercalate (module :: segments))) ∧
    (∀ s, camel (camel s) = camel s) ∧
    ∀ s, IsCamel true (camel s).toList ∧ '-' ∉ (camel s).toList ∧ '.' ∉ (camel s).toList := by
  refine ⟨camel_underscore, fun a b => ⟨?_, camel_dot a b⟩, joinCamel_eq, qualify_eq, fun s => ?_, fun s => ?_⟩
  · rw [camel_hyphen, camel_dot]
  · exact camel_eq_self_iff.mpr (isCamel_camel s)
  · have hcamel := isCamel_camel s
    exact ⟨hcamel, hcamel.notMem (.inl rfl), hcamel.notMem (.inr rfl)⟩

example : camel "-ßeta__a.b" = "SSeta__AB" ∧ camel "SSeta__AB" = "SSeta__AB" := by decide +kernel

end SchemaIr.Naming
