import SchemaIr.Proofs.Json.Quoted

/-! # Compact texts

Values with the same compact text are the same (`compact_injective`): a value's first character tells what it is, and
what stands behind it where it ends. -/

namespace SchemaIr.Json.Value

/-! ### Induction -/

/-- What holds of a value if it holds of its parts holds of every value. -/
@[elab_as_elim]
theorem induct {motive : Value → Prop} (null : motive null) (bool : ∀ b, motive (bool b)) (int : ∀ n, motive (int n))
    (str : ∀ s, motive (str s)) (arr : ∀ items, (∀ v ∈ items, motive v) → motive (arr items))
    (obj : ∀ members, (∀ m ∈ members, motive m.2) → motive (obj members)) (v : Value) : motive v :=
  match v with
  | .null => null
  | .bool b => bool b
  | .int n => int n
  | .str s => str s
  | .arr items => arr items fun v _ => induct null bool int str arr obj v
  | .obj members => obj members fun m _ => induct null bool int str arr obj m.2
termination_by sizeOf v
decreasing_by
  · have := List.sizeOf_lt_of_mem ‹v ∈ items›
    simp only [Value.arr.sizeOf_spec]
    omega
  · have := List.sizeOf_lt_of_mem ‹m ∈ members›
    obtain ⟨k, v⟩ := m
    simp only [Value.obj.sizeOf_spec, Prod.mk.sizeOf_spec] at *
    omega

/-! ### Parts of a text -/

/-- A text may stand behind a value: if it goes on, then with a comma or a closing bracket. -/
def Ends (rest : List Char) : Prop := ∀ c ∈ rest.head?, c ∈ [',', ']', '\x7d']

/-- What stands behind an item of an array, up to its end. -/
def afterItem : List Value → List Char
  | [] => [']']
  | v :: vs => ',' :: (v.compact.toList ++ afterItem vs)

/-- What stands behind a member of an object, up to its end. -/
def afterMember : List (String × Value) → List Char
  | [] => ['\x7d']
  | m :: ms => ',' :: ((compactMember m).toList ++ afterMember ms)

theorem Ends.head {p : Char → Prop} {c : Char} {rest : List Char} (h : Ends (c :: rest)) (comma : p ',')
    (bracket : p ']') (brace : p '\x7d') : p c := by
  have hc := h c rfl
  simp only [List.mem_cons, List.not_mem_nil, or_false] at hc
  rcases hc with rfl | rfl | rfl
  · exact comma
  · exact bracket
  · exact brace

theorem ends_nil : Ends [] := fun _ h => by cases h

theorem ends_afterItem (vs : List Value) (rest : List Char) : Ends (afterItem vs ++ rest) := by
  cases vs <;> rintro c ⟨⟩ <;> decide

theorem ends_afterMember (ms : List (String × Value)) (rest : List Char) : Ends (afterMember ms ++ rest) := by
  cases ms <;> rintro c ⟨⟩ <;> decide

theorem toList_intercalate_comma_cons (x : String) (xs : List String) :
    (",".intercalate (x :: xs)).toList = x.toList ++ xs.flatMap fun y => ',' :: y.toList := by
  induction xs generalizing x with
  | nil => simp
  | cons y rest ih =>
    rw [String.intercalate_cons_cons, String.toList_append, String.toList_append, ih y]
    simp

theorem toList_compact_arr (v : Value) (vs : List Value) :
    (compact (.arr (v :: vs))).toList = '[' :: (v.compact.toList ++ afterItem vs) := by
  have hafter : ∀ vs : List Value, ((compactItems vs).flatMap fun y => ',' :: y.toList) ++ [']'] = afterItem vs := by
    intro vs
    induction vs with
    | nil => rfl
    | cons w rest ih =>
      rw [compactItems, List.flatMap_cons, List.append_assoc, ih]
      rfl
  rw [compact, compactItems, String.toList_append, String.toList_append, toList_intercalate_comma_cons,
    List.append_assoc, List.append_assoc]
  exact congrArg (fun text => '[' :: (v.compact.toList ++ text)) (hafter vs)

theorem toList_compact_obj (m : String × Value) (ms : List (String × Value)) :
    (compact (.obj (m :: ms))).toList = '\x7b' :: ((compactMember m).toList ++ afterMember ms) := by
  have hafter : ∀ ms : List (String × Value),
      ((compactMembers ms).flatMap fun y => ',' :: y.toList) ++ ['\x7d'] = afterMember ms := by
    intro ms
    induction ms with
    | nil => rfl
    | cons m rest ih =>
      rw [compactMembers, List.flatMap_cons, List.append_assoc, ih]
      rfl
  rw [compact, compactMembers, String.toList_append, String.toList_append, toList_intercalate_comma_cons,
    List.append_assoc, List.append_assoc]
  exact congrArg (fun text => '\x7b' :: ((compactMember m).toList ++ text)) (hafter ms)

theorem toList_compactMember (k : String) (v : Value) :
    (compactMember (k, v)).toList = (quoted k).toList ++ ':' :: v.compact.toList := by
  rw [compactMember, String.toList_append, String.toList_append, List.append_assoc]
  rfl

/-! ### Strings and numbers -/

theorem toList_quoted (s : String) (rest : List Char) :
    (quoted s).toList ++ rest = '"' :: (s.toList.flatMap escapeChar ++ '"' :: rest) := by
  simp [quoted]

/-- A string ends with its closing quote. -/
theorem quoted_append_inj {s s' : String} {r r' : List Char} (h : (quoted s).toList ++ r = (quoted s').toList ++ r') :
    s = s' ∧ r = r' := by
  rw [toList_quoted, toList_quoted] at h
  have htext := List.tail_eq_of_cons_eq h
  have hlt : s.toList.length < s.toList.length + s'.toList.length + 1 := by omega
  have hlt' : s'.toList.length < s.toList.length + s'.toList.length + 1 := by omega
  have hread := Token.readText_flatMap_escapeChar hlt [] r
  have hskip := Token.skipText_flatMap_escapeChar hlt r
  rw [htext] at hread hskip
  rw [Token.readText_flatMap_escapeChar hlt'] at hread
  rw [Token.skipText_flatMap_escapeChar hlt'] at hskip
  refine ⟨?_, (Except.ok.inj hskip).symm⟩
  simpa using (Except.ok.inj hread).symm

/-- The characters of a number. -/
def isNumeral (c : Char) : Bool := c.isDigit || c == '-'

theorem isNumeral_of_mem {n : Int} {c : Char} (h : c ∈ (toString n).toList) : isNumeral c = true := by
  have hdigits : ∀ k : Nat, c ∈ k.repr.toList → isNumeral c = true := fun k hk => by
    rw [Nat.toList_repr] at hk
    simp [isNumeral, Nat.isDigit_of_mem_toDigits (by decide) (by decide) hk]
  rw [Int.toString_eq_repr, Int.repr_eq_if] at h
  split at h
  · exact hdigits _ h
  · rw [String.toList_append, List.mem_append] at h
    rcases h with h | h
    · obtain rfl : c = '-' := List.mem_singleton.mp h
      rfl
    · exact hdigits _ h

/-- The number that a sign and digits state. -/
def stated : List Char → Int
  | '-' :: ds => -(Nat.ofDigitChars 10 ds 0 : Nat)
  | ds => (Nat.ofDigitChars 10 ds 0 : Nat)

theorem stated_toString (n : Int) : stated (toString n).toList = n := by
  rw [Int.toString_eq_repr, Int.repr_eq_if]
  split
  · have hdigits : ∀ c ∈ n.toNat.repr.toList, c.isDigit = true := fun c hc =>
      Nat.isDigit_of_mem_toDigits (by decide) (by decide) (Nat.toList_repr ▸ hc)
    have hvalue : (Nat.ofDigitChars 10 n.toNat.repr.toList 0 : Int) = n := by
      rw [Nat.toList_repr, Nat.ofDigitChars_ten_toDigits]
      omega
    unfold stated
    split
    · rename_i heq
      rw [heq] at hdigits
      exact absurd (hdigits '-' List.mem_cons_self) (by decide)
    · exact hvalue
  · rw [String.toList_append, Nat.toList_repr]
    simp only [String.reduceToList, List.cons_append, List.nil_append, stated, Nat.ofDigitChars_ten_toDigits]
    omega

theorem toList_toString_ne_nil (n : Int) : (toString n).toList ≠ [] := by
  rw [Int.toString_eq_repr, Int.repr_eq_if]
  split
  · rw [Nat.toList_repr]
    exact Nat.toDigits_ne_nil
  · rw [String.toList_append]
    exact List.cons_ne_nil _ _

theorem int_append_inj {n m : Int} {r r' : List Char} (hr : Ends r) (hr' : Ends r')
    (h : (toString n).toList ++ r = (toString m).toList ++ r') : n = m ∧ r = r' := by
  have hends : ∀ {r : List Char}, Ends r → r.takeWhile isNumeral = [] := fun {r} hr => by
    cases r with
    | nil => rfl
    | cons c rest =>
      have hc := hr.head (p := fun c => isNumeral c = false) rfl rfl rfl
      simp [hc]
  have htext := congrArg (List.takeWhile isNumeral) h
  rw [List.takeWhile_append_of_pos fun _ => isNumeral_of_mem, List.takeWhile_append_of_pos fun _ => isNumeral_of_mem,
    hends hr, hends hr', List.append_nil, List.append_nil] at htext
  refine ⟨?_, ?_⟩
  · rw [← stated_toString n, htext, stated_toString]
  · rw [htext] at h
    exact List.append_cancel_left h

/-! ### Forms of values -/

/-- The form of a value, by its constructor. -/
def form : Value → Nat
  | null => 0
  | bool _ => 1
  | int _ => 2
  | str _ => 3
  | arr _ => 4
  | obj _ => 5

/-- The form of the value that begins with a character. -/
def formOf (c : Char) : Nat :=
  if c = 'n' then 0
  else if c = 't' ∨ c = 'f' then 1
  else if c = '"' then 3
  else if c = '[' then 4
  else if c = '\x7b' then 5
  else if isNumeral c then 2
  else 6

theorem formOf_of_isNumeral {c : Char} (h : isNumeral c = true) : formOf c = 2 := by
  have hne : ∀ {d : Char}, isNumeral d = false → c ≠ d := fun hd heq => by simp [← heq, h] at hd
  simp [formOf, h, hne (d := 'n') rfl, hne (d := 't') rfl, hne (d := 'f') rfl, hne (d := '"') rfl, hne (d := '[') rfl,
    hne (d := '\x7b') rfl]

theorem exists_head (v : Value) : ∃ c cs, v.compact.toList = c :: cs ∧ formOf c = v.form := by
  cases v with
  | null => exact ⟨_, _, rfl, rfl⟩
  | bool b => cases b <;> exact ⟨_, _, rfl, rfl⟩
  | int n =>
    obtain ⟨c, cs, htext⟩ := List.exists_cons_of_ne_nil (toList_toString_ne_nil n)
    refine ⟨c, cs, htext, formOf_of_isNumeral (isNumeral_of_mem (n := n) ?_)⟩
    exact htext ▸ List.mem_cons_self
  | str s => exact ⟨'"', _, by rw [compact, ← List.append_nil (quoted s).toList, toList_quoted], rfl⟩
  | arr items =>
    cases items with
    | nil => exact ⟨_, _, rfl, rfl⟩
    | cons v vs => exact ⟨_, _, toList_compact_arr v vs, rfl⟩
  | obj members =>
    cases members with
    | nil => exact ⟨_, _, rfl, rfl⟩
    | cons m ms => exact ⟨_, _, toList_compact_obj m ms, rfl⟩

/-- No value begins with a closing bracket. -/
theorem compact_append_ne (v : Value) (r r' : List Char) : v.compact.toList ++ r ≠ ']' :: r' := fun h => by
  obtain ⟨c, cs, hv, hform⟩ := v.exists_head
  rw [hv, List.cons_append] at h
  rw [List.head_eq_of_cons_eq h] at hform
  cases v <;> simp [formOf, form, isNumeral] at hform

theorem form_eq_of_append_eq {v w : Value} {r r' : List Char} (h : v.compact.toList ++ r = w.compact.toList ++ r') :
    v.form = w.form := by
  obtain ⟨c, cs, hv, hform⟩ := v.exists_head
  obtain ⟨d, ds, hw, hform'⟩ := w.exists_head
  rw [hv, hw, List.cons_append, List.cons_append] at h
  rw [← hform, ← hform', List.head_eq_of_cons_eq h]

/-! ### Reading in one way -/

/-- A value, and the text behind it, can be told from their text. -/
def Legible (v : Value) : Prop := ∀ {w : Value} {r r' : List Char}, Ends r → Ends r' →
  v.compact.toList ++ r = w.compact.toList ++ r' → v = w ∧ r = r'

theorem afterItem_append_inj {vs ws : List Value} (hvs : ∀ v ∈ vs, Legible v) {r r' : List Char}
    (h : afterItem vs ++ r = afterItem ws ++ r') : vs = ws ∧ r = r' := by
  induction vs generalizing ws with
  | nil =>
    cases ws with
    | nil => exact ⟨rfl, List.append_cancel_left h⟩
    | cons w ws => exact absurd (List.head_eq_of_cons_eq h) (by decide)
  | cons v vs ih =>
    cases ws with
    | nil => exact absurd (List.head_eq_of_cons_eq h) (by decide)
    | cons w ws =>
      rw [afterItem, afterItem, List.cons_append, List.cons_append, List.append_assoc, List.append_assoc] at h
      obtain ⟨rfl, hafter⟩ := hvs v List.mem_cons_self (ends_afterItem vs r) (ends_afterItem ws r')
        (List.tail_eq_of_cons_eq h)
      obtain ⟨rfl, hrest⟩ := ih (fun u hu => hvs u (List.mem_cons_of_mem v hu)) hafter
      exact ⟨rfl, hrest⟩

theorem items_append_inj {vs ws : List Value} (hvs : ∀ v ∈ vs, Legible v) {r r' : List Char}
    (h : (compact (.arr vs)).toList ++ r = (compact (.arr ws)).toList ++ r') : vs = ws ∧ r = r' := by
  cases vs with
  | nil =>
    cases ws with
    | nil => exact ⟨rfl, List.append_cancel_left h⟩
    | cons w ws =>
      rw [toList_compact_arr, List.cons_append, List.append_assoc] at h
      exact absurd (List.tail_eq_of_cons_eq h).symm (compact_append_ne w _ _)
  | cons v vs =>
    cases ws with
    | nil =>
      rw [toList_compact_arr, List.cons_append, List.append_assoc] at h
      exact absurd (List.tail_eq_of_cons_eq h) (compact_append_ne v _ _)
    | cons w ws =>
      rw [toList_compact_arr, toList_compact_arr] at h
      exact afterItem_append_inj hvs (congrArg (',' :: ·) (List.tail_eq_of_cons_eq h))

theorem member_append_inj {m n : String × Value} (hm : Legible m.2) {r r' : List Char} (hr : Ends r) (hr' : Ends r')
    (h : (compactMember m).toList ++ r = (compactMember n).toList ++ r') : m = n ∧ r = r' := by
  obtain ⟨k, v⟩ := m
  obtain ⟨l, w⟩ := n
  rw [toList_compactMember, toList_compactMember, List.append_assoc, List.append_assoc, List.cons_append,
    List.cons_append] at h
  obtain ⟨rfl, hvalue⟩ := quoted_append_inj h
  obtain ⟨rfl, hrest⟩ := hm hr hr' (List.tail_eq_of_cons_eq hvalue)
  exact ⟨rfl, hrest⟩

theorem afterMember_append_inj {ms ns : List (String × Value)} (hms : ∀ m ∈ ms, Legible m.2) {r r' : List Char}
    (h : afterMember ms ++ r = afterMember ns ++ r') : ms = ns ∧ r = r' := by
  induction ms generalizing ns with
  | nil =>
    cases ns with
    | nil => exact ⟨rfl, List.append_cancel_left h⟩
    | cons n ns => exact absurd (List.head_eq_of_cons_eq h) (by decide)
  | cons m ms ih =>
    cases ns with
    | nil => exact absurd (List.head_eq_of_cons_eq h) (by decide)
    | cons n ns =>
      rw [afterMember, afterMember, List.cons_append, List.cons_append, List.append_assoc, List.append_assoc] at h
      obtain ⟨rfl, hafter⟩ := member_append_inj (hms m List.mem_cons_self) (ends_afterMember ms r)
        (ends_afterMember ns r') (List.tail_eq_of_cons_eq h)
      obtain ⟨rfl, hrest⟩ := ih (fun u hu => hms u (List.mem_cons_of_mem m hu)) hafter
      exact ⟨rfl, hrest⟩

theorem members_append_inj {ms ns : List (String × Value)} (hms : ∀ m ∈ ms, Legible m.2) {r r' : List Char}
    (h : (compact (.obj ms)).toList ++ r = (compact (.obj ns)).toList ++ r') : ms = ns ∧ r = r' := by
  -- A brace closes the object, or the first key begins with a quote.
  cases ms with
  | nil =>
    cases ns with
    | nil => exact ⟨rfl, List.append_cancel_left h⟩
    | cons n ns =>
      rw [toList_compact_obj, toList_compactMember, List.cons_append, List.append_assoc, List.append_assoc,
        toList_quoted] at h
      exact absurd (List.head_eq_of_cons_eq (List.tail_eq_of_cons_eq h)) (by decide)
  | cons m ms =>
    cases ns with
    | nil =>
      rw [toList_compact_obj, toList_compactMember, List.cons_append, List.append_assoc, List.append_assoc,
        toList_quoted] at h
      exact absurd (List.head_eq_of_cons_eq (List.tail_eq_of_cons_eq h)) (by decide)
    | cons n ns =>
      rw [toList_compact_obj, toList_compact_obj] at h
      exact afterMember_append_inj hms (congrArg (',' :: ·) (List.tail_eq_of_cons_eq h))

theorem legible (v : Value) : Legible v := by
  intro w r r' hr hr' h
  have hform := form_eq_of_append_eq h
  induction v using induct generalizing w r r' with
  | null =>
    cases w with
    | null => exact ⟨rfl, List.append_cancel_left h⟩
    | _ => simp [form] at hform
  | bool b =>
    cases w with
    | bool b' =>
      cases b <;> cases b' <;> simp [compact] at h
      · exact ⟨rfl, h⟩
      · exact ⟨rfl, h⟩
    | _ => simp [form] at hform
  | int n =>
    cases w with
    | int m =>
      obtain ⟨rfl, hrest⟩ := int_append_inj hr hr' h
      exact ⟨rfl, hrest⟩
    | _ => simp [form] at hform
  | str s =>
    cases w with
    | str s' =>
      obtain ⟨rfl, hrest⟩ := quoted_append_inj h
      exact ⟨rfl, hrest⟩
    | _ => simp [form] at hform
  | arr items ih =>
    cases w with
    | arr items' =>
      have hitems : ∀ v ∈ items, Legible v := fun v hv _ _ _ hr hr' h => ih v hv hr hr' h (form_eq_of_append_eq h)
      obtain ⟨rfl, hrest⟩ := items_append_inj hitems h
      exact ⟨rfl, hrest⟩
    | _ => simp [form] at hform
  | obj members ih =>
    cases w with
    | obj members' =>
      have hmembers : ∀ m ∈ members, Legible m.2 := fun m hm _ _ _ hr hr' h =>
        ih m hm hr hr' h (form_eq_of_append_eq h)
      obtain ⟨rfl, hrest⟩ := members_append_inj hmembers h
      exact ⟨rfl, hrest⟩
    | _ => simp [form] at hform

theorem compact_injective : Function.Injective compact := fun v _ h =>
  (v.legible ends_nil ends_nil (congrArg (·.toList ++ []) h)).1

end SchemaIr.Json.Value
