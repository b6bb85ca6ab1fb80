import SchemaIr.Proofs.Json.Compact

/-! # The tokens of compact texts

A compact text is cut into the tokens that its value calls for (`Value.scans_compact`), so far as the numbers in it are
those of 64 bits. -/

namespace SchemaIr.Json
open Value (Ends)

/-! ### Numbers -/

namespace Number

theorem le_ofDigitChars (ds : List Char) (n : Nat) : n ≤ Nat.ofDigitChars 10 ds n := by
  induction ds generalizing n with
  | nil => exact Nat.le_refl n
  | cons d rest ih =>
    have hrest := ih (10 * n + (d.toNat - '0'.toNat))
    rw [Nat.ofDigitChars_cons]
    omega

/-- Digits of a number of 64 bits are all taken. -/
theorem accumulate_eq {ds : List Char} {n : Nat} (h : Nat.ofDigitChars 10 ds n ≤ Bounds.maxNat64) (taken : Nat) :
    accumulate n taken ds = (Nat.ofDigitChars 10 ds n, taken + ds.length, 0) := by
  induction ds generalizing n taken with
  | nil => rfl
  | cons d rest ih =>
    have hnext : n * 10 + digitValue d = 10 * n + (d.toNat - '0'.toNat) := by
      rw [digitValue]
      omega
    rw [Nat.ofDigitChars_cons] at h
    have hle := Nat.le_trans (le_ofDigitChars rest _) h
    rw [accumulate, hnext, if_pos hle, ih h, Nat.ofDigitChars_cons, List.length_cons]
    simp only [Prod.mk.injEq, and_true, true_and]
    omega

theorem ofWritten_toDigits {n : Nat} (h : n ≤ Bounds.maxNat64) :
    ofWritten ⟨false, Nat.toDigits 10 n, none, none⟩ = .ok (.whole n) := by
  have hvalue := @accumulate_eq (Nat.toDigits 10 n) 0 (by rwa [Nat.ofDigitChars_ten_toDigits]) 0
  rw [Nat.ofDigitChars_ten_toDigits] at hvalue
  simp [ofWritten, hvalue]

theorem ofWritten_neg_toDigits {n : Nat} (hpos : 0 < n) (h : Bounds.minInt64 ≤ -(n : Int)) :
    ofWritten ⟨true, Nat.toDigits 10 n, none, none⟩ = .ok (.whole (-(n : Int))) := by
  have hle : n ≤ Bounds.maxNat64 := by
    simp only [Bounds.minInt64, Bounds.maxNat64] at *
    omega
  have hvalue := @accumulate_eq (Nat.toDigits 10 n) 0 (by rwa [Nat.ofDigitChars_ten_toDigits]) 0
  rw [Nat.ofDigitChars_ten_toDigits] at hvalue
  simp [ofWritten, hvalue, Nat.ne_of_gt hpos, Int.not_lt.mpr h]

end Number

namespace Token

/-- Only zero is written with a leading zero. -/
theorem head_toDigits_ne {n : Nat} (h : n ≠ 0) : (Nat.toDigits 10 n).head? ≠ some '0' := by
  induction n using Nat.strongRecOn with
  | ind n ih =>
    have hdigit : ∀ d < 10, d ≠ 0 → Nat.digitChar d ≠ '0' := by decide
    rw [Nat.toDigits_eq_if (by decide)]
    split
    · simpa using hdigit n ‹_› h
    · obtain ⟨c, cs, hdigits⟩ := List.exists_cons_of_ne_nil (@Nat.toDigits_ne_nil (n / 10) 10)
      have hhead := ih (n / 10) (by omega) (by omega)
      rw [hdigits] at hhead ⊢
      exact hhead

theorem digits_append {ds rest : List Char} (hds : ∀ c ∈ ds, c.isDigit = true) (hrest : Ends rest) :
    digits (ds ++ rest) = (ds, rest) := by
  rw [digits, List.takeWhile_append_of_pos hds, List.dropWhile_append_of_pos hds]
  cases rest with
  | nil => simp
  | cons c rest =>
    have hc := hrest.head (p := fun c => c.isDigit = false) rfl rfl rfl
    simp [hc]

theorem fractionPart_of_ends {rest : List Char} (h : Ends rest) : fractionPart rest = .ok (none, rest) := by
  unfold fractionPart
  split
  · exact absurd rfl (h.head (p := (· ≠ '.')) (by decide) (by decide) (by decide))
  · rfl

theorem exponentPart_of_ends {rest : List Char} (h : Ends rest) : exponentPart rest = .ok (none, rest) := by
  unfold exponentPart
  split
  · rw [if_neg (h.head (p := fun c => ¬(c = 'e' ∨ c = 'E')) (by decide) (by decide) (by decide))]
  · rfl

theorem number?_toDigits (negative : Bool) (n : Nat) {rest : List Char} (hrest : Ends rest) :
    number? negative (Nat.toDigits 10 n ++ rest) =
      .ok (.number (Number.ofWritten ⟨negative, Nat.toDigits 10 n, none, none⟩), rest) := by
  have hdigits : digits (Nat.toDigits 10 n ++ rest) = (Nat.toDigits 10 n, rest) :=
    digits_append (fun c hc => Nat.isDigit_of_mem_toDigits (by decide) (by decide) hc) hrest
  unfold number?
  rw [hdigits]
  split
  · rename_i heq
    exact absurd (Prod.mk.inj heq).1 Nat.toDigits_ne_nil
  · rename_i heq
    have hzero := (Prod.mk.inj heq).1
    by_cases hn : n = 0
    · subst hn
      cases hzero
    · exact absurd (congrArg List.head? hzero) (head_toDigits_ne hn)
  · rename_i heq
    cases heq
    simp [fractionPart_of_ends hrest, exponentPart_of_ends hrest, bind, Except.bind, pure, Except.pure]

/-! ### Scanning -/

/-- A text is cut into tokens, and the text behind it stays. -/
def Scans (cs : List Char) (ts : List Token) (rest : List Char) : Prop :=
  ∀ fuel, (cs ++ rest).length ≤ fuel → ∃ left, rest.length ≤ left ∧ scan fuel (cs ++ rest) = ts ++ scan left rest

variable {cs cs' rest : List Char} {ts ts' : List Token}

theorem Scans.append (h : Scans cs ts (cs' ++ rest)) (h' : Scans cs' ts' rest) :
    Scans (cs ++ cs') (ts ++ ts') rest := by
  intro fuel hfuel
  rw [List.append_assoc] at hfuel ⊢
  obtain ⟨left, hleft, hscan⟩ := h fuel hfuel
  obtain ⟨left', hleft', hscan'⟩ := h' left hleft
  exact ⟨left', hleft', by rw [hscan, hscan', List.append_assoc]⟩

theorem scans_of_first {c : Char} {t : Token} (hspace : isSpace c = false) (h : first c (cs ++ rest) = .ok (t, rest)) :
    Scans (c :: cs) [t] rest := by
  intro fuel hfuel
  rw [List.cons_append, List.length_cons, List.length_append] at hfuel
  obtain ⟨left, rfl⟩ : ∃ n, fuel = n + 1 := ⟨fuel - 1, by omega⟩
  refine ⟨left, by omega, ?_⟩
  simp [scan, hspace, h]

theorem scans_mark {c : Char} (h : c ∈ ['[', ']', '\x7b', '\x7d', ',', ':']) (rest : List Char) :
    Scans [c] [.mark c] rest := by
  refine scans_of_first ?_ (by rw [first, if_pos h]; rfl)
  simp only [List.mem_cons, List.not_mem_nil, or_false] at h
  rcases h with rfl | rfl | rfl | rfl | rfl | rfl <;> rfl

theorem scans_quoted (s : String) (rest : List Char) : Scans (Value.quoted s).toList [.text (.ok s)] rest := by
  have hlength : ∀ cs : List Char, cs.length ≤ (cs.flatMap Value.escapeChar).length := fun cs => by
    induction cs with
    | nil => exact Nat.le_refl _
    | cons c cs ih =>
      have hpos := List.length_pos_iff.mpr (escapeChar_ne_nil c)
      rw [List.flatMap_cons, List.length_append, List.length_cons]
      omega
  have htext : (Value.quoted s).toList = '"' :: (s.toList.flatMap Value.escapeChar ++ ['"']) := by simp [Value.quoted]
  rw [htext]
  refine scans_of_first rfl ?_
  have hle := hlength s.toList
  rw [List.append_assoc, List.singleton_append, first, if_neg (by decide), if_pos rfl,
    skipText_flatMap_escapeChar (by rw [List.length_append]; omega),
    readText_flatMap_escapeChar (by rw [List.length_append]; omega)]
  simp

theorem first_of_isDigit {c : Char} (h : c.isDigit = true) (cs : List Char) :
    isSpace c = false ∧ first c cs = number? false (c :: cs) := by
  have hne : ∀ {d : Char}, d.isDigit = false → c ≠ d := fun hd heq => by
    rw [heq, hd] at h
    cases h
  have hmark : c ∉ ['[', ']', '\x7b', '\x7d', ',', ':'] := by
    simp only [List.mem_cons, List.not_mem_nil, or_false, not_or]
    exact ⟨hne rfl, hne rfl, hne rfl, hne rfl, hne rfl, hne rfl⟩
  constructor
  · simp only [isSpace, Bool.or_eq_false_iff, beq_eq_false_iff_ne]
    exact ⟨⟨⟨hne rfl, hne rfl⟩, hne rfl⟩, hne rfl⟩
  · rw [first, if_neg hmark, if_neg (hne rfl), if_neg (hne rfl), if_pos h]

/-- A number is one token where nothing goes on with it. -/
theorem scans_int {n : Int} (h : Bounds.minInt64 ≤ n ∧ n ≤ Bounds.maxNat64) (hrest : Ends rest) :
    Scans (toString n).toList [.number (.ok (.whole n))] rest := by
  rw [Int.toString_eq_repr, Int.repr_eq_if]
  split
  · have hn : n.toNat ≤ Bounds.maxNat64 := by omega
    have hwhole : (n.toNat : Int) = n := by omega
    obtain ⟨c, cs, hdigits⟩ := List.exists_cons_of_ne_nil (@Nat.toDigits_ne_nil n.toNat 10)
    have hdigit : c.isDigit = true :=
      Nat.isDigit_of_mem_toDigits (by decide) (by decide) (hdigits ▸ List.mem_cons_self : c ∈ Nat.toDigits 10 n.toNat)
    have hnumber := number?_toDigits false n.toNat hrest
    rw [Number.ofWritten_toDigits hn, hwhole, hdigits, List.cons_append] at hnumber
    rw [Nat.toList_repr, hdigits]
    exact scans_of_first (first_of_isDigit hdigit []).1 ((first_of_isDigit hdigit _).2.trans hnumber)
  · have hpos : 0 < (-n).toNat := by omega
    have hwhole : -((-n).toNat : Int) = n := by omega
    have hnumber := number?_toDigits true (-n).toNat hrest
    rw [Number.ofWritten_neg_toDigits hpos (by omega), hwhole] at hnumber
    rw [String.toList_append, Nat.toList_repr]
    exact scans_of_first rfl hnumber

end Token

/-! ### Values -/

namespace Value
open Token (Scans scans_of_first scans_mark scans_quoted scans_int)

/-- All numbers in a value have 64 bits. -/
inductive Bounded : Value → Prop
  | null : Bounded null
  | bool (b : Bool) : Bounded (bool b)
  | int {n : Int} (h : Bounds.minInt64 ≤ n ∧ n ≤ Bounds.maxNat64) : Bounded (int n)
  | str (s : String) : Bounded (str s)
  | arr {items : List Value} (h : ∀ v ∈ items, Bounded v) : Bounded (arr items)
  | obj {members : List (String × Value)} (h : ∀ m ∈ members, Bounded m.2) : Bounded (obj members)

mutual

/-- The tokens of a value. -/
def tokens : Value → List Token
  | null => [.null]
  | bool b => [.bool b]
  | int n => [.number (.ok (.whole n))]
  | str s => [.text (.ok s)]
  | arr items => .mark '[' :: itemTokens items
  | obj members => .mark '\x7b' :: memberTokens members

/-- The tokens behind the opening bracket of an array. -/
def itemTokens : List Value → List Token
  | [] => [.mark ']']
  | v :: vs => tokens v ++ moreItemTokens vs

/-- The tokens behind an item of an array. -/
def moreItemTokens : List Value → List Token
  | [] => [.mark ']']
  | v :: vs => .mark ',' :: (tokens v ++ moreItemTokens vs)

/-- The tokens behind the opening bracket of an object. -/
def memberTokens : List (String × Value) → List Token
  | [] => [.mark '\x7d']
  | m :: ms => tokensOfMember m ++ moreMemberTokens ms

/-- The tokens behind a member of an object. -/
def moreMemberTokens : List (String × Value) → List Token
  | [] => [.mark '\x7d']
  | m :: ms => .mark ',' :: (tokensOfMember m ++ moreMemberTokens ms)

/-- The tokens of a member. -/
def tokensOfMember : String × Value → List Token
  | (k, v) => .text (.ok k) :: .mark ':' :: tokens v

end

theorem toList_compact_null : null.compact.toList = ['n', 'u', 'l', 'l'] := rfl
theorem toList_compact_false : (bool false).compact.toList = ['f', 'a', 'l', 's', 'e'] := rfl
theorem toList_compact_true : (bool true).compact.toList = ['t', 'r', 'u', 'e'] := rfl
theorem toList_compact_nil : (arr []).compact.toList = ['['] ++ [']'] := rfl
theorem toList_compact_empty : (obj []).compact.toList = ['\x7b'] ++ ['\x7d'] := rfl

theorem scans_afterItem {vs : List Value} (h : ∀ v ∈ vs, ∀ rest, Ends rest → Scans v.compact.toList v.tokens rest)
    (rest : List Char) : Scans (afterItem vs) (moreItemTokens vs) rest := by
  induction vs with
  | nil => exact scans_mark (by simp) rest
  | cons v vs ih =>
    have hrest := ih fun w hw => h w (List.mem_cons_of_mem v hw)
    have hcomma : Scans [','] [.mark ','] ((v.compact.toList ++ afterItem vs) ++ rest) := scans_mark (by simp) _
    exact hcomma.append ((h v List.mem_cons_self _ (ends_afterItem vs rest)).append hrest)

theorem scans_member {m : String × Value} (h : ∀ rest, Ends rest → Scans m.2.compact.toList m.2.tokens rest)
    {rest : List Char} (hrest : Ends rest) : Scans (compactMember m).toList (tokensOfMember m) rest := by
  obtain ⟨k, v⟩ := m
  have hcolon : Scans [':'] [.mark ':'] (v.compact.toList ++ rest) := scans_mark (by simp) _
  rw [toList_compactMember]
  exact (scans_quoted k _).append (hcolon.append (h rest hrest))

theorem scans_afterMember {ms : List (String × Value)}
    (h : ∀ m ∈ ms, ∀ rest, Ends rest → Scans m.2.compact.toList m.2.tokens rest) (rest : List Char) :
    Scans (afterMember ms) (moreMemberTokens ms) rest := by
  induction ms with
  | nil => exact scans_mark (by simp) rest
  | cons m ms ih =>
    have hrest := ih fun n hn => h n (List.mem_cons_of_mem m hn)
    have hcomma : Scans [','] [.mark ','] (((compactMember m).toList ++ afterMember ms) ++ rest) :=
      scans_mark (by simp) _
    exact hcomma.append ((scans_member (h m List.mem_cons_self) (ends_afterMember ms rest)).append hrest)

/-- A compact text is cut into the tokens of its value. -/
theorem scans_compact (v : Value) (h : v.Bounded) {rest : List Char} (hrest : Ends rest) :
    Scans v.compact.toList v.tokens rest := by
  induction v using induct generalizing rest with
  | null =>
    rw [toList_compact_null]
    exact scans_of_first rfl (by simp [Token.first, Token.word, Except.map])
  | bool b =>
    cases b with
    | false =>
      rw [toList_compact_false]
      exact scans_of_first rfl (by simp [Token.first, Token.word, Except.map])
    | true =>
      rw [toList_compact_true]
      exact scans_of_first rfl (by simp [Token.first, Token.word, Except.map])
  | int n =>
    cases h with
    | int hn => exact scans_int hn hrest
  | str s => exact scans_quoted s rest
  | arr items ih =>
    cases h with
    | arr hitems =>
      have hscans : ∀ v ∈ items, ∀ rest, Ends rest → Scans v.compact.toList v.tokens rest := fun v hv _ hr =>
        ih v hv (hitems v hv) hr
      cases items with
      | nil => exact toList_compact_nil ▸ (scans_mark (by simp) (']' :: rest)).append (scans_mark (by simp) rest)
      | cons v vs =>
        have hopen : Scans ['['] [.mark '['] ((v.compact.toList ++ afterItem vs) ++ rest) := scans_mark (by simp) _
        rw [toList_compact_arr]
        exact hopen.append ((hscans v List.mem_cons_self _ (ends_afterItem vs rest)).append
          (scans_afterItem (fun w hw => hscans w (List.mem_cons_of_mem v hw)) rest))
  | obj members ih =>
    cases h with
    | obj hmembers =>
      have hscans : ∀ m ∈ members, ∀ rest, Ends rest → Scans m.2.compact.toList m.2.tokens rest := fun m hm _ hr =>
        ih m hm (hmembers m hm) hr
      cases members with
      | nil => exact toList_compact_empty ▸ (scans_mark (by simp) ('\x7d' :: rest)).append (scans_mark (by simp) rest)
      | cons m ms =>
        have hopen : Scans ['\x7b'] [.mark '\x7b'] (((compactMember m).toList ++ afterMember ms) ++ rest) :=
          scans_mark (by simp) _
        rw [toList_compact_obj]
        exact hopen.append ((scans_member (hscans m List.mem_cons_self) (ends_afterMember ms rest)).append
          (scans_afterMember (fun n hn => hscans n (List.mem_cons_of_mem m hn)) rest))

end Value

theorem Token.ofText_compact {v : Value} (h : v.Bounded) : ofText v.compact = v.tokens := by
  have hscans := v.scans_compact h Value.ends_nil
  obtain ⟨left, -, hscan⟩ := hscans (v.compact.length + 1) (by rw [List.append_nil, String.length_toList]; omega)
  rw [List.append_nil] at hscan
  rw [ofText, hscan]
  cases left <;> exact List.append_nil _

end SchemaIr.Json
