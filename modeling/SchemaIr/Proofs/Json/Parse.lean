import SchemaIr.Json.Source
import SchemaIr.Proofs.Json.Scan

/-! # Compact texts as sources

A compact text is followed to its end as the value it was written for, without faults (`Source.ofText_compact`), so far
as the numbers in it are those of 64 bits. -/

namespace SchemaIr.Json
open Value (moreItemTokens itemTokens memberTokens moreMemberTokens tokensOfMember)

/-- No value begins with the bracket that closes an array. -/
theorem Value.exists_tokens_eq (v : Value) : ∃ t ts, v.tokens = t :: ts ∧ t ≠ .mark ']' := by
  cases v with
  | null => exact ⟨_, _, rfl, by simp⟩
  | bool b => exact ⟨_, _, rfl, by simp⟩
  | int n => exact ⟨_, _, rfl, by simp⟩
  | str s => exact ⟨_, _, rfl, by simp⟩
  | arr items => exact ⟨_, _, rfl, by simp⟩
  | obj members => exact ⟨_, _, rfl, by simp⟩

theorem Value.length_tokens_pos (v : Value) : 0 < v.tokens.length := by
  obtain ⟨t, ts, htokens, -⟩ := v.exists_tokens_eq
  rw [htokens]
  exact Nat.succ_pos _

/-- The tokens of a value are followed as its source, and what stands behind them stays. -/
def Parsed (v : Value) : Prop := ∀ (fuel : Nat) (rest : List Token), 2 * v.tokens.length ≤ fuel →
  Source.parse fuel (v.tokens ++ rest) = (Source.ofValue v, rest)

variable {fuel : Nat} {rest : List Token}

/-! ### Arrays -/

namespace Items

theorem parseMore_tokens {vs : List Value} (h : ∀ v ∈ vs, Parsed v) (hfuel : 2 * (moreItemTokens vs).length ≤ fuel) :
    parseMore fuel (moreItemTokens vs ++ rest) = (ofValues vs, rest) := by
  induction vs generalizing fuel with
  | nil =>
    rw [moreItemTokens, List.length_singleton] at hfuel
    obtain ⟨fuel, rfl⟩ : ∃ n, fuel = n + 1 := ⟨fuel - 1, by omega⟩
    rfl
  | cons v vs ih =>
    rw [moreItemTokens, List.length_cons, List.length_append] at hfuel
    obtain ⟨fuel, rfl⟩ : ∃ n, fuel = n + 1 := ⟨fuel - 1, by omega⟩
    have hvalue := h v List.mem_cons_self fuel (moreItemTokens vs ++ rest) (by omega)
    have hmore := @ih fuel (fun w hw => h w (List.mem_cons_of_mem v hw)) (by omega)
    obtain ⟨t, ts, htokens, hopen⟩ := v.exists_tokens_eq
    rw [moreItemTokens, List.cons_append, List.append_assoc]
    rw [htokens, List.cons_append] at hvalue ⊢
    simp [parseMore, hopen, hvalue, hmore, ofValues]

theorem parse_tokens {vs : List Value} (h : ∀ v ∈ vs, Parsed v) (hfuel : 2 * (itemTokens vs).length ≤ fuel) :
    parse fuel (itemTokens vs ++ rest) = (ofValues vs, rest) := by
  cases vs with
  | nil =>
    rw [itemTokens, List.length_singleton] at hfuel
    obtain ⟨fuel, rfl⟩ : ∃ n, fuel = n + 1 := ⟨fuel - 1, by omega⟩
    rfl
  | cons v vs =>
    have hpos : 0 < (moreItemTokens vs).length := by cases vs <;> exact Nat.succ_pos _
    have hvaluePos := v.length_tokens_pos
    rw [itemTokens, List.length_append] at hfuel
    obtain ⟨fuel, rfl⟩ : ∃ n, fuel = n + 1 := ⟨fuel - 1, by omega⟩
    have hvalue := h v List.mem_cons_self fuel (moreItemTokens vs ++ rest) (by omega)
    have hmore := @parseMore_tokens fuel rest vs (fun w hw => h w (List.mem_cons_of_mem v hw)) (by omega)
    obtain ⟨t, ts, htokens, hopen⟩ := v.exists_tokens_eq
    rw [itemTokens, List.append_assoc]
    rw [htokens, List.cons_append] at hvalue ⊢
    simp [parse, hopen, hvalue, hmore, ofValues]

end Items

/-! ### Objects -/

namespace Members

theorem parseMember_tokens {m : String × Value} (h : Parsed m.2) {ms : List (String × Value)}
    (hmore : ∀ {fuel}, 2 * (moreMemberTokens ms).length ≤ fuel →
      parseMore fuel (moreMemberTokens ms ++ rest) = (ofPairs ms, rest))
    (hfuel : 2 * (tokensOfMember m ++ moreMemberTokens ms).length ≤ fuel + 1) :
    parseMember fuel (tokensOfMember m ++ moreMemberTokens ms ++ rest) = (ofPairs (m :: ms), rest) := by
  obtain ⟨k, v⟩ := m
  have h : Parsed v := h
  rw [tokensOfMember, List.length_append, List.length_cons, List.length_cons] at hfuel
  obtain ⟨fuel, rfl⟩ : ∃ n, fuel = n + 1 := ⟨fuel - 1, by omega⟩
  have hvalue := h fuel (moreMemberTokens ms ++ rest) (by omega)
  have hmore := @hmore fuel (by omega)
  simp [tokensOfMember, parseMember, hvalue, hmore, ofPairs, ofPair]

theorem parseMore_tokens {ms : List (String × Value)} (h : ∀ m ∈ ms, Parsed m.2)
    (hfuel : 2 * (moreMemberTokens ms).length ≤ fuel) :
    parseMore fuel (moreMemberTokens ms ++ rest) = (ofPairs ms, rest) := by
  induction ms generalizing fuel with
  | nil =>
    rw [moreMemberTokens, List.length_singleton] at hfuel
    obtain ⟨fuel, rfl⟩ : ∃ n, fuel = n + 1 := ⟨fuel - 1, by omega⟩
    rfl
  | cons m ms ih =>
    rw [moreMemberTokens, List.length_cons] at hfuel
    obtain ⟨fuel, rfl⟩ : ∃ n, fuel = n + 1 := ⟨fuel - 1, by omega⟩
    have hmember := @parseMember_tokens fuel rest m (h m List.mem_cons_self) ms
      (ih fun n hn => h n (List.mem_cons_of_mem m hn)) (by omega)
    obtain ⟨k, v⟩ := m
    exact hmember

theorem parse_tokens {ms : List (String × Value)} (h : ∀ m ∈ ms, Parsed m.2)
    (hfuel : 2 * (memberTokens ms).length ≤ fuel) :
    parse fuel (memberTokens ms ++ rest) = (ofPairs ms, rest) := by
  cases ms with
  | nil =>
    rw [memberTokens, List.length_singleton] at hfuel
    obtain ⟨fuel, rfl⟩ : ∃ n, fuel = n + 1 := ⟨fuel - 1, by omega⟩
    rfl
  | cons m ms =>
    rw [memberTokens] at hfuel ⊢
    have hpos : 0 < (tokensOfMember m ++ moreMemberTokens ms).length := by
      obtain ⟨k, v⟩ := m
      exact Nat.succ_pos _
    obtain ⟨fuel, rfl⟩ : ∃ n, fuel = n + 1 := ⟨fuel - 1, by omega⟩
    have hmember := @parseMember_tokens fuel rest m (h m List.mem_cons_self) ms
      (fun hfuel => parseMore_tokens (fun n hn => h n (List.mem_cons_of_mem m hn)) hfuel) (by omega)
    obtain ⟨k, v⟩ := m
    exact hmember

end Members

/-! ### Values and texts -/

theorem Parsed.of_succ {v : Value} (h : ∀ (fuel : Nat) (rest : List Token), 2 * v.tokens.length ≤ fuel + 1 →
    Source.parse (fuel + 1) (v.tokens ++ rest) = (Source.ofValue v, rest)) : Parsed v := by
  intro fuel rest hfuel
  have hpos := v.length_tokens_pos
  obtain ⟨fuel, rfl⟩ : ∃ n, fuel = n + 1 := ⟨fuel - 1, by omega⟩
  exact h fuel rest hfuel

theorem parsed (v : Value) : Parsed v := by
  induction v using Value.induct with
  | null => exact .of_succ fun _ _ _ => rfl
  | bool b => exact .of_succ fun _ _ _ => rfl
  | int n => exact .of_succ fun _ _ _ => rfl
  | str s => exact .of_succ fun _ _ _ => rfl
  | arr items ih =>
    refine .of_succ fun fuel rest hfuel => ?_
    rw [Value.tokens, List.length_cons] at hfuel
    have hitems := @Items.parse_tokens fuel rest items ih (by omega)
    simp [Value.tokens, Source.parse, hitems, Source.ofValue]
  | obj members ih =>
    refine .of_succ fun fuel rest hfuel => ?_
    rw [Value.tokens, List.length_cons] at hfuel
    have hmembers := @Members.parse_tokens fuel rest members ih (by omega)
    simp [Value.tokens, Source.parse, hmembers, Source.ofValue]

/-- Reading a compact text undoes writing it. -/
theorem Source.ofText_compact {v : Value} (h : v.Bounded) : ofText v.compact = (ofValue v, false) := by
  have hparse := parsed v (3 * v.tokens.length + 3) [] (by omega)
  rw [List.append_nil] at hparse
  rw [ofText, Token.ofText_compact h, hparse]
  rfl

end SchemaIr.Json
