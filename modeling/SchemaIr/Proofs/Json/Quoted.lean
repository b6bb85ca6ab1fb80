import SchemaIr.Json.Token
import SchemaIr.Json.Value

/-! # Written strings

A string that is written with its escapes is read and skipped up to its closing quote (`readText_flatMap_escapeChar`,
`skipText_flatMap_escapeChar`). -/

namespace SchemaIr.Json
open Value (escapeChar)

namespace Token

/-- The four digits by which the code point of a control character is written. -/
def controlDigits (n : Nat) : List Char := (if n < 0x10 then ['0', '0', '0'] else ['0', '0']) ++ Text.hex n

theorem controlDigits_spec : ∀ n < 0x20,
    (controlDigits n).length = 4 ∧ Text.ofRadix? 16 (controlDigits n) = some n := by
  decide +kernel

theorem hexNumber?_controlDigits {n : Nat} (h : n < 0x20) (rest : List Char) :
    Text.hexNumber? 4 (controlDigits n ++ rest) = some (n, rest) := by
  obtain ⟨hlength, hvalue⟩ := controlDigits_spec n h
  simp [Text.hexNumber?, List.take_left' hlength, List.drop_left' hlength, hlength, hvalue]

/-- The ways in which a character is written. -/
theorem escapeChar_cases (c : Char) :
    (∃ e, escapeChar c = ['\\', e] ∧ e ≠ 'u' ∧ shortEscape? e = some c) ∨
    (c.toNat < 0x20 ∧ escapeChar c = '\\' :: 'u' :: controlDigits c.toNat) ∨
    (0x20 ≤ c.toNat ∧ c ≠ '"' ∧ c ≠ '\\' ∧ escapeChar c = [c]) := by
  have eq_of_toNat {d : Char} (h : c.toNat = d.toNat) : c = d := Char.toNat_inj.mp h
  unfold escapeChar
  split
  · rename_i h
    rcases h with rfl | rfl
    · exact .inl ⟨'"', rfl, by decide, rfl⟩
    · exact .inl ⟨'\\', rfl, by decide, rfl⟩
  rename_i hquote
  split
  · rename_i h
    obtain rfl : c = '\x08' := eq_of_toNat h
    exact .inl ⟨'b', rfl, by decide, rfl⟩
  split
  · rename_i h
    obtain rfl : c = '\x0c' := eq_of_toNat h
    exact .inl ⟨'f', rfl, by decide, rfl⟩
  split
  · rename_i h
    exact .inl ⟨'n', rfl, by decide, h ▸ rfl⟩
  split
  · rename_i h
    exact .inl ⟨'r', rfl, by decide, h ▸ rfl⟩
  split
  · rename_i h
    exact .inl ⟨'t', rfl, by decide, h ▸ rfl⟩
  split
  · rename_i h
    exact .inr (.inl ⟨by omega, by rw [controlDigits, if_pos h]; rfl⟩)
  rename_i hlarge
  split
  · rename_i h
    exact .inr (.inl ⟨h, by rw [controlDigits, if_neg hlarge]; rfl⟩)
  · rename_i h
    obtain ⟨hquote, hslash⟩ := not_or.mp hquote
    exact .inr (.inr ⟨Nat.le_of_not_lt h, hquote, hslash, rfl⟩)

theorem escapeChar_ne_nil (c : Char) : escapeChar c ≠ [] := by
  rcases escapeChar_cases c with ⟨e, h, -⟩ | ⟨-, h⟩ | ⟨-, -, -, h⟩ <;> rw [h] <;> exact List.cons_ne_nil _ _

theorem codeEscape_controlDigits {n : Nat} (h : n < 0x20) (rest : List Char) :
    codeEscape (controlDigits n ++ rest) = .ok (Char.ofNat n, rest) := by
  rw [codeEscape, hexEscape, hexNumber?_controlDigits h]
  simp only [bind, Except.bind]
  rw [if_neg (by omega), if_pos (by omega)]
  rfl

theorem readText_escapeChar (fuel : Nat) (done : List Char) (c : Char) (rest : List Char) :
    readText (fuel + 1) done (escapeChar c ++ rest) = readText fuel (c :: done) rest := by
  rcases escapeChar_cases c with ⟨e, hwritten, hu, he⟩ | ⟨hcontrol, hwritten⟩ | ⟨hle, hquote, hslash, hwritten⟩
  · rw [hwritten, List.cons_append, List.cons_append, List.nil_append]
    simp [readText, he]
  · rw [hwritten, List.cons_append, List.cons_append]
    simp [readText, codeEscape_controlDigits hcontrol, bind, Except.bind]
  · rw [hwritten, List.cons_append, List.nil_append]
    simp [readText, hquote, hslash, Nat.not_lt.mpr hle]

/-- A written string is read up to its closing quote. -/
theorem readText_flatMap_escapeChar {fuel : Nat} {cs : List Char} (h : cs.length < fuel) (done rest : List Char) :
    readText fuel done (cs.flatMap escapeChar ++ '"' :: rest) = .ok (String.ofList (done.reverse ++ cs)) := by
  induction cs generalizing fuel done with
  | nil =>
    obtain ⟨fuel, rfl⟩ : ∃ n, fuel = n + 1 := ⟨fuel - 1, by simp at h; omega⟩
    simp [readText]
  | cons c cs ih =>
    obtain ⟨fuel, rfl⟩ : ∃ n, fuel = n + 1 := ⟨fuel - 1, by simp at h; omega⟩
    rw [List.flatMap_cons, List.append_assoc, readText_escapeChar, ih (by simpa using h)]
    simp

theorem skipText_escapeChar (fuel : Nat) (c : Char) (rest : List Char) :
    skipText (fuel + 1) (escapeChar c ++ rest) = skipText fuel rest := by
  rcases escapeChar_cases c with ⟨e, hwritten, hu, he⟩ | ⟨hcontrol, hwritten⟩ | ⟨hle, hquote, hslash, hwritten⟩
  · rw [hwritten, List.cons_append, List.cons_append, List.nil_append]
    simp [skipText, he]
  · rw [hwritten, List.cons_append, List.cons_append]
    simp [skipText, hexEscape, hexNumber?_controlDigits hcontrol, bind, Except.bind]
  · rw [hwritten, List.cons_append, List.nil_append]
    simp [skipText, hquote, hslash, Nat.not_lt.mpr hle]

/-- A written string is skipped up to its closing quote. -/
theorem skipText_flatMap_escapeChar {fuel : Nat} {cs : List Char} (h : cs.length < fuel) (rest : List Char) :
    skipText fuel (cs.flatMap escapeChar ++ '"' :: rest) = .ok rest := by
  induction cs generalizing fuel with
  | nil =>
    obtain ⟨fuel, rfl⟩ : ∃ n, fuel = n + 1 := ⟨fuel - 1, by simp at h; omega⟩
    simp [skipText]
  | cons c cs ih =>
    obtain ⟨fuel, rfl⟩ : ∃ n, fuel = n + 1 := ⟨fuel - 1, by simp at h; omega⟩
    rw [List.flatMap_cons, List.append_assoc, skipText_escapeChar, ih (by simpa using h)]

end Token

end SchemaIr.Json
