/-! # Digits

Numbers as digits state them, in base ten or another one, and the characters that their code points name. -/

namespace SchemaIr.Text

/-- The value of a digit; letters, of either case, are digits from ten on. -/
def digitValue? (c : Char) : Option Nat :=
  if '0' ≤ c ∧ c ≤ '9' then some (c.toNat - '0'.toNat)
  else if 'a' ≤ c ∧ c ≤ 'z' then some (c.toNat - 'a'.toNat + 10)
  else if 'A' ≤ c ∧ c ≤ 'Z' then some (c.toNat - 'A'.toNat + 10)
  else none

/-- The value of a digit in a base. -/
def digitIn? (base : Nat) (c : Char) : Option Nat := (digitValue? c).filter (· < base)

/-- A digit in base sixteen. -/
def isHexDigit (c : Char) : Bool := (digitIn? 16 c).isSome

/-- The number that digits in a base state. -/
def ofRadix? (base : Nat) (ds : List Char) : Option Nat :=
  ds.foldlM (fun n c => (digitIn? base c).map (base * n + ·)) 0

/-- The number that decimal digits state. -/
def ofDigits (ds : List Char) : Nat := ds.foldl (fun n c => n * 10 + (c.toNat - '0'.toNat)) 0

/-- The number that so many hexadecimal digits state, with the text after them. -/
def hexNumber? (count : Nat) (cs : List Char) : Option (Nat × List Char) := do
  let ds := cs.take count
  let n ← ofRadix? 16 ds
  if ds.length = count then some (n, cs.drop count) else none

/-- The character with a code point of so many hexadecimal digits, with the text after them. -/
def codePoint? (count : Nat) (cs : List Char) : Option (Char × List Char) := do
  let (n, cs) ← hexNumber? count cs
  if n.isValidChar then some (Char.ofNat n, cs) else none

/-- Whether a text begins with a minus, and the text behind its sign. -/
def signed (cs : List Char) : Bool × List Char :=
  match cs with
  | '-' :: cs => (true, cs)
  | '+' :: cs => (false, cs)
  | cs => (false, cs)

end SchemaIr.Text
