import SchemaIr.Bounds
import SchemaIr.Decimal.Shortest
import SchemaIr.Json.Error

/-! # JSON numbers

A number in a JSON text is an integer if it has neither fraction nor exponent and fits 64 bits, unsigned
without a sign and signed with one. Any other number is a decimal, computed from its first digits, as many
as fit 64 bits unsigned, and a power of ten, in floating-point arithmetic. -/

namespace SchemaIr.Json

/-- A number in a JSON text. -/
inductive Number
  | whole (n : Int)
  /-- A number that is not an integer. -/
  | decimal (x : Float)
  deriving Repr

namespace Number

/-- A digit's value. -/
def digitValue (c : Char) : Nat := c.toNat - '0'.toNat

/-- Takes digits into a significand while it fits 64 bits; tells how many were taken and how many not. -/
def accumulate (significand : Nat) (taken : Nat) : List Char → Nat × Nat × Nat
  | [] => (significand, taken, 0)
  | c :: cs =>
    let next := significand * 10 + digitValue c
    if next ≤ Bounds.maxNat64 then accumulate next (taken + 1) cs else (significand, taken, cs.length + 1)

/-- `significand · 10 ^ exponent` in floating-point arithmetic; too large a number is refused. The power is
    applied in steps of at most `10 ^ 308`. -/
def scaled (x : Float) (exponent : Int) : Nat → Except Error Float
  | 0 => .ok x
  | fuel + 1 =>
    if exponent.natAbs ≤ 308 then
      let power := Float.ofScientific 1 false exponent.natAbs
      if 0 ≤ exponent then
        let y := x * power
        if y.isInf then .error .numberTooLarge else .ok y
      else .ok (x / power)
    else if x == 0.0 then .ok x
    else if 0 ≤ exponent then .error .numberTooLarge
    else scaled (x / Float.ofScientific 1 false 308) (exponent + 308) fuel

/-- The largest exponent that is read digit by digit. -/
def maxExponent : Nat := 2147483647

/-- The decimal with a significand, an exponent and a sign. -/
def ofParts (negative : Bool) (significand : Nat) (exponent : Int) : Except Error Number := do
  let x ← scaled (Float.ofNat significand) exponent 5
  pure (.decimal (if negative then -x else x))

/-- The written parts of a number: the digits before the point, those after it, and the exponent with its
    sign. -/
structure Written where
  negative : Bool
  whole : List Char
  fraction : Option (List Char)
  exponent : Option (Bool × List Char)

/-- The exponent that a list of digits states; `none` if it is too large to be read. -/
def exponent? (digits : List Char) : Option Nat :=
  let n := digits.foldl (fun n c => min (n * 10 + digitValue c) (maxExponent + 1)) 0
  if n ≤ maxExponent then some n else none

/-- The number that is written. -/
def ofWritten (w : Written) : Except Error Number :=
  let (significand, _, left) := accumulate 0 0 w.whole
  match w.fraction, w.exponent with
  | none, none =>
    if left ≠ 0 then ofParts w.negative significand left
    else if !w.negative then .ok (.whole significand)
    else if significand = 0 ∨ -(significand : Int) < Bounds.minInt64 then ofParts true significand 0
    else .ok (.whole (-(significand : Int)))
  | fraction, exponent =>
    let (significand, taken, _) := accumulate significand 0 (fraction.getD [])
    let start := (left : Int) - taken
    match exponent with
    | none => ofParts w.negative significand start
    | some (down, digits) =>
      match exponent? digits with
      | some e => ofParts w.negative significand (if down then start - e else start + e)
      | none =>
        if significand ≠ 0 ∧ !down then .error .numberTooLarge
        else .ok (.decimal (if w.negative then -0.0 else 0.0))

/-- What is found where a number stands that the document has no use for. -/
def found : Number → Found
  | whole n => .int n
  | decimal x => .decimal (Decimal.pointed x)

end Number

end SchemaIr.Json
