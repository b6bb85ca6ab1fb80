import SchemaIr.Decimal.Reading
import SchemaIr.Settings.Toml.Text
import SchemaIr.Settings.Value
import SchemaIr.Text.Pieces

/-! # Switches and numbers of settings files

The values of TOML that are neither strings nor moments, nor made of others. -/

namespace SchemaIr.Toml

/-- Digits in which single underscores may stand between two digits. -/
def digits? (isDigit : Char → Bool) (cs : List Char) : Option (List Char) :=
  if ((Text.piecesBy (· == '_') cs).all fun piece => !piece.isEmpty && piece.all isDigit) then
    some (cs.filter (· ≠ '_'))
  else none

/-- Decimal digits that do not begin with a zero, unless that is all. -/
def decimal? (cs : List Char) : Option (List Char) := do
  let ds ← digits? Char.isDigit cs
  if 1 < ds.length ∧ ds.head? = some '0' then none else some ds

/-- An integer without sign, in base 10, or with a mark in base 16, 8 or 2. -/
def natural? (cs : List Char) : Option Nat :=
  let marked (base : Nat) (cs : List Char) : Option Nat := do
    Text.ofRadix? base (← digits? (fun c => (Text.digitIn? base c).isSome) cs)
  match cs with
  | '0' :: 'x' :: cs => marked 16 cs
  | '0' :: 'o' :: cs => marked 8 cs
  | '0' :: 'b' :: cs => marked 2 cs
  | cs => (decimal? cs).map Text.ofDigits

/-- A signed integer of 64 bits. -/
def integer? (cs : List Char) : Option Int := do
  let (negative, rest) := Text.signed cs
  let n ← natural? rest
  let marked : Bool := match rest with
    | '0' :: c :: _ => !c.isDigit && c != '_'
    | _ => false
  let value : Int := if negative then -(n : Int) else n
  if (marked && rest != cs) || !Bounds.fitsInt64 value then none else some value

/-- The digits of a number before and after the point and those of its exponent. -/
def numberParts? (cs : List Char) : Option (List Char × List Char × Int) := do
  let isMark := fun c => c == 'e' || c == 'E'
  let front := cs.takeWhile fun c => !isMark c
  let exponent ← match cs.dropWhile fun c => !isMark c with
    | [] => some 0
    | _ :: es =>
      let (negative, ds) := Text.signed es
      (digits? Char.isDigit ds).map fun ds =>
        if negative then -(Text.ofDigits ds : Int) else Text.ofDigits ds
  match Text.piecesBy (· == '.') front with
  | [whole] => if front.length = cs.length then none else pure (← decimal? whole, [], exponent)
  | [whole, fraction] => pure (← decimal? whole, ← digits? Char.isDigit fraction, exponent)
  | _ => none

/-- A number with a point or an exponent, or one of the words for infinity and for no number. A positive
    number beyond the doubles is refused, a negative one is infinite. -/
def float? (cs : List Char) : Option Float := do
  let (negative, rest) := Text.signed cs
  let x ←
    if rest = ['i', 'n', 'f'] then some (1.0 / 0.0)
    else if rest = ['n', 'a', 'n'] then some (0.0 / 0.0)
    else do
      let (whole, fraction, exponent) ← numberParts? rest
      let x := Decimal.nearest (Text.ofDigits (whole ++ fraction)) (exponent - fraction.length)
      if x.isInf && !negative then none else some x
  pure (if negative then -x else x)

/-- A character of switches and numbers. -/
def isScalarChar (c : Char) : Bool := c.isAlphanum || c == '_' || c == '+' || c == '-' || c == '.'

/-- A switch or number. -/
def scalar? (cs : List Char) : Option (SettingValue × List Char) :=
  let word := cs.takeWhile isScalarChar
  let rest := cs.dropWhile isScalarChar
  if word = "true".toList then some (.bool true, rest)
  else if word = "false".toList then some (.bool false, rest)
  else
    match integer? word with
    | some n => some (.int n, rest)
    | none => (float? word).map fun x => (.float x, rest)

end SchemaIr.Toml
