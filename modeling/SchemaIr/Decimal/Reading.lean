import SchemaIr.Bounds
import SchemaIr.Text.Digits

/-! # Reading decimals

A decimal in a text stands for the floating-point number next to it. It has digits before or after a point,
or both, and may have an exponent; the words for infinity and for no number are numbers too. -/

namespace SchemaIr.Decimal

/-- A signed integer of 64 bits. -/
def int? (cs : List Char) : Option Int :=
  let (negative, ds) := Text.signed cs
  if ds.isEmpty || !ds.all Char.isDigit then none
  else
    let n : Int := if negative then -(Text.ofDigits ds : Int) else Text.ofDigits ds
    if Bounds.fitsInt64 n then some n else none

/-- The double next to `digits · 10 ^ exponent`. -/
def nearest (digits : Nat) (exponent : Int) : Float :=
  let magnitude : Int := (Nat.toDigits 10 digits).length + exponent
  if digits = 0 ∨ magnitude < -330 then 0.0
  else if 310 < magnitude then 1.0 / 0.0
  else Float.ofScientific digits (exponent < 0) exponent.natAbs

/-- The digits before and after the point that a text begins with, at least one in all, and the text behind
    them. -/
def mantissa? (cs : List Char) : Option (List Char × List Char × List Char) :=
  let whole := cs.takeWhile Char.isDigit
  let rest := cs.dropWhile Char.isDigit
  let (fraction, rest) := match rest with
    | '.' :: rest => (rest.takeWhile Char.isDigit, rest.dropWhile Char.isDigit)
    | rest => ([], rest)
  if whole.isEmpty && fraction.isEmpty then none else some (whole, fraction, rest)

/-- A number in digits, without sign. -/
def unsigned? (cs : List Char) : Option Float := do
  let (whole, fraction, rest) ← mantissa? cs
  let exponent ← match rest with
    | [] => some 0
    | e :: rest =>
      if e = 'e' ∨ e = 'E' then
        let (negative, ds) := Text.signed rest
        if ds.isEmpty || !ds.all Char.isDigit then none
        else some (if negative then -(Text.ofDigits ds : Int) else Text.ofDigits ds)
      else none
  pure (nearest (Text.ofDigits (whole ++ fraction)) (exponent - fraction.length))

/-- A number in digits, or one of the words, in any case. -/
def float? (cs : List Char) : Option Float := do
  let (negative, cs) := Text.signed cs
  let word := String.ofList (cs.map Char.toLower)
  let x ←
    if word = "inf" ∨ word = "infinity" then some (1.0 / 0.0)
    else if word = "nan" then some (0.0 / 0.0)
    else unsigned? cs
  pure (if negative then -x else x)

end SchemaIr.Decimal
