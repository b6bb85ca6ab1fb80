/-! # Shortest decimals

The decimal that stands for a floating-point number is the one with the fewest digits among those that
round back to it, and among these the nearest.

A positive double is `m · 2 ^ q`. The reals that round to it reach half a step to either side, ends
included if `m` is even; below a power of two the step is half as wide. For each number of digits, from
one up to seventeen, the two neighbours of the double on the grid of decimals with so many digits are
tested against that interval. All arithmetic is exact. -/

namespace SchemaIr

/-- A decimal `digits · 10 ^ exponent`. -/
structure Decimal where
  digits : Nat
  exponent : Int
  deriving DecidableEq, Repr

namespace Decimal

/-- A nonnegative fraction. -/
structure Ratio where
  num : Nat
  den : Nat

namespace Ratio

/-- `n · base ^ e`. -/
def scale (n base : Nat) (e : Int) : Ratio :=
  if 0 ≤ e then ⟨n * base.pow e.toNat, 1⟩ else ⟨n, base.pow (-e).toNat⟩

def le (a b : Ratio) : Bool := a.num * b.den ≤ b.num * a.den

def lt (a b : Ratio) : Bool := a.num * b.den < b.num * a.den

/-- The exponent of the first digit of a positive fraction: `10 ^ e ≤ r < 10 ^ (e + 1)`. -/
def magnitude (r : Ratio) : Int :=
  if r.den ≤ r.num then (Nat.toDigits 10 (r.num / r.den)).length - 1
  else -((Nat.toDigits 10 ((r.den + r.num - 1) / r.num - 1)).length : Int)

/-- The distance of two fractions. -/
def dist (a b : Ratio) : Ratio :=
  ⟨(a.num * b.den - b.num * a.den) + (b.num * a.den - a.num * b.den), a.den * b.den⟩

end Ratio

/-- The least significand of a double that is not tiny, `2 ^ 52`. -/
def hiddenBit : Nat := Nat.pow 2 52

/-- The bit of the sign, `2 ^ 63`. -/
def signBit : Nat := Nat.pow 2 63

/-- The significand and exponent of a finite positive double with the given bits. -/
def parts (bits : Nat) : Nat × Int :=
  let fraction := bits % hiddenBit
  let biased : Nat := bits / hiddenBit % 2048
  if biased = 0 then (fraction, -1074) else (hiddenBit + fraction, (biased : Int) - 1075)

/-- The interval of the reals that round to `m · 2 ^ q`, and whether its ends belong to it. -/
def interval (m : Nat) (q : Int) : Ratio × Ratio × Bool :=
  let below := if m = hiddenBit ∧ q ≠ -1074 then 4 * m - 1 else 4 * m - 2
  (Ratio.scale below 2 (q - 2), Ratio.scale (4 * m + 2) 2 (q - 2), m % 2 == 0)

/-- The neighbour of `r` on the grid `10 ^ e` that lies in the interval, the nearer one of two. -/
def onGrid? (r low high : Ratio) (closed : Bool) (e : Int) : Option Nat :=
  let unit := Ratio.scale 1 10 e
  let floor := r.num * unit.den / (r.den * unit.num)
  let inside (n : Nat) : Bool :=
    let x := Ratio.scale n 10 e
    0 < n && if closed then low.le x && x.le high else low.lt x && x.lt high
  match inside floor, inside (floor + 1) with
  | true, true =>
    let down := r.dist (Ratio.scale floor 10 e)
    let up := r.dist (Ratio.scale (floor + 1) 10 e)
    if down.lt up then some floor
    else if up.lt down then some (floor + 1)
    else some (if floor % 2 = 0 then floor else floor + 1)
  | true, false => some floor
  | false, true => some (floor + 1)
  | false, false => none

/-- The first grid with a hit, for `count` numbers of digits from `digits` on. -/
def search (r low high : Ratio) (closed : Bool) (digits : Nat) : Nat → Decimal
  | 0 => ⟨0, 0⟩
  | count + 1 =>
    let e := r.magnitude - ((digits : Int) - 1)
    match onGrid? r low high closed e with
    | some n => ⟨n, e⟩
    | none => search r low high closed (digits + 1) count

/-- The decimal without zeros at its end. -/
def strip : Nat → Decimal → Decimal
  | 0, d => d
  | fuel + 1, d => if d.digits ≠ 0 ∧ d.digits % 10 = 0 then strip fuel ⟨d.digits / 10, d.exponent + 1⟩ else d

/-- The shortest decimal that stands for a finite double's magnitude. -/
def shortest (x : Float) : Decimal :=
  let (m, q) := parts (x.toBits.toNat % signBit)
  if m = 0 then ⟨0, 0⟩
  else
    let (low, high, closed) := interval m q
    strip 20 (search (Ratio.scale m 2 q) low high closed 1 17)

/-! ### Text -/

/-- The sign bit is set. -/
def isNegative (x : Float) : Bool := signBit ≤ x.toBits.toNat

/-- A decimal written out in full: the point stands where it belongs, and only if digits follow it. -/
def positional (d : Decimal) : String :=
  let ds := Nat.toDigits 10 d.digits
  if 0 ≤ d.exponent then String.ofList (ds ++ List.replicate d.exponent.toNat '0')
  else
    let after := (-d.exponent).toNat
    let padded := List.replicate (after + 1 - ds.length) '0' ++ ds
    let whole := padded.length - after
    String.ofList (padded.take whole ++ '.' :: padded.drop whole)

/-- An exponent with its sign, a plus included. -/
def exponentText (e : Int) : String := String.ofList ((if e < 0 then '-' else '+') :: Nat.toDigits 10 e.natAbs)

/-- A decimal with one digit before the point, and its exponent. -/
def scientific (d : Decimal) : String :=
  match Nat.toDigits 10 d.digits with
  | [] => ""
  | c :: cs =>
    String.ofList (c :: if cs.isEmpty then [] else '.' :: cs) ++ "e" ++ exponentText (d.exponent + cs.length)

/-- A number in full, as configuration text shows it. -/
def plain (x : Float) : String :=
  if x.isNaN then "NaN"
  else
    let sign := if isNegative x then "-" else ""
    if x.isInf then sign ++ "inf" else sign ++ (shortest x).positional

/-- A finite number as messages show it: always with a point or an exponent, and with an exponent from
    `10 ^ 16` on and below `10 ^ -5`. -/
def pointed (x : Float) : String :=
  let d := shortest x
  let lead := d.exponent + (Nat.toDigits 10 d.digits).length - 1
  let sign := if isNegative x then "-" else ""
  if d.digits ≠ 0 ∧ (lead < -5 ∨ 16 ≤ lead) then sign ++ d.scientific
  else sign ++ d.positional ++ if 0 ≤ d.exponent then ".0" else ""

end Decimal

end SchemaIr
