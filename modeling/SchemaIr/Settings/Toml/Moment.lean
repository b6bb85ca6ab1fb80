import SchemaIr.Text.Digits

/-! # Dates and times of settings files

A moment is a date, a time of the day, or both; a moment with both may tell how far its clock is from
universal time. It has one written form (`Moment.text`): fractions of a second lose the zeros at their end,
and what is shorter than a nanosecond. -/

namespace SchemaIr

/-- A day of the calendar. -/
structure Date where
  year : Nat
  month : Nat
  day : Nat
  deriving DecidableEq, Repr

/-- A time of the day. -/
structure Clock where
  hour : Nat
  minute : Nat
  second : Nat
  nanosecond : Nat
  deriving DecidableEq, Repr

/-- How far a clock is from universal time. -/
inductive Offset
  | universal
  | minutes (n : Int)
  deriving DecidableEq, Repr

/-- A date, a time, or both. -/
inductive Moment
  | date (d : Date)
  | clock (c : Clock)
  | both (d : Date) (c : Clock) (offset : Option Offset)
  deriving DecidableEq, Repr

namespace Date

/-- Every fourth year is a leap year, but of the full centuries only every fourth. -/
def isLeap (year : Nat) : Bool := year % 4 == 0 && (year % 100 != 0 || year % 400 == 0)

/-- The number of days in a month. -/
def daysIn (year month : Nat) : Nat :=
  if month = 2 then if isLeap year then 29 else 28
  else if month ∈ [4, 6, 9, 11] then 30
  else 31

end Date

namespace Moment

/-! ### Writing -/

/-- A number with zeros in front of it, up to so many digits. -/
def padded (width n : Nat) : List Char :=
  let ds := Nat.toDigits 10 n
  List.replicate (width - ds.length) '0' ++ ds

def dateText (d : Date) : List Char := padded 4 d.year ++ '-' :: padded 2 d.month ++ '-' :: padded 2 d.day

/-- A fraction of a second, without zeros at its end. -/
def fractionText (nanosecond : Nat) : List Char :=
  if nanosecond = 0 then [] else '.' :: ((padded 9 nanosecond).reverse.dropWhile (· == '0')).reverse

def clockText (c : Clock) : List Char :=
  padded 2 c.hour ++ ':' :: padded 2 c.minute ++ ':' :: padded 2 c.second ++ fractionText c.nanosecond

def offsetText : Offset → List Char
  | .universal => ['Z']
  | .minutes n =>
    (if n < 0 then '-' else '+') :: padded 2 (n.natAbs / 60) ++ ':' :: padded 2 (n.natAbs % 60)

/-- The written form of a moment. -/
def text : Moment → String
  | date d => String.ofList (dateText d)
  | clock c => String.ofList (clockText c)
  | both d c offset => String.ofList (dateText d ++ 'T' :: clockText c ++ (offset.map offsetText).getD [])

/-! ### Reading -/

/-- A number of so many digits within bounds. -/
def number? (width low high : Nat) (cs : List Char) : Option (Nat × List Char) :=
  let ds := cs.take width
  let n := Text.ofDigits ds
  if ds.length = width ∧ ds.all Char.isDigit ∧ low ≤ n ∧ n ≤ high then some (n, cs.drop width) else none

/-- Goes on after a mark. -/
def after? (mark : Char) : List Char → Option (List Char)
  | c :: cs => if c = mark then some cs else none
  | [] => none

def date? (cs : List Char) : Option (Date × List Char) := do
  let (year, cs) ← number? 4 0 9999 cs
  let (month, cs) ← number? 2 1 12 (← after? '-' cs)
  let (day, cs) ← number? 2 1 (Date.daysIn year month) (← after? '-' cs)
  pure (⟨year, month, day⟩, cs)

/-- The nanoseconds that the digits of a fraction state. -/
def nanoseconds (ds : List Char) : Nat :=
  let ds := ds.take 9
  Text.ofDigits (ds ++ List.replicate (9 - ds.length) '0')

/-- The fraction of a second that stands here, if one does. -/
def fraction? : List Char → Option (Nat × List Char)
  | '.' :: cs =>
    let ds := cs.takeWhile Char.isDigit
    if ds.isEmpty then none else some (nanoseconds ds, cs.drop ds.length)
  | cs => some (0, cs)

/-- A time of the day, the hour of which is at most `last`. -/
def clock? (last : Nat) (cs : List Char) : Option (Clock × List Char) := do
  let (hour, cs) ← number? 2 0 last cs
  let (minute, cs) ← number? 2 0 59 (← after? ':' cs)
  let (second, cs) ← number? 2 0 60 (← after? ':' cs)
  let (nanosecond, cs) ← fraction? cs
  pure (⟨hour, minute, second, nanosecond⟩, cs)

/-- The offset that stands here, if one does. Its hours and minutes are at most so many, and it is not more than
    a day. -/
def offset? (lastHour lastMinute : Nat) (cs : List Char) : Option (Option Offset × List Char) :=
  match cs with
  | 'Z' :: cs | 'z' :: cs => some (some .universal, cs)
  | c :: rest =>
    if c = '+' ∨ c = '-' then do
      let (hours, rest) ← number? 2 0 lastHour rest
      let (minutes, rest) ← number? 2 0 lastMinute (← after? ':' rest)
      let n : Int := hours * 60 + minutes
      if 1440 < n then none else some (some (.minutes (if c = '-' then -n else n)), rest)
    else some (none, cs)
  | [] => some (none, cs)

/-- A date begins here: four digits and a hyphen. -/
def beginsDate (cs : List Char) : Bool := (((number? 4 0 9999 cs).map (·.2)).bind (after? '-')).isSome

/-- A time begins here: two digits and a colon. -/
def beginsClock (cs : List Char) : Bool := (((number? 2 0 23 cs).map (·.2)).bind (after? ':')).isSome

/-- A moment begins here. -/
def begins (cs : List Char) : Bool := beginsDate cs || beginsClock cs

/-- A moment. After a date, the letter T or a space leads to a time. -/
def read? (cs : List Char) : Option (Moment × List Char) := do
  if beginsDate cs then
    let (d, rest) ← date? cs
    match rest with
    | c :: more =>
      if (c = 'T' ∨ c = 't' ∨ c = ' ') ∧ beginsClock more then
        let (c, rest) ← clock? 23 more
        let (offset, rest) ← offset? 23 59 rest
        pure (.both d c offset, rest)
      else pure (.date d, rest)
    | [] => pure (.date d, rest)
  else
    let (c, rest) ← clock? 23 cs
    pure (.clock c, rest)

/-- What follows a date in a text that is a moment as a whole. -/
def afterDate? (d : Date) (cs : List Char) : Option Moment :=
  match cs with
  | [] => some (.date d)
  | c :: cs =>
    if c = 'T' ∨ c = 't' ∨ c = ' ' then do
      let (c, cs) ← clock? 24 cs
      let (offset, cs) ← offset? 99 99 cs
      if cs.isEmpty then some (.both d c offset) else none
    else none

/-- The moment that a text is as a whole. It is taken less strictly than one that stands for itself: an hour
    may be the 24th, and an offset as much as a day, however it is put into hours and minutes. -/
def ofText? (cs : List Char) : Option Moment := do
  if cs[2]? = some ':' then
    let (c, cs) ← clock? 24 cs
    if cs.isEmpty then some (.clock c) else none
  else
    let (d, cs) ← date? cs
    afterDate? d cs

end Moment

end SchemaIr
