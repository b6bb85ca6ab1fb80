import SchemaIr.Bounds

/-! # The way to a setting

A name in a layer of settings may lead into tables and lists: names of keys parted by dots, and numbers of
items in brackets, as in `generate.exclude_modules[0]`. A name of any other form is a single key. -/

namespace SchemaIr

/-- A step on the way to a setting. -/
inductive SettingStep
  /-- Into a table. -/
  | key (name : String)
  /-- Into a list; a negative number counts from the list's end. -/
  | item (n : Int)
  deriving DecidableEq, Repr

namespace SettingStep

/-- The place of an item in a list of some length. -/
def indexIn (n : Int) (length : Nat) : Nat := if 0 ≤ n then n.toNat else length - n.natAbs

/-- A character of the keys between dots. -/
def isKeyChar (c : Char) : Bool := c.isAlphanum || c == '_' || c == '-' || c == ' '

/-- The key that a text begins with. -/
def key? (cs : List Char) : Option (SettingStep × List Char) :=
  let name := cs.takeWhile isKeyChar
  if name.isEmpty then none else some (.key (String.ofList name), cs.dropWhile isKeyChar)

/-- A character that may surround the number of an item. -/
def isSpace (c : Char) : Bool := c == ' ' || c == '\t'

/-- The number of an item with the bracket behind it. -/
def item? (cs : List Char) : Option (SettingStep × List Char) :=
  let (negative, cs) := match cs.dropWhile isSpace with
    | '-' :: cs => (true, cs)
    | cs => (false, cs)
  let digits := cs.takeWhile Char.isDigit
  let n := digits.foldl (fun n c => n * 10 + ((c.toNat : Int) - '0'.toNat)) 0
  let n := if negative then -n else n
  match (cs.dropWhile Char.isDigit).dropWhile isSpace with
  | ']' :: cs => if digits.isEmpty || !Bounds.fitsInt64 n then none else some (.item n, cs)
  | _ => none

/-- The steps after the first one, in a text of at most so many characters. -/
def more? : Nat → List Char → Option (List SettingStep)
  | _, [] => some []
  | 0, _ => none
  | fuel + 1, c :: cs => do
    let (step, cs) ← if c = '.' then key? cs else if c = '[' then item? cs else none
    let steps ← more? fuel cs
    pure (step :: steps)

/-- The steps that a name states. -/
def ofName (name : String) : List SettingStep :=
  let steps? := do
    let (step, cs) ← key? name.toList
    let steps ← more? cs.length cs
    pure (step :: steps)
  steps?.getD [.key name]

end SettingStep

end SchemaIr
