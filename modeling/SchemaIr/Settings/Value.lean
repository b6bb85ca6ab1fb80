import SchemaIr.Decimal.Shortest
import SchemaIr.Settings.Step

/-! # Setting values

Settings come in layers: files, and the environment over them. A layer is a table of values, in which the
case of keys does not matter. A layer is merged over another table by table; any other value, lists
included, takes the place of the one before.

A value may also be set at the end of steps into tables and lists. What the steps pass is made to fit them:
a value that is no table becomes one where a key leads on, and one that is no list becomes one where a
number does. Where a list is too short, nothing fills it up.

A value is taken for what a setting calls for, where it can be: numbers and words stand for switches, and
simple values for texts. -/

namespace SchemaIr

/-- A value in a layer of settings. -/
inductive SettingValue
  /-- No value where there could be one. -/
  | nothing
  | bool (b : Bool)
  | int (n : Int)
  | float (x : Float)
  | text (s : String)
  | list (items : List SettingValue)
  | table (entries : List (String × SettingValue))

namespace SettingValue

/-- A character in lower case, as far as that gives ASCII letters. Beyond ASCII only the sign for kelvin
    does, all by itself. -/
def lowerChar (c : Char) : Char := if c = '\u212A' then 'k' else c.toLower

/-- A text in lower case, as far as that gives ASCII letters. -/
def lower (s : String) : String := String.ofList (s.toList.map lowerChar)

/-! ### Tables -/

/-- The entries of a table; any other value has none. -/
def entries : SettingValue → List (String × SettingValue)
  | table es => es
  | _ => []

/-- The value of a key. -/
def find? (key : String) : List (String × SettingValue) → Option SettingValue
  | [] => none
  | (k, v) :: rest => if k = key then some v else find? key rest

/-- Writes the value of a key, in its place if the key is there. -/
def put (key : String) (value : SettingValue) : List (String × SettingValue) → List (String × SettingValue)
  | [] => [(key, value)]
  | (k, v) :: rest => if k = key then (key, value) :: rest else (k, v) :: put key value rest

def get? (v : SettingValue) (key : String) : Option SettingValue := find? key v.entries

mutual

/-- Merges a value over another one. -/
def merge (target : SettingValue) : SettingValue → SettingValue
  | table es => mergeEntries target es
  | v => v

/-- Merges the entries of a table over a value. -/
def mergeEntries (target : SettingValue) : List (String × SettingValue) → SettingValue
  | [] => target
  | e :: es => mergeEntries (mergeEntry target e) es

/-- Merges one entry over a value, which becomes a table if it is none. -/
def mergeEntry (target : SettingValue) : String × SettingValue → SettingValue
  | (key, value) =>
    let key := lower key
    let old := (target.get? key).getD (table [])
    table (put key (merge old value) target.entries)

end

/-- The items of a list; any other value has none. -/
def items : SettingValue → List SettingValue
  | list vs => vs
  | _ => []

/-- Writes an item of a list; nothing stands in the places before it that the list does not have. -/
def putItem (i : Nat) (value : SettingValue) (vs : List SettingValue) : List SettingValue :=
  (vs ++ List.replicate (i + 1 - vs.length) nothing).set i value

/-- Sets the value at the end of some steps; a table that comes under a key is merged. -/
def setAt (target value : SettingValue) : List SettingStep → SettingValue
  | [] => value
  | [.key k] => mergeEntry target (k, value)
  | .key k :: steps =>
    let old := (target.get? (lower k)).getD nothing
    table (put (lower k) (setAt old value steps) target.entries)
  | .item n :: steps =>
    let i := SettingStep.indexIn n target.items.length
    let old := target.items[i]?.getD nothing
    list (putItem i (setAt old value steps) target.items)

/-! ### Readings -/

/-- The value as a switch. -/
def toBool? : SettingValue → Option Bool
  | bool b => some b
  | int n => some (n != 0)
  | float x => some (x != 0.0)
  | text s =>
    let s := lower s
    if s ∈ ["1", "true", "on", "yes"] then some true
    else if s ∈ ["0", "false", "off", "no"] then some false
    else none
  | nothing | list _ | table _ => none

/-- The value as a text. -/
def toText? : SettingValue → Option String
  | bool b => some (if b then "true" else "false")
  | int n => some (toString n)
  | float x => some (Decimal.plain x)
  | text s => some s
  | nothing | list _ | table _ => none

/-- The value as a list of texts; only a list is one. -/
def toTexts? : SettingValue → Option (List String)
  | list items => items.mapM toText?
  | _ => none

/-- The value as one of several known by name, in any case; a table with a single entry stands for its
    key. -/
def toNamed? {α : Type} (all : List α) (name : α → String) : SettingValue → Option α
  | text s | table [(s, _)] => all.find? fun a => lower (name a) == lower s
  | _ => none

end SettingValue

end SchemaIr
