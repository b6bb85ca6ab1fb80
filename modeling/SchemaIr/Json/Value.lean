import SchemaIr.Table
import SchemaIr.Text.Quoted

/-! # JSON values and how they are written

A JSON value keeps the members of an object in the order they were given. It is written compactly, without
any white space, or laid out over lines with two spaces for each level. In strings only quotes,
backslashes and control characters are escaped, those that have a short form with it, others as `\u` and four digits.

Reading and writing follow what is documented of the serializer of these documents: records are objects whose members
come in the order of the fields, tables are objects in the order of their names, and what a record leaves out when it
is empty is no member. -/

namespace SchemaIr.Json

/-- A JSON value; all numbers of this library's documents are integers. -/
inductive Value
  | null
  | bool (b : Bool)
  | int (n : Int)
  | str (s : String)
  | arr (items : List Value)
  | obj (members : List (String × Value))
  deriving Repr

namespace Value

instance : Inhabited Value := ⟨null⟩

/-- The text of an optional value: `null` if there is none. -/
def ofOption {α : Type} (f : α → Value) : Option α → Value
  | some a => f a
  | none => null

/-- The array of a list of texts. -/
def texts (ss : List String) : Value := arr (ss.map str)

/-- A member that is left out when there is no value. -/
def member? {α : Type} (name : String) (f : α → Value) : Option α → List (String × Value)
  | some a => [(name, f a)]
  | none => []

/-- A member that is left out when the list is empty. -/
def listMember {α : Type} (name : String) (f : α → Value) : List α → List (String × Value)
  | [] => []
  | xs => [(name, arr (xs.map f))]

/-! ### Strings -/

/-- How a character is written in a JSON string. -/
def escapeChar (c : Char) : List Char :=
  if c = '"' ∨ c = '\\' then ['\\', c]
  else if c.toNat = 0x08 then ['\\', 'b']
  else if c.toNat = 0x0C then ['\\', 'f']
  else if c = '\n' then ['\\', 'n']
  else if c = '\r' then ['\\', 'r']
  else if c = '\t' then ['\\', 't']
  else if c.toNat < 0x10 then ['\\', 'u', '0', '0', '0'] ++ Text.hex c.toNat
  else if c.toNat < 0x20 then ['\\', 'u', '0', '0'] ++ Text.hex c.toNat
  else [c]

/-- A JSON string. -/
def quoted (s : String) : String := String.ofList ('"' :: s.toList.flatMap escapeChar ++ ['"'])

/-! ### Compact text -/

mutual

/-- The value without white space. -/
def compact : Value → String
  | null => "null"
  | bool b => if b then "true" else "false"
  | int n => toString n
  | str s => quoted s
  | arr items => "[" ++ ",".intercalate (compactItems items) ++ "]"
  | obj members => "\x7b" ++ ",".intercalate (compactMembers members) ++ "\x7d"

/-- The items of an array, each without white space. -/
def compactItems : List Value → List String
  | [] => []
  | v :: vs => compact v :: compactItems vs

/-- The members of an object, each without white space. -/
def compactMembers : List (String × Value) → List String
  | [] => []
  | m :: ms => compactMember m :: compactMembers ms

/-- A member of an object without white space. -/
def compactMember : String × Value → String
  | (k, v) => quoted k ++ ":" ++ compact v

end

/-! ### Text over lines -/

/-- A new line with the indentation of a level. -/
def newLine (level : Nat) : String := "\n" ++ String.ofList (List.replicate (2 * level) ' ')

/-- Lays out the parts of an array or object between its brackets; without parts nothing stands between. -/
def bracket (opening closing : String) (level : Nat) : List String → String
  | [] => opening ++ closing
  | parts =>
    opening ++ newLine (level + 1) ++ ("," ++ newLine (level + 1)).intercalate parts ++ newLine level ++ closing

mutual

/-- The value over lines, from a level of indentation on. -/
def prettyAt : Nat → Value → String
  | level, arr items => bracket "[" "]" level (prettyItems (level + 1) items)
  | level, obj members => bracket "\x7b" "\x7d" level (prettyMembers (level + 1) members)
  | _, null => "null"
  | _, bool b => if b then "true" else "false"
  | _, int n => toString n
  | _, str s => quoted s

/-- The items of an array at their level. -/
def prettyItems : Nat → List Value → List String
  | _, [] => []
  | level, v :: vs => prettyAt level v :: prettyItems level vs

/-- The members of an object at their level. -/
def prettyMembers : Nat → List (String × Value) → List String
  | _, [] => []
  | level, m :: ms => prettyMember level m :: prettyMembers level ms

/-- A member of an object at its level. -/
def prettyMember : Nat → String × Value → String
  | level, (k, v) => quoted k ++ ": " ++ prettyAt level v

end

/-- The value over lines. -/
def pretty (v : Value) : String := prettyAt 0 v

/-! ### Member order -/

mutual

/-- The value with the members of every object in name order, one for each name. -/
def sortMembers : Value → Value
  | arr items => arr (sortItems items)
  | obj members => obj (Table.ofList (sortEach members)).entries
  | v => v

/-- The items of an array, each with its members in name order. -/
def sortItems : List Value → List Value
  | [] => []
  | v :: vs => sortMembers v :: sortItems vs

/-- The members of an object in the given order, the members of each of their values in name order. -/
def sortEach : List (String × Value) → List (String × Value)
  | [] => []
  | m :: ms => sortMember m :: sortEach ms

/-- A member with the members of its value in name order. -/
def sortMember : String × Value → String × Value
  | (k, v) => (k, sortMembers v)

end

end Value

end SchemaIr.Json
