import SchemaIr.Settings.Toml.Moment
import SchemaIr.Settings.Value

/-! # Tables of settings files in the making

While a settings file is read, its tables grow line by line. A key may be set once, and a table opened once;
but the parent of a table that is open may still be opened itself, and the tables that dotted keys make may
grow by more dotted keys, as long as no other table is opened in between. A row of tables under one key
grows by one table each time it is opened; the last table of a row stands for the row.

A finished table stands for a moment if its first key is the one that is kept for moments. -/

namespace SchemaIr.Toml

/-- How a table came to be. -/
inductive Origin
  /-- By a line of its own. -/
  | opened
  /-- As the parent of a table with a line of its own. -/
  | implied
  /-- By a dotted key. -/
  | dotted
  deriving DecidableEq, Repr

/-- What a key stands for while the file is read. -/
inductive Entry
  | value (v : SettingValue)
  | moment (m : Moment)
  | table (origin : Origin) (entries : List (String × Entry))
  /-- A row of tables, the last one apart. -/
  | row (before : List (List (String × Entry))) (last : List (String × Entry))

/-- The entries of a table by key. -/
abbrev Entries := List (String × Entry)

namespace Entries

def find? (key : String) (es : Entries) : Option Entry := (List.find? (·.1 == key) es).map (·.2)

/-- Writes the entry of a key, in its place if the key is there. -/
def put (key : String) (entry : Entry) (es : Entries) : Entries :=
  if (find? key es).isSome then es.map fun e => if e.1 = key then (key, entry) else e else es ++ [(key, entry)]

/-- Opens an entry under a path of keys: `last` opens it in the table that has the last key. -/
def openWith (last : String → Entries → Option Entries) : List String → Entries → Option Entries
  | [], _ => none
  | [key], es => last key es
  | key :: path, es =>
    match find? key es with
    | none => (openWith last path []).map fun inner => put key (.table .implied inner) es
    | some (.table origin inner) => (openWith last path inner).map fun inner => put key (.table origin inner) es
    | some (.row before inner) => (openWith last path inner).map fun inner => put key (.row before inner) es
    | some (.value _) | some (.moment _) => none

/-- Opens the table of a key. -/
def openLast (key : String) (es : Entries) : Option Entries :=
  match find? key es with
  | none => some (put key (.table .opened []) es)
  | some (.table .implied inner) => some (put key (.table .opened inner) es)
  | some _ => none

/-- Opens the next table in the row of a key. -/
def openNext (key : String) (es : Entries) : Option Entries :=
  match find? key es with
  | none => some (put key (.row [] []) es)
  | some (.row before last) => some (put key (.row (before ++ [last]) []) es)
  | some _ => none

/-- Opens the table at a path. -/
def openTable : List String → Entries → Option Entries := openWith openLast

/-- Opens the next table in the row at a path. -/
def openRow : List String → Entries → Option Entries := openWith openNext

/-- Sets an entry under a dotted key. The table in which the last part is set must be the one at the
    beginning (`free`), or be made by dotted keys. -/
def assign (entry : Entry) (free : Bool) : List String → Entries → Option Entries
  | [], _ => none
  | [key], es => if !free || (find? key es).isSome then none else some (put key entry es)
  | key :: path, es =>
    match find? key es with
    | none => (assign entry true path []).map fun inner => put key (.table .dotted inner) es
    | some (.table .opened _) => none
    | some (.table origin inner) =>
      (assign entry (origin = .dotted) path inner).map fun inner => put key (.table origin inner) es
    | some (.row before inner) => (assign entry false path inner).map fun inner => put key (.row before inner) es
    | some (.value _) | some (.moment _) => none

/-- Sets an entry under a dotted key in the table at a path. -/
def assignIn (entry : Entry) (key : List String) : List String → Entries → Option Entries
  | [], es => assign entry true key es
  | k :: path, es =>
    match find? k es with
    | some (.table origin inner) => (assignIn entry key path inner).map fun inner => put k (.table origin inner) es
    | some (.row before inner) => (assignIn entry key path inner).map fun inner => put k (.row before inner) es
    | _ => none

end Entries

/-! ### Finished tables -/

/-- The key that is kept for moments. -/
def momentKey : String := "$__toml_private_datetime"

/-- The moment that the entry of the key for moments states. -/
def Entry.statedMoment? : Entry → Option Moment
  | .value (.text s) => Moment.ofText? s.toList
  | _ => none

mutual

/-- The value that an entry stands for. -/
def Entry.toValue? : Entry → Option SettingValue
  | .value v => some v
  | .moment m => some (.text m.text)
  | .table _ es => tableValue? es
  | .row before last => do
    let vs ← rowValues? before
    let v ← tableValue? last
    pure (.list (vs ++ [v]))

/-- The value that a table stands for. -/
def tableValue? : List (String × Entry) → Option SettingValue
  | [] => some (.table [])
  | e :: es =>
    if e.1 = momentKey then e.2.statedMoment?.map fun m => .text m.text
    else do
      let v ← pairValue? e
      let vs ← toValues? es
      pure (.table (v :: vs))

/-- The values that entries stand for. -/
def toValues? : List (String × Entry) → Option (List (String × SettingValue))
  | [] => some []
  | e :: es => do
    let v ← pairValue? e
    let vs ← toValues? es
    pure (v :: vs)

/-- The value that the entry of a key stands for. -/
def pairValue? : String × Entry → Option (String × SettingValue)
  | (k, e) => e.toValue?.map (k, ·)

/-- The values that the tables of a row stand for. -/
def rowValues? : List (List (String × Entry)) → Option (List SettingValue)
  | [] => some []
  | es :: rows => do
    let v ← tableValue? es
    let vs ← rowValues? rows
    pure (v :: vs)

end

/-- The entry that a table between braces is. -/
def Entry.ofInline? (es : Entries) : Option Entry :=
  match es with
  | (k, e) :: _ => if k = momentKey then e.statedMoment?.map .moment else (toValues? es).map fun vs => .value (.table vs)
  | [] => some (.value (.table []))

end SchemaIr.Toml
