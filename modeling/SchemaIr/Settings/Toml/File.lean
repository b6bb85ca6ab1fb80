import SchemaIr.Settings.Toml.Scalar
import SchemaIr.Settings.Toml.Table

/-! # Settings files in TOML

A settings file is read line by line: lines that open tables or the next table of a row, and lines that set
keys, in the table that was opened last. Values are strings, switches, numbers, moments, lists and inline
tables. -/

namespace SchemaIr.Toml

/-! ### Values -/

mutual

/-- What is set by a value, of so many levels at most. The first argument bounds the steps. -/
def value? : Nat → Nat → List Char → Option (Entry × List Char)
  | 0, _, _ => none
  | fuel + 1, levels, cs =>
    match cs with
    | '[' :: cs =>
      if levels = 0 then none else (items? fuel (levels - 1) cs).map fun (items, cs) => (.value (.list items), cs)
    | '\x7b' :: cs =>
      if levels = 0 then none
      else
        match skipSpaces cs with
        | '\x7d' :: cs => some (.value (.table []), cs)
        | cs => do
          let (es, cs) ← members? fuel (levels - 1) cs []
          pure (← Entry.ofInline? es, cs)
    | '"' :: _ | '\'' :: _ => (string? cs).map fun (s, cs) => (.value (.text s), cs)
    | cs =>
      if Moment.begins cs then (Moment.read? cs).map fun (m, cs) => (.moment m, cs)
      else (scalar? cs).map fun (v, cs) => (.value v, cs)

/-- The items of a list after its opening bracket or a comma. -/
def items? : Nat → Nat → List Char → Option (List SettingValue × List Char)
  | 0, _, _ => none
  | fuel + 1, levels, cs => do
    match ← skipBlank cs.length cs with
    | ']' :: cs => some ([], cs)
    | cs =>
      let (item, cs) ← value? fuel levels cs
      let item ← item.toValue?
      match ← skipBlank cs.length cs with
      | ',' :: cs =>
        let (items, cs) ← items? fuel levels cs
        some (item :: items, cs)
      | ']' :: cs => some ([item], cs)
      | _ => none

/-- The members of an inline table after its opening brace or a comma. -/
def members? : Nat → Nat → List Char → Entries → Option (Entries × List Char)
  | 0, _, _, _ => none
  | fuel + 1, levels, cs, es => do
    let (key, cs) ← key? cs
    match cs with
    | '=' :: cs =>
      let (entry, cs) ← value? fuel levels (skipSpaces cs)
      let es ← Entries.assign entry true key es
      match skipSpaces cs with
      | ',' :: cs => members? fuel levels cs es
      | '\x7d' :: cs => some (es, cs)
      | _ => none
    | _ => none

end

/-! ### Lines -/

/-- Reads line by line; `path` is that of the table that is open. -/
def lines? : Nat → List String → Entries → List Char → Option Entries
  | 0, _, es, _ => some es
  | fuel + 1, path, es, cs =>
    match skipSpaces cs with
    | [] => some es
    | '[' :: '[' :: cs => do
      let (path, cs) ← key? cs
      match cs with
      | ']' :: ']' :: cs => lines? fuel path (← Entries.openRow path es) (← endLine cs)
      | _ => none
    | '[' :: cs => do
      let (path, cs) ← key? cs
      match cs with
      | ']' :: cs => lines? fuel path (← Entries.openTable path es) (← endLine cs)
      | _ => none
    | c :: cs =>
      if c = '#' ∨ c = '\n' ∨ c = '\r' then do lines? fuel path es (← endLine (c :: cs))
      else do
        let (key, cs) ← key? (c :: cs)
        match cs with
        | '=' :: cs =>
          let (entry, cs) ← value? (cs.length + 1) maxDepth (skipSpaces cs)
          lines? fuel path (← Entries.assignIn entry key path es) (← endLine cs)
        | _ => none

/-- The characters of a file; a mark of the byte order at its beginning does not count. -/
def content : List Char → List Char
  | '\uFEFF' :: cs => cs
  | cs => cs

/-- The settings in the characters of a file. -/
def parse? (cs : List Char) : Option (List (String × SettingValue)) :=
  (lines? (cs.length + 1) [] [] (content cs)).bind toValues?

end SchemaIr.Toml
