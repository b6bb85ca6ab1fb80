import SchemaIr.Settings.Value
import SchemaIr.Text.Digits
import SchemaIr.Text.Pieces

/-! # Settings files in sections

A settings file in sections has lines with the name of a section in brackets, and lines with a key, an equals
sign or colon, and a value, which is a text. Keys before the first section stand for themselves. A line that
begins with a semicolon or number sign is a comment. -/

namespace SchemaIr.Ini

/-- A line ends before the character. -/
def isLineEnd (c : Char) : Bool := c == '\n' || c == '\r'

/-- The character with a code point of four hexadecimal digits, the first of which may be a plus. -/
def codePoint? (cs : List Char) : Option (Char × List Char) :=
  match cs with
  | '+' :: cs => Text.codePoint? 3 cs
  | cs => Text.codePoint? 4 cs

/-- The character of an escape, after its backslash; none for an escaped line end. -/
def escape? (cs : List Char) : Option (Option Char × List Char) :=
  match cs with
  | '0' :: cs => some (some '\x00', cs)
  | 'a' :: cs => some (some '\x07', cs)
  | 'b' :: cs => some (some '\x08', cs)
  | 't' :: cs => some (some '\t', cs)
  | 'r' :: cs => some (some '\r', cs)
  | 'n' :: cs => some (some '\n', cs)
  | '\n' :: cs => some (none, cs)
  | 'x' :: cs => (codePoint? cs).map fun (c, cs) => (some c, cs)
  | c :: cs => some (some c, cs)
  | [] => none

/-- The text up to a character that ends it, with the text from there on. -/
def upTo? (ends : Char → Bool) (canEnd : Bool) : Nat → List Char → List Char → Option (List Char × List Char)
  | 0, _, _ => none
  | _, done, [] => if canEnd then some (done.reverse, []) else none
  | fuel + 1, done, c :: cs =>
    if ends c then some (done.reverse, c :: cs)
    else if c = '\\' then do
      let (e, cs) ← escape? cs
      upTo? ends canEnd fuel (e.toList ++ done) cs
    else upTo? ends canEnd fuel (c :: done) cs

/-- The text up to a character that must come. -/
def before? (ends : Char → Bool) (cs : List Char) : Option (List Char × List Char) :=
  upTo? ends false (cs.length + 1) [] cs

/-- A text without the blanks at its ends. -/
def trim (cs : List Char) : List Char := ((cs.dropWhile Text.isBlank).reverse.dropWhile Text.isBlank).reverse

/-- What stands here up to the end of the line. -/
def line? (cs : List Char) : Option (List Char × List Char) := upTo? isLineEnd true (cs.length + 1) [] cs

/-- The value that stands here, up to the end of the line. It may begin with a part in quotes, which may go on
    over line ends. -/
def value? (cs : List Char) : Option (List Char × List Char) := do
  let (value, rest) ← match cs with
    | c :: rest =>
      if c = '"' ∨ c = '\'' then do
        let (part, rest) ← before? (· == c) rest
        let (more, rest) ← line? (rest.drop 1)
        some (part ++ more, rest)
      else line? (c :: rest)
    | [] => some ([], [])
  pure (trim value, rest)

/-- Goes on after blanks; tells whether this is the beginning of a line. -/
def skipBlank (atStart : Bool) : List Char → Bool × List Char
  | [] => (atStart, [])
  | c :: cs => if Text.isBlank c then skipBlank (c = '\n') cs else (atStart, c :: cs)

/-- The keys of a section with their values. -/
abbrev Section := List (String × String)

/-- Adds a key to the last section. -/
def addKey (key value : String) : List (Option String × Section) → List (Option String × Section)
  | [] => [(none, [(key, value)])]
  | [(name, s)] => [(name, s ++ [(key, value)])]
  | s :: ss => s :: addKey key value ss

/-- Reads the sections of a file; `key` is the key whose value comes next, if it is not empty. -/
def sections? (done : List (Option String × Section)) (key : String) :
    Nat → Bool → List Char → Option (List (Option String × Section))
  | 0, _, _ => some done
  | fuel + 1, atStart, cs =>
    match skipBlank atStart cs with
    | (_, []) => some done
    | (atStart, c :: cs) =>
      if c = ';' ∨ c = '#' then
        if atStart then sections? done key fuel true ((cs.dropWhile (· ≠ '\n')).drop 1) else none
      else if c = '[' then do
        let (name, cs) ← before? (· == ']') cs
        sections? (done ++ [(some (String.ofList (trim name)), [])]) key fuel false (cs.drop 1)
      else if c = '=' ∨ c = ':' then
        if key = "" then none
        else do
          let (value, cs) ← value? (cs.dropWhile fun c => Text.isBlank c && !isLineEnd c)
          sections? (addKey key (String.ofList value) done) "" fuel false cs
      else do
        let (key, cs) ← before? (fun c => c == '=' || c == ':') (c :: cs)
        sections? done (String.ofList (trim key)) fuel false cs

/-- The settings of a section; of a key that is set twice the last value counts. -/
def ofSection (s : Section) : List (String × SettingValue) :=
  s.foldl (fun es (k, v) => SettingValue.put k (.text v) es) []

/-- The settings in the characters of a file. -/
def parse? (cs : List Char) : Option (List (String × SettingValue)) :=
  (sections? [] "" (cs.length + 1) true cs).map fun ss =>
    ss.foldl
      (fun es (name, s) =>
        match name with
        | some name => SettingValue.put name (.table (ofSection s)) es
        | none => (ofSection s).foldl (fun es (k, v) => SettingValue.put k v es) es)
      []

end SchemaIr.Ini
