import SchemaIr.Text.Digits

/-! # The text of settings files

Blanks, comments, strings and keys of TOML. Every function reads the characters from where its construct
begins, and gives what it read with the characters after it, or nothing if the file is broken there. -/

namespace SchemaIr.Toml

/-! ### Blanks and comments -/

def isSpace (c : Char) : Bool := c == ' ' || c == '\t'

/-- A character that may not stand in comments and strings. -/
def isControl (c : Char) : Bool := (c.toNat < 0x20 && c != '\t') || c.toNat == 0x7F

def skipSpaces (cs : List Char) : List Char := cs.dropWhile isSpace

/-- Goes on after a comment, if one begins here. -/
def skipComment (cs : List Char) : Option (List Char) :=
  match cs with
  | '#' :: cs =>
    let text := cs.takeWhile fun c => c ≠ '\n'
    let text := if text.getLast? = some '\r' then text.dropLast else text
    if text.any isControl then none else some (cs.drop text.length)
  | cs => some cs

/-- Goes on after the end of a line. -/
def endLine (cs : List Char) : Option (List Char) := do
  match ← skipComment (skipSpaces cs) with
  | [] => some []
  | '\n' :: cs => some cs
  | '\r' :: '\n' :: cs => some cs
  | _ => none

/-- Goes on after blanks, comments and line ends, as they may stand inside a list. -/
def skipBlank : Nat → List Char → Option (List Char)
  | 0, cs => some cs
  | fuel + 1, cs => do
    match ← skipComment (skipSpaces cs) with
    | '\n' :: cs => skipBlank fuel cs
    | '\r' :: '\n' :: cs => skipBlank fuel cs
    | cs => some cs

/-! ### Strings -/

/-- The character of an escape, after its backslash. -/
def escape? (cs : List Char) : Option (Char × List Char) :=
  match cs with
  | 'b' :: cs => some ('\x08', cs)
  | 't' :: cs => some ('\t', cs)
  | 'n' :: cs => some ('\n', cs)
  | 'f' :: cs => some ('\x0c', cs)
  | 'r' :: cs => some ('\r', cs)
  | '"' :: cs => some ('"', cs)
  | '\\' :: cs => some ('\\', cs)
  | 'u' :: cs => Text.codePoint? 4 cs
  | 'U' :: cs => Text.codePoint? 8 cs
  | _ => none

/-- A string on one line, after its opening quote; in double quotes it has escapes. -/
def oneLine (quote : Char) : Nat → List Char → List Char → Option (String × List Char)
  | 0, _, _ => none
  | _, _, [] => none
  | fuel + 1, done, c :: cs =>
    if c = quote then some (String.ofList done.reverse, cs)
    else if isControl c then none
    else if c = '\\' ∧ quote = '"' then do
      let (e, cs) ← escape? cs
      oneLine quote fuel (e :: done) cs
    else oneLine quote fuel (c :: done) cs

/-- Goes on after a line end, if one is here. -/
def skipLineEnd (cs : List Char) : List Char :=
  match cs with
  | '\n' :: cs => cs
  | '\r' :: '\n' :: cs => cs
  | cs => cs

/-- Goes on after blanks and line ends. -/
def skipLines : List Char → List Char
  | '\n' :: cs => skipLines cs
  | '\r' :: '\n' :: cs => skipLines cs
  | c :: cs => if isSpace c then skipLines cs else c :: cs
  | [] => []

/-- The text after an escaped line end and the blanks that follow it; none if no line end is escaped. -/
def continued? (cs : List Char) : Option (List Char) :=
  match skipSpaces cs with
  | '\n' :: cs => some (skipLines cs)
  | '\r' :: '\n' :: cs => some (skipLines cs)
  | _ => none

/-- A string over several lines, after its three opening quotes. Up to two quotes may stand before the
    three closing ones, and a line end is a line feed, however it is written. -/
def manyLines (quote : Char) : Nat → List Char → List Char → Option (String × List Char)
  | 0, _, _ => none
  | _, _, [] => none
  | fuel + 1, done, c :: cs =>
    let quotes := ((c :: cs).takeWhile (· == quote)).length
    if 3 ≤ quotes then
      if 5 < quotes then none
      else some (String.ofList (List.replicate (quotes - 3) quote ++ done).reverse, (c :: cs).drop quotes)
    else if c = '\n' then manyLines quote fuel (c :: done) cs
    else if c = '\r' ∧ cs.head? = some '\n' then manyLines quote fuel done cs
    else if isControl c then none
    else if c = '\\' ∧ quote = '"' then
      match continued? cs with
      | some cs => manyLines quote fuel done cs
      | none => do
        let (e, cs) ← escape? cs
        manyLines quote fuel (e :: done) cs
    else manyLines quote fuel (c :: done) cs

/-- A string. -/
def string? (cs : List Char) : Option (String × List Char) :=
  match cs with
  | '"' :: '"' :: '"' :: cs => manyLines '"' (cs.length + 1) [] (skipLineEnd cs)
  | '\'' :: '\'' :: '\'' :: cs => manyLines '\'' (cs.length + 1) [] (skipLineEnd cs)
  | '"' :: cs => oneLine '"' (cs.length + 1) [] cs
  | '\'' :: cs => oneLine '\'' (cs.length + 1) [] cs
  | _ => none

/-! ### Keys -/

/-- A character of keys without quotes. -/
def isBare (c : Char) : Bool := c.isAlphanum || c == '_' || c == '-'

/-- A key without dots. -/
def simpleKey? (cs : List Char) : Option (String × List Char) :=
  match cs with
  | '"' :: cs => oneLine '"' (cs.length + 1) [] cs
  | '\'' :: cs => oneLine '\'' (cs.length + 1) [] cs
  | cs =>
    let name := cs.takeWhile isBare
    if name.isEmpty then none else some (String.ofList name, cs.dropWhile isBare)

/-- The parts of a key between its dots, in a text of fewer characters than the bound. -/
def parts? : Nat → List Char → Option (List String × List Char)
  | 0, _ => none
  | fuel + 1, cs => do
    let (name, cs) ← simpleKey? (skipSpaces cs)
    match skipSpaces cs with
    | '.' :: cs =>
      let (names, cs) ← parts? fuel cs
      pure (name :: names, cs)
    | cs => pure ([name], cs)

/-- The number of levels that tables and lists may have; deeper ones are refused. -/
def maxDepth : Nat := 79

/-- A key in its parts. -/
def key? (cs : List Char) : Option (List String × List Char) := do
  let (names, cs) ← parts? (cs.length + 1) cs
  if names.length ≤ maxDepth then some (names, cs) else none

end SchemaIr.Toml
