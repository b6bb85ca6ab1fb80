import SchemaIr.Json.Number
import SchemaIr.Text.Digits

/-! # The tokens of a JSON text

A JSON text is cut into brackets, commas, colons, words, numbers and strings. The text need not be JSON:
the first token that breaks off is the last one, and carries the error.

A token is read or, where the document has no use for it, skipped. Skipping looks less closely: it minds
neither the range of a number nor whether escaped surrogates come in pairs. So a token carries what reading
it yields, and a broken one also the error of skipping it. -/

namespace SchemaIr.Json

/-- A piece of a JSON text. -/
inductive Token
  /-- One of the brackets, comma and colon. -/
  | mark (c : Char)
  | null
  | bool (b : Bool)
  | number (value : Except Error Number)
  | text (value : Except Error String)
  /-- A word or number that breaks off, or a character that begins no token. -/
  | broken (reading skipping : Error)
  /-- A string that breaks off. -/
  | brokenText (reading skipping : Error)

namespace Token

/-! ### Strings -/

/-- The number of bytes of a text. -/
def byteCount (cs : List Char) : Nat := cs.foldl (fun n c => n + c.utf8Size) 0

/-- The number that four hexadecimal digits state, with the text after them. -/
def hexEscape (cs : List Char) : Except Error (Nat × List Char) :=
  match Text.hexNumber? 4 cs with
  | some r => .ok r
  | none => .error (if 4 ≤ byteCount cs then .badEscape else .stringEnds)

/-- The character that a one-letter escape stands for. -/
def shortEscape? : Char → Option Char
  | '"' => some '"'
  | '\\' => some '\\'
  | '/' => some '/'
  | 'b' => some '\x08'
  | 'f' => some '\x0c'
  | 'n' => some '\n'
  | 'r' => some '\r'
  | 't' => some '\t'
  | _ => none

/-- The character of an escape by code point, with the text after it. A leading surrogate needs the
    escape of a trailing one after it. -/
def codeEscape (cs : List Char) : Except Error (Char × List Char) := do
  let (n, rest) ← hexEscape cs
  if 0xDC00 ≤ n ∧ n ≤ 0xDFFF then .error .loneSurrogate
  else if n < 0xD800 ∨ 0xDBFF < n then pure (Char.ofNat n, rest)
  else
    match rest with
    | '\\' :: 'u' :: rest =>
      let (low, rest) ← hexEscape rest
      if low < 0xDC00 ∨ 0xDFFF < low then .error .loneSurrogate
      else pure (Char.ofNat ((n - 0xD800) * 0x400 + (low - 0xDC00) + 0x10000), rest)
    | [] | ['\\'] => .error .stringEnds
    | _ => .error .hexEscapeEnds

/-- Reads a string after its opening quote. -/
def readText : Nat → List Char → List Char → Except Error String
  | 0, _, _ => .error .stringEnds
  | _, _, [] => .error .stringEnds
  | fuel + 1, done, c :: cs =>
    if c = '"' then .ok (String.ofList done.reverse)
    else if c.toNat < 0x20 then .error .controlCharacter
    else if c = '\\' then
      match cs with
      | [] => .error .stringEnds
      | 'u' :: cs => do
        let (e, rest) ← codeEscape cs
        readText fuel (e :: done) rest
      | e :: cs =>
        match shortEscape? e with
        | some e => readText fuel (e :: done) cs
        | none => .error .badEscape
    else readText fuel (c :: done) cs

/-- Skips a string after its opening quote; gives the text after it. -/
def skipText : Nat → List Char → Except Error (List Char)
  | 0, _ => .error .stringEnds
  | _, [] => .error .stringEnds
  | fuel + 1, c :: cs =>
    if c = '"' then .ok cs
    else if c.toNat < 0x20 then .error .controlCharacter
    else if c = '\\' then
      match cs with
      | [] => .error .stringEnds
      | 'u' :: cs => do
        let (_, rest) ← hexEscape cs
        skipText fuel rest
      | e :: cs => if (shortEscape? e).isSome then skipText fuel cs else .error .badEscape
    else skipText fuel cs

/-! ### Numbers -/

/-- The error of a number that lacks a digit before `rest`. -/
def noDigit (rest : List Char) : Token := .broken (if rest.isEmpty then .valueEnds else .badNumber) .badNumber

/-- The digits that a text begins with, and the text after them. -/
def digits (cs : List Char) : List Char × List Char := (cs.takeWhile Char.isDigit, cs.dropWhile Char.isDigit)

/-- The exponent that a text begins with, if it begins with one. -/
def exponentPart (cs : List Char) : Except Token (Option (Bool × List Char) × List Char) :=
  match cs with
  | c :: rest =>
    if c = 'e' ∨ c = 'E' then
      let (down, rest) := match rest with
        | '+' :: rest => (false, rest)
        | '-' :: rest => (true, rest)
        | rest => (false, rest)
      match digits rest with
      | ([], rest) => .error (noDigit rest)
      | (ds, rest) => .ok (some (down, ds), rest)
    else .ok (none, cs)
  | [] => .ok (none, cs)

/-- The fraction that a text begins with, if it begins with one. -/
def fractionPart (cs : List Char) : Except Token (Option (List Char) × List Char) :=
  match cs with
  | '.' :: rest =>
    match digits rest with
    | ([], rest) => .error (noDigit rest)
    | (ds, rest) => .ok (some ds, rest)
  | _ => .ok (none, cs)

/-- The number that a text begins with after its sign, with the text after it. -/
def number? (negative : Bool) (cs : List Char) : Except Token (Token × List Char) :=
  match digits cs with
  | ([], rest) => .error (noDigit rest)
  | ('0' :: _ :: _, _) => .error (.broken .badNumber .badNumber)
  | (whole, rest) => do
    let (fraction, rest) ← fractionPart rest
    let (exponent, rest) ← exponentPart rest
    pure (.number (Number.ofWritten ⟨negative, whole, fraction, exponent⟩), rest)

/-! ### Words and the whole text -/

/-- The text after a word that it begins with; otherwise the error of the word's breaking off. -/
def word (cs : List Char) : List Char → Except Token (List Char)
  | [] => .ok cs
  | w :: ws =>
    match cs with
    | [] => .error (.broken .valueEnds .valueEnds)
    | c :: cs => if c = w then word cs ws else .error (.broken .noWord .noWord)

/-- White space between tokens. -/
def isSpace (c : Char) : Bool := c == ' ' || c == '\n' || c == '\t' || c == '\r'

/-- The token that begins with a character other than white space, with the text after it; a broken token
    ends the text. -/
def first (c : Char) (cs : List Char) : Except Token (Token × List Char) :=
  if c ∈ ['[', ']', '\x7b', '\x7d', ',', ':'] then .ok (.mark c, cs)
  else if c = '"' then
    match skipText (cs.length + 1) cs with
    | .ok rest => .ok (.text (readText (cs.length + 1) [] cs), rest)
    | .error skipping =>
      match readText (cs.length + 1) [] cs with
      | .ok _ => .error (.brokenText skipping skipping)
      | .error reading => .error (.brokenText reading skipping)
  else if c = '-' then number? true cs
  else if c.isDigit then number? false (c :: cs)
  else if c = 'n' then (word cs ['u', 'l', 'l']).map (.null, ·)
  else if c = 't' then (word cs ['r', 'u', 'e']).map (.bool true, ·)
  else if c = 'f' then (word cs ['a', 'l', 's', 'e']).map (.bool false, ·)
  else .error (.broken .noValue .noValue)

/-- The tokens of a text of at most `fuel` characters. -/
def scan : Nat → List Char → List Token
  | 0, _ => []
  | _, [] => []
  | fuel + 1, c :: cs =>
    if isSpace c then scan fuel cs
    else
      match first c cs with
      | .ok (token, rest) => token :: scan fuel rest
      | .error token => [token]

/-- The tokens of a text, up to the first broken one. -/
def ofText (s : String) : List Token := scan (s.length + 1) s.toList

end Token

end SchemaIr.Json
