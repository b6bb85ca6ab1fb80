import SchemaIr.Decimal.Reading
import SchemaIr.Settings.Value
import SchemaIr.Text.Letters
import SchemaIr.Text.Pieces

/-! # Settings files in JSON5

JSON5 is JSON as people write it: with comments, keys without quotes, strings in either quote that go on over
line ends, commas behind the last item, and numbers with a sign, in base sixteen, or infinite. -/

namespace SchemaIr.Json5

/-! ### Blanks -/

def isLineEnd (c : Char) : Bool := c == '\n' || c == '\r' || c == '\u2028' || c == '\u2029'

def isBlank (c : Char) : Bool := (Text.isBlank c && c != '\u0085') || c == '\uFEFF'

/-- The text after the end of a comment over lines. -/
def afterComment? : List Char → Option (List Char)
  | '*' :: '/' :: cs => some cs
  | _ :: cs => afterComment? cs
  | [] => none

/-- Goes on after blanks and comments. -/
def skip : Nat → List Char → List Char
  | 0, cs => cs
  | fuel + 1, cs =>
    match cs with
    | '/' :: '/' :: rest => skip fuel (rest.dropWhile (!isLineEnd ·))
    | '/' :: '*' :: rest =>
      match afterComment? rest with
      | some rest => skip fuel rest
      | none => cs
    | c :: rest => if isBlank c then skip fuel rest else cs
    | [] => []

/-- The text from the next sign on that is neither blank nor comment. -/
def next (cs : List Char) : List Char := skip (cs.length + 1) cs

/-! ### Strings -/

/-- The character of an escape by code point, after its mark. -/
def codeEscape? (cs : List Char) : Option (Char × List Char) := do
  let (n, rest) ← Text.hexNumber? 4 cs
  if 0xD800 ≤ n ∧ n ≤ 0xDBFF then
    match rest with
    | '\\' :: 'u' :: rest =>
      let (low, rest) ← Text.hexNumber? 4 rest
      if 0xDC00 ≤ low ∧ low ≤ 0xDFFF then
        some (Char.ofNat ((n - 0xD800) * 0x400 + (low - 0xDC00) + 0x10000), rest)
      else none
    | _ => none
  else if n.isValidChar then some (Char.ofNat n, rest)
  else none

/-- The character of an escape, after its backslash; none for an escaped line end. -/
def escape? (cs : List Char) : Option (Option Char × List Char) :=
  match cs with
  | 'b' :: cs => some (some '\x08', cs)
  | 'f' :: cs => some (some '\x0c', cs)
  | 'n' :: cs => some (some '\n', cs)
  | 'r' :: cs => some (some '\r', cs)
  | 't' :: cs => some (some '\t', cs)
  | 'v' :: cs => some (some '\x0b', cs)
  | '0' :: cs => some (some '\x00', cs)
  | 'x' :: cs => (Text.codePoint? 2 cs).map fun (c, cs) => (some c, cs)
  | 'u' :: cs => (codeEscape? cs).map fun (c, cs) => (some c, cs)
  | '\r' :: '\n' :: cs => some (none, cs)
  | c :: cs => if c.isDigit then none else some (if isLineEnd c then none else some c, cs)
  | [] => none

/-- A string, after its opening quote. -/
def string? (quote : Char) : Nat → List Char → List Char → Option (String × List Char)
  | 0, _, _ => none
  | _, _, [] => none
  | fuel + 1, done, c :: cs =>
    if c = quote then some (String.ofList done.reverse, cs)
    else if isLineEnd c then none
    else if c = '\\' then do
      let (e, cs) ← escape? cs
      string? quote fuel (e.toList ++ done) cs
    else string? quote fuel (c :: done) cs

/-! ### Numbers -/

/-- The digits that a text begins with. -/
def digits (cs : List Char) : List Char := cs.takeWhile Char.isDigit

/-- The exponent that stands here, as it is written; nothing if there is none. -/
def exponent (cs : List Char) : List Char :=
  match cs with
  | e :: rest =>
    if e = 'e' ∨ e = 'E' then
      let sign := rest.takeWhile (fun c => c == '+' || c == '-') |>.take 1
      let ds := digits (rest.drop sign.length)
      if ds.isEmpty then [] else e :: sign ++ ds
    else []
  | [] => []

/-- A number without sign, as it is written. -/
def numeral? (cs : List Char) : Option (List Char) :=
  match cs with
  | '0' :: x :: rest =>
    let ds := rest.takeWhile Text.isHexDigit
    if (x = 'x' ∨ x = 'X') ∧ !ds.isEmpty then some ('0' :: x :: ds) else decimal? cs
  | _ => decimal? cs
where
  decimal? (cs : List Char) : Option (List Char) :=
    let whole := if cs.head? = some '0' then ['0'] else digits cs
    let rest := cs.drop whole.length
    match rest with
    | '.' :: more =>
      let fraction := digits more
      if whole.isEmpty && fraction.isEmpty then none
      else
        let front := whole ++ '.' :: fraction
        some (front ++ exponent (cs.drop front.length))
    | _ => if whole.isEmpty then none else some (whole ++ exponent rest)

/-- The value of a number. In base sixteen it has no sign and at most 32 bits. -/
def ofNumeral? (sign numeral : List Char) : Option SettingValue :=
  match numeral with
  | '0' :: 'x' :: ds | '0' :: 'X' :: ds => do
    let n ← Text.ofRadix? 16 ds
    if sign.isEmpty && n < 4294967296 then some (.int n) else none
  | _ =>
    if numeral.all Char.isDigit then (Decimal.int? (sign ++ numeral)).map .int
    else do
      let x ← Decimal.float? (sign ++ numeral)
      if x.isFinite then some (.float x) else none

/-- The text after a word, if it begins with it. -/
def after? (word cs : List Char) : Option (List Char) :=
  if word.isPrefixOf cs then some (cs.drop word.length) else none

/-- A number. The words for infinity and for no number may have a minus, but no plus. -/
def number? (cs : List Char) : Option (SettingValue × List Char) :=
  let sign := cs.takeWhile (fun c => c == '+' || c == '-') |>.take 1
  let rest := cs.drop sign.length
  let signed (x : Float) : Option SettingValue :=
    if sign = ['+'] then none else some (.float (if sign = ['-'] then -x else x))
  match after? "Infinity".toList rest, after? "NaN".toList rest with
  | some cs, _ => (signed (1.0 / 0.0)).map (·, cs)
  | _, some cs => (signed (0.0 / 0.0)).map (·, cs)
  | none, none => do
    let numeral ← numeral? rest
    let v ← ofNumeral? sign numeral
    pure (v, rest.drop numeral.length)

/-! ### Keys and values -/

/-- A character with which a key without quotes begins. -/
def isKeyStart (c : Char) : Bool := Text.isLetter c || c == '$' || c == '_'

/-- A character of keys without quotes after the first one. -/
def isKeyPart (c : Char) : Bool := isKeyStart c || Text.isFollower c

/-- A key without quotes. -/
def bareKey? : Nat → List Char → List Char → Option (String × List Char)
  | 0, _, _ => none
  | fuel + 1, done, cs =>
    match cs with
    | '\\' :: 'u' :: rest => do
      let (c, rest) ← codeEscape? rest
      bareKey? fuel (c :: done) rest
    | c :: rest =>
      if isKeyStart c || (isKeyPart c && !done.isEmpty) then bareKey? fuel (c :: done) rest else finish done cs
    | [] => finish done []
where
  finish (done cs : List Char) : Option (String × List Char) :=
    if done.isEmpty then none else some (String.ofList done.reverse, cs)

/-- A key. -/
def key? (cs : List Char) : Option (String × List Char) :=
  match cs with
  | '"' :: cs => string? '"' (cs.length + 1) [] cs
  | '\'' :: cs => string? '\'' (cs.length + 1) [] cs
  | cs => bareKey? (cs.length + 1) [] cs

/-- One of the words for switches and for nothing, or a number. -/
def word? (cs : List Char) : Option (SettingValue × List Char) :=
  match after? "null".toList cs, after? "true".toList cs, after? "false".toList cs with
  | some cs, _, _ => some (.nothing, cs)
  | _, some cs, _ => some (.bool true, cs)
  | _, _, some cs => some (.bool false, cs)
  | none, none, none => number? cs

mutual

/-- The value that begins here. -/
def value? : Nat → List Char → Option (SettingValue × List Char)
  | 0, _ => none
  | fuel + 1, cs =>
    match cs with
    | '[' :: cs => (items? fuel (next cs)).map fun (vs, cs) => (.list vs, cs)
    | '\x7b' :: cs => (members? fuel (next cs) []).map fun (es, cs) => (.table es, cs)
    | '"' :: cs => (string? '"' (cs.length + 1) [] cs).map fun (s, cs) => (.text s, cs)
    | '\'' :: cs => (string? '\'' (cs.length + 1) [] cs).map fun (s, cs) => (.text s, cs)
    | cs => word? cs

/-- The items of a list after its bracket or a comma. -/
def items? : Nat → List Char → Option (List SettingValue × List Char)
  | 0, _ => none
  | fuel + 1, cs =>
    match cs with
    | ']' :: cs => some ([], cs)
    | cs => do
      let (v, cs) ← value? fuel cs
      match next cs with
      | ',' :: cs =>
        let (vs, cs) ← items? fuel (next cs)
        some (v :: vs, cs)
      | ']' :: cs => some ([v], cs)
      | _ => none

/-- The members of an object after its brace or a comma; the last one of a name counts. -/
def members? : Nat → List Char → List (String × SettingValue) → Option (List (String × SettingValue) × List Char)
  | 0, _, _ => none
  | fuel + 1, cs, es =>
    match cs with
    | '\x7d' :: cs => some (es, cs)
    | cs => do
      let (key, cs) ← key? cs
      match next cs with
      | ':' :: cs =>
        let (v, cs) ← value? fuel (next cs)
        let es := SettingValue.put key v es
        match next cs with
        | ',' :: cs => members? fuel (next cs) es
        | '\x7d' :: cs => some (es, cs)
        | _ => none
      | _ => none

end

/-- The settings in the characters of a file, which must be an object. -/
def parse? (cs : List Char) : Option (List (String × SettingValue)) := do
  match ← value? (cs.length + 1) (next cs) with
  | (.table es, rest) => if (next rest).isEmpty then some es else none
  | _ => none

end SchemaIr.Json5
