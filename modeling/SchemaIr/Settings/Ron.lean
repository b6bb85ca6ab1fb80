import SchemaIr.Decimal.Reading
import SchemaIr.Settings.Value

/-! # Settings files in object notation with round brackets

In RON a record is written in round brackets, with or without its name in front, its fields with colons. Maps
stand in braces, lists in square brackets, and tuples are taken for lists. An optional value is `Some(…)` or
`None`; the latter is no value where there could be one, as are the unit and a name by itself. -/

namespace SchemaIr.Ron

/-! ### Blanks -/

def isBlank (c : Char) : Bool := c == ' ' || c == '\t' || c == '\n' || c == '\r'

/-- The text after the end of a comment over lines, in which comments may stand. -/
def afterComment? : Nat → List Char → Option (List Char)
  | 0, '*' :: '/' :: cs => some cs
  | depth + 1, '*' :: '/' :: cs => afterComment? depth cs
  | depth, '/' :: '*' :: cs => afterComment? (depth + 1) cs
  | depth, _ :: cs => afterComment? depth cs
  | _, [] => none

/-- Goes on after blanks and comments. -/
def skip : Nat → List Char → List Char
  | 0, cs => cs
  | fuel + 1, cs =>
    match cs with
    | '/' :: '/' :: rest => skip fuel (rest.dropWhile (· ≠ '\n'))
    | '/' :: '*' :: rest =>
      match afterComment? 0 rest with
      | some rest => skip fuel rest
      | none => cs
    | c :: rest => if isBlank c then skip fuel rest else cs
    | [] => []

/-- The text from the next sign on that is neither blank nor comment. -/
def next (cs : List Char) : List Char := skip (cs.length + 1) cs

/-! ### Names and strings -/

def isNameStart (c : Char) : Bool := c.isAlpha || c == '_'

def isNameChar (c : Char) : Bool := c.isAlphanum || c == '_'

/-- A character of raw names. -/
def isRawChar (c : Char) : Bool := isNameChar c || c == '.' || c == '+' || c == '-'

/-- A name. A raw one, behind its mark, may also have dots, pluses and hyphens; they may not follow another
    one. -/
def name? (cs : List Char) : Option (String × List Char) :=
  match cs with
  | 'r' :: '#' :: c :: rest =>
    if isRawChar c then some (String.ofList (c :: rest.takeWhile isRawChar), rest.dropWhile isRawChar) else none
  | 'r' :: '"' :: _ | 'r' :: '#' :: _ => none
  | c :: rest =>
    let after := rest.dropWhile isNameChar
    if isNameStart c && !after.head?.any isRawChar then
      some (String.ofList (c :: rest.takeWhile isNameChar), after)
    else none
  | [] => none

/-- The character of an escape, after its backslash. -/
def escape? (cs : List Char) : Option (Char × List Char) :=
  match cs with
  | '\'' :: cs => some ('\'', cs)
  | '"' :: cs => some ('"', cs)
  | '\\' :: cs => some ('\\', cs)
  | 'n' :: cs => some ('\n', cs)
  | 'r' :: cs => some ('\r', cs)
  | 't' :: cs => some ('\t', cs)
  | '0' :: cs => some ('\x00', cs)
  | 'x' :: cs => Text.codePoint? 2 cs
  | 'u' :: '\x7b' :: cs =>
    let ds := cs.takeWhile Text.isHexDigit
    match cs.drop ds.length with
    | '\x7d' :: rest =>
      if 1 ≤ ds.length ∧ ds.length ≤ 6 then (Text.codePoint? ds.length ds).map fun (c, _) => (c, rest) else none
    | _ => none
  | _ => none

/-- A string, after its opening quote. -/
def string? : Nat → List Char → List Char → Option (String × List Char)
  | 0, _, _ => none
  | _, _, [] => none
  | fuel + 1, done, c :: cs =>
    if c = '"' then some (String.ofList done.reverse, cs)
    else if c = '\\' then do
      let (e, cs) ← escape? cs
      string? fuel (e :: done) cs
    else string? fuel (c :: done) cs

/-- A string without escapes, after its opening quote; so many number signs stand behind the closing one. -/
def rawString? (signs : Nat) (done : List Char) : List Char → Option (String × List Char)
  | [] => none
  | c :: cs =>
    if c = '"' ∧ (List.replicate signs '#').isPrefixOf cs then
      some (String.ofList done.reverse, cs.drop signs)
    else rawString? signs (c :: done) cs

/-- A raw string, behind the letter that marks it. -/
def raw? (cs : List Char) : Option (String × List Char) :=
  let signs := (cs.takeWhile (· == '#')).length
  match cs.drop signs with
  | '"' :: cs => rawString? signs [] cs
  | _ => none

/-- A character, after its opening quote. -/
def char? (cs : List Char) : Option (String × List Char) := do
  let (c, cs) ← match cs with
    | '\\' :: cs => escape? cs
    | '\'' :: _ => none
    | c :: cs => some (c, cs)
    | [] => none
  match cs with
  | '\'' :: cs => some (String.singleton c, cs)
  | _ => none

/-! ### Numbers -/

/-- A character of integers. -/
def isIntChar (c : Char) : Bool := Text.isHexDigit c || c == '_'

/-- A character of numbers with a point or an exponent. -/
def isFloatChar (c : Char) : Bool := c.isDigit || c ∈ ['e', 'E', '.', '+', '-', '_']

/-- The base in which an integer is written, with the text behind its mark. -/
def base (cs : List Char) : Nat × List Char :=
  match cs with
  | '0' :: 'x' :: cs => (16, cs)
  | '0' :: 'o' :: cs => (8, cs)
  | '0' :: 'b' :: cs => (2, cs)
  | cs => (10, cs)

/-- An integer without sign. -/
def natural? (cs : List Char) : Option (Nat × List Char) :=
  let (base, cs) := base cs
  let ds := cs.takeWhile isIntChar
  if ds.isEmpty ∨ ds.head? = some '_' then none
  else (Text.ofRadix? base (ds.filter (· ≠ '_'))).map (·, cs.drop ds.length)

/-- An integer of 64 bits; without sign it may need all of them for its value, and is then taken as a
    decimal. -/
def integer? (cs : List Char) : Option (SettingValue × List Char) := do
  let (negative, unsigned) := Text.signed cs
  let (n, rest) ← natural? unsigned
  let value : Int := if negative then -(n : Int) else n
  if Bounds.fitsInt64 value then some (.int value, rest)
  else if unsigned.length = cs.length ∧ n < 18446744073709551616 then some (.float (Decimal.nearest n 0), rest)
  else none

/-- The text after a word, if it begins with it and no name goes on there. -/
def afterWord? (word : String) (cs : List Char) : Option (List Char) :=
  let rest := cs.drop word.length
  if word.toList.isPrefixOf cs && !rest.head?.any isNameChar then some rest else none

/-- The words for infinity and for no number. -/
def floatWords : List (String × Float) :=
  [("inf", 1.0 / 0.0), ("+inf", 1.0 / 0.0), ("-inf", -(1.0 / 0.0)), ("NaN", 0.0 / 0.0), ("+NaN", 0.0 / 0.0),
    ("-NaN", 0.0 / 0.0)]

/-- A number with a point or an exponent, or one of the words. It has no underscores. -/
def float? (cs : List Char) : Option (SettingValue × List Char) :=
  match floatWords.findSome? fun (word, x) => (afterWord? word cs).map (x, ·) with
  | some (x, rest) => some (.float x, rest)
  | none =>
    let word := cs.takeWhile isFloatChar
    (Decimal.unsigned? (Text.signed word).2).map fun x =>
      (.float (if (Text.signed word).1 then -x else x), cs.drop word.length)

/-- A number. It is read as an integer if it can be, unless characters that no integer has go on behind it. -/
def number? (cs : List Char) : Option (SettingValue × List Char) :=
  let digits := (Text.signed cs).2
  if (digits.takeWhile isIntChar).length < (digits.takeWhile isFloatChar).length then float? cs
  else
    match integer? cs with
    | some r => some r
    | none => float? cs

/-! ### Values -/

/-- The number of levels that values may have, where each value in another one counts, and so does what
    holds it. -/
def maxDepth : Nat := 128

/-- A record, not a tuple, stands behind the bracket: it begins with a name and a colon. -/
def isRecord (cs : List Char) : Bool :=
  match name? cs with
  | some (_, rest) => (next rest).head? = some ':'
  | none => false

/-- The members of a map so far, by whether the key is a character or a string. -/
structure Members where
  chars : List (String × SettingValue)
  strings : List (String × SettingValue)

namespace Members

/-- The values of the keys; a string counts for more than a character. -/
def entries (m : Members) : List (String × SettingValue) :=
  m.strings.foldl (fun es (k, v) => SettingValue.put k v es) m.chars

/-- Writes the value of a key that is a string. -/
def put (key : String) (v : SettingValue) (m : Members) : Members :=
  { m with strings := SettingValue.put key v m.strings }

/-- Writes the value of a key that is a character. -/
def putChar (key : String) (v : SettingValue) (m : Members) : Members :=
  { m with chars := SettingValue.put key v m.chars }

end Members

/-- The key of a member of a map, which is a text, with how its value is written. -/
def key? (cs : List Char) : Option ((SettingValue → Members → Members) × List Char) :=
  match cs with
  | '\'' :: cs => (char? cs).map fun (k, cs) => (Members.putChar k, cs)
  | '"' :: cs => (string? (cs.length + 1) [] cs).map fun (k, cs) => (Members.put k, cs)
  | 'r' :: cs => (raw? cs).map fun (k, cs) => (Members.put k, cs)
  | _ => none

/-- Goes on behind a comma, if one stands here. -/
def skipComma (cs : List Char) : List Char :=
  match next cs with
  | ',' :: cs => next cs
  | cs => cs

mutual

/-- The value that begins here, of so many levels at most. Where optional values need no mark (`bare`), it may
    also follow the mark without brackets. -/
def value? (bare : Bool) : Nat → Nat → List Char → Option (SettingValue × List Char)
  | 0, _, _ => none
  | fuel + 1, levels, cs =>
    match name? cs with
    | some ("true", cs) => some (.bool true, cs)
    | some ("false", cs) => some (.bool false, cs)
    | some ("None", cs) => some (.nothing, cs)
    | some ("inf", cs) => some (.float (1.0 / 0.0), cs)
    | some ("NaN", cs) => some (.float (0.0 / 0.0), cs)
    | some ("Some", cs) =>
      if levels = 0 then none
      else
        match next cs with
        | '(' :: cs => do
          let (v, cs) ← value? bare fuel (levels - 1) (next cs)
          match skipComma cs with
          | ')' :: cs => some (v, cs)
          | _ => none
        | cs => if bare then value? bare fuel (levels - 1) cs else none
    | some (_, cs) =>
      match next cs with
      | '(' :: cs => if levels = 0 then none else bracket? bare fuel (levels - 1) (next cs)
      | cs => some (.nothing, cs)
    | none =>
      match cs with
      | '(' :: ')' :: cs => some (.nothing, cs)
      | '(' :: cs => if levels = 0 then none else bracket? bare fuel (levels - 1) (next cs)
      | '[' :: cs =>
        if levels = 0 then none
        else (items? bare fuel (levels - 1) ']' (next cs)).map fun (vs, cs) => (.list vs, cs)
      | '\x7b' :: cs =>
        if levels = 0 then none
        else (members? bare fuel (levels - 1) (next cs) ⟨[], []⟩).map fun (m, cs) => (.table m.entries, cs)
      | '"' :: cs => (string? (cs.length + 1) [] cs).map fun (s, cs) => (.text s, cs)
      | 'r' :: cs => (raw? cs).map fun (s, cs) => (.text s, cs)
      | '\'' :: cs => (char? cs).map fun (s, cs) => (.text s, cs)
      | cs => number? cs

/-- What stands in round brackets, behind the opening one. -/
def bracket? (bare : Bool) : Nat → Nat → List Char → Option (SettingValue × List Char)
  | 0, _, _ => none
  | fuel + 1, levels, cs =>
    if isRecord cs then (fields? bare fuel levels cs []).map fun (es, cs) => (.table es, cs)
    else (items? bare fuel levels ')' cs).map fun (vs, cs) => (.list vs, cs)

/-- The items up to a closing bracket. -/
def items? (bare : Bool) : Nat → Nat → Char → List Char → Option (List SettingValue × List Char)
  | 0, _, _, _ => none
  | _, _, _, [] => none
  | fuel + 1, levels, close, c :: cs =>
    if c = close then some ([], cs)
    else if levels = 0 then none
    else do
      let (v, cs) ← value? bare fuel (levels - 1) (c :: cs)
      match next cs with
      | ',' :: cs =>
        let (vs, cs) ← items? bare fuel levels close (next cs)
        some (v :: vs, cs)
      | d :: cs => if d = close then some ([v], cs) else none
      | [] => none

/-- The fields of a record up to its closing bracket; the last one of a name counts. -/
def fields? (bare : Bool) : Nat → Nat → List Char → List (String × SettingValue) →
    Option (List (String × SettingValue) × List Char)
  | 0, _, _, _ => none
  | _, _, ')' :: cs, es => some (es, cs)
  | fuel + 1, levels, cs, es =>
    if levels = 0 then none
    else do
      let (key, cs) ← name? cs
      match next cs with
      | ':' :: cs =>
        let (v, cs) ← value? bare fuel (levels - 1) (next cs)
        let es := SettingValue.put key v es
        match next cs with
        | ',' :: cs => fields? bare fuel levels (next cs) es
        | ')' :: cs => some (es, cs)
        | _ => none
      | _ => none

/-- The members of a map up to its closing brace; the last one of a key counts. -/
def members? (bare : Bool) : Nat → Nat → List Char → Members → Option (Members × List Char)
  | 0, _, _, _ => none
  | _, _, '\x7d' :: cs, m => some (m, cs)
  | fuel + 1, levels, cs, m =>
    if levels = 0 then none
    else do
      let (write, cs) ← key? cs
      match next cs with
      | ':' :: cs =>
        let (v, cs) ← value? bare fuel (levels - 1) (next cs)
        match next cs with
        | ',' :: cs => members? bare fuel levels (next cs) (write v m)
        | '\x7d' :: cs => some (write v m, cs)
        | _ => none
      | _ => none

end

/-! ### Files -/

/-- Goes on behind some words, each with blanks behind it. -/
def afterAll? : List String → List Char → Option (List Char)
  | [], cs => some cs
  | word :: words, cs =>
    if word.toList.isPrefixOf cs then afterAll? words (next (cs.drop word.length)) else none

/-- The extensions of the notation. -/
def extensions : List String := ["unwrap_newtypes", "implicit_some", "unwrap_variant_newtypes"]

/-- The names of extensions in brackets, up to the closing ones. -/
def names? : Nat → List Char → Option (List String × List Char)
  | 0, _ => none
  | fuel + 1, cs => do
    let (name, cs) ← name? cs
    if name ∈ extensions then
      match next cs with
      | ',' :: cs =>
        if (next cs).head?.any isNameChar then
          let (names, cs) ← names? fuel (next cs)
          pure (name :: names, cs)
        else pure ([name], ← afterAll? [")", "]"] (next cs))
      | cs => pure ([name], ← afterAll? [")", "]"] cs)
    else none

/-- The extensions that a file enables at its beginning, with the text behind them. -/
def enabled? : Nat → List Char → Option (List String × List Char)
  | 0, cs => some ([], cs)
  | fuel + 1, cs =>
    if cs.head? = some '#' then do
      let (names, cs) ← names? (cs.length + 1) (← afterAll? ["#", "!", "[", "enable", "("] cs)
      let (more, cs) ← enabled? fuel cs
      pure (names ++ more, cs)
    else some ([], cs)

/-- The settings in the characters of a file, which must be a record or a map. -/
def parse? (cs : List Char) : Option (List (String × SettingValue)) := do
  let (names, cs) ← enabled? cs.length (next cs)
  match ← value? (names.contains "implicit_some") (2 * cs.length + 2) maxDepth cs with
  | (.table es, rest) => if (next rest).isEmpty then some es else none
  | _ => none

end SchemaIr.Ron
