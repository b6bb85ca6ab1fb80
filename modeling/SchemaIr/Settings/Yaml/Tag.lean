import SchemaIr.Settings.Yaml.Cursor
import SchemaIr.Text.Digits

/-! # Tags of indented files

A tag tells what a YAML value is. It is written as a handle between exclamation marks and a suffix, or as a
whole between angle brackets; what a handle stands for, a directive at the beginning of the file may say.
In a tag a character may be given by its bytes. -/

namespace SchemaIr.Yaml

/-! ### Characters of tags -/

/-- A character of whole tags. -/
def isTagChar (c : Char) : Bool :=
  c.isAlphanum || c == '-' ||
    c ∈ ['#', ';', '/', '?', ':', '@', '&', '=', '+', '$', ',', '_', '.', '!', '~', '*', '\'', '(', ')', '[', ']', '%']

/-- A character of the suffix of a tag. -/
def isSuffixChar (c : Char) : Bool := isTagChar c && !isFlowMark c && c != '!'

/-- A byte in two hexadecimal digits behind a percent sign. -/
def byte? (cs : List Char) : Option (Nat × List Char) :=
  match cs with
  | '%' :: cs => Text.hexNumber? 2 cs
  | _ => none

/-- The number that a byte begins, with so many more bytes, each of which counts 256 times less than the one
    before. -/
def moreBytes? : Nat → Nat → List Char → Option (Nat × List Char)
  | 0, n, cs => some (n, cs)
  | more + 1, n, cs => do
    let (b, cs) ← byte? cs
    if 0x80 ≤ b ∧ b < 0xC0 then moreBytes? more (256 * n + b) cs else none

/-- The character that is given by its bytes; the first one tells how many there are. -/
def percent? (cs : List Char) : Option (Char × List Char) := do
  let (b, cs) ← byte? cs
  let more ←
    if b < 0x80 then some 0
    else if 0xC0 ≤ b ∧ b < 0xE0 then some 1
    else if 0xE0 ≤ b ∧ b < 0xF0 then some 2
    else if 0xF0 ≤ b ∧ b < 0xF8 then some 3
    else none
  let (n, cs) ← moreBytes? more b cs
  if n.isValidChar then some (Char.ofNat n, cs) else none

/-- The text of some characters from here on. -/
def tagText? (isChar : Char → Bool) : Nat → List Char → Option (List Char × List Char)
  | 0, _ => none
  | _, [] => some ([], [])
  | fuel + 1, c :: cs =>
    if !isChar c then some ([], c :: cs)
    else do
      let (c, cs) ← if c = '%' then percent? (c :: cs) else some (c, cs)
      let (text, cs) ← tagText? isChar fuel cs
      pure (c :: text, cs)

/-! ### Tags -/

/-- The handle that begins here: an exclamation mark and a word, with another mark behind it if one stands
    there. -/
def handle? (cs : List Char) : Option (List Char × List Char) :=
  match cs with
  | '!' :: cs =>
    let word := cs.takeWhile isWordChar
    match cs.drop word.length with
    | '!' :: rest => some ('!' :: word ++ ['!'], rest)
    | rest => some ('!' :: word, rest)
  | _ => none

/-- A handle has a mark at either end. -/
def isClosed (handle : List Char) : Bool := 2 ≤ handle.length && handle.getLast? == some '!'

/-- A tag as it is written: its handle and its suffix. -/
structure Tag where
  handle : String
  suffix : String
  deriving DecidableEq, Repr

/-- The tag whose exclamation mark stands here. -/
def tagHere? (cs : List Char) : Option (Tag × List Char) := do
  match cs with
  | '!' :: '<' :: cs =>
    let (suffix, cs) ← tagText? isTagChar (cs.length + 1) cs
    match cs with
    | '>' :: cs => some (⟨"", String.ofList suffix⟩, cs)
    | _ => none
  | cs =>
    let (handle, cs) ← handle? cs
    let (suffix, rest) ← tagText? isSuffixChar (cs.length + 1) cs
    if isClosed handle then
      if rest.length = cs.length then none else some (⟨String.ofList handle, String.ofList suffix⟩, rest)
    else
      let suffix := handle.drop 1 ++ suffix
      some (if suffix.isEmpty then ⟨"", "!"⟩ else ⟨"!", String.ofList suffix⟩, rest)

/-- The tag that begins at a place; behind it stands a gap, or in brackets a mark of theirs. -/
def tag? (inFlow : Bool) (p : Cursor) : Option (Tag × Cursor) := do
  let (tag, rest) ← tagHere? p.cs
  if atGap rest || (inFlow && rest.head?.any isFlowMark) then some (tag, p.upTo rest) else none

/-- What the handle of the tags of the language itself stands for. -/
def coreHandle : String := "tag:yaml.org,2002:"

/-- The tag in which what a handle stands for has taken its place. -/
def Tag.resolve? (handles : List (String × String)) (t : Tag) : Option Tag :=
  match handles.find? (·.1 == t.handle) with
  | some (_, whole) => some { t with handle := whole }
  | none =>
    if t.handle = "!!" then some { t with handle := coreHandle }
    else if isClosed t.handle.toList then none
    else some t

/-! ### Directives -/

/-- A directive at the beginning of a file. -/
inductive Directive
  /-- The version of the language; it makes no difference. -/
  | version
  /-- What a handle stands for. -/
  | handle (name whole : String)
  deriving DecidableEq, Repr

/-- A part of a version: digits, at most nine. -/
def versionPart? (cs : List Char) : Option (List Char) :=
  let ds := cs.takeWhile Char.isDigit
  if ds.isEmpty ∨ 9 < ds.length then none else some (cs.drop ds.length)

/-- What a handle stands for, in a directive. -/
def whole? (cs : List Char) : Option (List Char × List Char) :=
  match cs with
  | '!' :: rest => (tagText? isTagChar (rest.length + 1) rest).map fun (text, rest) => ('!' :: text, rest)
  | c :: _ => if isSuffixChar c then tagText? isTagChar (cs.length + 1) cs else none
  | [] => none

/-- The text of a directive after its name; one with an unknown name stands for nothing. -/
def directiveText? (name : String) (cs : List Char) : Option (Directive × List Char) :=
  if name = "YAML" then do
    match ← versionPart? (cs.dropWhile isSpace) with
    | '.' :: cs => (versionPart? cs).map (.version, ·)
    | _ => none
  else if name = "TAG" then do
    let (handle, cs) ← handle? (cs.dropWhile isSpace)
    if handle ≠ ['!'] ∧ !isClosed handle then none
    else
      let (whole, cs) ← whole? (cs.dropWhile isSpace)
      if atGap cs then some (.handle (String.ofList handle) (String.ofList whole), cs) else none
  else some (.handle "" "", cs.dropWhile (· ≠ '\n'))

/-- The directive whose percent sign stands here; it ends its line. -/
def directive? (p : Cursor) : Option (Directive × Cursor) := do
  let word := (p.cs.drop 1).takeWhile isWordChar
  let rest := (p.cs.drop 1).drop word.length
  if word.isEmpty ∨ !atGap rest then none
  else
    let (directive, rest) ← directiveText? (String.ofList word) rest
    let q ← (p.upTo rest).skipEmpty?
    pure (directive, if q.cs.isEmpty then q else q.newLine)

end SchemaIr.Yaml
