import SchemaIr.Settings.Yaml.Scalar
import SchemaIr.Settings.Yaml.Tag

/-! # Tokens of indented files

A YAML file is a row of tokens: scalars, and the marks that put them into lists and tables. Some marks are not
in the text. Where a line is indented farther than the block that it is in, a list or table begins, and where
one is indented less, blocks end. And a scalar turns out to be a key only by the colon behind it: the mark of
a key is then put before it, and a table begins there if none has. A key that is not marked stands on one
line, and its colon within 1024 characters.

In brackets the columns of the text do not count, but it must be indented farther than the block that holds
it. An item of a list in brackets may be a table of one key without braces; its braces are put around it. -/

namespace SchemaIr.Yaml

/-- A token. -/
inductive Token
  | directive (d : Directive)
  | documentStart
  | documentEnd
  | listStart
  | tableStart
  | blockEnd
  | flowListStart
  | flowListEnd
  | flowTableStart
  | flowTableEnd
  | item
  | comma
  | key
  | value
  | reference (name : String)
  | anchor (name : String)
  | tag (t : Tag)
  | scalar (plain : Bool) (s : String)
  deriving DecidableEq, Repr

/-- What may turn out to be a key. -/
structure KeyMark where
  possible : Bool
  /-- The block can only go on with a key. -/
  required : Bool
  /-- The number of tokens before it. -/
  place : Nat
  index : Nat
  line : Nat
  col : Nat
  deriving Repr

/-- No key. -/
def KeyMark.none : KeyMark := ⟨false, false, 0, 0, 0, 0⟩

/-- A step of the indentation. -/
structure Indent where
  /-- The column outside. -/
  outer : Int
  /-- A block ends with the step; without, the step only keeps text from standing too far out. -/
  block : Bool
  deriving Repr

/-- The reading of tokens. -/
structure Reader where
  here : Cursor
  tokens : Array Token
  /-- The column of the block that is open, one less than the first if none is. -/
  indent : Int
  /-- The steps of the indentation, the last one first. -/
  indents : List Indent
  /-- A key without a mark may begin here. -/
  keyAllowed : Bool
  /-- What may turn out to be a key, in the brackets that are open, from inside out, and outside of them. -/
  keys : List KeyMark
  /-- The number of brackets that are open. -/
  depth : Nat
  /-- Where a colon needs no gap behind it. -/
  adjacent : Nat
  /-- Braces were opened, and no table without them has ended since. -/
  braced : Bool
  /-- For each list in brackets, whether a table without braces is open in it. -/
  pairs : List Bool

namespace Reader

/-- The beginning of a file. -/
def start (cs : List Char) : Reader :=
  ⟨Cursor.start cs, #[], -1, [], true, [KeyMark.none], 0, 0, false, []⟩

def push (t : Token) (r : Reader) : Reader := { r with tokens := r.tokens.push t }

def inFlow (r : Reader) : Bool := 0 < r.depth

/-! ### Indentation -/

/-- Closes the blocks that are farther in than a column. -/
def unrollTo (col : Int) : List Indent → Reader → Reader
  | [], r => { r with indents := [] }
  | i :: is, r =>
    if col < r.indent then
      let r := if i.block then r.push .blockEnd else r
      unrollTo col is { r with indent := i.outer }
    else { r with indents := i :: is }

/-- Closes the blocks that are farther in than a column; in brackets no block is. -/
def unroll (col : Int) (r : Reader) : Reader := if r.inFlow then r else unrollTo col r.indents r

/-- Takes back the last steps with which no block ends. -/
def unrollLoose : List Indent → Reader → Reader
  | [], r => { r with indents := [] }
  | i :: is, r => if i.block then { r with indents := i :: is } else unrollLoose is { r with indent := i.outer }

/-- Opens a block in a column, with its token before those from a place on. -/
def roll (col : Nat) (place : Nat) (t : Token) (r : Reader) : Reader :=
  if r.inFlow then r
  else
    let r := match r.indents with
      | i :: is => if r.indent ≤ (col : Int) ∧ !i.block then { r with indent := i.outer, indents := is } else r
      | [] => r
    if r.indent < (col : Int) then
      { r with
        indents := ⟨r.indent, true⟩ :: r.indents, indent := col,
        tokens := r.tokens.insertIdxIfInBounds place t }
    else r

/-- Keeps what follows one column farther in than the block. -/
def rollLoose (r : Reader) : Reader :=
  if !r.inFlow && (r.indents.head?.map Indent.block).getD false then
    { r with indents := ⟨r.indent, false⟩ :: r.indents, indent := r.indent + 1 }
  else r

/-! ### Keys -/

/-- Notes that a key may begin here. -/
def noteKey (r : Reader) : Reader :=
  if r.keyAllowed then
    let required := !r.inFlow && r.indent = r.here.col && (r.indents.head?.map Indent.block).getD false
    { r with keys := ⟨true, required, r.tokens.size, r.here.index, r.here.line, r.here.col⟩ :: r.keys.drop 1 }
  else r

/-- Nothing that was noted here is a key. -/
def dropKey? (r : Reader) : Option Reader :=
  match r.keys with
  | k :: ks => if k.possible ∧ k.required then none else some { r with keys := { k with possible := false } :: ks }
  | [] => some r

/-- What was noted in an earlier line, or too far before, is no key. -/
def dropStaleKeys? (r : Reader) : Option Reader := do
  let keys ← r.keys.mapM fun k =>
    if k.possible ∧ !r.inFlow ∧ (k.line < r.here.line ∨ k.index + 1024 < r.here.index) then
      if k.required then none else some { k with possible := false }
    else some k
  pure { r with keys }

/-! ### Documents -/

/-- Ends the blocks before a mark of documents, and goes on. -/
def readMark? (t : Token) (r : Reader) : Option Reader := do
  let r ← (r.unroll (-1)).dropKey?
  pure ({ r with keyAllowed := false, here := r.here.on 3 }.push t)

def readDirective? (r : Reader) : Option Reader := do
  let r ← (r.unroll (-1)).dropKey?
  let (d, here) ← directive? r.here
  pure ({ r with keyAllowed := false, here }.push (.directive d))

/-- Ends the file. -/
def finish? (r : Reader) : Option Reader :=
  if r.keys.any fun k => k.possible && k.required then none else some (r.unroll (-1))

/-! ### Brackets -/

/-- The number of brackets that may be open. -/
def maxFlow : Nat := 255

def openFlow? (isList : Bool) (r : Reader) : Option Reader := do
  let r := r.noteKey.rollLoose
  if maxFlow ≤ r.depth then none
  else
    let (_, here) ← (r.here.on 1).skipRest?
    let r := { r with depth := r.depth + 1, keys := KeyMark.none :: r.keys, keyAllowed := true, here }
    pure
      (if isList then { r with pairs := false :: r.pairs }.push .flowListStart
      else { r with braced := true }.push .flowTableStart)

/-- Closes the table without braces that is open, if one is. -/
def endPair (r : Reader) : Reader :=
  match r.pairs with
  | true :: ps => { r with pairs := false :: ps, braced := false }.push .flowTableEnd
  | _ => r

def closeFlow? (isList : Bool) (r : Reader) : Option Reader := do
  let r ← r.dropKey?
  let r := if r.inFlow then { r with depth := r.depth - 1, keys := r.keys.drop 1 } else r
  let r := if isList then { r.endPair with pairs := r.pairs.drop 1 } else r
  let (_, here) ← (r.here.on 1).skipRest?
  let adjacent := if r.inFlow then here.index else r.adjacent
  pure ({ r with keyAllowed := false, here, adjacent }.push (if isList then .flowListEnd else .flowTableEnd))

def readComma? (r : Reader) : Option Reader := do
  let r := { ← r.dropKey? with keyAllowed := true }.endPair
  let (_, here) ← (r.here.on 1).skipRest?
  pure ({ r with here }.push .comma)

/-! ### Items, keys and values -/

def readItem? (r : Reader) : Option Reader := do
  if r.inFlow || !r.keyAllowed then none
  else
    let r := { r with here := r.here.on 1 }.roll r.here.col r.tokens.size .listStart
    let (blanks, here) ← r.here.skipRest?
    if blanks.tab ∧ here.cs.head? = some '-' ∧ atGap (here.cs.drop 1) then none
    else
      let r := { r with here }
      let r := if here.cs.head?.any fun c => c == '\n' || isFlowMark c then r.rollLoose else r
      let r ← r.dropKey?
      pure ({ r with keyAllowed := true }.push .item)

/-- Goes on by spaces, comments and line ends. -/
def skipSpaces : Nat → Cursor → Cursor
  | 0, p => p
  | fuel + 1, p =>
    match p.cs with
    | ' ' :: _ => skipSpaces fuel (p.onBlanks 1)
    | '\n' :: _ => skipSpaces fuel p.newLine
    | '#' :: _ => skipSpaces fuel p.skipLine
    | _ => p

def readKey? (r : Reader) : Option Reader := do
  if !r.inFlow && !r.keyAllowed then none
  else
    let r := if r.inFlow then { r with braced := true } else r.roll r.here.col r.tokens.size .tableStart
    let r ← r.dropKey?
    let p := r.here.on 1
    let here := skipSpaces (p.cs.length + 1) p
    if here.cs.head? = some '\t' ∨ !(p.cs.head?.any fun c => c == ' ' || c == '\n') then none
    else pure ({ r with keyAllowed := !r.inFlow, here }.push .key)

/-- A value whose key is known: the marks that come before the key are put there. -/
def readValueOf? (k : KeyMark) (line : Nat) (pair : Bool) (r : Reader) : Option Reader :=
  let r := { r with tokens := r.tokens.insertIdxIfInBounds k.place .key }
  if pair ∧ k.line < line then none
  else
    let r := if pair then { r with tokens := r.tokens.insertIdxIfInBounds k.place .flowTableStart } else r
    let r := (r.roll k.col k.place .tableStart).rollLoose
    let keys := match r.keys with
      | k :: ks => { k with possible := false } :: ks
      | [] => []
    some ({ r with keys, keyAllowed := false }.push .value)

def readValue? (r : Reader) : Option Reader := do
  let line := r.here.line
  let col := r.here.col
  let pair := !r.pairs.isEmpty && !r.braced
  let r := if pair then { r with pairs := true :: r.pairs.drop 1 } else r
  let p := r.here.on 1
  let here ←
    if p.cs.head? = some '\t' then do
      let (blanks, q) ← p.skipRest?
      if !blanks.space ∧ q.cs.head?.any isWordChar then none else some q
    else some p
  let r := { r with here }
  let k := r.keys.head?.getD KeyMark.none
  if k.possible then r.readValueOf? k line pair
  else
    let r := if pair then r.push .flowTableStart else r
    if r.inFlow then pure ({ r with keyAllowed := false }.push .value)
    else if !r.keyAllowed then none
    else
      let r := (r.roll col r.tokens.size .tableStart).rollLoose
      pure ({ r with keyAllowed := true }.push .value)

/-! ### Scalars and what stands before values -/

/-- The name behind the mark of an anchor or a reference. -/
def readName? (ofName : String → Token) (r : Reader) : Option Reader :=
  let r := r.noteKey
  let name := (r.here.cs.drop 1).takeWhile fun c => !(isSpace c || c == '\n' || isFlowMark c || c == '\uFEFF')
  if name.isEmpty then none
  else
    some
      ({ r with keyAllowed := false, here := r.here.on (name.length + 1) }.push (ofName (String.ofList name)))

def readTag? (r : Reader) : Option Reader := do
  let r := r.noteKey
  let (t, here) ← tag? r.inFlow r.here
  pure ({ r with keyAllowed := false, here }.push (.tag t))

def readBlock? (literal : Bool) (r : Reader) : Option Reader := do
  let r := r.noteKey
  let r := unrollLoose r.indents r
  let (s, here) ← block? literal r.indent r.here
  pure ({ r with keyAllowed := true, here }.push (.scalar false s))

def readPlain? (r : Reader) : Option Reader := do
  let r := r.noteKey
  let r := unrollLoose r.indents r
  let (s, here) ← plain? r.inFlow r.indent r.here
  pure ({ r with keyAllowed := here.fresh, here }.push (.scalar true s))

/-- Goes on to the next token; behind a line end a key may begin, but not in brackets. -/
def skip? (r : Reader) : Option Reader := do
  let (ended, here) ← r.here.skip? (!r.indents.isEmpty) r.indent (r.here.cs.length + 1) false
  pure { r with here, keyAllowed := r.keyAllowed || (ended && !r.inFlow) }

def readQuoted? (quote : Char) (r : Reader) : Option Reader := do
  let r := r.noteKey
  let (s, here) ← quoted? quote r.inFlow r.indent r.here
  let r ← { r with keyAllowed := false, here }.skip?
  pure ({ r with adjacent := r.here.index }.push (.scalar false s))

/-! ### Files -/

/-- Reads the token that begins with a character before others. -/
def readToken? (c : Char) (cs : List Char) (r : Reader) : Option Reader :=
  if c = '[' then r.openFlow? true
  else if c = '\x7b' then r.openFlow? false
  else if c = ']' then r.closeFlow? true
  else if c = '\x7d' then r.closeFlow? false
  else if c = ',' then r.readComma?
  else if c = '-' ∧ atGap cs then r.readItem?
  else if c = '?' ∧ atGap cs then r.readKey?
  else if c = ':' ∧ (atGap cs ∨ (r.inFlow ∧ (cs.head?.any isFlowMark ∨ r.here.index = r.adjacent))) then r.readValue?
  else if c = '*' then r.readName? .reference
  else if c = '&' then r.readName? .anchor
  else if c = '!' then r.readTag?
  else if c = '|' ∧ !r.inFlow then r.readBlock? true
  else if c = '>' ∧ !r.inFlow then r.readBlock? false
  else if c = '\'' ∨ c = '"' then r.readQuoted? c
  else if c = '%' ∨ c = '@' ∨ c = '\x60' then none
  else r.readPlain?

/-- Reads the end of a document; nothing but a comment follows in its line. -/
def readDocumentEnd? (r : Reader) : Option Reader := do
  let r ← r.readMark? .documentEnd
  pure { r with here := ← r.here.skipEmpty? }

/-- Reads all tokens. -/
def readAll? : Nat → Reader → Option Reader
  | 0, _ => none
  | fuel + 1, r => do
    let r ← (← r.skip?).dropStaleKeys?
    let r := r.unroll r.here.col
    match r.here.cs with
    | [] => r.finish?
    | c :: cs =>
      let r ←
        if r.here.col = 0 ∧ c = '%' then r.readDirective?
        else if r.here.col = 0 ∧ atMark "---" (c :: cs) then r.readMark? .documentStart
        else if r.here.col = 0 ∧ atMark "..." (c :: cs) then r.readDocumentEnd?
        else if (r.here.col : Int) < r.indent then none
        else r.readToken? c cs
      readAll? fuel r

end Reader

/-- The tokens of a text. -/
def tokens? (cs : List Char) : Option (List Token) :=
  ((Reader.start cs).readAll? (cs.length + 2)).map (·.tokens.toList)

end SchemaIr.Yaml
