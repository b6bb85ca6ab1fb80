import SchemaIr.Text.Pieces

/-! # Places in an indented file

What YAML text means depends on the column in which it stands. A cursor is a place in a file: the text from
there on, with the line and the column, and whether only blanks stand before it in its line. Line ends are
line feeds. -/

namespace SchemaIr.Yaml

/-! ### Characters -/

def isSpace (c : Char) : Bool := c == ' ' || c == '\t'

/-- The text is at its end, or at the end of a line. -/
def atLineEnd : List Char → Bool
  | [] => true
  | c :: _ => c == '\n'

/-- The text is at its end, or at a blank or the end of a line. -/
def atGap : List Char → Bool
  | [] => true
  | c :: _ => isSpace c || c == '\n'

/-- A mark of lists and tables in brackets. -/
def isFlowMark (c : Char) : Bool := c ∈ [',', '[', ']', '\x7b', '\x7d']

/-- A character of the names of handles and directives. -/
def isWordChar (c : Char) : Bool := c.isAlphanum || c == '_' || c == '-'

/-- A mark of documents begins the text. -/
def atMark (mark : String) (cs : List Char) : Bool :=
  mark.toList.isPrefixOf cs && atGap (cs.drop mark.length)

/-! ### Cursors -/

/-- A place in a file. -/
structure Cursor where
  cs : List Char
  /-- The number of characters before the place. -/
  index : Nat
  line : Nat
  col : Nat
  /-- Nothing but blanks stands before the place in its line. -/
  fresh : Bool

namespace Cursor

/-- The place where a text begins. -/
def start (cs : List Char) : Cursor := ⟨cs, 0, 0, 0, true⟩

/-- Goes on by some characters of a line, which are not blanks. -/
def on (p : Cursor) (n : Nat) : Cursor :=
  { p with cs := p.cs.drop n, index := p.index + n, col := p.col + n, fresh := false }

/-- Goes on to a text farther on in the line. -/
def upTo (p : Cursor) (rest : List Char) : Cursor := p.on (p.cs.length - rest.length)

/-- Goes on by some blanks. -/
def onBlanks (p : Cursor) (n : Nat) : Cursor :=
  { p with cs := p.cs.drop n, index := p.index + n, col := p.col + n }

/-- Goes on by the end of a line. -/
def newLine (p : Cursor) : Cursor := ⟨p.cs.drop 1, p.index + 1, p.line + 1, 0, true⟩

/-- Goes on to the end of the line. -/
def skipLine (p : Cursor) : Cursor := p.onBlanks (p.cs.takeWhile (· ≠ '\n')).length

/-- Goes on by at most so many spaces. -/
def skipSpaces (p : Cursor) (most : Nat) : Cursor := p.onBlanks ((p.cs.take most).takeWhile (· == ' ')).length

/-- A mark of the beginning or the end of a document stands here. -/
def atDocument (p : Cursor) : Bool := p.col = 0 && (atMark "---" p.cs || atMark "..." p.cs)

/-- The blanks that were passed over. -/
structure Blanks where
  tab : Bool
  space : Bool

/-- Goes on by blanks and a comment; a comment must stand behind a blank. -/
def skipRest? (p : Cursor) : Option (Blanks × Cursor) :=
  let gap := p.cs.takeWhile isSpace
  let q := p.onBlanks gap.length
  let blanks : Blanks := ⟨gap.contains '\t', gap.contains ' '⟩
  if q.cs.head? = some '#' then if gap.isEmpty then none else some (blanks, q.skipLine) else some (blanks, q)

/-- Goes on by blanks and a comment, as far as nothing else stands in the line. -/
def skipEmpty? (p : Cursor) : Option Cursor := do
  let (_, p) ← p.skipRest?
  if atLineEnd p.cs then some p else none

/-- Goes on by blanks, comments and line ends up to the next token, and tells whether a line ended. Within
    blocks, no tab may stand before text where the text must be indented. -/
def skip? (inBlock : Bool) (indent : Int) : Nat → Bool → Cursor → Option (Bool × Cursor)
  | 0, ended, p => some (ended, p)
  | fuel + 1, ended, p =>
    match p.cs with
    | '\t' :: _ =>
      if inBlock ∧ p.fresh ∧ p.col < indent then do skip? inBlock indent fuel ended (← p.skipEmpty?)
      else skip? inBlock indent fuel ended (p.onBlanks 1)
    | ' ' :: _ => skip? inBlock indent fuel ended (p.onBlanks 1)
    | '\n' :: _ => skip? inBlock indent fuel true p.newLine
    | '#' :: _ => skip? inBlock indent fuel ended p.skipLine
    | _ => some (ended, p)

end Cursor

end SchemaIr.Yaml
