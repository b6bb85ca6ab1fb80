import SchemaIr.Settings.Yaml.Cursor
import SchemaIr.Text.Digits

/-! # Scalars of indented files

The scalars of YAML are plain texts, texts in quotes, and blocks of lines. A line end in a plain text or one
in quotes is folded: it stands for a space, and each empty line after it for a line end of its own; the
blanks around it do not count. So it is in a folded block, but for lines that begin with a blank; in a
literal block all lines stand for themselves. -/

namespace SchemaIr.Yaml

/-! ### Gaps -/

/-- What stands between two words of a scalar. -/
structure Gap where
  /-- The number of lines that end in the gap. -/
  ends : Nat
  /-- The blanks of a gap in which no line ends. -/
  blanks : List Char
  after : Cursor

/-- The text for which a gap stands. -/
def Gap.text (g : Gap) : List Char :=
  if g.ends = 0 then g.blanks else if g.ends = 1 then [' '] else List.replicate (g.ends - 1) '\n'

/-- The gap that begins here; `broken` tells whether a line has ended in it. No tab may stand where the text
    must be indented; in a plain text it may if nothing follows in the line. -/
def gap? (plain : Bool) (indent : Int) : Nat → Bool → Gap → Option Gap
  | 0, _, g => some g
  | fuel + 1, broken, g =>
    match g.after.cs with
    | '\n' :: _ => gap? plain indent fuel true ⟨g.ends + 1, [], g.after.newLine⟩
    | c :: _ =>
      if !isSpace c then some g
      else if !broken then gap? plain indent fuel broken ⟨g.ends, g.blanks ++ [c], g.after.onBlanks 1⟩
      else if c = '\t' ∧ g.after.col < indent then
        if plain then do
          let after ← g.after.skipEmpty?
          gap? plain indent fuel broken { g with after }
        else none
      else gap? plain indent fuel broken { g with after := g.after.onBlanks 1 }
    | [] => some g

/-! ### Plain texts -/

/-- A plain text may go on with the character that begins here: it is no colon before a gap, and in brackets
    no mark of theirs. -/
def goesOnPlain (inFlow : Bool) : List Char → Bool
  | [] => false
  | ':' :: cs => !(atGap cs || (inFlow && cs.head?.any isFlowMark))
  | c :: _ => !(inFlow && isFlowMark c)

/-- The word of a plain text that begins here. -/
def plainWord (inFlow : Bool) : List Char → List Char
  | [] => []
  | c :: cs => if isSpace c || c == '\n' || !goesOnPlain inFlow (c :: cs) then [] else c :: plainWord inFlow cs

/-- The words of a plain text from here on, after others and the gap behind them. In blocks they are in column
    `indent` or behind it. -/
def plainWords? (inFlow : Bool) (indent : Int) : Nat → List Char → Gap → Option (List Char × Cursor)
  | 0, _, _ => none
  | fuel + 1, done, g =>
    let p := g.after
    if (p.fresh ∧ p.atDocument) ∨ p.cs.head? = some '#' then some (done, p)
    else if inFlow ∧ p.cs.head? = some '-' ∧ (p.cs.drop 1).head?.any isFlowMark then none
    else
      let word := plainWord inFlow p.cs
      let done := if word.isEmpty then done else done ++ g.text ++ word
      let p := if word.isEmpty then p else p.on word.length
      if p.cs.isEmpty ∨ !atGap p.cs then some (done, p)
      else do
        let g ← gap? true indent (p.cs.length + 1) false ⟨0, [], p⟩
        if !inFlow ∧ g.after.col < indent then some (done, g.after) else plainWords? inFlow indent fuel done g

/-- The plain text that begins here, indented farther than `parent`. -/
def plain? (inFlow : Bool) (parent : Int) (p : Cursor) : Option (String × Cursor) :=
  if inFlow ∧ p.col < parent + 1 then none
  else (plainWords? inFlow (parent + 1) (p.cs.length + 1) [] ⟨0, [], p⟩).map fun (cs, p) => (String.ofList cs, p)

/-! ### Texts in quotes -/

/-- The character of an escape, after its backslash. -/
def escape? (cs : List Char) : Option (Char × List Char) :=
  match cs with
  | '0' :: cs => some ('\x00', cs)
  | 'a' :: cs => some ('\x07', cs)
  | 'b' :: cs => some ('\x08', cs)
  | 't' :: cs | '\t' :: cs => some ('\t', cs)
  | 'n' :: cs => some ('\n', cs)
  | 'v' :: cs => some ('\x0b', cs)
  | 'f' :: cs => some ('\x0c', cs)
  | 'r' :: cs => some ('\r', cs)
  | 'e' :: cs => some ('\x1b', cs)
  | ' ' :: cs => some (' ', cs)
  | '"' :: cs => some ('"', cs)
  | '/' :: cs => some ('/', cs)
  | '\\' :: cs => some ('\\', cs)
  | 'N' :: cs => some ('\u0085', cs)
  | '_' :: cs => some ('\u00A0', cs)
  | 'L' :: cs => some ('\u2028', cs)
  | 'P' :: cs => some ('\u2029', cs)
  | 'x' :: cs => Text.codePoint? 2 cs
  | 'u' :: cs => Text.codePoint? 4 cs
  | 'U' :: cs => Text.codePoint? 8 cs
  | _ => none

/-- The text goes on behind a gap: it is neither at its end nor at a document, and indented far enough. -/
def goesOnQuoted (indent : Int) (p : Cursor) : Bool := !p.atDocument && !p.cs.isEmpty && indent ≤ p.col

/-- A text in quotes, after the opening one and after what is done of it, in reverse. -/
def quotedFrom? (quote : Char) (indent : Int) : Nat → List Char → Cursor → Option (String × Cursor)
  | 0, _, _ => none
  | fuel + 1, done, p =>
    match p.cs with
    | [] => none
    | c :: cs =>
      if c = quote then
        if quote = '\'' ∧ cs.head? = some '\'' then quotedFrom? quote indent fuel ('\'' :: done) (p.on 2)
        else some (String.ofList done.reverse, p.on 1)
      else if isSpace c || c == '\n' then do
        let g ← gap? false indent (cs.length + 2) false ⟨0, [], p⟩
        if goesOnQuoted indent g.after then quotedFrom? quote indent fuel (g.text.reverse ++ done) g.after else none
      else if c = '\\' ∧ quote = '"' then
        if cs.head? = some '\n' then do
          let q := (p.on 1).newLine
          let g ← gap? false indent (cs.length + 1) true ⟨0, [], q⟩
          let done := List.replicate g.ends '\n' ++ done
          if q.cs.head? = some quote ∨ goesOnQuoted indent g.after then quotedFrom? quote indent fuel done g.after
          else none
        else do
          let (e, rest) ← escape? cs
          quotedFrom? quote indent fuel (e :: done) (p.upTo rest)
      else quotedFrom? quote indent fuel (c :: done) (p.on 1)

/-- The text in quotes that begins here. Behind it only a comment may follow in the line, or the colon of a
    key, or in brackets a mark of theirs. -/
def quoted? (quote : Char) (inFlow : Bool) (indent : Int) (p : Cursor) : Option (String × Cursor) := do
  let (s, q) ← quotedFrom? quote indent (p.cs.length + 1) [] (p.on 1)
  let (_, q) ← q.skipRest?
  let fits : Bool := match q.cs with
    | [] | '\n' :: _ => true
    | ':' :: _ => inFlow || p.line == q.line
    | c :: _ => inFlow && c ∈ [',', '\x7d', ']']
  if fits then some (s, q) else none

/-! ### Blocks of lines -/

/-- What becomes of the line ends at the end of a block. -/
inductive Chomping
  | strip | clip | keep
  deriving DecidableEq, Repr

/-- The mark for the line ends of a block, if one stands here. -/
def chomping? : List Char → Option (Chomping × List Char)
  | '+' :: cs => some (.keep, cs)
  | '-' :: cs => some (.strip, cs)
  | _ => none

/-- The digit for the columns by which a block is indented, if one stands here; zero is none. -/
def increment? : List Char → Option (Option Nat × List Char)
  | c :: cs =>
    if c = '0' then none else if c.isDigit then some (some (c.toNat - '0'.toNat), cs) else some (none, c :: cs)
  | [] => some (none, [])

/-- The marks behind the sign of a block, in either order. -/
def blockMarks? (cs : List Char) : Option (Chomping × Option Nat × List Char) :=
  match chomping? cs with
  | some (chomping, cs) => (increment? cs).map fun (n, cs) => (chomping, n, cs)
  | none =>
    match increment? cs with
    | some (some n, cs) =>
      let (chomping, cs) := (chomping? cs).getD (.clip, cs)
      some (chomping, some n, cs)
    | some (none, cs) => some (.clip, none, cs)
    | none => none

/-- Goes on by the indentation of a line and by empty lines before it, and counts them. -/
def emptyLines (indent : Nat) : Nat → Nat → Cursor → Nat × Cursor
  | 0, n, p => (n, p)
  | fuel + 1, n, p =>
    let q := p.skipSpaces (indent - p.col)
    if q.cs.head? = some '\n' then emptyLines indent fuel (n + 1) q.newLine else (n, q)

/-- Goes on by empty lines to the first line of a block, and counts them; gives the column that is farthest
    in. -/
def firstLine : Nat → Nat → Nat → Cursor → Nat × Nat × Cursor
  | 0, n, col, p => (n, col, p)
  | fuel + 1, n, col, p =>
    let q := p.skipSpaces p.cs.length
    let col := max col q.col
    if q.cs.head? = some '\n' then firstLine fuel (n + 1) col q.newLine else (n, col, q)

/-- The lines of a block so far. -/
structure BlockLines where
  text : List Char
  /-- The last line has an end, which is not in the text. -/
  ended : Bool
  /-- The number of empty lines since. -/
  empties : Nat
  /-- The last line begins with a blank. -/
  blank : Bool

/-- What stands for the ends of the lines so far, before a line that begins with a blank or not. -/
def BlockLines.join (l : BlockLines) (literal blank : Bool) : List Char :=
  let empties := List.replicate l.empties '\n'
  if !literal && l.ended && !l.blank && !blank then if l.empties = 0 then [' '] else empties
  else if l.ended then '\n' :: empties
  else empties

/-- The lines of a block that stand in a column, from here on. -/
def blockLines (literal : Bool) (indent : Nat) : Nat → BlockLines → Cursor → BlockLines × Cursor
  | 0, l, p => (l, p)
  | fuel + 1, l, p =>
    if p.col ≠ indent ∨ p.cs.isEmpty then (l, p)
    else
      let line := p.cs.takeWhile (· ≠ '\n')
      let blank := line.head?.any isSpace
      let text := l.text ++ l.join literal blank ++ line
      let q := p.onBlanks line.length
      if q.cs.isEmpty then (⟨text, false, 0, blank⟩, q)
      else
        let (n, q) := emptyLines indent (q.cs.length + 1) 0 q.newLine
        blockLines literal indent fuel ⟨text, true, n, blank⟩ q

/-- What stands for the ends of the lines at the end of a block. -/
def BlockLines.close (l : BlockLines) (chomping : Chomping) (indent : Nat) (p : Cursor) : List Char :=
  match chomping with
  | .strip => []
  | .clip => ends
  | .keep => ends ++ List.replicate l.empties '\n'
where
  ends : List Char :=
    (if l.ended then ['\n'] else []) ++ if p.cs.isEmpty ∧ max indent 1 ≤ p.col then ['\n'] else []

/-- The block of lines whose sign stands here; what holds it is in column `parent`. -/
def block? (literal : Bool) (parent : Int) (p : Cursor) : Option (String × Cursor) := do
  let (chomping, increment, rest) ← blockMarks? (p.cs.drop 1)
  let q ← (p.upTo rest).skipEmpty?
  let broken := !q.cs.isEmpty
  let q := if broken then q.newLine else q
  if q.cs.head? = some '\t' then none
  else
    let fuel := q.cs.length + 1
    let (empties, indent, q) := match increment with
      | some n =>
        let indent := (max parent 0).toNat + n
        let (empties, q) := emptyLines indent fuel 0 q
        (empties, indent, q)
      | none =>
        let (empties, col, q) := firstLine fuel 0 0 q
        (empties, max (max col (parent + 1).toNat) (if 0 < parent then 1 else 0), q)
    if q.cs.isEmpty then
      let ends := match chomping with
        | .strip => 0
        | .clip => if broken then 1 else 0
        | .keep => if broken then max 1 empties else 0
      some (String.ofList (List.replicate ends '\n'), q)
    else if q.col < indent ∧ parent < q.col then none
    else
      let (l, q) := blockLines literal indent fuel ⟨[], false, empties, false⟩ q
      some (String.ofList (l.text ++ l.close chomping indent q), q)

end SchemaIr.Yaml
