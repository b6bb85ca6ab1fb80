/-! # The closest name

Which of several names is most like a wanted one, for a hint. A pattern matches a text if its characters
occur in the text in order; letter case matters only if the pattern has a capital. A match scores for each
character, with a bonus at the beginning of words, and loses for gaps (`Matcher.score?`).

Points, bonuses and losses are those documented for the second version of the skim matcher, as it is set by default:
16 points for a character, 2 less in the other case; 4 off for the first place of a gap, and 1 for each place after; a
bonus of 8 at the beginning and behind white space, slashes, bars and brackets, 7 behind other punctuation, 6 for a
capital, and 4 in a run, the first place of the text counting twice. The score is computed row by row, one row for each
character of the pattern, in two rows of cells that take turns. The cells are left as they are from one score to the
next, as a matcher keeps them for its thread. -/

namespace SchemaIr.ListKey

/-! ### Word boundaries -/

/-- What a character is to the word around it. -/
inductive CharClass
  | start | hard | soft | digit | upperLetter | other
  deriving DecidableEq, Repr

namespace CharClass

/-- The class of a character. -/
def of (c : Char) : CharClass :=
  if c = '\x00' then start
  else if c ∈ [' ', '/', '\\', '|', '(', ')', '[', ']', '\x7b', '\x7d'] then hard
  else if ('!' ≤ c ∧ c ≤ '\'') ∨ ('*' ≤ c ∧ c ≤ '.') ∨ (':' ≤ c ∧ c ≤ '@') ∨ ('^' ≤ c ∧ c ≤ '\x60') ∨ c = '~' then
    soft
  else if '0' ≤ c ∧ c ≤ '9' then digit
  else if 'A' ≤ c ∧ c ≤ 'Z' then upperLetter
  else other

/-- The bonus of a character after another one. -/
def bonus (before after : CharClass) : Int :=
  match before, after with
  | start, _ | hard, _ => 8
  | soft, _ => 7
  | other, upperLetter | digit, upperLetter => 6
  | _, _ => 0

end CharClass

/-- The bonus at each place of a text; at the first one it counts twice. -/
def bonuses (text : List Char) : List Int :=
  let classes := text.map CharClass.of
  match (CharClass.start :: classes).zipWith CharClass.bonus classes with
  | [] => []
  | b :: bs => 2 * b :: bs

/-! ### Matching -/

/-- The lower-case form of an ASCII letter. -/
def lower (c : Char) : Char := if 'A' ≤ c ∧ c ≤ 'Z' then Char.ofNat (c.toNat + 32) else c

/-- Whether a pattern's character matches a text's. -/
def sameLetter (exact : Bool) (c p : Char) : Bool := if exact then c == p else lower c == lower p

/-- Where the characters of a pattern first occur in a text, each after the one before; `place` is the place
    of the text's first character. -/
def places? (exact : Bool) (place : Nat) : List Char → List Char → Option (List Nat)
  | [], _ => some []
  | _ :: _, [] => none
  | p :: ps, c :: cs =>
    if sameLetter exact c p then (places? exact (place + 1) ps cs).map (place :: ·)
    else places? exact (place + 1) (p :: ps) cs

/-! ### Scores -/

/-- The score of a match that ends at a place, that of one with a gap before it, and the bonus that a run
    of characters carries on. -/
structure Cell where
  matched : Int
  gap : Int
  bonus : Int

/-- Less than any score. -/
def lowest : Int := -32768

namespace Cell

/-- A cell without a score. -/
def blank : Cell := ⟨lowest, lowest, 0⟩

end Cell

/-- The two rows of cells. -/
structure Matcher where
  cells : Array Cell

namespace Matcher

/-- The matcher before its first score. -/
def fresh : Matcher := ⟨#[]⟩

def cell (m : Matcher) (i : Nat) : Cell := m.cells.getD i Cell.blank

def set (m : Matcher) (i : Nat) (c : Cell) : Matcher := ⟨m.cells.setIfInBounds i c⟩

/-- Makes room for two rows of a length. -/
def resize (m : Matcher) (columns : Nat) : Matcher :=
  ⟨m.cells.extract 0 (2 * columns) ++ Array.replicate (2 * columns - m.cells.size) Cell.blank⟩

/-- Scores the place `j` of a text, which holds `c`, against the character `p` of a pattern. `row` and `old`
    are where the current row and the one before it begin, `bonus` is the bonus of the place. -/
def step (exact : Bool) (row old : Nat) (p : Char) (m : Matcher) : Nat × Char × Int → Matcher
  | (j, c, bonus) =>
    let last := m.cell (row + j)
    let before := m.cell (old + j)
    let here := m.cell (row + j + 1)
    let gap := max (last.matched - 4) (last.gap - 1)
    if sameLetter exact c p then
      let points := if exact || c == p then 16 else 14
      let run := max (max last.bonus bonus) 4
      let matched := max (before.matched + run) (before.gap + bonus) + points
      (m.set (row + j) { last with bonus := run }).set (row + j + 1) { here with matched, gap }
    else m.set (row + j + 1) ⟨lowest, gap, 0⟩

/-- Scores a whole text, cell by cell, for each character of a pattern from its first place on. -/
def fill (exact : Bool) (columns : Nat) (text : List (Nat × Char × Int)) :
    Nat → List (Char × Nat) → Matcher → Matcher
  | _, [], m => m
  | i, (p, first) :: rest, m =>
    let row := (i + 1) % 2 * columns
    let old := i % 2 * columns
    fill exact columns text (i + 1) rest ((text.drop first).foldl (step exact row old p) m)

/-- How well a pattern matches a text, if it does. -/
def score? (m : Matcher) (text pattern : List Char) : Option Int × Matcher :=
  if pattern.isEmpty then (some 0, m)
  else
    let exact := pattern.any fun c => 'A' ≤ c ∧ c ≤ 'Z'
    match places? exact 0 pattern text with
    | none => (none, m)
    | some places =>
      let columns := text.length + 1
      let m := m.resize columns
      let m := m.set (columns + places.head?.getD 0) Cell.blank
      let m := (List.range columns).foldl (fun m j => m.set j ⟨lowest, -1, 0⟩) m
      let numbered := (List.range text.length).zip (text.zip (bonuses text))
      let m := fill exact columns numbered 0 (pattern.zip places) m
      let row := pattern.length % 2 * columns
      let lastPlace := places.getLast?.getD 0
      let scores := (List.range (columns - lastPlace)).map fun k => (m.cell (row + lastPlace + k)).matched
      (scores.max?, m)

/-- The better score of a name as text and as pattern. -/
def likeness? (m : Matcher) (wanted name : String) : Option Int × Matcher :=
  let (forth, m) := m.score? name.toList wanted.toList
  let (back, m) := m.score? wanted.toList name.toList
  (match forth, back with
    | some a, some b => some (max a b)
    | some a, none => some a
    | none, b => b, m)

end Matcher

/-- The best name so far. -/
structure Best where
  matcher : Matcher
  name : Option (Int × String)

/-- Tries one more name; it has to be strictly better. -/
def Best.consider (wanted : String) (best : Best) (name : String) : Best :=
  let (score, matcher) := best.matcher.likeness? wanted name
  match score, best.name with
  | none, _ => { best with matcher }
  | some s, none => ⟨matcher, some (s, name)⟩
  | some s, some (t, other) => ⟨matcher, some (if t < s then (s, name) else (t, other))⟩

/-- The name most like a wanted one, the first of several. -/
def closest? (wanted : String) (names : List String) : Option String :=
  (names.foldl (Best.consider wanted) ⟨.fresh, none⟩).name.map (·.2)

end SchemaIr.ListKey
