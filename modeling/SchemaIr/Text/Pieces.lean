/-! # Cutting text

Text is cut at separators into its pieces: a text with `n` separators has `n + 1` pieces, which joined by
the separators give the text back. Blank text is trimmed, or parts the words of a text. -/

namespace SchemaIr.Text

/-! ### Pieces -/

/-- The pieces of a text between the characters that satisfy a test. -/
def piecesBy (p : Char → Bool) : List Char → List (List Char)
  | [] => [[]]
  | c :: cs =>
    if p c then [] :: piecesBy p cs
    else
      match piecesBy p cs with
      | [] => [[c]]
      | q :: qs => (c :: q) :: qs

/-- The pieces of a text between the occurrences of a character. -/
def pieces (sep : Char) (s : String) : List String := (piecesBy (· == sep) s.toList).map String.ofList

/-- The pieces of a path between slashes that are not empty. -/
def steps (s : String) : List String := (pieces '/' s).filter (· ≠ "")

/-- The text before and after the first occurrence of a character. -/
def cutAt? (sep : Char) (s : String) : Option (String × String) :=
  match s.toList.dropWhile (· ≠ sep) with
  | [] => none
  | _ :: rest => some (String.ofList (s.toList.takeWhile (· ≠ sep)), String.ofList rest)

/-! ### Blanks -/

/-- White space. -/
def isBlank (c : Char) : Bool :=
  let n := c.toNat
  (0x09 ≤ n && n ≤ 0x0D) || n == 0x20 || n == 0x85 || n == 0xA0 || n == 0x1680 ||
    (0x2000 ≤ n && n ≤ 0x200A) || n == 0x2028 || n == 0x2029 || n == 0x202F || n == 0x205F || n == 0x3000

/-- A text without the white space at its ends. -/
def trim (s : String) : String :=
  String.ofList ((s.toList.dropWhile isBlank).reverse.dropWhile isBlank).reverse

/-- The words of a text, parted by white space. -/
def words (s : String) : List String :=
  ((piecesBy isBlank s.toList).filter (!·.isEmpty)).map String.ofList

end SchemaIr.Text
