import SchemaIr.Text.Quoted

/-! # What can be wrong with a JSON document

A document fails to be read because its text is not JSON, or because the JSON is not what the document
calls for. Each cause has one wording (`Error.message`). -/

namespace SchemaIr.Json

/-- What was found in place of what was called for. -/
inductive Found
  | null
  | bool (b : Bool)
  | int (n : Int)
  /-- A number that is not an integer, as it is shown. -/
  | decimal (text : String)
  | str (s : String)
  | sequence
  | map
  deriving DecidableEq, Repr

/-- How the found value is shown. -/
def Found.describe : Found → String
  | null => "null"
  | bool b => "boolean `" ++ (if b then "true" else "false") ++ "`"
  | int n => "integer `" ++ toString n ++ "`"
  | decimal text => "floating point `" ++ text ++ "`"
  | str s => "string " ++ Text.quote s
  | sequence => "sequence"
  | map => "map"

/-- Why a JSON document cannot be read. -/
inductive Error
  -- the text is not JSON
  | listEnds
  | objectEnds
  | stringEnds
  | valueEnds
  | noColon
  | noListComma
  | noObjectComma
  | noWord
  | noValue
  | badEscape
  | badNumber
  | numberTooLarge
  | controlCharacter
  | keyNotString
  | loneSurrogate
  | hexEscapeEnds
  | trailingComma
  | trailingText
  | tooDeep
  -- the JSON is not the document
  | wrongType (found : Found) (expected : String)
  | wrongValue (found : Found) (expected : String)
  | wrongLength (length : Nat) (expected : String)
  | missingField (name : String)
  | duplicateField (name : String)
  | unknownVariant (name : String) (known : List String)
  deriving DecidableEq, Repr

/-- The wording of an error. -/
def Error.message : Error → String
  | listEnds => "EOF while parsing a list"
  | objectEnds => "EOF while parsing an object"
  | stringEnds => "EOF while parsing a string"
  | valueEnds => "EOF while parsing a value"
  | noColon => "expected `:`"
  | noListComma => "expected `,` or `]`"
  | noObjectComma => "expected `,` or `\x7d`"
  | noWord => "expected ident"
  | noValue => "expected value"
  | badEscape => "invalid escape"
  | badNumber => "invalid number"
  | numberTooLarge => "number out of range"
  | controlCharacter => "control character (\\u0000-\\u001F) found while parsing a string"
  | keyNotString => "key must be a string"
  | loneSurrogate => "lone leading surrogate in hex escape"
  | hexEscapeEnds => "unexpected end of hex escape"
  | trailingComma => "trailing comma"
  | trailingText => "trailing characters"
  | tooDeep => "recursion limit exceeded"
  | wrongType found expected => "invalid type: " ++ found.describe ++ ", expected " ++ expected
  | wrongValue found expected => "invalid value: " ++ found.describe ++ ", expected " ++ expected
  | wrongLength length expected => "invalid length " ++ toString length ++ ", expected " ++ expected
  | missingField name => "missing field `" ++ name ++ "`"
  | duplicateField name => "duplicate field `" ++ name ++ "`"
  | unknownVariant name known =>
    "unknown variant `" ++ name ++ "`, expected one of " ++
      ", ".intercalate (known.map fun k => "`" ++ k ++ "`")

end SchemaIr.Json
