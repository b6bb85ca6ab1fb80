import SchemaIr.Text.Uppercase

/-! # Camel-case names

Generated names are camel-case: hyphens and dots are dropped and the character after them is capitalised,
as is the first one and the one after an underscore. Segments of a path are joined by underscores. -/

namespace SchemaIr.Naming

/-- The camel-case form of characters; `capital` tells whether the next one is capitalised. -/
def camelChars (capital : Bool) : List Char → List Char
  | [] => []
  | c :: cs =>
    if c = '-' ∨ c = '.' then camelChars true cs
    else if c = '_' then c :: camelChars true cs
    else (if capital then Text.upper c else [c]) ++ camelChars false cs

/-- The camel-case form of an identifier. -/
def camel (s : String) : String := String.ofList (camelChars true s.toList)

/-- The camel-case forms of segments, joined by underscores. -/
def joinCamel (segments : List String) : String := "_".intercalate (segments.map camel)

/-- The name of segments within a module; without segments it is the module's own. -/
def qualify (module : String) (segments : List String) : String :=
  if segments.isEmpty then camel module else camel module ++ "_" ++ joinCamel segments

end SchemaIr.Naming
