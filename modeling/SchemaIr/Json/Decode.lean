import SchemaIr.Json.Source

/-! # Reading documents

A decoder reads a value of some type from a JSON source, or tells the first thing that is wrong in the
order of the text. Decoders follow the value and nothing after its first fault; a member that the document
has no use for is skipped, but must be JSON.

A record may be written as an object, in which each field stands at most once, or as the array of its
fields in order. Arrays and objects that are read may nest to a certain depth, skipped ones to any. A
decoder that reads an array or object therefore takes the number of levels that are still allowed, and
refuses it at level 0. -/

namespace SchemaIr.Json

/-- A reader of one value. -/
abbrev Decoder (α : Type) := Source → Except Error α

/-! ### Faults -/

/-- The error of an array's end, for who reads the array as a list. -/
def ArrayEnd.listError? : ArrayEnd → Option Error
  | closed => none
  | commaClosed => some .trailingComma
  | commaEnds => some .valueEnds
  | textEnds => some .listEnds
  | noComma => some .noListComma

/-- The error of an array's end, for who has read all fields of a record from it. -/
def ArrayEnd.recordError? : ArrayEnd → Option Error
  | closed => none
  | commaClosed => some .trailingComma
  | commaEnds => some .trailingText
  | textEnds => some .listEnds
  | noComma => some .trailingText

/-- The error of an array's end, for who skips the array. -/
def ArrayEnd.skipError? : ArrayEnd → Option Error
  | closed => none
  | commaClosed => some .noValue
  | commaEnds => some .valueEnds
  | textEnds => some .listEnds
  | noComma => some .noListComma

/-- The error of an object's end, for who reads the object. -/
def ArrayEnd.objectError? : ArrayEnd → Option Error
  | closed => none
  | commaClosed => some .trailingComma
  | commaEnds => some .valueEnds
  | textEnds => some .objectEnds
  | noComma => some .noObjectComma

/-- The error of an object's end, for who skips the object. -/
def ArrayEnd.skipObjectError? : ArrayEnd → Option Error
  | closed => none
  | commaClosed => some .keyNotString
  | commaEnds => some .objectEnds
  | textEnds => some .objectEnds
  | noComma => some .noObjectComma

/-- Fails with an error, if there is one. -/
def failOn : Option Error → Except Error Unit
  | none => .ok ()
  | some e => .error e

mutual

/-- Passes over a value. -/
def Source.skip : Source → Except Error Unit
  | .array items => items.skip
  | .object members => members.skip
  | .absent e => .error e
  | .broken _ skipping => .error skipping
  | .brokenText _ skipping => .error skipping
  | .null | .bool _ | .number _ | .text _ => .ok ()

/-- Passes over the items of an array. -/
def Items.skip : Items → Except Error Unit
  | .cons item rest => do
    item.skip
    rest.skip
  | .stop e => failOn e.skipError?

/-- Passes over the members of an object. -/
def Members.skip : Members → Except Error Unit
  | .cons _ value rest => do
    value.skip
    rest.skip
  | .stop e => failOn e.skipObjectError?
  | .brokenKey _ skipping => .error skipping
  | .otherKey _ => .error .keyNotString

end

namespace Decode

/-- The error of finding a source where something else is expected. -/
def mismatch (expected : String) : Source → Error
  | .null => .wrongType .null expected
  | .bool b => .wrongType (.bool b) expected
  | .number (.ok n) => .wrongType n.found expected
  | .number (.error e) => e
  | .text (.ok s) => .wrongType (.str s) expected
  | .text (.error e) => e
  | .array _ => .wrongType .sequence expected
  | .object _ => .wrongType .map expected
  | .absent e => e
  | .broken reading _ => reading
  | .brokenText reading _ => reading

/-! ### Simple values -/

def string : Decoder String
  | .text r => r
  | s => .error (mismatch "a string" s)

def boolean : Decoder Bool
  | .bool b => .ok b
  | s => .error (mismatch "a boolean" s)

/-- An integer between two bounds. -/
def integer (low high : Int) (expected : String) : Decoder Int
  | .number (.ok (.whole n)) =>
    if low ≤ n ∧ n ≤ high then .ok n else .error (.wrongValue (.int n) expected)
  | s => .error (mismatch expected s)

/-- A signed integer of 64 bits. -/
def int64 : Decoder Int := integer Bounds.minInt64 Bounds.maxInt64 "i64"

/-- An unsigned integer of 64 bits. -/
def natural : Decoder Nat := fun s => (integer 0 Bounds.maxNat64 "usize" s).map Int.toNat

/-- A value, or `null` for none. -/
def optional {α : Type} (d : Decoder α) : Decoder (Option α)
  | .null => .ok none
  | s => (d s).map some

/-! ### Lists and tables -/

/-- Reads every item of an array. -/
def items {α : Type} (d : Decoder α) : Items → Except Error (List α)
  | .cons item rest => do
    let a ← d item
    let as ← items d rest
    pure (a :: as)
  | .stop e => do
    failOn e.listError?
    pure []

/-- A list. -/
def list {α : Type} (depth : Nat) (d : Decoder α) : Decoder (List α)
  | .array is => if depth = 0 then .error .tooDeep else items d is
  | s => .error (mismatch "a sequence" s)

/-- Reads every member of an object into a table. -/
def members {α : Type} (d : Decoder α) (t : Table α) : Members → Except Error (Table α)
  | .cons key value rest => do
    let k ← key
    let a ← d value
    members d (t.insert k a) rest
  | .stop e => do
    failOn e.objectError?
    pure t
  | .brokenKey reading _ => .error reading
  | .otherKey _ => .error .keyNotString

/-- A table; the last member of a name wins. -/
def table {α : Type} (depth : Nat) (d : Decoder α) : Decoder (Table α)
  | .object ms => if depth = 0 then .error .tooDeep else members d ∅ ms
  | s => .error (mismatch "a map" s)

/-! ### Choices by name -/

/-- A value known by its name: the name alone, or an object with the name and `null`. -/
def choice {α : Type} (depth : Nat) (ofName : String → Except Error α) : Decoder α
  | .text r => do ofName (← r)
  | .object ms =>
    if depth = 0 then .error .tooDeep
    else
      match ms with
      | .cons key value rest => do
        let a ← ofName (← key)
        match value with
        | .null =>
          match rest with
          | .stop .closed => pure a
          | .stop .textEnds => .error .objectEnds
          | _ => .error .noValue
        | v => .error (mismatch "unit" v)
      | .brokenKey reading _ => .error reading
      | .stop .textEnds => .error .objectEnds
      | .stop .closed => .error .noValue
      | .otherKey _ | .stop _ => .error .keyNotString
  | .absent e => .error e
  | .brokenText reading _ => .error reading
  | .null | .bool _ | .number _ | .array _ | .broken _ _ => .error .noValue

/-- The value with a name in a list of values. -/
def named {α : Type} (all : List α) (name : α → String) (s : String) : Except Error α :=
  match all.find? (name · == s) with
  | some a => .ok a
  | none => .error (.unknownVariant s (all.map name))

/-! ### Records -/

/-- A field of a record that is read field by field. -/
structure Field (ρ : Type) where
  name : String
  required : Bool
  /-- Reads the field's value; the result writes it into the record. -/
  read : Source → Except Error (ρ → ρ)

/-- A field that must be given. -/
def field {α ρ : Type} (name : String) (d : Decoder α) (write : α → ρ → ρ) : Field ρ :=
  ⟨name, true, fun s => (d s).map write⟩

/-- A field that may be left out. -/
def fieldOr {α ρ : Type} (name : String) (d : Decoder α) (write : α → ρ → ρ) : Field ρ :=
  ⟨name, false, fun s => (d s).map write⟩

/-- How a record's shape is described in errors. -/
def shape (title : String) (count : Nat) : String :=
  "struct " ++ title ++ " with " ++ toString count ++ if count = 1 then " element" else " elements"

/-- Reads the members of an object into a record; `seen` are the fields read before. -/
def recordMembers {ρ : Type} (fields : List (Field ρ)) (seen : List String) (record : ρ) :
    Members → Except Error ρ
  | .cons key value rest => do
    let k ← key
    match fields.find? (·.name == k) with
    | none =>
      value.skip
      recordMembers fields seen record rest
    | some f =>
      if k ∈ seen then .error (.duplicateField k)
      else
        let write ← f.read value
        recordMembers fields (k :: seen) (write record) rest
  | .stop e => do
    failOn e.objectError?
    match fields.find? fun f => f.required && !seen.contains f.name with
    | some f => .error (.missingField f.name)
    | none => pure record
  | .brokenKey reading _ => .error reading
  | .otherKey _ => .error .keyNotString

/-- Reads the items of an array into a record, the fields in order; `read` fields were read before, and
    `expected` describes the record. -/
def recordItems {ρ : Type} (expected : String) (record : ρ) : Nat → List (Field ρ) → Items → Except Error ρ
  | _, [], .cons _ _ => .error .trailingText
  | _, [], .stop e => do
    failOn e.recordError?
    pure record
  | read, f :: fields, .cons item rest => do
    let write ← f.read item
    recordItems expected (write record) (read + 1) fields rest
  | read, f :: fields, .stop e => do
    failOn e.listError?
    match (f :: fields).findIdx? (·.required) with
    | some n => .error (.wrongLength (read + n) expected)
    | none => pure record

/-- A record. Fields that are left out keep their value in `blank`. -/
def record {ρ : Type} (title : String) (depth : Nat) (fields : List (Field ρ)) (blank : ρ) : Decoder ρ
  | .object ms => if depth = 0 then .error .tooDeep else recordMembers fields [] blank ms
  | .array is =>
    if depth = 0 then .error .tooDeep else recordItems (shape title fields.length) blank 0 fields is
  | s => .error (mismatch ("struct " ++ title) s)

/-! ### Texts -/

/-- The number of levels to which the arrays and objects of a text may nest. -/
def maxDepth : Nat := 127

/-- Reads a document from a text, which must end with it. -/
def text {α : Type} (d : Nat → Decoder α) (s : String) : Except Error α := do
  let (source, more) := Source.ofText s
  let a ← d maxDepth source
  if more then .error .trailingText else pure a

end Decode

end SchemaIr.Json
