import SchemaIr.Json.Token
import SchemaIr.Json.Value

/-! # JSON as it stands in a text

The source of a JSON value is the value as its text gives it, faults included: the text is followed up to
the first place where it stops being JSON, and the fault stands at that place. Which error a fault is
depends on who comes by it, so the source records what stands there and the errors are settled by the
reader of the document (`SchemaIr.Json.Decode`). Every JSON value has a source without faults
(`Source.ofValue`). -/

namespace SchemaIr.Json

/-- What ends an array: its bracket or a fault. -/
inductive ArrayEnd
  | closed
  /-- A comma before the bracket. -/
  | commaClosed
  /-- A comma at the end of the text. -/
  | commaEnds
  /-- The end of the text. -/
  | textEnds
  /-- Neither comma nor bracket after an item. -/
  | noComma
  deriving DecidableEq, Repr

mutual

/-- A JSON value as it stands in a text. -/
inductive Source
  | null
  | bool (b : Bool)
  | number (value : Except Error Number)
  | text (value : Except Error String)
  | array (items : Items)
  | object (members : Members)
  /-- No value begins here, because the text ends or a colon is missing. -/
  | absent (e : Error)
  /-- A word or number that breaks off, or a character that begins no value. -/
  | broken (reading skipping : Error)
  /-- A string that breaks off. -/
  | brokenText (reading skipping : Error)

/-- The items of an array and what ends it. -/
inductive Items
  | cons (item : Source) (rest : Items)
  | stop (e : ArrayEnd)

/-- The members of an object and what ends it. -/
inductive Members
  | cons (key : Except Error String) (value : Source) (rest : Members)
  | stop (e : ArrayEnd)
  /-- A key that breaks off. -/
  | brokenKey (reading skipping : Error)
  /-- Something other than a string where a key should be. -/
  | otherKey (key : Source)

end

/-! ### Values as sources -/

mutual

/-- The source of a value. -/
def Source.ofValue : Value → Source
  | .null => .null
  | .bool b => .bool b
  | .int n => .number (.ok (.whole n))
  | .str s => .text (.ok s)
  | .arr items => .array (Items.ofValues items)
  | .obj members => .object (Members.ofPairs members)

/-- The source of the items of an array. -/
def Items.ofValues : List Value → Items
  | [] => .stop .closed
  | v :: vs => .cons (Source.ofValue v) (Items.ofValues vs)

/-- The source of the members of an object. -/
def Members.ofPairs : List (String × Value) → Members
  | [] => .stop .closed
  | m :: ms => Members.ofPair m (Members.ofPairs ms)

/-- The source of a member in front of others. -/
def Members.ofPair : String × Value → Members → Members
  | (k, v), rest => .cons (.ok k) (Source.ofValue v) rest

end

/-! ### Texts as sources

Each function follows the tokens of a text from where its construct may begin, and gives the tokens after
it. The first argument bounds the number of steps; two for each token are enough. -/

mutual

/-- The value that begins here. -/
def Source.parse : Nat → List Token → Source × List Token
  | _, [] => (.absent .valueEnds, [])
  | 0, _ => (.absent .valueEnds, [])
  | fuel + 1, t :: ts =>
    match t with
    | .null => (.null, ts)
    | .bool b => (.bool b, ts)
    | .number r => (.number r, ts)
    | .text r => (.text r, ts)
    | .broken reading skipping => (.broken reading skipping, [])
    | .brokenText reading skipping => (.brokenText reading skipping, [])
    | .mark '[' =>
      let (items, rest) := Items.parse fuel ts
      (.array items, rest)
    | .mark '\x7b' =>
      let (members, rest) := Members.parse fuel ts
      (.object members, rest)
    | .mark _ => (.broken .noValue .noValue, [])

/-- The items after an opening bracket. -/
def Items.parse : Nat → List Token → Items × List Token
  | _, [] => (.stop .textEnds, [])
  | 0, _ => (.stop .textEnds, [])
  | fuel + 1, ts =>
    match ts with
    | .mark ']' :: ts => (.stop .closed, ts)
    | ts =>
      let (item, rest) := Source.parse fuel ts
      let (items, rest) := Items.parseMore fuel rest
      (.cons item items, rest)

/-- The items after an item. -/
def Items.parseMore : Nat → List Token → Items × List Token
  | _, [] => (.stop .textEnds, [])
  | 0, _ => (.stop .textEnds, [])
  | fuel + 1, ts =>
    match ts with
    | .mark ']' :: ts => (.stop .closed, ts)
    | [.mark ','] => (.stop .commaEnds, [])
    | .mark ',' :: .mark ']' :: ts => (.stop .commaClosed, ts)
    | .mark ',' :: ts =>
      let (item, rest) := Source.parse fuel ts
      let (items, rest) := Items.parseMore fuel rest
      (.cons item items, rest)
    | _ => (.stop .noComma, [])

/-- The members after an opening brace. -/
def Members.parse : Nat → List Token → Members × List Token
  | _, [] => (.stop .textEnds, [])
  | 0, _ => (.stop .textEnds, [])
  | fuel + 1, ts =>
    match ts with
    | .mark '\x7d' :: ts => (.stop .closed, ts)
    | ts => Members.parseMember fuel ts

/-- The members after a member. -/
def Members.parseMore : Nat → List Token → Members × List Token
  | _, [] => (.stop .textEnds, [])
  | 0, _ => (.stop .textEnds, [])
  | fuel + 1, ts =>
    match ts with
    | .mark '\x7d' :: ts => (.stop .closed, ts)
    | [.mark ','] => (.stop .commaEnds, [])
    | .mark ',' :: .mark '\x7d' :: ts => (.stop .commaClosed, ts)
    | .mark ',' :: ts => Members.parseMember fuel ts
    | _ => (.stop .noComma, [])

/-- The member that begins here and those after it. -/
def Members.parseMember : Nat → List Token → Members × List Token
  | _, [] => (.stop .textEnds, [])
  | 0, _ => (.stop .textEnds, [])
  | fuel + 1, ts =>
    match ts with
    | [.text key] => (.cons key (.absent .objectEnds) (.stop .textEnds), [])
    | .text key :: .mark ':' :: ts =>
      let (value, rest) := Source.parse fuel ts
      let (members, rest) := Members.parseMore fuel rest
      (.cons key value members, rest)
    | .text key :: _ => (.cons key (.absent .noColon) (.stop .textEnds), [])
    | .brokenText reading skipping :: _ => (.brokenKey reading skipping, [])
    | ts => (.otherKey (Source.parse fuel ts).1, [])

end

/-- The source of a text, and whether more text follows the value. -/
def Source.ofText (s : String) : Source × Bool :=
  let tokens := Token.ofText s
  let (source, rest) := Source.parse (3 * tokens.length + 3) tokens
  (source, !rest.isEmpty)

end SchemaIr.Json
