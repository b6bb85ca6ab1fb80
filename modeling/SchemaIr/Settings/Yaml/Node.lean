import SchemaIr.Decimal.Reading
import SchemaIr.Settings.Value
import SchemaIr.Settings.Yaml.Token

/-! # Values of indented files

The tokens of a YAML file put together to values. A value may be named by an anchor and stand again where a
reference has its name; what is named is the value after the anchor, when it is complete. A plain text may be
a number, a switch, or nothing. A text whose tag does not fit it has no value; where a key should stand, the
next value takes its place. -/

namespace SchemaIr.Yaml

/-! ### Plain texts -/

/-- A number as plain text may give it; none for the words for infinity and for no number, which are numbers
    that have no value here. -/
def floatOf? (s : String) : Option (Option Float) :=
  if s ∈ [".inf", ".Inf", ".INF", "+.inf", "+.Inf", "+.INF", "-.inf", "-.Inf", "-.INF", ".nan", ".NaN", ".NAN"] then
    some none
  else if s.toList.any Char.isDigit then (Decimal.float? s.toList).map some
  else none

/-- An integer in digits of a base, behind its mark. -/
def radixOf? (base : Nat) (cs : List Char) : Option Int := do
  let (negative, ds) := Text.signed cs
  let n ← if ds.isEmpty then none else Text.ofRadix? base ds
  let n : Int := if negative then -(n : Int) else n
  if Bounds.fitsInt64 n then some n else none

/-- An integer as plain text may give it; a plus may stand before its sign. -/
def intOf? (s : String) : Option Int :=
  let cs := s.toList
  let marked := match cs with
    | '0' :: 'x' :: cs => radixOf? 16 cs
    | '0' :: 'o' :: cs => radixOf? 8 cs
    | '+' :: cs => Decimal.int? cs
    | _ => none
  match marked with
  | some n => some n
  | none => Decimal.int? cs

/-- What a plain text stands for. -/
def plainValue? (s : String) : Option SettingValue :=
  match intOf? s, floatOf? s with
  | some n, _ => some (.int n)
  | none, some x => x.map .float
  | none, none =>
    some
      (if s = "~" ∨ s = "null" then .nothing
      else if s = "true" then .bool true
      else if s = "false" then .bool false
      else .text s)

/-- What a value of the file is; nothing for a text that its tag does not fit. -/
abbrev NodeValue := Option SettingValue

/-- What a plain text with a tag stands for. -/
def taggedValue? (t : Tag) (s : String) : Option NodeValue :=
  if t.handle ≠ coreHandle then some (some (.text s))
  else if t.suffix = "bool" then
    some (if s = "true" then some (.bool true) else if s = "false" then some (.bool false) else none)
  else if t.suffix = "int" then some ((Decimal.int? s.toList).map .int)
  else if t.suffix = "float" then
    match floatOf? s with
    | some (some x) => some (some (.float x))
    | some none => none
    | none => some none
  else if t.suffix = "null" then some (if s = "~" ∨ s = "null" then some .nothing else none)
  else some (some (.text s))

/-- What a scalar stands for. -/
def scalarValue? (tag : Option Tag) (plain : Bool) (s : String) : Option NodeValue :=
  if !plain then some (some (.text s))
  else
    match tag with
    | some t => taggedValue? t s
    | none => (plainValue? s).map some

/-! ### Tables -/

/-- A key of a table; a number and a text are never the same key. -/
inductive Key
  | int (n : Int)
  | text (s : String)
  deriving DecidableEq, Repr

namespace Key

/-- The key that a value is. -/
def ofValue? : SettingValue → Option Key
  | .int n => some (int n)
  | .text s => some (text s)
  | _ => none

/-- The name of a setting that a key is. -/
def name : Key → String
  | int n => toString n
  | text s => s

end Key

/-- The entries of a table from its keys and values in turn; a key stands once. What has no value is no key, and
    the last value is left over if it has none to be the key of. -/
def entries? (done : List (Key × SettingValue)) : List NodeValue → Option (List (Key × SettingValue))
  | [] => some done
  | none :: vs => entries? done vs
  | [some _] => some done
  | some k :: v :: vs => do
    let key ← Key.ofValue? k
    if (done.map (·.1)).contains key then none else entries? (done ++ [(key, v.getD .nothing)]) vs

/-- The table of keys and values in turn. -/
def tableOf? (vs : List NodeValue) : Option NodeValue :=
  (entries? [] vs).map fun es =>
    some (.table (es.foldl (fun t (k, v) => SettingValue.put k.name v t) []))

/-- The list of values. -/
def listOf (vs : List NodeValue) : NodeValue := some (.list (vs.map (·.getD .nothing)))

/-! ### Names of values -/

/-- The names given so far. Each anchor has a number, and so have the values that are complete. -/
structure Names where
  anchors : List (String × Nat)
  values : List (Nat × NodeValue)

namespace Names

/-- Gives a name to the value that comes next. -/
def add (name : String) (ns : Names) : Names := { ns with anchors := (name, ns.anchors.length) :: ns.anchors }

/-- The number of the anchor that was added last. -/
def last (ns : Names) : Nat := ns.anchors.length - 1

/-- The value of a name; it has none before it is complete. -/
def find? (name : String) (ns : Names) : Option NodeValue := do
  let (_, n) ← ns.anchors.find? (·.1 == name)
  pure ((ns.values.find? (·.1 == n)).bind (·.2))

/-- Notes the value of an anchor. -/
def note (anchor : Option Nat) (v : NodeValue) (ns : Names) : Names :=
  match anchor with
  | some n => { ns with values := (n, v) :: ns.values }
  | none => ns

end Names

/-! ### Values from tokens -/

/-- The rest of the tokens, and the names so far. -/
structure Rest where
  tokens : List Token
  names : Names

namespace Rest

/-- Goes on by a token. -/
def next (r : Rest) : Rest := { r with tokens := r.tokens.drop 1 }

/-- One of some tokens comes next. -/
def at? (r : Rest) (ts : List Token) : Bool := r.tokens.head?.any ts.contains

/-- What stands before a value: an anchor and a tag, in either order, each at most once. -/
def marks? (handles : List (String × String)) (r : Rest) : Option (Option Nat × Option Tag × Rest) :=
  let named (name : String) (r : Rest) : Rest := { r.next with names := r.names.add name }
  match r.tokens with
  | .anchor name :: .tag t :: _ => do
    let r := (named name r).next
    pure (some r.names.last, some (← t.resolve? handles), r)
  | .tag t :: .anchor name :: _ => do
    let r := named name r.next
    pure (some r.names.last, some (← t.resolve? handles), r)
  | .anchor name :: _ =>
    let r := named name r
    some (some r.names.last, none, r)
  | .tag t :: _ => (t.resolve? handles).map fun t => (none, some t, r.next)
  | _ => some (none, none, r)

end Rest

/-- Nothing stands where a value should. -/
def empty : NodeValue := some .nothing

/-- A value of which only the marks stand there is an empty text. -/
def markedOnly? (anchor : Option Nat) (tag : Option Tag) (r : Rest) : Option (NodeValue × Rest) :=
  if anchor.isSome || tag.isSome then (scalarValue? tag true "").map (·, r) else none

mutual

/-- The value that comes next. Lists and tables without brackets may begin only in a block, and the items of a list
    may stand right below a key (`bare`). -/
def node? (handles : List (String × String)) : Nat → Bool → Bool → Rest → Option (NodeValue × Rest)
  | 0, _, _, _ => none
  | fuel + 1, block, bare, r => do
    match r.tokens with
    | .reference name :: _ => pure (← r.names.find? name, r.next)
    | _ =>
      let (anchor, tag, r) ← r.marks? handles
      let (v, r) ← match r.tokens with
        | .item :: _ =>
          if bare then (bareItems? handles fuel r).map fun (vs, r) => (listOf vs, r) else markedOnly? anchor tag r
        | .scalar plain s :: _ => (scalarValue? tag plain s).map (·, r.next)
        | .flowListStart :: _ => (flowItems? handles fuel true r.next).map fun (vs, r) => (listOf vs, r)
        | .flowTableStart :: _ => do
          let (vs, r) ← flowMembers? handles fuel true r.next
          pure (← tableOf? vs, r)
        | .listStart :: _ =>
          if block then (items? handles fuel r.next).map fun (vs, r) => (listOf vs, r) else markedOnly? anchor tag r
        | .tableStart :: _ =>
          if block then do
            let (vs, r) ← lines? handles fuel r.next
            pure (← tableOf? vs, r)
          else markedOnly? anchor tag r
        | _ => markedOnly? anchor tag r
      pure (v, { r with names := r.names.note anchor v })

/-- The value that comes next, unless a token stands there that shows that none does. -/
def nodeBefore? (handles : List (String × String)) :
    Nat → Bool → Bool → List Token → Rest → Option (NodeValue × Rest)
  | 0, _, _, _, _ => none
  | fuel + 1, block, bare, stops, r => if r.at? stops then some (empty, r) else node? handles fuel block bare r

/-- The items of a list that stand right below a key. -/
def bareItems? (handles : List (String × String)) : Nat → Rest → Option (List NodeValue × Rest)
  | 0, _ => none
  | fuel + 1, r =>
    if r.at? [.item] then do
      let (v, r) ← nodeBefore? handles fuel true false [.item, .key, .value, .blockEnd] r.next
      let (vs, r) ← bareItems? handles fuel r
      pure (v :: vs, r)
    else some ([], r)

/-- The items of a list up to the end of its block. -/
def items? (handles : List (String × String)) : Nat → Rest → Option (List NodeValue × Rest)
  | 0, _ => none
  | fuel + 1, r =>
    if r.at? [.blockEnd] then some ([], r.next)
    else if r.at? [.item] then do
      let (v, r) ← nodeBefore? handles fuel true false [.item, .blockEnd] r.next
      let (vs, r) ← items? handles fuel r
      pure (v :: vs, r)
    else none

/-- The keys and values of a table in turn, up to the end of its block. -/
def lines? (handles : List (String × String)) : Nat → Rest → Option (List NodeValue × Rest)
  | 0, _ => none
  | fuel + 1, r =>
    if r.at? [.blockEnd] then some ([], r.next)
    else if r.at? [.key, .value] then do
      let stops := [.key, .value, .blockEnd]
      let (k, r) ← if r.at? [.key] then nodeBefore? handles fuel true true stops r.next else some (empty, r)
      let (v, r) ← if r.at? [.value] then nodeBefore? handles fuel true true stops r.next else some (empty, r)
      let (vs, r) ← lines? handles fuel r
      pure (k :: v :: vs, r)
    else none

/-- The items of a list in brackets, after the opening one if `first`. -/
def flowItems? (handles : List (String × String)) : Nat → Bool → Rest → Option (List NodeValue × Rest)
  | 0, _, _ => none
  | fuel + 1, first, r =>
    if r.at? [.flowListEnd] then some ([], r.next)
    else if !first ∧ !r.at? [.comma] then none
    else
      let r := if first then r else r.next
      if r.at? [.flowListEnd] then some ([], r.next)
      else do
        let (v, r) ← if r.at? [.key] then pair? handles fuel r.next else node? handles fuel false false r
        let (vs, r) ← flowItems? handles fuel false r
        pure (v :: vs, r)

/-- A table of one key without braces, after the mark of the key. -/
def pair? (handles : List (String × String)) : Nat → Rest → Option (NodeValue × Rest)
  | 0, _ => none
  | fuel + 1, r =>
    if r.at? [.value, .comma, .flowListEnd] then none
    else do
      let (k, r) ← node? handles fuel false false r
      let (v, r) ←
        if r.at? [.value] then nodeBefore? handles fuel false false [.comma, .flowListEnd] r.next
        else some (empty, r)
      pure (← tableOf? [k, v], r)

/-- The keys and values of a table in braces in turn, after the opening one if `first`. -/
def flowMembers? (handles : List (String × String)) : Nat → Bool → Rest → Option (List NodeValue × Rest)
  | 0, _, _ => none
  | fuel + 1, first, r =>
    if r.at? [.flowTableEnd] then some ([], r.next)
    else if !first ∧ !r.at? [.comma] then none
    else
      let r := if first then r else r.next
      if r.at? [.flowTableEnd] then some ([], r.next)
      else do
        let marked := r.at? [.key, .value]
        let (k, r) ←
          if r.at? [.key] then nodeBefore? handles fuel false false [.value, .comma, .flowTableEnd] r.next
          else if marked then some (empty, r)
          else node? handles fuel false false r
        let (v, r) ←
          if marked ∧ r.at? [.value] then nodeBefore? handles fuel false false [.comma, .flowTableEnd] r.next
          else some (empty, r)
        let (vs, r) ← flowMembers? handles fuel false r
        pure (k :: v :: vs, r)

end

end SchemaIr.Yaml
