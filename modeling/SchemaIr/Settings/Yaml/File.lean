import SchemaIr.Settings.Yaml.Node

/-! # Settings files by indentation

In YAML the lines of a list begin with hyphens and those of a table with keys, and belong together by their
column. A file of settings holds one document, which is a table. Of the directives before a document only the
last one counts. -/

namespace SchemaIr.Yaml

/-- The text with a line feed for every line end, up to the character that ends files. -/
def content : List Char → List Char
  | '\r' :: '\n' :: cs => '\n' :: content cs
  | '\r' :: cs => '\n' :: content cs
  | '\x00' :: _ => []
  | c :: cs => c :: content cs
  | [] => []

/-- The handles of the directives that stand here, after some with `versioned` if the version was among them, and
    the tokens behind them. The version is told once. -/
def directives? (versioned : Bool) (handles : List (String × String)) :
    List Token → Option (List (String × String) × List Token)
  | .directive .version :: ts => if versioned then none else directives? true [] ts
  | .directive (.handle name whole) :: ts => directives? versioned [(name, whole)] ts
  | ts => some (handles, ts)

/-- A mark of the end of a document. -/
def isDocumentEnd (t : Token) : Bool := t == .documentEnd

/-- The tokens are those with which a document has no value. -/
def noValueHere : List Token → Bool
  | [] => true
  | .directive _ :: _ | .documentStart :: _ | .documentEnd :: _ => true
  | _ => false

/-- The value of a document without marks at its ends, and the tokens behind it. -/
def documentValue? (handles : List (String × String)) (ts : List Token) : Option (NodeValue × List Token) :=
  (node? handles (3 * ts.length + 8) true false ⟨ts, ⟨[], []⟩⟩).map fun (v, r) => (v, r.tokens)

/-- The document of a file and the tokens behind it. -/
def document? (ts : List Token) : Option (NodeValue × List Token) := do
  match ts with
  | .directive _ :: _ | .documentStart :: _ =>
    let (handles, ts) ← directives? false [] ts
    match ts with
    | .documentStart :: ts => if noValueHere ts then some (empty, ts) else documentValue? handles ts
    | _ => none
  | _ => documentValue? [] ts

/-- The settings in the characters of a file, which must be a table; a file without document sets nothing. -/
def parse? (cs : List Char) : Option (List (String × SettingValue)) := do
  let ts ← tokens? (content cs)
  match ts.dropWhile isDocumentEnd with
  | [] => some []
  | ts =>
    let (v, rest) ← document? ts
    match v with
    | some (.table es) => if rest.all isDocumentEnd then some es else none
    | _ => none

end SchemaIr.Yaml
