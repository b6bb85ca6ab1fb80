import SchemaIr.Diagnostic.Basic

/-! # Batches of diagnostics

A pass collects every problem it meets and goes on, so that one run reports them all. What the pass made is
handed on only if no error is among them; a batch with errors is handed back in order and without
repetitions (`Diagnostics.sort`). -/

namespace SchemaIr

/-- The diagnostics of a pass, in the order in which they were met. -/
structure Diagnostics where
  items : List Diagnostic
  deriving DecidableEq, Repr

namespace Diagnostics

/-- The batch without diagnostics. -/
def empty : Diagnostics := ⟨[]⟩

instance : EmptyCollection Diagnostics := ⟨empty⟩
instance : Inhabited Diagnostics := ⟨empty⟩

/-- The batch of one diagnostic. -/
def single (d : Diagnostic) : Diagnostics := ⟨[d]⟩

def push (ds : Diagnostics) (d : Diagnostic) : Diagnostics := ⟨ds.items ++ [d]⟩

instance : Append Diagnostics := ⟨fun a b => ⟨a.items ++ b.items⟩⟩

def size (ds : Diagnostics) : Nat := ds.items.length

def isEmpty (ds : Diagnostics) : Bool := ds.items.isEmpty

/-- The errors of a batch. -/
def errors (ds : Diagnostics) : List Diagnostic := ds.items.filter (·.isError)

/-- The diagnostics of a batch that are no errors. -/
def notes (ds : Diagnostics) : List Diagnostic := ds.items.filter (!·.isError)

/-- The batch without its errors. -/
def withoutErrors (ds : Diagnostics) : Diagnostics := ⟨ds.notes⟩

def hasErrors (ds : Diagnostics) : Bool := ds.items.any (·.isError)

def errorCount (ds : Diagnostics) : Nat := ds.errors.length

def contains (ds : Diagnostics) (code : DiagnosticCode) : Bool := ds.items.any (·.code == code)

/-- Drops each diagnostic that equals the one before it. -/
def dropRepeats : List Diagnostic → List Diagnostic
  | a :: b :: rest => if a = b then dropRepeats (b :: rest) else a :: dropRepeats (b :: rest)
  | ds => ds

/-- The batch in order, each diagnostic once. -/
def sort (ds : Diagnostics) : Diagnostics := ⟨dropRepeats (ds.items.mergeSort Diagnostic.le)⟩

/-- Hands on a value, unless the batch holds errors. -/
def settle {α : Type} (ds : Diagnostics) (value : α) : Except Diagnostics α :=
  if ds.hasErrors then .error ds.sort else .ok value

/-- The batch as a report shows it: the diagnostics line by line, then the number of errors, if any. -/
def render (ds : Diagnostics) : String :=
  String.join (ds.items.map (·.render ++ "\n")) ++
    if ds.hasErrors then "\n" ++ toString ds.errorCount ++ " error(s)\n" else ""

end Diagnostics

end SchemaIr
