import SchemaIr.Table

/-! # The registry of generated names

A registry holds the names given out in one run, none of them twice. A wanted name that is taken is made
unique by underscores at its end, as few as do; one underscore for each taken name is always enough. -/

namespace SchemaIr

/-- The names given out so far. -/
structure NameRegistry where
  taken : List String
  /-- How many names were changed to be unique. -/
  disambiguated : Nat
  deriving DecidableEq, Repr

namespace NameRegistry

/-- The registry without names. -/
def empty : NameRegistry := ⟨[], 0⟩

instance : EmptyCollection NameRegistry := ⟨empty⟩

def contains (r : NameRegistry) (name : String) : Bool := r.taken.contains name

/-- The number of names given out. -/
def size (r : NameRegistry) : Nat := r.taken.length

/-- Gives out a name, unless it is taken; tells whether it was free. -/
def insert (r : NameRegistry) (name : String) : Bool × NameRegistry :=
  if r.contains name then (false, r) else (true, { r with taken := name :: r.taken })

/-- The name with as many underscores after it, up to `fuel`, as it takes to be free. -/
def free (r : NameRegistry) (name : String) : Nat → String
  | 0 => name
  | fuel + 1 => if r.contains name then free r (name ++ "_") fuel else name

/-- Gives out a name, changed to be unique if it is taken. -/
def makeUnique (r : NameRegistry) (base : String) : String × NameRegistry :=
  let name := r.free base r.size
  (name, ⟨(r.insert name).2.taken, if name = base then r.disambiguated else r.disambiguated + 1⟩)

/-- Gives out one unique name for each key. -/
def makeUniqueEach (candidate : String) : List String → NameRegistry → List (String × String) × NameRegistry
  | [], r => ([], r)
  | key :: keys, r =>
    let (name, r) := r.makeUnique candidate
    let (names, r) := makeUniqueEach candidate keys r
    ((key, name) :: names, r)

/-- Gives out names where several keys may want the same one: candidate by candidate, and for each its
    keys in order. The result is the table of the name that each key got. -/
def resolveClashes (r : NameRegistry) (clashes : Table NameSet) : Table String × NameRegistry :=
  clashes.entries.foldl
    (fun (names, r) (candidate, keys) =>
      let (more, r) := makeUniqueEach candidate keys.names r
      (more.foldl (fun t e => t.insert e.1 e.2) names, r))
    (∅, r)

end NameRegistry

end SchemaIr
