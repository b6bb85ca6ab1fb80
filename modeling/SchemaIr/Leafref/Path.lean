import SchemaIr.Text.Pieces

/-! # The text of leafref paths

A leafref path is a row of steps between slashes. Steps may be qualified by a short module name before a
colon, and may carry predicates in square brackets; neither matters for where the path leads. -/

namespace SchemaIr.Leafref

/-- Drops every predicate: a bracket and all up to the next closing one. A bracket that is not closed
    stays. -/
def dropPredicates : List Char → List Char
  | [] => []
  | c :: cs =>
    if c = '[' then
      match _h : cs.dropWhile (· ≠ ']') with
      | [] => c :: cs
      | _ :: rest => dropPredicates rest
    else c :: dropPredicates cs
termination_by cs => cs.length
decreasing_by
  · have := (List.dropWhile_sublist (· ≠ ']') (l := cs)).length_le
    simp only [_h, List.length_cons] at this
    simp only [List.length_cons]
    omega
  · simp

/-- A path without its predicates. -/
def withoutPredicates (path : String) : String := String.ofList (dropPredicates path.toList)

/-- A step's qualifier, if it has one, and its name. -/
def qualified (step : String) : Option String × String :=
  match Text.cutAt? ':' step with
  | some (qualifier, name) => (some qualifier, name)
  | none => (none, step)

/-- A step's name without its qualifier. -/
def unqualified (step : String) : String := (qualified step).2

end SchemaIr.Leafref
