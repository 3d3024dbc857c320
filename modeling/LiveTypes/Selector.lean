import LiveTypes.Diagnostic.Basic
import LiveTypes.Inference

/-!
# Type selectors: `try_select`, `must_select`

A selector says how to find a type: it is the type itself, a key in the graph, an initializer, another
reference, something that the host expands when asked, or a domain value whose type is inferred. A
selection is speculative ("try") or authoritative ("must"); only the authoritative kind has errors.
-/
namespace LiveTypes

/-- A reference, by its number. -/
abbrev ReferenceId := Nat

/-- A selector that the host expands, as the host knows it. -/
structure Deferral where
  tag : Nat
deriving DecidableEq

/-- A type under construction, as the host knows it: it has an initial and a final handle
(`type_initial`, `type_final`). -/
structure Initializer where
  tag : Nat
deriving DecidableEq

/-- How to find a type. -/
inductive Selector (ν : Type) where
  | type (type : Ty)
  /-- The type under a key of the graph. -/
  | identifier (key : String)
  | initializer (initializer : Initializer)
  /-- The current type of a reference. -/
  | reference (reference : ReferenceId)
  /-- Expanded anew on every attempt. -/
  | deferred (deferral : Deferral)
  /-- The inferred type of a domain value. -/
  | node (node : ν)
deriving DecidableEq

/-- Why an authoritative selection gives no type. -/
inductive SelectError where
  /-- No type has this key. -/
  | unresolved (identifier : String)
  /-- No rule inferred a type for the value, which is given as printed. -/
  | uninferable (node : String) (problems : List InferenceProblem)
  /-- More hops than the limit allows. -/
  | tooDeep (limit : Nat)
deriving DecidableEq

namespace SelectError

def message : SelectError → String
  | .unresolved identifier => "no type is registered under the identifier `" ++ identifier ++ "`"
  | .uninferable node _ => "could not infer a type for " ++ node
  | .tooDeep limit => "type selector chain is deeper than " ++ toString limit ++ " levels"

def code : SelectError → Code
  | .unresolved _ => .unresolvedSelector
  | .uninferable _ _ => .uninferableType
  | .tooDeep _ => .selectorTooDeep

/-- What the rules said, one line each. -/
def notes : SelectError → List String
  | .uninferable _ problems => problems.map InferenceProblem.describe
  | _ => []

/-- A diagnostic at the span of the selection: `to_diagnostic`. -/
def diagnostic (e : SelectError) (span : Span) : Diagnostic :=
  let labelled := ({ severity := .error, kind := .selection, span, message := e.message :
    Diagnostic }.withCode e.code).withLabel ⟨span, e.code.description⟩
  e.notes.foldl Diagnostic.withNote labelled

end SelectError
end LiveTypes
