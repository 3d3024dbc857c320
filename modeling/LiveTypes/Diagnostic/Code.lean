/-!
# Diagnostic codes

The kinds of trouble that the engine reports, in three groups: relation checks, authoritative
selection and changes of the type graph.
-/
namespace LiveTypes

/-- What a diagnostic is about. -/
inductive Code where
  | notAssignable
  | notEqual
  | forbiddenType
  | unresolvedSelector
  | uninferableType
  | selectorTooDeep
  | duplicateTypeKey
  | missingEdgeEndpoint
deriving DecidableEq

namespace Code

/-- All codes, in the order of their numbers. -/
def all : List Code :=
  [.notAssignable, .notEqual, .forbiddenType, .unresolvedSelector, .uninferableType, .selectorTooDeep,
    .duplicateTypeKey, .missingEdgeEndpoint]

/-- The short code that users see: `as_str`. -/
def short : Code → String
  | .notAssignable => "W0100"
  | .notEqual => "W0101"
  | .forbiddenType => "W0102"
  | .unresolvedSelector => "W0200"
  | .uninferableType => "W0201"
  | .selectorTooDeep => "W0202"
  | .duplicateTypeKey => "W0300"
  | .missingEdgeEndpoint => "W0301"

/-- The name of a code. -/
def describe : Code → String
  | .notAssignable => "NotAssignable"
  | .notEqual => "NotEqual"
  | .forbiddenType => "ForbiddenType"
  | .unresolvedSelector => "UnresolvedSelector"
  | .uninferableType => "UninferableType"
  | .selectorTooDeep => "SelectorTooDeep"
  | .duplicateTypeKey => "DuplicateTypeKey"
  | .missingEdgeEndpoint => "MissingEdgeEndpoint"

/-- The code with a given name. -/
def named? (name : String) : Option Code := all.find? (·.describe = name)

/-- One sentence on what went wrong. -/
def description : Code → String
  | .notAssignable => "value is not assignable to the expected type"
  | .notEqual => "type is not equal to the expected type"
  | .forbiddenType => "value has a type it must not have"
  | .unresolvedSelector => "no type is registered under this identifier"
  | .uninferableType => "no inference rule produced a type for this value"
  | .selectorTooDeep => "type selector chain exceeds the recursion limit"
  | .duplicateTypeKey => "another type is already registered under this key"
  | .missingEdgeEndpoint => "edge endpoint is not part of the type graph"

/-- What the user can do about it, where there is something to say: `suggestion`. -/
def suggestion? : Code → Option String
  | .unresolvedSelector => some "make sure the type is added to the graph before it is selected"
  | .uninferableType => some "register an inference rule that covers this kind of value"
  | .selectorTooDeep => some "check deferred selectors and references for a cycle"
  | .missingEdgeEndpoint => some "add both types to the graph before connecting them"
  | _ => none

end Code
end LiveTypes
