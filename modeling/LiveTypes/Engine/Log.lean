import LiveTypes.Engine.Host

/-!
# The engine's log

What the engine reports about its own work, each entry with a level, a message and named fields.
-/
namespace LiveTypes

/-- How important a log entry is. -/
inductive LogLevel where
  | warn
  | debug
  | trace
deriving DecidableEq

namespace LogLevel

def word : LogLevel → String
  | .warn => "WARN"
  | .debug => "DEBUG"
  | .trace => "TRACE"

def rank : LogLevel → Nat
  | .warn => 0
  | .debug => 1
  | .trace => 2

/-- Whether a log kept at this level has entries of the other. -/
def shows (kept entry : LogLevel) : Bool := entry.rank ≤ kept.rank

end LogLevel

/-- One log entry. A selector stands in it as it looked at that moment. -/
inductive LogEntry where
  | typeAdded (key : String)
  | typeRemoved (key : String)
  | edgeAdded (edge : Edge)
  | edgeRemoved (edge : Edge)
  | assignable (actual expected : Ty)
  | ruleAdded (name : String) (boundTo : Option Ty)
  | ruleRemoved (name : String)
  | nothingInferred (problems : Nat)
  | selectorTooDeep (limit : Nat)
  | stillUnresolved (reference : ReferenceId) (selector : String)
  | resolved (reference : ReferenceId) (selector : String) (type : Ty)
  | invalidated (reference : ReferenceId) (selector : String) (type : Ty)
  | deconstructed (reference : ReferenceId) (selector : String)
  | relationChecked (actual expected : Ty) (relation : Relation) (negated holds : Bool)
  | problemWithoutNode (actual expected : Ty)
deriving DecidableEq

namespace LogEntry

def level : LogEntry → LogLevel
  | .typeAdded .. | .typeRemoved .. | .edgeAdded .. | .edgeRemoved .. => .debug
  | .ruleAdded .. | .ruleRemoved .. => .debug
  | .resolved .. | .invalidated .. | .deconstructed .. => .debug
  | .assignable .. | .nothingInferred .. | .stillUnresolved .. | .relationChecked .. => .trace
  | .selectorTooDeep .. | .problemWithoutNode .. => .warn

def message : LogEntry → String
  | .typeAdded .. => "type added to graph"
  | .typeRemoved .. => "type removed from graph"
  | .edgeAdded .. => "edge added"
  | .edgeRemoved .. => "edge removed"
  | .assignable .. => "assignable"
  | .ruleAdded .. => "inference rule added"
  | .ruleRemoved .. => "inference rule removed"
  | .nothingInferred .. => "no inference rule produced a type"
  | .selectorTooDeep .. => "type selector chain exceeds the recursion limit"
  | .stillUnresolved .. => "type reference still unresolved"
  | .resolved .. => "type reference resolved"
  | .invalidated .. => "type reference invalidated"
  | .deconstructed .. => "type reference deconstructed"
  | .relationChecked .. => "relation checked"
  | .problemWithoutNode .. => "relation problem between two types names no value to report on"

/-- The named fields of an entry, in order. -/
def fields : LogEntry → List (String × String)
  | .typeAdded key => [("key", key)]
  | .typeRemoved key => [("key", key)]
  | .edgeAdded e =>
    [("from", e.source.identifier), ("to", e.target.identifier), ("kind", e.kind.describe)]
  | .edgeRemoved e =>
    [("from", e.source.identifier), ("to", e.target.identifier), ("kind", e.kind.describe)]
  | .assignable actual expected =>
    [("actual", actual.identifier), ("expected", expected.identifier)]
  | .ruleAdded name boundTo =>
    [("rule", name), ("bound_to", Text.optional (boundTo.map Ty.describe))]
  | .ruleRemoved name => [("rule", name)]
  | .nothingInferred problems => [("problems", toString problems)]
  | .selectorTooDeep limit => [("limit", toString limit)]
  | .stillUnresolved _ selector => [("selector", selector)]
  | .resolved _ selector t => [("selector", selector), ("ty", t.identifier)]
  | .invalidated _ selector t => [("selector", selector), ("ty", t.identifier)]
  | .deconstructed _ selector => [("selector", selector)]
  | .relationChecked actual expected relation negated holds =>
    [("actual", actual.identifier), ("expected", expected.identifier), ("relation", relation.word),
      ("negated", toString negated), ("holds", toString holds)]
  | .problemWithoutNode actual expected =>
    [("actual", actual.identifier), ("expected", expected.identifier)]

end LogEntry
end LiveTypes
