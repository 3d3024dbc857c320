import LiveTypes.Json.Reader
import LiveTypes.Json.Writer
import LiveTypes.Problem.Basic

/-!
# Problem records: `to_record`

A problem with its value printed, for hosts that ship problems as JSON. The compact text has the
fields in a fixed order and leaves out what is absent. Reading accepts an object in any order, or an
array of the fields in their order; it ignores members that it does not know and refuses a known
member that is repeated.
-/
namespace LiveTypes

/-- A problem, ready to be shipped. -/
structure ProblemRecord where
  node : String
  property : Option String := none
  index : Option Nat := none
  severity : Severity
  code : Option String := none
  message : String
  subProblems : List String := []
deriving DecidableEq

/-- The record of a problem, its value printed by the given printer: `to_record`. -/
def Problem.record {ν : Type} (printer : Printer ν) (p : Problem ν) : ProblemRecord where
  node := printer.node p.node false
  property := p.property
  index := p.index
  severity := p.severity
  code := p.code.map Code.short
  message := p.message
  subProblems := explain p.mismatches

namespace ProblemRecord

/-! ## Writing -/

/-- A member that is left out when there is no value. -/
def optionalMember {α : Type} (key : String) (f : α → Json) : Option α → List (String × Json)
  | none => []
  | some a => [(key, f a)]

def toJson (r : ProblemRecord) : Json :=
  .obj ([("node", .str r.node)] ++ optionalMember "property" .str r.property ++
    optionalMember "index" .nat r.index ++ [("severity", r.severity.toJson)] ++
    optionalMember "code" .str r.code ++ [("message", .str r.message)] ++
    if r.subProblems.isEmpty then [] else [("sub_problems", .ofList .str r.subProblems)])

/-- The compact JSON text of a record. -/
def write (r : ProblemRecord) : String := r.toJson.write

/-! ## Reading -/

/-- The fields of a record, in order. -/
def fields : List String :=
  ["node", "property", "index", "severity", "code", "message", "sub_problems"]

/-- The value of a member that may be missing, but not repeated. -/
def member? (members : List (String × Json)) (key : String) : Option (Option Json) :=
  match members.filter (·.1 = key) with
  | [] => some none
  | [m] => some (some m.2)
  | _ => none

/-- A value that may be missing or `null`. -/
def optional? {α : Type} (f : Json → Option α) : Option Json → Option (Option α)
  | none => some none
  | some .null => some none
  | some j => (f j).map some

/-- A list of strings that may be missing. -/
def strings? : Option Json → Option (List String)
  | none => some []
  | some (.arr items) => items.mapM Json.str?
  | some _ => none

/-- A record from its seven fields. -/
def ofFields? (node property index severity code message subProblems : Option Json) :
    Option ProblemRecord := do
  return {
    node := ← node.bind Json.str?
    property := ← optional? Json.str? property
    index := ← optional? Json.nat? index
    severity := ← severity.bind Severity.ofJson?
    code := ← optional? Json.str? code
    message := ← message.bind Json.str?
    subProblems := ← strings? subProblems
  }

def ofJson? : Json → Option ProblemRecord
  | .obj members => do
    ofFields? (← member? members "node") (← member? members "property") (← member? members "index")
      (← member? members "severity") (← member? members "code") (← member? members "message")
      (← member? members "sub_problems")
  | .arr [node, property, index, severity, code, message] =>
    ofFields? node property index severity code message none
  | .arr [node, property, index, severity, code, message, subProblems] =>
    ofFields? node property index severity code message subProblems
  | _ => none

/-- Read a record from JSON text. -/
def parse (text : String) : Option ProblemRecord :=
  (Json.parseIgnoring (!fields.contains ·) text).bind ofJson?

end ProblemRecord
end LiveTypes
