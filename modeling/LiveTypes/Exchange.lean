import LiveTypes.Config
import LiveTypes.Diagnostic.Render
import LiveTypes.Json.Fields
import LiveTypes.Problem.Record
import LiveTypes.Selector

/-!
# JSON forms

How the values of the library look in JSON. An absent value is `null`. Types have no form of their
own: whoever writes a value that mentions types says how to name them.
-/
namespace LiveTypes

/-! ## Fields -/

def Json.severityAt (j : Json) (key : String) : Except String Severity :=
  j.namedAt "severity" Severity.ofWord? key

/-- A severity that may be left out; what is no text counts as left out. -/
def Json.severityAt? (j : Json) (key : String) : Except String (Option Severity) :=
  match (j.field key).str? with
  | none => .ok none
  | some _ => (j.severityAt key).map some

def Json.codeAt (j : Json) (key : String) : Except String Code := j.namedAt "code" Code.named? key

def Json.relationAt (j : Json) (key : String) : Except String Relation :=
  j.namedAt "relation" Relation.ofWord? key

/-- A span, written as an array that begins with its two ends. -/
def Json.spanAt (j : Json) (key : String) : Except String Span :=
  match j.field key with
  | .arr (start :: stop :: _) =>
    match start.nat?, stop.nat? with
    | some start, some stop => .ok (.between start stop)
    | _, _ => .error (key ++ " must be [start, end]")
  | _ => .error (key ++ " must be [start, end]")

/-! ## Diagnostics -/

def Label.toJson (l : Label) : Json := .arr [.str l.span.describe, .str l.message]

def Diagnostic.toJson (d : Diagnostic) : Json :=
  .obj [
    ("severity", d.severity.toJson),
    ("kind", .str d.kind.describe),
    ("code", .ofOption (fun c => .str (Code.short c)) d.code),
    ("message", .str d.message),
    ("span", .str d.span.describe),
    ("labels", .ofList Label.toJson d.labels),
    ("notes", .ofList .str d.notes),
    ("help", .ofOption .str d.help)]

def Rendered.toJson (r : Rendered) : Json :=
  .obj [
    ("header", .str r.header),
    ("place", .ofOption .str r.place),
    ("help", .ofOption .str r.help),
    ("note", .ofOption .str r.note)]

def Config.toJson (c : Config) : Json :=
  .obj [
    ("max_depth", .nat c.maxDepth),
    ("severity", c.severity.toJson),
    ("debug", .str c.describe)]

/-- The settings that an object gives; what it leaves out is as by default. -/
def Config.ofJson (j : Json) : Except String Config := do
  let severity ← j.severityAt? "severity"
  return { maxDepth := (j.field "max_depth").nat?.getD 64, severity := severity.getD .error }

/-! ## Domain values -/

namespace Node

mutual

def toJson : Node → Json
  | .int value => .obj [("int", .int value)]
  | .text value => .obj [("text", .str value)]
  | .var name => .obj [("var", .str name)]
  | .raw description => .obj [("raw", .str description)]
  | .list items => .obj [("list", .arr (toJsonAll items))]

def toJsonAll : List Node → List Json
  | [] => []
  | n :: rest => n.toJson :: toJsonAll rest

end

/-- A value nested at most `depth` levels deep. A member names the kind of value; of several, the
first kind counts whose member fits it. -/
def ofJsonTo? : Nat → Json → Option Node
  | 0, _ => none
  | depth + 1, j =>
    let plain := (j.field "int").int?.map .int <|> (j.field "text").str?.map .text <|>
      (j.field "var").str?.map .var <|> (j.field "raw").str?.map .raw
    match plain with
    | some n => some n
    | none => do return .list (← (← (j.field "list").arr?).mapM (ofJsonTo? depth))

def ofJson? (j : Json) : Option Node := ofJsonTo? (j.depth + 1) j

end Node

/-- A domain value in a field. -/
def Json.nodeAt (j : Json) (key : String) : Except String Node :=
  Json.need "bad node" (Node.ofJson? (j.field key))

/-! ## Mismatches, problems and errors -/

namespace Mismatch

mutual

def toJson (label : Ty → String) : Mismatch → Json
  | ⟨relation, actual, expected, message, parts⟩ =>
    .obj [
      ("relation", .str relation.word),
      ("actual", .str (label actual)),
      ("expected", .str (label expected)),
      ("message", .str message),
      ("sub", .arr (toJsonAll label parts))]

def toJsonAll (label : Ty → String) : List Mismatch → List Json
  | [] => []
  | m :: rest => m.toJson label :: toJsonAll label rest

end

end Mismatch

/-- The members of a problem, its record included. -/
def Problem.members (label : Ty → String) (printer : Printer Node) (p : Problem Node) :
    List (String × Json) :=
  [ ("node", p.node.toJson),
    ("property", .ofOption .str p.property),
    ("index", .ofOption .nat p.index),
    ("severity", p.severity.toJson),
    ("code", .ofOption (fun c => .str (Code.short c)) p.code),
    ("message", .str p.message),
    ("sub", .arr (Mismatch.toJsonAll label p.mismatches)),
    ("location", .ofOption .str p.location),
    ("record", .str (p.record printer).write)]

/-- The members of an error of the graph. -/
def GraphError.members (e : GraphError) : List (String × Json) :=
  let kind := match e with
    | .duplicateKey _ => "DuplicateKey"
    | .alreadyRegistered _ => "AlreadyRegistered"
    | .missingEndpoint _ => "MissingEndpoint"
  [("error", .str kind), ("message", .str e.message), ("code", .str e.code.short)]

/-- The members of an error of a selection. -/
def SelectError.members (e : SelectError) : List (String × Json) :=
  let specific : List (String × Json) := match e with
    | .unresolved identifier => [("identifier", .str identifier)]
    | .uninferable node problems =>
      [("node", .str node), ("problems", .ofList (fun p => .str p.describe) problems)]
    | .tooDeep limit => [("depth", .nat limit)]
  [("error", .str e.code.describe)] ++ specific ++
    [("message", .str e.message), ("code", .str e.code.short)]

end LiveTypes
