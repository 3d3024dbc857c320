import LiveTypes.Session.State

/-!
# Scripted sessions: answers and events

How results and events of a session look in JSON.
-/
namespace LiveTypes.Session

/-! ## Results -/

/-- A diagnostic at the span that a step gives, if it gives one. -/
def located (j : Json) (diagnostic : Span → Diagnostic) : Run (Option Diagnostic) := do
  return (← j.optionalAt Json.spanAt "span").map diagnostic

/-- The rendering of a diagnostic in the source that a step gives, if it gives one. -/
def rendering (j : Json) (d : Diagnostic) : Run (List (String × Json)) := do
  let wanted := j.field "render"
  if wanted.isNull then return []
  let source ← wanted.textAt "source"
  let filename ← wanted.textAt "filename"
  match d.render? source filename with
  | some rendered => return [("render", rendered.toJson)]
  | none => throw .undrawable

/-- An error with its diagnostic, if the step says where it stands. -/
def errorJson (j : Json) (members : List (String × Json)) (diagnostic : Span → Diagnostic) :
    Run Json := do
  match ← located j diagnostic with
  | none => return .obj members
  | some d => return .obj (members ++ [("diag", d.toJson)])

/-- A problem with its diagnostic and its rendering, as far as the step asks for them. -/
def problemJson (j : Json) (printer : Printer Node) (p : Problem Node) : Run Json := do
  let members := p.members (← get).typeLabel printer
  match ← located j p.diagnostic with
  | none => return .obj members
  | some d => return .obj (members ++ [("diag", d.toJson)] ++ (← rendering j d))

/-- The problems that a step found, printed by the system that has the step's handle by then. -/
def problemsJson (j : Json) (problems : List (Problem Node)) : Run Json := do
  let system ← systemAt j
  let printer := match (← get).engine.systems[system]? with
    | some system => system.printer
    | none => .plain
  return .arr (← problems.mapM (problemJson j printer))

def inferenceJson (s : Session) : Except (List InferenceProblem) Ty → Json
  | .ok t => s.typeJson t
  | .error problems => .obj [
      ("error", .str "problems"), ("problems", .ofList (fun p => .str p.describe) problems)]

/-- What a session looks like from outside. -/
def stateJson (s : Session) : Json :=
  .obj [
    ("types", .ofList s.typeJson s.engine.graph.types),
    ("rules", .obj (s.systems.map fun (handle, system) =>
      (handle, .nat (s.engine.rulesOf system).length))),
    ("refs", .obj (s.references.map fun (handle, r) => (handle, s.typeJson? (s.engine.typeOf? r))))]

/-! ## Events -/

/-- The word for what an observer hears. -/
def noticeWord : Notice → String
  | .graph (.addedType _ _) => "added_type"
  | .graph (.removedType _ _) => "removed_type"
  | .graph (.addedEdge _) => "added_edge"
  | .graph (.removedEdge _) => "removed_edge"
  | .rule _ (.added _ _) => "added_rule"
  | .rule _ (.removed _ _) => "removed_rule"
  | .reference _ (.resolved _) => "resolved"
  | .reference _ (.invalidated _) => "invalidated"

/-- The particulars of what an observer hears. -/
def noticeDetails (s : Session) : Notice → List Json
  | .graph (.addedType t key) => [s.typeJson t, .str key]
  | .graph (.removedType t key) => [s.typeJson t, .str key]
  | .graph (.addedEdge e) => s.edgeJson e
  | .graph (.removedEdge e) => s.edgeJson e
  | .rule _ (.added id boundTo) => [.str (Rule.describeId id), s.typeJson? boundTo]
  | .rule _ (.removed id boundTo) => [.str (Rule.describeId id), s.typeJson? boundTo]
  | .reference r (.resolved t) =>
    [.str (s.referenceLabel r), s.typeJson t, s.typeJson? (s.engine.typeOf? r)]
  | .reference r (.invalidated previous) =>
    [.str (s.referenceLabel r), s.typeJson? previous, s.typeJson? (s.engine.typeOf? r)]

def logJson (entry : LogEntry) : Json :=
  .arr [
    .str "log", .str entry.level.word, .str entry.message,
    .ofList (fun (name, value) => .str (name ++ "=" ++ value)) entry.fields]

def annotatedJson (s : Session) (t : AnnotatedType) : Json :=
  .arr [s.typeJson t.type, .str t.printed, .str t.type.identifier]

end LiveTypes.Session
