import LiveTypes.Session.Steps.Validation

/-!
# Scripted sessions: answering the engine

What the scripts say when the engine asks them.
-/
namespace LiveTypes.Session

/-- Run the steps of an action, if it has a time left; the count goes down first. -/
def runAction (perform : Perform) (id : ActionId) : Run Unit := do
  match (← get).actions[id]? with
  | some ⟨steps, times + 1⟩ =>
    modify fun s => { s with actions := s.actions.set! id ⟨steps, times⟩ }
    for j in steps do
      let result ← answerStep perform j
      emit (.arr [.str "do", j.field "op", result])
  | _ => return ()

def runOptionalAction (perform : Perform) : Option ActionId → Run Unit
  | none => return ()
  | some id => runAction perform id

/-- An observer writes down what it hears and does what it has to. -/
def takeNotice (perform : Perform) (o : Observer) (notice : Notice) : Run Unit := do
  let s ← get
  match s.observerScripts[o.tag]? with
  | none => return ()
  | some script =>
    let kind := noticeWord notice
    emit (.arr (.str script.name :: .str kind :: s.noticeDetails notice))
    runOptionalAction perform (script.actions.lookup kind)

/-- What the type of an item of a list comes to in the system that has a handle now. -/
def inferItem (perform : Perform) (system : String) (item : Node) : Run Outcome := do
  match (← get).systems.find? system with
  | none => return .notApplicable
  | some system =>
    match ← keeping [.system system] (perform (.infer system item)) with
    | .inference (.ok t) => return .inferred t
    | .inference (.error problems) =>
      return .problem ("[" ++ "; ".intercalate (problems.map (·.describe)) ++ "]")
    | _ => throw .exhausted

/-- What the conclusion of a case comes to. -/
def conclude (perform : Perform) (system : String) (node : Node) : Conclusion → Run Outcome
  | .notApplicable => return .notApplicable
  | .type handle => do
    match (← get).types.find? handle with
    | some t => return .inferred t
    | none => return .problem ("no type " ++ handle)
  | .fresh identifier => return .inferred (← newType identifier identifier)
  | .problem message => return .problem (message.replace "\x7bnode\x7d" node.describe)
  | .lookup key => do
    match (← get).engine.graph.get? key with
    | some t => return .inferred t
    | none => return .problem ("no " ++ key)
  | .element index => do
    match node with
    | .list items =>
      match items[index]? with
      | none => return .problem "no element"
      | some item => inferItem perform system item
    | _ => return .notApplicable

def runRule (perform : Perform) (rule : Rule) (node : Node) : Run Outcome := do
  emit (.arr [.str "rule", .str rule.name, node.toJson])
  match (← get).ruleScripts[rule.tag.tag]? with
  | none => return .notApplicable
  | some script =>
    match script.cases.find? (·.test.holds node) with
    | none => return .notApplicable
    | some c =>
      runOptionalAction perform c.action
      conclude perform script.system node c.conclusion

/-- The selector that a variable holds now. If it holds none, or none that can be built, the variable
stands for a key of its own name. -/
def expandVariable (name : String) : Run (Selector Node) := do
  emit (.arr [.str "expand", .str name])
  let fallback : Selector Node := .identifier ("$" ++ name)
  match (← get).bindings.find? name with
  | none => return fallback
  | some spec =>
    tryCatch (buildSelector spec) fun
      | .badStep _ => return fallback
      | fault => throw fault

def expand (d : Deferral) : Run (Selector Node) := do
  match (← get).expansions[d.tag]? with
  | some (.fixed deferrals selector) => defer deferrals selector
  | some (.lookup name) => expandVariable name
  | none => badSelector

def handleOf (i : Initializer) (final : Bool) : Run Ty := do
  emit (.arr [.str "init", .str (if final then "final" else "initial")])
  match (← get).initializers[i.tag]? with
  | some handles => return if final then handles.2 else handles.1
  | none => throw .exhausted

/-- What a check in a validation rule finds; one that cannot be carried out finds nothing. -/
def runCheckIn (perform : Perform) (node : Node) : Option Json → Run (List (Problem Node))
  | none => return []
  | some check =>
    tryCatch (performCheck perform (some node) check) fun
      | .badStep _ => return []
      | fault => throw fault

/-- What one case of a validation rule finds: first its action runs, then its check, then comes its
own problem. -/
def runCheckCase (perform : Perform) (node : Node) (c : CheckCase) : Run (List (Problem Node)) := do
  if !c.test.holds node then return []
  runOptionalAction perform c.action
  let found ← runCheckIn perform node c.check
  let own : List (Problem Node) := match c.problem with
    | none => []
    | some (message, severity) => [{ node, severity, message }]
  return found ++ own

def runCheck (perform : Perform) (check : CheckTag) (node : Node) : Run (List (Problem Node)) := do
  match (← get).checkScripts[check.tag]? with
  | none => return []
  | some script =>
    emit (.arr [.str "vrule", .str script.name, node.toJson])
    return (← script.cases.mapM (runCheckCase perform node)).flatten

/-- A message with the texts of both types filled in. -/
def fillMessage (actual expected : AnnotatedType) (message : String) : String :=
  (((message.replace "\x7ba\x7d" actual.printed).replace "\x7be\x7d" expected.printed).replace
    "\x7bai\x7d" actual.type.identifier).replace "\x7bei\x7d" expected.type.identifier

def wordViolation (provider : ProviderTag) (actual expected : AnnotatedType) :
    Run (ProblemDetails Node) := do
  let s ← get
  emit (.arr [.str "provider", s.annotatedJson actual, s.annotatedJson expected])
  match s.providers[provider.tag]? with
  | none => return {}
  | some details => return { details with message := details.message.map (fillMessage actual expected) }

/-- Answer the engine. -/
def respond (perform : Perform) : Question Node → Run (Answer Node)
  | .tell o notice => do takeNotice perform o notice; return .done
  | .infer rule node => return .outcome (← runRule perform rule node)
  | .expand d => return .selector (← expand d)
  | .initial i => return .type (← handleOf i false)
  | .final i => return .type (← handleOf i true)
  | .validate check node => return .problems (← runCheck perform check node)
  | .details provider actual expected => return .details (← wordViolation provider actual expected)

end LiveTypes.Session
