import LiveTypes.Session.Existence
import LiveTypes.Session.Steps.Reference

/-!
# Scripted sessions: relation checks, validation rules and type systems
-/
namespace LiveTypes.Session

/-! ## Relation checks -/

/-- One side of a check. The value that is being validated is absent outside a validation rule. -/
def operandAt (self : Option Node) (j : Json) (key : String) : Run (Option (Operand Node)) := do
  match j.field key with
  | .null => return none
  | .str "self" => return self.map .node
  | spec =>
    match (spec.field "type").str? with
    | some handle => return some (.type (← typeNamed handle))
    | none => return some (.node (← spec.nodeAt "node"))

/-- Who words the violations of a check: any object stands for one. -/
def providerAt (j : Json) : Run (Option ProviderTag) := do
  let spec := j.field "provider"
  if spec.isNull then return none
  let details : ProblemDetails Node := {
    node := ← spec.optionalAt Json.nodeAt "node"
    property := (spec.field "property").str?
    index := (spec.field "index").nat?
    severity := ← spec.severityAt? "severity"
    message := (spec.field "message").str? }
  let tag := (← get).providers.size
  modify fun s => { s with providers := s.providers.push details }
  return some ⟨tag⟩

/-- The relation that a check is about, and whether it must not hold. -/
def relationOf (j : Json) : Run (Relation × Bool) := do
  match ← j.textAt "check" with
  | "assignable" => return (.assignable, false)
  | "equals" => return (.equal, false)
  | "not_type" => return (.equal, true)
  | "related" => return (← j.relationAt "relation", (j.field "negated").bool?.getD false)
  | other => throw (.badStep ("unknown check " ++ other))

/-- Carry out a check. -/
def performCheck (perform : Perform) (self : Option Node) (j : Json) : Run (List (Problem Node)) := do
  let actual ← operandAt self j "actual"
  let expected ← operandAt self j "expected"
  let provider ← providerAt j
  let system ← systemAt j
  let (relation, negated) ← relationOf j
  let request : CheckRequest Node := { system, actual, expected, relation, negated, provider }
  match ← keeping [.system system] (perform (.relate request)) with
  | .problems problems => return problems
  | _ => throw .exhausted

/-! ## Validation rules -/

def checkCase (j : Json) : Run CheckCase := do
  let check := j.field "ensure"
  return {
    test := .ofJson (j.field "if")
    action := ← optionalAction j "act"
    check := if check.isNull then none else some check
    problem := CheckCase.problemOf? j }

def newCheck (j : Json) : Run CheckTag := do
  let name ← j.textAt "name"
  let cases ← (← j.arrayAt "cases").mapM checkCase
  let tag := (← get).checkScripts.size
  modify fun s => { s with checkScripts := s.checkScripts.push ⟨name, cases⟩ }
  return ⟨tag⟩

def checkCount (s : Session) (system : SystemId) : Nat :=
  (s.engine.systems[system]?.map (·.checks.length)).getD 0

/-- Steps about validation. -/
def validationStep (perform : Perform) (j : Json) : String → Option (Run Json)
  | "ensure" => some do problemsJson j (← performCheck perform none j)
  | "add_vrule" => some do
    let check ← newCheck (j.field "rule")
    let system ← systemAt j
    performDone perform (.addChecks system [check])
    return .nat ((← get).checkCount system)
  | "add_vrules" => some do
    let checks ← (← j.arrayAt "rules").mapM newCheck
    let order ← (← j.arrayAt "order").mapM fun index => do
      match index.nat?.bind (checks[·]?) with
      | some check => return check
      | none => throw (.badStep "no such rule")
    let system ← systemAt j
    performDone perform (.addChecks system order)
    return .nat ((← get).checkCount system)
  | "validate" => some do
    let system ← systemAt j
    let node ← j.nodeAt "node"
    match ← keeping [.system system] (perform (.validate system node)) with
    | .problems problems => problemsJson j problems
    | _ => throw .exhausted
  | "vrule_count" => some do
    let count := (← get).checkCount (← systemAt j)
    return .arr [.nat count, .bool (count == 0)]
  | _ => none

/-! ## Type systems -/

/-- The part of an identifier before its first dot and the part after it. -/
def splitDot? (identifier : String) : Option (String × String) :=
  let cs := identifier.toList
  match cs.dropWhile (· ≠ '.') with
  | [] => none
  | _ :: rest => some (String.ofList (cs.takeWhile (· ≠ '.')), String.ofList rest)

/-- A host's own comparison by identifiers, part by part along their dots, with fuel for the parts.
Anything is assignable to `Any`. -/
def compareDottedTo : Nat → Relation → Ty → Ty → Option Mismatch
  | 0, _, _, _ => none
  | depth + 1, relation, actual, expected =>
    if actual.identifier = expected.identifier then none
    else if relation = .assignable && expected.identifier = "Any" then none
    else
      let plain := Mismatch.plain relation actual expected
      match splitDot? actual.identifier, splitDot? expected.identifier with
      | some (head, tail), some (head', tail') =>
        let parts := [
          compareDottedTo depth relation (.anonymous head) (.anonymous head'),
          compareDottedTo depth relation (.anonymous tail) (.anonymous tail')]
        some ((parts.filterMap id).foldl Mismatch.withPart plain)
      | none, none => some plain
      | _, _ =>
        some (plain.withMessage
          ("shape of '" ++ actual.name ++ "' differs from '" ++ expected.name ++ "'"))

/-- A host's own comparison by dotted identifiers. -/
def compareDotted (relation : Relation) (actual expected : Ty) : Option Mismatch :=
  compareDottedTo (actual.identifier.length + expected.identifier.length + 1) relation actual expected

/-- A new type system, as a step or the session itself describes it. -/
def newSystem (perform : Perform) (handle : String) (j : Json) : Run Unit := do
  let config ← Config.ofJson (j.field "config")
  let printer := if (j.field "printer").str? = some "bracket" then Printer.bracket else .plain
  let comparisons :=
    if (j.field "comparisons").str? = some "dotted" then Comparisons.custom compareDotted else .graph
  match ← perform (.addSystem config printer comparisons) with
  | .system system => modify fun s => { s with systems := s.systems.insert handle system }
  | _ => throw .exhausted

/-- Steps about type systems. -/
def systemStep (perform : Perform) (j : Json) : String → Option (Run Json)
  | "system" => some do
    let handle ← freshHandle (fun s h => (s.systems.find? h).isSome) j
    newSystem perform handle j
    return .str "ok"
  | "drop_system" => some do
    let handle ← j.textAt "h"
    let found := ((← get).systems.find? handle).isSome
    modify fun s => { s with systems := s.systems.erase handle }
    return .bool found
  | "config" => some do
    let system ← systemAt j
    return .ofOption (fun system => Config.toJson system.config) ((← get).engine.systems[system]?)
  | _ => none

/-! ## One step -/

/-- Carry out one step. -/
def step (perform : Perform) (j : Json) : Run Json := do
  let op ← j.textAt "op"
  let work := graphStep perform j op <|> observerStep perform j op <|> ruleStep perform j op <|>
    selectionStep perform j op <|> referenceStep perform j op <|> validationStep perform j op <|>
    systemStep perform j op
  work.getD (throw (.badStep ("unknown step " ++ op)))

/-- Carry out one step; a wrong step gives an answer of its own. What no longer exists before or after
the step is gone. -/
def answerStep (perform : Perform) (j : Json) : Run Json := do
  modify sweep
  let result ← tryCatch (step perform j) fun
    | .badStep message => return .obj [("error", .str "bad_step"), ("message", .str message)]
    | fault => throw fault
  modify sweep
  return result

end LiveTypes.Session
