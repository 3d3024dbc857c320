import LiveTypes.Session.Selector
import LiveTypes.Session.Steps.Graph

/-!
# Scripted sessions: rules, selectors and references
-/
namespace LiveTypes.Session

/-! ## Inference rules -/

def ruleCase (j : Json) : Run RuleCase := do
  return ⟨.ofJson (j.field "if"), ← optionalAction j "act", .ofJson (j.field "then")⟩

/-- Steps about inference rules. -/
def ruleStep (perform : Perform) (j : Json) : String → Option (Run Json)
  | "add_rule" => some do
    let handle ← freshHandle (fun s h => (s.rules.find? h).isSome) j
    let name := (j.field "name").str?.getD handle
    let cases ← (← j.arrayAt "cases").mapM ruleCase
    let boundTo ← (j.field "bound").str?.mapM typeNamed
    let system ← systemAt j
    let tag : RuleTag := ⟨(← get).ruleScripts.size⟩
    modify fun s => { s with ruleScripts := s.ruleScripts.push ⟨systemHandle j, cases⟩ }
    match ← keeping [.system system] (perform (.addRule system tag name boundTo)) with
    | .rule id =>
      modify fun s => { s with rules := s.rules.insert handle id }
      return .str (Rule.describeId id)
    | _ => throw .exhausted
  | "remove_rule" => some do
    let rule ← handleAt (·.rules) j "rule"
    let system ← systemAt j
    keeping [.system system] (performFlag perform (.removeRule system rule))
  | "rule_count" => some do
    let system ← systemAt j
    return .nat ((← get).engine.rulesOf system).length
  | "infer" => some do
    let system ← systemAt j
    let node ← j.nodeAt "node"
    match ← keeping [.system system] (perform (.infer system node)) with
    | .inference outcome => return (← get).inferenceJson outcome
    | _ => throw .exhausted
  | _ => none

/-! ## Selection -/

/-- Steps about selectors. -/
def selectionStep (perform : Perform) (j : Json) : String → Option (Run Json)
  | "set_var" => some do
    let name ← j.textAt "h"
    modify fun s => { s with bindings := s.bindings.insert name (j.field "sel") }
    return .str "ok"
  | "sel_debug" => some do
    let selector ← buildSelector (j.field "sel")
    return .str ((← get).engine.describeSelector selector)
  | "try_select" => some do
    let system ← systemAt j
    let selector ← buildSelector (j.field "sel")
    match ← keeping [.system system] (perform (.trySelect system selector)) with
    | .trial t => return (← get).typeJson? t
    | _ => throw .exhausted
  | "must_select" => some do
    let system ← systemAt j
    let selector ← buildSelector (j.field "sel")
    match ← keeping [.system system] (perform (.mustSelect system selector)) with
    | .selection (.ok t) => return (← get).typeJson t
    | .selection (.error e) => errorJson j e.members e.diagnostic
    | _ => throw .exhausted
  | _ => none

/-! ## References -/

/-- A call without a result. -/
def performDone (perform : Perform) (call : Call Node) : Run Unit := do
  match ← perform call with
  | .done => return ()
  | _ => throw .exhausted

/-- References and views share their handles. -/
def referenceHandleInUse (s : Session) (handle : String) : Bool :=
  (s.references.find? handle).isSome || (s.views.find? handle).isSome

/-- Give up a handle of a reference; the reference is deconstructed. -/
def dropReference (perform : Perform) (handle : String) : Run Bool := do
  match (← get).references.find? handle with
  | none => return false
  | some r =>
    modify fun s => { s with references := s.references.erase handle }
    keeping [.reference r] (performDone perform (.deconstruct r))
    return true

/-- The reference whose listeners a step changes; a view goes before a reference. -/
def referenceAt (j : Json) : Run ReferenceId :=
  if (j.field "view").str?.isSome then handleAt (·.views) j "view"
  else handleAt (·.references) j "ref"

/-- What a step that changes listeners answers: how many the reference has that it names, which may
be gone by now. -/
def listenerCount (j : Json) : Run Json := do
  match (j.field "ref").str? with
  | none => return .str "ok"
  | some handle =>
    let s ← get
    let reference := do s.engine.references[← s.references.find? handle]?
    return .ofOption (fun r => .nat r.listeners.length) reference

/-- What can be seen of a reference. -/
def referenceMembers (s : Session) (r : ReferenceId) : List (String × Json) :=
  let t := s.engine.typeOf? r
  [ ("type", s.typeJson? t),
    ("resolved", .bool t.isSome),
    ("selector", .str (s.engine.describeSelector (s.engine.selectorOf r)))]

/-- Steps about references and views. -/
def referenceStep (perform : Perform) (j : Json) : String → Option (Run Json)
  | "ref" => some do
    let handle ← freshHandle referenceHandleInUse j
    let system ← systemAt j
    let selector ← buildSelector (j.field "sel")
    match ← keeping [.system system] (perform (.addReference system selector)) with
    | .reference r =>
      let _ ← keeping [.reference r] (dropReference perform handle)
      modify fun s => { s with references := s.references.insert handle r }
      let s ← get
      return s.typeJson? (s.engine.typeOf? r)
    | _ => throw .exhausted
  | "ref_state" => some do
    let r ← handleAt (·.references) j "ref"
    let s ← get
    let count := (s.engine.references[r]?.map (·.listeners.length)).getD 0
    return .obj (s.referenceMembers r ++ [
      ("listeners", .nat count),
      ("debug", .str ("TypeReference(" ++ s.engine.describeReference r ++ ")"))])
  | "view" => some do
    let handle ← freshHandle referenceHandleInUse j
    let r ← handleAt (·.references) j "ref"
    modify fun s => { s with views := s.views.insert handle r }
    return .str "ok"
  | "view_state" => some do
    let r ← handleAt (·.views) j "view"
    let s ← get
    return .obj (s.referenceMembers r ++ [("debug", .str (s.engine.describeReference r))])
  | "view_eq" => some do
    let a ← handleAt (·.views) j "a"
    let b ← handleAt (·.views) j "b"
    return .bool (a = b)
  | "drop_view" => some do
    let handle ← j.textAt "view"
    let found := ((← get).views.find? handle).isSome
    modify fun s => { s with views := s.views.erase handle }
    return .bool found
  | "ref_listen" => some do
    let o ← handleAt (·.observers) j "l"
    let r ← referenceAt j
    let inform := (j.field "inform").bool?.getD false
    keeping [.observer o, .reference r] (performDone perform (.listenToReference r o inform))
    listenerCount j
  | "ref_unlisten" => some do
    let o ← handleAt (·.observers) j "l"
    let r ← referenceAt j
    performDone perform (.leaveReference r o)
    listenerCount j
  | "deconstruct" => some do
    performDone perform (.deconstruct (← handleAt (·.references) j "ref"))
    return .str "ok"
  | "drop_ref" => some do return .bool (← dropReference perform (← j.textAt "ref"))
  | _ => none

end LiveTypes.Session
