import LiveTypes.Session.Answer

/-!
# Scripted sessions: types, graph and observers
-/
namespace LiveTypes.Session

/-- A call that answers yes or no. -/
def performFlag (perform : Perform) (call : Call Node) : Run Json := do
  match ← perform call with
  | .flag value => return .bool value
  | _ => throw .exhausted

/-- A call that adds something to the graph; an error points at the span of the step. -/
def performAddition (perform : Perform) (j : Json) (call : Call Node) : Run Json := do
  match ← perform call with
  | .addition (.ok ()) => return .str "ok"
  | .addition (.error e) => errorJson j e.members e.diagnostic
  | _ => throw .exhausted

/-- A call that subscribes; the number is stored under the handle. -/
def performSubscription (perform : Perform) (handle : String) (call : Call Node) : Run Json := do
  match ← perform call with
  | .subscription id =>
    modify fun s => { s with subscriptions := s.subscriptions.insert handle id }
    return .nat id
  | _ => throw .exhausted

def freshSubscription (j : Json) : Run String :=
  freshHandle (fun s h => (s.subscriptions.find? h).isSome) j

def edgeAt (j : Json) : Run Edge := do
  let source ← typeAt j "from"
  let target ← typeAt j "to"
  let kind := match ← j.textAt "kind" with
    | "sub" => EdgeKind.subType
    | "conv" => .implicitConversion
    | name => .other name
  return ⟨source, target, kind⟩

/-- Steps about types and the graph. -/
def graphStep (perform : Perform) (j : Json) : String → Option (Run Json)
  | "type" => some do
    let handle ← freshHandle (fun s h => (s.types.find? h).isSome) j
    let identifier ← j.textAt "id"
    let name := (j.field "name").str?.getD identifier
    let t ← newType identifier name
    modify fun s => { s with types := s.types.insert handle t }
    return .arr [.str identifier, .str name, .str name, .str t.describe]
  | "type_eq" => some do
    let a ← typeAt j "a"
    let b ← typeAt j "b"
    return .arr [.bool (a = b), .bool (a = b)]
  | "add_type" => some do
    let t ← typeAt j "t"
    performAddition perform j (.addType t ((j.field "key").str?.getD t.identifier))
  | "remove_type" => some do performFlag perform (.removeType (← typeAt j "t"))
  | "get_type" => some do
    let key ← j.textAt "key"
    let s ← get
    return s.typeJson? (s.engine.graph.get? key)
  | "contains" => some do
    let t ← typeAt j "t"
    return .bool ((← get).engine.graph.contains t)
  | "types" => some do
    let s ← get
    return .ofList s.typeJson s.engine.graph.types
  | "add_edge" => some do performAddition perform j (.addEdge (← edgeAt j))
  | "remove_edge" => some do performFlag perform (.removeEdge (← edgeAt j))
  | "outgoing" => some do
    let t ← typeAt j "t"
    let s ← get
    return .ofList (fun e => .arr (s.edgeJson e)) (s.engine.graph.outgoing t)
  | "edge_info" => some do
    let e ← edgeAt j
    let t ← typeAt j "t"
    return .arr [.bool (e.touches t), .str e.describe]
  | "compare" => some do
    let relation ← j.relationAt "relation"
    let actual ← typeAt j "actual"
    let expected ← typeAt j "expected"
    match ← perform (.compare relation actual expected) with
    | .comparison mismatch => return .ofOption (Mismatch.toJson (← get).typeLabel) mismatch
    | _ => throw .exhausted
  | _ => none

/-- The actions of an observer by kind of event. -/
def observerActions (j : Json) : Run (List (String × ActionId)) := do
  match j.field "on" with
  | .obj members => members.mapM fun (kind, spec) => return (kind, ← newAction spec)
  | _ => return []

/-- Steps about observers. -/
def observerStep (perform : Perform) (j : Json) : String → Option (Run Json)
  | "listener" => some do
    let handle ← freshHandle (fun s h => (s.observers.find? h).isSome) j
    let actions ← observerActions j
    modify fun s =>
      { s with
        observers := s.observers.insert handle ⟨s.observerScripts.size⟩
        observerScripts := s.observerScripts.push ⟨handle, actions⟩ }
    return .str "ok"
  | "drop_listener" => some do
    let handle ← j.textAt "l"
    let found := ((← get).observers.find? handle).isSome
    modify fun s => { s with observers := s.observers.erase handle }
    return .bool found
  | "graph_listen" => some do
    let handle ← freshSubscription j
    let o ← handleAt (·.observers) j "l"
    performSubscription perform handle (.listenToGraph o)
  | "graph_watch" => some do
    let handle ← freshSubscription j
    let o ← handleAt (·.observers) j "l"
    let t ← typeAt j "t"
    performSubscription perform handle (.watchRemoval t o)
  | "rule_listen" => some do
    let handle ← freshSubscription j
    let o ← handleAt (·.observers) j "l"
    performSubscription perform handle (.listenToRules (← systemAt j) o)
  | "graph_unlisten" => some do
    performFlag perform (.leaveGraph (← handleAt (·.subscriptions) j "s"))
  | "graph_subscribed" => some do
    let id ← handleAt (·.subscriptions) j "s"
    return .bool ((← get).engine.listeners.contains id)
  | "rule_unlisten" => some do
    let system ← systemAt j
    performFlag perform (.leaveRules system (← handleAt (·.subscriptions) j "s"))
  | "rule_subscribed" => some do
    let system ← systemAt j
    let id ← handleAt (·.subscriptions) j "s"
    let registered := match (← get).engine.systems[system]? with
      | some system => system.listeners.contains id
      | none => false
    return .bool registered
  | _ => none

end LiveTypes.Session
