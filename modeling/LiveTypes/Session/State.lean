import LiveTypes.Engine.Run
import LiveTypes.Session.Script

/-!
# Scripted sessions: state

A scripted host drives the engine by steps written in JSON and writes down what it observes. Things
have handles: names under which later steps find them. The host's callbacks are scripts; a script may
run further steps from inside the callback, so it calls the engine again while the engine is waiting
for it. A step checks a new handle first. A step that asks a type system to select, infer or validate
looks it up next; one that changes or checks a part of it looks it up after all else that it names.
-/
namespace LiveTypes

/-! ## The state of a session -/

/-- Something that a running step keeps in existence. -/
inductive Kept where
  | observer (observer : Observer)
  | reference (reference : ReferenceId)
  | system (system : SystemId)
deriving DecidableEq

/-- A session: the engine, the handles, the scripts and the events of the current step. -/
structure Session where
  engine : Engine Node := {}
  /-- The identity of the next type. -/
  nextType : Nat := 1
  types : Table Ty := []
  subscriptions : Table Nat := []
  rules : Table RuleId := []
  references : Table ReferenceId := []
  views : Table ReferenceId := []
  observers : Table Observer := []
  systems : Table SystemId := []
  bindings : Table Json := []
  actions : Array Action := #[]
  observerScripts : Array ObserverScript := #[]
  ruleScripts : Array RuleScript := #[]
  checkScripts : Array CheckScript := #[]
  expansions : Array Expansion := #[]
  initializers : Array (Ty × Ty) := #[]
  providers : Array (ProblemDetails Node) := #[]
  kept : List Kept := []
  events : Array Json := #[]
  logLevel : Option LogLevel := none

/-- Why a step is not carried out. -/
inductive Fault where
  /-- The step is wrong; the session goes on with the next one. -/
  | badStep (message : String)
  /-- A label that ends before it starts cannot be drawn; the session ends. -/
  | undrawable
  /-- The session takes more steps than it has fuel for. -/
  | exhausted
deriving Inhabited

/-- Work of a session, which may break off. -/
abbrev Run := ExceptT Fault (StateM Session)

instance : MonadLift (Except String) Run where
  monadLift
    | .ok a => pure a
    | .error message => throw (.badStep message)

/-- How a session calls the engine. -/
abbrev Perform := Call Node → Run (Result Node)

namespace Session

def emit (event : Json) : Run Unit := modify fun s => { s with events := s.events.push event }

/-- Do something while other things are kept in existence. -/
def keeping {α : Type} (things : List Kept) (work : Run α) : Run α :=
  ExceptT.mk fun s =>
    let (outcome, after) := work.run.run { s with kept := things ++ s.kept }
    (outcome, { after with kept := s.kept })

/-! ## Names in answers -/

/-- A type by its handle, or, if it has none, by its identifier. -/
def typeLabel (s : Session) (t : Ty) : String :=
  match List.find? (fun entry => decide (entry.2 = t)) s.types with
  | some (handle, _) => handle
  | none => "~" ++ t.identifier

def typeJson (s : Session) (t : Ty) : Json := .str (s.typeLabel t)

def typeJson? (s : Session) (t : Option Ty) : Json := .ofOption s.typeJson t

/-- The first of some handles in alphabetical order. -/
def firstHandle? (handles : List String) : Option String :=
  handles.foldl (fun best h =>
    match best with
    | some b => if h < b then some h else some b
    | none => some h) none

/-- A reference by its handle, or else by the first handle of a view of it. -/
def referenceLabel (s : Session) (r : ReferenceId) : String :=
  let handles (t : Table ReferenceId) := (t.filter (·.2 = r)).map (·.1)
  ((firstHandle? (handles s.references)).or (firstHandle? (handles s.views))).getD "?"

/-- The word for a kind of edge. -/
def edgeWord : EdgeKind → String
  | .subType => "sub"
  | .implicitConversion => "conv"
  | .other name => name

def edgeJson (s : Session) (e : Edge) : List Json :=
  [s.typeJson e.source, s.typeJson e.target, .str (edgeWord e.kind)]

/-! ## Handles -/

/-- The type that has a handle. -/
def typeNamed (handle : String) : Run Ty := do
  match (← get).types.find? handle with
  | some t => return t
  | none => throw (.badStep ("no type " ++ handle))

def typeAt (j : Json) (key : String) : Run Ty := do typeNamed (← j.textAt key)

/-- What a handle names in one of the tables. -/
def handleAt {α : Type} (table : Session → Table α) (j : Json) (key : String) : Run α := do
  let handle ← j.textAt key
  match (table (← get)).find? handle with
  | some a => return a
  | none => throw (.badStep ("no handle " ++ handle))

/-- A handle that nothing has yet. -/
def freshHandle (inUse : Session → String → Bool) (j : Json) : Run String := do
  let handle ← j.textAt "h"
  if inUse (← get) handle then throw (.badStep ("handle " ++ handle ++ " in use"))
  return handle

/-- The handle of the type system that a step is about. -/
def systemHandle (j : Json) : String := (j.field "sys").str?.getD "main"

/-- The type system that a step is about. -/
def systemAt (j : Json) : Run SystemId := do
  let handle := systemHandle j
  match (← get).systems.find? handle with
  | some s => return s
  | none => throw (.badStep ("no handle " ++ handle))

/-! ## New things -/

def newType (identifier name : String) : Run Ty := do
  let t : Ty := ⟨(← get).nextType, identifier, name⟩
  modify fun s => { s with nextType := s.nextType + 1 }
  return t

def newAction (j : Json) : Run ActionId := do
  let id := (← get).actions.size
  modify fun s => { s with actions := s.actions.push (.ofJson j) }
  return id

def optionalAction (j : Json) (key : String) : Run (Option ActionId) := do
  let spec := j.field key
  if spec.isNull then return none else return some (← newAction spec)

def newExpansion (expansion : Expansion) : Run Deferral := do
  let tag := (← get).expansions.size
  modify fun s => { s with expansions := s.expansions.push expansion }
  return ⟨tag⟩

def newInitializer (initial final : Ty) : Run Initializer := do
  let tag := (← get).initializers.size
  modify fun s => { s with initializers := s.initializers.push (initial, final) }
  return ⟨tag⟩

end Session
end LiveTypes
