import LiveTypes.Engine.Log

/-!
# The state of the engine

One type graph, the type systems around it, the references, and a stack of frames: the work that is
under way. A frame on top of the stack is either ready, and the engine goes on with it, or it waits
for the host. The engine rests when the stack is empty. Since frames are data, a state says exactly
which passes are running and whom they still have to call.
-/
namespace LiveTypes

/-! ## Who listens -/

/-- Who listens to the graph. -/
inductive GraphListener where
  | observer (observer : Observer)
  /-- A type system drops the rules bound to a type that leaves. -/
  | system (system : SystemId)
  | reference (reference : ReferenceId)
deriving DecidableEq

/-- Who listens to a rule set. -/
inductive RuleListener where
  | observer (observer : Observer)
  | reference (reference : ReferenceId)
deriving DecidableEq

/-- Whom a reference tells: observers, and references that have it as selector. -/
inductive ReferenceListener where
  | observer (observer : Observer)
  | dependent (reference : ReferenceId)
deriving DecidableEq

/-! ## References -/

/-- The numbers of the two subscriptions of a reference that waits for a type. -/
structure Subscriptions where
  graph : Nat
  rules : Nat
deriving DecidableEq

/-- Whether a reference has a type. -/
inductive ReferenceState where
  /-- It has none. Without subscriptions it is not waiting for one either. -/
  | unresolved (subscriptions : Option Subscriptions)
  /-- It has one, and watches for its removal unless it was deconstructed. -/
  | resolved (type : Ty) (watch : Option Nat)
deriving DecidableEq

namespace ReferenceState

def type? : ReferenceState → Option Ty
  | .unresolved _ => none
  | .resolved t _ => some t

def describe : ReferenceState → String
  | .unresolved subscriptions =>
    let shown := subscriptions.map fun s =>
      "Subscriptions \x7b graph: " ++ Registry.describeId s.graph ++ ", inference: " ++
        Registry.describeId s.rules ++ " \x7d"
    "Unresolved(" ++ Text.optional shown ++ ")"
  | .resolved t watch =>
    "Resolved \x7b ty: " ++ t.describe ++ ", watch: " ++
      Text.optional (watch.map Registry.describeId) ++ " \x7d"

end ReferenceState

/-- A type that is looked up by a selector and kept up to date. -/
structure Reference (ν : Type) where
  selector : Selector ν
  system : SystemId
  state : ReferenceState := .unresolved none
  listeners : List Observer := []
  /-- The references that have this one as selector. -/
  dependents : List ReferenceId := []
  /-- A deconstructed reference never changes again. -/
  deconstructed : Bool := false

/-- Whether a reference is waiting for a type. -/
def Reference.isPending {ν : Type} (r : Reference ν) : Bool :=
  match r.state with
  | .unresolved (some _) => true
  | _ => false

/-! ## Type systems -/

/-- A type system: its settings, its inference rules and its validation rules. -/
structure System (ν : Type) where
  config : Config
  printer : Printer ν
  comparisons : Comparisons
  rules : RuleSet := {}
  listeners : Registry Unit RuleListener := {}
  /-- Its subscription to the graph. -/
  subscription : Nat
  checks : List CheckTag := []

/-! ## Work under way -/

/-- What a selected type is for. -/
inductive Purpose where
  /-- The host tried. -/
  | trial
  /-- The host demanded a type. -/
  | demand
  /-- A reference tried. -/
  | resolution (reference : ReferenceId)
deriving DecidableEq

/-- A selection under way. The number of hops that are left counts the selector at hand, so at zero
the limit is exceeded. -/
structure Selection (ν : Type) where
  system : SystemId
  purpose : Purpose
  hopsLeft : Nat
  /-- The selectors gone through so far. They stay in existence until the selection ends. -/
  trail : List (Selector ν) := []

/-- What an inferred type is for. -/
inductive InferenceUse (ν : Type) where
  /-- The host asked. -/
  | inquiry
  | selection (selection : Selection ν)
  /-- The actual side of a check. -/
  | actual (check : RelationCheck ν)
  /-- The expected side of a check whose actual side has this type. -/
  | expected (check : RelationCheck ν) (actual : Option Ty)

/-- An inference under way: the rules that are left and the problems so far. -/
structure Inference (ν : Type) where
  system : SystemId
  node : ν
  use : InferenceUse ν
  rules : List Rule
  problems : List InferenceProblem

/-- A validation under way: the checks that are left and the problems so far. -/
structure Validation (ν : Type) where
  node : ν
  checks : List CheckTag
  problems : List (Problem ν)

/-- A relation check that failed and is being worded. -/
structure Violation (ν : Type) where
  check : RelationCheck ν
  actual : AnnotatedType
  expected : AnnotatedType
  mismatches : List Mismatch

/-- A piece of work under way. -/
inductive Frame (ν : Type) where
  /-- Give the host the result of its call. -/
  | deliver (result : Result ν)
  /-- Tell of an event those who are left in the queue. -/
  | graphPass (event : GraphEvent) (queue : List GraphListener)
  /-- Remove the edges that are left, then the type. -/
  | typeRemoval (type : Ty) (key : String) (edges : List Edge)
  | rulePass (system : SystemId) (event : RuleEvent) (queue : List RuleListener)
  /-- Remove the rules that are left. -/
  | ruleRemoval (system : SystemId) (rules : List RuleId)
  | referencePass (reference : ReferenceId) (event : ReferenceEvent) (queue : List ReferenceListener)
  /-- Look for a type again after the old one left. -/
  | restart (reference : ReferenceId)
  | selecting (selection : Selection ν) (selector : Selector ν)
  | inferring (inference : Inference ν)
  /-- Find the type of the expected side. -/
  | relating (check : RelationCheck ν) (actual : Option Ty)
  | validating (validation : Validation ν)
  /-- Waits for an observer. -/
  | telling (observer : Observer) (notice : Notice)
  /-- Waits for a rule. -/
  | running (rule : Rule) (inference : Inference ν)
  /-- Waits for a deferred selector. -/
  | expanding (deferral : Deferral) (selection : Selection ν)
  /-- Waits for an initializer. -/
  | initializing (initializer : Initializer) (selection : Selection ν)
  /-- Waits for a validation rule. -/
  | checking (check : CheckTag) (validation : Validation ν)
  /-- Waits for a provider. -/
  | wording (provider : ProviderTag) (violation : Violation ν)

/-- What a frame waits for; a frame that waits for nothing is ready. -/
def Frame.question? {ν : Type} : Frame ν → Option (Question ν)
  | .telling observer notice => some (.tell observer notice)
  | .running rule inference => some (.infer rule inference.node)
  | .expanding deferral _ => some (.expand deferral)
  | .initializing initializer selection =>
    some (if selection.purpose = .demand then .final initializer else .initial initializer)
  | .checking check validation => some (.validate check validation.node)
  | .wording provider violation => some (.details provider violation.actual violation.expected)
  | _ => none

/-! ## The engine -/

/-- What can be seen of the engine's work from outside. -/
inductive Report (ν : Type) where
  | log (entry : LogEntry)
  /-- The host is asked something. -/
  | ask (question : Question ν)
  /-- The host's latest open call is over. -/
  | finish (result : Result ν)

/-- The engine. -/
structure Engine (ν : Type) where
  graph : Graph := {}
  /-- Who listens to the graph: to everything, or to the removal of one type. -/
  listeners : Registry (Option Ty) GraphListener := {}
  systems : List (System ν) := []
  references : List (Reference ν) := []
  /-- The observers that no longer exist. -/
  gone : List Observer := []
  stack : List (Frame ν) := []
  /-- The reports so far, oldest first. -/
  trace : List (Report ν) := []

namespace Engine

variable {ν : Type}

/-- The question that the host has to answer next. -/
def question? (e : Engine ν) : Option (Question ν) := e.stack.head?.bind Frame.question?

/-- Whether no call is under way. -/
def atRest (e : Engine ν) : Bool := e.stack.isEmpty

/-- Whether it is the host's turn: nothing is under way, or a question is open. -/
def hostTurn (e : Engine ν) : Bool := e.atRest || e.question?.isSome

/-! ## Looking -/

/-- The current type of a reference. -/
def typeOf? (e : Engine ν) (r : ReferenceId) : Option Ty := e.references[r]?.bind (·.state.type?)

/-- The rules of a system, in the order of registration. -/
def rulesOf (e : Engine ν) (s : SystemId) : List Rule :=
  match e.systems[s]? with
  | some system => system.rules.rules
  | none => []

/-- How many hops a selection in a system may take. -/
def limitOf (e : Engine ν) (s : SystemId) : Nat :=
  match e.systems[s]? with
  | some system => system.config.maxDepth
  | none => 0

/-- The selector of a reference; a reference that does not exist leads to itself. -/
def selectorOf (e : Engine ν) (r : ReferenceId) : Selector ν :=
  match e.references[r]? with
  | some reference => reference.selector
  | none => .reference r

/-- Whether a listener of the graph still exists. -/
def hearsGraph (e : Engine ν) : GraphListener → Bool
  | .observer o => !e.gone.contains o
  | _ => true

/-- Whether a listener of a rule set still exists. -/
def hearsRules (e : Engine ν) : RuleListener → Bool
  | .observer o => !e.gone.contains o
  | _ => true

/-! ## Describing -/

/-- The description of a selector, through at most `depth` references. -/
def describeSelectorTo (e : Engine ν) : Nat → Selector ν → String
  | _, .type t => "Type(" ++ t.describe ++ ")"
  | _, .identifier key => "Identifier(" ++ Text.quoted key ++ ")"
  | _, .initializer _ => "Initializer"
  | _, .deferred _ => "Deferred"
  | _, .node _ => "Node"
  | 0, .reference _ => "Reference(..)"
  | depth + 1, .reference r =>
    match e.references[r]? with
    | none => "Reference(..)"
    | some reference =>
      "Reference(ReferenceView \x7b selector: " ++ e.describeSelectorTo depth reference.selector ++
        ", state: " ++ reference.state.describe ++ " \x7d)"

/-- The description of a selector. A chain of references has at most as many links as there are
references. -/
def describeSelector (e : Engine ν) (selector : Selector ν) : String :=
  e.describeSelectorTo e.references.length selector

/-- The description of a reference. -/
def describeReference (e : Engine ν) (r : ReferenceId) : String :=
  match e.references[r]? with
  | none => "ReferenceView \x7b .. \x7d"
  | some reference =>
    "ReferenceView \x7b selector: " ++ e.describeSelector reference.selector ++ ", state: " ++
      reference.state.describe ++ " \x7d"

/-! ## Small changes -/

def report (e : Engine ν) (r : Report ν) : Engine ν := { e with trace := e.trace ++ [r] }

def log (e : Engine ν) (entry : LogEntry) : Engine ν := e.report (.log entry)

/-- Give the host the result of its latest open call. -/
def finish (e : Engine ν) (result : Result ν) : Engine ν := e.report (.finish result)

/-- Begin a piece of work; if it waits for the host, the host is asked. -/
def push (e : Engine ν) (frame : Frame ν) : Engine ν :=
  let e := { e with stack := frame :: e.stack }
  match frame.question? with
  | some question => e.report (.ask question)
  | none => e

def updateSystem (e : Engine ν) (s : SystemId) (f : System ν → System ν) : Engine ν :=
  { e with systems := e.systems.modify s f }

def updateReference (e : Engine ν) (r : ReferenceId) (f : Reference ν → Reference ν) : Engine ν :=
  { e with references := e.references.modify r f }

def setState (e : Engine ν) (r : ReferenceId) (state : ReferenceState) : Engine ν :=
  e.updateReference r fun reference => { reference with state }

end Engine
end LiveTypes
