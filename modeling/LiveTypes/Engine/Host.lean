import LiveTypes.Config
import LiveTypes.Problem.Basic
import LiveTypes.Relation
import LiveTypes.Selector

/-!
# What engine and host say to each other

The engine calls the host in the middle of its work: it tells observers what happened, and it asks
the host to run a rule, to expand a selector, to give the handle of an initializer, to check a value
or to word a problem. While a question is open the host may call the engine again. The host knows its
own code; the engine knows it by tags.
-/
namespace LiveTypes

/-! ## The host's parts -/

/-- Something of the host that listens to the graph, to rule sets and to references. -/
structure Observer where
  tag : Nat
deriving DecidableEq

/-- A validation rule of the host. -/
structure CheckTag where
  tag : Nat
deriving DecidableEq

/-- Code of the host that words a relation problem. -/
structure ProviderTag where
  tag : Nat
deriving DecidableEq

/-- A type system, by its number. -/
abbrev SystemId := Nat

/-! ## Events -/

/-- What happens to the graph. -/
inductive GraphEvent where
  | addedType (type : Ty) (key : String)
  | removedType (type : Ty) (key : String)
  | addedEdge (edge : Edge)
  | removedEdge (edge : Edge)
deriving DecidableEq

/-- Whether a subscription gets to know of an event: one without a key of everything, one under a
type of the removal of that type only. -/
def GraphEvent.concerns (event : GraphEvent) (watched : Option Ty) : Bool :=
  match event with
  | .removedType t _ => watched.isNone || watched = some t
  | _ => watched.isNone

/-- What happens to a rule set. -/
inductive RuleEvent where
  | added (rule : RuleId) (boundTo : Option Ty)
  | removed (rule : RuleId) (boundTo : Option Ty)
deriving DecidableEq

/-- What happens to a reference. Without a previous type it has simply no type yet. -/
inductive ReferenceEvent where
  | resolved (type : Ty)
  | invalidated (previous : Option Ty)
deriving DecidableEq

/-- An event as an observer hears it. -/
inductive Notice where
  | graph (event : GraphEvent)
  | rule (system : SystemId) (event : RuleEvent)
  | reference (reference : ReferenceId) (event : ReferenceEvent)
deriving DecidableEq

/-! ## Relation checks -/

/-- One side of a relation check: a type, or a value whose type is inferred. -/
inductive Operand (ν : Type) where
  | type (type : Ty)
  | node (node : ν)

/-- The value of a side that is one. -/
def Operand.node? {ν : Type} : Operand ν → Option ν
  | .type _ => none
  | .node n => some n

/-- A check that the types of two sides are related, or, if negated, that they are not. -/
structure RelationCheck (ν : Type) where
  system : SystemId
  actual : Operand ν
  expected : Operand ν
  relation : Relation
  negated : Bool
  /-- Who words a violation; without it the default wording is used. -/
  provider : Option ProviderTag

/-- A check as the host asks for it. A side may be absent. -/
structure CheckRequest (ν : Type) where
  system : SystemId
  actual : Option (Operand ν)
  expected : Option (Operand ν)
  relation : Relation
  negated : Bool
  provider : Option ProviderTag

/-- The check that is asked for, if both sides are there. -/
def CheckRequest.check? {ν : Type} (request : CheckRequest ν) : Option (RelationCheck ν) :=
  match request.actual, request.expected with
  | some actual, some expected =>
    some ⟨request.system, actual, expected, request.relation, request.negated, request.provider⟩
  | _, _ => none

/-- A type as a message shows it. -/
structure AnnotatedType where
  type : Ty
  /-- How the printer shows the type to users. -/
  printed : String
deriving DecidableEq

/-- What a provider says about a violation. What it leaves out is filled by default. -/
structure ProblemDetails (ν : Type) where
  node : Option ν := none
  property : Option String := none
  index : Option Nat := none
  severity : Option Severity := none
  message : Option String := none

/-! ## Questions, answers, calls and results -/

/-- What the engine wants of the host. -/
inductive Question (ν : Type) where
  /-- Take notice of an event. -/
  | tell (observer : Observer) (notice : Notice)
  /-- Run a rule on a value. -/
  | infer (rule : Rule) (node : ν)
  /-- Expand a deferred selector. -/
  | expand (deferral : Deferral)
  /-- The handle of a type under construction. -/
  | initial (initializer : Initializer)
  /-- The handle of a finished type. -/
  | final (initializer : Initializer)
  /-- Validate a value. -/
  | validate (check : CheckTag) (node : ν)
  /-- Word a violation. -/
  | details (provider : ProviderTag) (actual expected : AnnotatedType)

/-- What the host says to a question. -/
inductive Answer (ν : Type) where
  | done
  | outcome (outcome : Outcome)
  | selector (selector : Selector ν)
  | type (type : Ty)
  | problems (problems : List (Problem ν))
  | details (details : ProblemDetails ν)

/-- What the host can call, in the order of the constructors: a new system (`with_comparisons`); on
the graph `add_type_with_key`, `remove_type`, `add_edge`, `remove_edge`, `add_listener`, `watch_removal`,
`remove_listener`; `compare`; on the rules `add_inference_rule`, `remove_inference_rule`, `add_listener`,
`remove_listener`, `infer_type`; `try_select`, `must_select`; on references `reference`, `add_listener`,
`remove_listener`, `deconstruct`; the checks of `ensure_node_related`; `add_validation_rules` and
`validate`. -/
inductive Call (ν : Type) where
  | addSystem (config : Config) (printer : Printer ν) (comparisons : Comparisons)
  | addType (type : Ty) (key : String)
  | removeType (type : Ty)
  | addEdge (edge : Edge)
  | removeEdge (edge : Edge)
  | listenToGraph (observer : Observer)
  | watchRemoval (type : Ty) (observer : Observer)
  | leaveGraph (subscription : Nat)
  | compare (relation : Relation) (actual expected : Ty)
  | addRule (system : SystemId) (tag : RuleTag) (name : String) (boundTo : Option Ty)
  | removeRule (system : SystemId) (rule : RuleId)
  | listenToRules (system : SystemId) (observer : Observer)
  | leaveRules (system : SystemId) (subscription : Nat)
  | infer (system : SystemId) (node : ν)
  | trySelect (system : SystemId) (selector : Selector ν)
  | mustSelect (system : SystemId) (selector : Selector ν)
  | addReference (system : SystemId) (selector : Selector ν)
  | listenToReference (reference : ReferenceId) (observer : Observer) (inform : Bool)
  | leaveReference (reference : ReferenceId) (observer : Observer)
  | deconstruct (reference : ReferenceId)
  | relate (request : CheckRequest ν)
  | addChecks (system : SystemId) (checks : List CheckTag)
  | validate (system : SystemId) (node : ν)

/-- What a call gives back. -/
inductive Result (ν : Type) where
  | done
  | flag (value : Bool)
  | system (system : SystemId)
  | subscription (id : Nat)
  | rule (id : RuleId)
  | reference (reference : ReferenceId)
  | addition (outcome : Except GraphError Unit)
  | comparison (mismatch : Option Mismatch)
  | inference (outcome : Except (List InferenceProblem) Ty)
  | trial (type : Option Ty)
  | selection (outcome : Except SelectError Ty)
  | problems (problems : List (Problem ν))

end LiveTypes
