import LiveTypes.Engine.State

/-!
# How the engine works

The host moves the engine by calls and answers; in between, `tick` does one step of the work under
way. A call may come whenever it is the host's turn, so also while the engine waits for an answer:
its work then goes on top of the stack and is over before that answer is given.

Every notification pass calls the listeners that were there when it began, whatever happens to them
meanwhile.

Where a function of the engine calls listeners, rules or other code of the host, it is cut there: what it
does before the call is one definition, and what it goes on with is a frame (`Frame`) and a branch of
`tick` or `answer`. The names of the functions stand with the definitions that embed them.
-/
namespace LiveTypes.Engine

variable {ν : Type}

/-! ## Telling listeners -/

/-- Begin a pass over the listeners of the graph: `snapshot_matching`, and the loop over what it gives. -/
def notifyGraph (e : Engine ν) (event : GraphEvent) : Engine ν :=
  let (listeners, queue) := e.listeners.snapshot e.hearsGraph event.concerns
  { e with listeners }.push (.graphPass event queue)

/-- Begin a pass over the listeners of a rule set: `snapshot`, and the loop over what it gives. -/
def notifyRules (e : Engine ν) (s : SystemId) (event : RuleEvent) : Engine ν :=
  match e.systems[s]? with
  | none => e
  | some system =>
    let (listeners, queue) := system.listeners.snapshot e.hearsRules fun _ => true
    (e.updateSystem s fun system => { system with listeners }).push (.rulePass s event queue)

/-! ## Changing the graph -/

/-- Remove an edge and tell of it, if it exists: `remove_edge`. -/
def removeEdge (e : Engine ν) (edge : Edge) : Engine ν :=
  if edge ∈ e.graph.edges then
    ({ e with graph := e.graph.eraseEdge edge }.log (.edgeRemoved edge)).notifyGraph
      (.removedEdge edge)
  else e

/-- Free the key of a type that is being removed and tell of it: the end of `remove_type`. -/
def removeNode (e : Engine ν) (t : Ty) (key : String) : Engine ν :=
  ({ e with graph := e.graph.freeKey key }.log (.typeRemoved key)).notifyGraph (.removedType t key)

/-- Remove a rule and tell of it, if it exists: `remove_inference_rule`. -/
def removeRule (e : Engine ν) (s : SystemId) (id : RuleId) : Engine ν :=
  match e.systems[s]?.bind (·.rules.find? id) with
  | none => e
  | some rule =>
    ((e.updateSystem s fun system => { system with rules := system.rules.remove id }).log
      (.ruleRemoved rule.name)).notifyRules s (.removed id rule.boundTo)

/-! ## Selecting and inferring -/

/-- Begin to resolve a selector: `try_select`, `must_select`. -/
def select (e : Engine ν) (s : SystemId) (purpose : Purpose) (selector : Selector ν) : Engine ν :=
  e.push (.selecting { system := s, purpose, hopsLeft := e.limitOf s + 1 } selector)

/-- Begin to infer the type of a value with the rules that are registered now: `infer_type`. -/
def infer (e : Engine ν) (s : SystemId) (node : ν) (use : InferenceUse ν) : Engine ν :=
  e.push (.inferring ⟨s, node, use, e.rulesOf s, []⟩)

/-! ## References -/

/-- Give a waiting reference its type: it watches for the removal of the type, ends its
subscriptions, and tells its listeners and then its dependents. This is `attempt_resolve` once the
selection has a type, with `notify_resolved`. -/
def resolve (e : Engine ν) (r : ReferenceId) (t : Ty) : Engine ν :=
  match e.references[r]? with
  | none => e
  | some reference =>
    match reference.state with
    | .unresolved (some subscriptions) =>
      let watch := e.listeners.nextId
      let e := { e with
        listeners := (e.listeners.add (some t) (.reference r)).remove subscriptions.graph }
      let e := e.updateSystem reference.system fun system =>
        { system with listeners := system.listeners.remove subscriptions.rules }
      let e := e.setState r (.resolved t (some watch))
      (e.log (.resolved r (e.describeSelector reference.selector) t)).push
        (.referencePass r (.resolved t)
          (reference.listeners.map .observer ++ reference.dependents.map .dependent))
    | _ => e

/-- Leave a reference as it is after a selection without result: the other end of `attempt_resolve`. -/
def stillUnresolved (e : Engine ν) (r : ReferenceId) : Engine ν :=
  e.log (.stillUnresolved r (e.describeSelector (e.selectorOf r)))

/-- Try to resolve a reference that waits for a type: `attempt_resolve` up to the selection. -/
def attempt (e : Engine ν) (r : ReferenceId) : Engine ν :=
  match e.references[r]? with
  | none => e
  | some reference =>
    if reference.isPending then e.select reference.system (.resolution r) reference.selector else e

/-- Let a reference wait for a type: it subscribes to the graph and to the rules, then tries once. This
is `start_resolving`. -/
def startResolving (e : Engine ν) (r : ReferenceId) : Engine ν :=
  match e.references[r]? with
  | none => e
  | some reference =>
    if reference.deconstructed then e
    else
      let rules := match e.systems[reference.system]? with
        | some system => system.listeners.nextId
        | none => 0
      let subscriptions : Subscriptions := ⟨e.listeners.nextId, rules⟩
      let e := { e with listeners := e.listeners.add none (.reference r) }
      let e := e.updateSystem reference.system fun system =>
        { system with listeners := system.listeners.add () (.reference r) }
      (e.setState r (.unresolved (some subscriptions))).attempt r

/-- Take from a reference the type that left the graph: its listeners are told, then it starts
over. This is its `removed_type`, with `notify_invalidated`. -/
def invalidate (e : Engine ν) (r : ReferenceId) (t : Ty) : Engine ν :=
  match e.references[r]? with
  | none => e
  | some reference =>
    match reference.state with
    | .resolved current (some watch) =>
      if current = t then
        let e := { e with listeners := e.listeners.remove watch }
        let e := e.setState r (.unresolved none)
        ((e.log (.invalidated r (e.describeSelector reference.selector) t)).push (.restart r)).push
          (.referencePass r (.invalidated (some t)) (reference.listeners.map .observer))
      else e
    | _ => e

/-- Stop a reference for good: it ends its subscriptions and forgets its listeners. The type it has
stays readable. This is `deconstruct`. -/
def deconstruct (e : Engine ν) (r : ReferenceId) : Engine ν :=
  match e.references[r]? with
  | none => e
  | some reference =>
    if reference.deconstructed then e
    else
      let e := match reference.state with
        | .unresolved (some subscriptions) =>
          ({ e with listeners := e.listeners.remove subscriptions.graph }).updateSystem
            reference.system fun system =>
              { system with listeners := system.listeners.remove subscriptions.rules }
        | .resolved _ (some watch) => { e with listeners := e.listeners.remove watch }
        | _ => e
      let state := match reference.state with
        | .unresolved _ => ReferenceState.unresolved none
        | .resolved t _ => .resolved t none
      let e := match reference.selector with
        | .reference source =>
          e.updateReference source fun other => { other with dependents := other.dependents.erase r }
        | _ => e
      let e := e.updateReference r fun other =>
        { other with state, listeners := [], dependents := [], deconstructed := true }
      e.log (.deconstructed r (e.describeSelector reference.selector))

/-! ## Turns of a pass -/

/-- One listener of the graph hears of an event: `added_type`, `removed_type`, `added_edge`,
`removed_edge`. -/
def graphTurn (e : Engine ν) (event : GraphEvent) : GraphListener → Engine ν
  | .observer o => e.push (.telling o (.graph event))
  | .system s =>
    match event, e.systems[s]? with
    | .removedType t _, some system => e.push (.ruleRemoval s (system.rules.boundTo t))
    | _, _ => e
  | .reference r =>
    match event with
    | .addedType _ _ => e.attempt r
    | .removedType t _ => e.invalidate r t
    | _ => e

/-- One listener of a rule set hears of an event: `added_inference_rule`, `removed_inference_rule`. -/
def ruleTurn (e : Engine ν) (s : SystemId) (event : RuleEvent) : RuleListener → Engine ν
  | .observer o => e.push (.telling o (.rule s event))
  | .reference r =>
    match event with
    | .added _ _ => e.attempt r
    | .removed _ _ => e

/-- One listener of a reference hears of an event: `on_type_reference_resolved`,
`on_type_reference_invalidated`. -/
def referenceTurn (e : Engine ν) (r : ReferenceId) (event : ReferenceEvent) :
    ReferenceListener → Engine ν
  | .observer o => e.push (.telling o (.reference r event))
  | .dependent d =>
    match event with
    | .resolved _ => e.attempt d
    | .invalidated _ => e

/-! ## What a selection comes to -/

/-- A selection found a type. A reference that asked for it may have stopped waiting meanwhile. -/
def selected (e : Engine ν) (purpose : Purpose) (t : Ty) : Engine ν :=
  match purpose with
  | .trial => e.finish (.trial (some t))
  | .demand => e.finish (.selection (.ok t))
  | .resolution r => e.resolve r t

/-- A selection found nothing; only who demanded a type hears why: `try_select` gives nothing where
`must_select` gives an error. -/
def unselected (e : Engine ν) (purpose : Purpose) (error : SelectError) : Engine ν :=
  match purpose with
  | .trial => e.finish (.trial none)
  | .demand => e.finish (.selection (.error error))
  | .resolution r => e.stillUnresolved r

/-- A selection took more hops than allowed. It is logged where nobody gets the error. -/
def tooDeep (e : Engine ν) (selection : Selection ν) : Engine ν :=
  let limit := e.limitOf selection.system
  let e := if selection.purpose = .demand then e else e.log (.selectorTooDeep limit)
  e.unselected selection.purpose (.tooDeep limit)

/-- One step of a selection: one call of `try_select_at` or `must_select_at`. -/
def selectStep (e : Engine ν) (selection : Selection ν) (selector : Selector ν) : Engine ν :=
  match selection.hopsLeft with
  | 0 => e.tooDeep selection
  | left + 1 =>
    let onward := { selection with hopsLeft := left, trail := selector :: selection.trail }
    match selector with
    | .type t => e.selected selection.purpose t
    | .identifier key =>
      match e.graph.get? key with
      | some t => e.selected selection.purpose t
      | none => e.unselected selection.purpose (.unresolved key)
    | .initializer i => e.push (.initializing i onward)
    | .reference r =>
      match e.typeOf? r, selection.purpose with
      | some t, purpose => e.selected purpose t
      | none, .trial => e.finish (.trial none)
      | none, .resolution dependent => e.stillUnresolved dependent
      | none, .demand => e.push (.selecting onward (e.selectorOf r))
    | .deferred d => e.push (.expanding d onward)
    | .node n => e.infer selection.system n (.selection onward)

/-! ## Relation checks -/

/-- Compare two types as a system does: the strategy of `create_strategy` for the relation. -/
def compareIn (e : Engine ν) (comparisons : Comparisons) (relation : Relation) (actual expected : Ty) :
    Engine ν × Option Mismatch :=
  match comparisons with
  | .custom compare => (e, compare relation actual expected)
  | .graph =>
    let mismatch := e.graph.compare relation actual expected
    if relation = .assignable && mismatch.isNone then (e.log (.assignable actual expected), mismatch)
    else (e, mismatch)

/-- The code of a violated check: `problem_code`. -/
def violationCode (relation : Relation) (negated : Bool) : Code :=
  if negated then .forbiddenType
  else
    match relation with
    | .assignable => .notAssignable
    | .equal => .notEqual

/-- The default wording of a violation: `default_message`. -/
def violationMessage (actual expected : Ty) (relation : Relation) (negated : Bool) : String :=
  "The type '" ++ actual.identifier ++ "' is " ++ (if negated then "" else "not ") ++
    relation.phrase ++ " the type '" ++ expected.identifier ++ "'."

/-- Report a violation with the given details, on the value that they name or else on the actual
side. A violation between two types that names no value is not reported. This is the end of
`ensure_node_related`. -/
def reportViolation (e : Engine ν) (v : Violation ν) (details : ProblemDetails ν) : Engine ν :=
  match details.node.or v.check.actual.node? with
  | none => (e.log (.problemWithoutNode v.actual.type v.expected.type)).finish (.problems [])
  | some node =>
    let severity := match e.systems[v.check.system]? with
      | some system => system.config.severity
      | none => .error
    e.finish (.problems [{
      node, property := details.property, index := details.index
      severity := details.severity.getD severity
      code := some (violationCode v.check.relation v.check.negated)
      message := details.message.getD
        (violationMessage v.actual.type v.expected.type v.check.relation v.check.negated)
      mismatches := v.mismatches }])

/-- Word a violation, by the provider if there is one. -/
def violated (e : Engine ν) (system : System ν) (check : RelationCheck ν) (actual expected : Ty)
    (mismatches : List Mismatch) : Engine ν :=
  let v : Violation ν :=
    { check, mismatches
      actual := ⟨actual, system.printer.type actual⟩
      expected := ⟨expected, system.printer.type expected⟩ }
  match check.provider with
  | some provider => e.push (.wording provider v)
  | none => e.reportViolation v {}

/-- Both sides of a check are known: compare them, if both have a type. This is the middle of
`ensure_node_related`. -/
def concludeCheck (e : Engine ν) (check : RelationCheck ν) (actual expected : Option Ty) : Engine ν :=
  match actual, expected, e.systems[check.system]? with
  | some actual, some expected, some system =>
    let (e, mismatch) := e.compareIn system.comparisons check.relation actual expected
    let e := e.log (.relationChecked actual expected check.relation check.negated mismatch.isNone)
    match check.negated, mismatch with
    | false, some mismatch => e.violated system check actual expected [mismatch]
    | true, none => e.violated system check actual expected []
    | _, _ => e.finish (.problems [])
  | _, _, _ => e.finish (.problems [])

/-- Begin a check with the type of its actual side. A side that is absent leaves nothing to check. This is
`ensure_node_related`, to which the other checks come down. -/
def relate (e : Engine ν) (request : CheckRequest ν) : Engine ν :=
  match request.check? with
  | none => e.finish (.problems [])
  | some check =>
    match check.actual with
    | .type t => e.push (.relating check (some t))
    | .node n => e.infer check.system n (.actual check)

/-- Go on with the type of the expected side. It is looked for even if the actual side has none. -/
def relateStep (e : Engine ν) (check : RelationCheck ν) (actual : Option Ty) : Engine ν :=
  match check.expected with
  | .type t => e.concludeCheck check actual (some t)
  | .node n => e.infer check.system n (.expected check actual)

/-! ## What an inference comes to -/

/-- An inference is over. -/
def inferred (e : Engine ν) (i : Inference ν) (outcome : Except (List InferenceProblem) Ty) :
    Engine ν :=
  match i.use with
  | .inquiry => e.finish (.inference outcome)
  | .actual check => e.push (.relating check outcome.toOption)
  | .expected check actual => e.concludeCheck check actual outcome.toOption
  | .selection selection =>
    match outcome with
    | .ok t => e.selected selection.purpose t
    | .error problems =>
      let printed := match e.systems[i.system]? with
        | some system => system.printer.node i.node false
        | none => ""
      e.unselected selection.purpose (.uninferable printed problems)

/-- One step of an inference: the next rule runs, or all have run. This is the loop of `infer_type`. -/
def inferStep (e : Engine ν) (i : Inference ν) : Engine ν :=
  match i.rules with
  | [] => (e.log (.nothingInferred i.problems.length)).inferred i (.error i.problems)
  | rule :: rules => e.push (.running rule { i with rules })

/-! ## The step -/

/-- Do one step of the work under way; nothing if it is the host's turn. -/
def tick (e : Engine ν) : Option (Engine ν) :=
  match e.stack with
  | [] => none
  | frame :: rest =>
    let below := { e with stack := rest }
    match frame with
    | .deliver result => some (below.finish result)
    | .graphPass _ [] => some below
    | .graphPass event (l :: queue) => some ((below.push (.graphPass event queue)).graphTurn event l)
    | .typeRemoval t key [] => some (below.removeNode t key)
    | .typeRemoval t key (edge :: edges) =>
      some ((below.push (.typeRemoval t key edges)).removeEdge edge)
    | .rulePass _ _ [] => some below
    | .rulePass s event (l :: queue) => some ((below.push (.rulePass s event queue)).ruleTurn s event l)
    | .ruleRemoval _ [] => some below
    | .ruleRemoval s (id :: ids) => some ((below.push (.ruleRemoval s ids)).removeRule s id)
    | .referencePass _ _ [] => some below
    | .referencePass r event (l :: queue) =>
      some ((below.push (.referencePass r event queue)).referenceTurn r event l)
    | .restart r => some (below.startResolving r)
    | .selecting selection selector => some (below.selectStep selection selector)
    | .inferring i => some (below.inferStep i)
    | .relating check actual => some (below.relateStep check actual)
    | .validating v =>
      match v.checks with
      | [] => some (below.finish (.problems v.problems))
      | check :: checks => some (below.push (.checking check { v with checks }))
    | .telling _ _ => none
    | .running _ _ => none
    | .expanding _ _ => none
    | .initializing _ _ => none
    | .checking _ _ => none
    | .wording _ _ => none

/-! ## Answers -/

/-- Take the host's answer to the open question; nothing if it does not fit. -/
def answer (e : Engine ν) (a : Answer ν) : Option (Engine ν) :=
  match e.stack with
  | [] => none
  | frame :: rest =>
    let below := { e with stack := rest }
    match frame, a with
    | .telling _ _, .done => some below
    | .running _ i, .outcome (.inferred t) => some (below.inferred i (.ok t))
    | .running _ i, .outcome .notApplicable => some (below.push (.inferring i))
    | .running rule i, .outcome (.problem message) =>
      some (below.push (.inferring { i with problems := i.problems ++ [⟨rule.name, message⟩] }))
    | .expanding _ selection, .selector selector => some (below.push (.selecting selection selector))
    | .initializing _ selection, .type t => some (below.selected selection.purpose t)
    | .checking _ v, .problems problems =>
      some (below.push (.validating { v with problems := v.problems ++ problems }))
    | .wording _ v, .details details => some (below.reportViolation v details)
    | _, _ => none

/-! ## Calls -/

/-- Begin a call of the host: the function that `Call` names with it, up to the first listener, rule or
other code of the host that it calls. -/
def call (e : Engine ν) : Call ν → Engine ν
  | .addSystem config printer comparisons =>
    let s := e.systems.length
    let system : System ν := { config, printer, comparisons, subscription := e.listeners.nextId }
    { e with
      systems := e.systems ++ [system]
      listeners := e.listeners.add none (.system s) }.finish (.system s)
  | .addType t key =>
    match e.graph.addType t key with
    | .refused error => e.finish (.addition (.error error))
    | .present => e.finish (.addition (.ok ()))
    | .added graph =>
      (({ e with graph }.log (.typeAdded key)).push (.deliver (.addition (.ok ())))).notifyGraph
        (.addedType t key)
  | .removeType t =>
    match e.graph.keyOf? t with
    | none => e.finish (.flag false)
    | some key => (e.push (.deliver (.flag true))).push (.typeRemoval t key (e.graph.incident t))
  | .addEdge edge =>
    match e.graph.addEdge edge with
    | .refused error => e.finish (.addition (.error error))
    | .present => e.finish (.addition (.ok ()))
    | .added graph =>
      (({ e with graph }.log (.edgeAdded edge)).push (.deliver (.addition (.ok ())))).notifyGraph
        (.addedEdge edge)
  | .removeEdge edge => (e.push (.deliver (.flag (edge ∈ e.graph.edges)))).removeEdge edge
  | .listenToGraph o =>
    { e with listeners := e.listeners.add none (.observer o) }.finish (.subscription e.listeners.nextId)
  | .watchRemoval t o =>
    { e with listeners := e.listeners.add (some t) (.observer o) }.finish
      (.subscription e.listeners.nextId)
  | .leaveGraph id =>
    { e with listeners := e.listeners.remove id }.finish (.flag (e.listeners.contains id))
  | .compare relation actual expected =>
    let (e, mismatch) := e.compareIn .graph relation actual expected
    e.finish (.comparison mismatch)
  | .addRule s tag name boundTo =>
    match e.systems[s]? with
    | none => e.finish .done
    | some system =>
      let id := system.rules.nextId
      (((e.log (.ruleAdded name boundTo)).updateSystem s fun system =>
        { system with rules := system.rules.add tag name boundTo }).push
          (.deliver (.rule id))).notifyRules s (.added id boundTo)
  | .removeRule s id =>
    (e.push (.deliver (.flag (e.systems[s]?.bind (·.rules.find? id)).isSome))).removeRule s id
  | .listenToRules s o =>
    let id := match e.systems[s]? with
      | some system => system.listeners.nextId
      | none => 0
    (e.updateSystem s fun system =>
      { system with listeners := system.listeners.add () (.observer o) }).finish (.subscription id)
  | .leaveRules s id =>
    let found := match e.systems[s]? with
      | some system => system.listeners.contains id
      | none => false
    (e.updateSystem s fun system =>
      { system with listeners := system.listeners.remove id }).finish (.flag found)
  | .infer s node => e.infer s node .inquiry
  | .trySelect s selector => e.select s .trial selector
  | .mustSelect s selector => e.select s .demand selector
  | .addReference s selector =>
    let r := e.references.length
    let reference : Reference ν := { selector, system := s }
    let e := { e with references := e.references ++ [reference] }
    let e := match selector with
      | .reference source =>
        e.updateReference source fun other => { other with dependents := other.dependents ++ [r] }
      | _ => e
    (e.push (.deliver (.reference r))).startResolving r
  | .listenToReference r o inform =>
    let e := e.updateReference r fun reference =>
      { reference with listeners := reference.listeners ++ [o] }
    let e := e.push (.deliver .done)
    if inform then
      match e.typeOf? r with
      | some t => e.push (.telling o (.reference r (.resolved t)))
      | none => e.push (.telling o (.reference r (.invalidated none)))
    else e
  | .leaveReference r o =>
    (e.updateReference r fun reference =>
      { reference with listeners := reference.listeners.erase o }).finish .done
  | .deconstruct r => (e.deconstruct r).finish .done
  | .relate request => e.relate request
  | .addChecks s checks =>
    (e.updateSystem s fun system => { system with checks := system.checks ++ checks }).finish .done
  | .validate s node =>
    let checks := match e.systems[s]? with
      | some system => system.checks
      | none => []
    e.push (.validating ⟨node, checks, []⟩)

/-! ## What the surroundings do -/

/-- An observer ceases to exist. -/
def forget (e : Engine ν) (o : Observer) : Engine ν :=
  if e.gone.contains o then e else { e with gone := o :: e.gone }

/-- A type system ceases to exist: it no longer listens to the graph (`drop`). -/
def retire (e : Engine ν) (s : SystemId) : Engine ν :=
  match e.systems[s]? with
  | none => e
  | some system => { e with listeners := e.listeners.remove system.subscription }

end LiveTypes.Engine
