import LiveTypes.Proofs.References
import LiveTypes.Proofs.TypeGraph

/-!
# The graph's side of a run

To the graph the engine is a small machine: passes over the listeners, removals of types, and the list of
who listens. `Engine.graphSide` is what the graph sees of an engine, and `Engine.GraphStep` says all that a
move can do to it, for a host that calls back as it likes. Selections, inferences, relation checks and
references are behind this: of what they do only the change of a subscription shows.
-/
namespace LiveTypes

variable {ν : Type}

/-- Whether a frame is work on the graph: a pass over its listeners or the removal of a type. -/
def Frame.isGraphWork : Frame ν → Bool
  | .graphPass _ _ => true
  | .typeRemoval _ _ _ => true
  | _ => false

theorem Frame.isGraphWork_of_isPlain {f : Frame ν} (h : f.isPlain) : f.isGraphWork = false := by
  cases f <;> simp_all [isPlain, isGraphWork]

/-- What is told when the turn of a listener comes; only observers are told anything. -/
def GraphListener.hearing (event : GraphEvent) : GraphListener → List (Observer × GraphEvent)
  | .observer o => [(o, event)]
  | _ => []

/-- What the graph sees of an engine. -/
structure GraphSide (ν : Type) where
  graph : Graph
  listeners : Registry (Option Ty) GraphListener
  gone : List Observer
  /-- The passes and removals that are under way, innermost first. -/
  works : List (Frame ν)
  /-- What observers have been told, oldest first. -/
  hearings : List (Observer × GraphEvent)

namespace Engine

/-- The work on the graph that is under way, innermost first. -/
def works (e : Engine ν) : List (Frame ν) := e.stack.filter Frame.isGraphWork

def graphSide (e : Engine ν) : GraphSide ν := ⟨e.graph, e.listeners, e.gone, e.works, e.hearings⟩

/-- Those who listen now begin to be told of an event. -/
def announced (e : Engine ν) (event : GraphEvent) (side : GraphSide ν) : GraphSide ν :=
  { side with
    listeners := e.listeners.prune e.hearsGraph
    works := .graphPass event (e.listeners.listeners e.hearsGraph event.concerns) :: side.works }

@[simp] theorem graphSide_works (e : Engine ν) : e.graphSide.works = e.works := rfl

/-- An announcement begins a pass and no removal. -/
@[simp] theorem typeRemoval_mem_announced {e : Engine ν} {event : GraphEvent} {side : GraphSide ν} {t : Ty}
    {key : String} {edges : List Edge} :
    .typeRemoval t key edges ∈ (e.announced event side).works ↔ .typeRemoval t key edges ∈ side.works := by
  simp [announced]

/-! ## What the graph does not see -/

section Unseen

variable {p : Option Purpose} {e e' : Engine ν} {f : Frame ν} {rest : List (Frame ν)}

theorem graphSide_report (e : Engine ν) {q : Report ν} (h : q.hearing? = none) :
    (e.report q).graphSide = e.graphSide := by
  have := hearings_report e h
  simp only [graphSide, this]
  rfl

theorem graphSide_log (e : Engine ν) (entry : LogEntry) : (e.log entry).graphSide = e.graphSide :=
  graphSide_report e rfl

theorem graphSide_finish (e : Engine ν) (result : Result ν) : (e.finish result).graphSide = e.graphSide :=
  graphSide_report e rfl

theorem graphSide_push (e : Engine ν) (hf : f.isGraphWork = false)
    (hq : ∀ q, f.question? = some q → (Report.ask q).hearing? = none) :
    (e.push f).graphSide = e.graphSide := by
  simp [graphSide, works, hf, hearings_push e hq]

theorem graphSide_deliver (e : Engine ν) (result : Result ν) :
    (e.push (.deliver result)).graphSide = e.graphSide :=
  graphSide_push e rfl nofun

theorem Plain.graphSide (h : Plain p e e') : e'.graphSide = e.graphSide := by
  obtain ⟨frames, hs, hf⟩ := h.stack
  have hworks : frames.filter Frame.isGraphWork = [] := by
    refine List.filter_eq_nil_iff.2 fun f hm => ?_
    simp [Frame.isGraphWork_of_isPlain (hf f hm).plain]
  simp [Engine.graphSide, works, h.graph, h.listeners, h.gone, h.hearings, hs, hworks]

/-- Other work comes and goes unseen. -/
theorem graphSide_pop (hs : e.stack = f :: rest) (hf : f.isGraphWork = false) :
    (e.withStack rest).graphSide = e.graphSide := by
  simp [graphSide, works, hs, hf, hearings]

theorem works_cons (hs : e.stack = f :: rest) (hf : f.isGraphWork) :
    e.works = f :: (e.withStack rest).works := by
  simp [works, hs, hf]

theorem graphSide_notifyGraph (hl : e'.listeners = e.listeners) (hg : e'.gone = e.gone)
    (event : GraphEvent) : (e'.notifyGraph event).graphSide = e.announced event e'.graphSide := by
  rw [notifyGraph_eq, push_eq _ rfl]
  simp [graphSide, announced, works, hearings, List.filter_cons, Frame.isGraphWork, hl,
    hearsGraph_congr hg]

theorem graphSide_notifyRules (e : Engine ν) (s : SystemId) (event : RuleEvent) :
    (e.notifyRules s event).graphSide = e.graphSide := by
  unfold notifyRules
  split
  · rfl
  · exact graphSide_push _ rfl nofun

theorem graphSide_removeRule (e : Engine ν) (s : SystemId) (id : RuleId) :
    (e.removeRule s id).graphSide = e.graphSide := by
  unfold removeRule
  split
  · rfl
  · rw [graphSide_notifyRules, graphSide_log]
    rfl

end Unseen

/-! ## Who listens -/

/-- How the list of those who listen to the graph can change, passes aside. -/
inductive Relists (e : Engine ν) (m : Move ν) : Registry (Option Ty) GraphListener → Prop
  | same : Relists e m e.listeners
  /-- A reference or a type system subscribes. -/
  | enter {key : Option Ty} {l : GraphListener} : l.stays → Relists e m (e.listeners.add key l)
  | listen {o : Observer} : m = .call (.listenToGraph o) →
    Relists e m (e.listeners.add none (.observer o))
  | watch {t : Ty} {o : Observer} : m = .call (.watchRemoval t o) →
    Relists e m (e.listeners.add (some t) (.observer o))
  | leave {id : Nat} : m = .call (.leaveGraph id) → Relists e m (e.listeners.remove id)
  | retire {s : SystemId} {y : System ν} : e.systems[s]? = some y →
    Relists e m (e.listeners.remove y.subscription)
  /-- A reference loses its type or is deconstructed. -/
  | release {r : ReferenceId} {x : Reference ν} : e.references[r]? = some x →
    Relists e m (x.state.leaveGraph e.listeners)
  /-- A reference takes a type. -/
  | take {r : ReferenceId} {x : Reference ν} {t : Ty} {subs : Subscriptions} :
    e.references[r]? = some x → x.state = .unresolved (some subs) →
    Relists e m ((e.listeners.add (some t) (.reference r)).remove subs.graph)

/-- All that the graph sees is perhaps another subscription. -/
def Relisted (e : Engine ν) (m : Move ν) (side : GraphSide ν) : Prop :=
  ∃ listeners, Relists e m listeners ∧ side = { e.graphSide with listeners }

section Listeners

variable {e e' : Engine ν} {m : Move ν} {r : ReferenceId}

/-- The work under way does not matter for who listens. -/
theorem Relists.of_withStack {frames : List (Frame ν)} {listeners : Registry (Option Ty) GraphListener}
    (h : Relists (e.withStack frames) m listeners) : Relists e m listeners := by
  cases h with
  | same => exact .same
  | enter hl => exact .enter hl
  | listen hm => exact .listen hm
  | watch hm => exact .watch hm
  | leave hm => exact .leave hm
  | retire hy => exact .retire (e := e) hy
  | release hx => exact .release (e := e) hx
  | take hx hs => exact .take (e := e) hx hs

theorem Relisted.of_eq (h : e'.graphSide = e.graphSide) : Relisted e m e'.graphSide :=
  ⟨e.listeners, .same, h⟩

/-- A subscription of something that the graph does not see. -/
theorem Relisted.congr {e₀ : Engine ν} {side : GraphSide ν} (h : Relisted e₀ m side)
    (hs : e₀.graphSide = e.graphSide)
    (hr : ∀ listeners, Relists e₀ m listeners → Relists e m listeners) : Relisted e m side := by
  obtain ⟨listeners, hl, rfl⟩ := h
  exact ⟨listeners, hr listeners hl, by rw [hs]⟩

theorem relisted_resolve (e : Engine ν) (r : ReferenceId) (t : Ty) :
    Relisted e m (e.resolve r t).graphSide := by
  rcases resolve_cases e r t with ⟨heq, -⟩ | ⟨x, subs, ht⟩
  · rw [heq]
    exact .of_eq rfl
  · obtain ⟨text, htrace⟩ := ht.trace
    refine ⟨_, .take ht.found ht.waiting (t := t), ?_⟩
    simp [graphSide, works, hearings, ht.graph, ht.listeners, ht.gone, ht.stack, htrace,
      Frame.isGraphWork, Report.hearing?]

theorem relisted_invalidate (e : Engine ν) (r : ReferenceId) (t : Ty) :
    Relisted e m (e.invalidate r t).graphSide := by
  rcases invalidate_cases e r t with ⟨heq, -⟩ | ⟨x, watch, hl⟩
  · rw [heq]
    exact .of_eq rfl
  · obtain ⟨text, htrace⟩ := hl.trace
    refine ⟨_, .release hl.found, ?_⟩
    simp [graphSide, works, hearings, hl.graph, hl.listeners, hl.gone, hl.stack, htrace, hl.watching,
      ReferenceState.leaveGraph, Frame.isGraphWork, Report.hearing?]

theorem relisted_subscribe (e : Engine ν) (r : ReferenceId) (s : SystemId) :
    Relisted e m ((e.subscribe r s).attempt r).graphSide := by
  refine ⟨e.listeners.add none (.reference r), .enter rfl, ?_⟩
  rw [(plain_attempt _ r).graphSide]
  rfl

theorem relisted_startResolving (e : Engine ν) (r : ReferenceId) :
    Relisted e m (e.startResolving r).graphSide := by
  rcases startResolving_cases e r with ⟨heq, -⟩ | ⟨x, -, -, heq⟩
  · rw [heq]
    exact .of_eq rfl
  · rw [heq]
    exact relisted_subscribe e r x.system

theorem relisted_deconstruct (e : Engine ν) (r : ReferenceId) :
    Relisted e m (e.deconstruct r).graphSide := by
  rcases deconstruct_cases e r with heq | ⟨x, hst⟩
  · rw [heq]
    exact .of_eq rfl
  · obtain ⟨text, htrace⟩ := hst.trace
    refine ⟨_, .release hst.found, ?_⟩
    simp [graphSide, works, hearings, hst.graph, hst.listeners, hst.gone, hst.stack, htrace,
      Report.hearing?]

end Listeners

/-! ## What a move does -/

/-- Whether a call changes the graph, or begins to. -/
def alters (e : Engine ν) : Call ν → Bool
  | .addType t key =>
    match e.graph.addType t key with
    | .added _ => true
    | _ => false
  | .removeType t => (e.graph.keyOf? t).isSome
  | .addEdge x =>
    match e.graph.addEdge x with
    | .added _ => true
    | _ => false
  | .removeEdge x => x ∈ e.graph.edges
  | _ => false

/-- What a move can do to the graph's side. -/
inductive GraphStep (e : Engine ν) (m : Move ν) : GraphSide ν → Prop
  | relist {side : GraphSide ν} : Relisted e m side → GraphStep e m side
  | forget {o : Observer} : m = .forget o → GraphStep e m { e.graphSide with gone := o :: e.gone }
  /-- A pass has told everyone. -/
  | done {event : GraphEvent} {rest : List (Frame ν)} : e.works = .graphPass event [] :: rest →
    GraphStep e m { e.graphSide with works := rest }
  | turn {event : GraphEvent} {l : GraphListener} {queue : List GraphListener} {rest : List (Frame ν)}
      {listeners : Registry (Option Ty) GraphListener} :
    e.works = .graphPass event (l :: queue) :: rest → Relists e m listeners →
    GraphStep e m { e.graphSide with
      listeners, works := .graphPass event queue :: rest, hearings := e.hearings ++ l.hearing event }
  | addType {t : Ty} {key : String} {graph : Graph} : m = .call (.addType t key) →
    e.graph.addType t key = .added graph →
    GraphStep e m (e.announced (.addedType t key) { e.graphSide with graph })
  | addEdge {x : Edge} {graph : Graph} : m = .call (.addEdge x) → e.graph.addEdge x = .added graph →
    GraphStep e m (e.announced (.addedEdge x) { e.graphSide with graph })
  | removeEdge {x : Edge} : m = .call (.removeEdge x) →
    GraphStep e m (e.announced (.removedEdge x) { e.graphSide with graph := e.graph.eraseEdge x })
  /-- The removal of a type begins. -/
  | removeType {t : Ty} {key : String} : m = .call (.removeType t) → e.graph.keyOf? t = some key →
    GraphStep e m { e.graphSide with works := .typeRemoval t key (e.graph.incident t) :: e.works }
  | dropEdge {t : Ty} {key : String} {x : Edge} {edges : List Edge} {rest : List (Frame ν)} :
    e.works = .typeRemoval t key (x :: edges) :: rest →
    GraphStep e m (e.announced (.removedEdge x)
      { e.graphSide with graph := e.graph.eraseEdge x, works := .typeRemoval t key edges :: rest })
  /-- An edge of a type that is being removed has gone before its turn. -/
  | missEdge {t : Ty} {key : String} {x : Edge} {edges : List Edge} {rest : List (Frame ν)} :
    e.works = .typeRemoval t key (x :: edges) :: rest → x ∉ e.graph.edges →
    GraphStep e m { e.graphSide with works := .typeRemoval t key edges :: rest }
  | dropNode {t : Ty} {key : String} {rest : List (Frame ν)} :
    m = .work → e.stack = .typeRemoval t key [] :: rest →
    GraphStep e m (e.announced (.removedType t key)
      { e.graphSide with graph := e.graph.freeKey key, works := (e.withStack rest).works })

section Inversion

variable {e e' : Engine ν} {m : Move ν} {f : Frame ν} {rest : List (Frame ν)}

theorem GraphStep.unseen (h : e'.graphSide = e.graphSide) : GraphStep e m e'.graphSide :=
  .relist (.of_eq h)

/-- A pass begins after a change. -/
theorem graphSide_announce {e₁ : Engine ν} {event : GraphEvent} {side : GraphSide ν}
    (hl : e₁.listeners = e.listeners) (hg : e₁.gone = e.gone) (hs : e₁.graphSide = side) :
    (e₁.notifyGraph event).graphSide = e.announced event side := by
  rw [graphSide_notifyGraph hl hg, hs]

theorem GraphStep.announce {e₁ : Engine ν} {event : GraphEvent} {side : GraphSide ν}
    (hl : e₁.listeners = e.listeners) (hg : e₁.gone = e.gone) (hs : e₁.graphSide = side)
    (h : GraphStep e m (e.announced event side)) : GraphStep e m (e₁.notifyGraph event).graphSide := by
  rw [graphSide_announce hl hg hs]
  exact h

/-- Other work is over, and only a subscription changes with it. -/
theorem Relisted.pop (hs : e.stack = f :: rest) (hf : f.isGraphWork = false) {side : GraphSide ν}
    (h : Relisted (e.withStack rest) m side) : Relisted e m side :=
  h.congr (graphSide_pop hs hf) fun _ => Relists.of_withStack

/-- Other work goes on unseen. -/
theorem Relisted.aside (hs : e.stack = f :: rest) (hf : f.isGraphWork = false)
    (h : e'.graphSide = (e.withStack rest).graphSide) : Relisted e m e'.graphSide :=
  .pop hs hf (.of_eq h)

theorem ruleTurn_relisted {s : SystemId} {event : RuleEvent} {l : RuleListener}
    {queue : List RuleListener} (hs : e.stack = .rulePass s event (l :: queue) :: rest) :
    Relisted e m (((e.withStack rest).push (.rulePass s event queue)).ruleTurn s event l).graphSide := by
  refine .aside hs rfl (.trans ?_ (graphSide_push (f := .rulePass s event queue) _ rfl nofun))
  cases l with
  | observer o => exact graphSide_push _ rfl fun q hq => by cases hq; rfl
  | reference r =>
    cases event with
    | added id boundTo => exact (plain_attempt _ r).graphSide
    | removed id boundTo => rfl

theorem referenceTurn_relisted {r : ReferenceId} {event : ReferenceEvent} {l : ReferenceListener}
    {queue : List ReferenceListener} (hs : e.stack = .referencePass r event (l :: queue) :: rest) :
    Relisted e m
      (((e.withStack rest).push (.referencePass r event queue)).referenceTurn r event l).graphSide := by
  refine .aside hs rfl (.trans ?_ (graphSide_push (f := .referencePass r event queue) _ rfl nofun))
  cases l with
  | observer o => exact graphSide_push _ rfl fun q hq => by cases hq; rfl
  | dependent d =>
    cases event with
    | resolved t => exact (plain_attempt _ d).graphSide
    | invalidated t => rfl

/-- Work that is not on the graph. -/
theorem tick_relisted (hs : e.stack = f :: rest) (hf : f.isGraphWork = false) (h : e.tick = some e') :
    Relisted e m e'.graphSide := by
  rw [tick, hs] at h
  dsimp only at h
  cases f with
  | deliver result =>
    cases h
    exact .aside hs rfl (graphSide_finish _ _)
  | graphPass event queue => cases hf
  | typeRemoval t key edges => cases hf
  | rulePass s event queue =>
    cases queue with
    | nil =>
      cases h
      exact .aside hs rfl rfl
    | cons l queue =>
      cases h
      exact ruleTurn_relisted hs
  | ruleRemoval s ids =>
    cases ids with
    | nil =>
      cases h
      exact .aside hs rfl rfl
    | cons id ids =>
      cases h
      exact .aside hs rfl ((graphSide_removeRule _ s id).trans (graphSide_push _ rfl nofun))
  | referencePass r event queue =>
    cases queue with
    | nil =>
      cases h
      exact .aside hs rfl rfl
    | cons l queue =>
      cases h
      exact referenceTurn_relisted hs
  | restart r =>
    cases h
    exact .pop hs rfl (relisted_startResolving _ r)
  | selecting selection selector =>
    cases h
    rcases selectStep_cases (e.withStack rest) selection selector with hp | ⟨r, t, -, heq⟩
    · exact .aside hs rfl hp.graphSide
    · rw [heq]
      exact .pop hs rfl (relisted_resolve _ r t)
  | inferring i =>
    cases h
    exact .aside hs rfl (plain_inferStep _ i).graphSide
  | relating check actual =>
    cases h
    exact .aside hs rfl (plain_relateStep (p := none) _ check actual).graphSide
  | validating v =>
    dsimp only at h
    split at h <;> cases h
    · exact .aside hs rfl (graphSide_finish _ _)
    · exact .aside hs rfl (graphSide_push _ rfl fun q hq => by cases hq; rfl)
  | telling o notice => cases h
  | running rule i => cases h
  | expanding d selection => cases h
  | initializing i selection => cases h
  | checking check v => cases h
  | wording provider v => cases h

/-- No answer is about the graph. -/
theorem answer_relisted {a : Answer ν} (h : e.answer a = some e') : Relisted e m e'.graphSide := by
  unfold answer at h
  split at h
  · cases h
  · rename_i frame rest hs
    dsimp only at h
    split at h <;> cases h
    · exact .aside hs rfl rfl
    · rename_i i t
      rcases inferred_cases (e.withStack rest) i (.ok t) with hp | ⟨r, t', -, heq⟩
      · exact .aside hs rfl hp.graphSide
      · have heq : (e.withStack rest).inferred i (.ok t) = (e.withStack rest).resolve r t' := heq
        rw [heq]
        exact .pop hs rfl (relisted_resolve _ r t')
    · exact .aside hs rfl (graphSide_push _ rfl nofun)
    · exact .aside hs rfl (graphSide_push _ rfl nofun)
    · exact .aside hs rfl (graphSide_push _ rfl nofun)
    · rename_i i selection t
      rcases selected_cases (e.withStack rest) selection.purpose t with hp | ⟨r, -, heq⟩
      · exact .aside hs rfl hp.graphSide
      · have heq : (e.withStack rest).selected selection.purpose t = (e.withStack rest).resolve r t := heq
        rw [heq]
        exact .pop hs rfl (relisted_resolve _ r t)
    · exact .aside hs rfl (graphSide_push _ rfl nofun)
    · exact .aside hs rfl (plain_reportViolation (p := none) _ _ _).graphSide

/-- The turn of a listener. -/
theorem graphTurn_graphSide {event : GraphEvent} {l : GraphListener} {queue : List GraphListener}
    (hs : e.stack = .graphPass event (l :: queue) :: rest) :
    ∃ listeners, Relists e m listeners ∧
      (((e.withStack rest).push (.graphPass event queue)).graphTurn event l).graphSide =
        { e.graphSide with
          listeners, works := .graphPass event queue :: (e.withStack rest).works
          hearings := e.hearings ++ l.hearing event } := by
  rw [push_eq _ rfl]
  have relisted : ∀ {e₁ : Engine ν}, l.hearing event = [] →
      Relisted (e.withStack (.graphPass event queue :: rest)) m e₁.graphSide →
      ∃ listeners, Relists e m listeners ∧ e₁.graphSide =
        { e.graphSide with
          listeners, works := .graphPass event queue :: (e.withStack rest).works
          hearings := e.hearings ++ l.hearing event } := by
    rintro e₁ hl ⟨listeners, hr, heq⟩
    refine ⟨listeners, hr.of_withStack, ?_⟩
    rw [heq, hl, List.append_nil]
    rfl
  cases l with
  | observer o =>
    refine ⟨e.listeners, .same, ?_⟩
    simp [graphTurn, graphSide, push, Frame.question?, report, hearings, works, List.filter_cons,
      Frame.isGraphWork, Report.hearing?, GraphListener.hearing]
  | system s =>
    refine relisted rfl (.of_eq ?_)
    simp only [graphTurn]
    split
    · exact graphSide_push _ rfl fun _ hq => by cases hq
    · rfl
  | reference r =>
    cases event with
    | addedType t key => exact relisted rfl (.of_eq (plain_attempt _ r).graphSide)
    | removedType t key => exact relisted rfl (relisted_invalidate _ r t)
    | addedEdge x => exact relisted rfl (.of_eq rfl)
    | removedEdge x => exact relisted rfl (.of_eq rfl)

/-- The removal of a type goes on to one of its edges. -/
theorem removeEdge_graphSide {t : Ty} {key : String} {x : Edge} {edges : List Edge} (hx : x ∈ e.graph.edges) :
    ((e.withStack (.typeRemoval t key edges :: rest)).removeEdge x).graphSide =
      e.announced (.removedEdge x)
        { e.graphSide with
          graph := e.graph.eraseEdge x, works := .typeRemoval t key edges :: (e.withStack rest).works } := by
  have hif : (e.withStack (.typeRemoval t key edges :: rest)).removeEdge x =
      ({ e.withStack (.typeRemoval t key edges :: rest) with graph := e.graph.eraseEdge x }.log
        (.edgeRemoved x)).notifyGraph (.removedEdge x) := if_pos hx
  rw [hif]
  exact graphSide_announce rfl rfl (graphSide_log _ _)

/-- The removal of a type goes on to the type itself. -/
theorem removeNode_graphSide {t : Ty} {key : String} :
    ((e.withStack rest).removeNode t key).graphSide =
      e.announced (.removedType t key)
        { e.graphSide with graph := e.graph.freeKey key, works := (e.withStack rest).works } :=
  graphSide_announce rfl rfl (graphSide_log _ _)

theorem tick_graphStep (h : e.tick = some e') : GraphStep e .work e'.graphSide := by
  cases hs : e.stack with
  | nil => simp [tick, hs] at h
  | cons f rest =>
    cases hf : f.isGraphWork with
    | false => exact .relist (tick_relisted hs hf h)
    | true =>
      have hworks : e.works = f :: (e.withStack rest).works := works_cons hs hf
      rw [tick, hs] at h
      dsimp only at h
      cases f with
      | graphPass event queue =>
        cases queue with
        | nil =>
          cases h
          exact .done hworks
        | cons l queue =>
          cases h
          obtain ⟨listeners, hr, hside⟩ := graphTurn_graphSide (m := .work) hs
          rw [hside]
          exact .turn hworks hr
      | typeRemoval t key edges =>
        cases edges with
        | nil =>
          cases h
          rw [removeNode_graphSide]
          exact .dropNode rfl hs
        | cons x edges =>
          cases h
          rw [push_eq _ rfl]
          by_cases hx : x ∈ e.graph.edges
          · rw [removeEdge_graphSide hx]
            exact .dropEdge hworks
          · have hif : (e.withStack (.typeRemoval t key edges :: rest)).removeEdge x = _ := if_neg hx
            rw [hif]
            exact .missEdge hworks hx
      | _ => cases hf

theorem answer_graphStep {a : Answer ν} (h : e.answer a = some e') : GraphStep e m e'.graphSide :=
  .relist (answer_relisted h)

/-- A call that leaves the graph as it is. -/
theorem call_relisted {c : Call ν} (hk : e.knows c) (hc : e.alters c = false) :
    Relisted e (.call c) (e.call c).graphSide := by
  cases c with
  | addSystem config printer comparisons =>
    exact ⟨_, .enter rfl, (graphSide_finish _ _).trans rfl⟩
  | addType t key =>
    cases hadd : e.graph.addType t key with
    | refused error =>
      simp only [call, hadd]
      exact .of_eq (graphSide_finish _ _)
    | present =>
      simp only [call, hadd]
      exact .of_eq (graphSide_finish _ _)
    | added graph => simp [alters, hadd] at hc
  | removeType t =>
    cases hkey : e.graph.keyOf? t with
    | none =>
      simp only [call, hkey]
      exact .of_eq (graphSide_finish _ _)
    | some key => simp [alters, hkey] at hc
  | addEdge x =>
    cases hadd : e.graph.addEdge x with
    | refused error =>
      simp only [call, hadd]
      exact .of_eq (graphSide_finish _ _)
    | present =>
      simp only [call, hadd]
      exact .of_eq (graphSide_finish _ _)
    | added graph => simp [alters, hadd] at hc
  | removeEdge x =>
    have hx : x ∉ e.graph.edges := by simpa [alters] using hc
    simp only [call, removeEdge, push_graph, hx, if_false]
    exact .of_eq (graphSide_deliver _ _)
  | listenToGraph o => exact ⟨_, .listen rfl, (graphSide_finish _ _).trans rfl⟩
  | watchRemoval t o => exact ⟨_, .watch rfl, (graphSide_finish _ _).trans rfl⟩
  | leaveGraph id => exact ⟨_, .leave rfl, (graphSide_finish _ _).trans rfl⟩
  | compare relation actual expected =>
    exact .of_eq ((graphSide_finish _ _).trans
      (plain_compareIn (p := none) e .graph relation actual expected).graphSide)
  | addRule s tag name boundTo =>
    simp only [call]
    split
    · exact .of_eq (graphSide_finish _ _)
    · refine .of_eq ?_
      rw [graphSide_notifyRules, graphSide_deliver]
      exact graphSide_log e _
  | removeRule s id => exact .of_eq ((graphSide_removeRule _ s id).trans (graphSide_deliver _ _))
  | listenToRules s o => exact .of_eq (graphSide_finish _ _)
  | leaveRules s id => exact .of_eq (graphSide_finish _ _)
  | infer s n => exact .of_eq (plain_infer (p := none) e s n .inquiry (.inl rfl)).graphSide
  | trySelect s selector => exact .of_eq (plain_select (p := none) e s .trial selector (by simp)).graphSide
  | mustSelect s selector =>
    exact .of_eq (plain_select (p := none) e s .demand selector (by simp)).graphSide
  | addReference s selector =>
    simp only [knows, Bool.and_eq_true, decide_eq_true_eq] at hk
    rw [addReference_eq hk.2]
    refine ⟨e.listeners.add none (.reference e.references.length), .enter rfl, ?_⟩
    rw [(plain_attempt _ _).graphSide]
    simp [graphSide, subscribe, works, hearings, Frame.isGraphWork]
  | listenToReference r o inform =>
    refine .of_eq ?_
    simp only [call]
    split
    · split
      · exact (graphSide_push _ rfl fun q hq => by cases hq; rfl).trans (graphSide_deliver _ _)
      · exact (graphSide_push _ rfl fun q hq => by cases hq; rfl).trans (graphSide_deliver _ _)
    · exact graphSide_deliver _ _
  | leaveReference r o => exact .of_eq (graphSide_finish _ _)
  | deconstruct r =>
    have := relisted_deconstruct (m := .call (.deconstruct r)) e r
    rw [← graphSide_finish _ .done] at this
    exact this
  | relate request => exact .of_eq (plain_relate (p := none) e request).graphSide
  | addChecks s checks => exact .of_eq (graphSide_finish _ _)
  | validate s n => exact .of_eq (graphSide_push _ rfl fun _ hq => by cases hq)

theorem call_graphStep {c : Call ν} (hk : e.knows c) : GraphStep e (.call c) (e.call c).graphSide := by
  cases hc : e.alters c with
  | false => exact .relist (call_relisted hk hc)
  | true =>
    cases c with
    | addType t key =>
      cases hadd : e.graph.addType t key with
      | added graph =>
        simp only [call, hadd]
        exact .announce rfl rfl ((graphSide_deliver _ _).trans (graphSide_log _ _)) (.addType rfl hadd)
      | _ => simp [alters, hadd] at hc
    | removeType t =>
      obtain ⟨key, hkey⟩ := Option.isSome_iff_exists.1 hc
      simp only [call, hkey]
      exact .removeType rfl hkey
    | addEdge x =>
      cases hadd : e.graph.addEdge x with
      | added graph =>
        simp only [call, hadd]
        exact .announce rfl rfl ((graphSide_deliver _ _).trans (graphSide_log _ _)) (.addEdge rfl hadd)
      | _ => simp [alters, hadd] at hc
    | removeEdge x =>
      simp only [call, removeEdge]
      split
      · exact .announce rfl rfl ((graphSide_log _ _).trans rfl) (.removeEdge rfl)
      · exact .unseen (graphSide_deliver _ _)
    | _ => cases hc

/-- What a move does to the graph's side is a step. -/
theorem move?_graphStep (h : e.move? m = some e') : GraphStep e m e'.graphSide := by
  cases m with
  | call c =>
    simp only [move?] at h
    split at h
    · rename_i hc
      rw [Bool.and_eq_true] at hc
      cases h
      exact call_graphStep hc.2
    · cases h
  | answer a => exact answer_graphStep h
  | work => exact tick_graphStep h
  | forget o =>
    cases h
    unfold forget
    split
    · exact .unseen rfl
    · exact .forget rfl
  | retire s =>
    cases h
    unfold retire
    split
    · exact .unseen rfl
    · rename_i y hy
      exact .relist ⟨_, .retire hy, rfl⟩

end Inversion

end Engine
end LiveTypes
