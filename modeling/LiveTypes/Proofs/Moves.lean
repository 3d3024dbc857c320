import LiveTypes.Proofs.Plain
import LiveTypes.Proofs.Registry

/-!
# What a move can do

`Engine.Step` says once what a move of a run may do to references, to their subscriptions and to the
passes that still have to call them. Everything that does none of this is a calm change. All facts
about runs with a host that calls back are inductions over `Engine.Step`.
-/
namespace LiveTypes

variable {ν : Type}

/-- Whether a listener of the graph is a part of the engine. -/
def GraphListener.stays : GraphListener → Bool
  | .observer _ => false
  | _ => true

/-- Whether a listener of a rule set is a part of the engine. -/
def RuleListener.stays : RuleListener → Bool
  | .observer _ => false
  | _ => true

/-- A reference without those who listen to it. -/
def Reference.bare (r : Reference ν) : Reference ν := { r with listeners := [] }

namespace Frame

/-- Whether a frame neither tells of a reference nor lets one start over. -/
def isFresh : Frame ν → Bool
  | .referencePass _ _ _ => false
  | .restart _ => false
  | _ => true

/-- A frame that may be left by a calm change for a selection with the given purpose. -/
structure FreshFor (p : Option Purpose) (f : Frame ν) : Prop where
  fresh : f.isFresh
  purpose : ∀ r, f.purpose? = some (.resolution r) → p = some (.resolution r)

theorem PlainFor.freshFor {p : Option Purpose} {f : Frame ν} (h : f.PlainFor p) : f.FreshFor p := by
  refine ⟨?_, h.purpose⟩
  have := h.plain
  cases f <;> simp_all [isPlain, isFresh]

/-- The reference that a selection is for and the one whose type it reads next. -/
def reads? : Frame ν → Option (ReferenceId × ReferenceId)
  | .selecting ⟨_, .resolution r, _ + 1, _⟩ (.reference source) => some (r, source)
  | _ => none

theorem reads?_eq_some {f : Frame ν} {pair : ReferenceId × ReferenceId} :
    f.reads? = some pair ↔ ∃ s hops trail,
      f = .selecting ⟨s, .resolution pair.1, hops + 1, trail⟩ (.reference pair.2) := by
  constructor
  · intro h
    unfold reads? at h
    split at h
    · cases h
      exact ⟨_, _, _, rfl⟩
    · cases h
  · rintro ⟨s, hops, trail, rfl⟩
    rfl

/-- The next turn of a pass makes a reference try. -/
inductive Calls : Frame ν → Frame ν → ReferenceId → Prop
  | graph {t : Ty} {key : String} {queue : List GraphListener} {r : ReferenceId} :
    Calls (.graphPass (.addedType t key) (.reference r :: queue)) (.graphPass (.addedType t key) queue) r
  | rules {s : SystemId} {id : RuleId} {boundTo : Option Ty} {queue : List RuleListener}
      {r : ReferenceId} :
    Calls (.rulePass s (.added id boundTo) (.reference r :: queue))
      (.rulePass s (.added id boundTo) queue) r
  | source {source : ReferenceId} {t : Ty} {queue : List ReferenceListener} {r : ReferenceId} :
    Calls (.referencePass source (.resolved t) (.dependent r :: queue))
      (.referencePass source (.resolved t) queue) r

/-- The next turn of a pass is for somebody who is no reference, or whom the event does not move. -/
inductive Skips : Frame ν → Frame ν → Prop
  | graph {event : GraphEvent} {l : GraphListener} {queue : List GraphListener} :
    (∀ r t key, l = .reference r → event ≠ .addedType t key ∧ event ≠ .removedType t key) →
    Skips (.graphPass event (l :: queue)) (.graphPass event queue)
  | rules {s : SystemId} {event : RuleEvent} {l : RuleListener} {queue : List RuleListener} :
    (∀ r id boundTo, l = .reference r → event ≠ .added id boundTo) →
    Skips (.rulePass s event (l :: queue)) (.rulePass s event queue)
  | reference {r : ReferenceId} {event : ReferenceEvent} {l : ReferenceListener}
      {queue : List ReferenceListener} :
    (∀ d t, l = .dependent d → event ≠ .resolved t) →
    Skips (.referencePass r event (l :: queue)) (.referencePass r event queue)

end Frame

namespace Engine

/-! ## Calm changes -/

/-- `e'` comes from `e` by changes that leave the subscriptions of certain listeners as they are. -/
structure Keeping (g : GraphListener → Bool) (k : RuleListener → Bool) (e e' : Engine ν) : Prop where
  graph : e.listeners.Keeps g e'.listeners
  housed : e'.systems.length = e.systems.length
  systems : ∀ (s : SystemId) (y' : System ν), e'.systems[s]? = some y' →
    ∃ y : System ν, e.systems[s]? = some y ∧ y'.subscription = y.subscription ∧
      y.listeners.Keeps k y'.listeners

namespace Keeping

variable {g : GraphListener → Bool} {k : RuleListener → Bool} {e e' e'' : Engine ν}

theorem of_eq (hl : e'.listeners = e.listeners) (hs : e'.systems = e.systems) : Keeping g k e e' :=
  ⟨hl ▸ .refl _ _, by rw [hs], fun _ y hy => ⟨y, hs ▸ hy, rfl, .refl _ _⟩⟩

theorem trans (h : Keeping g k e e') (h' : Keeping g k e' e'') : Keeping g k e e'' := by
  refine ⟨h.graph.trans h'.graph, h'.housed.trans h.housed, fun s y'' hy'' => ?_⟩
  obtain ⟨y', hy', hs', hk'⟩ := h'.systems s y'' hy''
  obtain ⟨y, hy, hs, hk⟩ := h.systems s y' hy'
  exact ⟨y, hy, hs'.trans hs, hk.trans hk'⟩

theorem of_graph (hl : e.listeners.Keeps g e'.listeners) (hs : e'.systems = e.systems) :
    Keeping g k e e' :=
  ⟨hl, by rw [hs], fun _ y hy => ⟨y, hs ▸ hy, rfl, .refl _ _⟩⟩

/-- One system changes. -/
theorem of_modify {s : SystemId} {f : System ν → System ν} (hl : e.listeners.Keeps g e'.listeners)
    (hs : e'.systems = e.systems.modify s f)
    (h : ∀ y, e.systems[s]? = some y →
      (f y).subscription = y.subscription ∧ y.listeners.Keeps k (f y).listeners) :
    Keeping g k e e' := by
  refine ⟨hl, by simp [hs], fun i y' hy' => ?_⟩
  rw [hs, List.getElem?_modify] at hy'
  obtain ⟨y, hy, rfl⟩ := Option.map_eq_some_iff.1 hy'
  refine ⟨y, hy, ?_⟩
  split
  · rename_i hi
    exact h y (hi ▸ hy)
  · exact ⟨rfl, .refl _ _⟩

end Keeping

/-- `e'` comes from `e` without any reference changing its state, and without any subscription of a
reference or a type system coming or going. -/
structure Calm (p : Option Purpose) (e e' : Engine ν) : Prop
    extends Grown (Frame.FreshFor p) e e', Keeping GraphListener.stays RuleListener.stays e e' where
  references : e'.references.map Reference.bare = e.references.map Reference.bare

theorem Plain.calm {p : Option Purpose} {e e' : Engine ν} (h : Plain p e e') : Calm p e e' :=
  ⟨h.toGrown.mono fun _ => Frame.PlainFor.freshFor, .of_eq h.listeners h.systems,
    by rw [h.references]⟩

namespace Calm

variable {p : Option Purpose} {e e' e'' : Engine ν}

theorem refl (p : Option Purpose) (e : Engine ν) : Calm p e e := (Plain.refl p e).calm

theorem trans (h : Calm p e e') (h' : Calm p e' e'') : Calm p e e'' :=
  ⟨h.toGrown.trans h'.toGrown, h.toKeeping.trans h'.toKeeping, h'.references.trans h.references⟩

/-- The graph itself is free to change. -/
theorem graph_changed (graph : Graph) : Calm p e { e with graph } :=
  ⟨.of_eq rfl rfl, .of_eq rfl rfl, rfl⟩

theorem listeners_changed {listeners : Registry (Option Ty) GraphListener}
    (h : e.listeners.Keeps GraphListener.stays listeners) : Calm p e { e with listeners } :=
  ⟨.of_eq rfl rfl, .of_graph h rfl, rfl⟩

theorem updateSystem {s : SystemId} {f : System ν → System ν}
    (h : ∀ y, e.systems[s]? = some y →
      (f y).subscription = y.subscription ∧ y.listeners.Keeps RuleListener.stays (f y).listeners) :
    Calm p e (e.updateSystem s f) :=
  ⟨.of_eq rfl rfl, .of_modify (.refl _ _) rfl h, rfl⟩

theorem updateReference {r : ReferenceId} {f : Reference ν → Reference ν}
    (h : ∀ x, (f x).bare = x.bare) : Calm p e (e.updateReference r f) := by
  refine ⟨.of_eq rfl rfl, .of_eq rfl rfl, List.ext_getElem? fun i => ?_⟩
  simp only [Engine.updateReference, List.getElem?_map, List.getElem?_modify]
  cases e.references[i]? with
  | none => rfl
  | some x => by_cases hi : r = i <;> simp [hi, h]

theorem push {f : Frame ν} (h : f.FreshFor p) : Calm p e (e.push f) :=
  ⟨.push h, .of_eq (push_listeners e f) (push_systems e f), by rw [push_references]⟩

/-- Frames that belong to no selection are fresh for any purpose. -/
theorem push_apart {f : Frame ν} (h : f.isFresh) (hp : f.purpose? = none) : Calm p e (e.push f) :=
  push ⟨h, fun r hr => by simp [hp] at hr⟩

theorem log (entry : LogEntry) (h : (Report.log entry : Report ν).isPlain) :
    Calm p e (e.log entry) :=
  (Plain.log entry h).calm

theorem finish (result : Result ν) : Calm p e (e.finish result) := (Plain.finish result).calm

end Calm

section Passes

/-- Whom the graph can call depends on nothing but who is gone. -/
theorem hearsGraph_congr {e e' : Engine ν} (hg : e'.gone = e.gone) : e'.hearsGraph = e.hearsGraph := by
  funext l
  cases l <;> simp [hearsGraph, hg]

/-- Whom a rule set can call depends on nothing but who is gone. -/
theorem hearsRules_congr {e e' : Engine ν} (hg : e'.gone = e.gone) : e'.hearsRules = e.hearsRules := by
  funext l
  cases l <;> simp [hearsRules, hg]

variable {p : Option Purpose} (e : Engine ν)

theorem notifyGraph_eq (event : GraphEvent) :
    e.notifyGraph event = { e with listeners := e.listeners.prune e.hearsGraph }.push
      (.graphPass event (e.listeners.listeners e.hearsGraph event.concerns)) :=
  rfl

theorem notifyRules_eq {s : SystemId} {system : System ν} (h : e.systems[s]? = some system)
    (event : RuleEvent) :
    e.notifyRules s event =
      (e.updateSystem s fun x => { x with listeners := system.listeners.prune e.hearsRules }).push
        (.rulePass s event (system.listeners.listeners e.hearsRules fun _ => true)) := by
  unfold notifyRules
  rw [h]
  rfl

theorem calm_notifyGraph (event : GraphEvent) : Calm p e (e.notifyGraph event) := by
  have kept : e.listeners.Keeps GraphListener.stays (e.listeners.prune e.hearsGraph) := by
    refine .prune fun l hl => ?_
    cases l <;> simp_all [GraphListener.stays, hearsGraph]
  rw [notifyGraph_eq]
  exact .trans (.listeners_changed kept) (.push_apart rfl rfl)

theorem calm_notifyRules (s : SystemId) (event : RuleEvent) : Calm p e (e.notifyRules s event) := by
  cases hs : e.systems[s]? with
  | none =>
    simp only [notifyRules, hs]
    exact .refl p e
  | some system =>
    rw [notifyRules_eq e hs]
    refine .trans (.updateSystem ?_) (.push_apart rfl rfl)
    intro x hx
    rw [Option.some.inj (hx.symm.trans hs)]
    refine ⟨rfl, .prune fun l hl => ?_⟩
    cases l <;> simp_all [RuleListener.stays, hearsRules]

theorem calm_removeEdge (edge : Edge) : Calm p e (e.removeEdge edge) := by
  unfold removeEdge
  split
  · exact (Calm.graph_changed _).trans ((Calm.log _ rfl).trans (calm_notifyGraph _ _))
  · exact .refl p e

theorem calm_removeNode (t : Ty) (key : String) : Calm p e (e.removeNode t key) :=
  (Calm.graph_changed _).trans ((Calm.log _ rfl).trans (calm_notifyGraph _ _))

theorem calm_removeRule (s : SystemId) (id : RuleId) : Calm p e (e.removeRule s id) := by
  unfold removeRule
  split
  · exact .refl p e
  · refine .trans (.trans ?_ (.log _ rfl)) (calm_notifyRules _ _ _)
    exact .updateSystem fun x _ => ⟨rfl, .refl _ _⟩

end Passes

/-! ## Steps -/

/-- Where calm work begins: on top of all that is under way, or in place of its top. Of a selection
for a reference that reads the type of another, nothing is left. -/
inductive Under (e : Engine ν) : Option Purpose → Engine ν → Prop
  | call : e.hostTurn → Under e none e
  | done {f : Frame ν} {rest : List (Frame ν)} :
    e.stack = f :: rest → f.isSpent → f.reads? = none → Under e f.purpose? (e.withStack rest)
  | read {f : Frame ν} {rest : List (Frame ν)} {r source : ReferenceId} :
    e.stack = f :: rest → f.reads? = some (r, source) → e.typeOf? source = none →
    Under e none (e.withStack rest)

/-- How the registries change when observers, type systems and subscriptions come and go. -/
inductive Enrols (e : Engine ν) (m : Move ν) (e' : Engine ν) : Prop
  | forget : e'.listeners = e.listeners → e'.systems = e.systems → Enrols e m e'
  | addSystem {x : System ν} :
    x.listeners = {} → x.subscription = e.listeners.nextId → e'.systems = e.systems ++ [x] →
    e'.listeners = e.listeners.add none (.system e.systems.length) → Enrols e m e'
  | leaveGraph {id : Nat} :
    m = .call (.leaveGraph id) → e'.listeners = e.listeners.remove id → e'.systems = e.systems →
    Enrols e m e'
  | leaveRules {s : SystemId} {id : Nat} :
    m = .call (.leaveRules s id) → e'.listeners = e.listeners →
    e'.systems = e.systems.modify s (fun x => { x with listeners := x.listeners.remove id }) →
    Enrols e m e'
  | retire {s : SystemId} {x : System ν} :
    m = .retire s → e.systems[s]? = some x → e'.listeners = e.listeners.remove x.subscription →
    e'.systems = e.systems → Enrols e m e'

/-- Neither references nor work under way change, and what is reported is plain. -/
structure Aside (e e' : Engine ν) : Prop where
  references : e'.references = e.references
  stack : e'.stack = e.stack
  trace : ∃ reports, e'.trace = e.trace ++ reports ∧ ∀ q ∈ reports, q.isPlain

/-- What a move can do. -/
inductive Step (e : Engine ν) (m : Move ν) : Engine ν → Prop
  | calm {p : Option Purpose} {e₀ e' : Engine ν} : Under e p e₀ → Calm p e₀ e' → Step e m e'
  | enrol {e' : Engine ν} : Aside e e' → Enrols e m e' → Step e m e'
  /-- A pass has a turn that moves no reference. -/
  | skip {f f' : Frame ν} {rest : List (Frame ν)} {e' : Engine ν} :
    e.stack = f :: rest → f.Skips f' → Calm none (e.withStack (f' :: rest)) e' → Step e m e'
  | attempt {f f' : Frame ν} {rest : List (Frame ν)} {r : ReferenceId} :
    e.stack = f :: rest → f.Calls f' r → Step e m ((e.withStack (f' :: rest)).attempt r)
  | lose {t : Ty} {key : String} {queue : List GraphListener} {rest : List (Frame ν)}
      {r : ReferenceId} :
    e.stack = .graphPass (.removedType t key) (.reference r :: queue) :: rest →
    Step e m ((e.withStack (.graphPass (.removedType t key) queue :: rest)).invalidate r t)
  | restart {rest : List (Frame ν)} {r : ReferenceId} :
    e.stack = .restart r :: rest → Step e m ((e.withStack rest).startResolving r)
  | resolve {f : Frame ν} {rest : List (Frame ν)} {r : ReferenceId} {t : Ty} :
    e.stack = f :: rest → f.purpose? = some (.resolution r) →
    (∀ source, f.reads? = some (r, source) → e.typeOf? source = some t) →
    Step e m ((e.withStack rest).resolve r t)
  | addReference {s : SystemId} {selector : Selector ν} :
    e.hostTurn → s < e.systems.length → e.knowsSelector selector → m = .call (.addReference s selector) →
    Step e m (e.call (.addReference s selector))
  | deconstruct {r : ReferenceId} :
    e.hostTurn → Step e m ((e.deconstruct r).finish .done)

section Inversion

variable {e e' : Engine ν} {m : Move ν} {f : Frame ν} {rest : List (Frame ν)}

/-- Plain work in place of the top frame. -/
theorem Step.plain (hs : e.stack = f :: rest) (hf : f.isSpent) (hr : f.reads? = none)
    (h : Plain f.purpose? (e.withStack rest) e') : Step e m e' :=
  .calm (.done hs hf hr) h.calm

theorem selectStep_step {selection : Selection ν} {selector : Selector ν}
    (hs : e.stack = .selecting selection selector :: rest) :
    Step e m ((e.withStack rest).selectStep selection selector) := by
  cases hr : (Frame.selecting selection selector).reads? with
  | none =>
    rcases selectStep_cases (e.withStack rest) selection selector with h | ⟨r, t, hp, h⟩
    · exact .plain hs rfl hr h
    · rw [h]
      exact .resolve hs (by simp [Frame.purpose?, hp]) (by simp [hr])
  | some pair =>
    obtain ⟨s, hops, trail, hf⟩ := Frame.reads?_eq_some.1 hr
    cases hf
    cases ht : e.typeOf? pair.2 with
    | none =>
      have hsel : (e.withStack rest).selectStep ⟨s, .resolution pair.1, hops + 1, trail⟩
          (.reference pair.2) = (e.withStack rest).stillUnresolved pair.1 := by
        have ht : (e.withStack rest).typeOf? pair.2 = none := ht
        simp only [selectStep, ht]
      rw [hsel]
      exact .calm (.read hs hr ht) (.log _ rfl)
    | some t =>
      have hsel : (e.withStack rest).selectStep ⟨s, .resolution pair.1, hops + 1, trail⟩
          (.reference pair.2) = (e.withStack rest).resolve pair.1 t := by
        have ht : (e.withStack rest).typeOf? pair.2 = some t := ht
        simp only [selectStep, ht, selected]
      rw [hsel]
      refine .resolve hs rfl fun other ho => ?_
      cases ho
      exact ht

theorem inferred_step {i : Inference ν} {outcome : Except (List InferenceProblem) Ty}
    (hs : e.stack = f :: rest) (hf : f.isSpent) (hr : f.reads? = none)
    (hp : f.purpose? = i.use.purpose?) :
    Step e m ((e.withStack rest).inferred i outcome) := by
  rcases inferred_cases (e.withStack rest) i outcome with h | ⟨r, t, hu, h⟩
  · exact .plain hs hf hr (hp ▸ h)
  · rw [h]
    exact .resolve hs (hp.trans hu) (by simp [hr])

theorem graphTurn_step {event : GraphEvent} {l : GraphListener} {queue : List GraphListener}
    (hs : e.stack = .graphPass event (l :: queue) :: rest) :
    Step e m (((e.withStack rest).push (.graphPass event queue)).graphTurn event l) := by
  rw [push_eq _ rfl]
  cases l with
  | observer o =>
    exact .skip hs (.graph fun r t key h => nomatch h)
      (.push_apart (f := .telling o (.graph event)) rfl rfl)
  | system s =>
    refine .skip hs (.graph fun r t key h => nomatch h) ?_
    simp only [graphTurn]
    split
    · exact .push_apart rfl rfl
    · exact .refl _ _
  | reference r =>
    cases event with
    | addedType t key => exact .attempt hs .graph
    | removedType t key => exact .lose hs
    | addedEdge edge => exact .skip hs (.graph fun _ _ _ _ => ⟨nofun, nofun⟩) (.refl _ _)
    | removedEdge edge => exact .skip hs (.graph fun _ _ _ _ => ⟨nofun, nofun⟩) (.refl _ _)

theorem ruleTurn_step {s : SystemId} {event : RuleEvent} {l : RuleListener}
    {queue : List RuleListener} (hs : e.stack = .rulePass s event (l :: queue) :: rest) :
    Step e m (((e.withStack rest).push (.rulePass s event queue)).ruleTurn s event l) := by
  rw [push_eq _ rfl]
  cases l with
  | observer o =>
    exact .skip hs (.rules fun r id boundTo h => nomatch h)
      (.push_apart (f := .telling o (.rule s event)) rfl rfl)
  | reference r =>
    cases event with
    | added id boundTo => exact .attempt hs .rules
    | removed id boundTo => exact .skip hs (.rules fun _ _ _ _ => nofun) (.refl _ _)

theorem referenceTurn_step {r : ReferenceId} {event : ReferenceEvent} {l : ReferenceListener}
    {queue : List ReferenceListener} (hs : e.stack = .referencePass r event (l :: queue) :: rest) :
    Step e m (((e.withStack rest).push (.referencePass r event queue)).referenceTurn r event l) := by
  rw [push_eq _ rfl]
  cases l with
  | observer o =>
    exact .skip hs (.reference fun d t h => nomatch h)
      (.push_apart (f := .telling o (.reference r event)) rfl rfl)
  | dependent d =>
    cases event with
    | resolved t => exact .attempt hs .source
    | invalidated t => exact .skip hs (.reference fun _ _ _ => nofun) (.refl _ _)

theorem tick_step (h : e.tick = some e') : Step e m e' := by
  unfold tick at h
  split at h
  · cases h
  · rename_i frame rest hs
    dsimp only at h
    cases frame with
    | deliver result =>
      cases h
      exact .plain hs rfl rfl (.finish _)
    | graphPass event queue =>
      cases queue with
      | nil =>
        cases h
        exact .plain hs rfl rfl (.refl _ _)
      | cons l queue =>
        cases h
        exact graphTurn_step hs
    | typeRemoval t key edges =>
      cases edges with
      | nil =>
        cases h
        exact .calm (.done hs rfl rfl) (calm_removeNode _ _ _)
      | cons edge edges =>
        cases h
        exact .calm (.done hs rfl rfl) (.trans (.push_apart rfl rfl) (calm_removeEdge _ _))
    | rulePass s event queue =>
      cases queue with
      | nil =>
        cases h
        exact .plain hs rfl rfl (.refl _ _)
      | cons l queue =>
        cases h
        exact ruleTurn_step hs
    | ruleRemoval s ids =>
      cases ids with
      | nil =>
        cases h
        exact .plain hs rfl rfl (.refl _ _)
      | cons id ids =>
        cases h
        exact .calm (.done hs rfl rfl) (.trans (.push_apart rfl rfl) (calm_removeRule _ _ _))
    | referencePass r event queue =>
      cases queue with
      | nil =>
        cases h
        exact .plain hs rfl rfl (.refl _ _)
      | cons l queue =>
        cases h
        exact referenceTurn_step hs
    | restart r =>
      cases h
      exact .restart hs
    | selecting selection selector =>
      cases h
      exact selectStep_step hs
    | inferring i =>
      cases h
      exact .plain hs rfl rfl (plain_inferStep _ i)
    | relating check actual =>
      cases h
      exact .plain hs rfl rfl (plain_relateStep _ check actual)
    | validating v =>
      dsimp only at h
      split at h <;> cases h
      · exact .plain hs rfl rfl (.finish _)
      · exact .plain hs rfl rfl (.push_apart rfl rfl)
    | telling o notice => cases h
    | running rule i => cases h
    | expanding d selection => cases h
    | initializing i selection => cases h
    | checking check v => cases h
    | wording provider v => cases h

theorem answer_step {a : Answer ν} (h : e.answer a = some e') : Step e m e' := by
  unfold answer at h
  split at h
  · cases h
  · rename_i frame rest hs
    dsimp only at h
    split at h <;> cases h
    · exact .plain hs rfl rfl (.refl _ _)
    · exact inferred_step hs rfl rfl rfl
    · exact .plain hs rfl rfl (.push ⟨rfl, fun _ h => h⟩)
    · exact .plain hs rfl rfl (.push ⟨rfl, fun _ h => h⟩)
    · exact .plain hs rfl rfl (.push ⟨rfl, fun _ h => h⟩)
    · rename_i i selection t
      rcases selected_cases (e.withStack rest) selection.purpose t with h | ⟨r, hp, h⟩
      · exact .plain hs rfl rfl h
      · have h : (e.withStack rest).selected selection.purpose t = (e.withStack rest).resolve r t := h
        rw [h]
        exact .resolve hs (by simp [Frame.purpose?, hp]) (by simp [Frame.reads?])
    · exact .plain hs rfl rfl (.push_apart rfl rfl)
    · exact .plain hs rfl rfl (plain_reportViolation _ _ _)

/-- A listener of a reference is perhaps told at once. -/
theorem listenToReference_cases (e : Engine ν) (r : ReferenceId) (o : Observer) (inform : Bool) :
    ∃ e₁, Calm none e e₁ ∧ e₁.stack = .deliver .done :: e.stack ∧
      (e.call (.listenToReference r o inform) = e₁ ∨
        ∃ notice, e.call (.listenToReference r o inform) = e₁.push (.telling o notice)) := by
  refine ⟨(e.updateReference r fun x => { x with listeners := x.listeners ++ [o] }).push (.deliver .done),
    .trans (.updateReference ?_) (.push_apart rfl rfl), push_stack _ _, ?_⟩
  · exact fun _ => rfl
  · simp only [call]
    split
    · split
      · exact .inr ⟨_, rfl⟩
      · exact .inr ⟨_, rfl⟩
    · exact .inl rfl

/-- What the host can do besides answering. All that is under way stays. -/
inductive Covers (e : Engine ν) (m : Move ν) : Engine ν → Prop
  | calm {e' : Engine ν} : e.hostTurn → Calm none e e' → Covers e m e'
  | enrol {e' : Engine ν} : Aside e e' → Enrols e m e' → Covers e m e'
  | addReference {s : SystemId} {selector : Selector ν} :
    e.hostTurn → s < e.systems.length → e.knowsSelector selector → m = .call (.addReference s selector) →
    Covers e m (e.call (.addReference s selector))
  | deconstruct {r : ReferenceId} : e.hostTurn → Covers e m ((e.deconstruct r).finish .done)

theorem listenToReference_covers {r : ReferenceId} {o : Observer} {inform : Bool} (ht : e.hostTurn) :
    Covers e m (e.call (.listenToReference r o inform)) := by
  obtain ⟨e₁, added, -, heq | ⟨notice, heq⟩⟩ := listenToReference_cases e r o inform
  · exact heq ▸ .calm ht added
  · exact heq ▸ .calm ht (added.trans (.push_apart rfl rfl))

theorem call_covers {c : Call ν} (ht : e.hostTurn) (hk : e.knows c) : Covers e (.call c) (e.call c) := by
  cases c with
  | addSystem config printer comparisons =>
    exact .enrol ⟨rfl, rfl, [_], rfl, by simp [Report.isPlain]⟩ (.addSystem rfl rfl rfl rfl)
  | addType t key =>
    simp only [call]
    split
    · exact .calm ht (.finish _)
    · exact .calm ht (.finish _)
    · refine .calm ht (.trans (.trans (.trans ?_ (.log _ rfl)) (.push_apart rfl rfl))
        (calm_notifyGraph _ _))
      exact .graph_changed _
  | removeType t =>
    simp only [call]
    split
    · exact .calm ht (.finish _)
    · exact .calm ht (.trans (.push_apart rfl rfl) (.push_apart rfl rfl))
  | addEdge edge =>
    simp only [call]
    split
    · exact .calm ht (.finish _)
    · exact .calm ht (.finish _)
    · refine .calm ht (.trans (.trans (.trans ?_ (.log _ rfl)) (.push_apart rfl rfl))
        (calm_notifyGraph _ _))
      exact .graph_changed _
  | removeEdge edge =>
    exact .calm ht (.trans (.push_apart rfl rfl) (calm_removeEdge _ edge))
  | listenToGraph o =>
    exact .calm ht (.trans (.listeners_changed (.add none rfl)) (.finish _))
  | watchRemoval t o =>
    exact .calm ht (.trans (.listeners_changed (.add (some t) rfl)) (.finish _))
  | leaveGraph id =>
    exact .enrol ⟨rfl, rfl, [_], rfl, by simp [Report.isPlain]⟩ (.leaveGraph rfl rfl rfl)
  | compare relation actual expected =>
    exact .calm ht (.trans (plain_compareIn e .graph relation actual expected).calm (.finish _))
  | addRule s tag name boundTo =>
    simp only [call]
    split
    · exact .calm ht (.finish _)
    · refine .calm ht (.trans (.trans (.trans (.log _ rfl) (.updateSystem ?_)) (.push_apart rfl rfl))
        (calm_notifyRules _ _ _))
      exact fun x _ => ⟨rfl, .refl _ _⟩
  | removeRule s id =>
    exact .calm ht (.trans (.push_apart rfl rfl) (calm_removeRule _ s id))
  | listenToRules s o =>
    refine .calm ht (.trans (.updateSystem ?_) (.finish _))
    exact fun x _ => ⟨rfl, .add () rfl⟩
  | leaveRules s id =>
    exact .enrol ⟨rfl, rfl, [_], rfl, by simp [Report.isPlain]⟩ (.leaveRules rfl rfl rfl)
  | infer s n => exact .calm ht (plain_infer e s n .inquiry (.inl rfl)).calm
  | trySelect s selector => exact .calm ht (plain_select e s .trial selector (by simp)).calm
  | mustSelect s selector => exact .calm ht (plain_select e s .demand selector (by simp)).calm
  | addReference s selector =>
    simp only [knows, Bool.and_eq_true, decide_eq_true_eq] at hk
    exact .addReference ht hk.1 hk.2 rfl
  | listenToReference r o inform => exact listenToReference_covers ht
  | leaveReference r o =>
    refine .calm ht (.trans (.updateReference ?_) (.finish _))
    exact fun _ => rfl
  | deconstruct r => exact .deconstruct ht
  | relate request => exact .calm ht (plain_relate e request).calm
  | addChecks s checks =>
    refine .calm ht (.trans (.updateSystem ?_) (.finish _))
    exact fun x _ => ⟨rfl, .refl _ _⟩
  | validate s n =>
    simp only [call]
    exact .calm ht (.push_apart rfl rfl)

theorem move?_covers (h : e.move? m = some e') (hwork : m ≠ .work) (hanswer : ∀ a, m ≠ .answer a) :
    Covers e m e' := by
  cases m with
  | work => exact absurd rfl hwork
  | answer a => exact absurd rfl (hanswer a)
  | call c =>
    simp only [move?] at h
    split at h
    · rename_i hc
      rw [Bool.and_eq_true] at hc
      cases h
      exact call_covers hc.1 hc.2
    · cases h
  | forget o =>
    cases h
    unfold forget
    split
    · exact .enrol ⟨rfl, rfl, [], by simp⟩ (.forget rfl rfl)
    · exact .enrol ⟨rfl, rfl, [], by simp⟩ (.forget rfl rfl)
  | retire s =>
    cases h
    unfold retire
    split
    · exact .enrol ⟨rfl, rfl, [], by simp⟩ (.forget rfl rfl)
    · rename_i hx
      exact .enrol ⟨rfl, rfl, [], by simp⟩ (.retire rfl hx rfl rfl)

theorem Covers.step (h : Covers e m e') : Step e m e' := by
  cases h with
  | calm ht hc => exact .calm (.call ht) hc
  | enrol ha henrol => exact .enrol ha henrol
  | addReference ht hs hk hm => exact .addReference ht hs hk hm
  | deconstruct ht => exact .deconstruct ht

/-- What a move can do is a step. -/
theorem move?_step (h : e.move? m = some e') : Step e m e' := by
  cases m with
  | work => exact tick_step h
  | answer a => exact answer_step h
  | _ => exact (move?_covers h nofun nofun).step

end Inversion

end Engine
end LiveTypes
