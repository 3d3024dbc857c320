import LiveTypes.Proofs.References

/-!
# Work of rounds

A notification pass, an inference and a validation have one thing in common: each calls somebody after
somebody. `Round` is any of them, and `Engine.registered` says whom one has to call that begins now.

`Engine.Restacks` says once what a move does to the stack: which rounds are new and have all their calls
before them, whom the round on top calls, when it goes on and when it is done with.
-/
namespace LiveTypes

variable {ν : Type}

/-- The type that leaves the graph with an event. -/
def GraphEvent.leaving? : GraphEvent → Option Ty
  | .removedType t _ => some t
  | _ => none

theorem GraphEvent.concerns_eq (event : GraphEvent) (watched : Option Ty) :
    event.concerns watched = (watched = none || watched = event.leaving?) := by
  cases event <;> cases watched <;> simp [concerns, leaving?]

/-! ## Whom a round calls -/

/-- Somebody whom the engine calls, and what with. -/
inductive Callee (ν : Type) where
  | graphListener (event : GraphEvent) (listener : GraphListener)
  | ruleListener (system : SystemId) (event : RuleEvent) (listener : RuleListener)
  | referenceListener (reference : ReferenceId) (event : ReferenceEvent) (listener : ReferenceListener)
  | rule (rule : Rule) (node : ν)
  | check (check : CheckTag) (node : ν)
deriving DecidableEq

namespace Callee

/-- What the host is asked when one of its parts is called. The engine's own parts ask nothing. -/
def question? : Callee ν → Option (Question ν)
  | .graphListener event (.observer o) => some (.tell o (.graph event))
  | .ruleListener s event (.observer o) => some (.tell o (.rule s event))
  | .referenceListener r event (.observer o) => some (.tell o (.reference r event))
  | .rule r n => some (.infer r n)
  | .check k n => some (.validate k n)
  | _ => none

/-- What a called listener does. Rules and checks only answer. -/
def react (e : Engine ν) : Callee ν → Engine ν
  | .graphListener event l => e.graphTurn event l
  | .ruleListener s event l => e.ruleTurn s event l
  | .referenceListener r event l => e.referenceTurn r event l
  | .rule _ _ => e
  | .check _ _ => e

end Callee

/-- Something that calls one after the other. -/
inductive Round (ν : Type) where
  | graph (event : GraphEvent)
  | rules (system : SystemId) (event : RuleEvent)
  | reference (reference : ReferenceId) (event : ReferenceEvent)
  | inference (system : SystemId) (node : ν)
  | validation (node : ν)
deriving DecidableEq

namespace Frame

/-- The round that a frame is. -/
def round? : Frame ν → Option (Round ν)
  | .graphPass event _ => some (.graph event)
  | .rulePass s event _ => some (.rules s event)
  | .referencePass r event _ => some (.reference r event)
  | .inferring i => some (.inference i.system i.node)
  | .running _ i => some (.inference i.system i.node)
  | .validating v => some (.validation v.node)
  | .checking _ v => some (.validation v.node)
  | _ => none

/-- Those whom a round has yet to call. -/
def left : Frame ν → List (Callee ν)
  | .graphPass event queue => queue.map (.graphListener event)
  | .rulePass s event queue => queue.map (.ruleListener s event)
  | .referencePass r event queue => queue.map (.referenceListener r event)
  | .inferring i => i.rules.map (.rule · i.node)
  | .running _ i => i.rules.map (.rule · i.node)
  | .validating v => v.checks.map (.check · v.node)
  | .checking _ v => v.checks.map (.check · v.node)
  | _ => []

/-- The next call of a round that is not waiting, and the round after it. -/
def call? : Frame ν → Option (Callee ν × Frame ν)
  | .graphPass event (l :: queue) => some (.graphListener event l, .graphPass event queue)
  | .rulePass s event (l :: queue) => some (.ruleListener s event l, .rulePass s event queue)
  | .referencePass r event (l :: queue) =>
    some (.referenceListener r event l, .referencePass r event queue)
  | .inferring ⟨s, n, use, rule :: rules, problems⟩ =>
    some (.rule rule n, .running rule ⟨s, n, use, rules, problems⟩)
  | .validating ⟨n, check :: checks, problems⟩ =>
    some (.check check n, .checking check ⟨n, checks, problems⟩)
  | _ => none

/-- What ends a round: it goes on with nobody left to call, or the rule it waits for infers a type. -/
def EndsBy (f : Frame ν) (m : Move ν) : Prop :=
  m = .work ∧ f.left = [] ∨
    ∃ s n t, f.round? = some (.inference s n) ∧ m = .answer (.outcome (.inferred t))

section Call

variable {f f' : Frame ν} {c : Callee ν}

theorem left_of_call (hc : f.call? = some (c, f')) : f.left = c :: f'.left := by
  unfold call? at hc
  split at hc <;> cases hc <;> rfl

theorem round?_of_call (hc : f.call? = some (c, f')) : f'.round? = f.round? := by
  unfold call? at hc
  split at hc <;> cases hc <;> rfl

/-- A round waits for the host only, and for the one it has just called. -/
theorem question?_of_call (hc : f.call? = some (c, f')) {q : Question ν} (hq : f'.question? = some q) :
    c.question? = some q := by
  unfold call? at hc
  split at hc <;> cases hc <;> first | exact hq | cases hq

end Call

end Frame

/-- The question of a report that asks one. -/
def Report.question? : Report ν → Option (Question ν)
  | .ask q => some q
  | _ => none

namespace Engine

/-- What the host has been asked, oldest first. -/
def asked (e : Engine ν) : List (Question ν) := e.trace.filterMap Report.question?

/-- The living that listen to everything or watch the type that leaves with the event, oldest subscription
first. -/
def audience (e : Engine ν) (event : GraphEvent) : List GraphListener :=
  (e.listeners.entries.filter fun x =>
    e.hearsGraph x.listener && (x.key = none || x.key = event.leaving?)).map (·.listener)

/-- Those whom a round has to call that a move begins here, in the order in which they were registered:
of the graph, the audience of the event; of a rule set, the living; of a reference, its observers and, if
it has a type, then its dependents. -/
def registered (e : Engine ν) (m : Move ν) : Round ν → List (Callee ν)
  | .graph event => (e.audience event).map (.graphListener event)
  | .rules s event =>
    match e.systems[s]? with
    | some y => (y.listeners.entries.filter (e.hearsRules ·.listener)).map
        fun x => .ruleListener s event x.listener
    | none => []
  | .reference r event =>
    match e.references[r]?, event with
    | some x, .resolved _ =>
      x.listeners.map (.referenceListener r event <| .observer ·) ++
        x.dependents.map (.referenceListener r event <| .dependent ·)
    | some x, .invalidated _ => x.listeners.map (.referenceListener r event <| .observer ·)
    | none, _ => []
  | .inference s n => (e.rulesOf s).map (.rule · n)
  | .validation n =>
    match m with
    | .call (.validate s _) => ((e.systems[s]?.map System.checks).getD []).map (.check · n)
    | _ => []

/-! ## New work -/

/-- `e'` has more work under way than `e`, in frames of a certain kind. -/
def Adds (P : Frame ν → Prop) (e e' : Engine ν) : Prop :=
  ∃ frames, e'.stack = frames ++ e.stack ∧ ∀ f ∈ frames, P f

namespace Adds

variable {P Q : Frame ν → Prop} {e e' e'' : Engine ν}

theorem of_eq (hs : e'.stack = e.stack) : Adds P e e' := ⟨[], by simp [hs]⟩

theorem push {f : Frame ν} (hf : P f) : Adds P e (e.push f) :=
  ⟨[f], push_stack e f, by simpa using hf⟩

theorem after (h : Adds P e e') (h' : Adds P e' e'') : Adds P e e'' := by
  obtain ⟨frames, hs, hp⟩ := h
  obtain ⟨frames', hs', hp'⟩ := h'
  refine ⟨frames' ++ frames, by rw [hs', hs, List.append_assoc], ?_⟩
  intro f hf
  exact (List.mem_append.1 hf).elim (hp' f) (hp f)

theorem of_stack (h : Adds P e' e'') (hs : e'.stack = e.stack) : Adds P e e'' := by
  unfold Adds at h ⊢
  rwa [hs] at h

theorem mono (h : Adds P e e') (hPQ : ∀ f, P f → Q f) : Adds Q e e' := by
  obtain ⟨frames, hs, hp⟩ := h
  exact ⟨frames, hs, fun f hf => hPQ f (hp f hf)⟩

end Adds

/-- A frame that is no round, or one that a move begins in `e` with all its calls before it. -/
def Opens (e : Engine ν) (m : Move ν) (f : Frame ν) : Prop :=
  ∀ round, f.round? = some round → f.question? = none ∧ f.left = e.registered m round

/-- What may follow an inference in its place. -/
def Ensues (e : Engine ν) (m : Move ν) (f : Frame ν) : Prop :=
  e.Opens m f ∧ ∀ s n, f.round? ≠ some (.inference s n)

section Work

variable {P : Frame ν → Prop} (e : Engine ν) (m : Move ν)

theorem opens_of_apart {f : Frame ν} (hf : f.round? = none) : e.Opens m f := by
  intro round hr
  rw [hf] at hr
  cases hr

theorem ensues_of_apart {f : Frame ν} (hf : f.round? = none) : e.Ensues m f :=
  ⟨e.opens_of_apart m hf, by simp [hf]⟩

theorem opens_push (f : Frame ν) : (e.push f).Opens m = e.Opens m := by
  unfold push
  split <;> rfl

/-- Work on top of a frame that is no round. -/
theorem Adds.atop {e e' : Engine ν} {m : Move ν} {f : Frame ν} (hf : f.round? = none)
    (h : Adds ((e.push f).Opens m) (e.push f) e') : Adds (e.Opens m) e e' :=
  .after (.push (e.opens_of_apart m hf)) (e.opens_push m f ▸ h)

/-! ### Passes -/

/-- A pass calls the audience of its event. -/
theorem listeners_eq_audience (event : GraphEvent) :
    e.listeners.listeners e.hearsGraph event.concerns = e.audience event := by
  simp [Registry.listeners, audience, GraphEvent.concerns_eq]

theorem opens_graphPass (event : GraphEvent) :
    e.Opens m (.graphPass event (e.listeners.listeners e.hearsGraph event.concerns)) := by
  intro round hr
  cases hr
  refine ⟨rfl, ?_⟩
  rw [Frame.left, registered, listeners_eq_audience]

theorem opens_rulePass {s : SystemId} {y : System ν} (hy : e.systems[s]? = some y) (event : RuleEvent) :
    e.Opens m (.rulePass s event (y.listeners.listeners e.hearsRules fun _ => true)) := by
  intro round hr
  cases hr
  refine ⟨rfl, ?_⟩
  simp [Frame.left, registered, Registry.listeners, hy]

/-- A pass over the listeners of the graph, after changes that leave them alone. -/
theorem adds_notifyGraph {e₁ : Engine ν} (hl : e₁.listeners = e.listeners) (hg : e₁.gone = e.gone)
    (event : GraphEvent) : Adds (e.Opens m) e₁ (e₁.notifyGraph event) := by
  rw [notifyGraph_eq, hl, hearsGraph_congr hg]
  exact ⟨[_], push_stack _ _, by simpa using opens_graphPass e m event⟩

/-- A pass over the listeners of a rule set, after changes that leave them alone. -/
theorem adds_notifyRules {e₁ : Engine ν} {s : SystemId} {y : System ν} (hy : e.systems[s]? = some y)
    (hl : e₁.systems[s]?.map System.listeners = some y.listeners) (hg : e₁.gone = e.gone)
    (event : RuleEvent) : Adds (e.Opens m) e₁ (e₁.notifyRules s event) := by
  obtain ⟨y₁, hy₁, hl⟩ := Option.map_eq_some_iff.1 hl
  rw [notifyRules_eq _ hy₁, hl, hearsRules_congr hg]
  exact ⟨[_], push_stack _ _, by simpa using opens_rulePass e m hy event⟩

theorem adds_removeEdge (edge : Edge) : Adds (e.Opens m) e (e.removeEdge edge) := by
  unfold removeEdge
  split
  · exact .of_stack (adds_notifyGraph e m rfl rfl _) rfl
  · exact .of_eq rfl

theorem adds_removeNode (t : Ty) (key : String) : Adds (e.Opens m) e (e.removeNode t key) :=
  .of_stack (adds_notifyGraph e m rfl rfl _) rfl

theorem adds_removeRule (s : SystemId) (id : RuleId) : Adds (e.Opens m) e (e.removeRule s id) := by
  unfold removeRule
  split
  · exact .of_eq rfl
  · rename_i rule hfound
    obtain ⟨y, hy, -⟩ := Option.bind_eq_some_iff.1 hfound
    exact .of_stack (adds_notifyRules e m hy (by simp [log, report, updateSystem, hy]) (by rfl) _) (by rfl)

/-! ### References -/

theorem adds_resolve (r : ReferenceId) (t : Ty) : Adds (e.Ensues m) e (e.resolve r t) := by
  rcases resolve_cases e r t with ⟨heq, -⟩ | ⟨x, subs, taken⟩
  · exact .of_eq (by rw [heq])
  · refine ⟨[_], taken.stack, ?_⟩
    simp only [List.mem_singleton, forall_eq]
    refine ⟨fun round hr => ?_, by simp [Frame.round?]⟩
    cases hr
    exact ⟨rfl, by simp [Frame.left, registered, taken.found, Function.comp_def]⟩

theorem adds_invalidate (r : ReferenceId) (t : Ty) : Adds (e.Opens m) e (e.invalidate r t) := by
  rcases invalidate_cases e r t with ⟨heq, -⟩ | ⟨x, watch, lost⟩
  · exact .of_eq (by rw [heq])
  · refine ⟨[_, _], lost.stack, ?_⟩
    simp only [List.mem_cons, List.not_mem_nil, or_false, forall_eq_or_imp, forall_eq]
    refine ⟨fun round hr => ?_, opens_of_apart e m rfl⟩
    cases hr
    exact ⟨rfl, by simp [Frame.left, registered, lost.found]⟩

theorem adds_attempt (hP : ∀ f, f.round? = none → P f) (r : ReferenceId) : Adds P e (e.attempt r) := by
  unfold attempt
  split
  · exact .of_eq rfl
  · split
    · exact .push (hP _ rfl)
    · exact .of_eq rfl

theorem adds_startResolving (hP : ∀ f, f.round? = none → P f) (r : ReferenceId) :
    Adds P e (e.startResolving r) := by
  rcases startResolving_cases e r with ⟨heq, -⟩ | ⟨x, -, -, heq⟩
  · exact .of_eq (by rw [heq])
  · rw [heq]
    exact adds_attempt (e.subscribe r x.system) hP r

/-! ### Selections, inferences and checks -/

theorem adds_infer (s : SystemId) (n : ν) (use : InferenceUse ν) : Adds (e.Opens m) e (e.infer s n use) := by
  refine .push fun round hr => ?_
  cases hr
  exact ⟨rfl, rfl⟩

theorem unselected_stack (purpose : Purpose) (error : SelectError) :
    (e.unselected purpose error).stack = e.stack := by
  cases purpose <;> rfl

theorem tooDeep_stack (selection : Selection ν) : (e.tooDeep selection).stack = e.stack := by
  unfold tooDeep
  split
  · exact unselected_stack _ _ _
  · exact unselected_stack _ _ _

theorem adds_selected (purpose : Purpose) (t : Ty) : Adds (e.Ensues m) e (e.selected purpose t) := by
  cases purpose with
  | trial => exact .of_eq rfl
  | demand => exact .of_eq rfl
  | resolution r => exact adds_resolve e m r t

theorem adds_selectStep (selection : Selection ν) (selector : Selector ν) :
    Adds (e.Opens m) e (e.selectStep selection selector) := by
  have found : ∀ purpose t, Adds (e.Opens m) e (e.selected purpose t) :=
    fun purpose t => (adds_selected e m purpose t).mono fun _ h => h.1
  unfold selectStep
  split
  · exact .of_eq (tooDeep_stack e selection)
  · split
    · exact found _ _
    · split
      · exact found _ _
      · exact .of_eq (unselected_stack _ _ _)
    · exact .push (opens_of_apart e m rfl)
    · split
      · exact found _ _
      · exact .of_eq rfl
      · exact .of_eq rfl
      · exact .push (opens_of_apart e m rfl)
    · exact .push (opens_of_apart e m rfl)
    · exact adds_infer e m _ _ _

theorem reportViolation_stack (v : Violation ν) (details : ProblemDetails ν) :
    (e.reportViolation v details).stack = e.stack := by
  unfold reportViolation
  split <;> rfl

theorem compareIn_stack (comparisons : Comparisons) (relation : Relation) (actual expected : Ty) :
    (e.compareIn comparisons relation actual expected).1.stack = e.stack := by
  unfold compareIn
  split
  · rfl
  · dsimp only
    split <;> rfl

theorem adds_violated (hP : ∀ f, f.round? = none → P f) (system : System ν) (check : RelationCheck ν)
    (actual expected : Ty) (mismatches : List Mismatch) :
    Adds P e (e.violated system check actual expected mismatches) := by
  unfold violated
  split
  · exact .push (hP _ rfl)
  · exact .of_eq (reportViolation_stack _ _ _)

theorem adds_concludeCheck (hP : ∀ f, f.round? = none → P f) (check : RelationCheck ν)
    (actual expected : Option Ty) : Adds P e (e.concludeCheck check actual expected) := by
  unfold concludeCheck
  split
  · rename_i actual expected system _
    have hstack := compareIn_stack e system.comparisons check.relation actual expected
    generalize e.compareIn system.comparisons check.relation actual expected = compared at hstack ⊢
    obtain ⟨e₁, mismatch⟩ := compared
    have logged : Adds P e e₁ := .of_eq hstack
    refine logged.after ?_
    dsimp only
    split
    · exact adds_violated _ hP _ _ _ _ _
    · exact adds_violated _ hP _ _ _ _ _
    · exact .of_eq rfl
  · exact .of_eq rfl

theorem adds_relate (request : CheckRequest ν) : Adds (e.Opens m) e (e.relate request) := by
  unfold relate
  split
  · exact .of_eq rfl
  · split
    · exact .push (opens_of_apart e m rfl)
    · exact adds_infer e m _ _ _

theorem adds_relateStep (check : RelationCheck ν) (actual : Option Ty) :
    Adds (e.Opens m) e (e.relateStep check actual) := by
  unfold relateStep
  split
  · exact adds_concludeCheck e (fun _ => e.opens_of_apart m) _ _ _
  · exact adds_infer e m _ _ _

theorem adds_inferred (i : Inference ν) (outcome : Except (List InferenceProblem) Ty) :
    Adds (e.Ensues m) e (e.inferred i outcome) := by
  unfold inferred
  split
  · exact .of_eq rfl
  · exact .push (ensues_of_apart e m rfl)
  · exact adds_concludeCheck e (fun _ => e.ensues_of_apart m) _ _ _
  · split
    · exact adds_selected e m _ _
    · exact .of_eq (unselected_stack _ _ _)

/-- An inference that has run all its rules. -/
theorem adds_inferStep {i : Inference ν} (hi : i.rules = []) : Adds (e.Ensues m) e (e.inferStep i) := by
  simp only [inferStep, hi]
  exact adds_inferred (e.log (.nothingInferred i.problems.length)) m i _

/-! ### Turns of listeners -/

theorem adds_react (c : Callee ν) : Adds (e.Opens m) e (c.react e) := by
  cases c with
  | graphListener event l =>
    cases l with
    | observer o => exact .push (opens_of_apart e m rfl)
    | system s =>
      simp only [Callee.react, graphTurn]
      split
      · exact .push (opens_of_apart e m rfl)
      · exact .of_eq rfl
    | reference r =>
      cases event with
      | addedType t key => exact adds_attempt e (fun _ => e.opens_of_apart m) r
      | removedType t key => exact adds_invalidate e m r t
      | addedEdge edge => exact .of_eq rfl
      | removedEdge edge => exact .of_eq rfl
  | ruleListener s event l =>
    cases l with
    | observer o => exact .push (opens_of_apart e m rfl)
    | reference r =>
      cases event with
      | added id boundTo => exact adds_attempt e (fun _ => e.opens_of_apart m) r
      | removed id boundTo => exact .of_eq rfl
  | referenceListener r event l =>
    cases l with
    | observer o => exact .push (opens_of_apart e m rfl)
    | dependent d =>
      cases event with
      | resolved t => exact adds_attempt e (fun _ => e.opens_of_apart m) d
      | invalidated t => exact .of_eq rfl
  | rule r n => exact .of_eq rfl
  | check k n => exact .of_eq rfl

theorem asked_push (f : Frame ν) : (e.push f).asked = e.asked ++ f.question?.toList := by
  unfold push
  split
  · rename_i hq
    simp [asked, report, Report.question?, hq]
  · rename_i hq
    simp [asked, hq]

theorem asked_attempt (r : ReferenceId) : (e.attempt r).asked = e.asked := by
  unfold attempt
  split
  · rfl
  · split
    · simp [select, asked_push, Frame.question?]
    · rfl

theorem asked_invalidate (r : ReferenceId) (t : Ty) : (e.invalidate r t).asked = e.asked := by
  rcases invalidate_cases e r t with ⟨heq, -⟩ | ⟨x, watch, lost⟩
  · rw [heq]
  · obtain ⟨text, htrace⟩ := lost.trace
    simp [asked, htrace, Report.question?]

/-- Of the listeners of the graph, only observers have a question to be asked. -/
theorem asked_graphTurn (event : GraphEvent) (l : GraphListener) :
    (e.graphTurn event l).asked = e.asked ++ (Callee.graphListener event l : Callee ν).question?.toList := by
  cases l with
  | observer o => exact asked_push e _
  | system s =>
    simp only [graphTurn, Callee.question?]
    split
    · simp [asked_push, Frame.question?]
    · simp
  | reference r => cases event <;> simp [graphTurn, Callee.question?, asked_attempt, asked_invalidate]

theorem asked_ruleTurn (s : SystemId) (event : RuleEvent) (l : RuleListener) :
    (e.ruleTurn s event l).asked = e.asked ++ (Callee.ruleListener s event l : Callee ν).question?.toList := by
  cases l with
  | observer o => exact asked_push e _
  | reference r => cases event <;> simp [ruleTurn, Callee.question?, asked_attempt]

theorem asked_referenceTurn (r : ReferenceId) (event : ReferenceEvent) (l : ReferenceListener) :
    (e.referenceTurn r event l).asked =
      e.asked ++ (Callee.referenceListener r event l : Callee ν).question?.toList := by
  cases l with
  | observer o => exact asked_push e _
  | dependent d => cases event <;> simp [referenceTurn, Callee.question?, asked_attempt]

/-- A call asks the host what the callee is to be asked, and nothing else. -/
theorem asked_call {f f' : Frame ν} {c : Callee ν} (hc : f.call? = some (c, f')) :
    (c.react (e.push f')).asked = e.asked ++ c.question?.toList := by
  unfold Frame.call? at hc
  split at hc <;> cases hc
  · rw [push_eq _ rfl]
    exact asked_graphTurn _ _ _
  · rw [push_eq _ rfl]
    exact asked_ruleTurn _ _ _ _
  · rw [push_eq _ rfl]
    exact asked_referenceTurn _ _ _ _
  -- rules and checks are asked by the frame that waits for them
  · exact asked_push e _
  · exact asked_push e _

/-! ### Calls of the host -/

/-- What a call does after it has noted what it will give back. -/
theorem Adds.delivering {e₁ e' : Engine ν} {result : Result ν}
    (h : Adds (e.Opens m) (e₁.push (.deliver result)) e') (hs : e₁.stack = e.stack) :
    Adds (e.Opens m) e e' :=
  .of_stack (.after (.push (opens_of_apart e m rfl)) h) hs

theorem adds_call (c : Call ν) : Adds (e.Opens (.call c)) e (e.call c) := by
  cases c with
  | addSystem config printer comparisons => exact .of_eq rfl
  | addType t key =>
    simp only [call]
    split
    · exact .of_eq rfl
    · exact .of_eq rfl
    · exact .delivering e _ (adds_notifyGraph e _ (by simp [log, report]) (by simp [log, report]) _) (by rfl)
  | removeType t =>
    simp only [call]
    split
    · exact .of_eq rfl
    · exact .delivering e _ (.push (opens_of_apart e _ rfl)) rfl
  | addEdge edge =>
    simp only [call]
    split
    · exact .of_eq rfl
    · exact .of_eq rfl
    · exact .delivering e _ (adds_notifyGraph e _ (by simp [log, report]) (by simp [log, report]) _) (by rfl)
  | removeEdge edge =>
    exact .atop rfl (adds_removeEdge (e.push (.deliver _)) _ edge)
  | listenToGraph o => exact .of_eq rfl
  | watchRemoval t o => exact .of_eq rfl
  | leaveGraph id => exact .of_eq rfl
  | compare relation actual expected =>
    exact .of_eq (compareIn_stack e .graph relation actual expected)
  | addRule s tag name boundTo =>
    simp only [call]
    split
    · exact .of_eq rfl
    · rename_i y hy
      refine .delivering e _ (adds_notifyRules e _ hy ?_ (by simp [log, report, updateSystem]) _) (by rfl)
      simp [log, report, updateSystem, hy]
  | removeRule s id =>
    exact .atop rfl (adds_removeRule (e.push (.deliver _)) _ s id)
  | listenToRules s o => exact .of_eq rfl
  | leaveRules s id => exact .of_eq rfl
  | infer s n => exact adds_infer e _ s n .inquiry
  | trySelect s selector => exact .push (opens_of_apart e _ rfl)
  | mustSelect s selector => exact .push (opens_of_apart e _ rfl)
  | addReference s selector =>
    refine .delivering e _ (adds_startResolving _ (fun _ => e.opens_of_apart _) _) ?_
    cases selector <;> rfl
  | listenToReference r o inform =>
    simp only [call]
    split
    · split
      · exact .delivering e _ (.push (opens_of_apart e _ rfl)) rfl
      · exact .delivering e _ (.push (opens_of_apart e _ rfl)) rfl
    · exact .delivering e _ (.of_eq rfl) rfl
  | leaveReference r o => exact .of_eq rfl
  | deconstruct r =>
    have hstack : (e.deconstruct r).stack = e.stack := by
      rcases deconstruct_cases e r with heq | ⟨x, stopped⟩
      · rw [heq]
      · exact stopped.stack
    exact .of_eq hstack
  | relate request => exact adds_relate e _ request
  | addChecks s checks => exact .of_eq rfl
  | validate s n =>
    refine .push fun round hr => ?_
    cases hr
    refine ⟨rfl, ?_⟩
    simp only [Frame.left, registered]
    cases e.systems[s]? <;> rfl

end Work

/-- The next call of the round on top is what the engine does next. -/
theorem tick_of_call {e : Engine ν} {f f' : Frame ν} {rest : List (Frame ν)} {c : Callee ν}
    (hs : e.stack = f :: rest) (hc : f.call? = some (c, f')) :
    e.tick = some (c.react ((e.withStack rest).push f')) := by
  unfold Frame.call? at hc
  split at hc <;> cases hc <;> simp only [tick, hs] <;> rfl

/-- A round that is on top and not waiting goes on. -/
theorem tick_of_round {e : Engine ν} {f : Frame ν} {rest : List (Frame ν)} (hs : e.stack = f :: rest)
    (hr : f.round? ≠ none) (hq : f.question? = none) : ∃ e', e.tick = some e' := by
  cases f with
  | graphPass event queue => cases queue <;> exact ⟨_, by simp only [tick, hs]; rfl⟩
  | rulePass s event queue => cases queue <;> exact ⟨_, by simp only [tick, hs]; rfl⟩
  | referencePass r event queue => cases queue <;> exact ⟨_, by simp only [tick, hs]; rfl⟩
  | inferring i => exact ⟨_, by simp only [tick, hs]; rfl⟩
  | validating v =>
    obtain ⟨n, checks, problems⟩ := v
    cases checks <;> exact ⟨_, by simp only [tick, hs]; rfl⟩
  | running rule i => cases hq
  | checking check v => cases hq
  | _ => exact absurd rfl hr

/-! ## What a move does to the work under way -/

/-- What a move does to the stack. -/
inductive Restacks (e : Engine ν) (m : Move ν) (e' : Engine ν) : Prop
  /-- New work goes on top of all that is under way. -/
  | covers : m ≠ .work → (∀ a, m ≠ .answer a) → Adds (e.Opens m) e e' → Restacks e m e'
  /-- The round on top calls somebody. -/
  | calls {f f' : Frame ν} {rest : List (Frame ν)} {c : Callee ν} :
    m = .work → e.stack = f :: rest → f.call? = some (c, f') →
    e' = c.react ((e.withStack rest).push f') → Restacks e m e'
  /-- The round on top goes on after an answer. -/
  | hears {f f' : Frame ν} {rest : List (Frame ν)} {a : Answer ν} :
    m = .answer a → (∀ t, a ≠ .outcome (.inferred t)) → e.stack = f :: rest → e'.stack = f' :: rest →
    f'.round? = f.round? → f'.left = f.left → f'.question? = none → Restacks e m e'
  /-- The frame on top is done with, and other work may take its place. -/
  | leaves {f : Frame ν} {rest : List (Frame ν)} :
    e.stack = f :: rest →
    (f.round? ≠ none → f.EndsBy m) →
    Adds (fun g => e.Opens m g ∧ (f.round? ≠ none → g.round? ≠ f.round?)) (e.withStack rest) e' →
    Restacks e m e'

section Restacking

variable {e e' : Engine ν} {m : Move ν} {f : Frame ν} {rest : List (Frame ν)}

/-- Work in place of a frame that is no round. -/
theorem Restacks.apart (hs : e.stack = f :: rest) (hf : f.round? = none)
    (h : Adds ((e.withStack rest).Opens m) (e.withStack rest) e') : Restacks e m e' :=
  .leaves hs (absurd hf) (h.mono fun _ hg => ⟨hg, absurd hf⟩)

/-- Work in place of an inference. -/
theorem Restacks.inferred {s : SystemId} {n : ν} (hs : e.stack = f :: rest)
    (hf : f.round? = some (.inference s n)) (hm : f.EndsBy m)
    (h : Adds ((e.withStack rest).Ensues m) (e.withStack rest) e') : Restacks e m e' :=
  .leaves hs (fun _ => hm) (h.mono fun _ hg => ⟨hg.1, fun _ => hf ▸ hg.2 s n⟩)

theorem tick_restacks (h : e.tick = some e') : Restacks e .work e' := by
  unfold tick at h
  split at h
  · cases h
  · rename_i frame rest hs
    dsimp only at h
    cases frame with
    | deliver result =>
      cases h
      exact .apart hs rfl (.of_eq rfl)
    | graphPass event queue =>
      cases queue with
      | nil =>
        cases h
        exact .leaves hs (fun _ => .inl ⟨rfl, rfl⟩) (.of_eq rfl)
      | cons l queue =>
        cases h
        exact .calls rfl hs rfl rfl
    | typeRemoval t key edges =>
      cases edges with
      | nil =>
        cases h
        exact .apart hs rfl (adds_removeNode _ _ t key)
      | cons edge edges =>
        cases h
        exact .apart hs rfl (.atop rfl (adds_removeEdge (push _ (.typeRemoval t key edges)) _ edge))
    | rulePass s event queue =>
      cases queue with
      | nil =>
        cases h
        exact .leaves hs (fun _ => .inl ⟨rfl, rfl⟩) (.of_eq rfl)
      | cons l queue =>
        cases h
        exact .calls rfl hs rfl rfl
    | ruleRemoval s ids =>
      cases ids with
      | nil =>
        cases h
        exact .apart hs rfl (.of_eq rfl)
      | cons id ids =>
        cases h
        exact .apart hs rfl (.atop rfl (adds_removeRule (push _ (.ruleRemoval s ids)) _ s id))
    | referencePass r event queue =>
      cases queue with
      | nil =>
        cases h
        exact .leaves hs (fun _ => .inl ⟨rfl, rfl⟩) (.of_eq rfl)
      | cons l queue =>
        cases h
        exact .calls rfl hs rfl rfl
    | restart r =>
      cases h
      exact .apart hs rfl (adds_startResolving _ (fun _ => opens_of_apart _ _) r)
    | selecting selection selector =>
      cases h
      exact .apart hs rfl (adds_selectStep _ _ selection selector)
    | inferring i =>
      obtain ⟨s, n, use, rules, problems⟩ := i
      cases rules with
      | nil =>
        cases h
        exact .inferred hs rfl (.inl ⟨rfl, rfl⟩) (adds_inferStep _ _ rfl)
      | cons rule rules =>
        cases h
        exact .calls rfl hs rfl rfl
    | relating check actual =>
      cases h
      exact .apart hs rfl (adds_relateStep _ _ check actual)
    | validating v =>
      obtain ⟨n, checks, problems⟩ := v
      cases checks with
      | nil =>
        cases h
        exact .leaves hs (fun _ => .inl ⟨rfl, rfl⟩) (.of_eq rfl)
      | cons check checks =>
        cases h
        exact .calls rfl hs rfl rfl
    | telling o notice => cases h
    | running rule i => cases h
    | expanding d selection => cases h
    | initializing i selection => cases h
    | checking check v => cases h
    | wording provider v => cases h

theorem answer_restacks {a : Answer ν} (h : e.answer a = some e') : Restacks e (.answer a) e' := by
  unfold answer at h
  split at h
  · cases h
  · rename_i frame rest hs
    dsimp only at h
    split at h <;> cases h
    · exact .apart hs rfl (.of_eq rfl)
    · exact .inferred hs rfl (.inr ⟨_, _, _, rfl, rfl⟩) (adds_inferred _ _ _ _)
    · exact .hears rfl nofun hs (push_stack _ _) rfl rfl rfl
    · exact .hears rfl nofun hs (push_stack _ _) rfl rfl rfl
    · exact .apart hs rfl (.push (opens_of_apart _ _ rfl))
    · exact .apart hs rfl ((adds_selected _ _ _ _).mono fun _ hg => hg.1)
    · exact .hears rfl nofun hs (push_stack _ _) rfl rfl rfl
    · exact .apart hs rfl (.of_eq (reportViolation_stack _ _ _))

theorem move?_restacks (h : e.move? m = some e') : Restacks e m e' := by
  cases m with
  | call c =>
    simp only [move?] at h
    split at h <;> cases h
    exact .covers (by simp) (by simp) (adds_call e c)
  | answer a => exact answer_restacks h
  | work => exact tick_restacks h
  | forget o =>
    cases h
    refine .covers (by simp) (by simp) (.of_eq ?_)
    unfold forget
    split <;> rfl
  | retire s =>
    cases h
    refine .covers (by simp) (by simp) (.of_eq ?_)
    unfold retire
    split <;> rfl

end Restacking

end Engine
end LiveTypes
