import LiveTypes.Engine.Run

/-!
# Plain work

Most of what the engine does concerns nobody but the host: selections, inferences, relation checks
and validations change nothing but the stack and the log. `Plain` says so once for each of their
functions. What is left, the passes and the references, is in `Engine.Step`.
-/
namespace LiveTypes

variable {ν : Type}

/-! ## Frames and reports -/

/-- The purpose of the selection that an inference is for. -/
def InferenceUse.purpose? : InferenceUse ν → Option Purpose
  | .selection wanted => some wanted.purpose
  | _ => none

namespace Frame

/-- The purpose of the selection that a frame belongs to. -/
def purpose? : Frame ν → Option Purpose
  | .selecting selection _ => some selection.purpose
  | .expanding _ selection => some selection.purpose
  | .initializing _ selection => some selection.purpose
  | .inferring i => i.use.purpose?
  | .running _ i => i.use.purpose?
  | _ => none

/-- Whether a frame is neither a pass nor a removal nor a new start, and tells nobody anything. -/
def isPlain : Frame ν → Bool
  | .graphPass _ _ => false
  | .typeRemoval _ _ _ => false
  | .rulePass _ _ _ => false
  | .ruleRemoval _ _ => false
  | .referencePass _ _ _ => false
  | .restart _ => false
  | .telling _ _ => false
  | _ => true

/-- Whether no listener waits for a frame: it is no pass, or a pass that has told everyone. -/
def isSpent : Frame ν → Bool
  | .graphPass _ queue => queue.isEmpty
  | .rulePass _ _ queue => queue.isEmpty
  | .referencePass _ _ queue => queue.isEmpty
  | .restart _ => false
  | _ => true

/-- A frame that may be left by work for a selection with the given purpose. -/
structure PlainFor (p : Option Purpose) (f : Frame ν) : Prop where
  plain : f.isPlain
  purpose : ∀ r, f.purpose? = some (.resolution r) → p = some (.resolution r)

end Frame

/-- Whether a report is not about the type of a reference. -/
def Report.isPlain : Report ν → Bool
  | .log (.resolved _ _ _) => false
  | .log (.invalidated _ _ _) => false
  | _ => true

/-- The observer that a report tells of the graph, and what it tells. -/
def Report.hearing? : Report ν → Option (Observer × GraphEvent)
  | .ask (.tell o (.graph event)) => some (o, event)
  | _ => none

/-- The observer that a report tells something, and what it tells. -/
def Report.telling? : Report ν → Option (Observer × Notice)
  | .ask (.tell o notice) => some (o, notice)
  | _ => none

/-- A plain frame asks the host something, but tells it nothing. -/
theorem Frame.telling?_of_isPlain {f : Frame ν} (h : f.isPlain) {q : Question ν}
    (hq : f.question? = some q) : (Report.ask q).telling? = none := by
  cases f with
  | telling o notice => cases h
  | initializing i selection =>
    simp only [question?, Option.some.injEq] at hq
    subst hq
    split <;> rfl
  | running rule i => cases hq; rfl
  | expanding d selection => cases hq; rfl
  | checking check v => cases hq; rfl
  | wording provider v => cases hq; rfl
  | _ => cases hq

/-- Who is told nothing hears nothing of the graph. -/
theorem Report.hearing?_of_telling? {q : Report ν} (h : q.telling? = none) : q.hearing? = none := by
  unfold hearing?
  split
  · cases h
  · rfl

theorem Frame.hearing?_of_isPlain {f : Frame ν} (h : f.isPlain) {q : Question ν}
    (hq : f.question? = some q) : (Report.ask q).hearing? = none :=
  Report.hearing?_of_telling? (f.telling?_of_isPlain h hq)

namespace Engine

/-- What observers have been told of the graph, oldest first. -/
def hearings (e : Engine ν) : List (Observer × GraphEvent) := e.trace.filterMap Report.hearing?

/-- What observers have been told, oldest first. -/
def tellings (e : Engine ν) : List (Observer × Notice) := e.trace.filterMap Report.telling?

/-! ## Beginning a piece of work -/

/-- The engine with other work under way. -/
abbrev withStack (e : Engine ν) (stack : List (Frame ν)) : Engine ν := { e with stack }

section Push

variable (e : Engine ν) (f : Frame ν)

@[simp] theorem push_stack : (e.push f).stack = f :: e.stack := by
  unfold push; split <;> rfl

@[simp] theorem push_graph : (e.push f).graph = e.graph := by
  unfold push; split <;> rfl

@[simp] theorem push_listeners : (e.push f).listeners = e.listeners := by
  unfold push; split <;> rfl

@[simp] theorem push_systems : (e.push f).systems = e.systems := by
  unfold push; split <;> rfl

@[simp] theorem push_references : (e.push f).references = e.references := by
  unfold push; split <;> rfl

@[simp] theorem push_gone : (e.push f).gone = e.gone := by
  unfold push; split <;> rfl

/-- A frame that waits for nothing is not reported. -/
theorem push_eq {f : Frame ν} (h : f.question? = none) : e.push f = e.withStack (f :: e.stack) := by
  simp [push, h]

theorem hearings_report {q : Report ν} (h : q.hearing? = none) : (e.report q).hearings = e.hearings := by
  simp [hearings, report, h]

/-- A frame that tells nobody anything of the graph leaves it at what has been told. -/
theorem hearings_push {f : Frame ν} (h : ∀ q, f.question? = some q → (Report.ask q).hearing? = none) :
    (e.push f).hearings = e.hearings := by
  unfold push
  split
  · exact hearings_report _ (h _ ‹_›)
  · rfl

theorem tellings_report {q : Report ν} (h : q.telling? = none) : (e.report q).tellings = e.tellings := by
  simp [tellings, report, h]

/-- A frame that tells nobody anything leaves it at what has been told. -/
theorem tellings_push {f : Frame ν} (h : ∀ q, f.question? = some q → (Report.ask q).telling? = none) :
    (e.push f).tellings = e.tellings := by
  unfold push
  split
  · exact tellings_report _ (h _ ‹_›)
  · rfl

end Push

/-! ## Plain changes -/

/-- `e'` has more work under way than `e`, in frames of a certain kind, and more plain reports. -/
structure Grown (P : Frame ν → Prop) (e e' : Engine ν) : Prop where
  stack : ∃ frames, e'.stack = frames ++ e.stack ∧ ∀ f ∈ frames, P f
  trace : ∃ reports, e'.trace = e.trace ++ reports ∧ ∀ q ∈ reports, q.isPlain

namespace Grown

variable {P Q : Frame ν → Prop} {e e' e'' : Engine ν}

/-- Only the stack and the reports matter. -/
theorem of_eq (hs : e'.stack = e.stack) (ht : e'.trace = e.trace) : Grown P e e' :=
  ⟨⟨[], by simp [hs]⟩, ⟨[], by simp [ht]⟩⟩

theorem trans (h : Grown P e e') (h' : Grown P e' e'') : Grown P e e'' := by
  obtain ⟨frames, hf, hfp⟩ := h.stack
  obtain ⟨frames', hf', hfp'⟩ := h'.stack
  obtain ⟨reports, hq, hqp⟩ := h.trace
  obtain ⟨reports', hq', hqp'⟩ := h'.trace
  refine ⟨⟨frames' ++ frames, ?_, ?_⟩, ⟨reports ++ reports', ?_, ?_⟩⟩
  · rw [hf', hf, List.append_assoc]
  · intro f hm
    exact (List.mem_append.1 hm).elim (hfp' f) (hfp f)
  · rw [hq', hq, List.append_assoc]
  · intro q hm
    exact (List.mem_append.1 hm).elim (hqp q) (hqp' q)

theorem mono (hPQ : ∀ f, P f → Q f) (h : Grown P e e') : Grown Q e e' := by
  obtain ⟨frames, hf, hfp⟩ := h.stack
  exact ⟨⟨frames, hf, fun f hm => hPQ f (hfp f hm)⟩, h.trace⟩

theorem report {q : Report ν} (h : q.isPlain) : Grown P e (e.report q) :=
  ⟨⟨[], rfl, by simp⟩, ⟨[q], rfl, by simpa using h⟩⟩

theorem push {f : Frame ν} (h : P f) : Grown P e (e.push f) := by
  unfold Engine.push
  split
  · exact ⟨⟨[f], rfl, by simpa using h⟩, ⟨[_], rfl, by simp [Report.isPlain]⟩⟩
  · exact ⟨⟨[f], rfl, by simpa using h⟩, ⟨[], by simp⟩⟩

end Grown

/-- `e'` is `e` with plain frames on top and plain reports added, none of which tells anybody anything. -/
structure Plain (p : Option Purpose) (e e' : Engine ν) : Prop
    extends Grown (Frame.PlainFor p) e e' where
  graph : e'.graph = e.graph
  listeners : e'.listeners = e.listeners
  systems : e'.systems = e.systems
  references : e'.references = e.references
  gone : e'.gone = e.gone
  hearings : e'.hearings = e.hearings
  tellings : e'.tellings = e.tellings

namespace Plain

variable {p : Option Purpose} {e e' e'' : Engine ν}

theorem refl (p : Option Purpose) (e : Engine ν) : Plain p e e :=
  ⟨.of_eq rfl rfl, rfl, rfl, rfl, rfl, rfl, rfl, rfl⟩

theorem trans (h : Plain p e e') (h' : Plain p e' e'') : Plain p e e'' :=
  ⟨h.toGrown.trans h'.toGrown, h'.graph.trans h.graph, h'.listeners.trans h.listeners,
    h'.systems.trans h.systems, h'.references.trans h.references, h'.gone.trans h.gone,
    h'.hearings.trans h.hearings, h'.tellings.trans h.tellings⟩

theorem report {q : Report ν} (h : q.isPlain) (hq : q.telling? = none) : Plain p e (e.report q) :=
  ⟨.report h, rfl, rfl, rfl, rfl, rfl, hearings_report e (Report.hearing?_of_telling? hq),
    tellings_report e hq⟩

theorem log (entry : LogEntry) (h : (Report.log entry : Report ν).isPlain) :
    Plain p e (e.log entry) :=
  report h rfl

theorem finish (result : Result ν) : Plain p e (e.finish result) := report rfl rfl

theorem push {f : Frame ν} (h : f.PlainFor p) : Plain p e (e.push f) :=
  ⟨.push h, push_graph e f, push_listeners e f, push_systems e f, push_references e f, push_gone e f,
    hearings_push e fun _ => f.hearing?_of_isPlain h.plain, tellings_push e fun _ => f.telling?_of_isPlain h.plain⟩

/-- Frames that belong to no selection are plain for any purpose. -/
theorem push_apart {f : Frame ν} (h : f.isPlain) (hp : f.purpose? = none) : Plain p e (e.push f) :=
  push ⟨h, fun r hr => by simp [hp] at hr⟩

/-- What is not for a reference is plain for any purpose. -/
theorem apart (h : Plain p e e') (hp : ∀ r, p ≠ some (.resolution r)) : Plain none e e' :=
  { h with toGrown := h.toGrown.mono fun _ hf => ⟨hf.plain, fun r hr => absurd (hf.purpose r hr) (hp r)⟩ }

end Plain

/-! ## Selecting and inferring -/

section Selections

variable (e : Engine ν)

theorem plain_select {p : Option Purpose} (s : SystemId) (purpose : Purpose) (selector : Selector ν)
    (hp : ∀ r, purpose = .resolution r → p = some (.resolution r)) :
    Plain p e (e.select s purpose selector) :=
  .push ⟨rfl, fun r h => hp r (Option.some.inj h)⟩

theorem plain_infer {p : Option Purpose} (s : SystemId) (n : ν) (use : InferenceUse ν)
    (hp : use.purpose? = none ∨ use.purpose? = p) : Plain p e (e.infer s n use) := by
  refine .push ⟨rfl, fun r hr => ?_⟩
  have hr : use.purpose? = some (.resolution r) := hr
  rcases hp with hp | hp
  · simp [hp] at hr
  · rw [← hp, hr]

theorem plain_unselected (purpose : Purpose) (error : SelectError) :
    Plain (some purpose) e (e.unselected purpose error) := by
  unfold unselected
  split
  · exact .finish _
  · exact .finish _
  · exact .log _ rfl

theorem plain_tooDeep (selection : Selection ν) :
    Plain (some selection.purpose) e (e.tooDeep selection) := by
  unfold tooDeep
  split
  · exact plain_unselected e _ _
  · exact (Plain.log _ rfl).trans (plain_unselected _ _ _)

/-- A selection that found a type is over, or it gives the type to a reference. -/
theorem selected_cases (purpose : Purpose) (t : Ty) :
    Plain (some purpose) e (e.selected purpose t) ∨
      ∃ r, purpose = .resolution r ∧ e.selected purpose t = e.resolve r t := by
  cases purpose with
  | trial => exact .inl (.finish _)
  | demand => exact .inl (.finish _)
  | resolution r => exact .inr ⟨r, rfl, rfl⟩

theorem selectStep_cases (selection : Selection ν) (selector : Selector ν) :
    Plain (some selection.purpose) e (e.selectStep selection selector) ∨
      ∃ r t, selection.purpose = .resolution r ∧ e.selectStep selection selector = e.resolve r t := by
  have found : ∀ t, Plain (some selection.purpose) e (e.selected selection.purpose t) ∨
      ∃ r t', selection.purpose = .resolution r ∧ e.selected selection.purpose t = e.resolve r t' :=
    fun t => (selected_cases e _ t).imp id fun ⟨r, hp, hr⟩ => ⟨r, t, hp, hr⟩
  unfold selectStep
  split
  · exact .inl (plain_tooDeep e selection)
  · split
    · exact found _
    · split
      · exact found _
      · exact .inl (plain_unselected e _ _)
    · exact .inl (.push ⟨rfl, fun _ h => h⟩)
    · split
      · exact found _
      · exact .inl (.finish _)
      · exact .inl (.log _ rfl)
      · exact .inl (.push ⟨rfl, fun _ h => h⟩)
    · exact .inl (.push ⟨rfl, fun _ h => h⟩)
    · exact .inl (plain_infer e _ _ _ (.inr rfl))

end Selections

/-! ## Relation checks -/

section Checks

variable {p : Option Purpose} (e : Engine ν)

theorem plain_compareIn (comparisons : Comparisons) (relation : Relation) (actual expected : Ty) :
    Plain p e (e.compareIn comparisons relation actual expected).1 := by
  unfold compareIn
  split
  · exact .refl p e
  · dsimp only
    split
    · exact .log _ rfl
    · exact .refl p e

theorem plain_reportViolation (v : Violation ν) (details : ProblemDetails ν) :
    Plain p e (e.reportViolation v details) := by
  unfold reportViolation
  split
  · exact (Plain.log _ rfl).trans (.finish _)
  · exact .finish _

theorem plain_violated (system : System ν) (check : RelationCheck ν) (actual expected : Ty)
    (mismatches : List Mismatch) : Plain p e (e.violated system check actual expected mismatches) := by
  unfold violated
  split
  · exact .push_apart rfl rfl
  · exact plain_reportViolation e _ _

theorem plain_concludeCheck (check : RelationCheck ν) (actual expected : Option Ty) :
    Plain p e (e.concludeCheck check actual expected) := by
  unfold concludeCheck
  split
  · rename_i actual expected system _
    refine (plain_compareIn e system.comparisons check.relation actual expected).trans ?_
    generalize e.compareIn system.comparisons check.relation actual expected = compared
    obtain ⟨e, mismatch⟩ := compared
    refine .trans (.log (.relationChecked actual expected check.relation check.negated
      mismatch.isNone) rfl) ?_
    dsimp only
    split
    · exact plain_violated _ _ _ _ _ _
    · exact plain_violated _ _ _ _ _ _
    · exact .finish _
  · exact .finish _

theorem plain_relate (request : CheckRequest ν) : Plain p e (e.relate request) := by
  unfold relate
  split
  · exact .finish _
  · split
    · exact .push_apart rfl rfl
    · exact plain_infer e _ _ _ (.inl rfl)

theorem plain_relateStep (check : RelationCheck ν) (actual : Option Ty) :
    Plain p e (e.relateStep check actual) := by
  unfold relateStep
  split
  · exact plain_concludeCheck e _ _ _
  · exact plain_infer e _ _ _ (.inl rfl)

end Checks

/-! ## What an inference comes to -/

theorem inferred_cases (e : Engine ν) (i : Inference ν)
    (outcome : Except (List InferenceProblem) Ty) :
    Plain i.use.purpose? e (e.inferred i outcome) ∨
      ∃ r t, i.use.purpose? = some (.resolution r) ∧ e.inferred i outcome = e.resolve r t := by
  unfold inferred
  split
  · exact .inl (.finish _)
  · exact .inl (.push_apart rfl rfl)
  · exact .inl (plain_concludeCheck e _ _ _)
  · rename_i selection huse
    simp only [huse, InferenceUse.purpose?]
    split
    · rename_i t
      exact (selected_cases e _ t).imp id fun ⟨r, hp, hr⟩ => ⟨r, t, by rw [hp], hr⟩
    · exact .inl (plain_unselected e _ _)

/-- A step of an inference never gives a reference its type: rules do. -/
theorem plain_inferStep (e : Engine ν) (i : Inference ν) : Plain i.use.purpose? e (e.inferStep i) := by
  unfold inferStep
  split
  · refine .trans (.log (.nothingInferred i.problems.length) rfl) ?_
    unfold inferred
    split
    · exact .finish _
    · exact .push_apart rfl rfl
    · exact plain_concludeCheck _ _ _ _
    · rename_i selection huse
      simp only [huse, InferenceUse.purpose?]
      exact plain_unselected _ _ _
  · exact .push ⟨rfl, fun _ h => h⟩

end Engine
end LiveTypes
