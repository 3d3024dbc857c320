import LiveTypes.Proofs.Evaluation
import Mathlib.Data.Prod.Lex

/-!
# What a selection comes to, hop by hop

A selection goes from selector to selector until it is at one without a hop, and what that one gives is
its result. If all that the host will answer is known in advance, so is the result. `Oracle.select` is the
result as a function of the engine's state, for trials and for demands alike, and `Oracle.verdict` says
the same of a selection that is under way: each of its steps keeps the verdict and leaves less to do, and
its end delivers the verdict. So every selection of the host comes to an end, with that result.
-/
namespace LiveTypes

variable {ν : Type}

/-! ## What is known of the host -/

/-- What rules come to that are tried one after the other, with the problems so far. -/
def inferBy (yields : Rule → Outcome) :
    List InferenceProblem → List Rule → Except (List InferenceProblem) Ty
  | problems, [] => .error problems
  | problems, rule :: rules =>
    match yields rule with
    | .inferred t => .ok t
    | .notApplicable => inferBy yields problems rules
    | .problem message => inferBy yields (problems ++ [⟨rule.name, message⟩]) rules

/-- The problem that a rule reports, given what it makes of the value. -/
def Rule.problem? (rule : Rule) : Outcome → Option InferenceProblem
  | .problem message => some ⟨rule.name, message⟩
  | _ => none

/-- Of rules that are tried one after the other, the first that infers a type counts. -/
theorem inferBy_toOption (yields : Rule → Outcome) (problems : List InferenceProblem) (rules : List Rule) :
    (inferBy yields problems rules).toOption = rules.findSome? fun rule => (yields rule).type? := by
  induction rules generalizing problems with
  | nil => rfl
  | cons rule rules ih =>
    simp only [inferBy, List.findSome?_cons]
    cases yields rule with
    | inferred t => rfl
    | notApplicable => exact ih problems
    | problem message => exact ih _

/-- The rule that decides is the first that infers a type. -/
theorem inferBy_eq_ok {yields : Rule → Outcome} {problems : List InferenceProblem} {rules : List Rule} {t : Ty} :
    inferBy yields problems rules = .ok t ↔ ∃ before rule after, rules = before ++ rule :: after ∧
      yields rule = .inferred t ∧ ∀ earlier ∈ before, ∀ t', yields earlier ≠ .inferred t' := by
  have htype : ∀ rule, (yields rule).type? = some t ↔ yields rule = .inferred t := by
    intro rule
    cases yields rule <;> simp [Outcome.type?]
  have hnone : ∀ rule, (yields rule).type? = none ↔ ∀ t', yields rule ≠ .inferred t' := by
    intro rule
    cases yields rule <;> simp [Outcome.type?]
  have hoption : inferBy yields problems rules = .ok t ↔ (inferBy yields problems rules).toOption = some t := by
    cases inferBy yields problems rules <;> simp [Except.toOption]
  rw [hoption, inferBy_toOption, List.findSome?_eq_some_iff]
  simp only [htype, hnone]

/-- If no rule infers a type, all that they report counts. -/
theorem inferBy_eq_error {yields : Rule → Outcome} {problems found : List InferenceProblem} {rules : List Rule} :
    inferBy yields problems rules = .error found ↔ (∀ rule ∈ rules, ∀ t, yields rule ≠ .inferred t) ∧
      found = problems ++ rules.filterMap fun rule => rule.problem? (yields rule) := by
  induction rules generalizing problems with
  | nil => simp [inferBy, eq_comm]
  | cons rule rules ih => cases hy : yields rule <;> simp [inferBy, hy, ih, Rule.problem?]

/-- Whether a selection for this purpose is authoritative. -/
def Purpose.must : Purpose → Bool
  | .demand => true
  | _ => false

/-- How the host hears what a selection of its own came to. -/
def Purpose.result : Purpose → Except SelectError Ty → Result ν
  | .demand, outcome => .selection outcome
  | _, outcome => .trial outcome.toOption

/-- A host of which all is known that a selection or a check asks. What a deferred selector expands to may
depend on how many hops are left. -/
structure Oracle (ν : Type) extends Host ν where
  final : Initializer → Ty
  expand : Nat → Deferral → Selector ν
  details : ProviderTag → AnnotatedType → AnnotatedType → ProblemDetails ν

/-- What a selection makes of an inference that is over. -/
def Engine.judge (e : Engine ν) (s : SystemId) (n : ν) :
    Except (List InferenceProblem) Ty → Except SelectError Ty
  | .ok t => .ok t
  | .error problems =>
    .error (.uninferable (match e.systems[s]? with
      | some system => system.printer.node n false
      | none => "") problems)

namespace Oracle

/-- The handle of a type under construction: the final one for who must have it. -/
def handle (o : Oracle ν) (must : Bool) (i : Initializer) : Ty := if must then o.final i else o.initial i

/-- Whether an answer is what this host says to what a frame waits for. -/
def Answers (o : Oracle ν) (f : Frame ν) (a : Answer ν) : Prop :=
  (∀ q, f.question? = some q → o.toHost.Answers q a) ∧
    match f with
    | .initializing i selection => selection.purpose.must → a = .type (o.final i)
    | .expanding d selection => a = .selector (o.expand selection.hopsLeft d)
    | .wording provider v => a = .details (o.details provider v.actual v.expected)
    | _ => True

section Answers

variable {o : Oracle ν} {a : Answer ν} {selection : Selection ν}

theorem answers_running {rule : Rule} {i : Inference ν} :
    o.Answers (.running rule i) a ↔ a = .outcome (o.outcome rule i.node) := by
  simp [Answers, Frame.question?, Host.Answers]

theorem answers_initializing {i : Initializer} :
    o.Answers (.initializing i selection) a ↔ a = .type (o.handle selection.purpose.must i) := by
  cases hp : selection.purpose <;> simp [Answers, Frame.question?, Host.Answers, handle, Purpose.must, hp]

theorem answers_expanding {d : Deferral} :
    o.Answers (.expanding d selection) a ↔ a = .selector (o.expand selection.hopsLeft d) := by
  simp [Answers, Frame.question?, Host.Answers]

theorem answers_wording {provider : ProviderTag} {v : Violation ν} :
    o.Answers (.wording provider v) a ↔ a = .details (o.details provider v.actual v.expected) := by
  simp [Answers, Frame.question?, Host.Answers]

end Answers

/-! ## The result -/

/-- The selector that a selection goes on with. A demand goes on from a reference without a type, too. -/
def hop? (o : Oracle ν) (e : Engine ν) (must : Bool) (left : Nat) : Selector ν → Option (Selector ν)
  | .deferred d => some (o.expand left d)
  | .reference r => if must && (e.typeOf? r).isNone then some (e.selectorOf r) else none
  | _ => none

/-- The first selector without a hop, if there are not more selectors up to it than allowed. -/
def leaf? (o : Oracle ν) (e : Engine ν) (must : Bool) : Nat → Selector ν → Option (Selector ν)
  | 0, _ => none
  | left + 1, selector =>
    match o.hop? e must left selector with
    | some next => o.leaf? e must left next
    | none => some selector

/-- What the deferred hops of a selector end at. -/
def expansion? (o : Oracle ν) : Nat → Selector ν → Option (Selector ν)
  | 0, _ => none
  | left + 1, .deferred d => o.expansion? left (o.expand left d)
  | _ + 1, selector => some selector

/-- What a selector without a hop gives. -/
def take (o : Oracle ν) (e : Engine ν) (s : SystemId) (must : Bool) :
    Selector ν → Except SelectError Ty
  | .type t => .ok t
  | .identifier key => (e.graph.get? key).elim (.error (.unresolved key)) .ok
  | .initializer i => .ok (o.handle must i)
  | .reference r => (e.typeOf? r).elim (.error (.unresolved "")) .ok
  | .deferred _ => .error (.unresolved "")
  | .node n => e.judge s n (inferBy (o.outcome · n) [] (e.rulesOf s))

/-- What a selection comes to. -/
def select (o : Oracle ν) (e : Engine ν) (s : SystemId) (must : Bool) (left : Nat)
    (selector : Selector ν) : Except SelectError Ty :=
  match o.leaf? e must left selector with
  | some leaf => o.take e s must leaf
  | none => .error (.tooDeep (e.limitOf s))

section Select

variable {o : Oracle ν} {e e' : Engine ν} {s : SystemId} {must : Bool} {left : Nat}
  {selector next : Selector ν}

theorem select_hop (h : o.hop? e must left selector = some next) :
    o.select e s must (left + 1) selector = o.select e s must left next := by
  simp only [select, leaf?, h]

/-- A trial goes through deferred hops only. -/
theorem leaf?_trial : o.leaf? e false left selector = o.expansion? left selector := by
  induction left generalizing selector with
  | zero => rfl
  | succ left ih =>
    cases selector with
    | deferred d => exact ih
    | _ => rfl

/-- What a selection comes to depends on the graph, the type systems and the references only. -/
theorem select_congr (hg : e'.graph = e.graph) (hs : e'.systems = e.systems)
    (hr : e'.references = e.references) :
    o.select e' s must left selector = o.select e s must left selector := by
  have typeOf?_eq : e'.typeOf? = e.typeOf? := by
    funext r
    simp only [Engine.typeOf?, hr]
  have hop?_eq : ∀ left selector, o.hop? e' must left selector = o.hop? e must left selector := by
    intro left selector
    cases selector <;> simp only [hop?, typeOf?_eq, Engine.selectorOf, hr]
  have leaf?_eq : ∀ left selector, o.leaf? e' must left selector = o.leaf? e must left selector := by
    intro left
    induction left with
    | zero => exact fun _ => rfl
    | succ left ih =>
      intro selector
      simp only [leaf?, hop?_eq, ih]
  have take_eq : ∀ leaf, o.take e' s must leaf = o.take e s must leaf := by
    intro leaf
    cases leaf <;> simp only [take, hg, typeOf?_eq, Engine.rulesOf, hs]
    case node n => cases inferBy (o.outcome · n) [] _ <;> simp only [Engine.judge, hs]
  simp only [select, leaf?_eq, take_eq, Engine.limitOf, hs]

end Select

/-- What the selection that a frame belongs to comes to. A rule that is running is still ahead. -/
def verdict (o : Oracle ν) (e : Engine ν) : Frame ν → Except SelectError Ty
  | .selecting selection selector =>
    o.select e selection.system selection.purpose.must selection.hopsLeft selector
  | .expanding d selection =>
    o.select e selection.system selection.purpose.must selection.hopsLeft (o.expand selection.hopsLeft d)
  | .initializing i selection => .ok (o.handle selection.purpose.must i)
  | .inferring i => e.judge i.system i.node (inferBy (o.outcome · i.node) i.problems i.rules)
  | .running rule i => e.judge i.system i.node (inferBy (o.outcome · i.node) i.problems (rule :: i.rules))
  | _ => .error (.unresolved "")

/-- A step that leaves graph, type systems and references alone leaves every verdict. -/
theorem verdict_congr {o : Oracle ν} {e e' : Engine ν} (hg : e'.graph = e.graph)
    (hs : e'.systems = e.systems) (hr : e'.references = e.references) (f : Frame ν) :
    o.verdict e' f = o.verdict e f := by
  have judge_eq : ∀ s n outcome, e'.judge s n outcome = e.judge s n outcome := by
    intro s n outcome
    cases outcome <;> simp only [Engine.judge, hs]
  cases f <;> simp only [verdict, select_congr hg hs hr, judge_eq]

end Oracle

/-! ## The steps of an inference -/

/-- How many hops the selection has left that an inference is for. -/
def InferenceUse.hopsLeft : InferenceUse ν → Nat
  | .selection wanted => wanted.hopsLeft
  | _ => 0

/-- What is left to do for a selection or an inference: hops first, then rules. -/
def Frame.effort : Frame ν → Nat ×ₗ Nat
  | .selecting selection _ => toLex (selection.hopsLeft, 0)
  | .expanding _ selection => toLex (selection.hopsLeft, 1)
  | .initializing _ selection => toLex (selection.hopsLeft, 0)
  | .inferring i => toLex (i.use.hopsLeft, 2 * i.rules.length)
  | .running _ i => toLex (i.use.hopsLeft, 2 * i.rules.length + 1)
  | _ => toLex (0, 0)

/-- The inference that a frame belongs to; a rule that is running is still ahead. -/
def Frame.inference? : Frame ν → Option (Inference ν)
  | .inferring i => some i
  | .running rule i => some { i with rules := rule :: i.rules }
  | _ => none

namespace Engine

section Inferences

variable {yields : Rule → Outcome} {e e' : Engine ν} {rest : List (Frame ν)} {s : SystemId} {n : ν}
  {use : InferenceUse ν} {rules : List Rule} {problems : List InferenceProblem}

/-- What comes of an inference by one step: it goes on to the same result, or it is over. -/
inductive Infers (yields : Rule → Outcome) (e : Engine ν) (f : Frame ν) (rest : List (Frame ν))
    (s : SystemId) (n : ν) (use : InferenceUse ν) (outcome : Except (List InferenceProblem) Ty) :
    Engine ν → Prop
  | onward {f' : Frame ν} {rules : List Rule} {problems : List InferenceProblem} {e' : Engine ν} :
    Plain use.purpose? (e.withStack rest) e' → e'.stack = f' :: rest →
    f'.inference? = some ⟨s, n, use, rules, problems⟩ → f'.effort < f.effort →
    inferBy yields problems rules = outcome → Infers yields e f rest s n use outcome e'
  | concluded {e₁ : Engine ν} {i : Inference ν} :
    Plain none (e.withStack rest) e₁ → e₁.stack = rest → i.system = s → i.node = n → i.use = use →
    Infers yields e f rest s n use outcome (e₁.inferred i outcome)

theorem Infers.push {f : Frame ν} {outcome : Except (List InferenceProblem) Ty} (f' : Frame ν)
    (hf : f'.inference? = some ⟨s, n, use, rules, problems⟩) (hplain : f'.isPlain)
    (hp : f'.purpose? = use.purpose?) (he : f'.effort < f.effort)
    (ho : inferBy yields problems rules = outcome) :
    Infers yields e f rest s n use outcome ((e.withStack rest).push f') :=
  .onward (.push ⟨hplain, fun _ hr => hp.symm.trans hr⟩) (push_stack _ _) hf he ho

theorem tick_infers (hs : e.stack = .inferring ⟨s, n, use, rules, problems⟩ :: rest)
    (ht : e.tick = some e') :
    Infers yields e (.inferring ⟨s, n, use, rules, problems⟩) rest s n use (inferBy yields problems rules)
      e' := by
  simp only [tick, hs, Option.some.injEq] at ht
  subst ht
  cases rules with
  | nil => exact .concluded (.log (.nothingInferred problems.length) rfl) rfl rfl rfl rfl
  | cons rule rules =>
    refine .push (.running rule ⟨s, n, use, rules, problems⟩) rfl rfl rfl ?_ rfl
    refine Prod.Lex.toLex_lt_toLex.2 (.inr ⟨rfl, ?_⟩)
    simp only [List.length_cons]
    omega

theorem answer_infers {rule : Rule}
    (hs : e.stack = .running rule ⟨s, n, use, rules, problems⟩ :: rest)
    (ha : e.answer (.outcome (yields rule)) = some e') :
    Infers yields e (.running rule ⟨s, n, use, rules, problems⟩) rest s n use
      (inferBy yields problems (rule :: rules)) e' := by
  have less : ∀ problems', (Frame.inferring ⟨s, n, use, rules, problems'⟩).effort <
      (Frame.running rule ⟨s, n, use, rules, problems⟩).effort := by
    intro problems'
    exact Prod.Lex.toLex_lt_toLex.2 (.inr ⟨rfl, Nat.lt_succ_self _⟩)
  simp only [inferBy]
  cases ho : yields rule with
  | inferred t =>
    simp only [answer, hs, ho, Option.some.injEq] at ha
    subst ha
    exact .concluded (.refl _ _) rfl rfl rfl rfl
  | notApplicable =>
    simp only [answer, hs, ho, Option.some.injEq] at ha
    subst ha
    exact .push (.inferring ⟨s, n, use, rules, problems⟩) rfl rfl rfl (less _) rfl
  | problem message =>
    simp only [answer, hs, ho, Option.some.injEq] at ha
    subst ha
    exact .push (.inferring ⟨s, n, use, rules, problems ++ [⟨rule.name, message⟩]⟩) rfl rfl rfl (less _) rfl

end Inferences

/-! ## The steps of a selection -/

/-- What comes of a selection by one step: it goes on to the same verdict, or it ends with it. -/
inductive Advances (o : Oracle ν) (p : Purpose) (e : Engine ν) (f : Frame ν) (rest : List (Frame ν)) :
    Engine ν → Prop
  | onward {f' : Frame ν} {e' : Engine ν} :
    Plain (some p) (e.withStack rest) e' → e'.stack = f' :: rest → f'.purpose? = some p →
    f'.effort < f.effort → o.verdict e' f' = o.verdict e f → Advances o p e f rest e'
  | nothing {e₁ : Engine ν} {error : SelectError} :
    Plain none (e.withStack rest) e₁ → e₁.stack = rest → o.verdict e f = .error error →
    Advances o p e f rest (e₁.unselected p error)
  | found {e₁ : Engine ν} {t : Ty} :
    Plain none (e.withStack rest) e₁ → e₁.stack = rest → o.verdict e f = .ok t →
    Advances o p e f rest (e₁.selected p t)

section Selections

variable {o : Oracle ν} {e e' : Engine ν} {rest : List (Frame ν)} {p : Purpose} {f : Frame ν}

/-- Plain work leaves every verdict. -/
theorem Plain.verdict {q : Option Purpose} (h : Plain q (e.withStack rest) e') :
    o.verdict e' f = o.verdict e f :=
  Oracle.verdict_congr (e := e) h.graph h.systems h.references f

theorem Advances.push (f' : Frame ν) (hf : f'.isPlain) (hp : f'.purpose? = some p)
    (he : f'.effort < f.effort) (hv : o.verdict e f' = o.verdict e f) :
    Advances o p e f rest ((e.withStack rest).push f') := by
  have hplain : Plain (some p) (e.withStack rest) ((e.withStack rest).push f') :=
    .push ⟨hf, fun _ hr => hp.symm.trans hr⟩
  exact .onward hplain (push_stack _ _) hp he (hplain.verdict.trans hv)

/-- A hop counts more than all that can be done at one place. -/
theorem effort_lt_of_hop {left : Nat} (k m : Nat) : toLex (left, k) < toLex (left + 1, m) := by
  simp [Prod.Lex.toLex_lt_toLex]

/-- A reference that has a type gives it. Without a type it ends a trial, and a demand reads on. -/
theorem selectReference_advances {s : SystemId} {purpose : Purpose} {left : Nat} {trail : List (Selector ν)}
    {r : ReferenceId} :
    Advances o purpose e (.selecting ⟨s, purpose, left + 1, trail⟩ (.reference r)) rest
      ((e.withStack rest).selectStep ⟨s, purpose, left + 1, trail⟩ (.reference r)) := by
  cases ht : e.typeOf? r with
  | some t =>
    have hsel : (e.withStack rest).selectStep ⟨s, purpose, left + 1, trail⟩ (.reference r) =
        (e.withStack rest).selected purpose t := by
      have ht : (e.withStack rest).typeOf? r = some t := ht
      simp only [selectStep, ht]
    rw [hsel]
    refine .found (.refl _ _) rfl ?_
    simp [Oracle.verdict, Oracle.select, Oracle.leaf?, Oracle.hop?, Oracle.take, ht]
  | none =>
    have ht' : (e.withStack rest).typeOf? r = none := ht
    have ends (hm : purpose.must = false)
        (hsel : (e.withStack rest).selectStep ⟨s, purpose, left + 1, trail⟩ (.reference r) =
          (e.withStack rest).unselected purpose (.unresolved "")) :
        Advances o purpose e (.selecting ⟨s, purpose, left + 1, trail⟩ (.reference r)) rest
          ((e.withStack rest).selectStep ⟨s, purpose, left + 1, trail⟩ (.reference r)) := by
      rw [hsel]
      refine .nothing (.refl _ _) rfl ?_
      simp [Oracle.verdict, Oracle.select, Oracle.leaf?, Oracle.hop?, Oracle.take, ht, hm]
    cases purpose with
    | trial => exact ends rfl (by simp only [selectStep, ht', unselected])
    | resolution d => exact ends rfl (by simp only [selectStep, ht', unselected])
    | demand =>
      -- only a demand reads on, with the selector of the reference
      have hsel : (e.withStack rest).selectStep ⟨s, .demand, left + 1, trail⟩ (.reference r) =
          (e.withStack rest).push
            (.selecting ⟨s, .demand, left, .reference r :: trail⟩ (e.selectorOf r)) := by
        simp only [selectStep, ht']
        rfl
      have hhop : o.hop? e true left (.reference r) = some (e.selectorOf r) := by
        simp [Oracle.hop?, ht]
      rw [hsel]
      exact .push _ rfl rfl (effort_lt_of_hop _ _) (Oracle.select_hop hhop).symm

theorem selectStep_advances {selection : Selection ν} {selector : Selector ν} :
    Advances o selection.purpose e (.selecting selection selector) rest
      ((e.withStack rest).selectStep selection selector) := by
  obtain ⟨s, purpose, hops, trail⟩ := selection
  cases hops with
  | zero =>
    have logged : Plain none (e.withStack rest) (if purpose = .demand then e.withStack rest else
        (e.withStack rest).log (.selectorTooDeep (e.limitOf s))) := by
      split
      · exact .refl _ _
      · exact .log _ rfl
    exact .nothing logged (by split <;> rfl) rfl
  | succ left =>
    cases selector with
    | type t => exact .found (.refl _ _) rfl rfl
    | identifier key =>
      cases hk : e.graph.get? key with
      | some t =>
        have hsel : (e.withStack rest).selectStep ⟨s, purpose, left + 1, trail⟩ (.identifier key) =
            (e.withStack rest).selected purpose t := by
          simp only [selectStep, hk]
        rw [hsel]
        refine .found (.refl _ _) rfl ?_
        simp [Oracle.verdict, Oracle.select, Oracle.leaf?, Oracle.hop?, Oracle.take, hk]
      | none =>
        have hsel : (e.withStack rest).selectStep ⟨s, purpose, left + 1, trail⟩ (.identifier key) =
            (e.withStack rest).unselected purpose (.unresolved key) := by
          simp only [selectStep, hk]
        rw [hsel]
        refine .nothing (.refl _ _) rfl ?_
        simp [Oracle.verdict, Oracle.select, Oracle.leaf?, Oracle.hop?, Oracle.take, hk]
    | initializer i =>
      exact .push (.initializing i ⟨s, purpose, left, .initializer i :: trail⟩) rfl rfl (effort_lt_of_hop _ _) rfl
    | reference r => exact selectReference_advances
    | deferred d =>
      exact .push (.expanding d ⟨s, purpose, left, .deferred d :: trail⟩) rfl rfl (effort_lt_of_hop _ _)
        (Oracle.select_hop rfl).symm
    | node n =>
      exact .push (.inferring ⟨s, n, .selection ⟨s, purpose, left, .node n :: trail⟩, e.rulesOf s, []⟩) rfl
        rfl (effort_lt_of_hop _ _) rfl

/-- The verdict of a selection that is at an inference is that of the inference. -/
theorem verdict_of_inference {s : SystemId} {n : ν} {use : InferenceUse ν} {rules : List Rule}
    {problems : List InferenceProblem} (hf : f.inference? = some ⟨s, n, use, rules, problems⟩) :
    f.purpose? = use.purpose? ∧
      o.verdict e f = e.judge s n (inferBy (o.outcome · n) problems rules) := by
  cases f with
  | inferring i =>
    cases hf
    exact ⟨rfl, rfl⟩
  | running rule i =>
    cases hf
    exact ⟨rfl, rfl⟩
  | _ => cases hf

/-- A step of an inference for a selection is a step of the selection. -/
theorem Infers.advances {s : SystemId} {n : ν} {wanted : Selection ν}
    {outcome : Except (List InferenceProblem) Ty}
    (hi : Infers (o.outcome · n) e f rest s n (.selection wanted) outcome e')
    (hv : o.verdict e f = e.judge s n outcome) : Advances o wanted.purpose e f rest e' := by
  cases hi with
  | onward hplain hstack hf he ho =>
    obtain ⟨hp, hv'⟩ := verdict_of_inference (o := o) (e := e) hf
    exact .onward hplain hstack hp he (hplain.verdict.trans (by rw [hv', hv, ho]))
  | @concluded e₁ i hplain hstack hs hn hu =>
    have hsys : e₁.systems = e.systems := hplain.systems
    cases outcome with
    | ok t =>
      have heq : e₁.inferred i (.ok t) = e₁.selected wanted.purpose t := by simp only [inferred, hu]
      rw [heq]
      exact .found hplain hstack hv
    | error problems =>
      have heq : e₁.inferred i (.error problems) = e₁.unselected wanted.purpose
          (.uninferable (match e.systems[s]? with
            | some system => system.printer.node n false
            | none => "") problems) := by
        cases hy : e.systems[s]? <;> simp only [inferred, hu, hs, hn, hsys, hy]
      rw [heq]
      exact .nothing hplain hstack hv

/-- The frames of a selection that the engine goes on with by itself. -/
theorem tick_advances (hs : e.stack = f :: rest) (hf : f.purpose? = some p) (ht : e.tick = some e') :
    Advances o p e f rest e' := by
  cases f with
  | selecting selection selector =>
    simp only [tick, hs, Option.some.injEq] at ht
    cases hf
    subst ht
    exact selectStep_advances
  | inferring i =>
    obtain ⟨s, n, use, rules, problems⟩ := i
    cases use with
    | selection wanted =>
      cases hf
      exact (tick_infers hs ht).advances rfl
    | _ => cases hf
  | expanding d selection => simp [tick, hs] at ht
  | initializing i selection => simp [tick, hs] at ht
  | running rule i => simp [tick, hs] at ht
  | _ => cases hf

/-- The frames of a selection that wait for the host. -/
theorem answer_advances {a : Answer ν} (hs : e.stack = f :: rest) (hf : f.purpose? = some p)
    (hans : o.Answers f a) (ha : e.answer a = some e') : Advances o p e f rest e' := by
  cases f with
  | selecting selection selector => simp [answer, hs] at ha
  | inferring i => simp [answer, hs] at ha
  | expanding d selection =>
    cases hf
    cases Oracle.answers_expanding.1 hans
    simp only [answer, hs, Option.some.injEq] at ha
    subst ha
    refine .push (.selecting selection _) rfl rfl ?_ rfl
    simp [Frame.effort, Prod.Lex.toLex_lt_toLex]
  | initializing i selection =>
    cases hf
    cases Oracle.answers_initializing.1 hans
    simp only [answer, hs, Option.some.injEq] at ha
    subst ha
    exact .found (.refl _ _) rfl rfl
  | running rule i =>
    obtain ⟨s, n, use, rules, problems⟩ := i
    cases use with
    | selection wanted =>
      cases hf
      cases Oracle.answers_running.1 hans
      exact (answer_infers hs ha).advances rfl
    | _ => cases hf
  | _ => cases hf

end Selections

/-! ## Calls that only ask -/

/-- If the host only answers, and only as it may, the engine gets back to the work that was under way
before, and then the last report is this result. -/
inductive ComesTo (answers : Frame ν → Answer ν → Prop) (base : List (Frame ν)) (result : Result ν) :
    Engine ν → Prop
  | ended {e : Engine ν} : e.stack = base → e.trace.getLast? = some (.finish result) →
    ComesTo answers base result e
  | work {e e' : Engine ν} : e.stack ≠ base → e.tick = some e' → ComesTo answers base result e' →
    ComesTo answers base result e
  | answer {e : Engine ν} {f : Frame ν} {rest : List (Frame ν)} : e.stack ≠ base → e.stack = f :: rest →
    (∃ a e', answers f a ∧ e.answer a = some e') →
    (∀ a e', answers f a → e.answer a = some e' → ComesTo answers base result e') →
    ComesTo answers base result e

/-- A call can be made now and has this result, if the host only answers, and only as it may. -/
def Gives (answers : Frame ν → Answer ν → Prop) (e : Engine ν) (c : Call ν) (result : Result ν) : Prop :=
  ∃ e₁, e.move? (.call c) = some e₁ ∧ ComesTo answers e.stack result e₁

/-- What the engine goes on with by itself is no question. -/
theorem answer_eq_none {e e' : Engine ν} (ht : e.tick = some e') (a : Answer ν) : e.answer a = none := by
  cases hs : e.stack with
  | nil => simp [answer, hs]
  | cons f rest => cases f <;> simp_all [answer, tick]

/-- A call has one result. -/
theorem ComesTo.unique {answers : Frame ν → Answer ν → Prop} {base : List (Frame ν)}
    {result result' : Result ν} {e : Engine ν} (h : ComesTo answers base result e)
    (h' : ComesTo answers base result' e) : result = result' := by
  induction h with
  | ended hs hlast =>
    cases h' with
    | ended _ hlast' =>
      rw [hlast] at hlast'
      cases hlast'
      rfl
    | work hne => exact absurd hs hne
    | answer hne => exact absurd hs hne
  | work hne ht _ ih =>
    cases h' with
    | ended hs => exact absurd hs hne
    | work _ ht' hc =>
      rw [ht] at ht'
      cases ht'
      exact ih hc
    | answer _ _ hex =>
      obtain ⟨a, e', -, ha⟩ := hex
      simp [answer_eq_none ht] at ha
  | answer hne hs hex _ ih =>
    obtain ⟨a, e', hans, ha⟩ := hex
    cases h' with
    | ended hs' => exact absurd hs' hne
    | work _ ht => simp [answer_eq_none ht] at ha
    | answer _ hs' _ hall =>
      rw [hs] at hs'
      cases hs'
      exact ih a e' hans ha (hall a e' hans ha)

theorem Gives.unique {answers : Frame ν → Answer ν → Prop} {e : Engine ν} {c : Call ν}
    {result result' : Result ν} (h : Gives answers e c result) (h' : Gives answers e c result') :
    result = result' := by
  obtain ⟨e₁, hm, hc⟩ := h
  obtain ⟨e₂, hm', hc'⟩ := h'
  rw [hm] at hm'
  cases hm'
  exact hc.unique hc'

theorem comesTo_finish {answers : Frame ν → Answer ν → Prop} {e : Engine ν} (result : Result ν) :
    ComesTo answers e.stack result (e.finish result) :=
  .ended rfl (by simp [finish, report])

section Asking

variable {o : Oracle ν} {e e' : Engine ν} {base : List (Frame ν)} {p : Purpose} {f : Frame ν}

/-- A frame of a selection goes on by itself, or waits for what the host will answer. -/
theorem selection_goes_on (hs : e.stack = f :: base) (hf : f.purpose? = some p) :
    (∃ e', e.tick = some e') ∨ ∃ a e', o.Answers f a ∧ e.answer a = some e' := by
  cases f with
  | selecting selection selector => exact .inl ⟨_, by simp only [tick, hs]; rfl⟩
  | inferring i => exact .inl ⟨_, by simp only [tick, hs]; rfl⟩
  | expanding d selection => exact .inr ⟨_, _, Oracle.answers_expanding.2 rfl, by simp only [answer, hs]; rfl⟩
  | initializing i selection =>
    exact .inr ⟨_, _, Oracle.answers_initializing.2 rfl, by simp only [answer, hs]; rfl⟩
  | running rule i =>
    have answered : ∃ e', e.answer (.outcome (o.outcome rule i.node)) = some e' := by
      cases o.outcome rule i.node <;> exact ⟨_, by simp only [answer, hs]; rfl⟩
    obtain ⟨e', ha⟩ := answered
    exact .inr ⟨_, e', Oracle.answers_running.2 rfl, ha⟩
  | _ => cases hf

/-- A selection of the host comes to its verdict. -/
theorem comesTo_verdict (hp : ∀ r, p ≠ .resolution r) (hs : e.stack = f :: base)
    (hf : f.purpose? = some p) : ComesTo o.Answers base (p.result (o.verdict e f)) e := by
  -- each step leaves less to do
  induction hn : f.effort using WellFoundedLT.induction generalizing e f with
  | ind n ih =>
    subst hn
    have hne : e.stack ≠ base := by simp [hs]
    have step : ∀ e', Advances o p e f base e' → ComesTo o.Answers base (p.result (o.verdict e f)) e' := by
      intro e' ha
      cases ha with
      | onward hplain hstack hf' he hv =>
        rw [← hv]
        exact ih _ he hstack hf' rfl
      | @nothing e₁ error hplain hstack hv =>
        have hun : e₁.unselected p error = e₁.finish (p.result (.error error)) := by
          cases p with
          | trial => rfl
          | demand => rfl
          | resolution r => exact absurd rfl (hp r)
        rw [hun, hv, ← hstack]
        exact comesTo_finish _
      | @found e₁ t hplain hstack hv =>
        have hsel : e₁.selected p t = e₁.finish (p.result (.ok t)) := by
          cases p with
          | trial => rfl
          | demand => rfl
          | resolution r => exact absurd rfl (hp r)
        rw [hsel, hv, ← hstack]
        exact comesTo_finish _
    rcases selection_goes_on (o := o) hs hf with ⟨e', ht⟩ | ha
    · exact .work hne ht (step e' (tick_advances hs hf ht))
    · exact .answer hne hs ha fun a e' hans ha => step e' (answer_advances hs hf hans ha)

variable {s : SystemId} {selector : Selector ν}

theorem gives_select {c : Call ν} (hp : ∀ r, p ≠ .resolution r) (hc : e.call c = e.select s p selector)
    (hturn : e.hostTurn) (hk : e.knows c) :
    Gives o.Answers e c (p.result (o.select e s p.must (e.limitOf s + 1) selector)) := by
  refine ⟨e.select s p selector, by simp [move?, hturn, hk, hc], ?_⟩
  have hv := comesTo_verdict (o := o) hp
    (push_stack e (.selecting ⟨s, p, e.limitOf s + 1, []⟩ selector)) rfl
  rw [Oracle.verdict_congr (e := e) (push_graph _ _) (push_systems _ _) (push_references _ _)] at hv
  exact hv

/-- What a trial of the host comes to. -/
theorem gives_trial (hturn : e.hostTurn) (hk : e.knows (.trySelect s selector)) :
    Gives o.Answers e (.trySelect s selector)
      (.trial (o.select e s false (e.limitOf s + 1) selector).toOption) :=
  gives_select (p := .trial) (by simp) rfl hturn hk

/-- What a demand of the host comes to. -/
theorem gives_demand (hturn : e.hostTurn) (hk : e.knows (.mustSelect s selector)) :
    Gives o.Answers e (.mustSelect s selector)
      (.selection (o.select e s true (e.limitOf s + 1) selector)) :=
  gives_select (p := .demand) (by simp) rfl hturn hk

/-- An inference tries one rule after the other, and then whoever asked for it goes on with what it came to. -/
theorem comesTo_inference {result : Result ν} {n : ν} {use : InferenceUse ν} {rules : List Rule}
    {problems : List InferenceProblem} {outcome : Except (List InferenceProblem) Ty}
    (hs : e.stack = f :: base) (hf : f.inference? = some ⟨s, n, use, rules, problems⟩)
    (hout : inferBy (o.outcome · n) problems rules = outcome)
    (hdone : ∀ {e₁ : Engine ν} {i : Inference ν}, e₁.stack = base → e₁.graph = e.graph →
      e₁.systems = e.systems → i.use = use → ComesTo o.Answers base result (e₁.inferred i outcome)) :
    ComesTo o.Answers base result e := by
  -- each rule leaves less to do
  induction hn : f.effort using WellFoundedLT.induction generalizing e f rules problems with
  | ind k ih =>
    subst hn
    have hne : e.stack ≠ base := by simp [hs]
    have step : ∀ e', Infers (o.outcome · n) e f base s n use outcome e' → ComesTo o.Answers base result e' := by
      intro e' hi
      cases hi with
      | onward hplain hstack hf' he ho =>
        refine ih _ he hstack hf' ho (fun hs₁ hg hy hu => ?_) rfl
        exact hdone hs₁ (hg.trans hplain.graph) (hy.trans hplain.systems) hu
      | concluded hplain hstack _ _ hu => exact hdone hstack hplain.graph hplain.systems hu
    cases f with
    | inferring i =>
      cases hf
      obtain ⟨e', ht⟩ : ∃ e', e.tick = some e' := ⟨_, by simp only [tick, hs]; rfl⟩
      exact .work hne ht (step e' (hout ▸ tick_infers hs ht))
    | running rule i =>
      cases hf
      refine .answer hne hs ?_ fun a e' ha h => ?_
      · have answered : ∃ e', e.answer (.outcome (o.outcome rule i.node)) = some e' := by
          cases o.outcome rule i.node <;> exact ⟨_, by simp only [answer, hs]; rfl⟩
        obtain ⟨e', h⟩ := answered
        exact ⟨_, e', Oracle.answers_running.2 rfl, h⟩
      · rw [Oracle.answers_running.1 ha] at h
        exact step e' (hout ▸ answer_infers hs h)
    | _ => cases hf

/-- What an inference that the host asks for comes to. -/
theorem gives_inference {n : ν} (hturn : e.hostTurn) (hk : e.knows (.infer s n)) :
    Gives o.Answers e (.infer s n) (.inference (inferBy (o.outcome · n) [] (e.rulesOf s))) := by
  refine ⟨e.infer s n .inquiry, by simp [move?, hturn, hk, call], ?_⟩
  refine comesTo_inference (push_stack _ _) rfl rfl fun {e₁ i} hs _ _ hu => ?_
  simp only [inferred, hu, ← hs]
  exact comesTo_finish _

end Asking

end Engine
end LiveTypes
