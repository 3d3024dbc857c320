import LiveTypes.Proofs.References

/-!
# What a selection comes to

With a host whose rules look at nothing but the value, and whose types under construction keep their
initial handles, what a selector gives is a function of the engine's state. `Host.find?` is that function,
and `Host.verdict?` says the same of a selection that is under way: each of its steps keeps the verdict,
and its end delivers it.
-/
namespace LiveTypes

variable {ν : Type}

/-- The type that an outcome gives. -/
def Outcome.type? : Outcome → Option Ty
  | .inferred t => some t
  | _ => none

/-- Whether the host expands a selector. -/
def Selector.isDeferred : Selector ν → Bool
  | .deferred _ => true
  | _ => false

/-- What the rules and the types under construction of a host always say. -/
structure Host (ν : Type) where
  outcome : Rule → ν → Outcome
  initial : Initializer → Ty

namespace Host

/-- Whether an answer is what this host says to a question. -/
def Answers (h : Host ν) (question : Question ν) (answer : Answer ν) : Prop :=
  match question with
  | .infer rule n => answer = .outcome (h.outcome rule n)
  | .initial i => answer = .type (h.initial i)
  | _ => True

/-- The type that the first of the rules to infer one gives. -/
def inferFrom (h : Host ν) (n : ν) (rules : List Rule) : Option Ty :=
  rules.findSome? fun rule => (h.outcome rule n).type?

/-- The type that a selector gives in a system. What a deferred selector gives is not fixed. -/
def find? (h : Host ν) (e : Engine ν) (s : SystemId) : Selector ν → Option Ty
  | .type t => some t
  | .identifier key => e.graph.get? key
  | .initializer i => some (h.initial i)
  | .reference r => e.typeOf? r
  | .deferred _ => none
  | .node n => h.inferFrom n (e.rulesOf s)

/-- What the selection that a frame belongs to will find, as far as it is fixed. -/
def verdict? (h : Host ν) (e : Engine ν) : Frame ν → Option (Option Ty)
  | .selecting selection selector =>
    if selection.hopsLeft = 0 || selector.isDeferred then none
    else some (h.find? e selection.system selector)
  | .initializing i _ => some (some (h.initial i))
  | .inferring i => some (h.inferFrom i.node i.rules)
  | .running rule i => some (h.inferFrom i.node (rule :: i.rules))
  | _ => none

variable (h : Host ν) {e e' : Engine ν}

/-- What a selector gives depends on the keys of the graph, the rules of the system and the types of
references. -/
theorem find?_congr {s : SystemId} {selector : Selector ν}
    (hg : ∀ key, e'.graph.get? key = e.graph.get? key) (hr : e'.rulesOf s = e.rulesOf s)
    (ht : ∀ source, selector.source? = some source → e'.typeOf? source = e.typeOf? source) :
    h.find? e' s selector = h.find? e s selector := by
  cases selector with
  | type t => rfl
  | identifier key => exact hg key
  | initializer i => rfl
  | reference r => exact ht r rfl
  | deferred d => rfl
  | node n => simp only [find?, hr]

end Host

namespace Engine

/-! ## The steps of a selection -/

/-- What comes of a selection by one step: it goes on, it finds nothing, or it finds a type. What was
fixed before is kept. -/
inductive Evaluates (h : Host ν) (p : Purpose) (e : Engine ν) (f : Frame ν) (rest : List (Frame ν)) :
    Engine ν → Prop
  | onward {f' : Frame ν} {e' : Engine ν} :
    Plain (some p) (e.withStack rest) e' → e'.stack = f' :: rest → f'.purpose? = some p →
    (∀ v, h.verdict? e f = some v → h.verdict? e' f' = some v) → Evaluates h p e f rest e'
  | nothing {e₁ : Engine ν} {error : SelectError} :
    Plain none (e.withStack rest) e₁ → e₁.stack = rest → (∀ v, h.verdict? e f = some v → v = none) →
    Evaluates h p e f rest (e₁.unselected p error)
  | found {t : Ty} :
    (∀ v, h.verdict? e f = some v → v = some t) → Evaluates h p e f rest ((e.withStack rest).selected p t)

section Selections

variable {h : Host ν} {e e' : Engine ν} {rest : List (Frame ν)}

/-- A step that leaves one frame in place of another, whose verdict does not look at the engine. -/
theorem Evaluates.push {p : Purpose} {f : Frame ν} (f' : Frame ν) (hf : f'.isPlain)
    (hp : f'.purpose? = some p)
    (hv : ∀ v, h.verdict? e f = some v → h.verdict? ((e.withStack rest).push f') f' = some v) :
    Evaluates h p e f rest ((e.withStack rest).push f') := by
  refine .onward (.push ⟨hf, fun r hr => ?_⟩) (push_stack _ _) hp hv
  rw [← hp, hr]

theorem selectStep_evaluates {selection : Selection ν} {selector : Selector ν}
    (hp : selection.purpose ≠ .demand) :
    Evaluates h selection.purpose e (.selecting selection selector) rest
      ((e.withStack rest).selectStep selection selector) := by
  obtain ⟨s, purpose, hops, trail⟩ := selection
  cases hops with
  | zero =>
    have hp : purpose ≠ .demand := hp
    simp only [selectStep, tooDeep, if_neg hp]
    exact .nothing (.log _ rfl) rfl (by simp [Host.verdict?])
  | succ left =>
    cases selector with
    | type t => exact .found (by simp [Host.verdict?, Host.find?, Selector.isDeferred])
    | identifier key =>
      cases hk : e.graph.get? key with
      | some t =>
        have hsel : (e.withStack rest).selectStep ⟨s, purpose, left + 1, trail⟩ (.identifier key) =
            (e.withStack rest).selected purpose t := by
          simp only [selectStep, hk]
        rw [hsel]
        exact .found (by simp [Host.verdict?, Host.find?, Selector.isDeferred, hk])
      | none =>
        have hsel : (e.withStack rest).selectStep ⟨s, purpose, left + 1, trail⟩ (.identifier key) =
            (e.withStack rest).unselected purpose (.unresolved key) := by
          simp only [selectStep, hk]
        rw [hsel]
        exact .nothing (.refl _ _) rfl (by simp [Host.verdict?, Host.find?, Selector.isDeferred, hk])
    | initializer i =>
      exact .push (.initializing i ⟨s, purpose, left, .initializer i :: trail⟩) rfl rfl
        (by simp [Host.verdict?, Host.find?, Selector.isDeferred])
    | reference r =>
      cases ht : e.typeOf? r with
      | some t =>
        have hsel : (e.withStack rest).selectStep ⟨s, purpose, left + 1, trail⟩ (.reference r) =
            (e.withStack rest).selected purpose t := by
          have ht : (e.withStack rest).typeOf? r = some t := ht
          simp only [selectStep, ht]
        rw [hsel]
        exact .found (by simp [Host.verdict?, Host.find?, Selector.isDeferred, ht])
      | none =>
        -- a trial and a resolution end here; only a demand would read on
        have hsel : (e.withStack rest).selectStep ⟨s, purpose, left + 1, trail⟩ (.reference r) =
            (e.withStack rest).unselected purpose (.unresolved "") := by
          have ht : (e.withStack rest).typeOf? r = none := ht
          cases purpose with
          | trial => simp only [selectStep, ht, unselected]
          | resolution r => simp only [selectStep, ht, unselected]
          | demand => exact absurd rfl hp
        rw [hsel]
        exact .nothing (.refl _ _) rfl (by simp [Host.verdict?, Host.find?, Selector.isDeferred, ht])
    | deferred d =>
      exact .push (.expanding d ⟨s, purpose, left, .deferred d :: trail⟩) rfl rfl
        (by simp [Host.verdict?, Selector.isDeferred])
    | node n =>
      exact .push (.inferring ⟨s, n, .selection ⟨s, purpose, left, .node n :: trail⟩, e.rulesOf s, []⟩) rfl
        rfl (by simp [Host.verdict?, Host.find?, Selector.isDeferred])

theorem inferStep_evaluates {i : Inference ν} {p : Purpose} (hp : i.use.purpose? = some p) :
    Evaluates h p e (.inferring i) rest ((e.withStack rest).inferStep i) := by
  obtain ⟨s, n, use, rules, problems⟩ := i
  cases use with
  | selection wanted =>
    cases hp
    cases rules with
    | nil =>
      have logged : Plain none (e.withStack rest)
          ((e.withStack rest).log (.nothingInferred problems.length)) := .log _ rfl
      exact .nothing logged rfl (by simp [Host.verdict?, Host.inferFrom])
    | cons rule rules =>
      exact .push (.running rule ⟨s, n, .selection wanted, rules, problems⟩) rfl rfl
        (by simp [Host.verdict?])
  | inquiry => cases hp
  | actual check => cases hp
  | expected check actual => cases hp

/-- The frames of a selection that the engine goes on with by itself. -/
theorem tick_evaluates {f : Frame ν} {p : Purpose} (hs : e.stack = f :: rest)
    (hf : f.purpose? = some p) (hp : p ≠ .demand) (ht : e.tick = some e') :
    Evaluates h p e f rest e' := by
  rw [tick, hs] at ht
  cases f <;> simp only [Frame.purpose?, reduceCtorEq] at hf
  case selecting selection selector =>
    cases ht
    cases hf
    exact selectStep_evaluates hp
  case inferring i =>
    cases ht
    exact inferStep_evaluates hf
  case expanding => cases ht
  case initializing => cases ht
  case running => cases ht

/-- The frames of a selection that wait for the host. -/
theorem answer_evaluates {f : Frame ν} {p : Purpose} {a : Answer ν} (hs : e.stack = f :: rest)
    (hf : f.purpose? = some p) (hp : p ≠ .demand) (hq : ∀ q, e.question? = some q → h.Answers q a)
    (ha : e.answer a = some e') : Evaluates h p e f rest e' := by
  have hq : ∀ q, f.question? = some q → h.Answers q a := fun q hf => hq q (by simp [question?, hs, hf])
  rw [answer, hs] at ha
  cases f <;> simp only [Frame.purpose?, reduceCtorEq] at hf
  case selecting => cases ha
  case inferring => cases ha
  case expanding d selection =>
    cases hf
    cases a <;> try cases ha
    exact .push (.selecting selection _) rfl rfl (by simp [Host.verdict?])
  case initializing i selection =>
    cases hf
    have hans : a = .type (h.initial i) := hq (.initial i) (by simp [Frame.question?, hp])
    subst hans
    cases ha
    exact .found (by simp [Host.verdict?])
  case running rule i =>
    have hans : a = .outcome (h.outcome rule i.node) := hq _ rfl
    obtain ⟨s, n, use, rules, problems⟩ := i
    cases use with
    | selection wanted =>
      cases hf
      subst hans
      cases ho : h.outcome rule n with
      | inferred t =>
        rw [ho] at ha
        cases ha
        exact .found (by simp [Host.verdict?, Host.inferFrom, ho, Outcome.type?])
      | notApplicable =>
        rw [ho] at ha
        cases ha
        exact .push (.inferring ⟨s, n, .selection wanted, rules, problems⟩) rfl rfl
          (by simp [Host.verdict?, Host.inferFrom, ho, Outcome.type?])
      | problem message =>
        rw [ho] at ha
        cases ha
        refine .push (.inferring ⟨s, n, .selection wanted, rules, problems ++ [⟨rule.name, message⟩]⟩)
          rfl rfl ?_
        simp [Host.verdict?, Host.inferFrom, ho, Outcome.type?]
    | inquiry => cases hf
    | actual check => cases hf
    | expected check actual => cases hf

end Selections

end Engine

/-! ## Trials -/

namespace Engine

section Trials

variable {h : Host ν} {e e' : Engine ν}

end Trials

end Engine
end LiveTypes
