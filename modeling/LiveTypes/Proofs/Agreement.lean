import LiveTypes.Proofs.Selections

/-!
# Trials and demands agree

A trial and a demand of the same selector go through the same deferred hops. Where these end, both take the
same type, with two exceptions: of a type under construction a trial takes the initial handle and a demand
the final one, and at a reference without a type a trial ends while a demand goes on with the selector of
the reference.
-/
namespace LiveTypes

variable {ν : Type}

namespace Oracle

variable {o : Oracle ν} {e : Engine ν} {s : SystemId} {left : Nat} {selector leaf : Selector ν}

/-- Deferred hops that are too many for a trial are too many for a demand. -/
theorem leaf?_demand_of_endless (h : o.expansion? left selector = none) :
    o.leaf? e true left selector = none := by
  induction left generalizing selector with
  | zero => rfl
  | succ left ih =>
    cases selector with
    | deferred d => exact ih h
    | _ => cases h

/-- Unless the deferred hops end at a reference without a type, a demand ends there as well. -/
theorem leaf?_demand_of_expansion (h : o.expansion? left selector = some leaf)
    (hleaf : ∀ r, leaf = .reference r → e.typeOf? r ≠ none) : o.leaf? e true left selector = some leaf := by
  induction left generalizing selector with
  | zero => cases h
  | succ left ih =>
    cases selector with
    | deferred d => exact ih h
    | reference r =>
      cases h
      have hopless : o.hop? e true left (.reference r) = none := by
        simp [hop?, Option.isNone_iff_eq_none, hleaf r rfl]
      simp only [leaf?, hopless]
    | _ =>
      cases h
      rfl

/-- What is no type under construction gives the same to a trial and to a demand. -/
theorem take_demand (h : ∀ i, leaf ≠ .initializer i) : o.take e s true leaf = o.take e s false leaf := by
  cases leaf with
  | initializer i => exact absurd rfl (h i)
  | _ => rfl

/-- What trial and demand come to is told by where the deferred hops end. -/
theorem select_cases (o : Oracle ν) (e : Engine ν) (s : SystemId) (left : Nat) (selector : Selector ν) :
    (∃ i, o.expansion? left selector = some (.initializer i) ∧
      o.select e s false left selector = .ok (o.initial i) ∧
      o.select e s true left selector = .ok (o.final i)) ∨
    (∃ r error, o.expansion? left selector = some (.reference r) ∧ e.typeOf? r = none ∧
      o.select e s false left selector = .error error) ∨
    ((∀ i, o.expansion? left selector ≠ some (.initializer i)) ∧
      o.select e s true left selector = o.select e s false left selector) := by
  cases hexp : o.expansion? left selector with
  | none =>
    refine .inr (.inr ⟨by simp, ?_⟩)
    simp only [select, leaf?_demand_of_endless hexp, leaf?_trial, hexp]
  | some leaf =>
    have htrial : o.select e s false left selector = o.take e s false leaf := by
      simp only [select, leaf?_trial, hexp]
    by_cases hleaf : ∀ r, leaf = .reference r → e.typeOf? r ≠ none
    · have hdemand : o.select e s true left selector = o.take e s true leaf := by
        simp only [select, leaf?_demand_of_expansion hexp hleaf]
      rw [htrial, hdemand]
      by_cases hi : ∃ i, leaf = .initializer i
      · obtain ⟨i, rfl⟩ := hi
        exact .inl ⟨i, rfl, rfl, rfl⟩
      · have hi : ∀ i, leaf ≠ .initializer i := fun i h => hi ⟨i, h⟩
        exact .inr (.inr ⟨fun i h => hi i (Option.some.inj h), take_demand hi⟩)
    · -- a trial gives up where a demand reads on
      simp only [not_forall, ne_eq, not_not] at hleaf
      obtain ⟨r, rfl, ht⟩ := hleaf
      exact .inr (.inl ⟨r, _, rfl, ht, htrial.trans (by rw [take, ht]; rfl)⟩)

end Oracle

namespace Engine

/-- A trial and a demand of a selector each have a result. What the trial finds is what the demand gives,
but that the demand gives the final handle of a type under construction where the deferred hops end at one.
Where the demand fails the trial finds nothing, and unless the hops end at a reference without a type, the
demand fails exactly where the trial finds nothing. -/
theorem trial_agrees_with_demand (o : Oracle ν) {e : Engine ν} {s : SystemId} {selector : Selector ν}
    (hturn : e.hostTurn) (hk : e.knows (.trySelect s selector)) :
    (∃ tried, Gives o.Answers e (.trySelect s selector) (.trial tried)) ∧
    (∃ demanded, Gives o.Answers e (.mustSelect s selector) (.selection demanded)) ∧
    ∀ tried demanded, Gives o.Answers e (.trySelect s selector) (.trial tried) →
      Gives o.Answers e (.mustSelect s selector) (.selection demanded) →
      (∀ i, o.expansion? (e.limitOf s + 1) selector = some (.initializer i) →
        tried = some (o.initial i) ∧ demanded = .ok (o.final i)) ∧
      ((∀ i, o.expansion? (e.limitOf s + 1) selector ≠ some (.initializer i)) →
        ∀ t, tried = some t → demanded = .ok t) ∧
      (∀ error, demanded = .error error → tried = none) ∧
      ((∀ r, o.expansion? (e.limitOf s + 1) selector = some (.reference r) → e.typeOf? r ≠ none) →
        (tried = none ↔ ∃ error, demanded = .error error)) := by
  have htrial := gives_trial (o := o) hturn hk
  have hdemand := gives_demand (o := o) hturn hk
  refine ⟨⟨_, htrial⟩, ⟨_, hdemand⟩, fun tried demanded ht hd => ?_⟩
  cases htrial.unique ht
  cases hdemand.unique hd
  rcases o.select_cases e s (e.limitOf s + 1) selector with ⟨i, hexp, ht, hd⟩ | ⟨r, error, hexp, hr, ht⟩ |
    ⟨hexp, heq⟩
  · simp [hexp, ht, hd, Except.toOption]
  · simp [hexp, ht, hr, Except.toOption]
  · rw [heq]
    cases ht : o.select e s false (e.limitOf s + 1) selector <;> simp [hexp, Except.toOption]

/-- With a limit of one hop, a deferred selector that expands to a type under construction gives its initial
handle to a trial and its final handle to a demand. -/
theorem construction_tried_and_demanded : ∃ (o : Oracle Node) (e : Engine Node), e.hostTurn ∧
    o.expansion? (e.limitOf 0 + 1) (.deferred ⟨7⟩) = some (.initializer ⟨3⟩) ∧
    Gives o.Answers e (.trySelect 0 (.deferred ⟨7⟩)) (.trial (some ⟨1, "a", "a"⟩)) ∧
    Gives o.Answers e (.mustSelect 0 (.deferred ⟨7⟩)) (.selection (.ok ⟨2, "b", "b"⟩)) := by
  have hk : (({} : Engine Node).call (.addSystem { maxDepth := 1 } .plain .graph)).knows
      (.trySelect 0 (.deferred ⟨7⟩)) := rfl
  obtain ⟨⟨tried, ht⟩, ⟨demanded, hd⟩, agree⟩ := trial_agrees_with_demand
    ⟨⟨fun _ _ => .notApplicable, fun _ => ⟨1, "a", "a"⟩⟩, fun _ => ⟨2, "b", "b"⟩,
      fun _ _ => .initializer ⟨3⟩, fun _ _ _ => {}⟩ rfl hk
  obtain ⟨rfl, rfl⟩ := (agree tried demanded ht hd).1 ⟨3⟩ rfl
  exact ⟨_, _, rfl, rfl, ht, hd⟩

end Engine
end LiveTypes
