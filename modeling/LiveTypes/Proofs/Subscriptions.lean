import LiveTypes.Proofs.Ownership

/-!
# What a reference listens to

A reference that waits for a type listens to the graph and to the rules of its system; one that has a
type listens to the removal of that type and to nothing else. `Engine.Subscribed` says so of every
reference at every moment, also in the middle of a pass, for a host that calls back as it likes but does
not end a subscription that belongs to a reference.
-/
namespace LiveTypes.Engine

variable {ν : Type}

/-! ## Everybody's subscriptions -/

/-- Every reference has the subscriptions that its state says, and no others. -/
structure Subscribed (e : Engine ν) : Prop extends Numbered e where
  held : ∀ r, e.listeners.held (.reference r) = Reference.graphEntries r (e.core? r)
  heldRules : ∀ (s : SystemId) (y : System ν) (r : ReferenceId), e.systems[s]? = some y →
    y.listeners.held (.reference r) = Reference.ruleEntries r s (e.core? r)
  housed : ∀ (r : ReferenceId) (x : Reference ν), e.core? r = some x → x.system < e.systems.length

namespace Subscribed

variable {e e' : Engine ν} {r : ReferenceId} {x : Reference ν}

theorem held_eq (h : Subscribed e) (hx : e.references[r]? = some x) :
    e.listeners.held (.reference r) = x.state.graphEntries r := by
  rw [h.held, core?_eq hx]
  rfl

theorem heldRules_eq (h : Subscribed e) (hx : e.references[r]? = some x) {s : SystemId} {y : System ν}
    (hy : e.systems[s]? = some y) :
    y.listeners.held (.reference r) = if x.system = s then x.state.ruleEntries r else [] := by
  rw [h.heldRules s y r hy, core?_eq hx]
  rfl

theorem housed_eq (h : Subscribed e) (hx : e.references[r]? = some x) :
    x.system < e.systems.length :=
  h.housed r x.core (core?_eq hx)

/-- Who has exactly what its state says has it in full. -/
theorem owned {full : Prop} (h : Subscribed e) : Owned full e :=
  ⟨h.toNumbered, fun r => .of_held h.graph (h.held r),
    fun s y r hy => .of_held (h.rules s y hy) (h.heldRules s y r hy), h.housed⟩

end Subscribed

/-- Who has in full what its state says has exactly that, since a state says one of each kind at most. -/
theorem Owned.subscribed {e : Engine ν} (h : Owned True e) : Subscribed e :=
  ⟨h.toNumbered, fun r => (h.held r).held_eq h.graph trivial (Reference.length_graphEntries r _),
    fun s y r hy => (h.heldRules s y r hy).held_eq (h.rules s y hy) trivial
      (Reference.length_ruleEntries r s _), h.housed⟩

/-! ## Runs -/

theorem subscribed_new : Subscribed ({} : Engine ν) := owned_new.subscribed

theorem step_subscribed {e e' : Engine ν} {m : Move ν} (hl : Lively e) (h : Subscribed e)
    (hm : SparesReferences e m) (hstep : Step e m e') : Subscribed e' :=
  (step_owned hl h.owned (fun _ => hm) hstep).subscribed

/-- In every run that ends no subscription of a reference, every reference has the subscriptions that
its state says. -/
theorem ReachableBy.subscribed {e : Engine ν} (h : ReachableBy SparesReferences e) :
    Lively e ∧ Subscribed e :=
  ReachableBy.keeps (P := fun e => Lively e ∧ Subscribed e) ⟨lively_new, subscribed_new⟩
    (fun h ha hm => ⟨step_lively h.1 (move?_step hm), step_subscribed h.1 h.2 ha (move?_step hm)⟩) h

/-- When the engine rests, a reference that is not deconstructed either waits, with one subscription to
the graph and one to the rules of its system, or has a type and one subscription to the removal of that
type. It has no other subscription. -/
theorem references_subscribed_at_rest {e : Engine ν} (h : ReachableBy SparesReferences e)
    (hrest : e.atRest) {r : ReferenceId} {x : Reference ν} (hx : e.references[r]? = some x)
    (hlive : x.deconstructed = false) :
    ∃ y, e.systems[x.system]? = some y ∧
      ((∃ subs, x.state = .unresolved (some subs) ∧
          e.listeners.held (.reference r) = [⟨subs.graph, none, .reference r⟩] ∧
          y.listeners.held (.reference r) = [⟨subs.rules, (), .reference r⟩]) ∨
        (∃ t watch, x.state = .resolved t (some watch) ∧
          e.listeners.held (.reference r) = [⟨watch, some t, .reference r⟩] ∧
          y.listeners.held (.reference r) = [])) ∧
      ∀ (s : SystemId) (other : System ν), e.systems[s]? = some other → s ≠ x.system →
        other.listeners.held (.reference r) = [] := by
  obtain ⟨hl, hs⟩ := h.subscribed
  have hr : e.restarts r = 0 := by
    have : e.stack = [] := by simpa [atRest] using hrest
    simp [restarts, this]
  have hsub := hl.of_quiet hx hlive hr
  have hg := hs.held_eq hx
  obtain ⟨y, hy⟩ : ∃ y, e.systems[x.system]? = some y :=
    ⟨_, List.getElem?_eq_getElem (hs.housed_eq hx)⟩
  have hy' := hs.heldRules_eq hx hy
  refine ⟨y, hy, ?_, fun s other ho hne => ?_⟩
  · rw [if_pos rfl] at hy'
    rcases hst : x.state with (_ | subs) | ⟨t, _ | watch⟩ <;> rw [hst] at hsub hg hy'
    · cases hsub
    · exact .inl ⟨subs, rfl, hg, hy'⟩
    · cases hsub
    · exact .inr ⟨t, watch, rfl, hg, hy'⟩
  · rw [hs.heldRules_eq hx ho, if_neg (Ne.symm hne)]

/-- The theorem at a reference that found its type and watches for its removal. -/
theorem resolved_reference_subscribed : ∃ (e : Engine Node) (x : Reference Node) (y : System Node),
    e.atRest ∧ e.references[0]? = some x ∧ x.deconstructed = false ∧
      x.state = .resolved ⟨1, "a", "a"⟩ (some 2) ∧ e.systems[x.system]? = some y ∧
      e.listeners.held (.reference 0) = [⟨2, some ⟨1, "a", "a"⟩, .reference 0⟩] ∧
      y.listeners.held (.reference 0) = [] := by
  have start : ReachableBy SparesReferences ({} : Engine Node) := .new
  have reached := start
    |>.move (m := .call (.addSystem {} .plain .graph)) ⟨nofun, nofun⟩ rfl
    |>.move (m := .call (.addReference 0 (.type ⟨1, "a", "a"⟩))) ⟨nofun, nofun⟩ rfl
    |>.move (m := .work) ⟨nofun, nofun⟩ rfl
    |>.move (m := .work) ⟨nofun, nofun⟩ rfl
    |>.move (m := .work) ⟨nofun, nofun⟩ rfl
  obtain ⟨y, hy, h, -⟩ := references_subscribed_at_rest (r := 0) reached rfl rfl rfl
  rcases h with ⟨subs, hs, -, -⟩ | ⟨t, watch, hs, hg, hr⟩
  · cases hs
  · cases hs
    exact ⟨_, _, y, rfl, rfl, rfl, rfl, hy, hg, hr⟩

/-- A host that ends a subscription by a number that is not its own can cut a reference off: it still
waits, and does not hear of new types. -/
theorem waiting_reference_cut_off : ∃ (e : Engine Node) (x : Reference Node), e.Reachable ∧
    e.atRest ∧ e.references[0]? = some x ∧ x.deconstructed = false ∧
      x.state = .unresolved (some ⟨1, 0⟩) ∧ e.listeners.held (.reference 0) = [] :=
  ⟨_, _, ⟨[.call (.addSystem {} .plain .graph), .call (.addReference 0 (.identifier "a")), .work, .work,
    .call (.leaveGraph 1)], rfl⟩, rfl, rfl, rfl, rfl, rfl⟩

end LiveTypes.Engine
