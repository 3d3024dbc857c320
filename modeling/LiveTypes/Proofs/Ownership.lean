import LiveTypes.Proofs.Restarts

/-!
# What belongs to a reference

A reference keeps the numbers of its subscriptions in its state. A host that ends subscriptions by numbers
that are not its own can take one of them away, but it cannot give a reference any other. So in every run a
reference listens to nothing but what its state says, and these numbers are nobody else's. As long as the
host ends no subscription that belongs to a reference, it also listens to all that its state says.
`Engine.Owned` is the one invariant for both, in full or not.
-/
namespace LiveTypes

variable {ν : Type}

/-- Whether a listener of the graph is a reference. -/
def GraphListener.isReference : GraphListener → Bool
  | .reference _ => true
  | _ => false

namespace ReferenceState

/-- The subscriptions of a reference to the graph. -/
def graphEntries (r : ReferenceId) : ReferenceState → List (Entry (Option Ty) GraphListener)
  | .unresolved (some subs) => [⟨subs.graph, none, .reference r⟩]
  | .resolved t (some watch) => [⟨watch, some t, .reference r⟩]
  | _ => []

/-- The subscriptions of a reference to the rules of its system. -/
def ruleEntries (r : ReferenceId) : ReferenceState → List (Entry Unit RuleListener)
  | .unresolved (some subs) => [⟨subs.rules, (), .reference r⟩]
  | _ => []

end ReferenceState

namespace Reference

/-- What a reference, if it exists, has among the listeners of the graph. -/
def graphEntries (r : ReferenceId) (x? : Option (Reference ν)) :
    List (Entry (Option Ty) GraphListener) :=
  x?.elim [] (·.state.graphEntries r)

/-- What a reference, if it exists, has among the listeners of the rules of system `s`. -/
def ruleEntries (r : ReferenceId) (s : SystemId) (x? : Option (Reference ν)) :
    List (Entry Unit RuleListener) :=
  x?.elim [] fun x => if x.system = s then x.state.ruleEntries r else []

/-- A reference has one subscription to the graph at most. -/
theorem length_graphEntries (r : ReferenceId) (x? : Option (Reference ν)) :
    (graphEntries r x?).length ≤ 1 := by
  rcases x? with _ | ⟨selector, s, (_ | subs) | ⟨t, _ | watch⟩, listeners, dependents, d⟩ <;>
    simp [graphEntries, ReferenceState.graphEntries]

/-- A reference has one subscription to the rules of a system at most. -/
theorem length_ruleEntries (r : ReferenceId) (s : SystemId) (x? : Option (Reference ν)) :
    (ruleEntries r s x?).length ≤ 1 := by
  cases x? with
  | none => simp [ruleEntries]
  | some x =>
    by_cases hs : x.system = s
    · rcases hst : x.state with (_ | subs) | ⟨t, watch⟩ <;>
        simp [ruleEntries, hs, hst, ReferenceState.ruleEntries]
    · simp [ruleEntries, hs]

end Reference

namespace Engine

/-! ## Numbers -/

/-- Every registry gives out its numbers in order, and the number under which a system listens to the
graph is nobody else's. -/
structure Numbered (e : Engine ν) : Prop where
  graph : e.listeners.Ordered
  rules : ∀ (s : SystemId) (y : System ν), e.systems[s]? = some y → y.listeners.Ordered
  own : ∀ (s : SystemId) (y : System ν), e.systems[s]? = some y →
    y.subscription < e.listeners.nextId ∧
      ∀ z ∈ e.listeners.entries, z.id = y.subscription → z.listener = .system s

theorem Numbered.keeping {g : GraphListener → Bool} {k : RuleListener → Bool} {e e' : Engine ν}
    (h : Numbered e) (hk : Keeping g k e e') : Numbered e' := by
  refine ⟨hk.graph.ordered h.graph, fun s y' hy' => ?_, fun s y' hy' => ?_⟩
  · obtain ⟨y, hy, -, hy'⟩ := hk.systems s y' hy'
    exact hy'.ordered (h.rules s y hy)
  · obtain ⟨y, hy, hs, -⟩ := hk.systems s y' hy'
    obtain ⟨hlt, hown⟩ := h.own s y hy
    rw [hs]
    refine ⟨Nat.lt_of_lt_of_le hlt hk.graph.issued, fun z hz hid => ?_⟩
    rcases hk.graph.old z hz with hz | hz
    · exact hown z hz hid
    · omega

/-- A new system is there beside the old ones. -/
theorem systems_of_append {e e' : Engine ν} {y₀ y : System ν} {s : SystemId}
    (hs : e'.systems = e.systems ++ [y₀]) (hy : e'.systems[s]? = some y) :
    e.systems[s]? = some y ∨ (s = e.systems.length ∧ y = y₀) := by
  rw [hs, List.getElem?_append] at hy
  split at hy
  · exact .inl hy
  · have : s - e.systems.length = 0 := by
      have := (List.getElem?_eq_some_iff.1 hy).1
      simpa using this
    rw [this] at hy
    exact .inr ⟨Nat.le_antisymm (Nat.sub_eq_zero_iff_le.1 this) (Nat.le_of_not_lt ‹_›),
      (Option.some.inj hy).symm⟩

/-- A new system has no listeners, and it listens to the graph under a new number. -/
theorem Numbered.addSystem {e e' : Engine ν} {y₀ : System ν} (h : Numbered e) (hl : y₀.listeners = {})
    (hn : y₀.subscription = e.listeners.nextId) (hs : e'.systems = e.systems ++ [y₀])
    (hg : e'.listeners = e.listeners.add none (.system e.systems.length)) : Numbered e' := by
  refine ⟨?_, fun s y hy => ?_, fun s y hy => ?_⟩
  · rw [hg]
    exact h.graph.add _ _
  · rcases systems_of_append hs hy with hy | ⟨-, rfl⟩
    · exact h.rules s y hy
    · rw [hl]
      exact Registry.ordered_new
  · rw [hg]
    simp only [Registry.add, List.mem_append, List.mem_singleton]
    rcases systems_of_append hs hy with hy | ⟨rfl, rfl⟩
    · obtain ⟨hlt, hown⟩ := h.own s y hy
      refine ⟨Nat.lt_succ_of_lt hlt, fun z hz hid => ?_⟩
      rcases hz with hz | rfl
      · exact hown z hz hid
      · exact absurd hid (Nat.ne_of_gt hlt)
    · refine ⟨hn ▸ Nat.lt_succ_self _, fun z hz hid => ?_⟩
      rcases hz with hz | rfl
      · exact absurd (hid.trans hn) (Nat.ne_of_lt (h.graph.issued z hz))
      · rfl

/-! ## Everybody's subscriptions -/

/-- A move ends no subscription that belongs to a reference. -/
structure SparesReferences (e : Engine ν) (m : Move ν) : Prop where
  graph : ∀ id, m = .call (.leaveGraph id) → ∀ r, ∀ z ∈ e.listeners.held (.reference r), z.id ≠ id
  rules : ∀ (s : SystemId) (id : Nat) (y : System ν), m = .call (.leaveRules s id) →
    e.systems[s]? = some y → ∀ r, ∀ z ∈ y.listeners.held (.reference r), z.id ≠ id

/-- The listeners of the graph that are not the given reference. -/
def otherGraph (r : ReferenceId) (l : GraphListener) : Bool := l ≠ .reference r

/-- The listeners of a rule set that are not the given reference. -/
def otherRules (r : ReferenceId) (l : RuleListener) : Bool := l ≠ .reference r

theorem otherGraph_ne {r : ReferenceId} (l : GraphListener) (h : otherGraph r l) :
    l ≠ .reference r := by
  simpa [otherGraph] using h

theorem otherRules_ne {r : ReferenceId} (l : RuleListener) (h : otherRules r l) :
    l ≠ .reference r := by
  simpa [otherRules] using h

/-- To subscribe needs no care: what is new has a new number. -/
theorem keeping_subscribe (e : Engine ν) (r : ReferenceId) (s : SystemId) :
    Keeping (otherGraph r) (otherRules r) e (e.subscribe r s) :=
  .of_modify (.add none (by simp [otherGraph])) rfl fun y _ => ⟨rfl, .add () (by simp [otherRules])⟩

/-- Every reference has at most the subscriptions that its state says, in full all of them, and their
numbers are its own. -/
structure Owned (full : Prop) (e : Engine ν) : Prop extends Numbered e where
  held : ∀ r, e.listeners.Due full (.reference r) (Reference.graphEntries r (e.core? r))
  heldRules : ∀ (s : SystemId) (y : System ν) (r : ReferenceId), e.systems[s]? = some y →
    y.listeners.Due full (.reference r) (Reference.ruleEntries r s (e.core? r))
  housed : ∀ (r : ReferenceId) (x : Reference ν), e.core? r = some x → x.system < e.systems.length

namespace Owned

variable {full : Prop} {e e' : Engine ν} {r : ReferenceId} {x : Reference ν}

theorem keeping {g : GraphListener → Bool} {k : RuleListener → Bool} (h : Owned full e)
    (hk : Keeping g k e e') (hg : ∀ r, g (.reference r)) (hr : ∀ r, k (.reference r))
    (hc : ∀ r, e'.core? r = e.core? r) : Owned full e' := by
  refine ⟨h.toNumbered.keeping hk, fun r => ?_, fun s y' r hy' => ?_, fun r x hx => ?_⟩
  · rw [hc]
    exact (h.held r).keeps hk.graph (hg r)
  · obtain ⟨y, hy, -, hl⟩ := hk.systems s y' hy'
    rw [hc]
    exact (h.heldRules s y r hy).keeps hl (hr r)
  · rw [hk.housed]
    exact h.housed r x (hc r ▸ hx)

theorem calm {p : Option Purpose} (h : Owned full e) (hc : Calm p e e') : Owned full e' :=
  h.keeping hc.toKeeping (fun _ => rfl) (fun _ => rfl) hc.core?

/-- One reference becomes `x'`; only what it may have then has to be shown. -/
theorem update {x' : Reference ν} (h : Owned full e) (hk : Keeping (otherGraph r) (otherRules r) e e')
    (hc : ∀ i, e'.core? i = if i = r then some x' else e.core? i) (hs : x'.system < e.systems.length)
    (hg : e'.listeners.Due full (.reference r) (x'.state.graphEntries r))
    (hr : ∀ (s : SystemId) (y : System ν), e'.systems[s]? = some y →
      y.listeners.Due full (.reference r) (if x'.system = s then x'.state.ruleEntries r else [])) :
    Owned full e' := by
  refine ⟨h.toNumbered.keeping hk, fun i => ?_, fun s y' i hy' => ?_, fun i x hx => ?_⟩
  · rw [hc]
    by_cases hi : i = r
    · rw [if_pos hi, hi]
      exact hg
    · rw [if_neg hi]
      exact (h.held i).keeps hk.graph (by simp [otherGraph, hi])
  · rw [hc]
    by_cases hi : i = r
    · rw [if_pos hi, hi]
      exact hr s y' hy'
    · obtain ⟨y, hy, -, hl⟩ := hk.systems s y' hy'
      rw [if_neg hi]
      exact (h.heldRules s y i hy).keeps hl (by simp [otherRules, hi])
  · rw [hk.housed]
    rw [hc] at hx
    by_cases hi : i = r
    · rw [if_pos hi] at hx
      exact Option.some.inj hx ▸ hs
    · rw [if_neg hi] at hx
      exact h.housed i x hx

theorem due (h : Owned full e) (hx : e.references[r]? = some x) :
    e.listeners.Due full (.reference r) (x.state.graphEntries r) := by
  have := h.held r
  rwa [core?_eq hx] at this

theorem dueRules (h : Owned full e) (hx : e.references[r]? = some x) {s : SystemId} {y : System ν}
    (hy : e.systems[s]? = some y) :
    y.listeners.Due full (.reference r) (if x.system = s then x.state.ruleEntries r else []) := by
  have := h.heldRules s y r hy
  rwa [core?_eq hx] at this

theorem housed_eq (h : Owned full e) (hx : e.references[r]? = some x) : x.system < e.systems.length :=
  h.housed r x.core (core?_eq hx)

/-! ## Leaving -/

/-- A reference that leaves the graph may have nothing there, and nobody else is touched. -/
theorem leaveGraph (h : Owned full e) (hx : e.references[r]? = some x) :
    e.listeners.Keeps (otherGraph r) (x.state.leaveGraph e.listeners) ∧
      (x.state.leaveGraph e.listeners).Due full (.reference r) [] := by
  have hg := h.due hx
  have drop : ∀ {z : Entry (Option Ty) GraphListener}, e.listeners.Due full (.reference r) [z] →
      e.listeners.Keeps (otherGraph r) (e.listeners.remove z.id) ∧
        (e.listeners.remove z.id).Due full (.reference r) [] := fun {z} hz =>
    ⟨hz.keeps_drop h.graph (by simp) otherGraph_ne, by simpa using hz.drop h.graph z.id⟩
  rcases hs : x.state with (_ | subs) | ⟨t, _ | watch⟩ <;> rw [hs] at hg
  · exact ⟨.refl _ _, hg⟩
  · exact drop hg
  · exact ⟨.refl _ _, hg⟩
  · exact drop hg

/-- A reference that ends its subscription to the rules may have nothing in any system, and nobody else is
touched. -/
theorem endRules (h : Owned full e) (hx : e.references[r]? = some x) {subs : Subscriptions}
    (hw : x.state = .unresolved (some subs)) (hl : e.listeners.Keeps (otherGraph r) e'.listeners)
    (hs : e'.systems = e.systems.modify x.system fun y =>
      { y with listeners := y.listeners.remove subs.rules }) :
    Keeping (otherGraph r) (otherRules r) e e' ∧
      ∀ (s : SystemId) (y : System ν), e'.systems[s]? = some y → y.listeners.Due full (.reference r) [] := by
  have hr : ∀ (s : SystemId) (y : System ν), e.systems[s]? = some y →
      y.listeners.Due full (.reference r) (if x.system = s then [⟨subs.rules, (), .reference r⟩] else []) := by
    intro s y hy
    have := h.dueRules hx hy
    rwa [hw] at this
  refine ⟨.of_modify hl hs fun y hy => ⟨rfl, ?_⟩, fun s y' hy' => ?_⟩
  · have hy' := hr _ y hy
    rw [if_pos rfl] at hy'
    exact hy'.keeps_drop (h.rules _ y hy) (List.mem_singleton_self _) otherRules_ne
  · rw [hs, List.getElem?_modify] at hy'
    obtain ⟨y, hy, rfl⟩ := Option.map_eq_some_iff.1 hy'
    have hy' := hr s y hy
    by_cases hxs : x.system = s
    · rw [if_pos hxs] at hy'
      simpa [hxs] using hy'.drop (h.rules s y hy) subs.rules
    · rw [if_neg hxs] at hy'
      simpa [hxs] using hy'

/-- The same of a reference in whatever state. -/
theorem leaveRules (h : Owned full e) (hx : e.references[r]? = some x)
    (hl : e.listeners.Keeps (otherGraph r) e'.listeners)
    (hs : e'.systems = x.state.leaveRules x.system e.systems) :
    Keeping (otherGraph r) (otherRules r) e e' ∧
      ∀ (s : SystemId) (y : System ν), e'.systems[s]? = some y → y.listeners.Due full (.reference r) [] := by
  have silent : x.state.ruleEntries r = [] → e'.systems = e.systems →
      ∀ (s : SystemId) (y : System ν), e'.systems[s]? = some y → y.listeners.Due full (.reference r) [] := by
    intro hn heq s y hy
    simpa [hn] using h.dueRules hx (heq ▸ hy)
  rcases hst : x.state with (_ | subs) | ⟨t, watch⟩ <;> rw [hst] at hs silent
  · exact ⟨.of_graph hl hs, silent rfl hs⟩
  · exact h.endRules hx hst hl hs
  · exact ⟨.of_graph hl hs, silent rfl hs⟩

/-! ## Each change leaves the reference no more than its state says -/

theorem keeping_resolve (h : Owned full e) {t : Ty} {subs : Subscriptions} (ht : Taken e r t x subs e') :
    Keeping (otherGraph r) (otherRules r) e e' ∧
      ∀ (s : SystemId) (y : System ν), e'.systems[s]? = some y → y.listeners.Due full (.reference r) [] := by
  have hg := h.due ht.found
  rw [ht.waiting] at hg
  refine h.endRules ht.found ht.waiting ?_ ht.systems
  rw [ht.listeners]
  exact hg.keeps_change h.graph (some t) otherGraph_ne

theorem resolve (h : Owned full e) (r : ReferenceId) (t : Ty) : Owned full (e.resolve r t) := by
  rcases resolve_cases e r t with ⟨heq, -⟩ | ⟨x, subs, ht⟩
  · rwa [heq]
  · have hh := h.housed_eq ht.found
    have hg := h.due ht.found
    rw [ht.waiting] at hg
    obtain ⟨hk, hr⟩ := h.keeping_resolve ht
    refine h.update hk (core?_setState ht.found _ ht.references) hh ?_
      fun s y hy => by simpa [ReferenceState.ruleEntries] using hr s y hy
    rw [ht.listeners]
    exact hg.change h.graph (some t)

theorem keeping_invalidate (h : Owned full e) {t : Ty} {watch : Nat} (hl : Lost e r t x watch e') :
    Keeping (otherGraph r) (otherRules r) e e' ∧ e'.listeners.Due full (.reference r) [] := by
  have hleave : e'.listeners = x.state.leaveGraph e.listeners := by
    rw [hl.listeners, hl.watching]
    rfl
  obtain ⟨hk, hg⟩ := h.leaveGraph hl.found
  exact ⟨.of_graph (hleave ▸ hk) hl.systems, hleave ▸ hg⟩

theorem invalidate (h : Owned full e) (r : ReferenceId) (t : Ty) : Owned full (e.invalidate r t) := by
  rcases invalidate_cases e r t with ⟨heq, -⟩ | ⟨x, watch, hl⟩
  · rwa [heq]
  · have hh := h.housed_eq hl.found
    obtain ⟨hk, hg⟩ := h.keeping_invalidate hl
    refine h.update hk (core?_setState hl.found _ hl.references) hh hg fun s y hy => ?_
    have := h.dueRules hl.found (hl.systems ▸ hy)
    rw [hl.watching] at this
    simpa [ReferenceState.ruleEntries] using this

/-- A reference without subscriptions gets one of each kind. -/
theorem subscribe (h : Owned full e) (hx : e.references[r]? = some x) (hn : x.state = .unresolved none) :
    Owned full (e.subscribe r x.system) := by
  have hh := h.housed_eq hx
  have hg := h.due hx
  rw [hn] at hg
  have hr : ∀ (s : SystemId) (y : System ν), e.systems[s]? = some y →
      y.listeners.Due full (.reference r) [] := fun s y hy => by
    simpa [hn, ReferenceState.ruleEntries] using h.dueRules hx hy
  refine h.update (keeping_subscribe e r x.system) (core?_setState hx _ rfl) hh
    (hg.add h.graph none) fun s y' hy' => ?_
  have hsys : (e.subscribe r x.system).systems = e.systems.modify x.system fun y =>
    { y with listeners := y.listeners.add () (.reference r) } := rfl
  rw [hsys, List.getElem?_modify] at hy'
  obtain ⟨y, hy, rfl⟩ := Option.map_eq_some_iff.1 hy'
  by_cases hs : x.system = s
  · subst hs
    simpa [Reference.core, ReferenceState.ruleEntries, nextRuleId, hy] using
      (hr _ y hy).add (h.rules _ y hy) ()
  · simpa [hs, Reference.core] using hr s y hy

theorem addReference (h : Owned full e) {s : SystemId} {selector : Selector ν}
    (hs : s < e.systems.length) (hk : e.knowsSelector selector) :
    Owned full (e.call (.addReference s selector)) := by
  rw [addReference_eq hk]
  have hnone : e.core? e.references.length = none := core?_eq_none.2 (Nat.le_refl _)
  have enlisted : Owned full { e with
      references := e.enlisted s selector
      stack := .deliver (.reference e.references.length) :: e.stack } := by
    refine h.update (.of_eq rfl rfl) (core?_enlisted hk rfl) hs ?_ fun i y hy => ?_
    · simpa [hnone, Reference.graphEntries, ReferenceState.graphEntries] using
        h.held e.references.length
    · simpa [hnone, Reference.ruleEntries, ReferenceState.ruleEntries] using
        h.heldRules i y e.references.length hy
  exact (enlisted.subscribe (enlisted_new hk) rfl).calm (plain_attempt _ _).calm

theorem keeping_deconstruct (h : Owned full e) (hst : Stopped e r x e') :
    Keeping (otherGraph r) (otherRules r) e e' ∧
      ∀ (s : SystemId) (y : System ν), e'.systems[s]? = some y → y.listeners.Due full (.reference r) [] :=
  h.leaveRules hst.found (hst.listeners ▸ (h.leaveGraph hst.found).1) hst.systems

theorem deconstruct (h : Owned full e) (r : ReferenceId) : Owned full (e.deconstruct r) := by
  rcases deconstruct_cases e r with heq | ⟨x, hst⟩
  · rwa [heq]
  · have hh := h.housed_eq hst.found
    obtain ⟨hk, hr⟩ := h.keeping_deconstruct hst
    have hf : x.state.frozen.graphEntries r = [] ∧ x.state.frozen.ruleEntries r = [] := by
      cases x.state <;> exact ⟨rfl, rfl⟩
    refine h.update hk (core?_stopped hst.found hst.references) hh ?_
      fun s y hy => by simpa [hf.2] using hr s y hy
    rw [hst.listeners]
    simpa [hf.1] using (h.leaveGraph hst.found).2

theorem addSystem {y₀ : System ν} (h : Owned full e) (hl : y₀.listeners = {})
    (hn : y₀.subscription = e.listeners.nextId) (hs : e'.systems = e.systems ++ [y₀])
    (hg : e'.listeners = e.listeners.add none (.system e.systems.length))
    (hc : ∀ r, e'.core? r = e.core? r) : Owned full e' := by
  refine ⟨h.toNumbered.addSystem hl hn hs hg, fun r => ?_, fun s y r hy => ?_, fun r x hx => ?_⟩
  · have kept : e.listeners.Keeps GraphListener.isReference e'.listeners := hg ▸ .add none rfl
    rw [hc]
    exact (h.held r).keeps kept rfl
  · rw [hc]
    rcases systems_of_append hs hy with hy | ⟨rfl, rfl⟩
    · exact h.heldRules s y r hy
    · have hnil : Reference.ruleEntries r e.systems.length (e.core? r) = [] := by
        cases hx : e.core? r with
        | none => rfl
        | some x =>
          have := h.housed r x hx
          simp [Reference.ruleEntries, Nat.ne_of_lt this]
      rw [hnil, hl]
      exact .of_held Registry.ordered_new rfl
  · rw [hs, List.length_append]
    exact Nat.lt_add_right _ (h.housed r x (hc r ▸ hx))

/-- A host that ends a subscription of a reference takes something away, but gives nothing. -/
theorem enrol {m : Move ν} (h : Owned full e) (hm : full → SparesReferences e m) (ha : Aside e e')
    (he : Enrols e m e') : Owned full e' := by
  have hc : ∀ r, e'.core? r = e.core? r := fun r => by rw [core?, ha.references]; rfl
  have ended : ∀ id, (full → ∀ r, ∀ z ∈ e.listeners.held (.reference r), z.id ≠ id) →
      e'.listeners = e.listeners.remove id → e'.systems = e.systems → Owned full e' := by
    intro id hid hl hs
    have hk : Keeping (fun _ => false) (fun _ => false) e e' :=
      .of_graph (hl ▸ .remove h.graph fun _ hf => by cases hf) hs
    refine ⟨h.toNumbered.keeping hk, fun r => ?_, fun s y r hy => ?_, fun r x hx => ?_⟩
    · rw [hl, hc]
      exact (h.held r).remove h.graph fun hf => hid hf r
    · rw [hc]
      exact h.heldRules s y r (hs ▸ hy)
    · rw [hs]
      exact h.housed r x (hc r ▸ hx)
  cases he with
  | forget hl hs =>
    exact h.keeping (g := fun _ => true) (k := fun _ => true) (.of_eq hl hs) (fun _ => rfl) (fun _ => rfl) hc
  | addSystem hl hn hs hg => exact h.addSystem hl hn hs hg hc
  | @leaveGraph id hid hl hs => exact ended id (fun hf => (hm hf).graph id hid) hl hs
  | @leaveRules s id hid hl hs =>
    have hk : Keeping (fun _ => false) (fun _ => false) e e' :=
      .of_modify (hl ▸ .refl _ _) hs fun y hy => ⟨rfl, .remove (h.rules s y hy) fun _ hf => by cases hf⟩
    refine ⟨h.toNumbered.keeping hk, fun r => ?_, fun i y' r hy' => ?_, fun r x hx => ?_⟩
    · rw [hl, hc]
      exact h.held r
    · rw [hc]
      rw [hs, List.getElem?_modify] at hy'
      obtain ⟨y, hy, rfl⟩ := Option.map_eq_some_iff.1 hy'
      split
      · rename_i hi
        exact (h.heldRules i y r hy).remove (h.rules i y hy) fun hf =>
          (hm hf).rules s id y hid (hi ▸ hy) r
      · exact h.heldRules i y r hy
    · rw [hk.housed]
      exact h.housed r x (hc r ▸ hx)
  | @retire s y _ hy hl hs =>
    refine ended y.subscription (fun _ r z hz hid => ?_) hl hs
    -- the number belongs to the system
    obtain ⟨hz, hzl⟩ := Registry.mem_held.1 hz
    rw [(h.own s y hy).2 z hz hid] at hzl
    cases hzl

end Owned

/-! ## Runs -/

theorem owned_new {full : Prop} : Owned full ({} : Engine ν) where
  graph := Registry.ordered_new
  rules := fun s y hy => by simp at hy
  own := fun s y hy => by simp at hy
  held := fun r => .of_held Registry.ordered_new (by simp [core?, Reference.graphEntries])
  heldRules := fun s y r hy => by simp at hy
  housed := fun r x hx => by simp [core?] at hx

theorem step_owned {full : Prop} {e e' : Engine ν} {m : Move ν} (hl : Lively e) (h : Owned full e)
    (hm : full → SparesReferences e m) (hstep : Step e m e') : Owned full e' := by
  have stack : ∀ frames, Owned full (e.withStack frames) := fun frames =>
    h.keeping (g := fun _ => true) (k := fun _ => true) (.of_eq rfl rfl) (fun _ => rfl) (fun _ => rfl)
      fun _ => rfl
  cases hstep with
  | calm hu hc =>
    cases hu with
    | call => exact h.calm hc
    | done => exact (stack _).calm hc
    | read => exact (stack _).calm hc
  | enrol ha he => exact h.enrol hm ha he
  | skip _ _ hp => exact (stack _).calm hp
  | attempt => exact (stack _).calm (plain_attempt _ _).calm
  | lose => exact (stack _).invalidate _ _
  | @restart rest r hs =>
    rcases startResolving_cases (e.withStack rest) r with ⟨heq, -⟩ | ⟨x, hx, hd, heq⟩
    · rw [heq]
      exact stack rest
    · have hr : e.restarts r ≠ 0 := by simp [restarts, hs, Frame.isRestartOf]
      rw [heq]
      exact ((stack rest).subscribe hx (hl.of_restart hx hd hr).1).calm (plain_attempt _ _).calm
  | resolve => exact (stack _).resolve _ _
  | addReference _ hs hk => exact h.addReference hs hk
  | deconstruct _ => exact (h.deconstruct _).calm (.finish (p := none) _)

/-- In every run a reference has at most the subscriptions that its state says. -/
theorem Reachable.owned {e : Engine ν} (h : e.Reachable) : Owned False e := by
  obtain ⟨moves, hr⟩ := h
  have keeps : ∀ {e e' : Engine ν} {m : Move ν}, Lively e ∧ Owned False e → e.move? m = some e' →
      Lively e' ∧ Owned False e' := fun h hm =>
    ⟨step_lively h.1 (move?_step hm), step_owned h.1 h.2 nofun (move?_step hm)⟩
  exact (run?_keeps keeps ⟨lively_new, owned_new⟩ hr).2

end Engine
end LiveTypes
