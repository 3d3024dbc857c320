import LiveTypes.Proofs.Moves

/-!
# How a reference changes

A reference changes its state in five places only. Each of them either leaves the engine as it is or
does one known change, and the lemmas here say which, field by field, so that later proofs open none of
the functions.
-/
namespace LiveTypes

/-- The reference that a selector reads. -/
def Selector.source? {ν : Type} : Selector ν → Option ReferenceId
  | .reference r => some r
  | _ => none

/-- A reference without those who listen to it and those who read it. -/
def Reference.core {ν : Type} (x : Reference ν) : Reference ν :=
  { x with listeners := [], dependents := [] }

namespace ReferenceState

/-- The listeners of the graph without the subscription of a reference in this state. -/
def leaveGraph (state : ReferenceState) (listeners : Registry (Option Ty) GraphListener) :
    Registry (Option Ty) GraphListener :=
  match state with
  | .unresolved (some subscriptions) => listeners.remove subscriptions.graph
  | .resolved _ (some watch) => listeners.remove watch
  | _ => listeners

/-- The systems without the subscription of a reference of system `s` in this state. -/
def leaveRules {ν : Type} (state : ReferenceState) (s : SystemId) (systems : List (System ν)) :
    List (System ν) :=
  match state with
  | .unresolved (some subscriptions) =>
    systems.modify s fun y => { y with listeners := y.listeners.remove subscriptions.rules }
  | _ => systems

/-- The state in which a reference stays for good. -/
def frozen : ReferenceState → ReferenceState
  | .unresolved _ => .unresolved none
  | .resolved t _ => .resolved t none

@[simp] theorem frozen_type? (state : ReferenceState) : state.frozen.type? = state.type? := by
  cases state <;> rfl

end ReferenceState

namespace Engine

variable {ν : Type} {e e' : Engine ν} {r : ReferenceId} {t : Ty} {x : Reference ν}

/-! ## Looking -/

theorem typeOf?_eq (hx : e.references[r]? = some x) : e.typeOf? r = x.state.type? := by
  simp [typeOf?, hx]

theorem typeOf?_of_missing (h : e.references[r]? = none) : e.typeOf? r = none := by
  simp [typeOf?, h]

/-- A reference, apart from those who listen to it and those who read it. -/
def core? (e : Engine ν) (r : ReferenceId) : Option (Reference ν) :=
  e.references[r]?.map Reference.core

theorem core?_eq (hx : e.references[r]? = some x) : e.core? r = some x.core := by
  simp [core?, hx]

theorem core?_eq_none : e.core? r = none ↔ e.references.length ≤ r := by
  simp [core?]

theorem typeOf?_eq_core : e.typeOf? r = (e.core? r).bind (·.state.type?) := by
  simp [typeOf?, core?, Option.bind_map, Function.comp_def, Reference.core]

/-- A change of the state of one reference. -/
theorem core?_setState (hx : e.references[r]? = some x) (state : ReferenceState)
    (he' : e'.references = e.references.modify r fun y => { y with state }) (i : ReferenceId) :
    e'.core? i = if i = r then some { x.core with state } else e.core? i := by
  by_cases hi : i = r
  · subst hi
    simp [core?, he', hx, Reference.core]
  · simp [core?, he', List.getElem?_modify_ne _ _ (Ne.symm hi), hi]

theorem typeOf?_setState (hx : e.references[r]? = some x) {state : ReferenceState}
    (he' : e'.references = e.references.modify r fun y => { y with state }) (i : ReferenceId) :
    e'.typeOf? i = if i = r then state.type? else e.typeOf? i := by
  rw [typeOf?_eq_core, core?_setState hx _ he']
  split
  · rfl
  · rw [typeOf?_eq_core]

theorem Calm.missing {p : Option Purpose} (h : Calm p e e') :
    e'.references.length = e.references.length := by
  simpa using congrArg List.length h.references

theorem Calm.core? {p : Option Purpose} (h : Calm p e e') (r : ReferenceId) :
    e'.core? r = e.core? r := by
  have hr := congrArg (fun xs : List (Reference ν) => xs[r]?.map Reference.core) h.references
  have hb : Reference.core ∘ Reference.bare = (Reference.core : Reference ν → Reference ν) := rfl
  simpa [Engine.core?, hb] using hr

theorem Calm.typeOf? {p : Option Purpose} (h : Calm p e e') (r : ReferenceId) :
    e'.typeOf? r = e.typeOf? r := by
  rw [typeOf?_eq_core, typeOf?_eq_core, h.core?]

/-! ## One reference changes -/

/-- The state of one reference changes. -/
structure Restated (e : Engine ν) (r : ReferenceId) (x : Reference ν) (state : ReferenceState)
    (e' : Engine ν) : Prop where
  found : e.core? r = some x
  core : ∀ i, e'.core? i = if i = r then some { x with state } else e.core? i

theorem restated_setState {y : Reference ν} {state : ReferenceState} (hy : e.references[r]? = some y)
    (he' : e'.references = e.references.modify r fun z => { z with state }) :
    Restated e r y.core state e' :=
  ⟨core?_eq hy, core?_setState hy state he'⟩

namespace Restated

variable {state : ReferenceState} {i : ReferenceId} {y : Reference ν} (hre : Restated e r x state e')
include hre

theorem self : e'.core? r = some { x with state } := by rw [hre.core, if_pos rfl]

theorem other (hi : i ≠ r) (hy : e'.core? i = some y) : e.core? i = some y := by
  rw [hre.core, if_neg hi] at hy
  exact hy

/-- Who is deconstructed does not change. -/
theorem old (i : ReferenceId) (y' : Reference ν) (hy' : e'.core? i = some y') :
    ∃ y, e.core? i = some y ∧ y'.deconstructed = y.deconstructed := by
  by_cases hi : i = r
  · subst hi
    cases hre.self.symm.trans hy'
    exact ⟨x, hre.found, rfl⟩
  · exact ⟨y', hre.other hi hy', rfl⟩

theorem typeOf? (hi : i ≠ r) : e'.typeOf? i = e.typeOf? i := by
  rw [typeOf?_eq_core, typeOf?_eq_core, hre.core, if_neg hi]

end Restated

/-! ## Trying -/

theorem attempt_of_pending (hx : e.references[r]? = some x) (hp : x.isPending) :
    e.attempt r = e.select x.system (.resolution r) x.selector := by
  simp [attempt, hx, hp]

theorem attempt_of_not_pending (h : ∀ x, e.references[r]? = some x → x.isPending = false) :
    e.attempt r = e := by
  unfold attempt
  split
  · rfl
  · rename_i x hx
    simp [h x hx]

theorem plain_attempt (e : Engine ν) (r : ReferenceId) :
    Plain (some (.resolution r)) e (e.attempt r) := by
  unfold attempt
  split
  · exact .refl _ _
  · split
    · exact plain_select e _ _ _ (by simp)
    · exact .refl _ _

/-! ## Taking a type -/

/-- The reference `x` that waited with the given subscriptions has taken a type. -/
structure Taken (e : Engine ν) (r : ReferenceId) (t : Ty) (x : Reference ν) (subs : Subscriptions)
    (e' : Engine ν) : Prop where
  found : e.references[r]? = some x
  waiting : x.state = .unresolved (some subs)
  graph : e'.graph = e.graph
  listeners : e'.listeners = (e.listeners.add (some t) (.reference r)).remove subs.graph
  systems : e'.systems = e.systems.modify x.system fun y =>
    { y with listeners := y.listeners.remove subs.rules }
  references : e'.references = e.references.modify r fun y =>
    { y with state := .resolved t (some e.listeners.nextId) }
  gone : e'.gone = e.gone
  stack : e'.stack = .referencePass r (.resolved t)
    (x.listeners.map .observer ++ x.dependents.map .dependent) :: e.stack
  trace : ∃ text, e'.trace = e.trace ++ [.log (.resolved r text t)]

/-- A reference that waits takes the type; any other stays as it is. -/
theorem resolve_cases (e : Engine ν) (r : ReferenceId) (t : Ty) :
    (e.resolve r t = e ∧ ∀ x, e.references[r]? = some x → x.isPending = false) ∨
    ∃ x subs, Taken e r t x subs (e.resolve r t) := by
  unfold resolve
  split
  · rename_i hx
    exact .inl ⟨rfl, by simp [hx]⟩
  · rename_i x hx
    split
    · rename_i subs hs
      refine .inr ⟨x, subs, ?_⟩
      rw [push_eq _ rfl]
      exact ⟨hx, hs, rfl, rfl, rfl, rfl, rfl, rfl, _, rfl⟩
    · rename_i hs
      refine .inl ⟨rfl, fun y hy => ?_⟩
      cases hx.symm.trans hy
      unfold Reference.isPending
      split
      · rename_i subs h
        exact absurd h (hs subs)
      · rfl

/-! ## Losing a type -/

/-- The reference `x` on a type with the given watch has lost it. -/
structure Lost (e : Engine ν) (r : ReferenceId) (t : Ty) (x : Reference ν) (watch : Nat)
    (e' : Engine ν) : Prop where
  found : e.references[r]? = some x
  watching : x.state = .resolved t (some watch)
  graph : e'.graph = e.graph
  listeners : e'.listeners = e.listeners.remove watch
  systems : e'.systems = e.systems
  references : e'.references = e.references.modify r fun y => { y with state := .unresolved none }
  gone : e'.gone = e.gone
  stack : e'.stack = .referencePass r (.invalidated (some t)) (x.listeners.map .observer) ::
    .restart r :: e.stack
  trace : ∃ text, e'.trace = e.trace ++ [.log (.invalidated r text t)]

/-- A reference on the type loses it and is to start over; any other stays as it is. -/
theorem invalidate_cases (e : Engine ν) (r : ReferenceId) (t : Ty) :
    (e.invalidate r t = e ∧
      ∀ x, e.references[r]? = some x → ∀ w, x.state ≠ .resolved t (some w)) ∨
    ∃ x watch, Lost e r t x watch (e.invalidate r t) := by
  unfold invalidate
  split
  · rename_i hx
    exact .inl ⟨rfl, by simp [hx]⟩
  · rename_i x hx
    split
    · rename_i current watch hs
      split
      · rename_i ht
        subst ht
        refine .inr ⟨x, watch, ?_⟩
        rw [push_eq _ rfl, push_eq _ rfl]
        exact ⟨hx, hs, rfl, rfl, rfl, rfl, rfl, rfl, _, rfl⟩
      · rename_i ht
        refine .inl ⟨rfl, fun y hy w hw => ?_⟩
        cases hx.symm.trans hy
        rw [hs] at hw
        cases hw
        exact ht rfl
    · rename_i hs
      refine .inl ⟨rfl, fun y hy w hw => ?_⟩
      cases hx.symm.trans hy
      exact hs t w hw

/-! ## Starting over -/

/-- The number of the next subscription to the rules of a system. -/
def nextRuleId (e : Engine ν) (s : SystemId) : Nat :=
  match e.systems[s]? with
  | some system => system.listeners.nextId
  | none => 0

/-- The engine after a reference has subscribed to the graph and to the rules. -/
def subscribe (e : Engine ν) (r : ReferenceId) (s : SystemId) : Engine ν :=
  { e with
    listeners := e.listeners.add none (.reference r)
    systems := e.systems.modify s fun y =>
      { y with listeners := y.listeners.add () (.reference r) }
    references := e.references.modify r fun y =>
      { y with state := .unresolved (some ⟨e.listeners.nextId, e.nextRuleId s⟩) } }

/-- A reference starts over by subscribing and trying, unless it is deconstructed. -/
theorem startResolving_cases (e : Engine ν) (r : ReferenceId) :
    (e.startResolving r = e ∧ ∀ x, e.references[r]? = some x → x.deconstructed) ∨
    ∃ x, e.references[r]? = some x ∧ x.deconstructed = false ∧
      e.startResolving r = (e.subscribe r x.system).attempt r := by
  unfold startResolving
  split
  · rename_i hx
    exact .inl ⟨rfl, by simp [hx]⟩
  · rename_i x hx
    split
    · rename_i hd
      refine .inl ⟨rfl, fun y hy => ?_⟩
      cases hx.symm.trans hy
      exact hd
    · rename_i hd
      exact .inr ⟨x, hx, by simpa using hd, rfl⟩

/-! ## Coming into being -/

/-- The references after a new one has come, which the reference it reads has to tell. -/
def enlisted (e : Engine ν) (s : SystemId) (selector : Selector ν) : List (Reference ν) :=
  let references := e.references ++ [{ selector, system := s }]
  match selector.source? with
  | some source =>
    references.modify source fun y => { y with dependents := y.dependents ++ [e.references.length] }
  | none => references

theorem knowsSelector_source {selector : Selector ν} {source : ReferenceId}
    (h : e.knowsSelector selector) (hs : selector.source? = some source) :
    source < e.references.length := by
  cases selector <;> simp_all [Selector.source?, knowsSelector]

theorem enlisted_new {s : SystemId} {selector : Selector ν} (h : e.knowsSelector selector) :
    (e.enlisted s selector)[e.references.length]? = some { selector, system := s } := by
  unfold enlisted
  split
  · rename_i source hs
    have hne : source ≠ e.references.length := Nat.ne_of_lt (knowsSelector_source h hs)
    rw [List.getElem?_modify_ne _ _ hne, List.getElem?_concat_length]
  · rw [List.getElem?_concat_length]

/-- Another reference changes by a new one only in whom it has to tell. -/
theorem enlisted_old {s : SystemId} {selector : Selector ν} (hr : r < e.references.length) :
    (e.enlisted s selector)[r]? = e.references[r]?.map fun y =>
      { y with dependents := if selector.source? = some r then y.dependents ++ [e.references.length]
          else y.dependents } := by
  unfold enlisted
  split
  · rename_i source hs
    rw [List.getElem?_modify, List.getElem?_append_left hr, hs]
    cases e.references[r]? with
    | none => rfl
    | some y => by_cases h : source = r <;> simp [h]
  · rename_i hs
    rw [List.getElem?_append_left hr, hs]
    cases e.references[r]? <;> simp

@[simp] theorem length_enlisted (s : SystemId) (selector : Selector ν) :
    (e.enlisted s selector).length = e.references.length + 1 := by
  unfold enlisted
  split <;> simp

theorem core?_enlisted {s : SystemId} {selector : Selector ν} (h : e.knowsSelector selector)
    (he' : e'.references = e.enlisted s selector) (i : ReferenceId) :
    e'.core? i = if i = e.references.length then some { selector, system := s } else e.core? i := by
  by_cases hi : i = e.references.length
  · rw [if_pos hi, hi, core?, he', enlisted_new h]
    rfl
  · rw [if_neg hi, core?, core?, he']
    by_cases hl : i < e.references.length
    · rw [enlisted_old hl, Option.map_map]
      rfl
    · have : e.references.length + 1 ≤ i := Nat.lt_of_le_of_ne (Nat.le_of_not_lt hl) (Ne.symm hi)
      rw [List.getElem?_eq_none (by rw [length_enlisted]; exact this),
        List.getElem?_eq_none (Nat.le_of_not_lt hl)]

/-- A new reference starts like one that starts over. -/
theorem addReference_eq {s : SystemId} {selector : Selector ν} (h : e.knowsSelector selector) :
    e.call (.addReference s selector) =
      ({ e with
        references := e.enlisted s selector
        stack := .deliver (.reference e.references.length) :: e.stack }.subscribe
          e.references.length s).attempt e.references.length := by
  have hcall : e.call (.addReference s selector) = { e with
      references := e.enlisted s selector
      stack := .deliver (.reference e.references.length) :: e.stack }.startResolving
        e.references.length := by
    cases selector <;> exact congrArg (startResolving · _) (push_eq _ rfl)
  rw [hcall]
  rcases startResolving_cases { e with
      references := e.enlisted s selector
      stack := .deliver (.reference e.references.length) :: e.stack } e.references.length
    with ⟨-, hd⟩ | ⟨x, hx, -, heq⟩
  · exact absurd (hd _ (enlisted_new h)) (by simp)
  · rw [heq]
    cases (enlisted_new h).symm.trans hx
    rfl

/-! ## Going -/

/-- The references after one of them has been stopped. -/
def stopped (e : Engine ν) (r : ReferenceId) (x : Reference ν) : List (Reference ν) :=
  let references := match x.selector.source? with
    | some source => e.references.modify source fun y => { y with dependents := y.dependents.erase r }
    | none => e.references
  references.modify r fun y =>
    { y with state := x.state.frozen, listeners := [], dependents := [], deconstructed := true }

theorem stopped_self (hx : e.references[r]? = some x) :
    (e.stopped r x)[r]? = some
      { x with state := x.state.frozen, listeners := [], dependents := [], deconstructed := true } := by
  unfold stopped
  rw [List.getElem?_modify_eq]
  split
  · rename_i source hs
    rw [List.getElem?_modify, hx]
    by_cases h : source = r <;> simp [h]
  · simp [hx]

/-- Another reference changes by one that stops only in whom it has to tell. -/
theorem stopped_other {i : ReferenceId} (hi : i ≠ r) :
    (e.stopped r x)[i]? = e.references[i]?.map fun y =>
      { y with dependents := if x.selector.source? = some i then y.dependents.erase r
          else y.dependents } := by
  unfold stopped
  rw [List.getElem?_modify_ne _ _ hi.symm]
  split
  · rename_i source hs
    rw [List.getElem?_modify, hs]
    cases e.references[i]? with
    | none => rfl
    | some y => by_cases h : source = i <;> simp [h]
  · rename_i hs
    rw [hs]
    cases e.references[i]? <;> simp

theorem core?_stopped (hx : e.references[r]? = some x) (he' : e'.references = e.stopped r x)
    (i : ReferenceId) :
    e'.core? i = if i = r then some { x.core with state := x.state.frozen, deconstructed := true }
      else e.core? i := by
  by_cases hi : i = r
  · rw [if_pos hi, hi, core?, he', stopped_self hx]
    rfl
  · rw [if_neg hi, core?, core?, he', stopped_other hi, Option.map_map]
    rfl

@[simp] theorem length_stopped (r : ReferenceId) (x : Reference ν) :
    (e.stopped r x).length = e.references.length := by
  unfold stopped
  split <;> simp

/-- The reference `x` has been stopped. -/
structure Stopped (e : Engine ν) (r : ReferenceId) (x : Reference ν) (e' : Engine ν) : Prop where
  found : e.references[r]? = some x
  live : x.deconstructed = false
  graph : e'.graph = e.graph
  listeners : e'.listeners = x.state.leaveGraph e.listeners
  systems : e'.systems = x.state.leaveRules x.system e.systems
  references : e'.references = e.stopped r x
  gone : e'.gone = e.gone
  stack : e'.stack = e.stack
  trace : ∃ text, e'.trace = e.trace ++ [.log (.deconstructed r text)]

/-- A reference that is not stopped yet ends its subscriptions and keeps its type. -/
theorem deconstruct_live (hx : e.references[r]? = some x) (hd : x.deconstructed = false) :
    Stopped e r x (e.deconstruct r) := by
  unfold deconstruct
  rw [hx]
  obtain ⟨selector, s, state, listeners, dependents, deconstructed⟩ := x
  cases hd
  rcases state with (_ | subs) | ⟨t, _ | w⟩ <;> cases selector <;>
    exact ⟨hx, rfl, rfl, rfl, rfl, rfl, rfl, rfl, _, rfl⟩

/-- Any other stays as it is. -/
theorem deconstruct_eq_self (h : ∀ x, e.references[r]? = some x → x.deconstructed) :
    e.deconstruct r = e := by
  unfold deconstruct
  split
  · rfl
  · rename_i x hx
    simp [h x hx]

theorem deconstruct_cases (e : Engine ν) (r : ReferenceId) :
    e.deconstruct r = e ∨ ∃ x, Stopped e r x (e.deconstruct r) := by
  cases hx : e.references[r]? with
  | none => exact .inl (deconstruct_eq_self (by simp [hx]))
  | some x =>
    cases hd : x.deconstructed with
    | false => exact .inr ⟨x, deconstruct_live hx hd⟩
    | true => exact .inl (deconstruct_eq_self (by simp [hx, hd]))

end Engine
end LiveTypes
