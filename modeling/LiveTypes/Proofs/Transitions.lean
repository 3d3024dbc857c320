import LiveTypes.Proofs.GraphWork
import LiveTypes.Proofs.Queues

/-!
# How the states of references change

`Engine.StateStep` says what a move does to the states of all references at once: it changes none, or one
reference loses its type, starts over, takes a type, comes into being or is deconstructed. `Engine.Retypes`
and `Engine.Renumbers` say what that means for their types and for their subscriptions to the graph. Beside
these stand two facts about the passes on removals. Who is to hear that its type left the graph stays so until
it has lost it. And nobody is newly to hear of a removal unless the pass on it begins, which will call all who
listen.
-/
namespace LiveTypes

variable {ν : Type}

/-- The type whose removal a reference in this state watches for. -/
def ReferenceState.watched? : ReferenceState → Option Ty
  | .resolved t (some _) => some t
  | _ => none

/-- The number under which a reference in this state listens to the graph. -/
def ReferenceState.graphNumber? : ReferenceState → Option Nat
  | .unresolved (some subs) => some subs.graph
  | .resolved _ (some watch) => some watch
  | _ => none

theorem ReferenceState.type?_of_watched {state : ReferenceState} {t : Ty} (h : state.watched? = some t) :
    state.type? = some t := by
  rcases state with subs | ⟨t', _ | watch⟩
  · cases h
  · cases h
  · exact h

theorem Frame.owesLoss_of_apart {f : Frame ν} (h : f.isGraphWork = false) (r : ReferenceId) (t : Ty) :
    f.owesLoss r t = false := by
  cases f <;> simp_all [isGraphWork, owesLoss]

namespace Engine

/-- Whether a reference watches for the removal of a type. -/
def watches (e : Engine ν) (r : ReferenceId) (t : Ty) : Bool :=
  (e.core? r).bind (·.state.watched?) = some t

/-- What a move can do to the states of references, and to those that are to start over. -/
inductive StateStep (e : Engine ν) (m : Move ν) (e' : Engine ν) : Prop
  | keeps : (∀ i, e'.core? i = e.core? i) → (∀ i, e'.restarts i ≤ e.restarts i) → StateStep e m e'
  | loses {i : ReferenceId} {x : Reference ν} {t : Ty} {watch : Nat} {key : String}
      {queue : List GraphListener} {rest : List (Frame ν)} :
    e.stack = .graphPass (.removedType t key) (.reference i :: queue) :: rest →
    x.state = .resolved t (some watch) → Restated e i x (.unresolved none) e' →
    (∀ j, j ≠ i → e'.restarts j ≤ e.restarts j) → StateStep e m e'
  | starts {i : ReferenceId} {x : Reference ν} {subs : Subscriptions} :
    e.restarts i ≠ 0 → x.state = .unresolved none → subs.graph = e.listeners.nextId →
    Restated e i x (.unresolved (some subs)) e' → (∀ j, e'.restarts j ≤ e.restarts j) → StateStep e m e'
  | takes {i : ReferenceId} {x : Reference ν} {t : Ty} {subs : Subscriptions} {f : Frame ν}
      {rest : List (Frame ν)} :
    e.stack = f :: rest → f.purpose? = some (.resolution i) →
    (∀ source, f.reads? = some (i, source) → e.typeOf? source = some t) →
    x.state = .unresolved (some subs) → Restated e i x (.resolved t (some e.listeners.nextId)) e' →
    (∀ j, e'.restarts j ≤ e.restarts j) → StateStep e m e'
  | enlists {s : SystemId} {selector : Selector ν} {subs : Subscriptions} :
    m = .call (.addReference s selector) → e.knowsSelector selector → subs.graph = e.listeners.nextId →
    (∀ j, e'.core? j = if j = e.references.length
      then some { selector, system := s, state := .unresolved (some subs) } else e.core? j) →
    (∀ j, e'.restarts j ≤ e.restarts j) → StateStep e m e'
  | stops {i : ReferenceId} {x : Reference ν} : e.core? i = some x →
    (∀ j, e'.core? j = if j = i then some { x with state := x.state.frozen, deconstructed := true }
      else e.core? j) →
    (∀ j, e'.restarts j ≤ e.restarts j) → StateStep e m e'

section Inversion

variable {e e' : Engine ν} {m : Move ν} {f : Frame ν} {rest : List (Frame ν)} {i : ReferenceId} {t : Ty}

theorem invalidate_stateStep {key : String} {queue : List GraphListener}
    (hs : e.stack = .graphPass (.removedType t key) (.reference i :: queue) :: rest) :
    StateStep e m ((e.withStack (.graphPass (.removedType t key) queue :: rest)).invalidate i t) := by
  rcases invalidate_cases (e.withStack (.graphPass (.removedType t key) queue :: rest)) i t
    with ⟨heq, -⟩ | ⟨x, watch, hlost⟩
  · rw [heq]
    exact .keeps (fun _ => rfl) fun j => by simp [restarts, hs, Frame.isRestartOf]
  · refine .loses hs (x := x.core) hlost.watching ⟨core?_eq hlost.found, ?_⟩ fun j hj => ?_
    · exact core?_setState hlost.found _ hlost.references
    · simp [restarts, hlost.stack, hs, Frame.isRestartOf, Ne.symm hj]

theorem startResolving_stateStep (hv : Lively e) (hs : e.stack = .restart i :: rest) :
    StateStep e m ((e.withStack rest).startResolving i) := by
  have fewer : ∀ j, (e.withStack rest).restarts j ≤ e.restarts j := fun j => by
    simp [restarts, hs, List.countP_cons]
  rcases startResolving_cases (e.withStack rest) i with ⟨heq, -⟩ | ⟨x, hx, hd, heq⟩
  · rw [heq]
    exact .keeps (fun _ => rfl) fewer
  · have hr : e.restarts i ≠ 0 := by simp [restarts, hs, Frame.isRestartOf]
    have hcalm := (plain_attempt ((e.withStack rest).subscribe i x.system) i).calm
    rw [heq]
    have restated : Restated e i x.core (.unresolved (some
        ⟨e.listeners.nextId, (e.withStack rest).nextRuleId x.system⟩))
        (((e.withStack rest).subscribe i x.system).attempt i) := by
      refine ⟨core?_eq hx, fun j => ?_⟩
      rw [hcalm.core?]
      exact core?_setState hx _ rfl j
    refine .starts hr (x := x.core) (hv.of_restart hx hd hr).1 (by rfl) restated fun j => ?_
    rw [hcalm.restarts]
    exact fewer j

theorem resolve_stateStep (hs : e.stack = f :: rest) (hp : f.purpose? = some (.resolution i))
    (ht : ∀ source, f.reads? = some (i, source) → e.typeOf? source = some t) :
    StateStep e m ((e.withStack rest).resolve i t) := by
  rcases resolve_cases (e.withStack rest) i t with ⟨heq, -⟩ | ⟨x, subs, htaken⟩
  · rw [heq]
    exact .keeps (fun _ => rfl) fun j => by simp [restarts, hs, List.countP_cons]
  · refine .takes hs hp ht (x := x.core) htaken.waiting ⟨core?_eq htaken.found, ?_⟩ fun j => ?_
    · exact core?_setState htaken.found _ htaken.references
    · simp [restarts, htaken.stack, hs, List.countP_cons, Frame.isRestartOf]

theorem addReference_stateStep {s : SystemId} {selector : Selector ν} (hk : e.knowsSelector selector)
    (hm : m = .call (.addReference s selector)) : StateStep e m (e.call (.addReference s selector)) := by
  rw [addReference_eq hk]
  let subs : Subscriptions := ⟨e.listeners.nextId, nextRuleId { e with
    references := e.enlisted s selector
    stack := .deliver (.reference e.references.length) :: e.stack } s⟩
  refine .enlists hm hk (show subs.graph = e.listeners.nextId from rfl) (fun j => ?_) fun j => ?_
  · rw [(plain_attempt _ _).calm.core?, core?_setState (enlisted_new hk) _ rfl]
    by_cases hj : j = e.references.length
    · rw [if_pos hj, if_pos hj]
      rfl
    · rw [if_neg hj, if_neg hj, core?_enlisted hk rfl, if_neg hj]
  · rw [(plain_attempt _ _).calm.restarts]
    simp [restarts, subscribe, Frame.isRestartOf]

theorem deconstruct_stateStep : StateStep e m ((e.deconstruct i).finish .done) := by
  have hcalm : Calm none (e.deconstruct i) ((e.deconstruct i).finish .done) := .finish _
  rcases deconstruct_cases e i with heq | ⟨x, hst⟩
  · rw [heq] at hcalm ⊢
    exact .keeps hcalm.core? fun j => Nat.le_of_eq (hcalm.restarts j)
  · refine .stops (core?_eq hst.found) (fun j => ?_) fun j => ?_
    · rw [hcalm.core?]
      exact core?_stopped hst.found hst.references j
    · rw [hcalm.restarts]
      simp [restarts, hst.stack]

/-- What a step does to the states of references. -/
theorem step_stateStep (hv : Lively e) (hstep : Step e m e') : StateStep e m e' := by
  cases hstep with
  | calm hu hc =>
    exact .keeps (fun j => (hc.core? j).trans (hu.core? j))
      fun j => Nat.le_of_eq ((hc.restarts j).trans (hu.restarts j))
  | enrol ha _ =>
    refine .keeps (fun j => ?_) fun j => Nat.le_of_eq ?_
    · rw [core?, ha.references]
      rfl
    · rw [restarts, ha.stack]
      rfl
  | skip hs hk hp =>
    refine .keeps hp.core? fun j => Nat.le_of_eq ((hp.restarts j).trans ?_)
    simp [restarts, hs, hk.isRestartOf]
  | @attempt f f' rest i hs hk =>
    have hcalm := (plain_attempt (e.withStack (f' :: rest)) i).calm
    refine .keeps hcalm.core? fun j => Nat.le_of_eq ((hcalm.restarts j).trans ?_)
    simp [restarts, hs, hk.isRestartOf]
  | lose hs => exact invalidate_stateStep hs
  | restart hs => exact startResolving_stateStep hv hs
  | resolve hs hp ht => exact resolve_stateStep hs hp ht
  | addReference _ _ hk hm => exact addReference_stateStep hk hm
  | deconstruct _ => exact deconstruct_stateStep

end Inversion

/-! ## Types -/

/-- What a move can do to the types of references, and to those that are to start over. -/
inductive Retypes (e e' : Engine ν) : Prop
  | keeps : (∀ j, e'.typeOf? j = e.typeOf? j) → (∀ j, e'.restarts j ≤ e.restarts j) → Retypes e e'
  | loses {i : ReferenceId} {t : Ty} {key : String} {queue : List GraphListener} {rest : List (Frame ν)} :
    e.stack = .graphPass (.removedType t key) (.reference i :: queue) :: rest → e.watches i t →
    (∀ j, e'.typeOf? j = if j = i then none else e.typeOf? j) →
    (∀ j, j ≠ i → e'.restarts j ≤ e.restarts j) → Retypes e e'
  | takes {i : ReferenceId} {t : Ty} {f : Frame ν} {rest : List (Frame ν)} :
    e.stack = f :: rest → f.purpose? = some (.resolution i) →
    (∀ source, f.reads? = some (i, source) → e.typeOf? source = some t) → e.typeOf? i = none →
    (∀ j, e'.typeOf? j = if j = i then some t else e.typeOf? j) →
    (∀ j, e'.restarts j ≤ e.restarts j) → Retypes e e'

section Types

variable {e e' : Engine ν} {m : Move ν} {r source : ReferenceId} {x x' : Reference ν} {t : Ty}

theorem watches_eq (hx : e.core? r = some x) : e.watches r t = (x.state.watched? = some t) := by
  simp [watches, hx]

theorem typeOf?_of_watches (h : e.watches r t) : e.typeOf? r = some t := by
  simp only [watches, decide_eq_true_eq] at h
  obtain ⟨x, hx, hw⟩ := Option.bind_eq_some_iff.1 h
  rw [typeOf?_eq_core, hx]
  exact ReferenceState.type?_of_watched hw

theorem Restated.type? {state : ReferenceState} (h : Restated e r x state e') (j : ReferenceId) :
    e'.typeOf? j = if j = r then state.type? else e.typeOf? j := by
  rw [typeOf?_eq_core, h.core]
  split
  · rfl
  · rw [typeOf?_eq_core]

theorem StateStep.retypes (h : StateStep e m e') : Retypes e e' := by
  cases h with
  | keeps hc hle => exact .keeps (fun j => by rw [typeOf?_eq_core, hc, typeOf?_eq_core]) hle
  | loses hs hx hre hle =>
    refine .loses hs ?_ hre.type? hle
    rw [watches_eq hre.found, hx]
    rfl
  | @starts i x subs _ hx _ hre hle =>
    refine .keeps (fun j => (hre.type? j).trans ?_) hle
    split
    · rename_i hj
      rw [hj, typeOf?_eq_core, hre.found]
      simp [hx, ReferenceState.type?]
    · rfl
  | takes hs hp ht hx hre hle =>
    refine .takes hs hp ht ?_ hre.type? hle
    rw [typeOf?_eq_core, hre.found]
    simp [hx, ReferenceState.type?]
  | enlists _ _ _ hc hle =>
    refine .keeps (fun j => ?_) hle
    rw [typeOf?_eq_core, hc]
    split
    · rename_i hj
      rw [hj, typeOf?_eq_core, core?_eq_none.2 (Nat.le_refl _)]
      rfl
    · rw [typeOf?_eq_core]
  | stops hx hc hle =>
    refine .keeps (fun j => ?_) hle
    rw [typeOf?_eq_core, hc]
    split
    · rename_i hj
      rw [hj, typeOf?_eq_core, hx]
      exact ReferenceState.frozen_type? _
    · rw [typeOf?_eq_core]

/-- A reference that has a type and gets none other has the same. -/
theorem Retypes.same {t' : Ty} (h : Retypes e e') (ht : e.typeOf? r = some t) (ht' : e'.typeOf? r = some t') :
    t' = t := by
  cases h with
  | keeps hc =>
    rw [hc, ht] at ht'
    exact (Option.some.inj ht').symm
  | loses _ _ hc =>
    rw [hc] at ht'
    split at ht'
    · cases ht'
    · exact Option.some.inj (ht'.symm.trans ht)
  | takes _ _ _ hn hc =>
    rw [hc] at ht'
    split at ht'
    · rename_i hr
      rw [hr, hn] at ht
      cases ht
    · exact Option.some.inj (ht'.symm.trans ht)

/-- What a move can do to the numbers under which references listen to the graph. One of them may end its
subscription. Or one subscribes anew: it had no type, and it is new, was to start over or takes a type. -/
inductive Renumbers (e e' : Engine ν) : Prop
  | keeps : (∀ j, e'.core? j = e.core? j) → Renumbers e e'
  | ends {i : ReferenceId} : (∀ j, j ≠ i → e'.core? j = e.core? j) →
    (∀ x, e'.core? i = some x → x.state.graphNumber? = none) → Renumbers e e'
  | renews {i : ReferenceId} : (∀ j, j ≠ i → e'.core? j = e.core? j) →
    (∀ x, e'.core? i = some x → x.state.graphNumber? = some e.listeners.nextId) → e.typeOf? i = none →
    (e.core? i = none ∨ e.restarts i ≠ 0 ∨ e'.typeOf? i ≠ none) → Renumbers e e'

theorem StateStep.renumbers (h : StateStep e m e') : Renumbers e e' := by
  have others : ∀ {i : ReferenceId} {y : Reference ν} {state : ReferenceState}, Restated e i y state e' →
      ∀ j, j ≠ i → e'.core? j = e.core? j := fun hre j hj => by rw [hre.core, if_neg hj]
  have number : ∀ {i : ReferenceId} {y : Reference ν} {state : ReferenceState}, Restated e i y state e' →
      ∀ x, e'.core? i = some x → x.state.graphNumber? = state.graphNumber? := by
    intro i y state hre x hx
    cases hre.self.symm.trans hx
    rfl
  have untyped : ∀ {i : ReferenceId} {y : Reference ν} {state : ReferenceState} {subs : Option Subscriptions},
      Restated e i y state e' → y.state = .unresolved subs → e.typeOf? i = none := by
    intro i y state subs hre hy
    rw [typeOf?_eq_core, hre.found]
    simp [hy, ReferenceState.type?]
  cases h with
  | keeps hc => exact .keeps hc
  | loses _ _ hre => exact .ends (others hre) (number hre)
  | starts hres hy hnum hre =>
    exact .renews (others hre) (fun x hx => (number hre x hx).trans (congrArg some hnum)) (untyped hre hy)
      (.inr (.inl hres))
  | takes _ _ _ hy hre =>
    refine .renews (others hre) (number hre) (untyped hre hy) (.inr (.inr ?_))
    rw [hre.type?, if_pos rfl]
    simp [ReferenceState.type?]
  | enlists _ _ hnum hc =>
    have missing : e.core? e.references.length = none := core?_eq_none.2 (Nat.le_refl _)
    refine .renews (fun j hj => by rw [hc, if_neg hj]) (fun x hx => ?_) ?_ (.inl missing)
    · rw [hc, if_pos rfl] at hx
      cases hx
      exact congrArg some hnum
    · rw [typeOf?_eq_core, missing]
      rfl
  | @stops i y _ hc =>
    refine .ends (fun j hj => by rw [hc, if_neg hj]) fun x hx => ?_
    rw [hc, if_pos rfl] at hx
    cases hx
    rcases hst : y.state with subs | ⟨t, watch⟩ <;> simp [ReferenceState.frozen, ReferenceState.graphNumber?]

/-- The reference `x` comes into being: it has no type yet and has just subscribed to the graph. -/
structure Arises (e : Engine ν) (m : Move ν) (e' : Engine ν) (r : ReferenceId) (x : Reference ν) : Prop where
  missing : e.core? r = none
  untyped : x.state.type? = none
  number : x.state.graphNumber? = some e.listeners.nextId
  call : ∃ s, m = .call (.addReference s x.selector)
  others : ∀ j, j ≠ r → e'.core? j = e.core? j
  restarts : ∀ j, e'.restarts j ≤ e.restarts j

/-- Who is there after a move and not deconstructed was so before, or comes into being by it. -/
theorem StateStep.reader (h : StateStep e m e') (hx' : e'.core? r = some x')
    (hd : x'.deconstructed = false) : Arises e m e' r x' ∨
      ∃ x, e.core? r = some x ∧ x.deconstructed = false ∧ x.selector = x'.selector := by
  have restated : ∀ {i : ReferenceId} {y : Reference ν} {state : ReferenceState}, Restated e i y state e' →
      ∃ x, e.core? r = some x ∧ x.deconstructed = false ∧ x.selector = x'.selector := by
    intro i y state hre
    by_cases hr : r = i
    · subst hr
      cases hre.self.symm.trans hx'
      exact ⟨y, hre.found, hd, rfl⟩
    · exact ⟨x', hre.other hr hx', hd, rfl⟩
  cases h with
  | keeps hc => exact .inr ⟨x', hc r ▸ hx', hd, rfl⟩
  | loses _ _ hre => exact .inr (restated hre)
  | starts _ _ _ hre => exact .inr (restated hre)
  | takes _ _ _ _ hre => exact .inr (restated hre)
  | enlists hm _ hn hc hle =>
    rw [hc] at hx'
    split at hx'
    · rename_i hr
      cases hx'
      refine .inl ⟨core?_eq_none.2 (Nat.le_of_eq hr.symm), rfl, congrArg some hn, ⟨_, hm⟩, fun j hj => ?_, hle⟩
      rw [hc, if_neg (hr ▸ hj)]
    · exact .inr ⟨x', hx', hd, rfl⟩
  | stops _ hc =>
    rw [hc] at hx'
    split at hx'
    · cases hx'
      cases hd
    · exact .inr ⟨x', hx', hd, rfl⟩

/-- Who watches a type after a move watched it before, or had no type. -/
theorem StateStep.watches (h : StateStep e m e') (hw : e'.watches r t) :
    e.watches r t ∨ e.typeOf? r = none := by
  have restated : ∀ {i : ReferenceId} {y : Reference ν} {state : ReferenceState}, Restated e i y state e' →
      (r = i → state.watched? = none ∨ e.typeOf? r = none) → e.watches r t ∨ e.typeOf? r = none := by
    intro i y state hre hown
    by_cases hr : r = i
    · refine .inr ((hown hr).resolve_left fun hn => ?_)
      rw [watches_eq (hr ▸ hre.self)] at hw
      rw [hn] at hw
      cases hw
    · refine .inl ?_
      rw [Engine.watches, hre.core, if_neg hr] at hw
      exact hw
  cases h with
  | keeps hc =>
    rw [Engine.watches, hc] at hw
    exact .inl hw
  | loses _ _ hre => exact restated hre fun _ => .inl rfl
  | starts _ _ _ hre => exact restated hre fun _ => .inl rfl
  | takes _ _ _ hx hre =>
    refine restated hre fun hr => .inr ?_
    rw [typeOf?_eq_core, hr, hre.found]
    simp [hx, ReferenceState.type?]
  | enlists _ _ _ hc =>
    rw [Engine.watches, hc] at hw
    split at hw
    · cases (of_decide_eq_true hw : none = some t)
    · exact .inl hw
  | @stops i x _ hc =>
    rw [Engine.watches, hc] at hw
    split at hw
    · rcases hst : x.state with subs | ⟨t', watch⟩ <;>
        simp [hst, ReferenceState.frozen, ReferenceState.watched?] at hw
    · exact .inl hw

end Types

/-! ## Promises to hear of a removal -/

section Promises

variable {e e' : Engine ν} {m : Move ν} {r : ReferenceId} {t : Ty}

/-- Only the work on the graph owes it to anybody to hear of a removal. -/
theorem due_eq_works (e : Engine ν) (r : ReferenceId) (t : Ty) :
    e.due r t = e.works.any (·.owesLoss r t) := by
  rw [due, works, List.any_filter]
  congr 1
  funext f
  cases hf : f.isGraphWork with
  | true => rfl
  | false => simp [Frame.owesLoss_of_apart hf]

/-- Who is to hear of a removal was to hear of it before, or the pass begins and calls all who listen. -/
theorem move?_due (hm : e.move? m = some e') (h : e'.due r t) :
    e.due r t ∨ ∀ i, .reference i ∈ e.hearers t → e'.due i t := by
  simp only [due_eq_works] at h ⊢
  have hstep := move?_graphStep hm
  have hworks : e'.works = e'.graphSide.works := rfl
  rw [hworks] at h ⊢
  generalize e'.graphSide = side at hstep h
  cases hstep with
  | relist hr =>
    obtain ⟨listeners, -, rfl⟩ := hr
    exact .inl h
  | forget => exact .inl h
  | done hw => exact .inl (by simp [hw, show List.any _ _ = true from h])
  | @turn event l queue rest listeners hw _ =>
    refine .inl ?_
    simp only [List.any_cons, Bool.or_eq_true, hw] at h ⊢
    refine h.imp (fun h => ?_) id
    unfold Frame.owesLoss at h ⊢
    split at h
    · rename_i heq
      cases heq
      simp only [Bool.and_eq_true, List.contains_cons, Bool.or_eq_true] at h ⊢
      exact ⟨h.1, .inr h.2⟩
    · cases h
  | addType => exact .inl (by simpa [announced, Frame.owesLoss] using h)
  | addEdge => exact .inl (by simpa [announced, Frame.owesLoss] using h)
  | removeEdge => exact .inl (by simpa [announced, Frame.owesLoss] using h)
  | removeType => exact .inl (by simpa [Frame.owesLoss] using h)
  | dropEdge hw => exact .inl (by simpa [announced, Frame.owesLoss, hw] using h)
  | missEdge hw => exact .inl (by simpa [Frame.owesLoss, hw] using h)
  | @dropNode t' key rest _ hs =>
    simp only [announced, List.any_cons, Bool.or_eq_true] at h ⊢
    rcases h with h | h
    · refine .inr fun i hi => .inl ?_
      simp only [Frame.owesLoss, Bool.and_eq_true, decide_eq_true_eq] at h ⊢
      obtain ⟨rfl, -⟩ := h
      exact ⟨rfl, List.contains_iff_mem.2 hi⟩
    · exact .inl (by simp [works_cons hs rfl, h])

/-- A reference with a type that is to hear of its removal stays so until it has lost it. -/
theorem step_due {x : Reference ν} (hv : Lively e) (hstep : Step e m e') (hx : e.core? r = some x)
    (hd : x.deconstructed = false) (ht : e.typeOf? r = some t) (ht' : e'.typeOf? r = some t)
    (h : e.due r t) : e'.due r t := by
  have popped : ∀ {f : Frame ν} {rest}, e.stack = f :: rest → f.owesLoss r t = false →
      (e.withStack rest).due r t := fun hs hf => by simpa [due, hs, hf] using h
  cases hstep with
  | calm hu hc =>
    refine hc.toGrown.due ?_
    cases hu with
    | call => exact h
    | done hs hf => exact popped hs (Frame.owesLoss_of_isSpent hf r t)
    | read hs hr => exact popped hs (Frame.owesLoss_of_isSpent (Frame.isSpent_of_reads hr) r t)
  | enrol ha _ =>
    rw [due, ha.stack]
    exact h
  | skip hs hk hp =>
    refine hp.toGrown.due ?_
    rw [due_turn hs (hk.owesLoss r t)]
    exact h
  | attempt hs hk =>
    refine (plain_attempt _ _).calm.toGrown.due ?_
    rw [due_turn hs (hk.owesLoss r t)]
    exact h
  | @lose t' key queue rest i hs =>
    rcases invalidate_cases (e.withStack (.graphPass (.removedType t' key) queue :: rest)) i t'
      with ⟨heq, hno⟩ | ⟨y, watch, hlost⟩
    · rw [heq, due_turn hs]
      · exact h
      · by_cases hi : i = r
        · -- it is not on this type, so this turn is not the one that it waits for
          subst hi
          obtain ⟨y, hy, rfl⟩ := Option.map_eq_some_iff.1 hx
          rw [typeOf?_eq hy] at ht
          obtain ⟨w, hw⟩ := hv.watching hy hd ht
          have hne : t' ≠ t := by
            rintro rfl
            exact hno y hy w hw
          simp [Frame.owesLoss, hne]
        · simp [Frame.owesLoss, Ne.symm hi]
    · have hi : r ≠ i := by
        rintro rfl
        rw [typeOf?_setState hlost.found hlost.references, if_pos rfl] at ht'
        cases ht'
      have turned : (e.withStack (.graphPass (.removedType t' key) queue :: rest)).due r t := by
        rw [due_turn hs (by simp [Frame.owesLoss, hi])]
        exact h
      simp only [due, hlost.stack, List.any_cons, Bool.or_eq_true] at turned ⊢
      exact .inr (.inr turned)
  | @restart rest i hs =>
    have hpop := popped hs rfl
    rcases startResolving_cases (e.withStack rest) i with ⟨heq, -⟩ | ⟨y, -, -, heq⟩
    · rw [heq]
      exact hpop
    · rw [heq]
      exact (plain_attempt ((e.withStack rest).subscribe i y.system) i).calm.toGrown.due hpop
  | @resolve f rest i t' hs hp _ =>
    have hpop := popped hs (Frame.owesLoss_of_isSpent (Frame.isSpent_of_purpose hp) r t)
    rcases resolve_cases (e.withStack rest) i t' with ⟨heq, -⟩ | ⟨y, subs, htaken⟩
    · rw [heq]
      exact hpop
    · exact due_of_rest htaken.stack hpop
  | addReference _ _ hk =>
    rw [addReference_eq hk]
    refine (plain_attempt _ _).calm.toGrown.due ?_
    simp only [due, subscribe, List.any_cons, Bool.or_eq_true] at h ⊢
    exact .inr h
  | @deconstruct i _ =>
    refine (Calm.finish (p := none) Result.done).toGrown.due ?_
    rcases deconstruct_cases e i with heq | ⟨y, hst⟩
    · rw [heq]
      exact h
    · rw [due, hst.stack]
      exact h

end Promises

end Engine
end LiveTypes
