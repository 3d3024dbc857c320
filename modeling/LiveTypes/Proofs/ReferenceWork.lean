import LiveTypes.Proofs.Alternation
import LiveTypes.Proofs.Quiet

/-!
# A reference's side of a run

To those who listen to a reference the engine is a small machine as well: the reference has a type or none,
it has listeners, and passes over them run inside each other. `Engine.referenceSide` is what can be seen of
a reference, and `Engine.ReferenceStep` says all that a move can do to it, for a host that calls back as it
likes. The reports that concern the reference, its changes and what observers are told of it, are kept in
the order in which they come.
-/
namespace LiveTypes

variable {ν : Type}

/-- The type that a reference has when such an event happens to it. -/
def ReferenceEvent.type? : ReferenceEvent → Option Ty
  | .resolved t => some t
  | .invalidated _ => none

/-- How an observer is informed about the state of a reference. -/
def ReferenceEvent.now : Option Ty → ReferenceEvent
  | some t => .resolved t
  | none => .invalidated none

@[simp] theorem ReferenceEvent.type?_now (type? : Option Ty) : (ReferenceEvent.now type?).type? = type? := by
  cases type? <;> rfl

/-- What is reported of a reference. -/
inductive ReferenceNote where
  /-- It takes a type or loses it, and begins to tell of that. -/
  | change (event : ReferenceEvent)
  | told (observer : Observer) (event : ReferenceEvent)
deriving DecidableEq

/-- What a report says of a reference. -/
def Report.note? (r : ReferenceId) (q : Report ν) : Option ReferenceNote :=
  match q.passOf? r, q.telling? with
  | some event, _ => some (.change event)
  | none, some (o, .reference r' event) => if r' = r then some (.told o event) else none
  | none, _ => none

/-- The observer that listens. -/
def ReferenceListener.observer? : ReferenceListener → Option Observer
  | .observer o => some o
  | .dependent _ => none

@[simp] theorem ReferenceListener.observer?_observer (o : Observer) :
    (ReferenceListener.observer o).observer? = some o := rfl

@[simp] theorem ReferenceListener.observer?_dependent (d : ReferenceId) :
    (ReferenceListener.dependent d).observer? = none := rfl

/-- The pass of a reference that a frame runs, with the observers that are yet to be told. -/
def Frame.audience? (r : ReferenceId) : Frame ν → Option (ReferenceEvent × List Observer)
  | .referencePass r' event queue =>
    if r' = r then some (event, queue.filterMap ReferenceListener.observer?) else none
  | _ => none

/-- What can be seen of a reference. -/
structure ReferenceSide where
  type? : Option Ty
  listeners : List Observer
  /-- The passes that are under way, innermost first, with the observers yet to be told. -/
  audiences : List (ReferenceEvent × List Observer)
  /-- What has been reported, oldest first. -/
  notes : List ReferenceNote

namespace Engine

/-- Who listens to a reference. -/
def listenersOf (e : Engine ν) (r : ReferenceId) : List Observer :=
  match e.references[r]? with
  | some reference => reference.listeners
  | none => []

/-- What has been reported of a reference, oldest first. -/
def history (e : Engine ν) (r : ReferenceId) : List ReferenceNote := e.trace.filterMap (·.note? r)

/-- The passes of a reference that are under way, innermost first. -/
def audiences (e : Engine ν) (r : ReferenceId) : List (ReferenceEvent × List Observer) :=
  e.stack.filterMap (·.audience? r)

def referenceSide (e : Engine ν) (r : ReferenceId) : ReferenceSide :=
  ⟨e.typeOf? r, e.listenersOf r, e.audiences r, e.history r⟩

/-! ## What does not show -/

section Unseen

variable {p : Option Purpose} {e e' : Engine ν} {f f' : Frame ν} {rest : List (Frame ν)} {r : ReferenceId}

/-- Only the reference itself, its passes and the reports on it matter. -/
theorem referenceSide_congr (hr : e'.references = e.references) (hs : e'.audiences r = e.audiences r)
    (ht : e'.history r = e.history r) : e'.referenceSide r = e.referenceSide r := by
  simp only [referenceSide, typeOf?, listenersOf, hr, hs, ht]

theorem referenceSide_report (e : Engine ν) {q : Report ν} (h : q.note? r = none) :
    (e.report q).referenceSide r = e.referenceSide r :=
  referenceSide_congr rfl rfl (by simp [history, report, h])

theorem referenceSide_finish (e : Engine ν) (result : Result ν) :
    (e.finish result).referenceSide r = e.referenceSide r :=
  referenceSide_report e rfl

theorem referenceSide_push (e : Engine ν) (hf : f.audience? r = none)
    (hq : ∀ q, f.question? = some q → (Report.ask q).note? r = none) :
    (e.push f).referenceSide r = e.referenceSide r := by
  refine referenceSide_congr (push_references e f) (by simp [audiences, hf]) ?_
  unfold push
  split
  · rename_i q hf
    simp [history, report, hq q hf]
  · rfl

theorem referenceSide_deliver (e : Engine ν) (result : Result ν) :
    (e.push (.deliver result)).referenceSide r = e.referenceSide r :=
  referenceSide_push e rfl nofun

/-- Other work comes and goes unseen. -/
theorem referenceSide_pop (hs : e.stack = f :: rest) (hf : f.audience? r = none) :
    (e.withStack rest).referenceSide r = e.referenceSide r :=
  referenceSide_congr rfl (by simp [audiences, hs, hf]) rfl

theorem referenceSide_turn (hs : e.stack = f :: rest) (hf : f'.audience? r = f.audience? r) :
    (e.withStack (f' :: rest)).referenceSide r = e.referenceSide r :=
  referenceSide_congr rfl (by simp [audiences, hs, List.filterMap_cons, hf]) rfl

theorem note?_eq_none {q : Report ν} (hq : q.isPlain) (ht : q.telling? = none) : q.note? r = none := by
  have hpass : q.passOf? r = none := by
    unfold Report.isPlain at hq
    split at hq
    · cases hq
    · cases hq
    · unfold Report.passOf?
      split <;> simp_all
  simp only [Report.note?, hpass, ht]

theorem Plain.referenceSide (h : Plain p e e') (r : ReferenceId) :
    e'.referenceSide r = e.referenceSide r := by
  obtain ⟨frames, hs, hf⟩ := h.stack
  obtain ⟨reports, ht, hq⟩ := h.trace
  have hframes : frames.filterMap (·.audience? r) = [] := by
    refine List.filterMap_eq_nil_iff.2 fun f hm => ?_
    have := (hf f hm).plain
    cases f <;> simp_all [Frame.isPlain, Frame.audience?]
  have htold : reports.filterMap Report.telling? = [] := by
    have := h.tellings
    simpa [Engine.tellings, ht] using this
  have hreports : reports.filterMap (·.note? r) = [] := by
    refine List.filterMap_eq_nil_iff.2 fun q hm => ?_
    exact note?_eq_none (hq q hm) (List.filterMap_eq_nil_iff.1 htold q hm)
  exact referenceSide_congr h.references (by simp [audiences, hs, hframes])
    (by simp [history, ht, hreports])

theorem referenceSide_notifyGraph (e : Engine ν) (event : GraphEvent) :
    (e.notifyGraph event).referenceSide r = e.referenceSide r :=
  referenceSide_push _ rfl nofun

theorem referenceSide_notifyRules (e : Engine ν) (s : SystemId) (event : RuleEvent) :
    (e.notifyRules s event).referenceSide r = e.referenceSide r := by
  unfold notifyRules
  split
  · rfl
  · exact referenceSide_push _ rfl nofun

theorem referenceSide_removeEdge (e : Engine ν) (edge : Edge) :
    (e.removeEdge edge).referenceSide r = e.referenceSide r := by
  unfold removeEdge
  split
  · exact (referenceSide_notifyGraph _ _).trans (referenceSide_report { e with graph := _ } rfl)
  · rfl

theorem referenceSide_removeNode (e : Engine ν) (t : Ty) (key : String) :
    (e.removeNode t key).referenceSide r = e.referenceSide r :=
  (referenceSide_notifyGraph _ _).trans (referenceSide_report { e with graph := _ } rfl)

theorem referenceSide_removeRule (e : Engine ν) (s : SystemId) (id : RuleId) :
    (e.removeRule s id).referenceSide r = e.referenceSide r := by
  unfold removeRule
  split
  · rfl
  · exact (referenceSide_notifyRules _ _ _).trans (referenceSide_report (e.updateSystem s _) rfl)

/-- To subscribe does not show of a reference without a type. -/
theorem referenceSide_subscribe {i : ReferenceId} {x : Reference ν} (s : SystemId)
    (hx : e.references[i]? = some x) (hn : x.state.type? = none) :
    (e.subscribe i s).referenceSide r = e.referenceSide r := by
  have htype := (unmoved_subscribe s hx hn r).type
  have hlisteners : (e.subscribe i s).listenersOf r = e.listenersOf r := by
    simp only [listenersOf, subscribe, List.getElem?_modify]
    cases e.references[r]? with
    | none => rfl
    | some y => by_cases hr : i = r <;> simp [hr]
  simp only [referenceSide, htype, hlisteners]
  rfl

end Unseen

/-! ## What a move does -/

/-- What a move can do to the side of a reference. -/
inductive ReferenceStep (r : ReferenceId) (m : Move ν) (side : ReferenceSide) : ReferenceSide → Prop
  | unseen : ReferenceStep r m side side
  /-- The next observer is told. -/
  | told {event : ReferenceEvent} {o : Observer} {queue : List Observer}
      {rest : List (ReferenceEvent × List Observer)} :
    side.audiences = (event, o :: queue) :: rest → ReferenceStep r m side
      { side with audiences := (event, queue) :: rest, notes := side.notes ++ [.told o event] }
  /-- A pass is over. -/
  | done {event : ReferenceEvent} {rest : List (ReferenceEvent × List Observer)} :
    side.audiences = (event, []) :: rest → ReferenceStep r m side { side with audiences := rest }
  /-- The reference takes a type or loses it, and begins to tell those who listen now. -/
  | change (event : ReferenceEvent) : ReferenceStep r m side
      { type? := event.type?, listeners := side.listeners
        audiences := (event, side.listeners) :: side.audiences, notes := side.notes ++ [.change event] }
  | listen {o : Observer} {inform : Bool} : m = .call (.listenToReference r o inform) →
    ReferenceStep r m side { side with
      listeners := side.listeners ++ [o]
      notes := side.notes ++ if inform then [.told o (.now side.type?)] else [] }
  | leave {o : Observer} : m = .call (.leaveReference r o) →
    ReferenceStep r m side { side with listeners := side.listeners.erase o }
  | clear : m = .call (.deconstruct r) → ReferenceStep r m side { side with listeners := [] }

section Inversion

variable {e e' e₁ : Engine ν} {m : Move ν} {f f' : Frame ν} {rest : List (Frame ν)} {r : ReferenceId}

theorem ReferenceStep.of_eq (h : e'.referenceSide r = e.referenceSide r) :
    ReferenceStep r m (e.referenceSide r) (e'.referenceSide r) := by
  rw [h]
  exact .unseen

/-- Unseen work comes before. -/
theorem ReferenceStep.before (h : ReferenceStep r m (e₁.referenceSide r) (e'.referenceSide r))
    (he : e₁.referenceSide r = e.referenceSide r) :
    ReferenceStep r m (e.referenceSide r) (e'.referenceSide r) := by
  rw [← he]
  exact h

theorem resolve_referenceStep (e : Engine ν) (i : ReferenceId) (t : Ty) :
    ReferenceStep r m (e.referenceSide r) ((e.resolve i t).referenceSide r) := by
  rcases resolve_cases e i t with ⟨heq, -⟩ | ⟨x, subs, ht⟩
  · rw [heq]
    exact .unseen
  · obtain ⟨text, htrace⟩ := ht.trace
    by_cases hr : i = r
    · subst hr
      have hside : (e.resolve i t).referenceSide i =
          { type? := some t, listeners := (e.referenceSide i).listeners
            audiences := (.resolved t, (e.referenceSide i).listeners) :: (e.referenceSide i).audiences
            notes := (e.referenceSide i).notes ++ [.change (.resolved t)] } := by
        simp [referenceSide, typeOf?, listenersOf, audiences, history, ht.references, ht.found, ht.stack,
          htrace, Frame.audience?, Function.comp_def, Report.note?, Report.passOf?, ReferenceState.type?]
      rw [hside]
      exact .change (.resolved t)
    · refine .of_eq ?_
      simp [referenceSide, typeOf?, listenersOf, audiences, history, ht.references, ht.stack, htrace,
        Frame.audience?, Report.note?, Report.passOf?, Report.telling?, hr]

theorem invalidate_referenceStep (e : Engine ν) (i : ReferenceId) (t : Ty) :
    ReferenceStep r m (e.referenceSide r) ((e.invalidate i t).referenceSide r) := by
  rcases invalidate_cases e i t with ⟨heq, -⟩ | ⟨x, watch, hl⟩
  · rw [heq]
    exact .unseen
  · obtain ⟨text, htrace⟩ := hl.trace
    by_cases hr : i = r
    · subst hr
      have hside : (e.invalidate i t).referenceSide i =
          { type? := none, listeners := (e.referenceSide i).listeners
            audiences := (.invalidated (some t), (e.referenceSide i).listeners) ::
              (e.referenceSide i).audiences
            notes := (e.referenceSide i).notes ++ [.change (.invalidated (some t))] } := by
        simp [referenceSide, typeOf?, listenersOf, audiences, history, hl.references, hl.found, hl.stack,
          htrace, Frame.audience?, Function.comp_def, Report.note?, Report.passOf?, ReferenceState.type?]
      rw [hside]
      exact .change (.invalidated (some t))
    · refine .of_eq ?_
      simp [referenceSide, typeOf?, listenersOf, audiences, history, hl.references, hl.stack, htrace,
        Frame.audience?, Report.note?, Report.passOf?, Report.telling?, hr]

/-- A pass over the listeners of the reference is over, or something that does not show. -/
theorem pop_referenceStep (hs : e.stack = f :: rest) (ho : f.isOver) :
    ReferenceStep r m (e.referenceSide r) ((e.withStack rest).referenceSide r) := by
  cases ha : f.audience? r with
  | none => exact .of_eq (referenceSide_pop hs ha)
  | some audience =>
    cases f with
    | referencePass i event queue =>
      have hqueue : queue = [] := by simpa [Frame.isOver] using ho
      subst hqueue
      by_cases hi : i = r
      · have haud : (e.referenceSide r).audiences = (event, []) :: (e.withStack rest).audiences r := by
          simp [referenceSide, audiences, hs, Frame.audience?, hi]
        exact .done haud
      · simp [Frame.audience?, hi] at ha
    | _ => cases ha

theorem tell_referenceStep {o : Observer} {notice : Notice} (hs : e.stack = f :: rest) (hsk : f.Skips f')
    (ht : f.tells? = some (o, notice)) :
    ReferenceStep r m (e.referenceSide r)
      (((e.withStack (f' :: rest)).push (.telling o notice)).referenceSide r) := by
  have unseen : f'.audience? r = f.audience? r → (∀ event, notice ≠ .reference r event) →
      ReferenceStep r m (e.referenceSide r)
        (((e.withStack (f' :: rest)).push (.telling o notice)).referenceSide r) := by
    intro hf hn
    refine .of_eq ((referenceSide_push _ rfl ?_).trans (referenceSide_turn hs hf))
    intro q hq
    cases hq
    cases notice with
    | reference i event =>
      have hi : i ≠ r := by
        rintro rfl
        exact hn event rfl
      simp [Report.note?, Report.passOf?, Report.telling?, hi]
    | _ => rfl
  cases hsk with
  | @graph event l queue hl =>
    refine unseen rfl ?_
    cases l <;> simp_all [Frame.tells?]
    simp [← ht.2]
  | @rules s event l queue hl =>
    refine unseen rfl ?_
    cases l <;> simp_all [Frame.tells?]
    simp [← ht.2]
  | @reference i event l queue hl =>
    cases l with
    | dependent d => cases ht
    | observer o' =>
      cases ht
      by_cases hi : i = r
      · subst hi
        have haud : (e.referenceSide i).audiences =
            (event, o :: queue.filterMap ReferenceListener.observer?) ::
              (e.withStack rest).audiences i := by
          simp [referenceSide, audiences, hs, Frame.audience?]
        have hside : ((e.withStack (.referencePass i event queue :: rest)).push
            (.telling o (.reference i event))).referenceSide i = { e.referenceSide i with
              audiences := (event, queue.filterMap ReferenceListener.observer?) ::
                (e.withStack rest).audiences i
              notes := (e.referenceSide i).notes ++ [.told o event] } := by
          simp [referenceSide, typeOf?, listenersOf, audiences, history, push, report, Frame.question?,
            Frame.audience?, Report.note?, Report.passOf?, Report.telling?]
        rw [hside]
        exact .told haud
      · refine unseen (by simp [Frame.audience?, hi]) ?_
        intro event' hne
        cases hne
        exact hi rfl

theorem skips_audience? (hsk : f.Skips f') (ht : f.tells? = none) : f'.audience? r = f.audience? r := by
  cases hsk with
  | graph => rfl
  | rules => rfl
  | @reference i event l queue hl =>
    cases l with
    | observer o => cases ht
    | dependent d => rfl

theorem calls_audience? {d : ReferenceId} (hcl : f.Calls f' d) : f'.audience? r = f.audience? r := by
  cases hcl with
  | graph => rfl
  | rules => rfl
  | source => rfl

theorem audience?_of_purpose {purpose : Purpose} (hp : f.purpose? = some purpose) :
    f.audience? r = none := by
  cases f <;> simp_all [Frame.purpose?, Frame.audience?]

theorem Work.referenceStep {h : Host ν} (hw : Work h e f rest e') (hs : e.stack = f :: rest) :
    ReferenceStep r m (e.referenceSide r) (e'.referenceSide r) := by
  cases hw with
  | pop ho => exact pop_referenceStep hs ho
  | aside hf _ _ hp =>
    have ha : f.audience? r = none := by cases f <;> simp_all [Frame.isPlain, Frame.audience?]
    exact .of_eq ((hp.referenceSide r).trans (referenceSide_pop hs ha))
  | pass hsk ht => exact .of_eq (referenceSide_turn hs (skips_audience? hsk ht))
  | tell hsk ht => exact tell_referenceStep hs hsk ht
  | attempt hcl =>
    exact .of_eq (((plain_attempt _ _).referenceSide r).trans (referenceSide_turn hs (calls_audience? hcl)))
  | evaluate hp hev =>
    have hpop := referenceSide_pop hs (audience?_of_purpose (r := r) hp)
    cases hev with
    | onward hplain => exact .of_eq ((hplain.referenceSide r).trans hpop)
    | nothing hplain =>
      exact .of_eq (((plain_unselected _ _ _).referenceSide r).trans ((hplain.referenceSide r).trans hpop))
    | found => exact (resolve_referenceStep _ _ _).before hpop

theorem Handles.referenceStep {h : Host ν} (hh : Handles h e f rest e') (hv : Lively e)
    (hs : e.stack = f :: rest) : ReferenceStep r m (e.referenceSide r) (e'.referenceSide r) := by
  cases hh with
  | work hw => exact hw.referenceStep hs
  | lose => exact (invalidate_referenceStep _ _ _).before (referenceSide_turn hs rfl)
  | drop => exact .of_eq (referenceSide_congr rfl (by simp [audiences, hs, Frame.audience?]) rfl)
  | @restart i rest =>
    have hpop := referenceSide_pop (r := r) hs rfl
    rcases startResolving_cases (e.withStack rest) i with ⟨heq, -⟩ | ⟨x, hx, hd, heq⟩
    · rw [heq]
      exact .of_eq hpop
    · have hr : e.restarts i ≠ 0 := by simp [restarts, hs, Frame.isRestartOf]
      have hn : x.state.type? = none := by
        rw [(hv.of_restart hx hd hr).1]
        rfl
      rw [heq]
      exact .of_eq (((plain_attempt _ _).referenceSide r).trans
        ((referenceSide_subscribe x.system hx hn).trans hpop))
  | removeEdge => exact .of_eq ((referenceSide_removeEdge _ _).trans (referenceSide_turn hs rfl))
  | removeNode => exact .of_eq ((referenceSide_removeNode _ _ _).trans (referenceSide_pop hs rfl))
  | removeRule => exact .of_eq ((referenceSide_removeRule _ _ _).trans (referenceSide_turn hs rfl))

theorem referenceSide_addReference {s : SystemId} {selector : Selector ν} (hk : e.knowsSelector selector) :
    (e.call (.addReference s selector)).referenceSide r = e.referenceSide r := by
  rw [addReference_eq hk, (plain_attempt _ _).referenceSide, referenceSide_subscribe s (enlisted_new hk) rfl]
  rcases Nat.lt_trichotomy r e.references.length with hr | rfl | hr
  · simp [referenceSide, typeOf?, listenersOf, audiences, history, enlisted_old hr, hr, Frame.audience?]
  · have hmissing : e.references[e.references.length]? = none := List.getElem?_eq_none (Nat.le_refl _)
    simp only [referenceSide, typeOf?, listenersOf, audiences, history, hmissing, enlisted_new hk]
    rfl
  · have hmissing : e.references[r]? = none := List.getElem?_eq_none (Nat.le_of_lt hr)
    have hmissing' : (e.enlisted s selector)[r]? = none := by
      rw [List.getElem?_eq_none_iff, length_enlisted]
      exact hr
    simp only [referenceSide, typeOf?, listenersOf, audiences, history, hmissing, hmissing']
    rfl

theorem deconstruct_referenceStep (e : Engine ν) (i : ReferenceId) :
    ReferenceStep r (.call (.deconstruct i) : Move ν) (e.referenceSide r)
      ((e.deconstruct i).referenceSide r) := by
  rcases deconstruct_cases e i with heq | ⟨x, hst⟩
  · rw [heq]
    exact .unseen
  · obtain ⟨text, htrace⟩ := hst.trace
    by_cases hr : i = r
    · subst hr
      have hside : (e.deconstruct i).referenceSide i = { e.referenceSide i with listeners := [] } := by
        simp [referenceSide, typeOf?, listenersOf, audiences, history, hst.references, hst.found,
          stopped_self, hst.stack, htrace, Report.note?, Report.passOf?, Report.telling?]
      rw [hside]
      exact .clear rfl
    · refine .of_eq ?_
      simp [referenceSide, typeOf?, listenersOf, audiences, history, hst.references,
        stopped_other (Ne.symm hr), hst.stack, htrace, Report.note?, Report.passOf?, Report.telling?]
      cases e.references[r]? <;> simp

theorem referenceSide_updateReference {i : ReferenceId} (update : Reference ν → Reference ν) (hi : i ≠ r) :
    (e.updateReference i update).referenceSide r = e.referenceSide r := by
  simp [referenceSide, typeOf?, listenersOf, updateReference, audiences, history, hi]

theorem listenToReference_referenceStep {i : ReferenceId} {o : Observer} {inform : Bool}
    (hi : i < e.references.length) :
    ReferenceStep r (.call (.listenToReference i o inform) : Move ν) (e.referenceSide r)
      ((e.call (.listenToReference i o inform)).referenceSide r) := by
  obtain ⟨x, hx⟩ : ∃ x, e.references[i]? = some x := ⟨_, List.getElem?_eq_getElem hi⟩
  by_cases hr : i = r
  · subst hr
    have hside : (e.call (.listenToReference i o inform)).referenceSide i = { e.referenceSide i with
        listeners := (e.referenceSide i).listeners ++ [o]
        notes := (e.referenceSide i).notes ++
          if inform then [.told o (.now (e.referenceSide i).type?)] else [] } := by
      cases inform <;> cases ht : x.state.type? <;>
        simp [call, referenceSide, typeOf?, listenersOf, updateReference, audiences, history, hx, ht, push,
          report, Frame.question?, Frame.audience?, Report.note?, Report.passOf?, Report.telling?,
          ReferenceEvent.now]
    rw [hside]
    exact .listen rfl
  · refine .of_eq ?_
    have htold : ∀ (e : Engine ν) event,
        (e.push (.telling o (.reference i event))).referenceSide r = e.referenceSide r := by
      intro e event
      refine referenceSide_push e rfl fun q hq => ?_
      cases hq
      simp [Report.note?, Report.passOf?, Report.telling?, hr]
    have hupdate : ((e.updateReference i fun x => { x with listeners := x.listeners ++ [o] }).push
        (.deliver .done)).referenceSide r = e.referenceSide r :=
      (referenceSide_deliver _ _).trans (referenceSide_updateReference _ hr)
    simp only [call]
    split
    · split
      · exact (htold _ _).trans hupdate
      · exact (htold _ _).trans hupdate
    · exact hupdate

theorem leaveReference_referenceStep {i : ReferenceId} {o : Observer} :
    ReferenceStep r (.call (.leaveReference i o) : Move ν) (e.referenceSide r)
      ((e.call (.leaveReference i o)).referenceSide r) := by
  simp only [call]
  rw [referenceSide_finish]
  by_cases hr : i = r
  · subst hr
    have hside : (e.updateReference i fun x => { x with listeners := x.listeners.erase o }).referenceSide i =
        { e.referenceSide i with listeners := (e.referenceSide i).listeners.erase o } := by
      cases hx : e.references[i]? <;>
        simp [referenceSide, typeOf?, listenersOf, updateReference, audiences, history, hx]
    rw [hside]
    exact .leave rfl
  · exact .of_eq (referenceSide_updateReference _ hr)

theorem call_referenceStep {c : Call ν} (hk : e.knows c) :
    ReferenceStep r (.call c) (e.referenceSide r) ((e.call c).referenceSide r) := by
  cases c with
  | addSystem config printer comparisons => exact .of_eq ((referenceSide_finish _ _).trans rfl)
  | addType t key =>
    simp only [call]
    split
    · exact .of_eq (referenceSide_finish _ _)
    · exact .of_eq (referenceSide_finish _ _)
    · exact .of_eq ((referenceSide_notifyGraph _ _).trans
        ((referenceSide_deliver _ _).trans (referenceSide_report { e with graph := _ } rfl)))
  | removeType t =>
    simp only [call]
    split
    · exact .of_eq (referenceSide_finish _ _)
    · refine .of_eq ((referenceSide_push _ rfl ?_).trans (referenceSide_deliver _ _))
      intro _ hq
      cases hq
  | addEdge x =>
    simp only [call]
    split
    · exact .of_eq (referenceSide_finish _ _)
    · exact .of_eq (referenceSide_finish _ _)
    · exact .of_eq ((referenceSide_notifyGraph _ _).trans
        ((referenceSide_deliver _ _).trans (referenceSide_report { e with graph := _ } rfl)))
  | removeEdge x => exact .of_eq ((referenceSide_removeEdge _ _).trans (referenceSide_deliver _ _))
  | listenToGraph o => exact .of_eq ((referenceSide_finish _ _).trans rfl)
  | watchRemoval t o => exact .of_eq ((referenceSide_finish _ _).trans rfl)
  | leaveGraph id => exact .of_eq ((referenceSide_finish _ _).trans rfl)
  | compare relation actual expected =>
    exact .of_eq ((referenceSide_finish _ _).trans
      ((plain_compareIn (p := none) e .graph relation actual expected).referenceSide r))
  | addRule s tag name boundTo =>
    simp only [call]
    split
    · exact .of_eq (referenceSide_finish _ _)
    · exact .of_eq ((referenceSide_notifyRules _ _ _).trans ((referenceSide_deliver _ _).trans
        (referenceSide_report e rfl)))
  | removeRule s id => exact .of_eq ((referenceSide_removeRule _ s id).trans (referenceSide_deliver _ _))
  | listenToRules s o => exact .of_eq (referenceSide_finish _ _)
  | leaveRules s id => exact .of_eq (referenceSide_finish _ _)
  | infer s n => exact .of_eq ((plain_infer (p := none) e s n .inquiry (.inl rfl)).referenceSide r)
  | trySelect s selector =>
    exact .of_eq ((plain_select (p := none) e s .trial selector (by simp)).referenceSide r)
  | mustSelect s selector =>
    exact .of_eq ((plain_select (p := none) e s .demand selector (by simp)).referenceSide r)
  | addReference s selector =>
    simp only [knows, Bool.and_eq_true, decide_eq_true_eq] at hk
    exact .of_eq (referenceSide_addReference hk.2)
  | listenToReference i o inform => exact listenToReference_referenceStep (of_decide_eq_true hk)
  | leaveReference i o => exact leaveReference_referenceStep
  | deconstruct i =>
    have hstep := deconstruct_referenceStep (r := r) e i
    rw [← referenceSide_finish (e.deconstruct i) .done] at hstep
    exact hstep
  | relate request => exact .of_eq ((plain_relate (p := none) e request).referenceSide r)
  | addChecks s checks => exact .of_eq (referenceSide_finish _ _)
  | validate s n => exact .of_eq (referenceSide_push _ rfl fun _ hq => by cases hq)

/-- What a move does to the side of a reference. -/
theorem move?_referenceStep (hv : Lively e) (hm : e.move? m = some e') (r : ReferenceId) :
    ReferenceStep r m (e.referenceSide r) (e'.referenceSide r) := by
  cases m with
  | call c =>
    simp only [move?] at hm
    split at hm
    · rename_i hc
      rw [Bool.and_eq_true] at hc
      cases hm
      exact call_referenceStep hc.2
    · cases hm
  | answer a =>
    obtain ⟨f, rest, hs, hh⟩ := answer_handles (answering_answers hm) hm
    exact hh.referenceStep hv hs
  | work =>
    obtain ⟨f, rest, hs, hh⟩ := tick_handles (h := Host.answering .done) hm
    exact hh.referenceStep hv hs
  | forget o =>
    cases hm
    refine .of_eq (referenceSide_congr ?_ ?_ ?_)
    all_goals
      simp only [forget, audiences, history]
      split <;> rfl
  | retire s =>
    cases hm
    refine .of_eq (referenceSide_congr ?_ ?_ ?_)
    all_goals
      simp only [retire, audiences, history]
      split <;> rfl

end Inversion

end Engine
end LiveTypes
