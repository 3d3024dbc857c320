import LiveTypes.Proofs.Evaluation
import LiveTypes.Proofs.Sources
import LiveTypes.Proofs.Subscriptions

/-!
# Runs with a host that does not call back

A quiet host calls the engine only when it rests. Its rules and its types under construction say the
same each time, and a rule that it binds to a type infers no other. `Engine.Quiet` says what a move can do
in such a run, more closely than `Engine.Step` does for all hosts.
-/
namespace LiveTypes

variable {ν : Type}

namespace Host

/-- Whether a quiet host makes a call: it removes no rule, and ends no subscription of the engine's own. -/
def Permits (h : Host ν) (e : Engine ν) : Call ν → Prop
  | .addRule _ tag name (some t) => ∀ id n t', (h.outcome ⟨id, tag, name, some t⟩ n).type? = some t' → t' = t
  | .removeRule _ _ => False
  | .leaveGraph id => ∀ z ∈ e.listeners.entries, z.id = id → z.listener.stays = false
  | .leaveRules s id => ∀ y, e.systems[s]? = some y → ∀ z ∈ y.listeners.entries, z.id = id →
    z.listener.stays = false
  | _ => True

/-- A host that gives this answer wherever it fits. -/
def answering : Answer ν → Host ν
  | .outcome outcome => ⟨fun _ _ => outcome, fun _ => ⟨0, "", ""⟩⟩
  | .type t => ⟨fun _ _ => .notApplicable, fun _ => t⟩
  | _ => ⟨fun _ _ => .notApplicable, fun _ => ⟨0, "", ""⟩⟩

/-- The moves of a run with a quiet host. No type system ceases to exist. -/
inductive Allows (h : Host ν) (e : Engine ν) : Move ν → Prop
  | call {c : Call ν} : e.atRest → h.Permits e c → Allows h e (.call c)
  | answer {a : Answer ν} : (∀ q, e.question? = some q → h.Answers q a) → Allows h e (.answer a)
  | work : Allows h e .work
  | forget {o : Observer} : Allows h e (.forget o)

end Host

namespace Frame

/-- Whether all that is left of a frame is that it goes. -/
def isOver : Frame ν → Bool
  | .graphPass _ queue => queue.isEmpty
  | .rulePass _ _ queue => queue.isEmpty
  | .ruleRemoval _ rules => rules.isEmpty
  | .referencePass _ _ queue => queue.isEmpty
  | .telling _ _ => true
  | _ => false

/-- The observer whom the next turn of a pass tells something, and what it tells. -/
def tells? : Frame ν → Option (Observer × Notice)
  | .graphPass event (.observer o :: _) => some (o, .graph event)
  | .rulePass s event (.observer o :: _) => some (o, .rule s event)
  | .referencePass r event (.observer o :: _) => some (o, .reference r event)
  | _ => none

/-- The type system that in the next turn of a pass drops the rules bound to a type that left. -/
def drops? : Frame ν → Option SystemId
  | .graphPass (.removedType _ _) (.system s :: _) => some s
  | _ => none

end Frame

namespace Engine

/-- Work on the frame `f` on top of `rest` that changes neither the graph nor the rules, and takes no type
from a reference. -/
inductive Work (h : Host ν) (e : Engine ν) (f : Frame ν) (rest : List (Frame ν)) : Engine ν → Prop
  | pop : f.isOver → Work h e f rest (e.withStack rest)
  /-- What concerns the host alone. -/
  | aside {e' : Engine ν} : f.isPlain → f.isOver = false → (∀ r, f.purpose? ≠ some (.resolution r)) →
    Plain none (e.withStack rest) e' → Work h e f rest e'
  /-- A pass has a turn that moves no reference, and perhaps tells an observer. -/
  | pass {f' : Frame ν} : f.Skips f' → f.tells? = none → (∀ s, f.drops? = some s → e.systems[s]? = none) →
    Work h e f rest (e.withStack (f' :: rest))
  | tell {f' : Frame ν} {o : Observer} {notice : Notice} : f.Skips f' → f.tells? = some (o, notice) →
    Work h e f rest ((e.withStack (f' :: rest)).push (.telling o notice))
  | attempt {f' : Frame ν} {r : ReferenceId} : f.Calls f' r →
    Work h e f rest ((e.withStack (f' :: rest)).attempt r)
  | evaluate {r : ReferenceId} {e' : Engine ν} : f.purpose? = some (.resolution r) →
    Evaluates h (.resolution r) e f rest e' → Work h e f rest e'

/-- What a move can make of the frame `f` on top of `rest`. -/
inductive Handles (h : Host ν) (e : Engine ν) : Frame ν → List (Frame ν) → Engine ν → Prop
  | work {f : Frame ν} {rest : List (Frame ν)} {e' : Engine ν} :
    Work h e f rest e' → Handles h e f rest e'
  | lose {t : Ty} {key : String} {r : ReferenceId} {queue : List GraphListener} {rest : List (Frame ν)} :
    Handles h e (.graphPass (.removedType t key) (.reference r :: queue)) rest
      ((e.withStack (.graphPass (.removedType t key) queue :: rest)).invalidate r t)
  /-- A type system begins to drop the rules bound to a type that left. -/
  | drop {t : Ty} {key : String} {s : SystemId} {y : System ν} {queue : List GraphListener}
      {rest : List (Frame ν)} :
    e.systems[s]? = some y → Handles h e (.graphPass (.removedType t key) (.system s :: queue)) rest
      (e.withStack (.ruleRemoval s (y.rules.boundTo t) :: .graphPass (.removedType t key) queue :: rest))
  | restart {r : ReferenceId} {rest : List (Frame ν)} :
    Handles h e (.restart r) rest ((e.withStack rest).startResolving r)
  | removeEdge {t : Ty} {key : String} {edge : Edge} {edges : List Edge} {rest : List (Frame ν)} :
    Handles h e (.typeRemoval t key (edge :: edges)) rest
      ((e.withStack (.typeRemoval t key edges :: rest)).removeEdge edge)
  | removeNode {t : Ty} {key : String} {rest : List (Frame ν)} :
    Handles h e (.typeRemoval t key []) rest ((e.withStack rest).removeNode t key)
  | removeRule {s : SystemId} {id : RuleId} {ids : List RuleId} {rest : List (Frame ν)} :
    Handles h e (.ruleRemoval s (id :: ids)) rest
      ((e.withStack (.ruleRemoval s ids :: rest)).removeRule s id)

/-- What a move can do in a run with a quiet host. -/
inductive Quiet (h : Host ν) (e : Engine ν) : Engine ν → Prop
  | handle {f : Frame ν} {rest : List (Frame ν)} {e' : Engine ν} :
    e.stack = f :: rest → Handles h e f rest e' → Quiet h e e'
  | call {c : Call ν} : e.stack = [] → h.Permits e c → e.knows c → Quiet h e (e.call c)
  | forget {o : Observer} : Quiet h e (e.forget o)

section Inversion

variable {h : Host ν} {e e' : Engine ν} {m : Move ν} {f : Frame ν} {rest : List (Frame ν)}

theorem graphTurn_handles {event : GraphEvent} {l : GraphListener} {queue : List GraphListener} :
    Handles h e (.graphPass event (l :: queue)) rest
      (((e.withStack rest).push (.graphPass event queue)).graphTurn event l) := by
  rw [push_eq _ rfl]
  cases l with
  | observer o => exact .work (.tell (.graph fun r t key h => by cases h) rfl)
  | system s =>
    cases hy : e.systems[s]? with
    | none =>
      simp only [graphTurn, hy]
      refine .work (.pass (.graph fun r t key h => by cases h) rfl fun s' hd => ?_)
      cases event <;> cases hd
      exact hy
    | some y =>
      cases event with
      | removedType t key =>
        simp only [graphTurn, hy]
        rw [push_eq _ rfl]
        exact .drop hy
      | addedType t key => exact .work (.pass (.graph fun r t key h => by cases h) rfl fun _ h => by cases h)
      | addedEdge edge => exact .work (.pass (.graph fun r t key h => by cases h) rfl fun _ h => by cases h)
      | removedEdge edge => exact .work (.pass (.graph fun r t key h => by cases h) rfl fun _ h => by cases h)
  | reference r =>
    cases event with
    | addedType t key => exact .work (.attempt .graph)
    | removedType t key => exact .lose
    | addedEdge edge => exact .work (.pass (.graph fun _ _ _ _ => ⟨by simp, by simp⟩) rfl fun _ h => by cases h)
    | removedEdge edge => exact .work (.pass (.graph fun _ _ _ _ => ⟨by simp, by simp⟩) rfl fun _ h => by cases h)

theorem ruleTurn_handles {s : SystemId} {event : RuleEvent} {l : RuleListener}
    {queue : List RuleListener} : Handles h e (.rulePass s event (l :: queue)) rest
      (((e.withStack rest).push (.rulePass s event queue)).ruleTurn s event l) := by
  rw [push_eq _ rfl]
  cases l with
  | observer o => exact .work (.tell (.rules fun r id boundTo h => nomatch h) rfl)
  | reference r =>
    cases event with
    | added id boundTo => exact .work (.attempt .rules)
    | removed id boundTo => exact .work (.pass (.rules fun _ _ _ _ => nofun) rfl nofun)

theorem referenceTurn_handles {r : ReferenceId} {event : ReferenceEvent} {l : ReferenceListener}
    {queue : List ReferenceListener} : Handles h e (.referencePass r event (l :: queue)) rest
      (((e.withStack rest).push (.referencePass r event queue)).referenceTurn r event l) := by
  rw [push_eq _ rfl]
  cases l with
  | observer o => exact .work (.tell (.reference fun d t h => nomatch h) rfl)
  | dependent d =>
    cases event with
    | resolved t => exact .work (.attempt .source)
    | invalidated t => exact .work (.pass (.reference fun _ _ _ => nofun) rfl nofun)

/-- A step of a selection, for a reference or for the host. -/
theorem selection_work {f : Frame ν} (hf : f.isPlain) (ho : f.isOver = false)
    (hplain : Plain f.purpose? (e.withStack rest) e' ∨
      ∃ r t, f.purpose? = some (.resolution r) ∧ e' = (e.withStack rest).resolve r t)
    (hev : ∀ r, f.purpose? = some (.resolution r) → Evaluates h (.resolution r) e f rest e') :
    Work h e f rest e' := by
  by_cases hr : ∃ r, f.purpose? = some (.resolution r)
  · obtain ⟨r, hr⟩ := hr
    exact .evaluate hr (hev r hr)
  · have hr : ∀ r, f.purpose? ≠ some (.resolution r) := fun r h => hr ⟨r, h⟩
    rcases hplain with hplain | ⟨r, t, hp, -⟩
    · exact .aside hf ho hr (hplain.apart hr)
    · exact absurd hp (hr r)

/-- What the engine's own work makes of the top frame. -/
theorem tick_handles (ht : e.tick = some e') : ∃ f rest, e.stack = f :: rest ∧ Handles h e f rest e' := by
  have evaluates : ∀ {f rest r}, e.stack = f :: rest → f.purpose? = some (.resolution r) →
      Evaluates h (.resolution r) e f rest e' := fun hs hp => tick_evaluates hs hp (by simp) ht
  unfold tick at ht
  split at ht
  · cases ht
  · rename_i frame rest hs
    refine ⟨frame, rest, hs, ?_⟩
    dsimp only at ht
    cases frame with
    | deliver result =>
      cases ht
      exact .work (.aside rfl rfl (by simp [Frame.purpose?]) (.finish _))
    | graphPass event queue =>
      cases queue with
      | nil =>
        cases ht
        exact .work (.pop rfl)
      | cons l queue =>
        cases ht
        exact graphTurn_handles
    | typeRemoval t key edges =>
      cases edges with
      | nil =>
        cases ht
        exact .removeNode
      | cons edge edges =>
        cases ht
        rw [push_eq _ rfl]
        exact .removeEdge
    | rulePass s event queue =>
      cases queue with
      | nil =>
        cases ht
        exact .work (.pop rfl)
      | cons l queue =>
        cases ht
        exact ruleTurn_handles
    | ruleRemoval s ids =>
      cases ids with
      | nil =>
        cases ht
        exact .work (.pop rfl)
      | cons id ids =>
        cases ht
        rw [push_eq _ rfl]
        exact .removeRule
    | referencePass r event queue =>
      cases queue with
      | nil =>
        cases ht
        exact .work (.pop rfl)
      | cons l queue =>
        cases ht
        exact referenceTurn_handles
    | restart r =>
      cases ht
      exact .restart
    | selecting selection selector =>
      cases ht
      refine .work (selection_work rfl rfl ?_ fun r hr => evaluates hs hr)
      refine (selectStep_cases (e.withStack rest) selection selector).imp id ?_
      rintro ⟨r, t, hp, heq⟩
      exact ⟨r, t, congrArg some hp, heq⟩
    | inferring i =>
      cases ht
      exact .work (selection_work rfl rfl (.inl (plain_inferStep _ i)) fun r hr => evaluates hs hr)
    | relating check actual =>
      cases ht
      exact .work (.aside rfl rfl (by simp [Frame.purpose?]) (plain_relateStep _ check actual))
    | validating v =>
      dsimp only at ht
      split at ht <;> cases ht
      · exact .work (.aside rfl rfl (by simp [Frame.purpose?]) (.finish _))
      · exact .work (.aside rfl rfl (by simp [Frame.purpose?]) (.push_apart rfl rfl))
    | telling o notice => cases ht
    | running rule i => cases ht
    | expanding d selection => cases ht
    | initializing i selection => cases ht
    | checking check v => cases ht
    | wording provider v => cases ht

/-- What an answer of the host makes of the top frame. -/
theorem answer_handles {a : Answer ν} (hq : ∀ q, e.question? = some q → h.Answers q a)
    (ha : e.answer a = some e') : ∃ f rest, e.stack = f :: rest ∧ Handles h e f rest e' := by
  have evaluates : ∀ {f rest r}, e.stack = f :: rest → f.purpose? = some (.resolution r) →
      Evaluates h (.resolution r) e f rest e' := fun hs hp => answer_evaluates hs hp (by simp) hq ha
  unfold answer at ha
  split at ha
  · cases ha
  · rename_i frame rest hs
    refine ⟨frame, rest, hs, ?_⟩
    dsimp only at ha
    split at ha <;> cases ha
    · exact .work (.pop rfl)
    · rename_i rule i t
      exact .work (selection_work rfl rfl (inferred_cases _ i (.ok t)) fun r hr => evaluates hs hr)
    · exact .work (selection_work rfl rfl (.inl (.push ⟨rfl, fun _ h => h⟩)) fun r hr => evaluates hs hr)
    · exact .work (selection_work rfl rfl (.inl (.push ⟨rfl, fun _ h => h⟩)) fun r hr => evaluates hs hr)
    · exact .work (selection_work rfl rfl (.inl (.push ⟨rfl, fun _ h => h⟩)) fun r hr => evaluates hs hr)
    · rename_i i selection t
      refine .work (selection_work rfl rfl ?_ fun r hr => evaluates hs hr)
      refine (selected_cases (e.withStack rest) selection.purpose t).imp id ?_
      exact fun ⟨r, hp, heq⟩ => ⟨r, t, congrArg some hp, heq⟩
    · exact .work (.aside rfl rfl (by simp [Frame.purpose?]) (.push_apart rfl rfl))
    · exact .work (.aside rfl rfl (by simp [Frame.purpose?]) (plain_reportViolation _ _ _))

/-- Whatever is answered, there is a host that always answers so. -/
theorem answering_answers {a : Answer ν} (ha : e.answer a = some e') (q : Question ν)
    (hq : e.question? = some q) : (Host.answering a).Answers q a := by
  cases hs : e.stack with
  | nil => simp [answer, hs] at ha
  | cons f rest =>
    have hq : f.question? = some q := by simpa [question?, hs] using hq
    rw [answer, hs] at ha
    cases f with
    | running rule i =>
      cases hq
      cases a with
      | outcome => rfl
      | _ => cases ha
    | initializing i selection =>
      simp only [Frame.question?, Option.some.injEq] at hq
      subst hq
      cases a with
      | type t => split <;> trivial
      | _ => cases ha
    | telling => cases hq; trivial
    | expanding => cases hq; trivial
    | checking => cases hq; trivial
    | wording => cases hq; trivial
    | _ => cases hq

/-- What a move can do in a run with a quiet host. -/
theorem move?_quiet (ha : h.Allows e m) (hm : e.move? m = some e') : Quiet h e e' := by
  cases ha with
  | call hr hp =>
    simp only [move?] at hm
    split at hm
    · rename_i hc
      rw [Bool.and_eq_true] at hc
      cases hm
      exact .call (by simpa [atRest] using hr) hp hc.2
    · cases hm
  | answer hq =>
    obtain ⟨f, rest, hs, hh⟩ := answer_handles hq hm
    exact .handle hs hh
  | work =>
    obtain ⟨f, rest, hs, hh⟩ := tick_handles hm
    exact .handle hs hh
  | forget =>
    cases hm
    exact .forget

end Inversion

end Engine
end LiveTypes
