import LiveTypes.Proofs.References

/-!
# A reference without subscriptions is about to start over

A reference that lost its type has no subscription until its listeners have been told. Meanwhile one
frame of the stack, and no more, lets it start over. So when the engine rests, every reference that is
not deconstructed has subscriptions. This holds in every run.
-/
namespace LiveTypes

variable {ν : Type}

/-- Whether a reference in this state has subscriptions. -/
def ReferenceState.isSubscribed : ReferenceState → Bool
  | .unresolved (some _) => true
  | .resolved _ (some _) => true
  | _ => false

namespace Frame

/-- Whether a frame lets a reference start over. -/
def isRestartOf (r : ReferenceId) : Frame ν → Bool
  | .restart r' => r' = r
  | _ => false

theorem isRestartOf_of_purpose {f : Frame ν} {purpose : Purpose} (h : f.purpose? = some purpose)
    (r : ReferenceId) : f.isRestartOf r = false := by
  cases f <;> simp_all [purpose?, isRestartOf]

theorem isRestartOf_of_isSpent {f : Frame ν} (h : f.isSpent) (r : ReferenceId) :
    f.isRestartOf r = false := by
  cases f <;> simp_all [isSpent, isRestartOf]

theorem Skips.isRestartOf {f f' : Frame ν} (h : f.Skips f') (r : ReferenceId) :
    f.isRestartOf r = false ∧ f'.isRestartOf r = false := by
  cases h <;> exact ⟨rfl, rfl⟩

theorem Calls.isRestartOf {f f' : Frame ν} {r' : ReferenceId} (h : f.Calls f' r') (r : ReferenceId) :
    f.isRestartOf r = false ∧ f'.isRestartOf r = false := by
  cases h <;> exact ⟨rfl, rfl⟩

end Frame

namespace Engine

/-- How many frames let a reference start over. -/
def restarts (e : Engine ν) (r : ReferenceId) : Nat := e.stack.countP (·.isRestartOf r)

/-- A reference has subscriptions or is about to start over, exactly once, or it is deconstructed;
none that does not exist is about to start over. -/
inductive Orderly : Option (Reference ν) → Nat → Prop
  | missing : Orderly none 0
  | subscribed {x : Reference ν} :
    x.deconstructed = false → x.state.isSubscribed → Orderly (some x) 0
  | starting {x : Reference ν} :
    x.deconstructed = false → x.state = .unresolved none → Orderly (some x) 1
  | stopped {x : Reference ν} {n : Nat} :
    x.deconstructed → x.state.isSubscribed = false → Orderly (some x) n

/-- Who is not there, or not any more, may have a start over less. -/
theorem Orderly.fewer {x? : Option (Reference ν)} {n n' : Nat} (h : Orderly x? n)
    (hd : ∀ x, x? = some x → x.deconstructed) (hn : n' ≤ n) : Orderly x? n' := by
  cases h with
  | missing =>
    rw [Nat.le_zero.1 hn]
    exact .missing
  | subscribed hl => simp [hd _ rfl] at hl
  | starting hl => simp [hd _ rfl] at hl
  | stopped hg hs => exact .stopped hg hs

/-- Every reference is in order. -/
def Lively (e : Engine ν) : Prop := ∀ r, Orderly (e.core? r) (e.restarts r)

/-! ## What changes the frames -/

section Frames

variable {p : Option Purpose} {e e' e₀ : Engine ν} {f f' : Frame ν} {rest : List (Frame ν)}

theorem restarts_cons (hs : e.stack = f :: rest) (hf : ∀ r, f.isRestartOf r = false) (r : ReferenceId) :
    e.restarts r = (e.withStack rest).restarts r := by
  simp [restarts, hs, hf r]

theorem Grown.restarts {P : Frame ν → Prop} (h : Grown P e e') (hP : ∀ f, P f → f.isFresh)
    (r : ReferenceId) : e'.restarts r = e.restarts r := by
  obtain ⟨frames, hf, hfp⟩ := h.stack
  have : frames.countP (·.isRestartOf r) = 0 := by
    refine List.countP_eq_zero.2 fun f hm => ?_
    have := hP f (hfp f hm)
    cases f <;> simp_all [Frame.isFresh, Frame.isRestartOf]
  simp [Engine.restarts, hf, this]

theorem Calm.restarts (h : Calm p e e') (r : ReferenceId) : e'.restarts r = e.restarts r :=
  h.toGrown.restarts (fun _ hf => hf.fresh) r

theorem Under.restarts (h : Under e p e₀) (r : ReferenceId) : e₀.restarts r = e.restarts r := by
  cases h with
  | call => rfl
  | done hs hf hr =>
    exact (restarts_cons hs (Frame.isRestartOf_of_isSpent hf) r).symm
  | read hs hr ht =>
    obtain ⟨_, _, _, rfl⟩ := Frame.reads?_eq_some.1 hr
    exact (restarts_cons hs (fun _ => rfl) r).symm

theorem Under.core? (h : Under e p e₀) (r : ReferenceId) : e₀.core? r = e.core? r := by
  cases h <;> rfl

end Frames

namespace Lively

variable {e e' : Engine ν} {r : ReferenceId} {x : Reference ν}

theorem same (h : Lively e) (hx : ∀ r, e'.core? r = e.core? r)
    (hr : ∀ r, e'.restarts r = e.restarts r) : Lively e' := fun r => by
  rw [hx, hr]
  exact h r

theorem calm {p : Option Purpose} (h : Lively e) (hc : Calm p e e') : Lively e' :=
  h.same hc.core? hc.restarts

/-- Who has subscriptions is not deconstructed and not about to start over. -/
theorem of_subscribed (h : Lively e) (hx : e.references[r]? = some x) (hs : x.state.isSubscribed) :
    x.deconstructed = false ∧ e.restarts r = 0 := by
  have := h r
  rw [core?_eq hx] at this
  generalize e.restarts r = n at this
  cases this with
  | subscribed hd _ => exact ⟨hd, rfl⟩
  | starting _ hn =>
    have hn : x.state = .unresolved none := hn
    simp [hn, ReferenceState.isSubscribed] at hs
  | stopped _ hn =>
    have hn : x.state.isSubscribed = false := hn
    simp [hn] at hs

/-- Who is about to start over has no subscriptions. -/
theorem of_restart (h : Lively e) (hx : e.references[r]? = some x) (hd : x.deconstructed = false)
    (hr : e.restarts r ≠ 0) : x.state = .unresolved none ∧ e.restarts r = 1 := by
  have := h r
  rw [core?_eq hx] at this
  generalize e.restarts r = n at *
  cases this with
  | subscribed => exact absurd rfl hr
  | starting _ hn => exact ⟨hn, rfl⟩
  | stopped hs _ =>
    have hs : x.deconstructed = true := hs
    simp [hd] at hs

/-- When nobody is about to start over, who is not deconstructed has subscriptions. -/
theorem of_quiet (h : Lively e) (hx : e.references[r]? = some x) (hd : x.deconstructed = false)
    (hr : e.restarts r = 0) : x.state.isSubscribed := by
  have := h r
  rw [core?_eq hx, hr] at this
  cases this with
  | subscribed _ hs => exact hs
  | stopped hs _ =>
    have hs : x.deconstructed = true := hs
    simp [hd] at hs

/-- Who is deconstructed has no subscriptions. -/
theorem of_deconstructed (h : Lively e) (hx : e.core? r = some x) (hd : x.deconstructed) :
    x.state.isSubscribed = false := by
  have := h r
  rw [hx] at this
  generalize e.restarts r = n at this
  cases this with
  | subscribed hlive _ => exact absurd (hlive.symm.trans hd) Bool.false_ne_true
  | starting hlive _ => exact absurd (hlive.symm.trans hd) Bool.false_ne_true
  | stopped _ hs => exact hs

/-- Who has a type and is not deconstructed watches for its removal. -/
theorem watching (h : Lively e) (hx : e.references[r]? = some x) (hd : x.deconstructed = false) {t : Ty}
    (ht : x.state.type? = some t) : ∃ watch, x.state = .resolved t (some watch) := by
  have hsub : x.state.isSubscribed := by
    refine h.of_quiet hx hd (Decidable.byContradiction fun hr => ?_)
    rw [(h.of_restart hx hd hr).1] at ht
    cases ht
  rcases hst : x.state with subs | ⟨t', _ | watch⟩ <;> rw [hst] at ht hsub
  · cases ht
  · cases hsub
  · cases ht
    exact ⟨watch, rfl⟩

/-! ## Each change keeps order -/

theorem pop (h : Lively e) {f : Frame ν} {rest : List (Frame ν)} (hs : e.stack = f :: rest)
    (hf : ∀ r, f.isRestartOf r = false) : Lively (e.withStack rest) :=
  h.same (fun _ => rfl) fun r => (restarts_cons hs hf r).symm

theorem turn (h : Lively e) {f f' : Frame ν} {rest : List (Frame ν)} (hs : e.stack = f :: rest)
    (hf : ∀ r, f.isRestartOf r = false ∧ f'.isRestartOf r = false) :
    Lively (e.withStack (f' :: rest)) :=
  h.same (fun _ => rfl) fun r => by simp [Engine.restarts, hs, hf r]

theorem resolve (h : Lively e) (r : ReferenceId) (t : Ty) : Lively (e.resolve r t) := by
  rcases resolve_cases e r t with ⟨heq, -⟩ | ⟨x, subs, ht⟩
  · rwa [heq]
  · obtain ⟨hd, h0⟩ := h.of_subscribed ht.found (by rw [ht.waiting]; rfl)
    have hr : ∀ i, (e.resolve r t).restarts i = e.restarts i := fun i => by
      simp [Engine.restarts, ht.stack, Frame.isRestartOf]
    intro i
    rw [core?_setState ht.found _ ht.references, hr]
    by_cases hi : i = r
    · rw [if_pos hi, hi, h0]
      exact .subscribed hd rfl
    · rw [if_neg hi]
      exact h i

theorem invalidate (h : Lively e) (r : ReferenceId) (t : Ty) : Lively (e.invalidate r t) := by
  rcases invalidate_cases e r t with ⟨heq, -⟩ | ⟨x, watch, hl⟩
  · rwa [heq]
  · obtain ⟨hd, h0⟩ := h.of_subscribed hl.found (by rw [hl.watching]; rfl)
    have hr : ∀ i, (e.invalidate r t).restarts i = e.restarts i + if r = i then 1 else 0 := fun i => by
      simp [Engine.restarts, hl.stack, Frame.isRestartOf, List.countP_cons]
    intro i
    rw [core?_setState hl.found _ hl.references, hr]
    by_cases hi : i = r
    · rw [if_pos hi, hi, h0, if_pos rfl]
      exact .starting hd rfl
    · rw [if_neg hi, if_neg (Ne.symm hi)]
      exact h i

/-- A reference that subscribes is in order again. -/
theorem subscribe (s : SystemId) (others : ∀ i, i ≠ r → Orderly (e.core? i) (e.restarts i))
    (hx : e.references[r]? = some x) (hd : x.deconstructed = false) (h0 : e.restarts r = 0) :
    Lively (e.subscribe r s) := by
  intro i
  have hr : (e.subscribe r s).restarts i = e.restarts i := rfl
  rw [core?_setState hx _ rfl, hr]
  by_cases hi : i = r
  · rw [if_pos hi, hi, h0]
    exact .subscribed hd rfl
  · rw [if_neg hi]
    exact others i hi

theorem startResolving (h : Lively e) {rest : List (Frame ν)} (hs : e.stack = .restart r :: rest) :
    Lively ((e.withStack rest).startResolving r) := by
  have hr : ∀ i, (e.withStack rest).restarts i = e.restarts i - if r = i then 1 else 0 := fun i => by
    by_cases hi : r = i <;> simp [Engine.restarts, hs, Frame.isRestartOf, hi]
  have others : ∀ i, i ≠ r → Orderly (e.core? i) ((e.withStack rest).restarts i) := by
    intro i hi
    rw [hr, if_neg (Ne.symm hi)]
    exact h i
  rcases startResolving_cases (e.withStack rest) r with ⟨heq, hd⟩ | ⟨x, hx, hd, heq⟩
  · rw [heq]
    intro i
    by_cases hi : i = r
    · subst hi
      refine (h i).fewer (fun y hy => ?_) (by rw [hr]; exact Nat.sub_le _ _)
      obtain ⟨x, hx, rfl⟩ := Option.map_eq_some_iff.1 hy
      exact hd x hx
    · exact others i hi
  · rw [heq]
    refine (subscribe _ others hx hd ?_).calm (plain_attempt _ _).calm
    have h1 : e.restarts r ≠ 0 := by simp [Engine.restarts, hs, Frame.isRestartOf]
    rw [hr, if_pos rfl, (h.of_restart hx hd h1).2]

theorem addReference (h : Lively e) {s : SystemId} {selector : Selector ν}
    (hk : e.knowsSelector selector) : Lively (e.call (.addReference s selector)) := by
  rw [addReference_eq hk]
  have hr : ∀ i, restarts { e with
      references := e.enlisted s selector
      stack := .deliver (.reference e.references.length) :: e.stack } i = e.restarts i := fun i => by
    simp [Engine.restarts, Frame.isRestartOf]
  refine (subscribe _ (fun i hi => ?_) (enlisted_new hk) rfl ?_).calm (plain_attempt _ _).calm
  · rw [hr, core?_enlisted hk rfl, if_neg hi]
    exact h i
  · have := h e.references.length
    rw [core?_eq_none.2 (Nat.le_refl _)] at this
    rw [hr]
    generalize e.restarts e.references.length = n at this
    cases this
    rfl

theorem deconstruct (h : Lively e) (r : ReferenceId) : Lively (e.deconstruct r) := by
  rcases deconstruct_cases e r with heq | ⟨x, hst⟩
  · rwa [heq]
  · intro i
    have hr : (e.deconstruct r).restarts i = e.restarts i := by simp [Engine.restarts, hst.stack]
    rw [hr, core?_stopped hst.found hst.references]
    by_cases hi : i = r
    · rw [if_pos hi]
      refine .stopped rfl ?_
      cases hx : x.state <;> rfl
    · rw [if_neg hi]
      exact h i

end Lively

/-! ## Runs -/

theorem lively_new : Lively ({} : Engine ν) := fun _ => .missing

theorem step_lively {e e' : Engine ν} {m : Move ν} (h : Lively e) (hstep : Step e m e') :
    Lively e' := by
  cases hstep with
  | calm hu hc => exact (h.same hu.core? hu.restarts).calm hc
  | enrol ha _ =>
    refine h.same (fun r => ?_) fun r => ?_
    · rw [core?, ha.references]; rfl
    · rw [restarts, ha.stack]; rfl
  | skip hs hk hp => exact (h.turn hs hk.isRestartOf).calm hp
  | attempt hs hk => exact (h.turn hs hk.isRestartOf).calm (plain_attempt _ _).calm
  | lose hs => exact (h.turn hs fun _ => ⟨rfl, rfl⟩).invalidate _ _
  | restart hs => exact h.startResolving hs
  | resolve hs hp _ => exact (h.pop hs (Frame.isRestartOf_of_purpose hp)).resolve _ _
  | addReference _ _ hk => exact h.addReference hk
  | deconstruct _ => exact (h.deconstruct _).calm (.finish (p := none) _)

/-- In every run every reference is in order. -/
theorem Reachable.lively {e : Engine ν} (h : e.Reachable) : Lively e := by
  obtain ⟨moves, hr⟩ := h
  exact run?_keeps (fun h hm => step_lively h (move?_step hm)) lively_new hr

end Engine
end LiveTypes
