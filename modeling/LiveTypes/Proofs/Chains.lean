import LiveTypes.Proofs.Attendance
import LiveTypes.Proofs.Subscriptions
import LiveTypes.Proofs.Transitions

/-!
# A reference that reads another

A reference whose selector is another reference, its source, is told when the source takes a type, but not
when the source loses it: both then watch the type, and both hear that it left. So it agrees with its
source whenever the engine rests, unless it took the type while the pass about its removal still had to
call the source but not it. `Engine.exposed` names that situation, and only the move that gives a reference
its type can bring it about.
-/
namespace LiveTypes.Engine

variable {ν : Type}

/-- Whether a reference has a type of which its source, but not it, is yet to hear that it left. -/
def exposed (e : Engine ν) (r : ReferenceId) : Bool :=
  match e.core? r with
  | none => false
  | some x =>
    match x.selector.source?, x.state.type? with
    | some source, some t => !x.deconstructed && e.watches source t && e.due source t && !e.due r t
    | _, _ => false

/-- If a move gives a reference a type, it does not leave it exposed. -/
def TakesInTime (r : ReferenceId) (e : Engine ν) (m : Move ν) : Prop :=
  ∀ e', e.move? m = some e' → e.typeOf? r = none → e'.exposed r = false

/-! ## The invariant -/

/-- A reference has the type of its source, or is yet to hear that its own type left. -/
def Fits (e : Engine ν) (r source : ReferenceId) : Prop :=
  ∀ t, e.typeOf? r = some t → e.typeOf? source = some t ∨ e.due r t

/-- What holds of a reference at every moment of a run in which it takes its types in time. -/
structure Chained (e : Engine ν) (r : ReferenceId) : Prop where
  fits : ∀ (x : Reference ν) (source : ReferenceId), e.core? r = some x → x.deconstructed = false →
    x.selector.source? = some source → Fits e r source
  sheltered : e.exposed r = false

/-! ## Steps -/

section Steps

variable {e e' : Engine ν} {m : Move ν} {r source : ReferenceId} {x : Reference ν} {t : Ty}

theorem exposed_iff : e.exposed r ↔ ∃ x source t, e.core? r = some x ∧ x.deconstructed = false ∧
    x.selector.source? = some source ∧ e.typeOf? r = some t ∧ e.watches source t ∧ e.due source t ∧
      e.due r t = false := by
  unfold exposed
  cases hx : e.core? r with
  | none => simp
  | some x =>
    have ht : e.typeOf? r = x.state.type? := by
      rw [typeOf?_eq_core, hx]
      rfl
    rw [ht]
    cases hsrc : x.selector.source? with
    | none => simp [hsrc]
    | some source => cases htx : x.state.type? <;> simp [hsrc, htx, and_assoc]

/-- A reference that is not exposed hears of a removal if its source does. -/
theorem due_of_source (h : e.exposed r = false) (hx : e.core? r = some x) (hd : x.deconstructed = false)
    (hsrc : x.selector.source? = some source) (ht : e.typeOf? r = some t) (hw : e.watches source t)
    (hdue : e.due source t) : e.due r t := by
  by_contra hnot
  have hexp := exposed_iff.2 ⟨x, source, t, hx, hd, hsrc, ht, hw, hdue, by simpa using hnot⟩
  simp [h] at hexp

/-- A step keeps a reference with the type of its source, if it is not exposed. -/
theorem Chained.step_fits (h : Chained e r) (hv : Lively e) (htied : Tied e) (ha : AttendsSource e r)
    (hstep : Step e m e') {x' : Reference ν} (hx' : e'.core? r = some x')
    (hd' : x'.deconstructed = false) (hsrc' : x'.selector.source? = some source) : Fits e' r source := by
  have hstates := step_stateStep hv hstep
  intro t ht'
  rcases hstates.reader hx' hd' with hnew | ⟨x, hx, hd, hsel⟩
  · rw [typeOf?_eq_core, hx'] at ht'
    cases hnew.untyped.symm.trans ht'
  rw [← hsel] at hsrc'
  have fits := h.fits x source hx hd hsrc'
  have later : e.typeOf? r = some t → e.due r t → e'.due r t := fun ht hdue =>
    step_due hv hstep hx hd ht ht' hdue
  cases hstates.retypes with
  | keeps hc =>
    rw [hc] at ht' ⊢
    exact (fits t ht').imp id (later ht')
  | @loses i t' key queue rest hs hw hc =>
    have hri : r ≠ i := by
      rintro rfl
      rw [hc, if_pos rfl] at ht'
      cases ht'
    rw [hc, if_neg hri] at ht'
    rcases fits t ht' with hst | hdue
    · by_cases hi : source = i
      · -- the source loses this very type, so the reference is to hear of that, too
        subst hi
        cases (typeOf?_of_watches hw).symm.trans hst
        refine .inr (later ht' (due_of_source h.sheltered hx hd hsrc' ht' hw ?_))
        simp [due, hs, Frame.owesLoss]
      · rw [hc, if_neg hi]
        exact .inl hst
    · exact .inr (later ht' hdue)
  | @takes i t' f rest hs hp hreads hn hc =>
    have hne : source ≠ r := Nat.ne_of_lt (htied.source_lt hx hsrc')
    by_cases hri : r = i
    · subst hri
      rw [hc, if_pos rfl] at ht'
      cases ht'
      rw [hc, if_neg hne]
      exact .inl (hreads source ((ha x source hx hd hsrc').1 f (hs ▸ List.mem_cons_self) hp))
    · rw [hc, if_neg hri] at ht'
      rcases fits t ht' with hst | hdue
      · have hi : source ≠ i := by
          rintro rfl
          cases hn.symm.trans hst
        rw [hc, if_neg hi]
        exact .inl hst
      · exact .inr (later ht' hdue)

/-- Who has a type and is not deconstructed is among those who would hear of its removal. -/
theorem Subscribed.mem_hearers (h : Subscribed e) (hv : Lively e) (hx : e.core? r = some x)
    (hd : x.deconstructed = false) (ht : e.typeOf? r = some t) : .reference r ∈ e.hearers t := by
  obtain ⟨y, hy, rfl⟩ := Option.map_eq_some_iff.1 hx
  rw [typeOf?_eq hy] at ht
  obtain ⟨w, hst⟩ := hv.watching hy hd ht
  have hm : (⟨w, some t, .reference r⟩ : Entry (Option Ty) GraphListener) ∈
      e.listeners.held (.reference r) := by
    rw [h.held_eq hy, hst]
    exact List.mem_singleton.2 rfl
  exact Registry.mem_listeners.2 ⟨_, (Registry.mem_held.1 hm).1, rfl, rfl, by simp⟩

/-- A move that does not give a reference its type does not expose it: when the pass on a removal begins, it
will call all who watch. -/
theorem Chained.move_sheltered (h : Chained e r) (hv : Lively e) (hsub : Subscribed e)
    (htakes : TakesInTime r e m) (hm : e.move? m = some e') : e'.exposed r = false := by
  have hstep := move?_step hm
  have hstates := step_stateStep hv hstep
  by_contra hexp
  obtain ⟨x', source, t, hx', hd', hsrc, ht', hw', hdue', hnot⟩ := exposed_iff.1 (by simpa using hexp)
  obtain ⟨t₀, ht⟩ : ∃ t₀, e.typeOf? r = some t₀ :=
    Option.ne_none_iff_exists'.1 fun hn => hexp (htakes e' hm hn)
  cases hstates.retypes.same ht ht'
  rcases hstates.reader hx' hd' with hnew | ⟨x, hx, hd, hsel⟩
  · rw [typeOf?_eq_core, hnew.missing] at ht
    cases ht
  rw [← hsel] at hsrc
  have hndue : ¬ e.due r t := fun hdue => by
    have := step_due hv hstep hx hd ht ht' hdue
    simp [hnot] at this
  -- a source that takes the type now had none, and the reference would be waiting to lose it
  have hw : e.watches source t := (hstates.watches hw').resolve_right fun hn => by
    rcases h.fits x source hx hd hsrc t ht with hs | hdue
    · cases hn.symm.trans hs
    · exact hndue hdue
  rcases move?_due hm hdue' with hdue | hall
  · exact hndue (due_of_source h.sheltered hx hd hsrc ht hw hdue)
  · have := hall r (hsub.mem_hearers hv hx hd ht)
    simp [hnot] at this

theorem chained_new : Chained ({} : Engine ν) r :=
  ⟨fun _ _ hx => by simp [core?] at hx, by simp [exposed, core?]⟩

end Steps

/-! ## Runs -/

section Runs

variable {e : Engine ν} {r source : ReferenceId}

/-- In every run that ends no subscription of a reference and in which a reference takes its types in time,
it is tied to its source. -/
theorem ReachableBy.chained (h : ReachableBy (fun e m => SparesReferences e m ∧ TakesInTime r e m) e) :
    Chained e r := by
  refine (ReachableBy.keeps
    (P := fun e => Lively e ∧ Known e ∧ Tied e ∧ Subscribed e ∧ AttendsSource e r ∧ Chained e r)
    ⟨lively_new, known_new, tied_new, subscribed_new, attendsSource_new, chained_new⟩ ?_ h).2.2.2.2.2
  rintro e e' m ⟨hv, hk, ht, hs, ha, hc⟩ ⟨hspares, htakes⟩ hm
  have hstep := move?_step hm
  exact ⟨step_lively hv hstep, step_known hk hstep, step_tied ht hstep, step_subscribed hv hs hspares hstep,
    step_attendsSource hv hk ht ha hstep,
    fun x source hx hd hsrc => hc.step_fits hv ht ha hstep hx hd hsrc, hc.move_sheltered hv hs htakes hm⟩

/-- When the engine rests, a reference that fits its source agrees with it. -/
theorem Chained.agrees {x : Reference ν} (hc : Chained e r) (h : e.Reachable) (hrest : e.atRest)
    (hx : e.references[r]? = some x) (hd : x.deconstructed = false)
    (hsel : x.selector = .reference source) : e.typeOf? r = e.typeOf? source := by
  have hs : e.stack = [] := by simpa [atRest] using hrest
  have hsrc : x.selector.source? = some source := by rw [hsel]; rfl
  cases ht : e.typeOf? r with
  | some t =>
    rcases hc.fits x.core source (core?_eq hx) hd hsrc t ht with h | h
    · exact h.symm
    · simp [due, hs] at h
  | none =>
    by_contra hne
    exact h.typed_of_source hrest hx hd hsrc (Ne.symm hne) ht

end Runs

end LiveTypes.Engine
