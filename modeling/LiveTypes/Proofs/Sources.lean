import LiveTypes.Proofs.References

/-!
# Who reads whom

A reference whose selector is another reference reads an older one, and the one it reads has it among
those to tell, until one of the two is deconstructed. This holds in every run: only the creation and the
end of a reference touch it.
-/
namespace LiveTypes

variable {ν : Type}

/-- What ties a reference to others. -/
structure Tie (ν : Type) where
  selector : Selector ν
  dependents : List ReferenceId
  deconstructed : Bool

/-- With one more to tell. -/
def Tie.gain (x : Tie ν) (d : ReferenceId) : Tie ν := { x with dependents := x.dependents ++ [d] }

/-- With one less to tell. -/
def Tie.drop (x : Tie ν) (d : ReferenceId) : Tie ν := { x with dependents := x.dependents.erase d }

@[simp] theorem Tie.gain_selector (x : Tie ν) (d : ReferenceId) : (x.gain d).selector = x.selector := rfl

@[simp] theorem Tie.gain_deconstructed (x : Tie ν) (d : ReferenceId) :
    (x.gain d).deconstructed = x.deconstructed := rfl

@[simp] theorem Tie.drop_selector (x : Tie ν) (d : ReferenceId) : (x.drop d).selector = x.selector := rfl

@[simp] theorem Tie.drop_deconstructed (x : Tie ν) (d : ReferenceId) :
    (x.drop d).deconstructed = x.deconstructed := rfl

def Reference.tie (x : Reference ν) : Tie ν := ⟨x.selector, x.dependents, x.deconstructed⟩

namespace Engine

/-- What ties a reference to others, if it exists. -/
def tie? (e : Engine ν) (r : ReferenceId) : Option (Tie ν) := e.references[r]?.map Reference.tie

/-- References read older ones, which know of them and of nobody else. -/
structure Tied (e : Engine ν) : Prop where
  later : ∀ (r source : ReferenceId) (x : Tie ν), e.tie? r = some x →
    x.selector.source? = some source → source < r
  told : ∀ (r source : ReferenceId) (x y : Tie ν), e.tie? r = some x → x.deconstructed = false →
    x.selector.source? = some source → e.tie? source = some y → y.deconstructed = false →
    r ∈ y.dependents
  readers : ∀ (r d : ReferenceId) (y : Tie ν), e.tie? r = some y → d ∈ y.dependents →
    ∃ x, e.tie? d = some x ∧ x.selector.source? = some r

section Ties

variable {p : Option Purpose} {e e' e₀ : Engine ν} {r : ReferenceId} {x : Reference ν} {m : Move ν}

theorem tie?_eq (hx : e.references[r]? = some x) : e.tie? r = some x.tie := by
  simp [tie?, hx]

theorem Tied.source_lt {source : ReferenceId} (h : Tied e) (hx : e.core? r = some x)
    (hs : x.selector.source? = some source) : source < r := by
  obtain ⟨z, hz, rfl⟩ := Option.map_eq_some_iff.1 hx
  exact h.later r source z.tie (tie?_eq hz) hs

theorem Tied.mem_dependents {source : ReferenceId} {y : Reference ν} (h : Tied e)
    (hx : e.core? r = some x) (hd : x.deconstructed = false) (hs : x.selector.source? = some source)
    (hy : e.references[source]? = some y) (hdy : y.deconstructed = false) : r ∈ y.dependents := by
  obtain ⟨z, hz, rfl⟩ := Option.map_eq_some_iff.1 hx
  exact h.told r source z.tie y.tie (tie?_eq hz) hd hs (tie?_eq hy) hdy

theorem Tied.reader {d : ReferenceId} (h : Tied e) (hx : e.references[r]? = some x)
    (hd : d ∈ x.dependents) : ∃ y, e.core? d = some y ∧ y.selector.source? = some r := by
  obtain ⟨y, hy, hs⟩ := h.readers r d x.tie (tie?_eq hx) hd
  obtain ⟨z, hz, rfl⟩ := Option.map_eq_some_iff.1 hy
  exact ⟨z.core, core?_eq hz, hs⟩

theorem Calm.tie? (h : Calm p e e') (r : ReferenceId) : e'.tie? r = e.tie? r := by
  have hr := congrArg (fun xs : List (Reference ν) => xs[r]?.map Reference.tie) h.references
  have hb : Reference.tie ∘ Reference.bare = (Reference.tie : Reference ν → Tie ν) := rfl
  simpa [Engine.tie?, hb] using hr

theorem tie?_setState {i : ReferenceId} {state : ReferenceState}
    (he' : e'.references = e.references.modify i fun y => { y with state }) (r : ReferenceId) :
    e'.tie? r = e.tie? r := by
  rw [tie?, tie?, he', List.getElem?_modify]
  cases e.references[r]? with
  | none => rfl
  | some y => by_cases hi : i = r <;> simp [hi, Reference.tie]

theorem Tied.congr (h : Tied e) (he : ∀ r, e'.tie? r = e.tie? r) : Tied e' := by
  refine ⟨fun r source x hx => ?_, fun r source x y hx hd hs hy => ?_, fun r d y hy hd => ?_⟩
  · rw [he] at hx
    exact h.later r source x hx
  · rw [he] at hx hy
    exact h.told r source x y hx hd hs hy
  · rw [he] at hy
    obtain ⟨x, hx, hs⟩ := h.readers r d y hy hd
    exact ⟨x, he d ▸ hx, hs⟩

/-- There is a new reference with the given selector: it has nobody to tell, and the one it reads has to
tell it. -/
abbrev TiesEnlisted (e e' : Engine ν) (selector : Selector ν) : Prop :=
  ∀ i, e'.tie? i = if i = e.references.length then some ⟨selector, [], false⟩
    else (e.tie? i).map fun y => if selector.source? = some i then y.gain e.references.length else y

/-- A reference with the given selector stops: it has nobody to tell, and the one it reads no longer has to
tell it. -/
abbrev TiesStopped (e e' : Engine ν) (r : ReferenceId) (selector : Selector ν) : Prop :=
  ∀ i, e'.tie? i = if i = r then some ⟨selector, [], true⟩
    else (e.tie? i).map fun y => if selector.source? = some i then y.drop r else y

theorem tie?_enlisted {s : SystemId} {selector : Selector ν} (hk : e.knowsSelector selector)
    (hrefs : e'.references = e.enlisted s selector) : TiesEnlisted e e' selector := by
  intro i
  by_cases hi : i = e.references.length
  · rw [if_pos hi, hi, tie?, hrefs, enlisted_new hk]
    rfl
  · rw [if_neg hi, tie?, tie?, hrefs]
    by_cases hl : i < e.references.length
    · rw [enlisted_old hl]
      cases e.references[i]? with
      | none => rfl
      | some y => by_cases hs : selector.source? = some i <;> simp [hs, Reference.tie, Tie.gain]
    · have hl := Nat.le_of_not_lt hl
      rw [List.getElem?_eq_none hl,
        List.getElem?_eq_none (by rw [length_enlisted]; exact Nat.lt_of_le_of_ne hl (Ne.symm hi))]
      rfl

theorem tie?_stopped (hx : e.references[r]? = some x) (hrefs : e'.references = e.stopped r x) :
    TiesStopped e e' r x.selector := by
  intro i
  by_cases hi : i = r
  · rw [if_pos hi, hi, tie?, hrefs, stopped_self hx]
    rfl
  · rw [if_neg hi, tie?, tie?, hrefs, stopped_other hi]
    cases e.references[i]? with
    | none => rfl
    | some y => by_cases hs : x.selector.source? = some i <;> simp [hs, Reference.tie, Tie.drop]

/-- What a step does to the ties between references: nothing, or a new reference is there, or one stops. -/
inductive TieStep (e e' : Engine ν) : Prop
  | same (h : ∀ i, e'.tie? i = e.tie? i)
  | enlist {selector : Selector ν} (known : e.knowsSelector selector) (h : TiesEnlisted e e' selector)
  | stop {r : ReferenceId} {x : Reference ν} (found : e.references[r]? = some x)
      (h : TiesStopped e e' r x.selector)

theorem step_tieStep (hstep : Step e m e') : TieStep e e' := by
  cases hstep with
  | calm hu hc =>
    refine .same fun i => ?_
    rw [hc.tie?]
    cases hu <;> rfl
  | enrol ha _ => exact .same fun i => by rw [tie?, ha.references]; rfl
  | skip _ _ hp => exact .same hp.tie?
  | attempt => exact .same (plain_attempt _ _).calm.tie?
  | @lose t key queue rest r hs =>
    rcases invalidate_cases (e.withStack (.graphPass (.removedType t key) queue :: rest)) r t
      with ⟨heq, -⟩ | ⟨x, watch, hl⟩
    · exact .same fun i => by rw [heq]; rfl
    · exact .same (tie?_setState hl.references)
  | @restart rest r hs =>
    rcases startResolving_cases (e.withStack rest) r with ⟨heq, -⟩ | ⟨x, hx, -, heq⟩
    · exact .same fun i => by rw [heq]; rfl
    · refine .same fun i => ?_
      rw [heq, (plain_attempt _ _).calm.tie?]
      exact tie?_setState rfl i
  | @resolve f rest r t hs hp _ =>
    rcases resolve_cases (e.withStack rest) r t with ⟨heq, -⟩ | ⟨x, subs, ht⟩
    · exact .same fun i => by rw [heq]; rfl
    · exact .same (tie?_setState ht.references)
  | addReference _ _ hk =>
    refine .enlist hk fun i => ?_
    rw [addReference_eq hk, (plain_attempt _ _).calm.tie?]
    exact (tie?_setState rfl i).trans (tie?_enlisted hk rfl i)
  | @deconstruct r _ =>
    rcases deconstruct_cases e r with heq | ⟨x, hst⟩
    · exact .same fun i => by rw [heq]; rfl
    · exact .stop hst.found (tie?_stopped hst.found hst.references)

/-- A new reference is known to the one it reads. -/
theorem Tied.enlist {selector : Selector ν} (h : Tied e) (hk : e.knowsSelector selector)
    (htie : TiesEnlisted e e' selector) : Tied e' := by
  have hmissing : e.tie? e.references.length = none := by simp [tie?]
  have old : ∀ {i x}, e'.tie? i = some x → i ≠ e.references.length →
      ∃ y, e.tie? i = some y ∧ x = if selector.source? = some i then y.gain e.references.length else y := by
    intro i x hx hi
    rw [htie, if_neg hi] at hx
    obtain ⟨y, hy, rfl⟩ := Option.map_eq_some_iff.1 hx
    exact ⟨y, hy, rfl⟩
  have new : ∀ {x}, e'.tie? e.references.length = some x → x = ⟨selector, [], false⟩ := by
    intro x hx
    rw [htie, if_pos rfl] at hx
    exact (Option.some.inj hx).symm
  refine ⟨fun r source x hx hs => ?_, fun r source x y hx hd hs hy hdy => ?_, fun r d y hy hd => ?_⟩
  · by_cases hr : r = e.references.length
    · subst hr
      rw [new hx] at hs
      exact knowsSelector_source hk hs
    · obtain ⟨y, hy, rfl⟩ := old hx hr
      exact h.later r source y hy (by simpa [apply_ite Tie.selector] using hs)
  · have hsl : source < e.references.length := by
      by_cases hr : r = e.references.length
      · subst hr
        rw [new hx] at hs
        exact knowsSelector_source hk hs
      · obtain ⟨z, hz, rfl⟩ := old hx hr
        have hlt := h.later r source z hz (by simpa [apply_ite Tie.selector] using hs)
        obtain ⟨w, hw, -⟩ := Option.map_eq_some_iff.1 hz
        exact Nat.lt_trans hlt (List.getElem?_eq_some_iff.1 hw).1
    obtain ⟨z, hz, rfl⟩ := old hy (Nat.ne_of_lt hsl)
    by_cases hr : r = e.references.length
    · subst hr
      rw [new hx] at hs
      simp [show selector.source? = some source from hs, Tie.gain]
    · obtain ⟨w, hw, rfl⟩ := old hx hr
      have := h.told r source w z hw (by simpa [apply_ite Tie.deconstructed] using hd)
        (by simpa [apply_ite Tie.selector] using hs) hz (by simpa [apply_ite Tie.deconstructed] using hdy)
      split
      · exact List.mem_append_left _ this
      · exact this
  · by_cases hr : r = e.references.length
    · subst hr
      rw [new hy] at hd
      cases hd
    · obtain ⟨z, hz, rfl⟩ := old hy hr
      have hd : d ∈ z.dependents ∨ (d = e.references.length ∧ selector.source? = some r) := by
        split at hd
        · rename_i hs
          exact (List.mem_append.1 hd).imp id fun hd => ⟨List.mem_singleton.1 hd, hs⟩
        · exact .inl hd
      rcases hd with hd | ⟨rfl, hs⟩
      · obtain ⟨w, hw, hs⟩ := h.readers r d z hz hd
        have hne : d ≠ e.references.length := fun hd => by simp [hd, hmissing] at hw
        rw [htie, if_neg hne, hw]
        exact ⟨_, rfl, by simpa [apply_ite Tie.selector] using hs⟩
      · rw [htie, if_pos rfl]
        exact ⟨_, rfl, hs⟩

/-- A reference that stops is unknown to the one it reads. -/
theorem Tied.stop (h : Tied e) (hx : e.references[r]? = some x)
    (htie : TiesStopped e e' r x.selector) : Tied e' := by
  have old : ∀ {i y}, e'.tie? i = some y → i ≠ r →
      ∃ z, e.tie? i = some z ∧ y = if x.selector.source? = some i then z.drop r else z := by
    intro i y hy hi
    rw [htie, if_neg hi] at hy
    obtain ⟨z, hz, rfl⟩ := Option.map_eq_some_iff.1 hy
    exact ⟨z, hz, rfl⟩
  have self : ∀ {y}, e'.tie? r = some y → y = ⟨x.selector, [], true⟩ := by
    intro y hy
    rw [htie, if_pos rfl] at hy
    exact (Option.some.inj hy).symm
  refine ⟨fun i source y hy hs => ?_, fun i source y z hy hd hs hz hdz => ?_, fun i d y hy hd => ?_⟩
  · by_cases hi : i = r
    · subst hi
      rw [self hy] at hs
      exact h.later i source x.tie (tie?_eq hx) hs
    · obtain ⟨z, hz, rfl⟩ := old hy hi
      exact h.later i source z hz (by simpa [apply_ite Tie.selector] using hs)
  · have hi : i ≠ r := by
      rintro rfl
      rw [self hy] at hd
      cases hd
    have his : source ≠ r := by
      rintro rfl
      rw [self hz] at hdz
      cases hdz
    obtain ⟨w, hw, rfl⟩ := old hy hi
    obtain ⟨v, hv, rfl⟩ := old hz his
    have := h.told i source w v hw (by simpa [apply_ite Tie.deconstructed] using hd)
      (by simpa [apply_ite Tie.selector] using hs) hv (by simpa [apply_ite Tie.deconstructed] using hdz)
    split
    · exact (List.mem_erase_of_ne hi).2 this
    · exact this
  · have hi : i ≠ r := by
      rintro rfl
      rw [self hy] at hd
      cases hd
    obtain ⟨z, hz, rfl⟩ := old hy hi
    have hd : d ∈ z.dependents := by
      split at hd
      · exact List.mem_of_mem_erase hd
      · exact hd
    obtain ⟨w, hw, hs⟩ := h.readers i d z hz hd
    by_cases hd : d = r
    · subst hd
      rw [tie?_eq hx] at hw
      rw [htie, if_pos rfl]
      exact ⟨_, rfl, by rw [← Option.some.inj hw] at hs; exact hs⟩
    · rw [htie, if_neg hd, hw]
      exact ⟨_, rfl, by simpa [apply_ite Tie.selector] using hs⟩

theorem tied_new : Tied ({} : Engine ν) := by
  refine ⟨fun r source x hx => ?_, fun r source x y hx => ?_, fun r d y hy => ?_⟩
  · simp [tie?] at hx
  · simp [tie?] at hx
  · simp [tie?] at hy

theorem step_tied (h : Tied e) (hstep : Step e m e') : Tied e' := by
  cases step_tieStep hstep with
  | same htie => exact h.congr htie
  | enlist hk htie => exact h.enlist hk htie
  | stop hx htie => exact h.stop hx htie

/-- In every run references read older ones only. -/
theorem Reachable.tied (h : e.Reachable) : Tied e := by
  obtain ⟨moves, hr⟩ := h
  exact run?_keeps (fun h hm => step_tied h (move?_step hm)) tied_new hr

/-- The host can select by the selector of a reference. -/
theorem Tied.knows_selector (h : Tied e) (hx : e.references[r]? = some x)
    (hhoused : x.system < e.systems.length) : e.knows (.trySelect x.system x.selector) := by
  have hknown : e.knowsSelector x.selector := by
    cases hsel : x.selector with
    | reference source =>
      have hs : x.core.selector.source? = some source := congrArg Selector.source? hsel
      have hlt := h.source_lt (core?_eq hx) hs
      exact decide_eq_true (Nat.lt_trans hlt (List.getElem?_eq_some_iff.1 hx).1)
    | _ => rfl
  simp only [knows, hhoused, hknown, decide_true, Bool.and_self]

end Ties

end Engine
end LiveTypes
