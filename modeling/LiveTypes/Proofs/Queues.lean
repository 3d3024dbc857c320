import LiveTypes.Proofs.Restarts

/-!
# Whom the passes still have to call

A reference that a running pass has in its queue is yet to hear of the event. Two such promises matter
to references: that a type left the graph (`due`), and that the reference it reads has taken a type
(`called`). Work that no pass does keeps both.
-/
namespace LiveTypes

variable {ν : Type}

namespace Frame

/-- Whether a pass still has to tell a reference that a type left the graph. -/
def owesLoss (r : ReferenceId) (t : Ty) : Frame ν → Bool
  | .graphPass (.removedType t' _) queue => t' = t && queue.contains (.reference r)
  | _ => false

/-- Whether a pass still has to tell a reference that the one it reads has taken a type. -/
def owesCall (source r : ReferenceId) : Frame ν → Bool
  | .referencePass source' (.resolved _) queue => source' = source && queue.contains (.dependent r)
  | _ => false

theorem owesLoss_of_isSpent {f : Frame ν} (h : f.isSpent) (r : ReferenceId) (t : Ty) :
    f.owesLoss r t = false := by
  unfold owesLoss
  split
  · rename_i queue
    cases queue with
    | nil => simp
    | cons => cases h
  · rfl

theorem owesCall_of_isSpent {f : Frame ν} (h : f.isSpent) (source r : ReferenceId) :
    f.owesCall source r = false := by
  unfold owesCall
  split
  · rename_i queue
    cases queue with
    | nil => simp
    | cons => cases h
  · rfl

theorem isSpent_of_purpose {f : Frame ν} {purpose : Purpose} (h : f.purpose? = some purpose) :
    f.isSpent := by
  cases f <;> simp_all [purpose?, isSpent]

theorem isSpent_of_reads {f : Frame ν} {pair : ReferenceId × ReferenceId}
    (h : f.reads? = some pair) : f.isSpent := by
  obtain ⟨_, _, _, rfl⟩ := reads?_eq_some.1 h
  rfl

theorem purpose?_of_reads {f : Frame ν} {pair : ReferenceId × ReferenceId}
    (h : f.reads? = some pair) : f.purpose? = some (.resolution pair.1) := by
  obtain ⟨_, _, _, rfl⟩ := reads?_eq_some.1 h
  rfl

theorem question?_of_reads {f : Frame ν} {pair : ReferenceId × ReferenceId}
    (h : f.reads? = some pair) : f.question? = none := by
  obtain ⟨_, _, _, rfl⟩ := reads?_eq_some.1 h
  rfl

theorem Skips.owesLoss {f f' : Frame ν} (h : f.Skips f') (r : ReferenceId) (t : Ty) :
    f'.owesLoss r t = f.owesLoss r t := by
  cases h with
  | @graph event l queue hl =>
    cases event with
    | removedType t' key =>
      have hne : GraphListener.reference r ≠ l := fun h => (hl r t' key h.symm).2 rfl
      simp [Frame.owesLoss, hne]
    | addedType => rfl
    | addedEdge => rfl
    | removedEdge => rfl
  | rules => rfl
  | reference => rfl

theorem Skips.owesCall {f f' : Frame ν} (h : f.Skips f') (source r : ReferenceId) :
    f'.owesCall source r = f.owesCall source r := by
  cases h with
  | graph => rfl
  | rules => rfl
  | @reference r' event l queue hl =>
    cases event with
    | resolved t =>
      have hne : ReferenceListener.dependent r ≠ l := fun h => hl r t h.symm rfl
      simp [Frame.owesCall, hne]
    | invalidated => rfl

theorem Skips.purpose? {f f' : Frame ν} (h : f.Skips f') : f.purpose? = none ∧ f'.purpose? = none := by
  cases h <;> exact ⟨rfl, rfl⟩

theorem Calls.owesLoss {f f' : Frame ν} {d : ReferenceId} (h : f.Calls f' d) (r : ReferenceId)
    (t : Ty) : f'.owesLoss r t = f.owesLoss r t := by
  cases h <;> rfl

/-- Whoever is not the one called now is still to be called. -/
theorem Calls.owesCall {f f' : Frame ν} {d r : ReferenceId} (h : f.Calls f' d) (hr : r ≠ d)
    (source : ReferenceId) : f'.owesCall source r = f.owesCall source r := by
  cases h with
  | graph => rfl
  | rules => rfl
  | source => simp [Frame.owesCall, hr]

theorem Calls.purpose? {f f' : Frame ν} {d : ReferenceId} (h : f.Calls f' d) :
    f.purpose? = none ∧ f'.purpose? = none := by
  cases h <;> exact ⟨rfl, rfl⟩

end Frame

/-! ## Order in a queue -/

/-- `b` does not come after `l`. -/
def Before (queue : List GraphListener) (b l : GraphListener) : Prop :=
  ∀ first last, queue = first ++ l :: last → b ∉ last

section Before

variable {queue : List GraphListener} {a b l : GraphListener}

theorem Before.tail (h : Before (a :: queue) b l) : Before queue b l :=
  fun first last hq => h (a :: first) last (by rw [hq]; rfl)

theorem Before.head (h : Before (l :: queue) b l) : b ∉ queue := h [] queue rfl

/-- The snapshot of a registry has the order of the subscriptions. -/
theorem before_of_older {r : Registry (Option Ty) GraphListener} {alive : GraphListener → Bool}
    {accepts : Option Ty → Bool} (ho : r.Ordered)
    (hold : ∀ z ∈ r.held b, ∀ z' ∈ r.held l, z.id < z'.id) : Before (r.listeners alive accepts) b l := by
  intro first last hq hb
  obtain ⟨left, right, hsplit, -, hright⟩ := List.map_eq_append_iff.1 hq
  obtain ⟨z', later, rfl, hz', rfl⟩ := List.map_eq_cons_iff.1 hright
  obtain ⟨z, hz, hzb⟩ := List.mem_map.1 hb
  have hsub : (left ++ z' :: later).Sublist r.entries := hsplit ▸ List.filter_sublist
  have hlt : z'.id < z.id := by
    have hp := ho.increasing.sublist hsub
    exact (List.pairwise_cons.1 (List.pairwise_append.1 hp).2.1).1 z hz
  have hin : ∀ w ∈ z' :: later, w ∈ r.entries := fun w hw =>
    hsub.subset (List.mem_append_right _ hw)
  have := hold z (Registry.mem_held.2 ⟨hin z (List.mem_cons_of_mem _ hz), hzb⟩) z'
    (Registry.mem_held.2 ⟨hin z' List.mem_cons_self, hz'⟩)
  exact absurd hlt (Nat.not_lt_of_lt this)

end Before

namespace Engine

/-- Those who will hear that a type left the graph, if the pass on it begins now. -/
abbrev hearers (e : Engine ν) (t : Ty) : List GraphListener :=
  e.listeners.listeners e.hearsGraph fun watched => watched.isNone || watched = some t

/-- Whether a reference is yet to hear that a type left the graph. -/
def due (e : Engine ν) (r : ReferenceId) (t : Ty) : Bool := e.stack.any (·.owesLoss r t)

/-- Whether a reference is yet to hear that the one it reads has taken a type. -/
def called (e : Engine ν) (source r : ReferenceId) : Bool := e.stack.any (·.owesCall source r)

/-- Whether the next thing to be done is a part of a reference's search for a type. -/
def Seeking (e : Engine ν) (r : ReferenceId) : Prop :=
  ∃ f rest, e.stack = f :: rest ∧ f.purpose? = some (.resolution r)

section Promises

variable {p : Option Purpose} {P : Frame ν → Prop} {e e' e₀ : Engine ν} {f f' : Frame ν}
  {rest : List (Frame ν)} {source r : ReferenceId} {t : Ty}

theorem due_of_rest (hs : e'.stack = f :: e.stack) (h : e.due r t) : e'.due r t := by
  simp [due, hs] at h ⊢
  exact .inr h

theorem Grown.due (h : Grown P e e') (hd : e.due r t) : e'.due r t := by
  obtain ⟨frames, hf, -⟩ := h.stack
  simp only [Engine.due, hf, List.any_append, Bool.or_eq_true] at hd ⊢
  exact .inr hd

theorem Grown.called (h : Grown P e e') (hd : e.called source r) : e'.called source r := by
  obtain ⟨frames, hf, -⟩ := h.stack
  simp only [Engine.called, hf, List.any_append, Bool.or_eq_true] at hd ⊢
  exact .inr hd

theorem due_turn (hs : e.stack = f :: rest) (hf : f'.owesLoss r t = f.owesLoss r t) :
    (e.withStack (f' :: rest)).due r t = e.due r t := by
  simp [due, hs, hf]

theorem called_turn (hs : e.stack = f :: rest) (hf : f'.owesCall source r = f.owesCall source r) :
    (e.withStack (f' :: rest)).called source r = e.called source r := by
  simp [called, hs, hf]

end Promises

/-! ## Selections are for references that exist -/

/-- Every selection for a reference is for one that exists. -/
def Known (e : Engine ν) : Prop :=
  ∀ f ∈ e.stack, ∀ r, f.purpose? = some (.resolution r) → r < e.references.length

section Known

variable {p : Option Purpose} {e e' e₀ : Engine ν} {f : Frame ν} {rest : List (Frame ν)}

theorem Known.calm (h : Known e) (hc : Calm p e e')
    (hp : ∀ r, p = some (.resolution r) → r < e.references.length) : Known e' := by
  intro f hf r hr
  obtain ⟨frames, hs, hfr⟩ := hc.stack
  rw [hc.missing]
  rw [hs] at hf
  rcases List.mem_append.1 hf with hf | hf
  · exact hp r ((hfr f hf).purpose r hr)
  · exact h f hf r hr

/-- Frames without a purpose may come, and frames may go. -/
theorem Known.of_frames (h : Known e) (hl : e.references.length ≤ e'.references.length)
    (hs : ∀ f ∈ e'.stack, f.purpose? = none ∨ f ∈ e.stack) : Known e' := by
  intro f hf r hr
  rcases hs f hf with hn | hf
  · simp [hn] at hr
  · exact Nat.lt_of_lt_of_le (h f hf r hr) hl

theorem Known.pop (h : Known e) (hs : e.stack = f :: rest) : Known (e.withStack rest) :=
  h.of_frames (Nat.le_refl _) fun _ hg => .inr (hs ▸ List.mem_cons_of_mem _ hg)

theorem Known.turn {f' : Frame ν} (h : Known e) (hs : e.stack = f :: rest) (hp : f'.purpose? = none) :
    Known (e.withStack (f' :: rest)) :=
  h.of_frames (Nat.le_refl _) fun g hg => by
    rcases List.mem_cons.1 hg with rfl | hg
    · exact .inl hp
    · exact .inr (hs ▸ List.mem_cons_of_mem _ hg)

theorem Known.subscribe (h : Known e) (r : ReferenceId) (s : SystemId) : Known (e.subscribe r s) :=
  h.of_frames (by simp [Engine.subscribe]) fun _ hf => .inr hf

theorem Known.attempt (h : Known e) (r : ReferenceId) : Known (e.attempt r) := by
  by_cases hr : r < e.references.length
  · refine h.calm (plain_attempt e r).calm fun i hi => ?_
    cases hi
    exact hr
  · rw [attempt_of_not_pending fun x hx => absurd (List.getElem?_eq_some_iff.1 hx).1 hr]
    exact h

theorem step_known {m : Move ν} (h : Known e) (hstep : Step e m e') : Known e' := by
  cases hstep with
  | calm hu hc =>
    cases hu with
    | call => exact h.calm hc (by simp)
    | done hs hf hr => exact (h.pop hs).calm hc (h _ (hs ▸ List.mem_cons_self))
    | read hs => exact (h.pop hs).calm hc (by simp)
  | enrol ha _ =>
    exact h.of_frames (Nat.le_of_eq (by rw [ha.references])) fun f hf => .inr (ha.stack ▸ hf)
  | skip hs hk hp => exact (h.turn hs hk.purpose?.2).calm hp (by simp)
  | attempt hs hk => exact (h.turn hs hk.purpose?.2).attempt _
  | @lose t key queue rest r hs =>
    have turned : Known (e.withStack (.graphPass (.removedType t key) queue :: rest)) := h.turn hs rfl
    rcases invalidate_cases (e.withStack (.graphPass (.removedType t key) queue :: rest)) r t
      with ⟨heq, -⟩ | ⟨x, watch, hl⟩
    · rw [heq]
      exact turned
    · refine turned.of_frames (by simp [hl.references]) fun f hf => ?_
      rw [hl.stack] at hf
      rcases List.mem_cons.1 hf with rfl | hf
      · exact .inl rfl
      · exact (List.mem_cons.1 hf).imp (fun h => by rw [h]; rfl) id
  | @restart rest r hs =>
    rcases startResolving_cases (e.withStack rest) r with ⟨heq, -⟩ | ⟨x, hx, hd, heq⟩
    · rw [heq]
      exact h.pop hs
    · rw [heq]
      exact ((h.pop hs).subscribe r x.system).attempt r
  | @resolve f rest r t hs hp _ =>
    rcases resolve_cases (e.withStack rest) r t with ⟨heq, -⟩ | ⟨x, subs, ht⟩
    · rw [heq]
      exact h.pop hs
    · refine (h.pop hs).of_frames (by simp [ht.references]) fun f hf => ?_
      rw [ht.stack] at hf
      exact (List.mem_cons.1 hf).imp (fun h => by rw [h]; rfl) id
  | addReference _ _ hk =>
    rw [addReference_eq hk]
    refine ((h.of_frames (by simp) fun f hf => ?_).subscribe _ _).attempt _
    exact (List.mem_cons.1 hf).imp (fun h => by rw [h]; rfl) id
  | @deconstruct r _ =>
    have hd : Known (e.deconstruct r) := by
      rcases deconstruct_cases e r with heq | ⟨x, hst⟩
      · rwa [heq]
      · exact h.of_frames (Nat.le_of_eq (by rw [hst.references, length_stopped]))
          fun f hf => .inr (hst.stack ▸ hf)
    exact hd.calm (.finish (p := none) _) (by simp)

theorem known_new : Known ({} : Engine ν) := fun _ hf => nomatch hf

end Known

end Engine
end LiveTypes
