import LiveTypes.Proofs.Restarts

/-!
# Passes of a reference alternate

A reference begins a pass over its listeners when it takes a type and when it loses it, and it reports
both. `Alternating` says that such passes follow each other in turn, each loss naming the type taken
before it. The invariant that carries it through every run is that the passes so far lead to the type
that the reference has now.
-/
namespace LiveTypes

variable {ν : Type}

/-- The passes, oldest first, are in turn a type taken and the same type lost, and they lead from no
type to the given one. -/
inductive Alternating : List ReferenceEvent → Option Ty → Prop
  | start : Alternating [] none
  | taken {passes : List ReferenceEvent} {t : Ty} :
    Alternating passes none → Alternating (passes ++ [.resolved t]) (some t)
  | lost {passes : List ReferenceEvent} {t : Ty} :
    Alternating passes (some t) → Alternating (passes ++ [.invalidated (some t)]) none

/-- The pass of a reference that a report tells of. -/
def Report.passOf? (r : ReferenceId) : Report ν → Option ReferenceEvent
  | .log (.resolved r' _ t) => if r' = r then some (.resolved t) else none
  | .log (.invalidated r' _ t) => if r' = r then some (.invalidated (some t)) else none
  | _ => none

/-- The pass of a reference that a frame runs. -/
def Frame.passOf? (r : ReferenceId) : Frame ν → Option ReferenceEvent
  | .referencePass r' event _ => if r' = r then some event else none
  | _ => none

namespace Frame

theorem passOf?_of_purpose {f : Frame ν} {purpose : Purpose} (h : f.purpose? = some purpose)
    (r : ReferenceId) : f.passOf? r = none := by
  cases f <;> simp_all [purpose?, passOf?]

theorem Skips.passOf? {f f' : Frame ν} (h : f.Skips f') (r : ReferenceId) :
    f'.passOf? r = f.passOf? r := by
  cases h <;> rfl

theorem Calls.passOf? {f f' : Frame ν} {d : ReferenceId} (h : f.Calls f' d) (r : ReferenceId) :
    f'.passOf? r = f.passOf? r := by
  cases h <;> rfl

end Frame

namespace Engine

/-- The passes that a reference has begun, oldest first. -/
def passes (e : Engine ν) (r : ReferenceId) : List ReferenceEvent :=
  e.trace.filterMap (·.passOf? r)

/-- The passes of a reference that are running, innermost first. -/
def running (e : Engine ν) (r : ReferenceId) : List ReferenceEvent :=
  e.stack.filterMap (·.passOf? r)

/-- The reference keeps its type and begins no pass. -/
structure Unmoved (r : ReferenceId) (e e' : Engine ν) : Prop where
  passes : e'.passes r = e.passes r
  running : e'.running r <:+ e.running r
  type : e'.typeOf? r = e.typeOf? r

/-- The reference begins a pass, which is the next thing to be done. -/
structure Begins (r : ReferenceId) (event : ReferenceEvent) (e e' : Engine ν) : Prop where
  passes : e'.passes r = e.passes r ++ [event]
  running : e'.running r = event :: e.running r
  top : ∃ queue, e'.stack.head? = some (.referencePass r event queue)

/-! ## What leaves a reference unmoved -/

section Unmoved

variable {p : Option Purpose} {e e' e'' e₀ : Engine ν} {r : ReferenceId}

theorem Unmoved.trans (h : Unmoved r e e') (h' : Unmoved r e' e'') : Unmoved r e e'' :=
  ⟨h'.passes.trans h.passes, h'.running.trans h.running, h'.type.trans h.type⟩

theorem passes_eq_of_plain {reports : List (Report ν)} (ht : e'.trace = e.trace ++ reports)
    (hp : ∀ q ∈ reports, q.isPlain) (r : ReferenceId) : e'.passes r = e.passes r := by
  have : reports.filterMap (·.passOf? r) = [] := by
    refine List.filterMap_eq_nil_iff.2 fun q hq => ?_
    have := hp q hq
    unfold Report.isPlain at this
    split at this
    · cases this
    · cases this
    · unfold Report.passOf?
      split <;> simp_all
  simp [passes, ht, this]

theorem Grown.running {P : Frame ν → Prop} (h : Grown P e e') (hP : ∀ f, P f → f.isFresh)
    (r : ReferenceId) : e'.running r = e.running r := by
  obtain ⟨frames, hf, hfp⟩ := h.stack
  have : frames.filterMap (·.passOf? r) = [] := by
    refine List.filterMap_eq_nil_iff.2 fun f hm => ?_
    have := hP f (hfp f hm)
    cases f <;> simp_all [Frame.isFresh, Frame.passOf?]
  simp [Engine.running, hf, this]

theorem Calm.unmoved (h : Calm p e e') (r : ReferenceId) : Unmoved r e e' := by
  obtain ⟨reports, ht, hp⟩ := h.trace
  have hrun := h.toGrown.running (fun _ hf => hf.fresh) r
  exact ⟨passes_eq_of_plain ht hp r, ⟨[], hrun⟩, h.typeOf? r⟩

theorem unmoved_pop {f : Frame ν} {rest : List (Frame ν)} (hs : e.stack = f :: rest)
    (r : ReferenceId) : Unmoved r e (e.withStack rest) := by
  refine ⟨rfl, ?_, rfl⟩
  rw [running, running, hs]
  exact (List.suffix_cons f rest).filterMap _

theorem Under.unmoved (h : Under e p e₀) (r : ReferenceId) : Unmoved r e e₀ := by
  cases h with
  | call => exact ⟨rfl, List.suffix_refl _, rfl⟩
  | done hs => exact unmoved_pop hs r
  | read hs => exact unmoved_pop hs r

/-- A turn of a pass leaves the pass running. -/
theorem running_turn {f f' : Frame ν} {rest : List (Frame ν)} (hs : e.stack = f :: rest)
    (hf : f'.passOf? r = f.passOf? r) : (e.withStack (f' :: rest)).running r = e.running r := by
  simp [running, hs, List.filterMap_cons, hf]

theorem unmoved_turn {f f' : Frame ν} {rest : List (Frame ν)} (hs : e.stack = f :: rest)
    (hf : f'.passOf? r = f.passOf? r) : Unmoved r e (e.withStack (f' :: rest)) :=
  ⟨rfl, running_turn hs hf ▸ List.suffix_refl _, rfl⟩

end Unmoved

/-! ## What moves it -/

section Moved

variable {e : Engine ν} {r i : ReferenceId} {t : Ty} {x : Reference ν}

theorem resolve_passes (e : Engine ν) (i : ReferenceId) (t : Ty) (r : ReferenceId) :
    Unmoved r e (e.resolve i t) ∨
      (Begins r (.resolved t) e (e.resolve i t) ∧ e.typeOf? r = none ∧
        (e.resolve i t).typeOf? r = some t) := by
  rcases resolve_cases e i t with ⟨heq, -⟩ | ⟨x, subs, ht⟩
  · rw [heq]
    exact .inl ⟨rfl, List.suffix_refl _, rfl⟩
  · obtain ⟨text, htrace⟩ := ht.trace
    have hc := core?_setState ht.found _ ht.references r
    by_cases hr : r = i
    · subst hr
      rw [if_pos rfl] at hc
      refine .inr ⟨⟨?_, ?_, ⟨_, by rw [ht.stack]; rfl⟩⟩, ?_, ?_⟩
      · simp [passes, htrace, Report.passOf?]
      · simp [running, ht.stack, Frame.passOf?]
      · rw [typeOf?_eq ht.found, ht.waiting]
        rfl
      · rw [typeOf?_eq_core, hc]
        rfl
    · rw [if_neg hr] at hc
      refine .inl ⟨?_, ?_, ?_⟩
      · simp [passes, htrace, Report.passOf?, Ne.symm hr]
      · simp [running, ht.stack, Frame.passOf?, Ne.symm hr]
      · rw [typeOf?_eq_core, typeOf?_eq_core, hc]

theorem invalidate_passes (e : Engine ν) (i : ReferenceId) (t : Ty) (r : ReferenceId) :
    Unmoved r e (e.invalidate i t) ∨
      (Begins r (.invalidated (some t)) e (e.invalidate i t) ∧ e.typeOf? r = some t ∧
        (e.invalidate i t).typeOf? r = none) := by
  rcases invalidate_cases e i t with ⟨heq, -⟩ | ⟨x, watch, hl⟩
  · rw [heq]
    exact .inl ⟨rfl, List.suffix_refl _, rfl⟩
  · obtain ⟨text, htrace⟩ := hl.trace
    have hc := core?_setState hl.found _ hl.references r
    by_cases hr : r = i
    · subst hr
      rw [if_pos rfl] at hc
      refine .inr ⟨⟨?_, ?_, ⟨_, by rw [hl.stack]; rfl⟩⟩, ?_, ?_⟩
      · simp [passes, htrace, Report.passOf?]
      · simp [running, hl.stack, Frame.passOf?]
      · rw [typeOf?_eq hl.found, hl.watching]
        rfl
      · rw [typeOf?_eq_core, hc]
        rfl
    · rw [if_neg hr] at hc
      refine .inl ⟨?_, ?_, ?_⟩
      · simp [passes, htrace, Report.passOf?, Ne.symm hr]
      · simp [running, hl.stack, Frame.passOf?, Ne.symm hr]
      · rw [typeOf?_eq_core, typeOf?_eq_core, hc]

/-- To subscribe gives no type to a reference without one. -/
theorem unmoved_subscribe (s : SystemId) (hx : e.references[i]? = some x)
    (hn : x.state.type? = none) (r : ReferenceId) : Unmoved r e (e.subscribe i s) := by
  refine ⟨rfl, List.suffix_refl _, ?_⟩
  rw [typeOf?_eq_core, core?_setState hx _ rfl]
  by_cases hr : r = i
  · rw [if_pos hr, hr, typeOf?_eq hx, hn]
    rfl
  · rw [if_neg hr, typeOf?_eq_core]

theorem unmoved_addReference {s : SystemId} {selector : Selector ν} (hk : e.knowsSelector selector)
    (r : ReferenceId) : Unmoved r e (e.call (.addReference s selector)) := by
  rw [addReference_eq hk]
  refine .trans (.trans ?_ (unmoved_subscribe s (enlisted_new hk) rfl r)) ((plain_attempt _ _).calm.unmoved r)
  refine ⟨rfl, ?_, ?_⟩
  · simp [running, Frame.passOf?]
  · rw [typeOf?_eq_core, core?_enlisted hk rfl]
    split
    · rename_i hr
      rw [hr, typeOf?_of_missing (List.getElem?_eq_none (Nat.le_refl _))]
      rfl
    · rw [typeOf?_eq_core]

theorem unmoved_deconstruct (i r : ReferenceId) : Unmoved r e (e.deconstruct i) := by
  rcases deconstruct_cases e i with heq | ⟨x, hst⟩
  · rw [heq]
    exact ⟨rfl, List.suffix_refl _, rfl⟩
  · obtain ⟨text, htrace⟩ := hst.trace
    refine ⟨passes_eq_of_plain htrace (by simp [Report.isPlain]) r, ?_, ?_⟩
    · rw [running, hst.stack]
      exact List.suffix_refl _
    · rw [typeOf?_eq_core, core?_stopped hst.found hst.references]
      split
      · rename_i hr
        rw [hr, typeOf?_eq hst.found]
        exact ReferenceState.frozen_type? _
      · rw [typeOf?_eq_core]

end Moved

/-! ## Steps and runs -/

/-- What a step means for a reference: it is unmoved, or it takes a type when it has none, or it loses
the type it has. -/
inductive Turn (r : ReferenceId) (e e' : Engine ν) : Prop
  | unmoved : Unmoved r e e' → Turn r e e'
  | takes {t : Ty} :
    Begins r (.resolved t) e e' → e.typeOf? r = none → e'.typeOf? r = some t → Turn r e e'
  | loses {t : Ty} :
    Begins r (.invalidated (some t)) e e' → e.typeOf? r = some t → e'.typeOf? r = none → Turn r e e'

/-- Only what the reference shows of the state counts. -/
theorem Begins.of_eq {r : ReferenceId} {event : ReferenceEvent} {e e₁ e' : Engine ν}
    (h : Begins r event e₁ e') (hp : e₁.passes r = e.passes r) (hr : e₁.running r = e.running r) :
    Begins r event e e' :=
  ⟨hp ▸ h.passes, hr ▸ h.running, h.top⟩

theorem step_turn {e e' : Engine ν} {m : Move ν} (hl : Lively e) (h : Step e m e') (r : ReferenceId) :
    Turn r e e' := by
  cases h with
  | calm hu hc => exact .unmoved ((hu.unmoved r).trans (hc.unmoved r))
  | enrol ha _ =>
    obtain ⟨reports, ht, hp⟩ := ha.trace
    refine .unmoved ⟨passes_eq_of_plain ht hp r, ?_, ?_⟩
    · rw [running, ha.stack]
      exact List.suffix_refl _
    · rw [typeOf?, ha.references]
      rfl
  | skip hs hk hp => exact .unmoved ((unmoved_turn hs (hk.passOf? r)).trans (hp.unmoved r))
  | attempt hs hk =>
    exact .unmoved ((unmoved_turn hs (hk.passOf? r)).trans ((plain_attempt _ _).calm.unmoved r))
  | @lose t key queue rest i hs =>
    have turned : Unmoved r e (e.withStack (.graphPass (.removedType t key) queue :: rest)) :=
      unmoved_turn hs rfl
    rcases invalidate_passes (e.withStack (.graphPass (.removedType t key) queue :: rest)) i t r
      with h | ⟨hb, h0, h1⟩
    · exact .unmoved (turned.trans h)
    · exact .loses (hb.of_eq rfl (running_turn hs rfl)) h0 h1
  | @restart rest i hs =>
    rcases startResolving_cases (e.withStack rest) i with ⟨heq, -⟩ | ⟨x, hx, hd, heq⟩
    · rw [heq]
      exact .unmoved (unmoved_pop hs r)
    · have hr : e.restarts i ≠ 0 := by simp [restarts, hs, Frame.isRestartOf]
      have hn : x.state.type? = none := by
        rw [(hl.of_restart hx hd hr).1]
        rfl
      rw [heq]
      exact .unmoved (((unmoved_pop hs r).trans (unmoved_subscribe x.system hx hn r)).trans
        ((plain_attempt _ _).calm.unmoved r))
  | @resolve f rest i t hs hp _ =>
    rcases resolve_passes (e.withStack rest) i t r with h | ⟨hb, h0, h1⟩
    · exact .unmoved ((unmoved_pop hs r).trans h)
    · refine .takes (hb.of_eq rfl ?_) h0 h1
      simp [running, hs, Frame.passOf?_of_purpose hp]
  | addReference _ _ hk => exact .unmoved (unmoved_addReference hk r)
  | deconstruct _ =>
    exact .unmoved ((unmoved_deconstruct _ r).trans ((Calm.finish (p := none) _).unmoved r))

theorem Turn.alternating {r : ReferenceId} {e e' : Engine ν} (h : Turn r e e')
    (ha : Alternating (e.passes r) (e.typeOf? r)) : Alternating (e'.passes r) (e'.typeOf? r) := by
  cases h with
  | unmoved h =>
    rw [h.passes, h.type]
    exact ha
  | takes hb h0 h1 =>
    rw [hb.passes, h1]
    exact .taken (h0 ▸ ha)
  | loses hb h0 h1 =>
    rw [hb.passes, h1]
    exact .lost (h0 ▸ ha)

/-- In every run the passes of a reference alternate and lead to the type it has. Whatever happens next,
either it begins no pass and keeps its type, or it had no type and begins to tell of the one it has then,
or it had a type and begins to tell that this one is lost. -/
theorem passes_alternate {e : Engine ν} (h : e.Reachable) (r : ReferenceId) :
    Alternating (e.passes r) (e.typeOf? r) ∧
      ∀ (m : Move ν) (e' : Engine ν), e.move? m = some e' → Turn r e e' := by
  refine ⟨?_, fun m e' hm => step_turn h.lively (move?_step hm) r⟩
  obtain ⟨moves, hr⟩ := h
  have keeps : ∀ {e e' : Engine ν} {m : Move ν},
      Lively e ∧ Alternating (e.passes r) (e.typeOf? r) → e.move? m = some e' →
      Lively e' ∧ Alternating (e'.passes r) (e'.typeOf? r) := fun h hm =>
    ⟨step_lively h.1 (move?_step hm), (step_turn h.1 (move?_step hm) r).alternating h.2⟩
  exact (run?_keeps keeps ⟨lively_new, .start⟩ hr).2

/-- The theorem at a reference whose type was removed: it told of both, and its next step is not yet
made. -/
theorem passes_alternate_after_removal : ∃ e : Engine Node, e.Reachable ∧
    e.passes 0 = [.resolved ⟨1, "a", "a"⟩, .invalidated (some ⟨1, "a", "a"⟩)] ∧
      Alternating [.resolved ⟨1, "a", "a"⟩, .invalidated (some ⟨1, "a", "a"⟩)] none := by
  have reached : Reachable (ν := Node) _ :=
    ⟨[.call (.addSystem {} .plain .graph), .call (.addType ⟨1, "a", "a"⟩ "a"), .work, .work, .work,
      .call (.addReference 0 (.identifier "a")), .work, .work, .work,
      .call (.removeType ⟨1, "a", "a"⟩), .work, .work, .work, .work], rfl⟩
  exact ⟨_, reached, rfl, (passes_alternate reached 0).1⟩

end Engine
end LiveTypes
