import LiveTypes.Proofs.Alternation
import LiveTypes.Proofs.Ownership
import LiveTypes.Proofs.Sources

/-!
# Deconstruction is for good

A reference may be deconstructed at any moment at which the host has its turn: in a callback of its own, in
a rule that runs for it, or in a pass that still has to call it. Whatever was under way for it then comes
to nothing. The argument is short because a deconstructed reference has no subscriptions: neither a
selection nor a removal nor a new start finds what it needs to change it, so its core never changes again,
and a reference whose type does not change begins no pass.
-/
namespace LiveTypes.Engine

variable {ν : Type} {e e' : Engine ν} {r i : ReferenceId} {x : Reference ν} {m : Move ν}

/-! ## It stays as it is -/

/-- A change of the state of a reference that is not deconstructed does not concern one that is. -/
theorem core?_setState_of_live {y : Reference ν} {state : ReferenceState} (hy : e.references[i]? = some y)
    (hlive : y.deconstructed = false) (hx : e.core? r = some x) (hd : x.deconstructed)
    (he' : e'.references = e.references.modify i fun z => { z with state }) : e'.core? r = some x := by
  have hne : r ≠ i := by
    rintro rfl
    rw [core?_eq hy] at hx
    cases hx
    exact Bool.false_ne_true (hlive.symm.trans hd)
  rw [core?_setState hy state he', if_neg hne, hx]

theorem resolve_keeps (hl : Lively e) (hx : e.core? r = some x) (hd : x.deconstructed) (t : Ty) :
    (e.resolve i t).core? r = some x := by
  rcases resolve_cases e i t with ⟨heq, -⟩ | ⟨y, subs, ht⟩
  · rwa [heq]
  · have hlive := (hl.of_subscribed ht.found (by rw [ht.waiting]; rfl)).1
    exact core?_setState_of_live ht.found hlive hx hd ht.references

theorem invalidate_keeps (hl : Lively e) (hx : e.core? r = some x) (hd : x.deconstructed) (t : Ty) :
    (e.invalidate i t).core? r = some x := by
  rcases invalidate_cases e i t with ⟨heq, -⟩ | ⟨y, watch, hlost⟩
  · rwa [heq]
  · have hlive := (hl.of_subscribed hlost.found (by rw [hlost.watching]; rfl)).1
    exact core?_setState_of_live hlost.found hlive hx hd hlost.references

theorem startResolving_keeps (hx : e.core? r = some x) (hd : x.deconstructed) :
    (e.startResolving i).core? r = some x := by
  rcases startResolving_cases e i with ⟨heq, -⟩ | ⟨y, hy, hlive, heq⟩
  · rwa [heq]
  · rw [heq, (plain_attempt _ _).calm.core?]
    exact core?_setState_of_live hy hlive hx hd rfl

theorem addReference_keeps (hx : e.core? r = some x) (hd : x.deconstructed) {s : SystemId}
    {selector : Selector ν} (hk : e.knowsSelector selector) :
    (e.call (.addReference s selector)).core? r = some x := by
  have hne : r ≠ e.references.length := by
    rintro rfl
    rw [core?_eq_none.2 (Nat.le_refl _)] at hx
    cases hx
  rw [addReference_eq hk, (plain_attempt _ _).calm.core?]
  refine core?_setState_of_live (enlisted_new hk) rfl ?_ hd rfl
  rw [core?_enlisted hk rfl, if_neg hne, hx]

theorem deconstruct_keeps (hx : e.core? r = some x) (hd : x.deconstructed) :
    (e.deconstruct i).core? r = some x := by
  rcases deconstruct_cases e i with heq | ⟨y, hst⟩
  · rwa [heq]
  · have hne : r ≠ i := by
      rintro rfl
      rw [core?_eq hst.found] at hx
      cases hx
      exact Bool.false_ne_true (hst.live.symm.trans hd)
    rw [core?_stopped hst.found hst.references, if_neg hne, hx]

/-- No step changes a deconstructed reference. -/
theorem step_core_of_deconstructed (hl : Lively e) (hstep : Step e m e') (hx : e.core? r = some x)
    (hd : x.deconstructed) : e'.core? r = some x := by
  cases hstep with
  | calm hu hc => rw [hc.core?, hu.core?, hx]
  | enrol ha _ =>
    rw [core?, ha.references]
    exact hx
  | skip _ _ hc =>
    rw [hc.core?]
    exact hx
  | attempt =>
    rw [(plain_attempt _ _).calm.core?]
    exact hx
  | lose hs => exact invalidate_keeps (hl.turn hs fun _ => ⟨rfl, rfl⟩) hx hd _
  | restart => exact startResolving_keeps (e := e.withStack _) hx hd
  | resolve hs hp _ => exact resolve_keeps (hl.pop hs (Frame.isRestartOf_of_purpose hp)) hx hd _
  | addReference _ _ hk => exact addReference_keeps hx hd hk
  | deconstruct => exact deconstruct_keeps hx hd

/-- So it begins no pass. -/
theorem step_unmoved_of_deconstructed (hl : Lively e) (hstep : Step e m e') (hx : e.core? r = some x)
    (hd : x.deconstructed) : Unmoved r e e' := by
  have htype : e'.typeOf? r = e.typeOf? r := by
    rw [typeOf?_eq_core, typeOf?_eq_core, step_core_of_deconstructed hl hstep hx hd, hx]
  cases step_turn hl hstep r with
  | unmoved h => exact h
  | takes _ h0 h1 => simp [htype, h0] at h1
  | loses _ h0 h1 => simp [htype, h0] at h1

/-! ## Nobody has to tell it -/

/-- Nobody has to tell a reference twice, or one that is deconstructed. -/
def Tidy (e : Engine ν) : Prop :=
  ∀ (i : ReferenceId) (y : Tie ν), e.tie? i = some y →
    y.dependents.Nodup ∧ ∀ d ∈ y.dependents, ∀ z, e.tie? d = some z → z.deconstructed = false

theorem Tidy.congr (h : Tidy e) (he : ∀ r, e'.tie? r = e.tie? r) : Tidy e' := by
  intro i y hy
  rw [he] at hy
  refine ⟨(h i y hy).1, fun d hd z hz => ?_⟩
  rw [he] at hz
  exact (h i y hy).2 d hd z hz

theorem Tidy.enlist {selector : Selector ν} (h : Tidy e) (ht : Tied e)
    (htie : TiesEnlisted e e' selector) : Tidy e' := by
  have hmissing : e.tie? e.references.length = none := by simp [tie?]
  have live : ∀ {d z}, (∀ w, e.tie? d = some w → w.deconstructed = false) → e'.tie? d = some z →
      z.deconstructed = false := by
    intro d z hw hz
    rw [htie] at hz
    split at hz
    · cases hz
      rfl
    · obtain ⟨w, hwd, rfl⟩ := Option.map_eq_some_iff.1 hz
      simpa [apply_ite Tie.deconstructed] using hw w hwd
  intro i y hy
  rw [htie] at hy
  split at hy
  · cases hy
    exact ⟨List.nodup_nil, by simp⟩
  · obtain ⟨y₀, hy₀, rfl⟩ := Option.map_eq_some_iff.1 hy
    obtain ⟨hnodup, hlive⟩ := h i y₀ hy₀
    split
    · have hnew : e.references.length ∉ y₀.dependents := fun hd => by
        obtain ⟨w, hw, -⟩ := ht.readers i _ y₀ hy₀ hd
        rw [hmissing] at hw
        cases hw
      refine ⟨by simpa [Tie.gain] using hnodup.concat hnew, fun d hd z hz => ?_⟩
      rcases List.mem_append.1 hd with hd | hd
      · exact live (hlive d hd) hz
      · rw [List.mem_singleton.1 hd] at hz
        exact live (by simp [hmissing]) hz
    · exact ⟨hnodup, fun d hd z hz => live (hlive d hd) hz⟩

/-- A reference that stops is struck off by the only one that had to tell it. -/
theorem Tidy.stop (h : Tidy e) (ht : Tied e) (hx : e.references[r]? = some x)
    (htie : TiesStopped e e' r x.selector) : Tidy e' := by
  intro i y hy
  rw [htie] at hy
  split at hy
  · cases hy
    exact ⟨List.nodup_nil, by simp⟩
  · obtain ⟨y₀, hy₀, rfl⟩ := Option.map_eq_some_iff.1 hy
    obtain ⟨hnodup, hlive⟩ := h i y₀ hy₀
    have rest : ∀ d ∈ y₀.dependents, d ≠ r → ∀ z, e'.tie? d = some z → z.deconstructed = false := by
      intro d hd hne z hz
      rw [htie, if_neg hne] at hz
      obtain ⟨w, hw, rfl⟩ := Option.map_eq_some_iff.1 hz
      simpa [apply_ite Tie.deconstructed] using hlive d hd w hw
    split
    · refine ⟨hnodup.erase r, fun d hd => ?_⟩
      obtain ⟨hne, hd⟩ := hnodup.mem_erase_iff.1 hd
      exact rest d hd hne
    · rename_i hsource
      refine ⟨hnodup, fun d hd => rest d hd ?_⟩
      rintro rfl
      obtain ⟨w, hw, hs⟩ := ht.readers i d y₀ hy₀ hd
      rw [tie?_eq hx] at hw
      cases hw
      exact hsource hs

theorem step_tidy (ht : Tied e) (h : Tidy e) (hstep : Step e m e') : Tidy e' := by
  cases step_tieStep hstep with
  | same htie => exact h.congr htie
  | enlist _ htie => exact h.enlist ht htie
  | stop hx htie => exact h.stop ht hx htie

theorem Reachable.tidy (h : e.Reachable) : Tidy e := by
  obtain ⟨moves, hr⟩ := h
  have keeps : ∀ {e e' : Engine ν} {m : Move ν}, Tied e ∧ Tidy e → e.move? m = some e' →
      Tied e' ∧ Tidy e' := fun h hm =>
    ⟨step_tied h.1 (move?_step hm), step_tidy h.1 h.2 (move?_step hm)⟩
  exact (run?_keeps keeps ⟨tied_new, by simp [Tidy, tie?]⟩ hr).2

/-! ## Runs -/

/-- After the call the reference is deconstructed, and it has not moved. -/
theorem deconstructed_of_move? (hm : e.move? (.call (.deconstruct r)) = some e') :
    (∃ x, e'.core? r = some x ∧ x.deconstructed) ∧ Unmoved r e e' := by
  simp only [move?] at hm
  split at hm
  · rename_i hk
    cases hm
    refine ⟨?_, (unmoved_deconstruct r r).trans ((Calm.finish (p := none) _).unmoved r)⟩
    have hlt : r < e.references.length := by simpa [knows] using (Bool.and_eq_true_iff.1 hk).2
    obtain ⟨x, hx⟩ : ∃ x, e.references[r]? = some x := ⟨_, List.getElem?_eq_getElem hlt⟩
    change ∃ x, (e.deconstruct r).core? r = some x ∧ x.deconstructed
    cases hd : x.deconstructed with
    | false =>
      have hst := deconstruct_live hx hd
      rw [core?_stopped hx hst.references, if_pos rfl]
      exact ⟨_, rfl, rfl⟩
    | true =>
      have heq : e.deconstruct r = e := deconstruct_eq_self (by simp [hx, hd])
      rw [heq]
      exact ⟨x.core, core?_eq hx, hd⟩
  · cases hm

/-- In every continuation a deconstructed reference stays as it is and begins no pass. -/
theorem run?_unmoved {moves : List (Move ν)} (hl : Lively e) (hx : e.core? r = some x)
    (hd : x.deconstructed) (hr : e.run? moves = some e') : e'.core? r = some x ∧ Unmoved r e e' := by
  have keeps : ∀ {e₁ e₂ : Engine ν} {m : Move ν},
      Lively e₁ ∧ e₁.core? r = some x ∧ Unmoved r e e₁ → e₁.move? m = some e₂ →
      Lively e₂ ∧ e₂.core? r = some x ∧ Unmoved r e e₂ := by
    rintro e₁ e₂ m ⟨hl, hx, hu⟩ hm
    have hstep := move?_step hm
    exact ⟨step_lively hl hstep, step_core_of_deconstructed hl hstep hx hd,
      hu.trans (step_unmoved_of_deconstructed hl hstep hx hd)⟩
  exact (run?_keeps keeps ⟨hl, hx, rfl, List.suffix_refl _, rfl⟩ hr).2

/-- A deconstructed reference listens to nothing. -/
theorem Reachable.silent (h : e.Reachable) (hx : e.core? r = some x) (hd : x.deconstructed) :
    e.listeners.held (.reference r) = [] ∧
      ∀ (s : SystemId) (y : System ν), e.systems[s]? = some y → y.listeners.held (.reference r) = [] := by
  have hsub := h.lively.of_deconstructed hx hd
  have hnone : x.state.graphEntries r = [] ∧ x.state.ruleEntries r = [] := by
    rcases hst : x.state with (_ | subs) | ⟨t, _ | watch⟩ <;> rw [hst] at hsub
    · exact ⟨rfl, rfl⟩
    · cases hsub
    · exact ⟨rfl, rfl⟩
    · cases hsub
  refine ⟨?_, fun s y hy => ?_⟩
  · have := h.owned.held r
    rw [hx] at this
    exact (hnone.1 ▸ this : e.listeners.Due False (.reference r) []).held_nil
  · have := h.owned.heldRules s y r hy
    rw [hx] at this
    simp only [Reference.ruleEntries, Option.elim, hnone.2, ite_self] at this
    exact this.held_nil

/-- Nobody has to tell a deconstructed reference anything. -/
theorem Reachable.untold (h : e.Reachable) (hx : e.core? r = some x) (hd : x.deconstructed)
    {y : Reference ν} (hy : e.references[i]? = some y) : r ∉ y.dependents := by
  intro hr
  obtain ⟨z, hz, rfl⟩ := Option.map_eq_some_iff.1 hx
  have hlive : z.deconstructed = false := (h.tidy i y.tie (tie?_eq hy)).2 r hr z.tie (tie?_eq hz)
  exact Bool.false_ne_true (hlive.symm.trans hd)

/-- At whatever moment of a run a reference is deconstructed, from then on its type stays, it begins no
pass, and of its passes those that run at that moment are all that run later. It has no subscription to
the graph or to the rules of any system, nobody has it among those to tell, and to deconstruct it again
changes nothing. -/
theorem deconstruction_is_permanent {e₁ e₂ : Engine ν} (moves : List (Move ν)) (he : e.Reachable)
    (hd : e.move? (.call (.deconstruct r)) = some e₁) (hr : e₁.run? moves = some e₂) :
    e₂.typeOf? r = e.typeOf? r ∧ e₂.passes r = e.passes r ∧ e₂.running r <:+ e.running r ∧
      e₂.listeners.held (.reference r) = [] ∧
      (∀ (s : SystemId) (y : System ν), e₂.systems[s]? = some y → y.listeners.held (.reference r) = []) ∧
      (∀ (i : ReferenceId) (y : Reference ν), e₂.references[i]? = some y → r ∉ y.dependents) ∧
      e₂.deconstruct r = e₂ := by
  have he₁ : e₁.Reachable := he.move hd
  have he₂ : e₂.Reachable := he₁.run hr
  obtain ⟨⟨x, hx, hdx⟩, hcall⟩ := deconstructed_of_move? hd
  obtain ⟨hx₂, hrun⟩ := run?_unmoved he₁.lively hx hdx hr
  have hu := hcall.trans hrun
  obtain ⟨hg, hs⟩ := he₂.silent hx₂ hdx
  refine ⟨hu.type, hu.passes, hu.running, hg, hs, fun i y hy => he₂.untold hx₂ hdx hy, ?_⟩
  refine deconstruct_eq_self fun y hy => ?_
  rw [core?_eq hy] at hx₂
  cases hx₂
  exact hdx

/-- The theorem at a reference that is deconstructed while it tells that its type is lost. The type comes
back under its key, and the reference does not take it. -/
theorem deconstructed_while_telling : ∃ e e₁ e₂ : Engine Node, e.Reachable ∧
    e.move? (.call (.deconstruct 0)) = some e₁ ∧
      e₁.run? [.answer .done, .work, .work, .work, .work,
        .call (.addType ⟨1, "a", "a"⟩ "a"), .work, .work, .work] = some e₂ ∧
      e.running 0 = [.invalidated (some ⟨1, "a", "a"⟩)] ∧ e₂.atRest ∧
      e₂.graph.get? "a" = some ⟨1, "a", "a"⟩ ∧ e₂.typeOf? 0 = e.typeOf? 0 ∧ e.typeOf? 0 = none ∧
      e₂.passes 0 = e.passes 0 ∧
      e.passes 0 = [.resolved ⟨1, "a", "a"⟩, .invalidated (some ⟨1, "a", "a"⟩)] := by
  have reached : Reachable (ν := Node) _ :=
    ⟨[.call (.addSystem {} .plain .graph), .call (.addType ⟨1, "a", "a"⟩ "a"), .work, .work, .work,
      .call (.addReference 0 (.identifier "a")), .work, .work, .work,
      .call (.listenToReference 0 ⟨0⟩ false), .work,
      .call (.removeType ⟨1, "a", "a"⟩), .work, .work, .work, .work, .work], rfl⟩
  have h := deconstruction_is_permanent (r := 0) [.answer .done, .work, .work, .work, .work,
    .call (.addType ⟨1, "a", "a"⟩ "a"), .work, .work, .work] reached rfl rfl
  exact ⟨_, _, _, reached, rfl, rfl, rfl, rfl, rfl, h.1, rfl, h.2.1, rfl⟩

end LiveTypes.Engine
