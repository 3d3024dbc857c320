import LiveTypes.Proofs.Arrivals
import LiveTypes.Proofs.Selections

/-!
# References that try too early

When a type or a rule is added, every reference that waits is made to try once. One that fails is made to
try again only if it reads another reference directly, and that one takes a type. A deferred selector may
lead to a reference, too, but who has such a selector does not hear of that. If it comes before the other
one in the pass, it has tried too early, and it stays without a type that its selector would give. There is
no other way to miss a type: `Engine.Adding` says so of every moment of an addition.
-/
namespace LiveTypes

variable {ν : Type}

/-! ## Additions -/

/-- Whether a call adds something that a reference may find. -/
def Engine.adds (e : Engine ν) : Call ν → Prop
  | .addType t key => ∃ graph, e.graph.addType t key = .added graph
  | .addRule _ _ _ _ => True
  | _ => False

/-- Whether a call makes the references of a system try. -/
def Call.rouses : Call ν → SystemId → Prop
  | .addType _ _, _ => True
  | .addRule s _ _ _, i => i = s
  | _, _ => False

/-- The moves while the host does nothing but answer. -/
inductive Oracle.Replies (o : Oracle ν) (e : Engine ν) : Move ν → Prop
  | work : Replies o e .work
  | answer {f : Frame ν} {rest : List (Frame ν)} {a : Answer ν} :
    e.stack = f :: rest → o.Answers f a → Replies o e (.answer a)
  | forget {x : Observer} : Replies o e (.forget x)

/-! ## What a trial finds -/

namespace Oracle

/-- The type that a selector gives, after its deferred hops. -/
def tries? (o : Oracle ν) (e : Engine ν) (s : SystemId) (selector : Selector ν) : Option Ty :=
  (o.expansion? (e.limitOf s + 1) selector).bind (o.find? e s)

variable {o : Oracle ν} {e e' : Engine ν} {s : SystemId} {selector : Selector ν}

theorem select_toOption :
    (o.select e s false (e.limitOf s + 1) selector).toOption = o.tries? e s selector := by
  simp only [select, leaf?_trial, tries?]
  cases o.expansion? (e.limitOf s + 1) selector with
  | none => rfl
  | some leaf =>
    cases leaf with
    | type t => rfl
    | identifier key => cases h : e.graph.get? key <;> simp [take, Host.find?, h, Except.toOption]
    | initializer i => rfl
    | reference r => cases h : e.typeOf? r <;> simp [take, Host.find?, h, Except.toOption]
    | deferred d => rfl
    | node n =>
      have hinfer := inferBy_toOption (o.outcome · n) [] (e.rulesOf s)
      simp only [Option.bind_some, take, Host.find?, Host.inferFrom]
      refine Eq.trans ?_ hinfer
      cases inferBy (o.outcome · n) [] (e.rulesOf s) <;> rfl

/-- With the same keys and rules, a selector gives the same unless its deferred hops end at a reference
that has changed. -/
theorem tries?_congr (hst : Engine.Still e e') (hlimit : e'.limitOf s = e.limitOf s)
    (ht : ∀ r, o.expansion? (e.limitOf s + 1) selector = some (.reference r) →
      e'.typeOf? r = e.typeOf? r) : o.tries? e' s selector = o.tries? e s selector := by
  unfold tries?
  rw [hlimit]
  cases hexp : o.expansion? (e.limitOf s + 1) selector with
  | none => rfl
  | some leaf =>
    refine hst.find? o.toHost fun source hs => ht source ?_
    cases leaf <;> simp_all [Selector.source?]

end Oracle

namespace Engine

/-! ## One step of an addition -/

/-- A move that changes nothing that a selection looks at. -/
structure Uneventful (e e' : Engine ν) : Prop extends Still e e' where
  core : ∀ r, e'.core? r = e.core? r
  limits : ∀ s, e'.limitOf s = e.limitOf s
  trace : ∃ reports, e'.trace = e.trace ++ reports

namespace Uneventful

variable {e e' : Engine ν} {p : Option Purpose} {rest : List (Frame ν)}

theorem of_eq (hg : e'.graph = e.graph) (hs : e'.systems = e.systems) (hr : e'.references = e.references)
    (ht : ∃ reports, e'.trace = e.trace ++ reports) : Uneventful e e' where
  toStill := .of_eq hg hs
  core := by simp [core?, hr]
  limits := by simp [limitOf, hs]
  trace := ht

theorem of_plain (h : Plain p (e.withStack rest) e') : Uneventful e e' := by
  obtain ⟨reports, ht, -⟩ := h.trace
  exact .of_eq h.graph h.systems h.references ⟨reports, ht⟩

theorem withStack (e : Engine ν) (frames : List (Frame ν)) : Uneventful e (e.withStack frames) :=
  .of_eq rfl rfl rfl ⟨[], by simp⟩

theorem trans {e'' : Engine ν} (h : Uneventful e e') (h' : Uneventful e' e'') : Uneventful e e'' where
  toStill := h.toStill.trans h'.toStill
  core r := (h'.core r).trans (h.core r)
  limits s := (h'.limits s).trans (h.limits s)
  trace := by
    obtain ⟨reports, ht⟩ := h.trace
    obtain ⟨reports', ht'⟩ := h'.trace
    exact ⟨reports ++ reports', by rw [ht', ht, List.append_assoc]⟩

theorem tries? {o : Oracle ν} (h : Uneventful e e') (s : SystemId) (selector : Selector ν) :
    o.tries? e' s selector = o.tries? e s selector :=
  Oracle.tries?_congr h.toStill (h.limits s) fun r _ => typeOf?_of_core h.core r

end Uneventful

/-- What the host's answers and the engine's own steps make of the frame `f` while things are added. -/
inductive Tries (o : Oracle ν) (e : Engine ν) (f : Frame ν) (rest : List (Frame ν)) : Engine ν → Prop
  | work {e' : Engine ν} : (∀ r, f.purpose? ≠ some (.resolution r)) → Work o.toHost e f rest e' →
    Tries o e f rest e'
  | advance {r : ReferenceId} {e' : Engine ν} : f.purpose? = some (.resolution r) →
    Advances o (.resolution r) e f rest e' → Tries o e f rest e'

section Replies

variable {o : Oracle ν} {e e' : Engine ν} {m : Move ν} {f : Frame ν} {rest : List (Frame ν)}

/-- Frames that may be there while no type leaves are only worked on. -/
theorem Handles.work_of_grows {h : Host ν} (hh : Handles h e f rest e') (hf : f.grows) :
    Work h e f rest e' := by
  cases hh with
  | work hw => exact hw
  | _ => cases hf

theorem question?_answers {a : Answer ν} (hs : e.stack = f :: rest) (ha : o.Answers f a) (q : Question ν)
    (hq : e.question? = some q) : o.toHost.Answers q a :=
  ha.1 q (by simpa [question?, hs] using hq)

theorem Handles.tries (hh : Handles o.toHost e f rest e') (hf : f.grows)
    (hadv : ∀ r, f.purpose? = some (.resolution r) → Advances o (.resolution r) e f rest e') :
    Tries o e f rest e' := by
  by_cases hp : ∃ r, f.purpose? = some (.resolution r)
  · obtain ⟨r, hp⟩ := hp
    exact .advance hp (hadv r hp)
  · exact .work (fun r h => hp ⟨r, h⟩) (hh.work_of_grows hf)

/-- What a move can do while things are added and the host does nothing but answer. -/
theorem reply_cases (hg : ∀ f ∈ e.stack, f.grows) (hr : o.Replies e m) (hm : e.move? m = some e') :
    (∃ f rest, e.stack = f :: rest ∧ Tries o e f rest e') ∨ ∃ x, e' = e.forget x := by
  cases hr with
  | work =>
    have ht : e.tick = some e' := hm
    obtain ⟨f, rest, hs, hh⟩ := tick_handles (h := o.toHost) ht
    exact .inl ⟨f, rest, hs, hh.tries (hg f (by simp [hs])) fun r hp => tick_advances hs hp ht⟩
  | @answer f rest a hs hans =>
    have ha : e.answer a = some e' := hm
    obtain ⟨g, rest', hs', hh⟩ := answer_handles (question?_answers hs hans) ha
    cases hs.symm.trans hs'
    exact .inl ⟨f, rest, hs, hh.tries (hg f (by simp [hs])) fun r hp => answer_advances hs hp hans ha⟩
  | @forget x =>
    cases hm
    exact .inr ⟨x, rfl⟩

end Replies

/-! ## What holds during an addition -/

/-- A reference that could have a type and has none. -/
structure Lacking (e : Engine ν) (d : ReferenceId) (x : Reference ν) : Prop where
  found : e.core? d = some x
  live : x.deconstructed = false
  untyped : x.state.type? = none

/-- A reference tried and found nothing. If its selector gives a type now, its deferred hops end at a
reference that has taken the type after that. -/
def GaveUp (o : Oracle ν) (e₀ e : Engine ν) (d : ReferenceId) (x : Reference ν) : Prop :=
  ∃ before text after, e.trace = e₀.trace ++ before ++ .log (.stillUnresolved d text) :: after ∧
    ∀ t, o.tries? e x.system x.selector = some t → ∃ r text',
      o.expansion? (e.limitOf x.system + 1) x.selector = some (.reference r) ∧ e₀.typeOf? r = none ∧
      .log (.resolved r text' t) ∈ after

/-- What holds while the host waits for an addition: no type leaves, only the next thing to be done can be
a search, and every reference concerned that has no type is yet to try, or is trying, or has given up. -/
structure Adding (o : Oracle ν) (rouses : SystemId → Prop) (e₀ e : Engine ν) : Prop where
  grows : ∀ f ∈ e.stack, f.grows
  below : ∀ f ∈ e.stack.tail, ∀ r, f.purpose? ≠ some (.resolution r)
  kept : ∀ r t, e₀.typeOf? r = some t → e.typeOf? r = some t
  trace : ∃ reports, e.trace = e₀.trace ++ reports
  tried : ∀ (d : ReferenceId) (x : Reference ν), Lacking e d x → rouses x.system →
    e.summoned d ∨
    (∃ f rest, e.stack = f :: rest ∧ f.purpose? = some (.resolution d) ∧
      (o.verdict e f).toOption = o.tries? e x.system x.selector) ∨
    GaveUp o e₀ e d x

section Keeping

variable {o : Oracle ν} {rouses : SystemId → Prop} {e₀ e e' : Engine ν} {f f' : Frame ν}
  {rest : List (Frame ν)} {d : ReferenceId} {x : Reference ν}

theorem Uneventful.lacking (hu : Uneventful e e') (h : Lacking e' d x) : Lacking e d x :=
  ⟨(hu.core d).symm.trans h.found, h.live, h.untyped⟩

theorem GaveUp.uneventful (h : GaveUp o e₀ e d x) (hu : Uneventful e e') : GaveUp o e₀ e' d x := by
  obtain ⟨before, text, after, ht, hwhy⟩ := h
  obtain ⟨reports, htrace⟩ := hu.trace
  refine ⟨before, text, after ++ reports, by simp [htrace, ht], ?_⟩
  intro t hfound
  rw [hu.tries?] at hfound
  obtain ⟨r, text', hexp, hr, hlog⟩ := hwhy t hfound
  exact ⟨r, text', by rw [hu.limits, hexp], hr, List.mem_append_left _ hlog⟩

theorem Adding.trace_of (h : Adding o rouses e₀ e) (ht : ∃ reports, e'.trace = e.trace ++ reports) :
    ∃ reports, e'.trace = e₀.trace ++ reports := by
  obtain ⟨old, hold⟩ := h.trace
  obtain ⟨new, hnew⟩ := ht
  exact ⟨old ++ new, by rw [hnew, hold, List.append_assoc]⟩

/-- Only the top frame is worked on, so what is below stays. -/
theorem Adding.grows_of (h : Adding o rouses e₀ e) (hs : e.stack = f :: rest) (frames : List (Frame ν))
    (hs' : e'.stack = frames ++ rest) (hfr : ∀ g ∈ frames, g.grows) : ∀ g ∈ e'.stack, g.grows := by
  intro g hg
  rw [hs'] at hg
  rcases List.mem_append.1 hg with hg | hg
  · exact hfr g hg
  · exact h.grows g (hs ▸ List.mem_cons_of_mem _ hg)

/-- Who has no type waits for one. -/
theorem Adding.pending (h : Adding o rouses e₀ e) (hv : Lively e) (hl : Lacking e d x) : x.isPending := by
  refine hv.pending hl.found hl.live ?_ hl.untyped
  rw [restarts_eq_zero]
  exact fun g hg => Frame.isRestartOf_of_grows (h.grows g hg) d

/-- Work on the top frame that moves no reference, if those who wait are still called. -/
theorem Adding.unmoved (frames : List (Frame ν)) (h : Adding o rouses e₀ e) (hs : e.stack = f :: rest)
    (hf : ∀ r, f.purpose? ≠ some (.resolution r)) (hs' : e'.stack = frames ++ rest)
    (hfr : ∀ g ∈ frames, g.grows ∧ ∀ r, g.purpose? ≠ some (.resolution r)) (hu : Uneventful e e')
    (hsum : ∀ d x, Lacking e d x → f.summons d → frames.any (·.summons d)) : Adding o rouses e₀ e' where
  grows := h.grows_of hs frames hs' fun g hg => (hfr g hg).1
  below := by
    intro g hg r
    have hg := List.mem_of_mem_tail hg
    rw [hs'] at hg
    rcases List.mem_append.1 hg with hg | hg
    · exact (hfr g hg).2 r
    · exact h.below g (by simpa [hs] using hg) r
  kept := by
    intro r t ht
    rw [typeOf?_of_core hu.core]
    exact h.kept r t ht
  trace := h.trace_of hu.trace
  tried := by
    intro d x hl hro
    rcases h.tried d x (hu.lacking hl) hro with hsm | ⟨g, rest', hg, hp, -⟩ | hgave
    · left
      simp only [summoned, hs, List.any_cons, Bool.or_eq_true] at hsm
      simp only [summoned, hs', List.any_append, Bool.or_eq_true]
      exact hsm.imp (hsum d x (hu.lacking hl)) id
    · rw [hs] at hg
      cases hg
      exact absurd hp (hf d)
    · exact .inr (.inr (hgave.uneventful hu))

/-- The next turn of a pass makes a reference try. -/
theorem Adding.attempt {r : ReferenceId} (h : Adding o rouses e₀ e) (hv : Lively e)
    (hs : e.stack = f :: rest) (hcl : f.Calls f' r) :
    Adding o rouses e₀ ((e.withStack (f' :: rest)).attempt r) := by
  by_cases hp : ∃ y, e.core? r = some y ∧ y.isPending
  · obtain ⟨y, hy, hp⟩ := hp
    have hy' : (e.withStack (f' :: rest)).core? r = some y := hy
    rw [attempt_eq hy' hp]
    have hu := Uneventful.withStack e
      (.selecting ⟨y.system, .resolution r, e.limitOf y.system + 1, []⟩ y.selector :: f' :: rest)
    refine ⟨?_, ?_, h.kept, h.trace, ?_⟩
    · refine h.grows_of hs [_, f'] rfl ?_
      intro g hg
      rcases List.mem_cons.1 hg with rfl | hg
      · rfl
      · rw [List.mem_singleton.1 hg]
        exact hcl.grows
    · intro g hg i
      rcases List.mem_cons.1 hg with rfl | hg
      · simp [hcl.purpose?.2]
      · exact h.below g (by simpa [hs] using hg) i
    · intro d x hl hro
      by_cases hd : d = r
      · subst hd
        cases hy.symm.trans hl.found
        exact .inr (.inl ⟨_, _, rfl, rfl, Oracle.select_toOption⟩)
      · rcases h.tried d x (hu.lacking hl) hro with hsm | ⟨g, rest', hg, hgp, -⟩ | hgave
        · left
          simp only [summoned, hs, List.any_cons, Bool.or_eq_true] at hsm
          simp only [summoned, List.any_cons, Bool.or_eq_true, hcl.summons hd]
          exact .inr hsm
        · rw [hs] at hg
          cases hg
          simp [hcl.purpose?.1] at hgp
        · exact .inr (.inr (hgave.uneventful hu))
  · have hno : ∀ y, e.core? r = some y → y.isPending = false := by
      intro y hy
      by_contra hne
      exact hp ⟨y, hy, by simpa using hne⟩
    rw [attempt_eq_self (e := e.withStack (f' :: rest)) hno]
    refine h.unmoved [f'] hs (by simp [hcl.purpose?.1]) rfl (by simp [hcl.grows, hcl.purpose?.2])
      (.withStack e _) fun d x hl hsm => ?_
    have hd : d ≠ r := by
      rintro rfl
      have := h.pending hv hl
      rw [hno x hl.found] at this
      cases this
    simpa [hcl.summons hd] using hsm

theorem Adding.work (h : Adding o rouses e₀ e) (hv : Lively e) (hs : e.stack = f :: rest)
    (hf : ∀ r, f.purpose? ≠ some (.resolution r)) (hw : Work o.toHost e f rest e') :
    Adding o rouses e₀ e' := by
  have grown : f.grows := h.grows f (by simp [hs])
  cases hw with
  | pop ho =>
    refine h.unmoved [] hs hf rfl (by simp) (.withStack e rest) fun d x hl hsm => ?_
    simp [Frame.summons_of_isSpent (Frame.isSpent_of_isOver ho)] at hsm
  | aside hpl _ _ hplain =>
    obtain ⟨frames, hs', hfr⟩ := hplain.stack
    refine h.unmoved frames hs hf hs' (fun g hg => ⟨?_, fun r hr => ?_⟩) (.of_plain hplain) fun d x hl hsm => ?_
    · exact Frame.grows_of_isPlain (hfr g hg).plain
    · cases (hfr g hg).purpose r hr
    · simp [Frame.summons_of_isSpent (Frame.isSpent_of_isPlain hpl)] at hsm
  | @pass f' hsk =>
    refine h.unmoved [f'] hs hf rfl ?_ (.withStack e _) fun d x hl hsm => ?_
    · simp [hsk.grows, grown, hsk.purpose?.2]
    · simpa [hsk.summons d] using hsm
  | @tell f' l notice hsk =>
    refine h.unmoved [.telling l notice, f'] hs hf (push_stack _ _) ?_ ?_ fun d x hl hsm => ?_
    · intro g hg
      rcases List.mem_cons.1 hg with rfl | hg
      · exact ⟨rfl, by simp [Frame.purpose?]⟩
      · rw [List.mem_singleton.1 hg]
        exact ⟨hsk.grows.trans grown, by simp [hsk.purpose?.2]⟩
    · exact .of_eq (push_graph _ _) (push_systems _ _) (push_references _ _)
        ⟨[.ask (.tell l notice)], rfl⟩
    · simp [hsk.summons d, hsm]
  | attempt hcl => exact h.attempt hv hs hcl
  | evaluate hp => exact absurd hp (hf _)

/-! ### Searches -/

/-- What is not for the reference that searches is as it was before. -/
theorem Adding.others {r : ReferenceId} (h : Adding o rouses e₀ e) (hs : e.stack = f :: rest)
    (hp : f.purpose? = some (.resolution r)) (hl : Lacking e d x) (hro : rouses x.system) (hd : d ≠ r) :
    rest.any (·.summons d) ∨ GaveUp o e₀ e d x := by
  rcases h.tried d x hl hro with hsm | ⟨g, rest', hg, hgp, -⟩ | hgave
  · exact .inl (summoned_rest hs (Frame.isSpent_of_purpose hp) hsm)
  · rw [hs] at hg
    cases hg
    rw [hp] at hgp
    cases hgp
    exact absurd rfl hd
  · exact .inr hgave

/-- A search goes on. -/
theorem Adding.onward {r : ReferenceId} (h : Adding o rouses e₀ e) (hs : e.stack = f :: rest)
    (hp : f.purpose? = some (.resolution r)) (hs' : e'.stack = f' :: rest)
    (hp' : f'.purpose? = some (.resolution r)) (hu : Uneventful e e')
    (hv : o.verdict e' f' = o.verdict e f) : Adding o rouses e₀ e' where
  grows := h.grows_of hs [f'] hs' (by simpa using Frame.grows_of_purpose hp')
  below := by simpa [hs'] using (by simpa [hs] using h.below)
  kept := by
    intro i t ht
    rw [typeOf?_of_core hu.core]
    exact h.kept i t ht
  trace := h.trace_of hu.trace
  tried := by
    intro d x hl hro
    have hl := hu.lacking hl
    by_cases hd : d = r
    · subst hd
      rcases h.tried d x hl hro with hsm | ⟨g, rest', hg, hgp, hverdict⟩ | hgave
      · have := summoned_rest hs (Frame.isSpent_of_purpose hp) hsm
        exact .inl (by simp only [summoned, hs', List.any_cons, this, Bool.or_true])
      · rw [hs] at hg
        cases hg
        exact .inr (.inl ⟨f', rest, hs', hp', by rw [hv, hu.tries?, hverdict]⟩)
      · exact .inr (.inr (hgave.uneventful hu))
    · rcases h.others hs hp hl hro hd with hsm | hgave
      · exact .inl (by simp only [summoned, hs', List.any_cons, hsm, Bool.or_true])
      · exact .inr (.inr (hgave.uneventful hu))

/-- A search is over and its reference has not changed: it has given up, if it has no type. -/
theorem Adding.over {r : ReferenceId} (h : Adding o rouses e₀ e) (hs : e.stack = f :: rest)
    (hp : f.purpose? = some (.resolution r)) (hs' : e'.stack = rest) (hu : Uneventful e e')
    (hself : ∀ x, Lacking e r x → (o.verdict e f).toOption = o.tries? e x.system x.selector →
      GaveUp o e₀ e' r x) : Adding o rouses e₀ e' where
  grows := h.grows_of hs [] hs' (by simp)
  below := by
    intro g hg
    rw [hs'] at hg
    exact h.below g (by simpa [hs] using List.mem_of_mem_tail hg)
  kept := by
    intro i t ht
    rw [typeOf?_of_core hu.core]
    exact h.kept i t ht
  trace := h.trace_of hu.trace
  tried := by
    intro d x hl hro
    have hl := hu.lacking hl
    by_cases hd : d = r
    · subst hd
      rcases h.tried d x hl hro with hsm | ⟨g, rest', hg, hgp, hverdict⟩ | hgave
      · exact .inl (by simpa [summoned, hs'] using summoned_rest hs (Frame.isSpent_of_purpose hp) hsm)
      · rw [hs] at hg
        cases hg
        exact .inr (.inr (hself x hl hverdict))
      · exact .inr (.inr (hgave.uneventful hu))
    · rcases h.others hs hp hl hro hd with hsm | hgave
      · exact .inl (by simpa [summoned, hs'] using hsm)
      · exact .inr (.inr (hgave.uneventful hu))

theorem Taken.limitOf {r : ReferenceId} {t : Ty} {subs : Subscriptions} (h : Taken e r t x subs e')
    (s : SystemId) : e'.limitOf s = e.limitOf s := by
  rw [Engine.limitOf, Engine.limitOf, h.systems, List.getElem?_modify]
  cases e.systems[s]? with
  | none => rfl
  | some y => by_cases hs : x.system = s <;> simp [hs]

/-- Who gave up may have missed the type that another reference takes now. -/
theorem GaveUp.taken {r : ReferenceId} {t : Ty} {y : Reference ν} {subs : Subscriptions}
    (h : GaveUp o e₀ e d x) (hkept : ∀ i t, e₀.typeOf? i = some t → e.typeOf? i = some t)
    (htk : Taken e r t y subs e') (hst : Still e e') : GaveUp o e₀ e' d x := by
  obtain ⟨before, text, after, ht, hwhy⟩ := h
  obtain ⟨text', htrace⟩ := htk.trace
  have hre := restated_setState htk.found htk.references
  refine ⟨before, text, after ++ [.log (.resolved r text' t)], by simp [htrace, ht], ?_⟩
  intro t' hfound
  rw [htk.limitOf]
  by_cases hexp : o.expansion? (e.limitOf x.system + 1) x.selector = some (.reference r)
  · have hnone : e₀.typeOf? r = none := by
      cases h₀ : e₀.typeOf? r with
      | none => rfl
      | some t₀ =>
        have := hkept r t₀ h₀
        rw [typeOf?_eq htk.found, htk.waiting] at this
        cases this
    have htype : e'.typeOf? r = some t := by
      rw [typeOf?_eq_core, hre.self]
      rfl
    have : t = t' := by simpa [Oracle.tries?, htk.limitOf, hexp, Host.find?, htype] using hfound
    subst this
    exact ⟨r, text', hexp, hnone, by simp⟩
  · rw [Oracle.tries?_congr hst (htk.limitOf _)] at hfound
    · obtain ⟨i, text'', hexp', hi, hlog⟩ := hwhy t' hfound
      exact ⟨i, text'', hexp', hi, List.mem_append_left _ hlog⟩
    · intro i hi
      refine hre.typeOf? ?_
      rintro rfl
      exact hexp hi

/-- A search finds a type. -/
theorem Adding.found {r : ReferenceId} {t : Ty} {y : Reference ν} {subs : Subscriptions} {e₁ : Engine ν}
    (h : Adding o rouses e₀ e) (hs : e.stack = f :: rest) (hp : f.purpose? = some (.resolution r))
    (hu : Uneventful e e₁) (hs₁ : e₁.stack = rest) (htk : Taken e₁ r t y subs e') (hst : Still e₁ e') :
    Adding o rouses e₀ e' := by
  have hre := restated_setState htk.found htk.references
  have hkept : ∀ i t, e₀.typeOf? i = some t → e₁.typeOf? i = some t := by
    intro i t ht
    rw [typeOf?_of_core hu.core]
    exact h.kept i t ht
  have hs' : e'.stack = [.referencePass r (.resolved t)
      (y.listeners.map .observer ++ y.dependents.map .dependent)] ++ rest := by
    rw [htk.stack, hs₁]
    rfl
  obtain ⟨text, htrace⟩ := htk.trace
  obtain ⟨reports, hreports⟩ := hu.trace
  refine ⟨h.grows_of hs _ hs' (by simp [Frame.grows]), ?_, ?_, ?_, ?_⟩
  · intro g hg
    rw [hs'] at hg
    exact h.below g (by simpa [hs] using hg)
  · intro i t' ht'
    have hi : i ≠ r := by
      rintro rfl
      have := hkept i t' ht'
      rw [typeOf?_eq htk.found, htk.waiting] at this
      cases this
    rw [hre.typeOf? hi]
    exact hkept i t' ht'
  · exact h.trace_of ⟨reports ++ [.log (.resolved r text t)], by rw [htrace, hreports, List.append_assoc]⟩
  · intro d x hl hro
    have hd : d ≠ r := by
      rintro rfl
      cases hre.self.symm.trans hl.found
      cases hl.untyped
    have hl₁ : Lacking e₁ d x := ⟨hre.other hd hl.found, hl.live, hl.untyped⟩
    rcases h.others hs hp (hu.lacking hl₁) hro hd with hsm | hgave
    · exact .inl (by simp only [summoned, hs', List.any_append, hsm, Bool.or_true])
    · exact .inr (.inr ((hgave.uneventful hu).taken hkept htk hst))

theorem Adding.advance {r : ReferenceId} (h : Adding o rouses e₀ e) (hv : Lively e)
    (hs : e.stack = f :: rest) (hp : f.purpose? = some (.resolution r))
    (ha : Advances o (.resolution r) e f rest e') : Adding o rouses e₀ e' := by
  cases ha with
  | onward hplain hs' hp' _ hverdict => exact h.onward hs hp hs' hp' (.of_plain hplain) hverdict
  | @nothing e₁ error hplain hs₁ hverdict =>
    have hu : Uneventful e (e₁.unselected (.resolution r) error) :=
      .trans (.of_plain hplain) (.of_eq rfl rfl rfl ⟨[_], rfl⟩)
    refine h.over hs hp hs₁ hu ?_
    intro x hl hsame
    obtain ⟨old, hold⟩ := h.trace
    obtain ⟨reports, htrace, -⟩ := hplain.trace
    have htrace : e₁.trace = e₀.trace ++ (old ++ reports) := by rw [htrace, hold, List.append_assoc]
    refine ⟨old ++ reports, _, [], by rw [← htrace]; rfl, ?_⟩
    intro t ht
    rw [hu.tries?, ← hsame, hverdict] at ht
    cases ht
  | @found e₁ t hplain hs₁ hverdict =>
    have hu : Uneventful e e₁ := .of_plain hplain
    rcases resolve_cases e₁ r t with ⟨heq, hno⟩ | ⟨y, subs, htk⟩
    · rw [selected, heq]
      refine h.over hs hp hs₁ hu ?_
      -- who has no type waits for one, and would have taken it
      intro x hl _
      have hpend := h.pending hv hl
      obtain ⟨y, hy, rfl⟩ := Option.map_eq_some_iff.1 ((hu.core r).trans hl.found)
      have hpend : y.isPending := hpend
      rw [hno y hy] at hpend
      cases hpend
    · exact h.found hs hp hu hs₁ htk (.resolve e₁ r t)

theorem Adding.forget (h : Adding o rouses e₀ e) (l : Observer) : Adding o rouses e₀ (e.forget l) := by
  unfold Engine.forget
  split
  · exact h
  · have hu : Uneventful e { e with gone := l :: e.gone } := .of_eq rfl rfl rfl ⟨[], by simp⟩
    refine ⟨h.grows, h.below, h.kept, h.trace, ?_⟩
    intro d x hl hro
    rcases h.tried d x (hu.lacking hl) hro with hsm | ⟨f, rest, hs, hp, hverdict⟩ | hgave
    · exact .inl hsm
    · refine .inr (.inl ⟨f, rest, hs, hp, ?_⟩)
      have hsame : o.verdict { e with gone := l :: e.gone } f = o.verdict e f :=
        by apply Oracle.verdict_congr <;> rfl
      rw [hu.tries?, hsame, hverdict]
    · exact .inr (.inr (hgave.uneventful hu))

/-- Every move of an addition keeps it. -/
theorem Adding.move {m : Move ν} (h : Adding o rouses e₀ e) (hv : Lively e) (hr : o.Replies e m)
    (hm : e.move? m = some e') : Adding o rouses e₀ e' := by
  rcases reply_cases h.grows hr hm with ⟨f, rest, hs, ht⟩ | ⟨l, rfl⟩
  · cases ht with
    | work hf hw => exact h.work hv hs hf hw
    | advance hp ha => exact h.advance hv hs hp ha
  · exact h.forget l

end Keeping

/-! ## The course of an addition -/

section Courses

variable {o : Oracle ν} {e₀ e₁ e : Engine ν} {c : Call ν}

/-- An addition begins with everybody to be called who has no type and is concerned. -/
theorem Adding.begin {rouses : SystemId → Prop} (hs : e₀.stack = []) (hv : Lively e₀)
    (hstack : ∀ f ∈ e₁.stack, f.grows ∧ ∀ r, f.purpose? ≠ some (.resolution r))
    (hc : ∀ r, e₁.core? r = e₀.core? r) (ht : ∃ reports, e₁.trace = e₀.trace ++ reports)
    (hsum : ∀ (d : ReferenceId) (x : Reference ν), e₀.core? d = some x → x.isPending →
      rouses x.system → e₁.summoned d) : Adding o rouses e₀ e₁ where
  grows f hf := (hstack f hf).1
  below f hf := (hstack f (List.mem_of_mem_tail hf)).2
  kept r t h := by rw [typeOf?_of_core hc, h]
  trace := ht
  tried := by
    intro d x hl hro
    have hx := (hc d).symm.trans hl.found
    exact .inl (hsum d x hx (hv.pending hx hl.live (by simp [restarts, hs]) hl.untyped) hro)

theorem adding_call (hs : e₀.stack = []) (hv : Lively e₀) (hsub : Subscribed e₀) (hadds : e₀.adds c)
    (hk : e₀.knows c) : Adding o c.rouses e₀ (e₀.call c) := by
  cases c with
  | addType t key =>
    obtain ⟨graph, hg⟩ := hadds
    have hadd := typeAdded_call hg
    obtain ⟨result, hstack⟩ := hadd.stack
    rw [hs] at hstack
    refine .begin hs hv ?_ (by simp [core?, hadd.references]) ⟨[.log (.typeAdded key)], ?_⟩ ?_
    · simp [hstack, Frame.grows, Frame.purpose?]
    · simp only [call, hg]
      rfl
    · intro d x hx hp _
      simp [summoned, hstack, Frame.summons, hsub.mem_listeners hx hp]
  | addRule s tag name boundTo =>
    have hlt : s < e₀.systems.length := by simpa [knows] using hk
    obtain ⟨y, hy⟩ : ∃ y, e₀.systems[s]? = some y := ⟨_, List.getElem?_eq_getElem hlt⟩
    obtain ⟨result, hchg⟩ := call_addRule hy tag name boundTo
    obtain ⟨y', hy', hstack⟩ := hchg.stack
    cases hy.symm.trans hy'
    have hstack : (e₀.call (.addRule s tag name boundTo)).stack = [.rulePass s (.added y.rules.nextId boundTo)
        (y.listeners.listeners e₀.hearsRules fun _ => true), .deliver result] := by
      rw [hstack, hs]
      rfl
    refine .begin hs hv ?_ hchg.core? ?_ ?_
    · simp [hstack, Frame.grows, Frame.purpose?]
    · have hcalm : Calm none e₀ (e₀.call (.addRule s tag name boundTo)) := by
        simp only [call, hy]
        refine .trans (.trans (.trans (.log _ rfl) (.updateSystem ?_)) (.push_apart rfl rfl))
          (calm_notifyRules _ _ _)
        exact fun y _ => ⟨rfl, .refl _ _⟩
      obtain ⟨reports, ht, -⟩ := hcalm.trace
      exact ⟨reports, ht⟩
    · intro d x hx hp hro
      cases hro
      simp [summoned, hstack, Frame.summons, hsub.mem_ruleListeners hx hp hy]
  | _ => cases hadds

/-- After an addition a reference concerned is without a type that its selector gives only if it tried too
early: its deferred hops end at a reference that had no type before, and took it in the same addition after
this one had tried. -/
theorem missed_only_by_early_trial (o : Oracle ν) {d : ReferenceId} {x : Reference ν}
    (h₀ : ReachableBy SparesReferences e₀) (hrest₀ : e₀.atRest) (hadds : e₀.adds c)
    (hm : e₀.move? (.call c) = some e₁) (hrun : LeadsBy o.Replies e₁ e) (hrest : e.atRest)
    (hx : e.references[d]? = some x) (hd : x.deconstructed = false) (hro : c.rouses x.system)
    (ht : e.typeOf? d = none) :
    ∃ found, Gives o.Answers e (.trySelect x.system x.selector) (.trial found) ∧
      ∀ t, found = some t → ∃ r before text between text' after,
        o.expansion? (e.limitOf x.system + 1) x.selector = some (.reference r) ∧
        e₀.typeOf? r = none ∧ e.typeOf? r = some t ∧
        e.trace = e₀.trace ++ before ++ .log (.stillUnresolved d text) :: between ++
          .log (.resolved r text' t) :: after := by
  have hs₀ : e₀.stack = [] := List.isEmpty_iff.1 hrest₀
  have hs : e.stack = [] := List.isEmpty_iff.1 hrest
  obtain ⟨hv₀, hsub⟩ := h₀.subscribed
  have hk : e₀.knows c ∧ e₀.call c = e₁ := by
    simp only [move?, Option.ite_none_right_eq_some, Bool.and_eq_true, Option.some.injEq] at hm
    exact ⟨hm.1.2, hm.2⟩
  obtain ⟨hk, rfl⟩ := hk
  have reached : (e₀.call c).Reachable := h₀.reachable.move hm
  -- both facts are kept by every reply
  have course : e.Reachable ∧ Adding o c.rouses e₀ e := by
    refine hrun.keeps (P := fun e => e.Reachable ∧ Adding o c.rouses e₀ e)
      ⟨reached, adding_call hs₀ hv₀ hsub hadds hk⟩ ?_
    rintro e e' m ⟨hr, ha⟩ hreply hm
    exact ⟨hr.move hm, ha.move hr.lively hreply hm⟩
  obtain ⟨hr, adding⟩ := course
  have hlacking : Lacking e d x.core := ⟨core?_eq hx, hd, (typeOf?_eq hx).symm.trans ht⟩
  have hgave : GaveUp o e₀ e d x.core := by
    rcases adding.tried d x.core hlacking hro with hsm | ⟨f, rest, hf, -⟩ | hgave
    · simp [summoned, hs] at hsm
    · simp [hs] at hf
    · exact hgave
  obtain ⟨before, text, after, htrace, hwhy⟩ := hgave
  have hknows := hr.tied.knows_selector hx (hr.owned.housed d x.core (core?_eq hx))
  refine ⟨_, gives_trial (by simp [hostTurn, hrest]) hknows, ?_⟩
  rw [Oracle.select_toOption]
  intro t hfound
  obtain ⟨r, text', hexp, hr₀, hlog⟩ := hwhy t hfound
  have htype : e.typeOf? r = some t := by
    have hexp : o.expansion? (e.limitOf x.system + 1) x.selector = some (.reference r) := hexp
    simpa [Oracle.tries?, hexp, Host.find?] using hfound
  obtain ⟨between, later, rfl⟩ := List.append_of_mem hlog
  exact ⟨r, before, text, between, text', later, hexp, hr₀, htype, by simpa using htrace⟩

end Courses

/-- A rule comes, and the older of two references, whose deferred selector leads to the younger, tries
before that takes the type that the rule infers. -/
theorem early_trial_before_rule : ∃ (o : Oracle Node) (e : Engine Node), e.atRest ∧ e.typeOf? 0 = none ∧
    Gives o.Answers e (.trySelect 0 (.deferred ⟨0⟩)) (.trial (some ⟨1, "a", "a"⟩)) ∧
    ∃ before text between text' after, e.trace = before ++ .log (.stillUnresolved 0 text) :: between ++
      .log (.resolved 1 text' ⟨1, "a", "a"⟩) :: after := by
  have start : ReachableBy SparesReferences ({} : Engine Node) := .new
  have reached := start
    |>.move (m := .call (.addSystem {} .plain .graph)) ⟨nofun, nofun⟩ rfl
    |>.move (m := .call (.addReference 0 (.deferred ⟨0⟩))) ⟨nofun, nofun⟩ rfl
    |>.move (m := .work) ⟨nofun, nofun⟩ rfl
    |>.move (m := .answer (.selector (.identifier "b"))) ⟨nofun, nofun⟩ rfl
    |>.move (m := .work) ⟨nofun, nofun⟩ rfl
    |>.move (m := .work) ⟨nofun, nofun⟩ rfl
    |>.move (m := .call (.addReference 0 (.node (.int 1)))) ⟨nofun, nofun⟩ rfl
    |>.move (m := .work) ⟨nofun, nofun⟩ rfl
    |>.move (m := .work) ⟨nofun, nofun⟩ rfl
    |>.move (m := .work) ⟨nofun, nofun⟩ rfl
  have missed := missed_only_by_early_trial (d := 0) (c := .addRule 0 ⟨0⟩ "r" none)
    (x := ⟨.deferred ⟨0⟩, 0, .unresolved (some _), [], [], false⟩)
    ⟨⟨fun _ _ => .inferred ⟨1, "a", "a"⟩, fun _ => ⟨2, "b", "b"⟩⟩, fun _ => ⟨2, "b", "b"⟩,
      fun _ _ => .reference 1, fun _ _ _ => {}⟩
    reached rfl trivial rfl
    (.head .work rfl <| .head .work rfl <| .head (.answer rfl (Oracle.answers_expanding.2 rfl)) rfl <|
      .head .work rfl <| .head .work rfl <| .head .work rfl <| .head .work rfl <|
      .head (.answer rfl (Oracle.answers_running.2 rfl)) rfl <|
      .head .work rfl <| .head .work rfl <| .head .work rfl .refl)
    rfl rfl rfl rfl rfl
  obtain ⟨found, given, why⟩ := missed
  cases given.unique (gives_trial rfl rfl)
  obtain ⟨r, before, text, between, text', after, hexp, -, -, htrace⟩ := why ⟨1, "a", "a"⟩ rfl
  cases hexp
  exact ⟨_, _, rfl, rfl, given, _, text, between, text', after, htrace⟩

/-- A type comes under the key of the younger of two references. The older one, whose deferred selector
leads to the younger, has tried before that took the type, and stays without one. -/
theorem deferred_reference_misses_type : ∃ (o : Oracle Node) (e₀ e₁ e : Engine Node),
    ReachableBy SparesReferences e₀ ∧ e₀.atRest ∧ e₀.move? (.call (.addType ⟨1, "a", "a"⟩ "a")) = some e₁ ∧
    LeadsBy o.Replies e₁ e ∧ e.atRest ∧
    e.references.map (·.selector) = [.deferred ⟨0⟩, .identifier "a"] ∧
    e.typeOf? 0 = none ∧ e.typeOf? 1 = some ⟨1, "a", "a"⟩ ∧
    Gives o.Answers e (.trySelect 0 (.deferred ⟨0⟩)) (.trial (some ⟨1, "a", "a"⟩)) := by
  have start : ReachableBy SparesReferences ({} : Engine Node) := .new
  have reached := start
    |>.move (m := .call (.addSystem {} .plain .graph)) ⟨nofun, nofun⟩ rfl
    |>.move (m := .call (.addReference 0 (.deferred ⟨0⟩))) ⟨nofun, nofun⟩ rfl
    |>.move (m := .work) ⟨nofun, nofun⟩ rfl
    |>.move (m := .answer (.selector (.identifier "b"))) ⟨nofun, nofun⟩ rfl
    |>.move (m := .work) ⟨nofun, nofun⟩ rfl
    |>.move (m := .work) ⟨nofun, nofun⟩ rfl
    |>.move (m := .call (.addReference 0 (.identifier "a"))) ⟨nofun, nofun⟩ rfl
    |>.move (m := .work) ⟨nofun, nofun⟩ rfl
    |>.move (m := .work) ⟨nofun, nofun⟩ rfl
  exact ⟨⟨⟨fun _ _ => .notApplicable, fun _ => ⟨1, "a", "a"⟩⟩, fun _ => ⟨1, "a", "a"⟩,
    fun _ _ => .reference 1, fun _ _ _ => {}⟩, _, _, _, reached, rfl, rfl,
    .head .work rfl <| .head .work rfl <| .head .work rfl <|
      .head (.answer rfl (Oracle.answers_expanding.2 rfl)) rfl <|
      .head .work rfl <| .head .work rfl <| .head .work rfl <| .head .work rfl <| .head .work rfl <|
      .head .work rfl .refl,
    rfl, rfl, rfl, rfl, gives_trial rfl rfl⟩

end Engine
end LiveTypes
