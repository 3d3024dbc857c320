import LiveTypes.Proofs.Hops
import LiveTypes.Proofs.Sources

/-!
# Where the type of a reference comes from

Let the host expand each deferred selector always to the same, and let each type under construction always
have the same handles. Then the type of a reference comes from its selector and from nothing else: whoever
follows the selector through deferred selectors and through the selectors of references, and comes to a type
under construction, finds the initial handle there. A selection for a reference is all the time at something
that the reference's selector expands to, and that is the invariant of a run.
-/
namespace LiveTypes

variable {ν : Type}

/-- The selector that a frame of a selection is at. -/
def Frame.selector? : Frame ν → Option (Selector ν)
  | .selecting _ selector => some selector
  | .expanding d _ => some (.deferred d)
  | .initializing i _ => some (.initializer i)
  | .inferring i => some (.node i.node)
  | .running _ i => some (.node i.node)
  | _ => none

/-- The selector of a reference, if it exists. -/
def Engine.aim? (e : Engine ν) (r : ReferenceId) : Option (Selector ν) := (e.tie? r).map Tie.selector

namespace Oracle

/-- What a selector expands to, deferred selector by deferred selector. -/
inductive Unfolds (o : Oracle ν) (selector : Selector ν) : Selector ν → Prop
  | self : Unfolds o selector selector
  | expand {d : Deferral} : Unfolds o selector (.deferred d) → Unfolds o selector (o.expand 0 d)

/-- A type comes from a selector. Of a key and of a value nothing is said: what they give may change. -/
inductive Origin (o : Oracle ν) (e : Engine ν) (t : Ty) : Selector ν → Prop
  | type : Origin o e t (.type t)
  | identifier (key : String) : Origin o e t (.identifier key)
  | initializer {i : Initializer} : o.initial i = t → Origin o e t (.initializer i)
  | reference {r : ReferenceId} {selector : Selector ν} :
    e.aim? r = some selector → Origin o e t selector → Origin o e t (.reference r)
  | deferred {d : Deferral} : Origin o e t (o.expand 0 d) → Origin o e t (.deferred d)
  | node (n : ν) : Origin o e t (.node n)

variable {o : Oracle ν} {e e' : Engine ν} {t : Ty} {selector here : Selector ν}

theorem Unfolds.trans {there : Selector ν} (h : o.Unfolds selector here) (h' : o.Unfolds here there) :
    o.Unfolds selector there := by
  induction h' with
  | self => exact h
  | expand _ ih => exact .expand ih

theorem Origin.unfolds (h : o.Origin e t here) (hu : o.Unfolds selector here) : o.Origin e t selector := by
  induction hu with
  | self => exact h
  | expand _ ih => exact ih (.deferred h)

/-- More references and other types leave the origin of a type as it is. -/
theorem Origin.mono (h : o.Origin e t selector)
    (haim : ∀ r σ, e.aim? r = some σ → e'.aim? r = some σ) : o.Origin e' t selector := by
  induction h with
  | type => exact .type
  | identifier key => exact .identifier key
  | initializer hi => exact .initializer hi
  | reference hr _ ih => exact .reference (haim _ _ hr) ih
  | deferred _ ih => exact .deferred ih
  | node n => exact .node n

end Oracle

namespace Engine

/-- A selection for a reference is at something that the reference's selector expands to. -/
def Aimed (o : Oracle ν) (e : Engine ν) (f : Frame ν) : Prop :=
  ∀ r, f.purpose? = some (.resolution r) →
    ∃ selector here, e.aim? r = some selector ∧ f.selector? = some here ∧ o.Unfolds selector here

/-- Types of references come from their selectors, and selections for references aim at such types. -/
structure Sourced (o : Oracle ν) (e : Engine ν) : Prop where
  typed : ∀ r t, e.typeOf? r = some t → ∃ selector, e.aim? r = some selector ∧ o.Origin e t selector
  aimed : ∀ f ∈ e.stack, Aimed o e f

/-- Whether a move expands selectors and gives handles as the oracle says, whatever else it is. -/
def standsBy (o : Oracle ν) (e : Engine ν) (m : Move ν) : Prop :=
  ∀ rest selection a, m = .answer a →
    (∀ d, e.stack = .expanding d selection :: rest → o.Answers (.expanding d selection) a) ∧
    (∀ i, e.stack = .initializing i selection :: rest → o.Answers (.initializing i selection) a)

section Aims

variable {e e' : Engine ν} {m : Move ν} {r : ReferenceId} {selector : Selector ν}

theorem aim?_eq {x : Reference ν} (hx : e.references[r]? = some x) : e.aim? r = some x.selector := by
  simp [aim?, tie?, hx, Reference.tie]

/-- A reference keeps its selector for good. -/
theorem aim?_of_step (h : Step e m e') (hr : e.aim? r = some selector) : e'.aim? r = some selector := by
  -- who has to be told may change, the selector does not
  have kept (g : Tie ν → Tie ν) (hg : ∀ y, (g y).selector = y.selector)
      (htie : e'.tie? r = (e.tie? r).map g) : e'.aim? r = some selector := by
    obtain ⟨y, hy, hsel⟩ := Option.map_eq_some_iff.1 hr
    simp [aim?, htie, hy, hg, hsel]
  cases step_tieStep h with
  | same htie => rwa [aim?, htie]
  | enlist _ htie =>
    have hne : r ≠ e.references.length := by
      rintro rfl
      simp [aim?, tie?] at hr
    refine kept _ (fun y => ?_) ((htie r).trans (if_neg hne))
    split <;> rfl
  | @stop i x hx htie =>
    by_cases hi : r = i
    · rw [hi, aim?_eq hx] at hr
      rw [aim?, htie, if_pos hi]
      exact hr
    · refine kept _ (fun y => ?_) ((htie r).trans (if_neg hi))
      split <;> rfl

end Aims

/-! ## Moves that are no step of a selection for a reference -/

/-- What comes about without a step of a selection for a reference: no reference gets a type, and the
selections for references are the old ones and such as begin. -/
structure Unaimed (e e' : Engine ν) : Prop where
  types : ∀ r t, e'.typeOf? r = some t → e.typeOf? r = some t
  frames : ∀ f ∈ e'.stack, ∀ r, f.purpose? = some (.resolution r) →
    f ∈ e.stack ∨ ∃ selector, e'.aim? r = some selector ∧ f.selector? = some selector

section Unaimed

variable {o : Oracle ν} {e e' e₀ : Engine ν} {m : Move ν} {r : ReferenceId}

theorem Unaimed.of_calm {p : Option Purpose} (hc : Calm p e₀ e') (hp : ∀ r, p ≠ some (.resolution r))
    (href : e₀.references = e.references)
    (hs : ∀ f ∈ e₀.stack, f ∈ e.stack ∨ ∀ r, f.purpose? ≠ some (.resolution r)) : Unaimed e e' := by
  refine ⟨fun r t ht => ?_, fun f hf r hr => ?_⟩
  · rw [hc.typeOf?] at ht
    rwa [typeOf?, ← href]
  · obtain ⟨frames, hstack, hnew⟩ := hc.stack
    rw [hstack, List.mem_append] at hf
    rcases hf with hf | hf
    · exact absurd ((hnew f hf).purpose r hr) (hp r)
    · exact (hs f hf).elim .inl fun h => absurd hr (h r)

/-- A reference that tries begins at its own selector. -/
theorem attempt_frames {f : Frame ν} (hf : f ∈ (e.attempt r).stack) :
    f ∈ e.stack ∨ ∃ selector, (e.attempt r).aim? r = some selector ∧ f.selector? = some selector ∧
      f.purpose? = some (.resolution r) := by
  by_cases hx : ∃ x, e.references[r]? = some x ∧ x.isPending
  · obtain ⟨x, hx, hp⟩ := hx
    have haim : (e.attempt r).aim? r = some x.selector := by
      rw [aim?, (plain_attempt e r).calm.tie?]
      exact aim?_eq hx
    rw [attempt_of_pending hx hp, select, push_stack, List.mem_cons] at hf
    rcases hf with rfl | hf
    · exact .inr ⟨x.selector, haim, rfl, rfl⟩
    · exact .inl hf
  · have hx : ∀ x, e.references[r]? = some x → x.isPending = false := by
      intro x h
      exact Bool.eq_false_iff.2 fun hp => hx ⟨x, h, hp⟩
    rw [attempt_of_not_pending hx] at hf
    exact .inl hf

theorem Unaimed.attempt (ht : ∀ r t, e₀.typeOf? r = some t → e.typeOf? r = some t)
    (hs : ∀ f ∈ e₀.stack, f ∈ e.stack ∨ ∀ r, f.purpose? ≠ some (.resolution r)) : Unaimed e (e₀.attempt r) := by
  refine ⟨fun i t hi => ?_, fun f hf i hi => ?_⟩
  · rw [(plain_attempt e₀ r).calm.typeOf?] at hi
    exact ht i t hi
  · rcases attempt_frames hf with hf | ⟨selector, haim, hsel, hr⟩
    · exact (hs f hf).elim .inl fun h => absurd hi (h i)
    · cases hr.symm.trans hi
      exact .inr ⟨selector, haim, hsel⟩

theorem Unaimed.startResolving (r : ReferenceId) (href : e₀.references = e.references)
    (hs : ∀ f ∈ e₀.stack, f ∈ e.stack) : Unaimed e (e₀.startResolving r) := by
  have htypes : ∀ i, e₀.typeOf? i = e.typeOf? i := fun i => by simp only [typeOf?, href]
  rcases startResolving_cases e₀ r with ⟨heq, -⟩ | ⟨x, hx, -, heq⟩
  · rw [heq]
    exact ⟨fun i t hi => htypes i ▸ hi, fun f hf _ _ => .inl (hs f hf)⟩
  · rw [heq]
    refine .attempt (fun i t hi => ?_) fun f hf => .inl (hs f hf)
    rw [typeOf?_setState hx rfl] at hi
    split at hi
    · cases hi
    · rwa [← htypes]

theorem Unaimed.invalidate (r : ReferenceId) (t : Ty) (href : e₀.references = e.references)
    (hs : ∀ f ∈ e₀.stack, f ∈ e.stack ∨ ∀ r, f.purpose? ≠ some (.resolution r)) :
    Unaimed e (e₀.invalidate r t) := by
  have htypes : ∀ i, e₀.typeOf? i = e.typeOf? i := fun i => by simp only [typeOf?, href]
  rcases invalidate_cases e₀ r t with ⟨heq, -⟩ | ⟨x, watch, hl⟩
  · rw [heq]
    refine ⟨fun i t hi => htypes i ▸ hi, fun f hf i hi => ?_⟩
    exact (hs f hf).elim .inl fun h => absurd hi (h i)
  · refine ⟨fun i u hi => ?_, fun f hf i hi => ?_⟩
    · rw [typeOf?_setState hl.found hl.references] at hi
      split at hi
      · cases hi
      · rwa [← htypes]
    · rw [hl.stack, List.mem_cons, List.mem_cons] at hf
      rcases hf with rfl | rfl | hf
      · cases hi
      · cases hi
      · exact (hs f hf).elim .inl fun h => absurd hi (h i)

theorem Unaimed.deconstruct (r : ReferenceId) : Unaimed e ((e.deconstruct r).finish .done) := by
  rcases deconstruct_cases e r with heq | ⟨x, hst⟩
  · rw [heq]
    exact ⟨fun _ _ hi => hi, fun f hf _ _ => .inl hf⟩
  · refine ⟨fun i t hi => ?_, fun f hf _ _ => .inl (hst.stack ▸ hf)⟩
    have hcore : (e.deconstruct r).typeOf? i = some t := hi
    rw [typeOf?_eq_core, core?_stopped hst.found hst.references] at hcore
    split at hcore
    · rename_i hir
      rw [hir, typeOf?_eq hst.found]
      simpa [Reference.core] using hcore
    · rwa [typeOf?_eq_core]

theorem Unaimed.addReference {s : SystemId} {selector : Selector ν} (hk : e.knowsSelector selector) :
    Unaimed e (e.call (.addReference s selector)) := by
  rw [addReference_eq hk]
  refine .attempt (fun i t hi => ?_) fun f hf => ?_
  · rw [typeOf?_setState (enlisted_new hk) rfl] at hi
    split at hi
    · cases hi
    · rename_i hne
      rwa [typeOf?_eq_core, core?_enlisted hk rfl, if_neg hne, ← typeOf?_eq_core] at hi
  · rcases List.mem_cons.1 hf with rfl | hf
    · exact .inr (by simp [Frame.purpose?])
    · exact .inl hf

theorem Covers.unaimed (h : Covers e m e') : Unaimed e e' := by
  cases h with
  | calm _ hc => exact .of_calm hc (by simp) rfl fun f hf => .inl hf
  | enrol ha _ =>
    refine ⟨fun r t ht => ?_, fun f hf _ _ => .inl (ha.stack ▸ hf)⟩
    rwa [typeOf?, ha.references] at ht
  | addReference _ _ hk => exact .addReference hk
  | deconstruct => exact .deconstruct _

/-- A frame that is no selection for a reference may be replaced by another such. -/
theorem mem_replaced {f f' : Frame ν} {rest : List (Frame ν)} (hs : e.stack = f :: rest)
    (hf' : ∀ r, f'.purpose? ≠ some (.resolution r)) :
    ∀ g ∈ (e.withStack (f' :: rest)).stack, g ∈ e.stack ∨ ∀ r, g.purpose? ≠ some (.resolution r) := by
  intro g hg
  rcases List.mem_cons.1 hg with rfl | hg
  · exact .inr hf'
  · exact .inl (hs ▸ List.mem_cons_of_mem f hg)

theorem Step.unaimed {f : Frame ν} {rest : List (Frame ν)} (h : Step e m e') (hs : e.stack = f :: rest)
    (hf : ∀ r, f.purpose? ≠ some (.resolution r)) : Unaimed e e' := by
  cases h with
  | calm hu hc =>
    cases hu with
    | call => exact .of_calm hc (by simp) rfl fun g hg => .inl hg
    | done hs' =>
      cases hs.symm.trans hs'
      exact .of_calm hc hf rfl fun g hg => .inl (hs ▸ List.mem_cons_of_mem f hg)
    | read hs' =>
      cases hs.symm.trans hs'
      exact .of_calm hc (by simp) rfl fun g hg => .inl (hs ▸ List.mem_cons_of_mem f hg)
  | enrol ha henrol => exact (Covers.enrol ha henrol).unaimed
  | skip hs' hskip hc =>
    exact .of_calm hc (by simp) rfl (mem_replaced hs' (by cases hskip <;> simp [Frame.purpose?]))
  | attempt hs' hcalls =>
    refine .attempt (fun _ _ ht => ht) (mem_replaced hs' ?_)
    cases hcalls <;> simp [Frame.purpose?]
  | lose hs' => exact .invalidate _ _ rfl (mem_replaced hs' (by simp [Frame.purpose?]))
  | restart hs' => exact .startResolving _ rfl fun g hg => hs' ▸ List.mem_cons_of_mem _ hg
  | resolve hs' hr =>
    cases hs.symm.trans hs'
    exact absurd hr (hf _)
  | addReference ht hsys hk hm => exact (Covers.addReference ht hsys hk hm).unaimed
  | deconstruct ht => exact (Covers.deconstruct (m := m) ht).unaimed

theorem Aimed.mono {f : Frame ν} (h : Aimed o e f) (haim : ∀ r σ, e.aim? r = some σ → e'.aim? r = some σ) :
    Aimed o e' f := by
  intro r hr
  obtain ⟨selector, here, hr', hsel, hunfolds⟩ := h r hr
  exact ⟨selector, here, haim r selector hr', hsel, hunfolds⟩

theorem Sourced.unaimed (h : Sourced o e) (hu : Unaimed e e')
    (haim : ∀ r σ, e.aim? r = some σ → e'.aim? r = some σ) : Sourced o e' := by
  refine ⟨fun r t ht => ?_, fun f hf r hr => ?_⟩
  · obtain ⟨selector, hr, horigin⟩ := h.typed r t (hu.types r t ht)
    exact ⟨selector, haim r selector hr, horigin.mono haim⟩
  · rcases hu.frames f hf r hr with hf | ⟨selector, hr', hsel⟩
    · exact (h.aimed f hf).mono haim r hr
    · exact ⟨selector, selector, hr', hsel, .self⟩

end Unaimed

/-! ## Steps of a selection for a reference -/

/-- What a selection for a reference makes of one step at a selector: it is at the same or at what that
expands to, or it is over, without a type or with one that comes from there. -/
inductive Nears (o : Oracle ν) (e : Engine ν) (rest : List (Frame ν)) (r : ReferenceId) (here : Selector ν) :
    Engine ν → Prop
  | onward {f : Frame ν} {there : Selector ν} {e' : Engine ν} :
    e'.references = e.references → e'.stack = f :: rest → f.purpose? = some (.resolution r) →
    f.selector? = some there → o.Unfolds here there → Nears o e rest r here e'
  | nothing {e' : Engine ν} : e'.references = e.references → e'.stack = rest → Nears o e rest r here e'
  | found {e₁ : Engine ν} {t : Ty} : e₁.references = e.references → e₁.stack = rest →
    (Sourced o e → o.Origin e t here) → Nears o e rest r here (e₁.resolve r t)

section Nearing

variable {o : Oracle ν} {e e' e₁ : Engine ν} {f : Frame ν} {rest : List (Frame ν)} {r : ReferenceId}
  {here : Selector ν} {m : Move ν}

theorem Nears.push {there : Selector ν} (hr : f.purpose? = some (.resolution r))
    (hsel : f.selector? = some there) (hu : o.Unfolds here there) :
    Nears o e rest r here ((e.withStack rest).push f) :=
  .onward (push_references _ _) (push_stack _ _) hr hsel hu

theorem Nears.conclude {outcome : Except SelectError Ty} (href : e₁.references = e.references)
    (hs : e₁.stack = rest) (horigin : ∀ t, outcome = .ok t → Sourced o e → o.Origin e t here) :
    Nears o e rest r here (e₁.conclude (.resolution r) outcome) := by
  cases outcome with
  | ok t => exact .found href hs (horigin t rfl)
  | error error =>
    exact .nothing ((plain_unselected e₁ (.resolution r) error).references.trans href)
      ((unselected_stack e₁ (.resolution r) error).trans hs)

/-- What a selector without a hop gives to a reference comes from that selector. -/
theorem Sourced.take {s : SystemId} {t : Ty} (h : Sourced o e) (ht : o.take e s false here = .ok t) :
    o.Origin e t here := by
  cases here with
  | type u =>
    cases ht
    exact .type
  | identifier key => exact .identifier key
  | initializer i =>
    cases ht
    exact .initializer rfl
  | reference source =>
    cases hsource : e.typeOf? source with
    | none => simp [Oracle.take, hsource] at ht
    | some u =>
      have hu : u = t := by simpa [Oracle.take, hsource] using ht
      obtain ⟨selector, haim, horigin⟩ := h.typed source u hsource
      exact .reference haim (hu ▸ horigin)
  | deferred d => cases ht
  | node n => exact .node n

/-- A step of the inference that a selection for a reference is at. -/
theorem Infers.nears {yields : Rule → Outcome} {s : SystemId} {n : ν} {wanted : Selection ν}
    {outcome : Except (List InferenceProblem) Ty} (hw : wanted.purpose = .resolution r)
    (hi : Infers yields e f rest s n (.selection wanted) outcome e') : Nears o e rest r (.node n) e' := by
  cases hi with
  | @onward f' _ _ _ hplain hs hf' _ _ =>
    have hr : f'.purpose? = some (.resolution r) :=
      (verdict_of_inference (o := o) (e := e) hf').1.trans (congrArg some hw)
    have hsel : f'.selector? = some (.node n) := by
      cases f' with
      | inferring i =>
        cases hf'
        rfl
      | running rule i =>
        obtain ⟨s, n, use, rules, problems⟩ := i
        cases hf'
        rfl
      | _ => cases hf'
    exact .onward hplain.references hs hr hsel .self
  | concluded hplain hs _ _ hu =>
    rw [inferred_eq_conclude hu, hw]
    exact .conclude hplain.references hs fun t _ _ => .node n

theorem tick_nears (hs : e.stack = f :: rest) (hr : f.purpose? = some (.resolution r))
    (hsel : f.selector? = some here) (ht : e.tick = some e') : Nears o e rest r here e' := by
  cases f with
  | selecting selection selector =>
    obtain ⟨s, p, left, trail⟩ := selection
    cases hr
    cases hsel
    simp only [tick, hs, Option.some.injEq] at ht
    subst ht
    cases left with
    | zero =>
      have hdeep : Nears o e rest r here (((e.withStack rest).log (.selectorTooDeep (e.limitOf s))).conclude
          (.resolution r) (.error (.tooDeep (e.limitOf s)))) :=
        .conclude rfl rfl fun _ hok => by cases hok
      exact hdeep
    | succ left =>
      have hl : Looks o (e.withStack rest) s (.resolution r) left trail here _ := selectStep_looks
      generalize (e.withStack rest).selectStep ⟨s, .resolution r, left + 1, trail⟩ here = e' at hl ⊢
      cases hl with
      | onward hhop => simp [Oracle.hop?, Purpose.must] at hhop
      | expand d => exact .push rfl rfl .self
      | construct i => exact .push rfl rfl .self
      | infer n => exact .push rfl rfl .self
      | ended => exact .conclude rfl rfl fun t ht h => h.take ht
  | inferring i =>
    obtain ⟨s, n, use, rules, problems⟩ := i
    cases use with
    | selection wanted =>
      cases hsel
      have hw : wanted.purpose = .resolution r := by simpa [Frame.purpose?, InferenceUse.purpose?] using hr
      have hi : Infers (fun _ => .notApplicable) e _ rest s n (.selection wanted) _ e' := tick_infers hs ht
      exact hi.nears hw
    | _ => cases hr
  | expanding d selection => simp [tick, hs] at ht
  | initializing i selection => simp [tick, hs] at ht
  | running rule i => simp [tick, hs] at ht
  | _ => cases hr

theorem answer_nears {a : Answer ν} (hsame : ∀ left d, o.expand left d = o.expand 0 d)
    (hstands : standsBy o e (.answer a)) (hs : e.stack = f :: rest) (hr : f.purpose? = some (.resolution r))
    (hsel : f.selector? = some here) (ha : e.answer a = some e') : Nears o e rest r here e' := by
  cases f with
  | selecting selection selector => simp [answer, hs] at ha
  | inferring i => simp [answer, hs] at ha
  | expanding d selection =>
    have hans := Oracle.answers_expanding.1 ((hstands rest selection a rfl).1 d hs)
    cases hsel
    subst hans
    simp only [answer, hs, Option.some.injEq] at ha
    subst ha
    refine .push (f := .selecting selection _) hr rfl ?_
    rw [hsame]
    exact .expand .self
  | initializing i selection =>
    have hans := Oracle.answers_initializing.1 ((hstands rest selection a rfl).2 i hs)
    have hp : selection.purpose = .resolution r := by simpa [Frame.purpose?] using hr
    cases hsel
    subst hans
    simp only [answer, hs, Option.some.injEq] at ha
    subst ha
    rw [hp]
    have hfound : Nears o e rest r (.initializer i) ((e.withStack rest).resolve r (o.initial i)) :=
      .found rfl rfl fun _ => .initializer rfl
    exact hfound
  | running rule i =>
    obtain ⟨s, n, use, rules, problems⟩ := i
    cases use with
    | selection wanted =>
      cases hsel
      have hw : wanted.purpose = .resolution r := by simpa [Frame.purpose?, InferenceUse.purpose?] using hr
      cases a with
      | outcome outcome =>
        have hi : Infers (fun _ => outcome) e _ rest s n (.selection wanted) _ e' := answer_infers hs ha
        exact hi.nears hw
      | _ => simp [answer, hs] at ha
    | _ => cases hr
  | _ => cases hr

/-- As long as the references stay, it is for the frames to be aimed. -/
theorem Sourced.of_references (h : Sourced o e) (href : e'.references = e.references)
    (hframes : ∀ g ∈ e'.stack, Aimed o e g) : Sourced o e' := by
  have haim : ∀ i σ, e.aim? i = some σ → e'.aim? i = some σ := by
    intro i σ hi
    rwa [aim?, tie?, href]
  refine ⟨fun i t hi => ?_, fun g hg => (hframes g hg).mono haim⟩
  rw [typeOf?, href] at hi
  obtain ⟨σ, hσ, horigin⟩ := h.typed i t hi
  exact ⟨σ, haim i σ hσ, horigin.mono haim⟩

/-- A reference takes a type that comes from its selector. -/
theorem Sourced.resolve {t : Ty} {selector : Selector ν} (h : Sourced o e) (hr : e.aim? r = some selector)
    (horigin : o.Origin e t selector) : Sourced o (e.resolve r t) := by
  rcases resolve_cases e r t with ⟨heq, -⟩ | ⟨x, subs, ht⟩
  · rw [heq]
    exact h
  · have haim : ∀ i σ, e.aim? i = some σ → (e.resolve r t).aim? i = some σ := by
      intro i σ hi
      rwa [aim?, tie?_setState ht.references]
    refine ⟨fun i u hi => ?_, fun g hg => ?_⟩
    · rw [typeOf?_setState ht.found ht.references] at hi
      split at hi
      · rename_i hir
        cases hi
        exact ⟨selector, haim i selector (hir ▸ hr), horigin.mono haim⟩
      · obtain ⟨σ, hσ, ho⟩ := h.typed i u hi
        exact ⟨σ, haim i σ hσ, ho.mono haim⟩
    · rw [ht.stack, List.mem_cons] at hg
      rcases hg with rfl | hg
      · exact fun i hi => nomatch hi
      · exact (h.aimed g hg).mono haim

/-- A selection for a reference that makes a step stays aimed, and the type it comes to comes from the
selector of the reference. -/
theorem Sourced.nears (h : Sourced o e) (hs : e.stack = f :: rest) (hr : f.purpose? = some (.resolution r))
    (hnears : ∀ here, f.selector? = some here → Nears o e rest r here e') : Sourced o e' := by
  obtain ⟨selector, here, haim, hsel, hunfolds⟩ := h.aimed f (hs ▸ List.mem_cons_self) r hr
  have below : ∀ g ∈ rest, Aimed o e g := fun g hg => h.aimed g (hs ▸ List.mem_cons_of_mem f hg)
  cases hnears here hsel with
  | @onward f' there _ href hstack hr' hsel' hu =>
    refine h.of_references href fun g hg => ?_
    rw [hstack, List.mem_cons] at hg
    rcases hg with rfl | hg
    · intro i hi
      cases hr'.symm.trans hi
      exact ⟨selector, there, haim, hsel', hunfolds.trans hu⟩
    · exact below g hg
  | nothing href hstack => exact h.of_references href fun g hg => below g (hstack ▸ hg)
  | found href hstack horigin =>
    have haims : ∀ i σ, e.aim? i = some σ → _ := fun i σ hi => by rwa [aim?, tie?, ← href] at hi
    have h₁ := h.of_references href fun g hg => below g (hstack ▸ hg)
    exact h₁.resolve (haims r selector haim) (((horigin h).unfolds hunfolds).mono haims)

/-- One move of a host that stands by its word. -/
theorem Sourced.move (hsame : ∀ left d, o.expand left d = o.expand 0 d) (h : Sourced o e)
    (hstands : standsBy o e m) (hm : e.move? m = some e') : Sourced o e' := by
  have hstep := move?_step hm
  have hother (hu : Unaimed e e') : Sourced o e' := h.unaimed hu fun r σ => aim?_of_step hstep
  -- what proceeds is a selection for a reference, or something else
  have htop (hp : Proceeds e e') (hnears : ∀ {f rest r here}, e.stack = f :: rest →
      f.purpose? = some (.resolution r) → f.selector? = some here → Nears o e rest r here e') : Sourced o e' := by
    obtain ⟨f, rest, hs, -⟩ := hp.eases
    by_cases hr : ∃ r, f.purpose? = some (.resolution r)
    · obtain ⟨r, hr⟩ := hr
      exact h.nears hs hr fun here hsel => hnears hs hr hsel
    · exact hother (hstep.unaimed hs fun r hr' => hr ⟨r, hr'⟩)
  cases m with
  | work => exact htop (.inl hm) fun hs hr hsel => tick_nears hs hr hsel hm
  | answer a => exact htop (.inr ⟨a, hm⟩) fun hs hr hsel => answer_nears hsame hstands hs hr hsel hm
  | _ => exact hother (move?_covers hm nofun nofun).unaimed

/-- In every run with such a host, types come from selectors. -/
theorem ReachableBy.sourced (hsame : ∀ left d, o.expand left d = o.expand 0 d)
    (h : ReachableBy (standsBy o) e) : Sourced o e := by
  refine ReachableBy.keeps ⟨?_, ?_⟩ (fun h ha hm => h.move hsame ha hm) h
  · intro r t ht
    simp [typeOf?] at ht
  · intro f hf
    cases hf

end Nearing

end Engine
end LiveTypes
