import LiveTypes.Proofs.ReferenceWork

/-!
# Passes that are overtaken

When a reference changes, `resolve` and `invalidate` tell those who listen one after the other. While one of
them is being told, the host may call back, and the reference may change again. The pass for the later
change runs to its end first, so the earlier pass then tells the rest of its listeners something that is no
longer so: it has been overtaken.

`Engine.PassStep` says what a move does to the passes of a reference and to the work directly on top of
them. The observers come before the references that depend on the reference. So as long as an observer is
left, the work on top of a pass is what the host does while another observer is being told, and only there
can the reference change. `Engine.Overtaken` is this, with the moves of the run in which it happens.
-/
namespace LiveTypes

variable {ν : Type}

namespace Frame

variable {f f' : Frame ν} {r : ReferenceId}

/-- A frame is a pass of the reference or has nothing to do with its listeners. -/
theorem audience?_cases (f : Frame ν) (r : ReferenceId) :
    f.audience? r = none ∨ ∃ event queue, f = .referencePass r event queue := by
  cases f with
  | referencePass i event queue =>
    by_cases hi : i = r
    · exact .inr ⟨event, queue, by rw [hi]⟩
    · exact .inl (by simp [audience?, hi])
  | _ => exact .inl rfl

theorem audience?_pass (event : ReferenceEvent) (queue : List ReferenceListener) :
    (referencePass r event queue : Frame ν).audience? r =
      some (event, queue.filterMap ReferenceListener.observer?) := by
  simp [audience?]

theorem audience?_other {i : ReferenceId} (hi : i ≠ r) (event : ReferenceEvent)
    (queue : List ReferenceListener) : (referencePass i event queue : Frame ν).audience? r = none := by
  simp [audience?, hi]

theorem audience?_of_isFresh (h : f.isFresh) : f.audience? r = none := by
  cases f <;> simp_all [isFresh, audience?]

/-- A pass that has a turn is not one of the reference, before or after, or the first listener is done with. -/
theorem turn_cases (h : f.Skips f' ∨ ∃ d, f.Calls f' d) (r : ReferenceId) :
    f.isOver = false ∧ (f.audience? r = none ∧ f'.audience? r = none ∨
      ∃ event l queue, f = .referencePass r event (l :: queue) ∧ f' = .referencePass r event queue) := by
  rcases h with hk | ⟨d, hk⟩
  · cases hk with
    | graph => exact ⟨rfl, .inl ⟨rfl, rfl⟩⟩
    | rules => exact ⟨rfl, .inl ⟨rfl, rfl⟩⟩
    | @reference i event l queue =>
      refine ⟨rfl, ?_⟩
      by_cases hi : i = r
      · exact .inr ⟨event, l, queue, by rw [hi], by rw [hi]⟩
      · exact .inl ⟨by simp [audience?, hi], by simp [audience?, hi]⟩
  · cases hk with
    | graph => exact ⟨rfl, .inl ⟨rfl, rfl⟩⟩
    | rules => exact ⟨rfl, .inl ⟨rfl, rfl⟩⟩
    | @source i t queue d =>
      refine ⟨rfl, ?_⟩
      by_cases hi : i = r
      · exact .inr ⟨.resolved t, .dependent d, queue, by rw [hi], by rw [hi]⟩
      · exact .inl ⟨by simp [audience?, hi], by simp [audience?, hi]⟩

end Frame

/-- Observers come first, then the references that depend on the one that changes. -/
def ObserversFirst (queue : List ReferenceListener) : Prop :=
  ∃ (observers : List Observer) (dependents : List ReferenceId),
    queue = observers.map .observer ++ dependents.map .dependent

theorem ObserversFirst.tail {l : ReferenceListener} {queue : List ReferenceListener}
    (h : ObserversFirst (l :: queue)) : ObserversFirst queue := by
  obtain ⟨_ | ⟨o, observers⟩, dependents, heq⟩ := h
  · cases dependents with
    | nil => cases heq
    | cons d dependents =>
      cases heq
      exact ⟨[], dependents, rfl⟩
  · cases heq
    exact ⟨observers, dependents, rfl⟩

theorem ObserversFirst.no_observer {d : ReferenceId} {queue : List ReferenceListener} {o : Observer}
    (h : ObserversFirst (.dependent d :: queue)) : .observer o ∉ queue := by
  obtain ⟨_ | ⟨o', observers⟩, dependents, heq⟩ := h
  · cases dependents with
    | nil => cases heq
    | cons d dependents =>
      cases heq
      simp
  · cases heq

/-- Where a frame stands that is not among the new ones. -/
theorem split_of_append {news base above below : List (Frame ν)} {f : Frame ν}
    (h : news ++ base = above ++ f :: below) (hf : f ∉ news) :
    ∃ above', base = above' ++ f :: below ∧ above = news ++ above' := by
  rcases List.append_eq_append_iff.1 h with ⟨above', habove, hbase⟩ | ⟨tail, hnews, htail⟩
  · exact ⟨above', hbase, habove⟩
  · cases tail with
    | nil => exact ⟨[], htail.symm, by simpa using hnews.symm⟩
    | cons g tail =>
      cases htail
      exact absurd (by simp [hnews]) hf

namespace Engine

/-- What a move can do to the passes of a reference. -/
inductive PassStep (r : ReferenceId) (e : Engine ν) (m : Move ν) (e' : Engine ν) : Prop
  /-- The work under way stays, and what the host calls comes on top of it. -/
  | covers {news : List (Frame ν)} :
    e'.stack = news ++ e.stack → (∀ f ∈ news, f.audience? r = none) →
    (news ≠ [] → e.hostTurn ∧ ∃ c, m = .call c) → PassStep r e m e'
  /-- Other work goes on. -/
  | proceeds {f : Frame ν} {rest news : List (Frame ν)} :
    e.stack = f :: rest → f.audience? r = none → (f.isOver → news = []) →
    e'.stack = news ++ rest → (∀ g ∈ news, g.audience? r = none) → PassStep r e m e'
  /-- A new pass is on top. -/
  | begins {f : Frame ν} {rest news : List (Frame ν)} {event : ReferenceEvent}
      {queue : List ReferenceListener} :
    e.stack = f :: rest → f.audience? r = none → f.isOver = false → ObserversFirst queue →
    e'.stack = .referencePass r event queue :: (news ++ rest) → (∀ g ∈ news, g.audience? r = none) →
    PassStep r e m e'
  /-- The pass on top has a turn. -/
  | turns {event : ReferenceEvent} {l : ReferenceListener} {queue : List ReferenceListener}
      {rest news : List (Frame ν)} :
    e.stack = .referencePass r event (l :: queue) :: rest →
    (∀ o, l = .observer o → news = [.telling o (.reference r event)]) →
    e'.stack = news ++ .referencePass r event queue :: rest → (∀ g ∈ news, g.audience? r = none) →
    PassStep r e m e'
  | ends {event : ReferenceEvent} {rest : List (Frame ν)} :
    e.stack = .referencePass r event [] :: rest → e'.stack = rest → PassStep r e m e'

section Inversion

variable {e e' : Engine ν} {m : Move ν} {f f' : Frame ν} {rest news : List (Frame ν)} {r : ReferenceId}
  {p : Option Purpose}

theorem Plain.onTop (h : Plain p e e') (r : ReferenceId) :
    ∃ news, e'.stack = news ++ e.stack ∧ ∀ f ∈ news, f.audience? r = none := by
  obtain ⟨news, hs, hnews⟩ := h.stack
  exact ⟨news, hs, fun f hm => Frame.audience?_of_isFresh (hnews f hm).freshFor.fresh⟩

theorem Calm.onTop (h : Calm p e e') (r : ReferenceId) :
    ∃ news, e'.stack = news ++ e.stack ∧ ∀ f ∈ news, f.audience? r = none := by
  obtain ⟨news, hs, hnews⟩ := h.stack
  exact ⟨news, hs, fun f hm => Frame.audience?_of_isFresh (hnews f hm).fresh⟩

/-- Calm work in place of a frame that is no pass of the reference. -/
theorem PassStep.calm (hs : e.stack = f :: rest) (hf : f.audience? r = none) (ho : f.isOver = false)
    (hf' : f'.audience? r = none) (hc : Calm p (e.withStack (f' :: rest)) e') : PassStep r e m e' := by
  obtain ⟨news, hs', hnews⟩ := hc.onTop r
  refine .proceeds hs hf (by simp [ho]) (hs'.trans (List.append_assoc news [f'] rest).symm) ?_
  simpa [or_imp, forall_and, hf'] using hnews

theorem PassStep.instead (hs : e.stack = f :: rest) (hf : f.audience? r = none) (ho : f.isOver = false)
    (hc : Calm p (e.withStack rest) e') : PassStep r e m e' := by
  obtain ⟨news, hs', hnews⟩ := hc.onTop r
  exact .proceeds hs hf (by simp [ho]) hs' hnews

/-- A pass has a turn, and the work that comes of it is on top. -/
theorem PassStep.turn (hs : e.stack = f :: rest) (hturn : f.Skips f' ∨ ∃ d, f.Calls f' d)
    (hs' : e'.stack = news ++ f' :: rest) (hnews : ∀ g ∈ news, g.audience? r = none)
    (htold : ∀ o event queue, f = .referencePass r event (.observer o :: queue) →
      news = [.telling o (.reference r event)]) : PassStep r e m e' := by
  obtain ⟨hopen, ⟨hf, hf'⟩ | ⟨event, l, queue, rfl, rfl⟩⟩ := Frame.turn_cases hturn r
  · refine .proceeds hs hf (by simp [hopen]) (hs'.trans (List.append_assoc news [f'] rest).symm) ?_
    simpa [or_imp, forall_and, hf'] using hnews
  · refine .turns hs ?_ hs' hnews
    rintro o rfl
    exact htold o event queue rfl

theorem resolve_passStep {i : ReferenceId} {t : Ty} (hs : e.stack = f :: rest)
    (hp : f.purpose? = some (.resolution i)) : PassStep r e m ((e.withStack rest).resolve i t) := by
  have hf : f.audience? r = none := audience?_of_purpose hp
  have ho : f.isOver = false := by cases f <;> simp_all [Frame.purpose?, Frame.isOver]
  rcases resolve_cases (e.withStack rest) i t with ⟨heq, -⟩ | ⟨x, subs, htaken⟩
  · rw [heq]
    exact .instead hs hf ho (.refl none _)
  · by_cases hi : i = r
    · subst hi
      exact .begins hs hf ho ⟨x.listeners, x.dependents, rfl⟩ (htaken.stack.trans (by rfl)) (List.forall_mem_nil _)
    · refine .proceeds hs hf (by simp [ho]) (htaken.stack.trans List.singleton_append.symm) ?_
      simp [Frame.audience?_other hi]

theorem invalidate_passStep {i : ReferenceId} {t : Ty} (hs : e.stack = f :: rest) (hf : f.audience? r = none)
    (ho : f.isOver = false) (hf' : f'.audience? r = none) :
    PassStep r e m ((e.withStack (f' :: rest)).invalidate i t) := by
  rcases invalidate_cases (e.withStack (f' :: rest)) i t with ⟨heq, -⟩ | ⟨x, watch, hlost⟩
  · rw [heq]
    exact .calm hs hf ho hf' (.refl none _)
  · by_cases hi : i = r
    · subst hi
      refine .begins hs hf ho ⟨x.listeners, [], by simp⟩
        (hlost.stack.trans (congrArg _ (List.append_assoc [_] [f'] rest).symm)) ?_
      exact List.forall_mem_cons.2 ⟨rfl, List.forall_mem_singleton.2 hf'⟩
    · refine .proceeds hs hf (by simp [ho])
        (hlost.stack.trans (List.append_assoc [_, _] [f'] rest).symm) ?_
      exact List.forall_mem_cons.2 ⟨Frame.audience?_other hi _ _, List.forall_mem_cons.2
        ⟨rfl, List.forall_mem_singleton.2 hf'⟩⟩

theorem Work.passStep {h : Host ν} (hw : Work h e f rest e') (hs : e.stack = f :: rest) :
    PassStep r e m e' := by
  cases hw with
  | pop ho =>
    rcases f.audience?_cases r with hf | ⟨event, queue, rfl⟩
    · exact .proceeds hs hf (fun _ => rfl) rfl (by simp)
    · have hqueue : queue = [] := by simpa [Frame.isOver] using ho
      subst hqueue
      exact .ends hs rfl
  | aside hf ho _ hp =>
    have ha : f.audience? r = none := by cases f <;> simp_all [Frame.isPlain, Frame.audience?]
    exact .instead hs ha ho hp.calm
  | pass hsk ht =>
    refine .turn hs (.inl hsk) (List.nil_append _).symm (by simp) ?_
    rintro o event queue rfl
    cases ht
  | tell hsk ht =>
    refine .turn hs (.inl hsk) ((push_stack _ _).trans List.singleton_append.symm)
      (List.forall_mem_singleton.2 rfl) ?_
    rintro o event queue rfl
    cases ht
    rfl
  | attempt hcl =>
    obtain ⟨news, hs', hnews⟩ := (plain_attempt _ _).onTop r
    refine .turn hs (.inr ⟨_, hcl⟩) hs' hnews ?_
    rintro o event queue rfl
    cases hcl
  | evaluate hp hev =>
    have hf : f.audience? r = none := audience?_of_purpose hp
    have ho : f.isOver = false := by cases f <;> simp_all [Frame.purpose?, Frame.isOver]
    cases hev with
    | onward hplain => exact .instead hs hf ho hplain.calm
    | nothing _ hs₁ =>
      obtain ⟨news, hs', hnews⟩ := (plain_unselected _ _ _).onTop r
      exact .proceeds hs hf (by simp [ho]) (hs'.trans (congrArg _ hs₁)) hnews
    | found => exact resolve_passStep hs hp

theorem Handles.passStep {h : Host ν} (hh : Handles h e f rest e') (hs : e.stack = f :: rest) :
    PassStep r e m e' := by
  cases hh with
  | work hw => exact hw.passStep hs
  | lose => exact invalidate_passStep hs rfl rfl rfl
  | drop =>
    exact .proceeds hs rfl (absurd · Bool.false_ne_true) (List.append_assoc [_] [_] _).symm
      (by simp [Frame.audience?])
  | @restart i rest =>
    rcases startResolving_cases (e.withStack rest) i with ⟨heq, -⟩ | ⟨x, hx, hd, heq⟩
    · rw [heq]
      exact .instead hs rfl rfl (.refl none _)
    · obtain ⟨news, hs', hnews⟩ := (plain_attempt ((e.withStack rest).subscribe i x.system) i).onTop r
      rw [heq]
      exact .proceeds hs rfl (absurd · Bool.false_ne_true) hs' hnews
  | removeEdge => exact .calm hs rfl rfl (by rfl) (calm_removeEdge (p := none) _ _)
  | removeNode => exact .instead hs rfl rfl (calm_removeNode (p := none) _ _ _)
  | removeRule => exact .calm hs rfl rfl (by rfl) (calm_removeRule (p := none) _ _ _)

/-- What the host does besides answering. -/
theorem Covers.passStep {c : Call ν} (h : Covers e m e') (hm : m = .call c) : PassStep r e m e' := by
  cases h with
  | calm ht hc =>
    obtain ⟨news, hs, hnews⟩ := hc.onTop r
    exact .covers hs hnews fun _ => ⟨ht, c, hm⟩
  | enrol ha => exact .covers (ha.stack.trans (List.nil_append _).symm) (by simp) nofun
  | addReference ht _ hk =>
    rw [addReference_eq hk]
    obtain ⟨news, hs, hnews⟩ := (plain_attempt _ _).onTop r
    refine .covers (hs.trans (List.append_assoc news [_] e.stack).symm) ?_ fun _ => ⟨ht, c, hm⟩
    simpa [or_imp, forall_and, Frame.audience?] using hnews
  | @deconstruct i ht =>
    have hs : ((e.deconstruct i).finish .done).stack = e.stack := by
      rcases deconstruct_cases e i with heq | ⟨x, hst⟩
      · rw [heq]
        rfl
      · exact hst.stack
    exact .covers (hs.trans (List.nil_append _).symm) (by simp) nofun

theorem move?_passStep (hm : e.move? m = some e') (r : ReferenceId) : PassStep r e m e' := by
  cases m with
  | call c => exact (move?_covers hm nofun nofun).passStep rfl
  | answer a =>
    obtain ⟨f, rest, hs, hh⟩ := answer_handles (answering_answers hm) hm
    exact hh.passStep hs
  | work =>
    obtain ⟨f, rest, hs, hh⟩ := tick_handles (h := Host.answering .done) hm
    exact hh.passStep hs
  | forget o =>
    cases hm
    have hs : (e.forget o).stack = e.stack := by
      unfold forget
      split <;> rfl
    exact .covers (hs.trans (List.nil_append _).symm) (by simp) nofun
  | retire s =>
    cases hm
    have hs : (e.retire s).stack = e.stack := by
      unfold retire
      split <;> rfl
    exact .covers (hs.trans (List.nil_append _).symm) (by simp) nofun

end Inversion

/-! ## Being overtaken -/

/-- In the run of these moves to this state, the pass of the reference with this event, on top of the work
`below`, has been overtaken while the observer was yet to be told. -/
inductive Overtaken (o : Observer) (r : ReferenceId) (event : ReferenceEvent) (below : List (Frame ν)) :
    List (Move ν) → Engine ν → Prop
  /-- The pass is telling another observer, the host does something meanwhile, and the reference changes. -/
  | changes {moves : List (Move ν)} {e e' : Engine ν} {m : Move ν} {f : Frame ν} {above : List (Frame ν)}
      {o' : Observer} {queue : List ReferenceListener} {later : ReferenceEvent} :
    run? {} moves = some e →
    e.stack = f :: above ++ .telling o' (.reference r event) :: .referencePass r event queue :: below →
    .observer o ∈ queue → e.move? m = some e' → e'.history r = e.history r ++ [.change later] →
    Overtaken o r event below (moves ++ [m]) e'
  /-- The pass is not over yet. -/
  | goesOn {moves : List (Move ν)} {e e' : Engine ν} {m : Move ν} :
    Overtaken o r event below moves e → e.stack ≠ below → e.move? m = some e' →
    Overtaken o r event below (moves ++ [m]) e'

/-- The work on top of a pass: none, or what is done while an observer is being told. -/
def Attended (r : ReferenceId) (event : ReferenceEvent) (above : List (Frame ν)) : Prop :=
  above = [] ∨ ∃ top o, above = top ++ [.telling o (.reference r event)]

/-- Every pass of the reference that has yet to tell the observer is on top, or is telling another observer.
Its event fits the type of the reference unless the pass has been overtaken. -/
def PassesInOrder (o : Observer) (r : ReferenceId) (moves : List (Move ν)) (e : Engine ν) : Prop :=
  ∀ above event queue below, e.stack = above ++ .referencePass r event queue :: below →
    ObserversFirst queue ∧ (.observer o ∈ queue → Attended r event above ∧
      (event.type? = e.typeOf? r ∨ Overtaken o r event below moves e))

section Passes

variable {o : Observer} {r : ReferenceId} {event : ReferenceEvent} {moves : List (Move ν)} {e e' : Engine ν}
  {m : Move ν} {f : Frame ν} {above below news : List (Frame ν)} {queue : List ReferenceListener}

theorem Attended.cover (h : Attended r event above) (hne : above ≠ []) : Attended r event (news ++ above) := by
  rcases h with rfl | ⟨top, o, rfl⟩
  · exact absurd rfl hne
  · exact .inr ⟨news ++ top, o, (List.append_assoc news top _).symm⟩

/-- When the top goes on, an observer that was told there has answered. -/
theorem Attended.proceed (h : Attended r event (f :: above)) (news : List (Frame ν))
    (hf : f.isOver → news = []) : Attended r event (news ++ above) := by
  rcases h with h | ⟨_ | ⟨g, top⟩, o, heq⟩
  · cases h
  · cases heq
    exact .inl (by simp [hf rfl])
  · cases heq
    exact .inr ⟨news ++ top, o, (List.append_assoc news top _).symm⟩

/-- The host has no turn while a pass is on top. -/
theorem hostTurn_of_pass (hs : e.stack = .referencePass r event queue :: below) : e.hostTurn = false := by
  simp [hostTurn, atRest, question?, hs, Frame.question?]

theorem stack_ne_below (above : List (Frame ν)) (hs : e.stack = above ++ f :: below) : e.stack ≠ below := by
  intro h
  have := congrArg List.length (hs.symm.trans h)
  simp at this
  omega

theorem ReferenceStep.type?_of_length {side side' : ReferenceSide} (h : ReferenceStep r m side side')
    (hle : side'.audiences.length ≤ side.audiences.length) : side'.type? = side.type? := by
  cases h with
  | change => exact absurd hle (Nat.not_succ_le_self _)
  | _ => rfl

theorem ReferenceStep.change_of_length {side side' : ReferenceSide} (h : ReferenceStep r m side side')
    (hlt : side.audiences.length < side'.audiences.length) : ∃ event, side'.type? = event.type? ∧
      side'.notes = side.notes ++ [.change event] ∧
      side'.audiences = (event, side.listeners) :: side.audiences := by
  cases h with
  | change event => exact ⟨event, rfl, rfl, rfl⟩
  | told haud => simp [haud] at hlt
  | done haud =>
    simp only [haud, List.length_cons] at hlt
    omega
  | _ => simp at hlt

theorem filterMap_audience? (h : ∀ f ∈ news, f.audience? r = none) :
    news.filterMap (·.audience? r) = [] :=
  List.filterMap_eq_nil_iff.2 h

theorem not_mem_of_audience? (h : ∀ f ∈ news, f.audience? r = none) :
    .referencePass r event queue ∉ news := by
  intro hm
  have := h _ hm
  rw [Frame.audience?_pass] at this
  cases this

/-- Where a pass of the reference comes from that is under way after a move, with some work on top of it. -/
inductive PassOrigin (r : ReferenceId) (e : Engine ν) (m : Move ν) (e' : Engine ν) (event : ReferenceEvent)
    (queue : List ReferenceListener) (below : List (Frame ν)) : List (Frame ν) → Prop
  /-- It was under way, and the work on top of it is still there. -/
  | covered {above news : List (Frame ν)} :
    e.stack = above ++ .referencePass r event queue :: below → (news ≠ [] → e.hostTurn ∧ ∃ c, m = .call c) →
    e'.typeOf? r = e.typeOf? r → PassOrigin r e m e' event queue below (news ++ above)
  /-- It was under way, and the work on top of it goes on. That may be what makes the reference change. -/
  | beneath {f : Frame ν} {above news : List (Frame ν)} :
    e.stack = f :: above ++ .referencePass r event queue :: below → (f.isOver → news = []) →
    (e'.typeOf? r = e.typeOf? r ∨ f.isOver = false ∧ ∃ later, e'.history r = e.history r ++ [.change later]) →
    PassOrigin r e m e' event queue below (news ++ above)
  /-- It has just begun. -/
  | begun : ObserversFirst queue → event.type? = e'.typeOf? r → PassOrigin r e m e' event queue below []
  /-- It has had a turn. -/
  | turned {l : ReferenceListener} {news : List (Frame ν)} :
    e.stack = .referencePass r event (l :: queue) :: below →
    (∀ o, l = .observer o → news = [.telling o (.reference r event)]) → e'.typeOf? r = e.typeOf? r →
    PassOrigin r e m e' event queue below news

theorem passOrigin (hv : Lively e) (hm : e.move? m = some e')
    (hs' : e'.stack = above ++ .referencePass r event queue :: below) :
    PassOrigin r e m e' event queue below above := by
  have hstep := move?_referenceStep hv hm r
  have kept : (e'.audiences r).length ≤ (e.audiences r).length → e'.typeOf? r = e.typeOf? r :=
    hstep.type?_of_length
  cases move?_passStep hm r with
  | @covers news hcover hnews hturn =>
    obtain ⟨above₀, hs, rfl⟩ := split_of_append (hcover.symm.trans hs') (not_mem_of_audience? hnews)
    exact .covered hs hturn (kept (by simp [audiences, hcover, filterMap_audience? hnews]))
  | @proceeds f rest news hs hf hover hrest hnews =>
    obtain ⟨above₀, rfl, rfl⟩ := split_of_append (hrest.symm.trans hs') (not_mem_of_audience? hnews)
    exact .beneath hs hover (.inl (kept (by simp [audiences, hs, hrest, filterMap_audience? hnews, hf])))
  | @begins f rest news began queue₁ hs hf hopen hlisted hrest hnews =>
    have haud : e'.audiences r =
        (began, queue₁.filterMap ReferenceListener.observer?) :: e.audiences r := by
      simp [audiences, hs, hrest, filterMap_audience? hnews, hf, Frame.audience?_pass]
    obtain ⟨later, htype, hnotes, haud'⟩ := hstep.change_of_length (by simp [referenceSide, haud])
    obtain rfl : began = later := by
      have heq := haud.symm.trans haud'
      simp only [List.cons.injEq, Prod.mk.injEq] at heq
      exact heq.1.1
    rw [hrest] at hs'
    cases above with
    | nil =>
      cases hs'
      exact .begun hlisted htype.symm
    | cons g above =>
      obtain ⟨rfl, htail⟩ := List.cons.inj hs'
      obtain ⟨above₀, rfl, rfl⟩ := split_of_append htail (not_mem_of_audience? hnews)
      rw [← List.cons_append]
      exact .beneath hs (by simp [hopen]) (.inr ⟨hopen, began, hnotes⟩)
  | @turns turned l queue₁ rest news hs htold hrest hnews =>
    have same := kept (by simp [audiences, hs, hrest, filterMap_audience? hnews, Frame.audience?_pass])
    obtain ⟨above₀, hsplit, rfl⟩ := split_of_append (hrest.symm.trans hs') (not_mem_of_audience? hnews)
    cases above₀ with
    | nil =>
      cases hsplit
      rw [List.append_nil]
      exact .turned hs htold same
    | cons g above₀ =>
      obtain ⟨rfl, rfl⟩ := List.cons.inj hsplit
      rw [List.append_cons]
      exact .beneath hs (absurd · Bool.false_ne_true) (.inl same)
  | @ends turned rest hs hrest =>
    rw [hrest] at hs'
    subst hs'
    rw [← List.nil_append above]
    exact .beneath hs (fun _ => rfl) (.inl (kept (by simp [audiences, hs, hrest, Frame.audience?_pass])))

/-- Whatever a pass tells of is still so, or it has been overtaken, as long as the reference stays. -/
theorem goes_on (h : event.type? = e.typeOf? r ∨ Overtaken o r event below moves e)
    (ht : e'.typeOf? r = e.typeOf? r) (hne : e.stack ≠ below) (hm : e.move? m = some e') :
    event.type? = e'.typeOf? r ∨ Overtaken o r event below (moves ++ [m]) e' := by
  rw [ht]
  exact h.imp_right fun hover => hover.goesOn hne hm

/-- A pass is overtaken if the reference changes while work goes on that is more than an answer. -/
theorem Attended.overtaken {later : ReferenceEvent} (h : Attended r event (f :: above))
    (hopen : f.isOver = false) (hrun : run? {} moves = some e)
    (hs : e.stack = f :: above ++ .referencePass r event queue :: below) (ho : .observer o ∈ queue)
    (hm : e.move? m = some e') (hnotes : e'.history r = e.history r ++ [.change later]) :
    Overtaken o r event below (moves ++ [m]) e' := by
  rcases h with h | ⟨_ | ⟨g, top⟩, o', heq⟩
  · cases h
  · cases heq
    cases hopen
  · cases heq
    have hstack : e.stack = f :: top ++ .telling o' (.reference r event) ::
        .referencePass r event queue :: below := by simpa using hs
    exact .changes hrun hstack ho hm hnotes

theorem PassesInOrder.move (h : PassesInOrder o r moves e) (hrun : run? {} moves = some e) (hv : Lively e)
    (hm : e.move? m = some e') : PassesInOrder o r (moves ++ [m]) e' := by
  intro above event queue below hs'
  cases passOrigin hv hm hs' with
  | @covered above news hs hturn same =>
    obtain ⟨listed, hin⟩ := h above event queue below hs
    refine ⟨listed, fun ho => ⟨?_, goes_on (hin ho).2 same (stack_ne_below above hs) hm⟩⟩
    by_cases hnew : news = []
    · rw [hnew]
      exact (hin ho).1
    · refine (hin ho).1.cover ?_
      rintro rfl
      exact absurd (hturn hnew).1 (by simp [hostTurn_of_pass hs])
  | @beneath f above news hs hover hwhy =>
    obtain ⟨listed, hin⟩ := h (f :: above) event queue below hs
    refine ⟨listed, fun ho => ⟨(hin ho).1.proceed news hover, ?_⟩⟩
    rcases hwhy with same | ⟨hopen, later, hnotes⟩
    · exact goes_on (hin ho).2 same (stack_ne_below (f :: above) hs) hm
    · exact .inr ((hin ho).1.overtaken hopen hrun hs ho hm hnotes)
  | begun hlisted hfits => exact ⟨hlisted, fun _ => ⟨.inl rfl, .inl hfits⟩⟩
  | @turned l _ hs htold same =>
    obtain ⟨listed, hin⟩ := h [] event (l :: queue) below hs
    refine ⟨listed.tail, fun ho => ⟨?_, ?_⟩⟩
    · cases l with
      | observer o' => exact .inr ⟨[], o', htold o' rfl⟩
      | dependent d => exact absurd ho listed.no_observer
    · exact goes_on (hin (List.mem_cons_of_mem _ ho)).2 same (stack_ne_below [] hs) hm

/-- Only the engine's work moves a pass on. -/
theorem work_of_pass (hs : e.stack = .referencePass r event queue :: below) (hm : e.move? m = some e') :
    m = .work ∨ e'.stack = e.stack := by
  cases m with
  | work => exact .inl rfl
  | call c => simp [move?, hostTurn_of_pass hs] at hm
  | answer a => simp [move?, answer, hs] at hm
  | forget o =>
    cases hm
    unfold forget
    exact .inr (by split <;> rfl)
  | retire s =>
    cases hm
    unfold retire
    exact .inr (by split <;> rfl)

/-- It is the pass on top that tells the next observer. -/
theorem pass_of_told {o' : Observer} {observers : List Observer} {rest : List (ReferenceEvent × List Observer)}
    (hm : e.move? m = some e') (haud : e.audiences r = (event, o' :: observers) :: rest)
    (haud' : e'.audiences r = (event, observers) :: rest) :
    m = .work ∧ ∃ queue below, e.stack = .referencePass r event (.observer o' :: queue) :: below := by
  have hne : e'.audiences r ≠ e.audiences r := by simp [haud, haud']
  cases move?_passStep hm r with
  | covers hcover hnews => exact absurd (by simp [audiences, hcover, filterMap_audience? hnews]) hne
  | proceeds hs hf _ hrest hnews =>
    exact absurd (by simp [audiences, hs, hrest, filterMap_audience? hnews, hf]) hne
  | begins hs hf _ _ hrest hnews =>
    have hmore : (e'.audiences r).length = (e.audiences r).length + 1 := by
      simp [audiences, hs, hrest, filterMap_audience? hnews, hf, Frame.audience?_pass]
    simp [haud, haud'] at hmore
  | @turns turned l queue below news hs _ hrest hnews =>
    cases l with
    | dependent d =>
      refine absurd ?_ hne
      simp [audiences, hs, hrest, filterMap_audience? hnews, Frame.audience?_pass, List.filterMap_cons]
    | observer o'' =>
      have heq : turned = event ∧ o'' = o' := by
        simp only [audiences, hs, List.filterMap_cons, Frame.audience?_pass] at haud
        simp_all
      obtain ⟨rfl, rfl⟩ := heq
      refine ⟨(work_of_pass hs hm).resolve_right fun hsame => hne ?_, queue, below, hs⟩
      simp only [audiences, hsame]
  | ends hs =>
    simp [audiences, hs, Frame.audience?_pass] at haud

theorem RunBy.passesInOrder {allowed : Engine ν → Move ν → Prop} (h : RunBy allowed moves e) :
    PassesInOrder o r moves e := by
  induction h with
  | new => exact fun above event queue below hs => by simp at hs
  | move hrun _ hm ih => exact ih.move hrun.run (Reachable.lively ⟨_, hrun.run⟩) hm

/-! ## Hosts that do not call back -/

/-- Whether the host makes no call while an observer is being told of the reference. -/
def leavesInPeace (r : ReferenceId) (e : Engine ν) (m : Move ν) : Bool :=
  match e.question?, m with
  | some (.tell _ (.reference i _)), .call _ => i ≠ r
  | _, _ => true

/-- Nothing is done while an observer is being told, as long as another one waits. -/
def LeftInPeace (o : Observer) (r : ReferenceId) (e : Engine ν) : Prop :=
  ∀ above event queue below, e.stack = above ++ .referencePass r event queue :: below →
    .observer o ∈ queue → above = [] ∨ ∃ o', above = [.telling o' (.reference r event)]

theorem LeftInPeace.move (h : LeftInPeace o r e) (hin : PassesInOrder o r moves e) (hv : Lively e)
    (hp : e.leavesInPeace r m) (hm : e.move? m = some e') : LeftInPeace o r e' := by
  intro above event queue below hs' ho
  cases passOrigin hv hm hs' with
  | @covered above news hs hturn _ =>
    by_cases hnew : news = []
    · rw [hnew]
      exact h above event queue below hs ho
    · obtain ⟨hhost, c, rfl⟩ := hturn hnew
      rcases h above event queue below hs ho with rfl | ⟨o', rfl⟩
      · exact absurd hhost (by simp [hostTurn_of_pass hs])
      · simp [leavesInPeace, question?, hs, Frame.question?] at hp
  | @beneath f above news hs hover _ =>
    rcases h (f :: above) event queue below hs ho with hne | ⟨o', heq⟩
    · cases hne
    · cases heq
      exact .inl (by simp [hover rfl])
  | begun => exact .inl rfl
  | @turned l _ hs htold _ =>
    cases l with
    | observer o' => exact .inr ⟨o', htold o' rfl⟩
    | dependent d => exact absurd ho (hin [] event _ below hs).1.no_observer

theorem RunBy.leftInPeace (h : RunBy (fun e m => e.leavesInPeace r m) moves e) : LeftInPeace o r e := by
  induction h with
  | new => exact fun above event queue below hs => by simp at hs
  | move hrun ha hm ih => exact ih.move hrun.passesInOrder (Reachable.lively ⟨_, hrun.run⟩) ha hm

/-- If the host does not call back while an observer is being told of the reference, then none of its passes
is overtaken. -/
theorem Overtaken.false_of_peace {all last : List (Move ν)} {e₁ : Engine ν}
    (h : Overtaken o r event below moves e) (hall : RunBy (fun e m => e.leavesInPeace r m) all e₁)
    (hfirst : all = moves ++ last) : False := by
  induction h generalizing last with
  | @changes moves e e' m f above o' queue later hrun hs ho =>
    have hpeace := hall.of_first (hfirst.trans (List.append_assoc moves [m] last)) hrun
    have hsplit : e.stack = (f :: above ++ [.telling o' (.reference r event)]) ++
        .referencePass r event queue :: below := by simpa using hs
    rcases hpeace.leftInPeace _ event queue below hsplit ho with hne | ⟨o'', heq⟩
    · cases hne
    · have := congrArg List.length heq
      simp at this
  | @goesOn moves e e' m _ _ _ ih => exact ih (hfirst.trans (List.append_assoc moves [m] last))

end Passes

end Engine
end LiveTypes
