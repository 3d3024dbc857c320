import LiveTypes.Proofs.Removal
import LiveTypes.Proofs.Numbering

/-!
# References are coherent when the engine rests

In a run with a quiet host, at any moment either nothing leaves, or the edges of a type that is to leave
are being removed, or the type leaves (`Engine.Phase`). So whenever the engine rests, every reference that
is not deconstructed has the type that a selection by its selector gives, or none if it gives none.
-/
namespace LiveTypes

variable {ν : Type}

namespace Engine

/-- What is under way in a quiet run. -/
inductive Phase (h : Host ν) (sound : SystemId → Prop) (e : Engine ν) : Prop
  | growing : Tended h sound e → (∀ f ∈ e.stack, f.grows) → Phase h sound e
  /-- The edges of a type are removed before the type itself. -/
  | shedding {t : Ty} {key : String} {edges : List Edge} {result : Result ν} (above : List (Frame ν)) :
    Tended h sound e → e.stack = above ++ [.typeRemoval t key edges, .deliver result] →
    (∀ f ∈ above, f.grows) → e.graph.get? key = some t → Phase h sound e
  | removing {t : Ty} {key : String} {result : Result ν} {above : List (Frame ν)}
      {queue : List GraphListener} {cur : Option GraphListener} :
    Removing h sound e t key result above queue cur → Phase h sound e

section Calls

variable {h : Host ν} {sound : SystemId → Prop} {e e' : Engine ν}

/-- A call from rest that touches neither references nor what they find. -/
theorem Phase.called (ht : Tended h sound e) (hs : e.stack = [])
    (hst : ∀ f ∈ e'.stack, f.grows ∧ ∀ r, f.purpose? ≠ some (.resolution r))
    (hc : ∀ r, e'.core? r = e.core? r) (hstill : Still e e') : Phase h sound e' :=
  .growing (ht.called hs (fun f hf r => ⟨(hst f hf).2 r, Frame.isRestartOf_of_grows (hst f hf).1 r⟩) hc
    hstill.get? hstill.rulesOf) fun f hf => (hst f hf).1

/-- A call that is answered at once. -/
theorem Phase.answered (ht : Tended h sound e) (hs : e.stack = []) (hs' : e'.stack = e.stack)
    (hc : ∀ r, e'.core? r = e.core? r) (hstill : Still e e') : Phase h sound e' :=
  .called ht hs (by simp [hs', hs]) hc hstill

theorem Phase.plain (ht : Tended h sound e) (hs : e.stack = []) (hp : Plain none e e') : Phase h sound e' := by
  obtain ⟨frames, hs', hfr⟩ := hp.stack
  rw [hs, List.append_nil] at hs'
  refine .called ht hs (fun f hf => ?_) hp.calm.core? (.plain hp)
  have hf := hfr f (hs' ▸ hf)
  refine ⟨Frame.grows_of_isPlain hf.plain, fun r hr => ?_⟩
  cases hf.purpose r hr

/-- A call that only begins a pass about an edge. -/
theorem Phase.edge {event : GraphEvent} {result : Result ν} (ht : Tended h sound e) (hs : e.stack = [])
    (he : ∀ t key, event ≠ .removedType t key) (hc : ∀ r, e'.core? r = e.core? r) (hstill : Still e e')
    (hs' : e'.stack = .deliver result :: e.stack) : Phase h sound (e'.notifyGraph event) := by
  refine .called ht hs (fun f hf => ?_) (fun r => ?_) (hstill.trans (.notifyGraph e' event))
  · rw [notifyGraph_eq, push_stack, List.mem_cons] at hf
    rcases hf with rfl | hf
    · refine ⟨?_, by simp [Frame.purpose?]⟩
      cases event with
      | removedType t key => exact absurd rfl (he t key)
      | _ => rfl
    · have hf : f ∈ e'.stack := hf
      rw [hs', hs, List.mem_singleton] at hf
      rw [hf]
      exact ⟨rfl, by simp [Frame.purpose?]⟩
  · rw [(calm_notifyGraph (p := none) e' event).core?, hc]

theorem phase_call {c : Call ν} (ht : Tended h sound e) (hg : Grounded h sound e) (hs : e.stack = [])
    (hp : h.Permits e c) (hk : e.knows c) : Phase h sound (e.call c) := by
  cases c with
  | addSystem config printer comparisons =>
    have hrules : ∀ s, (e.call (.addSystem config printer comparisons)).rulesOf s = e.rulesOf s := by
      intro s
      simp only [call, rulesOf, finish, report]
      by_cases hl : s < e.systems.length
      · rw [List.getElem?_append_left hl]
      · rw [List.getElem?_append_right (Nat.le_of_not_lt hl), List.getElem?_eq_none (Nat.le_of_not_lt hl),
          List.getElem?_singleton]
        by_cases h0 : s - e.systems.length = 0
        · rw [if_pos h0]
        · rw [if_neg h0]
    have hs' : (e.call (.addSystem config printer comparisons)).stack = [] := hs
    exact .growing (ht.called hs (by simp [hs']) (fun _ => rfl) (fun _ => rfl) hrules) (by simp [hs'])
  | addType t key =>
    rcases call_addType e t key with ⟨result, heq⟩ | hadd
    · rw [heq]
      exact .plain ht hs (.finish result)
    · refine .growing (ht.addType hg hs hadd) ?_
      obtain ⟨result, hs'⟩ := hadd.stack
      simp [hs', hs, Frame.grows]
  | removeType t =>
    cases hkey : e.graph.keyOf? t with
    | none =>
      simp only [call, hkey]
      exact .plain ht hs (.finish _)
    | some key =>
      have heq : e.call (.removeType t) =
          e.withStack (.typeRemoval t key (e.graph.incident t) :: .deliver (.flag true) :: e.stack) := by
        simp only [call, hkey]
        rfl
      rw [heq, hs]
      refine .shedding [] (ht.called hs ?_ (fun _ => rfl) (fun _ => rfl) fun _ => rfl) rfl
        (by simp) (Graph.get?_of_keyOf? hkey)
      simp [Frame.purpose?, Frame.isRestartOf]
  | addEdge edge =>
    cases hadd : e.graph.addEdge edge with
    | refused error =>
      simp only [call, hadd]
      exact .plain ht hs (.finish _)
    | present =>
      simp only [call, hadd]
      exact .plain ht hs (.finish _)
    | added graph =>
      obtain ⟨-, -, -, rfl⟩ := Graph.addEdge_added hadd
      simp only [call, hadd]
      exact .edge ht hs (by simp) (fun _ => rfl) ⟨rfl, fun _ => rfl⟩ rfl
  | removeEdge edge =>
    simp only [call, removeEdge]
    split
    · exact .edge ht hs (by simp) (fun _ => rfl) ⟨rfl, fun _ => rfl⟩ rfl
    · exact .plain ht hs (.push_apart rfl rfl)
  | listenToGraph o => exact .answered ht hs rfl (fun _ => rfl) (call_still rfl hk)
  | watchRemoval t o => exact .answered ht hs rfl (fun _ => rfl) (call_still rfl hk)
  | leaveGraph id => exact .answered ht hs rfl (fun _ => rfl) (call_still rfl hk)
  | compare relation actual expected =>
    exact .plain ht hs ((plain_compareIn e .graph relation actual expected).trans (.finish _))
  | addRule s tag name boundTo =>
    have hl : s < e.systems.length := by simpa [knows] using hk
    obtain ⟨y, hy⟩ : ∃ y, e.systems[s]? = some y := ⟨_, List.getElem?_eq_getElem hl⟩
    obtain ⟨result, hchg⟩ := call_addRule hy tag name boundTo
    refine .growing (ht.addRule hg hs hy hchg) ?_
    obtain ⟨y', -, hs'⟩ := hchg.stack
    simp [hs', hs, Frame.grows]
  | removeRule s id => exact hp.elim
  | listenToRules s o => exact .answered ht hs rfl (fun _ => rfl) (call_still rfl hk)
  | leaveRules s id => exact .answered ht hs rfl (fun _ => rfl) (call_still rfl hk)
  | infer s n => exact .plain ht hs (plain_infer e s n .inquiry (.inl rfl))
  | trySelect s selector => exact .plain ht hs (plain_select e s .trial selector (by simp))
  | mustSelect s selector => exact .plain ht hs (plain_select e s .demand selector (by simp))
  | addReference s selector =>
    simp only [knows, Bool.and_eq_true] at hk
    refine .growing (ht.addReference hg hs hk.2) fun f hf => ?_
    rw [addReference_eq hk.2] at hf
    obtain ⟨frames, hs', hfr⟩ := (plain_attempt _ _).stack
    rw [hs', List.mem_append] at hf
    rcases hf with hf | hf
    · exact Frame.grows_of_isPlain (hfr f hf).plain
    · have hf : f ∈ .deliver (.reference e.references.length) :: e.stack := hf
      rw [hs, List.mem_singleton] at hf
      rw [hf]
      rfl
  | listenToReference r o inform =>
    have hstill := call_still (c := .listenToReference r o inform) rfl hk
    obtain ⟨e₁, added, hs', heq | ⟨notice, heq⟩⟩ := listenToReference_cases e r o inform
    · rw [heq] at hstill ⊢
      refine .called ht hs ?_ added.core? hstill
      simp [hs', hs, Frame.grows, Frame.purpose?]
    · rw [heq] at hstill ⊢
      refine .called ht hs ?_ (added.trans (.push_apart rfl rfl)).core? hstill
      simp [push_stack, hs', hs, Frame.grows, Frame.purpose?]
  | leaveReference r o =>
    have hcalm : Calm none e (e.call (.leaveReference r o)) := by
      refine .trans (.updateReference ?_) (.finish _)
      exact fun _ => rfl
    exact .answered ht hs rfl hcalm.core? (call_still rfl hk)
  | deconstruct r =>
    refine .growing (ht.deconstruct hs r) ?_
    rcases deconstruct_cases e r with heq | ⟨x, hst⟩
    · simp [call, heq, finish, report, hs]
    · have hs' : (e.call (.deconstruct r)).stack = [] := hst.stack.trans hs
      simp [hs']
  | relate request => exact .plain ht hs (plain_relate e request)
  | addChecks s checks => exact .answered ht hs rfl (fun _ => rfl) (call_still rfl hk)
  | validate s n =>
    simp only [call]
    exact .plain ht hs (.push_apart rfl rfl)

end Calls

/-! ## Runs -/

section Runs

variable {h : Host ν} {sound : SystemId → Prop} {e e' : Engine ν}

/-- The removal of an edge begins at most a pass about it. -/
theorem removeEdge_stack (e : Engine ν) (edge : Edge) : ∃ above, (e.removeEdge edge).stack =
    above ++ e.stack ∧ ∀ f ∈ above, ∃ queue, f = .graphPass (.removedEdge edge) queue := by
  unfold removeEdge
  split
  · refine ⟨[_], push_stack _ _, fun f hf => ?_⟩
    rw [List.mem_singleton.1 hf]
    exact ⟨_, rfl⟩
  · exact ⟨[], rfl, by simp⟩

/-- Which observers are still there does not matter to references. -/
theorem Phase.forget (hp : Phase h sound e) (o : Observer) : Phase h sound (e.forget o) := by
  unfold Engine.forget
  split
  · exact hp
  · cases hp with
    | growing ht hgr => exact .growing ⟨⟨ht.below, ht.seeking⟩, ht.awake, ht.settled, ht.newer⟩ hgr
    | shedding above ht hs hgr hk =>
      exact .shedding above ⟨⟨ht.below, ht.seeking⟩, ht.awake, ht.settled, ht.newer⟩ hs hgr hk
    | removing hr =>
      refine .removing ⟨⟨hr.below, hr.seeking⟩, hr.stack, fun f hf => ?_, hr.ranked.congr fun _ => rfl,
        hr.settled⟩
      obtain ⟨l, hl, htu⟩ := hr.turns f hf
      exact ⟨l, hl, htu.unmoved (.of_eq rfl rfl) fun _ => rfl⟩

/-- While nothing leaves. -/
theorem handle_growing {f : Frame ν} {rest : List (Frame ν)} (ht : Tended h sound e)
    (hgr : ∀ g ∈ e.stack, g.grows) (hg : Grounded h sound e) (hs : e.stack = f :: rest)
    (hh : Handles h e f rest e') : Phase h sound e' := by
  have hf : f.grows := hgr f (by rw [hs]; exact List.mem_cons_self)
  cases hh with
  | work hw =>
    refine .growing (ht.work hg hs hw) fun g hgm => ?_
    obtain ⟨frames, hs', hfr⟩ := hw.grown hf
    rw [hs', List.mem_append] at hgm
    exact hgm.elim (hfr g) fun hgm => hgr g (by rw [hs]; exact List.mem_cons_of_mem _ hgm)
  | _ => cases hf

/-- While something is done about the edges of a type that is to leave. -/
theorem handle_shedding {t : Ty} {key : String} {edges : List Edge} {result : Result ν} {f : Frame ν}
    {above : List (Frame ν)} (ht : Tended h sound e)
    (hs : e.stack = f :: above ++ [.typeRemoval t key edges, .deliver result])
    (hgr : ∀ g ∈ f :: above, g.grows) (hk : e.graph.get? key = some t) (hg : Grounded h sound e)
    (hh : Handles h e f (above ++ [.typeRemoval t key edges, .deliver result]) e') : Phase h sound e' := by
  have hf : f.grows := hgr f List.mem_cons_self
  cases hh with
  | work hw =>
    obtain ⟨frames, hs', hfr⟩ := hw.grown hf
    rw [← List.append_assoc] at hs'
    refine .shedding _ (ht.work hg hs hw) hs' (fun g hgm => ?_) ((hw.still.get? key).trans hk)
    exact (List.mem_append.1 hgm).elim (hfr g) fun hgm => hgr g (List.mem_cons_of_mem _ hgm)
  | _ => cases hf

/-- The next edge of a type that is to leave is removed. -/
theorem shed_edge {t : Ty} {key : String} {edge : Edge} {edges : List Edge} {result : Result ν}
    (ht : Tended h sound e) (hs : e.stack = [.typeRemoval t key (edge :: edges), .deliver result])
    (hk : e.graph.get? key = some t) :
    Phase h sound ((e.withStack [.typeRemoval t key edges, .deliver result]).removeEdge edge) := by
  have hstill := (Still.withStack e [.typeRemoval t key edges, .deliver result]).trans (.removeEdge _ edge)
  have hcalm := calm_removeEdge (p := none) (e.withStack [.typeRemoval t key edges, .deliver result]) edge
  obtain ⟨above, hs', habove⟩ :=
    removeEdge_stack (e.withStack [.typeRemoval t key edges, .deliver result]) edge
  refine .shedding above (ht.unmoved (above ++ [.typeRemoval t key edges]) hs (by simp [Frame.purpose?])
    (by simpa using hs') (fun g hgm r => ?_) hcalm.core? hstill ?_) hs' (fun g hgm => ?_)
    ((hstill.get? key).trans hk)
  · rcases List.mem_append.1 hgm with hgm | hgm
    · obtain ⟨queue, rfl⟩ := habove g hgm
      exact ⟨by simp [Frame.purpose?], rfl⟩
    · rw [List.mem_singleton.1 hgm]
      exact ⟨by simp [Frame.purpose?], rfl⟩
  · simp [Frame.summons]
  · obtain ⟨queue, rfl⟩ := habove g hgm
    rfl

theorem handle_shed {t : Ty} {key : String} {edges : List Edge} {result : Result ν} (ht : Tended h sound e)
    (hs : e.stack = [.typeRemoval t key edges, .deliver result]) (hk : e.graph.get? key = some t)
    (hg : Grounded h sound e) (hh : Handles h e (.typeRemoval t key edges) [.deliver result] e') :
    Phase h sound e' := by
  cases hh with
  | work hw =>
    cases hw with
    | pop ho => cases ho
    | aside hpl => cases hpl
    | pass hsk => cases hsk
    | tell hsk => cases hsk
    | attempt hcl => cases hcl
    | evaluate hp => cases hp
  | removeEdge => exact shed_edge ht hs hk
  | removeNode => exact .removing (ht.removeNode hg hs hk (removeNode_removed _ t key))

/-- While a turn of the pass about a removal lasts. -/
theorem handle_turn {t : Ty} {key : String} {result : Result ν} {f : Frame ν} {above : List (Frame ν)}
    {queue : List GraphListener} {cur : Option GraphListener}
    (hr : Removing h sound e t key result (f :: above) queue cur) (hg : Grounded h sound e)
    (hh : Handles h e f (above ++ removal t key queue result) e') : Phase h sound e' := by
  obtain ⟨l, -, htu⟩ := hr.turns f List.mem_cons_self
  cases hh with
  | work hw =>
    obtain ⟨above', hr'⟩ := hr.work hg hw
    exact .removing hr'
  | restart =>
    obtain ⟨above', hr'⟩ := hr.restart hg
    exact .removing hr'
  | removeRule =>
    obtain ⟨above', hr'⟩ := hr.removeRule hg
    exact .removing hr'
  | _ =>
    cases htu with
    | seeking hp => cases hp

/-- Between two turns of the pass about a removal. -/
theorem handle_between {t : Ty} {key : String} {result : Result ν} {queue : List GraphListener}
    (hr : Removing h sound e t key result [] queue none) (hg : Grounded h sound e)
    (hh : Handles h e (.graphPass (.removedType t key) queue) [.deliver result] e') : Phase h sound e' := by
  cases hh with
  | work hw =>
    cases hw with
    | pop ho =>
      cases queue with
      | nil => exact .growing (hr.finish hg) (by simp [Frame.grows])
      | cons => cases ho
    | aside hpl => cases hpl
    | pass hsk =>
      cases hsk with
      | graph hl => exact .removing (hr.pass (.graph hl)).1
    | @tell f' o notice hsk =>
      cases hsk with
      | graph hl =>
        obtain ⟨l, hr'⟩ := (hr.pass (.graph hl)).2 o notice
        exact .removing hr'
    | attempt hcl => cases hcl
    | evaluate hp => cases hp
  | lose =>
    obtain ⟨above, cur, hr'⟩ := hr.invalidate hg
    exact .removing hr'
  | drop hy => exact .removing (hr.drop hg hy)

/-- Whatever comes of the top frame belongs to one of the phases. -/
theorem Phase.handle {f : Frame ν} {rest : List (Frame ν)} (hp : Phase h sound e) (hg : Grounded h sound e)
    (hs : e.stack = f :: rest) (hh : Handles h e f rest e') : Phase h sound e' := by
  cases hp with
  | growing ht hgr => exact handle_growing ht hgr hg hs hh
  | shedding above ht hs' hgr hk =>
    cases above with
    | nil =>
      cases hs.symm.trans hs'
      exact handle_shed ht hs hk hg hh
    | cons g above =>
      cases hs.symm.trans hs'
      exact handle_shedding ht hs hgr hk hg hh
  | @removing t key result above queue cur hr =>
    cases above with
    | nil =>
      cases hs.symm.trans hr.stack
      exact handle_between hr.over hg hh
    | cons g above =>
      cases hs.symm.trans hr.stack
      exact handle_turn hr hg hh

/-- When the engine rests, nothing leaves. -/
theorem Phase.at_rest (hp : Phase h sound e) (hs : e.stack = []) : Tended h sound e := by
  cases hp with
  | growing ht => exact ht
  | shedding above _ hs' => simp [hs] at hs'
  | removing hr =>
    have hs' := hr.stack
    simp [hs] at hs'

/-- What a move does in a quiet run belongs to one of the phases. -/
theorem Phase.quiet (hp : Phase h sound e) (hg : Grounded h sound e) (hq : Quiet h e e') : Phase h sound e' := by
  cases hq with
  | handle hs hh => exact hp.handle hg hs hh
  | call hs hpe hk => exact phase_call (hp.at_rest hs) hg hs hpe hk
  | forget => exact hp.forget _

theorem phase_new : Phase h sound ({} : Engine ν) := by
  refine .growing (.of_call (by simp) (fun r x hx => ?_) fun r source x y w w' hx => ?_) (by simp)
  · simp [core?] at hx
  · simp [core?] at hx

/-- Every state of a quiet run is grounded, and in one of the phases, if the systems that are sound are
given no more rules than there are numbers. -/
theorem RunBy.phase {moves : List (Move ν)} (he : RunBy h.Allows moves e)
    (hfew : ∀ s, sound s → rulesAdded s moves ≤ UInt32.size) : Grounded h sound e ∧ Phase h sound e := by
  induction he with
  | new => exact ⟨grounded_new, phase_new⟩
  | @move moves e e' m he ha hm ih =>
    have hfirst : ∀ s, sound s → rulesAdded s moves ≤ UInt32.size := fun s hs =>
      Nat.le_trans (Nat.le_add_right _ _) (rulesAdded_append s moves [m] ▸ hfew s hs)
    obtain ⟨hg, hp⟩ := ih hfirst
    refine ⟨hg.move ha hm fun s hs set hset => ?_, hp.quiet hg (move?_quiet ha hm)⟩
    have hordered := rulesOrdered_of_run (he.move ha hm).run (hfew s hs)
    rw [ruleSetOf, hset] at hordered
    exact hordered.distinct

/-- When the engine rests in a quiet run, every reference that is not deconstructed has what its selector
gives. -/
theorem RunBy.settled {moves : List (Move ν)} {r : ReferenceId} {x : Reference ν}
    (he : RunBy h.Allows moves e) (hfew : ∀ s, sound s → rulesAdded s moves ≤ UInt32.size)
    (hrest : e.atRest) (hx : e.core? r = some x) (hd : x.deconstructed = false) (hclear : Clear sound x) :
    Settled h e x := by
  have hs : e.stack = [] := List.isEmpty_iff.1 hrest
  exact ((he.phase hfew).2.at_rest hs).at_rest hs hx hd hclear

/-- What a reference looks at exists. -/
theorem Grounded.knows_selector {r : ReferenceId} {x : Reference ν} (hg : Grounded h sound e)
    (hx : e.references[r]? = some x) : e.knows (.trySelect x.system x.selector) :=
  hg.tied.knows_selector hx (hg.subscribed.housed r x.core (core?_eq hx))

end Runs

end Engine

/-! ## A host that always gives the same type -/

namespace Engine

variable {h : Host ν} {e : Engine ν}

end Engine
end LiveTypes
