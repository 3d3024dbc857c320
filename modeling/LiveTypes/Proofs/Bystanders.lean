import LiveTypes.Proofs.Attendance
import LiveTypes.Proofs.ReferenceWork

/-!
# References that a change does not concern

An edge that comes or goes and a rule that goes concern no reference, and a type that leaves the graph
concerns those that have it. The others hear of it all the same: the pass over a removal reaches every
reference that waits, the rules bound to the type go and are told of, and those that had the type start over
and may call their dependents. `Engine.Spared` says why none of this moves a bystander. What is under way
tells of no arrival and acts for references that had the type only, and whoever reads one of these had a
type as well, so that to be called does nothing to it.
-/
namespace LiveTypes

variable {ν : Type}

/-- The type that a call is to remove. -/
def Call.removed? : Call ν → Option Ty
  | .removeType t => some t
  | _ => none

namespace Engine

/-- A change of the graph or of the rules that does not concern a reference. -/
inductive Unrelated (e : Engine ν) (r : ReferenceId) : Call ν → Prop
  | addEdge (edge : Edge) : Unrelated e r (.addEdge edge)
  | removeEdge (edge : Edge) : Unrelated e r (.removeEdge edge)
  | removeRule (s : SystemId) (id : RuleId) : Unrelated e r (.removeRule s id)
  | removeType {t : Ty} : e.typeOf? r ≠ some t → Unrelated e r (.removeType t)

/-! ## The invariant -/

/-- A reference has the type that leaves, if one does. -/
def Loses (e : Engine ν) (leaving : Option Ty) (r : ReferenceId) : Prop :=
  ∃ t, leaving = some t ∧ e.typeOf? r = some t

/-- A reference does not wait for a type. -/
def Idle (e : Engine ν) (r : ReferenceId) : Prop :=
  ∀ x, e.references[r]? = some x → x.isPending = false

/-- Nobody waits who reads a reference that loses its type. -/
def ReadersIdle (e : Engine ν) (leaving : Option Ty) : Prop :=
  ∀ r, e.Loses leaving r → ∀ x, e.tie? r = some x → ∀ d ∈ x.dependents, e.Idle d

end Engine

/-- A piece of work in a change that began at `e₀` and reaches no bystander. -/
def Frame.Spares (e₀ : Engine ν) (leaving : Option Ty) : Frame ν → Prop
  | .graphPass (.addedType _ _) _ => False
  | .graphPass (.removedType t _) _ => leaving = some t
  | .typeRemoval t _ _ => leaving = some t
  | .rulePass _ (.added _ _) _ => False
  | .referencePass r _ queue => e₀.Loses leaving r ∧ ∀ d, .dependent d ∈ queue → e₀.Idle d
  | .restart r => e₀.Loses leaving r
  | f => ∀ r, f.purpose? = some (.resolution r) → e₀.Loses leaving r

namespace Engine

/-- What holds all through a change that began at `e₀`. -/
structure Spared (e₀ : Engine ν) (leaving : Option Ty) (e : Engine ν) : Prop where
  same : ∀ r, ¬ e₀.Loses leaving r → e.references[r]? = e₀.references[r]?
  ties : ∀ r, e.tie? r = e₀.tie? r
  frames : ∀ f ∈ e.stack, f.Spares e₀ leaving

section Frames

variable {e₀ : Engine ν} {leaving : Option Ty} {f f' : Frame ν} {r : ReferenceId}

theorem spares_of_plainFor {p : Option Purpose} (hf : f.PlainFor p)
    (hp : ∀ r, p = some (.resolution r) → e₀.Loses leaving r) : f.Spares e₀ leaving := by
  have hpurpose : ∀ r, f.purpose? = some (.resolution r) → e₀.Loses leaving r :=
    fun r hr => hp r (hf.purpose r hr)
  cases f with
  | graphPass => cases hf.plain
  | typeRemoval => cases hf.plain
  | rulePass => cases hf.plain
  | ruleRemoval => cases hf.plain
  | referencePass => cases hf.plain
  | restart => cases hf.plain
  | telling => cases hf.plain
  | _ => exact hpurpose

theorem loses_of_purpose (h : f.Spares e₀ leaving) (hp : f.purpose? = some (.resolution r)) :
    e₀.Loses leaving r := by
  cases f with
  | selecting => exact h r hp
  | inferring => exact h r hp
  | running => exact h r hp
  | expanding => exact h r hp
  | initializing => exact h r hp
  | _ => cases hp

theorem spares_of_skips (hsk : f.Skips f') (h : f.Spares e₀ leaving) : f'.Spares e₀ leaving := by
  cases hsk with
  | @graph event => cases event <;> exact h
  | @rules _ event => cases event <;> exact h
  | reference => exact ⟨h.1, fun d hd => h.2 d (List.mem_cons_of_mem _ hd)⟩

/-- No pass of a bystander is under way. -/
theorem audience?_of_spares (h : f.Spares e₀ leaving) (hr : ¬ e₀.Loses leaving r) :
    f.audience? r = none := by
  cases f with
  | referencePass i event queue =>
    have hi : i ≠ r := by
      rintro rfl
      exact hr h.1
    simp [Frame.audience?, hi]
  | _ => rfl

end Frames

/-! ## What is done to those who lose the type -/

section Changes

variable {e₀ e e' : Engine ν} {leaving : Option Ty} {f f' : Frame ν} {rest : List (Frame ν)}
  {r d : ReferenceId} {t : Ty}

theorem Spared.of_frames (h : Spared e₀ leaving e) (hr : e'.references = e.references)
    (hs : ∀ f ∈ e'.stack, f ∈ e.stack ∨ f.Spares e₀ leaving) : Spared e₀ leaving e' := by
  refine ⟨fun r hl => ?_, fun r => ?_, fun f hf => (hs f hf).elim (h.frames f) id⟩
  · rw [hr]
    exact h.same r hl
  · rw [tie?, hr]
    exact h.ties r

/-- Only the references and the work under way matter. -/
theorem Spared.congr (h : Spared e₀ leaving e) (hr : e'.references = e.references)
    (hs : e'.stack = e.stack) : Spared e₀ leaving e' :=
  h.of_frames hr fun _ hf => .inl (hs ▸ hf)

theorem Spared.pop (h : Spared e₀ leaving e) (hs : e.stack = f :: rest) :
    Spared e₀ leaving (e.withStack rest) :=
  h.of_frames rfl fun _ hg => .inl (hs ▸ List.mem_cons_of_mem _ hg)

theorem Spared.push (h : Spared e₀ leaving e) (hf : f.Spares e₀ leaving) : Spared e₀ leaving (e.push f) := by
  refine h.of_frames (push_references e f) fun g hg => ?_
  rw [push_stack] at hg
  rcases List.mem_cons.1 hg with rfl | hg
  · exact .inr hf
  · exact .inl hg

theorem Spared.turn (h : Spared e₀ leaving e) (hs : e.stack = f :: rest) (hf : f'.Spares e₀ leaving) :
    Spared e₀ leaving (e.withStack (f' :: rest)) := by
  refine h.of_frames rfl fun g hg => ?_
  rcases List.mem_cons.1 hg with rfl | hg
  · exact .inr hf
  · exact .inl (hs ▸ List.mem_cons_of_mem _ hg)

theorem Spared.plain {p : Option Purpose} (h : Spared e₀ leaving e) (hplain : Plain p e e')
    (hp : ∀ r, p = some (.resolution r) → e₀.Loses leaving r) : Spared e₀ leaving e' := by
  obtain ⟨frames, hs, hframes⟩ := hplain.stack
  refine h.of_frames hplain.references fun f hf => ?_
  rw [hs] at hf
  rcases List.mem_append.1 hf with hf | hf
  · exact .inr (spares_of_plainFor (hframes f hf) hp)
  · exact .inl hf

/-- A reference that loses the type may change its state. -/
theorem Spared.setState {state : ReferenceState} (h : Spared e₀ leaving e) (hr : e₀.Loses leaving r)
    (hrefs : e'.references = e.references.modify r fun y => { y with state })
    (hs : ∀ f ∈ e'.stack, f ∈ e.stack ∨ f.Spares e₀ leaving) : Spared e₀ leaving e' := by
  refine ⟨fun i hi => ?_, fun i => (tie?_setState hrefs i).trans (h.ties i),
    fun f hf => (hs f hf).elim (h.frames f) id⟩
  have hne : r ≠ i := by
    rintro rfl
    exact hi hr
  rw [hrefs, List.getElem?_modify_ne _ _ hne]
  exact h.same i hi

/-- Only one that loses the type tries, if those who are called are that or do not wait. -/
theorem Spared.attempt (h : Spared e₀ leaving e) (hd : e₀.Loses leaving d ∨ e₀.Idle d) :
    Spared e₀ leaving (e.attempt d) := by
  by_cases hl : e₀.Loses leaving d
  · refine h.plain (plain_attempt e d) fun i hi => ?_
    cases hi
    exact hl
  · have hidle : e.Idle d := by
      intro x hx
      rw [h.same d hl] at hx
      exact hd.resolve_left hl x hx
    rw [attempt_of_not_pending hidle]
    exact h

/-- A reference that loses the type comes to another, or to the same, and is to call its dependents. -/
theorem Spared.resolve (h : Spared e₀ leaving e) (hr : e₀.Loses leaving r)
    (hreaders : e₀.ReadersIdle leaving) : Spared e₀ leaving (e.resolve r t) := by
  rcases resolve_cases e r t with ⟨heq, -⟩ | ⟨x, subs, ht⟩
  · rw [heq]
    exact h
  · refine h.setState hr ht.references fun f hf => ?_
    rw [ht.stack] at hf
    rcases List.mem_cons.1 hf with rfl | hf
    · have htie : e₀.tie? r = some x.tie := by
        rw [← h.ties r]
        exact tie?_eq ht.found
      refine .inr ⟨hr, fun d hd => hreaders r hr x.tie htie d ?_⟩
      simpa [Reference.tie] using hd
    · exact .inl hf

/-- Whoever loses a type in a pass over its removal had it when the change began. -/
theorem Spared.invalidate (h : Spared e₀ leaving e) (hleaving : leaving = some t) :
    Spared e₀ leaving (e.invalidate r t) := by
  rcases invalidate_cases e r t with ⟨heq, -⟩ | ⟨x, watch, hlost⟩
  · rw [heq]
    exact h
  · have hr : e₀.Loses leaving r := by
      by_contra hn
      have hx := hlost.found
      rw [h.same r hn] at hx
      refine hn ⟨t, hleaving, ?_⟩
      rw [typeOf?_eq hx, hlost.watching]
      rfl
    refine h.setState hr hlost.references fun f hf => ?_
    rw [hlost.stack] at hf
    rcases List.mem_cons.1 hf with rfl | hf
    · exact .inr ⟨hr, fun d hd => by simp at hd⟩
    · rcases List.mem_cons.1 hf with rfl | hf
      · exact .inr hr
      · exact .inl hf

theorem Spared.startResolving (h : Spared e₀ leaving e) (hr : e₀.Loses leaving r) :
    Spared e₀ leaving (e.startResolving r) := by
  rcases startResolving_cases e r with ⟨heq, -⟩ | ⟨x, -, -, heq⟩
  · rw [heq]
    exact h
  · rw [heq]
    have hsub : Spared e₀ leaving (e.subscribe r x.system) := h.setState hr rfl fun _ hf => .inl hf
    exact hsub.attempt (.inl hr)

/-! ## What is told of -/

theorem Spared.notifyGraph {event : GraphEvent} (h : Spared e₀ leaving e)
    (hev : ∀ queue, (Frame.graphPass event queue : Frame ν).Spares e₀ leaving) :
    Spared e₀ leaving (e.notifyGraph event) := by
  rw [notifyGraph_eq]
  exact Spared.push (h.congr rfl rfl) (hev _)

theorem Spared.notifyRules {s : SystemId} {event : RuleEvent} (h : Spared e₀ leaving e)
    (hev : ∀ queue, (Frame.rulePass s event queue : Frame ν).Spares e₀ leaving) :
    Spared e₀ leaving (e.notifyRules s event) := by
  unfold Engine.notifyRules
  split
  · exact h
  · exact Spared.push (h.congr rfl rfl) (hev _)

theorem Spared.removeEdge (h : Spared e₀ leaving e) (edge : Edge) :
    Spared e₀ leaving (e.removeEdge edge) := by
  unfold Engine.removeEdge
  split
  · refine Spared.notifyGraph (h.congr rfl rfl) fun queue => ?_
    exact nofun
  · exact h

theorem Spared.removeNode (h : Spared e₀ leaving e) (hleaving : leaving = some t) (key : String) :
    Spared e₀ leaving (e.removeNode t key) :=
  Spared.notifyGraph (h.congr rfl rfl) fun _ => hleaving

theorem Spared.removeRule (h : Spared e₀ leaving e) (s : SystemId) (id : RuleId) :
    Spared e₀ leaving (e.removeRule s id) := by
  unfold Engine.removeRule
  split
  · exact h
  · refine Spared.notifyRules (h.congr rfl rfl) fun queue => ?_
    exact nofun

end Changes

/-! ## The whole change -/

section Runs

variable {e₀ e e' : Engine ν} {leaving : Option Ty} {f : Frame ν} {rest : List (Frame ν)} {m : Move ν}
  {r : ReferenceId} {c : Call ν}

/-- When the engine rests, whoever reads a reference with a type does not wait. -/
theorem Reachable.idle_of_reads {x : Tie ν} {d : ReferenceId} (h : e.Reachable) (hrest : e.atRest)
    (ht : e.typeOf? r ≠ none) (hx : e.tie? r = some x) (hd : d ∈ x.dependents) : e.Idle d := by
  intro y hy
  obtain ⟨z, hz, hsrc⟩ := h.tied.readers r d x hx hd
  rw [tie?_eq hy] at hz
  cases hz
  unfold Reference.isPending
  split
  · rename_i subs hstate
    -- one that waits is not deconstructed, so it would have tried when its source came to its type
    have hlive := (h.lively.of_subscribed hy (by rw [hstate]; rfl)).1
    refine absurd ?_ (h.typed_of_source hrest hy hlive hsrc ht)
    rw [typeOf?_eq hy, hstate]
    rfl
  · rfl

theorem Work.spared {h : Host ν} (hw : Work h e f rest e') (hs : e.stack = f :: rest)
    (hreaders : e₀.ReadersIdle leaving) (hsp : Spared e₀ leaving e) : Spared e₀ leaving e' := by
  have hf : f.Spares e₀ leaving := hsp.frames f (hs ▸ List.mem_cons_self)
  cases hw with
  | pop => exact hsp.pop hs
  | aside _ _ _ hplain => exact (hsp.pop hs).plain hplain nofun
  | pass hsk => exact hsp.turn hs (spares_of_skips hsk hf)
  | tell hsk => exact (hsp.turn hs (spares_of_skips hsk hf)).push nofun
  | attempt hcl =>
    cases hcl with
    | graph => exact hf.elim
    | rules => exact hf.elim
    | source =>
      refine Spared.attempt (hsp.turn hs ?_) (.inr (hf.2 _ List.mem_cons_self))
      exact ⟨hf.1, fun d hd => hf.2 d (List.mem_cons_of_mem _ hd)⟩
  | @evaluate i _ hp hev =>
    have hi : e₀.Loses leaving i := loses_of_purpose hf hp
    have hpurpose : ∀ j, some (Purpose.resolution i) = some (.resolution j) → e₀.Loses leaving j := by
      intro j hj
      cases hj
      exact hi
    cases hev with
    | onward hplain => exact (hsp.pop hs).plain hplain hpurpose
    | nothing hplain => exact ((hsp.pop hs).plain hplain nofun).plain (plain_unselected _ _ _) hpurpose
    | found => exact (hsp.pop hs).resolve hi hreaders

theorem Handles.spared {h : Host ν} (hh : Handles h e f rest e') (hs : e.stack = f :: rest)
    (hreaders : e₀.ReadersIdle leaving) (hsp : Spared e₀ leaving e) : Spared e₀ leaving e' := by
  have hf : f.Spares e₀ leaving := hsp.frames f (hs ▸ List.mem_cons_self)
  cases hh with
  | work hw => exact hw.spared hs hreaders hsp
  | lose =>
    refine Spared.invalidate (hsp.turn hs ?_) hf
    exact hf
  | drop =>
    refine hsp.of_frames rfl fun g hg => ?_
    rcases List.mem_cons.1 hg with rfl | hg
    · exact .inr nofun
    · rcases List.mem_cons.1 hg with rfl | hg
      · exact .inr hf
      · exact .inl (hs ▸ List.mem_cons_of_mem _ hg)
  | restart => exact (hsp.pop hs).startResolving hf
  | removeEdge =>
    refine Spared.removeEdge (hsp.turn hs ?_) _
    exact hf
  | removeNode => exact (hsp.pop hs).removeNode hf _
  | removeRule =>
    refine Spared.removeRule (hsp.turn hs ?_) _ _
    exact nofun

/-- What a move keeps with which the host does not call. -/
theorem move?_spared (hm : e.move? m = some e') (hcall : ∀ c, m ≠ .call c)
    (hreaders : e₀.ReadersIdle leaving) (h : Spared e₀ leaving e) : Spared e₀ leaving e' := by
  cases m with
  | call c => exact absurd rfl (hcall c)
  | answer a =>
    obtain ⟨f, rest, hs, hh⟩ := answer_handles (answering_answers hm) hm
    exact hh.spared hs hreaders h
  | work =>
    obtain ⟨f, rest, hs, hh⟩ := tick_handles (h := Host.answering .done) hm
    exact hh.spared hs hreaders h
  | forget o =>
    cases hm
    unfold forget
    split
    · exact h
    · exact h.congr rfl rfl
  | retire s =>
    cases hm
    unfold retire
    split
    · exact h
    · exact h.congr rfl rfl

/-- A change begins. -/
theorem Unrelated.spared (hc : Unrelated e r c) (hrest : e.atRest) : Spared e c.removed? (e.call c) := by
  have h : Spared e c.removed? e := by
    refine ⟨fun _ _ => rfl, fun _ => rfl, fun f hf => ?_⟩
    have hs : e.stack = [] := by simpa [atRest] using hrest
    simp [hs] at hf
  cases hc with
  | addEdge edge =>
    simp only [call]
    split
    · exact h.congr rfl rfl
    · exact h.congr rfl rfl
    · refine Spared.notifyGraph (Spared.push (h.congr rfl rfl) fun _ hp => by cases hp) fun queue => ?_
      intro _ hp
      cases hp
  | removeEdge edge =>
    refine Spared.removeEdge (Spared.push h ?_) edge
    intro _ hp
    cases hp
  | removeRule s id =>
    refine Spared.removeRule (Spared.push h ?_) s id
    intro _ hp
    cases hp
  | removeType =>
    simp only [call]
    split
    · exact h.congr rfl rfl
    · exact Spared.push (Spared.push h fun _ hp => by cases hp) rfl

theorem Unrelated.not_loses (hc : Unrelated e r c) : ¬ e.Loses c.removed? r := by
  rintro ⟨t, hleaving, ht⟩
  cases hc with
  | removeType hne =>
    cases hleaving
    exact hne ht
  | _ => cases hleaving

/-- Nothing is reported of a reference that has no pass under way, unless somebody begins to listen. -/
theorem history_of_no_audience (hv : Lively e) (hm : e.move? m = some e') (hbefore : e.audiences r = [])
    (hafter : e'.audiences r = []) (hlisten : ∀ o inform, m ≠ .call (.listenToReference r o inform)) :
    e'.history r = e.history r := by
  have hstep := move?_referenceStep hv hm r
  have hafter : (e'.referenceSide r).audiences = [] := hafter
  suffices (e'.referenceSide r).notes = (e.referenceSide r).notes from this
  generalize e'.referenceSide r = side at hstep hafter
  cases hstep with
  | unseen => rfl
  | told haud => exact absurd (hbefore.symm.trans haud) nofun
  | done => rfl
  | change event => cases hafter
  | listen hl => exact absurd hl (hlisten _ _)
  | leave => rfl
  | clear => rfl

theorem Spared.audiences (h : Spared e₀ leaving e) (hr : ¬ e₀.Loses leaving r) : e.audiences r = [] :=
  List.filterMap_eq_nil_iff.2 fun f hf => audience?_of_spares (h.frames f hf) hr

/-- A change that does not concern a reference leaves it as it is, with its state, its listeners and its
dependents, and nobody is told anything of it, as long as the host does not call back. -/
theorem unrelated_change_spares_reference {e₁ : Engine ν} (h : e.Reachable) (hrest : e.atRest)
    (hc : Unrelated e r c) (hm : e.move? (.call c) = some e₁)
    (hrun : LeadsBy (fun _ m => ∀ c', m ≠ .call c') e₁ e') :
    e'.references[r]? = e.references[r]? ∧ e'.history r = e.history r := by
  have hr := hc.not_loses
  have hreaders : e.ReadersIdle c.removed? := by
    rintro i ⟨t, -, ht⟩ x hx d hd
    exact h.idle_of_reads hrest (by simp [ht]) hx hd
  have hs : e.audiences r = [] := by
    have hs : e.stack = [] := by simpa [atRest] using hrest
    simp [audiences, hs]
  have hbegun : Spared e c.removed? e₁ := by
    simp only [move?] at hm
    split at hm
    · cases hm
      exact hc.spared hrest
    · cases hm
  suffices e'.Reachable ∧ Spared e c.removed? e' ∧ e'.history r = e.history r from
    ⟨this.2.1.same r hr, this.2.2⟩
  refine hrun.keeps (P := fun e' => e'.Reachable ∧ Spared e c.removed? e' ∧ e'.history r = e.history r)
    ⟨h.move hm, hbegun, ?_⟩ ?_
  · refine history_of_no_audience h.lively hm hs (hbegun.audiences hr) ?_
    rintro o inform ⟨⟩
    cases hc
  · rintro e₂ e₃ m ⟨hreach, hsp, hhist⟩ hcall hm
    have hsp' := move?_spared hm hcall hreaders hsp
    refine ⟨hreach.move hm, hsp', ?_⟩
    rw [← hhist]
    exact history_of_no_audience hreach.lively hm (hsp.audiences hr) (hsp'.audiences hr)
      fun o inform => hcall _

/-- The theorem at the removal of a type that takes a rule with it. The reference that has the type comes to
another and calls its dependent, which is on a type that left earlier, while a third one waits. -/
theorem removal_spares_reader_and_waiting :
    let a : Ty := ⟨1, "a", "a"⟩
    let b : Ty := ⟨2, "b", "b"⟩
    let c : Ty := ⟨3, "c", "c"⟩
    ∃ e e₁ e' : Engine Nat, e.Reachable ∧ e.atRest ∧ e.move? (.call (.removeType b)) = some e₁ ∧
      LeadsBy (fun _ m => ∀ c', m ≠ .call c') e₁ e' ∧ e'.atRest ∧
      [0, 1, 2].map e.typeOf? = [some b, some a, none] ∧ (e.rulesOf 0).length = 1 ∧
      [0, 1, 2].map e'.typeOf? = [some c, some a, none] ∧ (e'.rulesOf 0).length = 0 ∧
      ∀ r, r = 1 ∨ r = 2 → Unrelated e r (.removeType b) ∧
        e'.references[r]? = e.references[r]? ∧ e'.history r = e.history r := by
  intro a b c
  have hcheck : ((run? ({} : Engine Nat)
      [.call (.addSystem {} ⟨Ty.name, fun _ _ => ""⟩ .graph), .call (.listenToGraph ⟨0⟩),
        .call (.addType a "a"), .work, .work, .answer .done, .work, .work,
        .call (.addType b "b"), .work, .work, .answer .done, .work, .work,
        .call (.addRule 0 ⟨1⟩ "bound" (some b)), .work, .work,
        .call (.addReference 0 (.initializer ⟨0⟩)), .work, .answer (.type a), .work, .work,
        .call (.removeType a), .work, .work, .work, .work,
        -- while the first type is leaving, the second reference comes to it through the first one
        .call (.addReference 0 (.reference 0)), .work, .work, .work, .answer .done,
        .work, .work, .work, .work, .answer (.type b), .work, .work, .work, .work,
        .call (.addReference 0 (.identifier "c")), .work, .work,
        .call (.listenToReference 1 ⟨1⟩ false), .work, .call (.listenToReference 2 ⟨2⟩ false), .work]).bind
      fun e => (e.move? (.call (.removeType b))).bind fun e₁ =>
        (e₁.run? [.work, .work, .work, .work, .work, .work, .work, .answer .done, .work, .work, .work, .work,
          .answer (.type c), .work, .work, .work, .work, .work]).map fun e' =>
      decide (e.atRest ∧ e'.atRest ∧ [0, 1, 2].map e.typeOf? = [some b, some a, none] ∧
        (e.rulesOf 0).length = 1 ∧ [0, 1, 2].map e'.typeOf? = [some c, some a, none] ∧
        (e'.rulesOf 0).length = 0)) = some true := by
    decide +kernel
  obtain ⟨e, hbefore, hcheck⟩ := Option.bind_eq_some_iff.1 hcheck
  obtain ⟨e₁, hm, hcheck⟩ := Option.bind_eq_some_iff.1 hcheck
  obtain ⟨e', hrun, hcheck⟩ := Option.map_eq_some_iff.1 hcheck
  obtain ⟨hrest, hrest', htypes, hrules, htypes', hrules'⟩ := of_decide_eq_true hcheck
  have he : e.Reachable := ⟨_, hbefore⟩
  have removal : LeadsBy (fun _ m => ∀ c', m ≠ .call c') e₁ e' := .of_run (by simp) hrun
  refine ⟨e, e₁, e', he, hrest, hm, removal, hrest', htypes, hrules, htypes', hrules', fun r hr => ?_⟩
  simp only [List.map_cons, List.map_nil, List.cons.injEq, and_true] at htypes
  have hc : Unrelated e r (.removeType b) := by
    refine .removeType ?_
    rcases hr with rfl | rfl
    · rw [htypes.2.1]
      decide
    · rw [htypes.2.2]
      nofun
  exact ⟨hc, unrelated_change_spares_reference he hrest hc hm removal⟩

end Runs
end Engine
end LiveTypes
