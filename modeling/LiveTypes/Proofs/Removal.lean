import LiveTypes.Proofs.Arrivals
import LiveTypes.Proofs.Ranking

/-!
# While a type leaves

In the pass about a removal, everybody who is not yet in line with it is still in the queue, or has its
turn and tries again (`Engine.Removing`). So when the pass is over, every reference has what its selector
gives.
-/
namespace LiveTypes

variable {ν : Type}

namespace Engine

/-! ## A turn of the pass -/

/-- What may be under way in the turn of a listener. A system drops rules bound to the type only, and of
those who are told about a reference, the references read it. -/
inductive TurnOf (sound : SystemId → Prop) (e : Engine ν) (t : Ty) : GraphListener → Frame ν → Prop
  | telling {l : GraphListener} {o : Observer} {notice : Notice} : TurnOf sound e t l (.telling o notice)
  | dropping {s : SystemId} {ids : List RuleId} :
    (sound s → ∀ id ∈ ids, ∀ rule ∈ e.rulesOf s, rule.id = id → rule.boundTo = some t) →
    TurnOf sound e t (.system s) (.ruleRemoval s ids)
  | dropped {s : SystemId} {id : RuleId} {boundTo : Option Ty} {queue : List RuleListener} :
    TurnOf sound e t (.system s) (.rulePass s (.removed id boundTo) queue)
  | told {r : ReferenceId} {event : ReferenceEvent} {queue : List ReferenceListener} :
    (∀ d, .dependent d ∈ queue → ∃ x, e.core? d = some x ∧ x.selector.source? = some r) →
    TurnOf sound e t (.reference r) (.referencePass r event queue)
  | restart {r : ReferenceId} : TurnOf sound e t (.reference r) (.restart r)
  | seeking {r : ReferenceId} {f : Frame ν} : f.purpose? = some (.resolution r) →
    TurnOf sound e t (.reference r) f

section TurnOf

variable {sound : SystemId → Prop} {e e' : Engine ν} {t : Ty} {l : GraphListener} {f f' : Frame ν}
  {r : ReferenceId}

theorem TurnOf.congr (h : TurnOf sound e t l f) (hr : ∀ s, e'.rulesOf s ⊆ e.rulesOf s)
    (hc : ∀ i x, e.core? i = some x → ∃ x', e'.core? i = some x' ∧ x'.selector = x.selector) :
    TurnOf sound e' t l f := by
  cases h with
  | telling => exact .telling
  | dropping hb => exact .dropping fun hs id hid rule hm => hb hs id hid rule (hr _ hm)
  | dropped => exact .dropped
  | told hd =>
    refine .told fun d hm => ?_
    obtain ⟨x, hx, hs⟩ := hd d hm
    obtain ⟨x', hx', hsel⟩ := hc d x hx
    exact ⟨x', hx', hsel ▸ hs⟩
  | restart => exact .restart
  | seeking hp => exact .seeking hp

theorem TurnOf.still (h : TurnOf sound e t l f) (hst : Still e e')
    (hc : ∀ i x, e.core? i = some x → ∃ x', e'.core? i = some x' ∧ x'.selector = x.selector) :
    TurnOf sound e' t l f :=
  h.congr (fun s => by rw [hst.rulesOf]; exact List.Subset.refl _) hc

theorem TurnOf.unmoved (h : TurnOf sound e t l f) (hst : Still e e') (hc : ∀ i, e'.core? i = e.core? i) :
    TurnOf sound e' t l f :=
  h.still hst fun i x hx => ⟨x, (hc i).trans hx, rfl⟩

/-- A search belongs to the turn of its reference. -/
theorem TurnOf.of_purpose (h : TurnOf sound e t l f) (hp : f.purpose? = some (.resolution r)) :
    l = .reference r := by
  cases h with
  | seeking hp' =>
    rw [hp] at hp'
    cases hp'
    rfl
  | _ => cases hp

theorem TurnOf.skips (h : TurnOf sound e t l f) (hsk : f.Skips f') : TurnOf sound e t l f' := by
  cases hsk with
  | graph =>
    cases h with
    | seeking hp => cases hp
  | rules =>
    cases h with
    | dropped => exact .dropped
    | seeking hp => cases hp
  | reference =>
    cases h with
    | told hd => exact .told fun d hm => hd d (List.mem_cons_of_mem _ hm)
    | seeking hp => cases hp

end TurnOf

/-- The pass about a removal, and what is left to do after it. -/
abbrev removal (t : Ty) (key : String) (queue : List GraphListener) (result : Result ν) : List (Frame ν) :=
  [.graphPass (.removedType t key) queue, .deliver result]

/-- A reference will start over, or searches. -/
def Retrying (e : Engine ν) (r : ReferenceId) (x : Reference ν) : Prop :=
  e.restarts r ≠ 0 ∨ (x.isPending ∧ Seeking e r)

/-- The type `t` leaves: the pass about that has `queue` before it, and `above` is what is under way in
the turn of `cur`. Who does not have what its selector gives is in the queue, or has its turn and tries
again. -/
structure Removing (h : Host ν) (sound : SystemId → Prop) (e : Engine ν) (t : Ty) (key : String)
    (result : Result ν) (above : List (Frame ν)) (queue : List GraphListener)
    (cur : Option GraphListener) : Prop extends Focused h e where
  stack : e.stack = above ++ removal t key queue result
  turns : ∀ f ∈ above, ∃ l, cur = some l ∧ TurnOf sound e t l f
  ranked : Ranked e t queue cur
  settled : ∀ (r : ReferenceId) (x : Reference ν), e.core? r = some x → x.deconstructed = false →
    Clear sound x → Settled h e x ∨ Queued e t queue r ∨ (cur = some (.reference r) ∧ Retrying e r x)

section Removing

variable {h : Host ν} {sound : SystemId → Prop} {e e' : Engine ν} {t : Ty} {key : String}
  {result : Result ν}
  {above : List (Frame ν)} {queue : List GraphListener} {cur : Option GraphListener}
  {l : GraphListener} {f f' : Frame ν} {r : ReferenceId} {x : Reference ν}

/-- Work on the top frame of a turn that moves no reference. -/
theorem Removing.unmoved (frames : List (Frame ν))
    (hr : Removing h sound e t key result (f :: above) queue cur)
    (hf : ∀ i, f.purpose? ≠ some (.resolution i))
    (hre : ∀ i x, e.core? i = some x → x.deconstructed = false → f.isRestartOf i = false)
    (hs' : e'.stack = frames ++ (above ++ removal t key queue result))
    (hfr : ∀ g ∈ frames, (∀ i, g.purpose? ≠ some (.resolution i)) ∧ ∃ l, cur = some l ∧ TurnOf sound e' t l g)
    (hc : ∀ i, e'.core? i = e.core? i) (hrules : ∀ s, e'.rulesOf s ⊆ e.rulesOf s)
    (hset : ∀ i x, e.core? i = some x → x.deconstructed = false → Clear sound x → Settled h e x →
      Settled h e' x ∨ Queued e t queue i) :
    Removing h sound e' t key result (frames ++ above) queue cur := by
  have hs := hr.stack
  refine { hr.toFocused.unmoved frames hs hs' fun g hg => (hfr g hg).1 with
           stack := by rw [hs', List.append_assoc], turns := fun g hg => ?_, ranked := hr.ranked.congr hc,
           settled := fun i x hx hd hdef => ?_ }
  · rcases List.mem_append.1 hg with hg | hg
    · exact (hfr g hg).2
    · obtain ⟨l, hl, htu⟩ := hr.turns g (List.mem_cons_of_mem _ hg)
      exact ⟨l, hl, htu.congr hrules fun i x hx => ⟨x, (hc i).trans hx, rfl⟩⟩
  · rw [hc] at hx
    rcases hr.settled i x hx hd hdef with hst | hq | ⟨hcur, hre' | ⟨-, g, rest, hg, hgp⟩⟩
    · exact (hset i x hx hd hdef hst).imp id fun hq => .inl (hq.congr hc)
    · exact .inr (.inl (hq.congr hc))
    · refine .inr (.inr ⟨hcur, .inl ?_⟩)
      have hnot := hre i x hx hd
      rw [restarts, hs] at hre'
      rw [restarts, hs', List.countP_append]
      rw [List.cons_append, List.countP_cons_of_neg (by simp [hnot])] at hre'
      exact fun h0 => hre' (Nat.eq_zero_of_add_eq_zero_left h0)
    · rw [hs] at hg
      cases hg
      exact absurd hgp (hf i)

/-- The same, with keys and rules as before. -/
theorem Removing.still (frames : List (Frame ν))
    (hr : Removing h sound e t key result (f :: above) queue cur)
    (hf : ∀ i, f.purpose? ≠ some (.resolution i))
    (hre : ∀ i x, e.core? i = some x → x.deconstructed = false → f.isRestartOf i = false)
    (hs' : e'.stack = frames ++ (above ++ removal t key queue result))
    (hfr : ∀ g ∈ frames, (∀ i, g.purpose? ≠ some (.resolution i)) ∧ ∃ l, cur = some l ∧ TurnOf sound e t l g)
    (hc : ∀ i, e'.core? i = e.core? i) (hst : Still e e') :
    Removing h sound e' t key result (frames ++ above) queue cur := by
  refine hr.unmoved frames hf hre hs' (fun g hg => ⟨(hfr g hg).1, ?_⟩) hc
    (fun s => by rw [hst.rulesOf]; exact List.Subset.refl _) fun i x _ _ _ hset => .inl (hset.still hc hst)
  obtain ⟨l, hl, htu⟩ := (hfr g hg).2
  exact ⟨l, hl, htu.unmoved hst hc⟩

/-- Between two turns nobody tries again. -/
theorem Removing.over (hr : Removing h sound e t key result [] queue cur) :
    Removing h sound e t key result [] queue none := by
  refine { hr.toFocused with stack := hr.stack, turns := by simp, ranked := hr.ranked.over,
                             settled := fun i x hx hd hdef => ?_ }
  refine (hr.settled i x hx hd hdef).imp id fun hq => .inl (hq.resolve_right ?_)
  rintro ⟨-, hre | ⟨-, g, rest, hg, hgp⟩⟩
  · simp [restarts, hr.stack, Frame.isRestartOf] at hre
  · rw [hr.stack] at hg
    cases hg
    cases hgp

/-- The next turn is for somebody who does not have the type. -/
theorem Removing.next (frames : List (Frame ν)) (hr : Removing h sound e t key result [] (l :: queue) none)
    (hrank : Ranked e t queue cur)
    (hl : ∀ i, l ≠ .reference i ∨
      ∀ x, e.core? i = some x → x.deconstructed = false → x.state.type? ≠ some t)
    (hs' : e'.stack = frames ++ removal t key queue result)
    (hfr : ∀ g ∈ frames, (∀ i, g.purpose? ≠ some (.resolution i)) ∧ ∃ l, cur = some l ∧ TurnOf sound e' t l g)
    (hc : ∀ i, e'.core? i = e.core? i) (hst : Still e e') :
    Removing h sound e' t key result frames queue cur := by
  have hfo : Focused h e' := by
    refine hr.toFocused.unmoved (frames ++ [.graphPass (.removedType t key) queue]) hr.stack
      (by simpa using hs') fun g hg => ?_
    rcases List.mem_append.1 hg with hg | hg
    · exact (hfr g hg).1
    · rw [List.mem_singleton.1 hg]
      simp [Frame.purpose?]
  refine { hfo with stack := hs', turns := fun g hg => (hfr g hg).2, ranked := hrank.congr hc,
                    settled := fun i x hx hd hdef => ?_ }
  rw [hc] at hx
  rcases hr.settled i x hx hd hdef with hset | hq | ⟨hcur, -⟩
  · exact .inl (hset.still hc hst)
  · exact .inr (.inl ((hq.tail (hl i)).congr hc))
  · cases hcur

/-- The next turn is for a reference that has the type: it loses it, and its readers are in the queue. -/
theorem Removing.lose {watch : Nat} {x : Reference ν} (hg : Grounded h sound e)
    (hr : Removing h sound e t key result [] (.reference r :: queue) none)
    (hl : Lost (e.withStack (removal t key queue result)) r t x watch e')
    (hst : Still e e') :
    Removing h sound e' t key result
      [.referencePass r (.invalidated (some t)) (x.listeners.map .observer), .restart r] queue
      (some (.reference r)) := by
  have hx : e.references[r]? = some x := hl.found
  have hre : Restated e r x.core (.unresolved none) e' := restated_setState hx hl.references
  have htx : x.core.state.type? = some t := congrArg ReferenceState.type? hl.watching
  have hdx : x.core.deconstructed = false :=
    (hg.lively.of_subscribed hx (by rw [hl.watching]; rfl)).1
  have hself : Queued e t (.reference r :: queue) r := ⟨_, core?_eq hx, hdx, htx, List.mem_cons_self⟩
  have tail : ∀ {i}, i ≠ r → Queued e t (.reference r :: queue) i → Queued e' t queue i :=
    fun hi hq => (hre.queued hi).2 (hq.tail (.inl fun h => hi (GraphListener.reference.inj h).symm))
  have hfo : Focused h e' := by
    refine hr.toFocused.unmoved [.referencePass r (.invalidated (some t)) (x.listeners.map .observer),
      .restart r, .graphPass (.removedType t key) queue] hr.stack hl.stack ?_
    simp [Frame.purpose?]
  refine { hfo with stack := hl.stack, turns := fun g hgm => ⟨_, rfl, ?_⟩,
                    ranked := hr.ranked.lose hg.tied hre hdx htx, settled := fun i y hy hd hdef => ?_ }
  · simp only [List.mem_cons, List.not_mem_nil, or_false] at hgm
    rcases hgm with rfl | rfl
    · exact .told (by simp)
    · exact .restart
  · by_cases hi : i = r
    · subst hi
      refine .inr (.inr ⟨rfl, .inl ?_⟩)
      simp [restarts, hl.stack, Frame.isRestartOf]
    · have hy := hre.other hi hy
      rcases hr.settled i y hy hd hdef with hset | hq | ⟨hcur, -⟩
      · by_cases hsrc : y.selector.source? = some r
        · -- it is not told of the loss, but it has the type as well and will hear of the removal
          exact .inr (.inl (tail hi (hr.ranked.follows i r y hy hd hsrc (.inl hself))))
        · exact .inl (hre.settled hst hset hsrc)
      · exact .inr (.inl (tail hi hq))
      · cases hcur

/-- Nobody tries again but the reference that has its turn. -/
theorem Removing.others {i : ReferenceId}
    (hr : Removing h sound e t key result above queue (some (.reference r))) (hi : i ≠ r)
    (hx : e.core? i = some x) (hd : x.deconstructed = false) (hdef : Clear sound x) :
    Settled h e x ∨ Queued e t queue i := by
  refine (hr.settled i x hx hd hdef).imp id fun hq => hq.resolve_right ?_
  rintro ⟨hcur, -⟩
  cases hcur
  exact hi rfl

/-- A reference without a type begins to wait, and searches. -/
theorem Removing.search {subs : Subscriptions}
    (hr : Removing h sound e t key result (.restart r :: above) queue (some (.reference r)))
    (hx : x.state = .unresolved none) (hre : Restated e r x (.unresolved (some subs)) e') (hst : Still e e')
    (hs' : e'.stack = above ++ removal t key queue result) :
    ∃ f, Removing h sound (e'.attempt r) t key result (f :: above) queue (some (.reference r)) := by
  have alike : Alike x { x with state := .unresolved (some subs) } := by
    constructor <;> simp [hx, ReferenceState.type?, ReferenceState.watch?]
  have back : ∀ i y', e'.core? i = some y' → ∃ y, e.core? i = some y ∧ Alike y y' := by
    intro i y' hy'
    by_cases hi : i = r
    · subst hi
      cases hre.self.symm.trans hy'
      exact ⟨x, hre.found, alike⟩
    · exact ⟨y', hre.other hi hy', .refl y'⟩
  have forth : ∀ i y, e.core? i = some y → ∃ y', e'.core? i = some y' ∧ Alike y y' := by
    intro i y hy
    by_cases hi : i = r
    · subst hi
      cases hre.found.symm.trans hy
      exact ⟨_, hre.self, alike⟩
    · exact ⟨y, by rw [hre.core, if_neg hi]; exact hy, .refl y⟩
  have htype : ∀ i, e'.typeOf? i = e.typeOf? i := by
    intro i
    by_cases hi : i = r
    · subst hi
      rw [typeOf?_eq_core, typeOf?_eq_core, hre.self, hre.found]
      exact alike.type
    · exact hre.typeOf? hi
  have hfo : Focused h (e'.attempt r) := by
    refine .attempt hre.self rfl fun g hg => ?_
    rw [hs'] at hg
    exact hr.below g (by rw [hr.stack]; exact hg)
  rw [attempt_eq hre.self rfl, hs'] at hfo ⊢
  refine ⟨_, { hfo with stack := rfl, turns := fun g hg => ⟨_, rfl, ?_⟩,
                        ranked := (hr.ranked.alike back forth).congr fun _ => rfl,
                        settled := fun i y hy hd hdef => ?_ }⟩
  · rcases List.mem_cons.1 hg with rfl | hg
    · exact .seeking rfl
    · obtain ⟨l, hl, htu⟩ := hr.turns g (List.mem_cons_of_mem _ hg)
      cases hl
      refine htu.still (hst.trans (.of_eq rfl rfl)) fun i y hy => ?_
      obtain ⟨y', hy', hal⟩ := forth i y hy
      exact ⟨y', hy', hal.selector⟩
  · by_cases hi : i = r
    · subst hi
      cases hre.self.symm.trans hy
      exact .inr (.inr ⟨rfl, .inr ⟨rfl, _, _, rfl, rfl⟩⟩)
    · rcases hr.others hi (hre.other hi hy) hd hdef with hset | hq
      · exact .inl (Eq.trans hset (hst.find? h fun source _ => htype source).symm)
      · exact .inr (.inl ((hre.queued hi).2 hq))

/-- A reference that has lost its type starts over, unless it has been deconstructed. -/
theorem Removing.restart (hg : Grounded h sound e)
    (hr : Removing h sound e t key result (.restart r :: above) queue cur) :
    ∃ above', Removing h sound ((e.withStack (above ++ removal t key queue result)).startResolving r) t key
      result above' queue cur := by
  rcases startResolving_cases (e.withStack (above ++ removal t key queue result)) r
    with ⟨heq, hno⟩ | ⟨y, hy, hdy, heq⟩
  · rw [heq]
    refine ⟨[] ++ above, hr.still [] (by simp [Frame.purpose?]) (fun i x hx hd => ?_) rfl (by simp)
      (fun _ => rfl) (.of_eq rfl rfl)⟩
    by_contra hi
    have hi : r = i := by simpa [Frame.isRestartOf] using hi
    subst hi
    obtain ⟨y, hy, rfl⟩ := Option.map_eq_some_iff.1 hx
    have hd : y.deconstructed = false := hd
    rw [hno y hy] at hd
    cases hd
  · have hy : e.references[r]? = some y := hy
    have hcur : cur = some (.reference r) := by
      obtain ⟨l, hl, htu⟩ := hr.turns _ List.mem_cons_self
      cases htu with
      | restart => exact hl
      | seeking hp => cases hp
    subst hcur
    have h1 : e.restarts r ≠ 0 := by simp [restarts, hr.stack, Frame.isRestartOf]
    have hstate : y.core.state = .unresolved none := (hg.lively.of_restart hy hdy h1).1
    have hre : Restated e r y.core (.unresolved (some ⟨e.listeners.nextId, e.nextRuleId y.system⟩))
        ((e.withStack (above ++ removal t key queue result)).subscribe r y.system) :=
      restated_setState hy rfl
    rw [heq]
    obtain ⟨f, hr'⟩ := hr.search hstate hre (.of_modify rfl rfl fun _ => rfl) rfl
    exact ⟨_, hr'⟩

/-- The search of the reference that has its turn goes on. -/
theorem Removing.onward (hr : Removing h sound e t key result (f :: above) queue (some (.reference r)))
    (hp : f.purpose? = some (.resolution r))
    (hs' : e'.stack = f' :: (above ++ removal t key queue result))
    (hp' : f'.purpose? = some (.resolution r)) (hc : ∀ i, e'.core? i = e.core? i) (hst : Still e e')
    (hv : ∀ v, h.verdict? e f = some v → h.verdict? e' f' = some v) :
    Removing h sound e' t key result (f' :: above) queue (some (.reference r)) := by
  obtain ⟨x, hx, hpend, -⟩ := hr.seeking f _ r hr.stack hp
  refine { hr.toFocused.onward hr.stack hp hs' hp' hc hst hv with
           stack := hs', turns := fun g hg => ?_, ranked := hr.ranked.congr hc,
           settled := fun i y hy hd hdef => ?_ }
  · rcases List.mem_cons.1 hg with rfl | hg
    · exact ⟨_, rfl, .seeking hp'⟩
    · obtain ⟨l, hl, htu⟩ := hr.turns g (List.mem_cons_of_mem _ hg)
      exact ⟨l, hl, htu.unmoved hst hc⟩
  · rw [hc] at hy
    by_cases hi : i = r
    · subst hi
      cases hx.symm.trans hy
      exact .inr (.inr ⟨rfl, .inr ⟨hpend, _, _, hs', hp'⟩⟩)
    · rcases hr.others hi hy hd hdef with hset | hq
      · exact .inl (hset.still hc hst)
      · exact .inr (.inl (hq.congr hc))

/-- The search of the reference that has its turn finds nothing, and nothing is what its selector gives. -/
theorem Removing.nothing (hr : Removing h sound e t key result (f :: above) queue (some (.reference r)))
    (hp : f.purpose? = some (.resolution r))
    (hs' : e'.stack = above ++ removal t key queue result)
    (hc : ∀ i, e'.core? i = e.core? i) (hst : Still e e')
    (hv : ∀ v, h.verdict? e f = some v → v = none) :
    Removing h sound e' t key result above queue (some (.reference r)) := by
  obtain ⟨x, hx, hpend, hverdict⟩ := hr.seeking f _ r hr.stack hp
  refine { hr.toFocused.unmoved [] hr.stack hs' (by simp) with
           stack := hs', turns := fun g hg => ?_, ranked := hr.ranked.congr hc,
           settled := fun i y hy hd hdef => ?_ }
  · obtain ⟨l, hl, htu⟩ := hr.turns g (List.mem_cons_of_mem _ hg)
    exact ⟨l, hl, htu.unmoved hst hc⟩
  · rw [hc] at hy
    by_cases hi : i = r
    · subst hi
      cases hx.symm.trans hy
      left
      rw [Settled, hst.find?_of_core h hc, type?_of_isPending hpend]
      exact (hv _ (hverdict hdef.undeferred)).symm
    · rcases hr.others hi hy hd hdef with hset | hq
      · exact .inl (hset.still hc hst)
      · exact .inr (.inl (hq.congr hc))

/-- The search of the reference that has its turn finds what its selector gives. Who reads it is still in
the queue. -/
theorem Removing.found {t' : Ty} {subs : Subscriptions} {x : Reference ν} (hg : Grounded h sound e)
    (hr : Removing h sound e t key result (f :: above) queue (some (.reference r)))
    (hp : f.purpose? = some (.resolution r))
    (htk : Taken (e.withStack (above ++ removal t key queue result)) r t' x subs e')
    (hst : Still e e') (hv : ∀ v, h.verdict? e f = some v → v = some t') :
    ∃ f', Removing h sound e' t key result (f' :: above) queue (some (.reference r)) := by
  obtain ⟨x₀, hx, hpend, hverdict⟩ := hr.seeking f _ r hr.stack hp
  have hxr : e.references[r]? = some x := htk.found
  cases hx.symm.trans (core?_eq hxr)
  have hre : Restated e r x.core (.resolved t' (some e.listeners.nextId)) e' :=
    restated_setState hxr htk.references
  have hlive : x.core.deconstructed = false := hg.lively.of_pending hx hpend
  have hs' : e'.stack = .referencePass r (.resolved t')
      (x.listeners.map .observer ++ x.dependents.map .dependent) ::
      (above ++ removal t key queue result) := htk.stack
  have selector : ∀ i y, e.core? i = some y → ∃ y', e'.core? i = some y' ∧ y'.selector = y.selector := by
    intro i y hy
    by_cases hi : i = r
    · subst hi
      cases hre.found.symm.trans hy
      exact ⟨_, hre.self, rfl⟩
    · exact ⟨y, by rw [hre.core, if_neg hi]; exact hy, rfl⟩
  have hfo : Focused h e' := hr.toFocused.unmoved [_] hr.stack hs' (by simp [Frame.purpose?])
  refine ⟨_, { hfo with
               stack := hs', turns := fun g hgm => ?_,
               ranked := hr.ranked.found hg.tied hg.subscribed hre hlive (type?_of_isPending hpend),
               settled := fun i y hy hd hdef => ?_ }⟩
  · rcases List.mem_cons.1 hgm with rfl | hgm
    · refine ⟨_, rfl, .told fun d hm => ?_⟩
      have hm : d ∈ x.dependents := by simpa using hm
      obtain ⟨y, hy, hsrc⟩ := hg.tied.reader hxr hm
      obtain ⟨y', hy', hsel⟩ := selector d y hy
      exact ⟨y', hy', hsel ▸ hsrc⟩
    · obtain ⟨l, hl, htu⟩ := hr.turns g (List.mem_cons_of_mem _ hgm)
      exact ⟨l, hl, htu.still hst selector⟩
  · by_cases hi : i = r
    · subst hi
      cases hre.self.symm.trans hy
      exact .inl (hre.settled_self hst hg.tied (hv _ (hverdict hdef.undeferred)))
    · have hy := hre.other hi hy
      by_cases hsrc : y.selector.source? = some r
      · exact .inr (.inl ((hre.queued hi).2 (hr.ranked.follows i r y hy hd hsrc (.inr rfl))))
      · rcases hr.others hi hy hd hdef with hset | hq
        · exact .inl (hre.settled hst hset hsrc)
        · exact .inr (.inl ((hre.queued hi).2 hq))

theorem Removing.evaluate (hg : Grounded h sound e) (hr : Removing h sound e t key result (f :: above) queue cur)
    (hp : f.purpose? = some (.resolution r))
    (hev : Evaluates h (.resolution r) e f (above ++ removal t key queue result) e') :
    ∃ above', Removing h sound e' t key result above' queue cur := by
  have hst := (Work.evaluate hp hev).still
  have hcur : cur = some (.reference r) := by
    obtain ⟨l, hl, htu⟩ := hr.turns f List.mem_cons_self
    rw [hl, htu.of_purpose hp]
  subst hcur
  cases hev with
  | onward hpl hs' hp' hv => exact ⟨_, hr.onward hp hs' hp' hpl.calm.core? hst hv⟩
  | nothing hpl hs' hv => exact ⟨_, hr.nothing hp hs' hpl.calm.core? hst hv⟩
  | @found t' hv =>
    rcases resolve_cases (e.withStack (above ++ removal t key queue result)) r t'
      with ⟨-, hno⟩ | ⟨x, subs, htk⟩
    · obtain ⟨x, hx, hpend, -⟩ := hr.seeking f _ r hr.stack hp
      obtain ⟨y, hy, rfl⟩ := Option.map_eq_some_iff.1 hx
      have hpend : y.isPending := hpend
      rw [hno y hy] at hpend
      cases hpend
    · obtain ⟨f', hr'⟩ := hr.found hg hp htk hst hv
      exact ⟨_, hr'⟩

/-- A system drops a rule that is bound to the type. Who had the type from the rule is in the queue, and
nobody else had anything from it. -/
theorem Removing.dropRule {s : SystemId} {id : RuleId} {ids : List RuleId} {y : System ν} {boundTo : Option Ty}
    (hg : Grounded h sound e)
    (hr : Removing h sound e t key result (.ruleRemoval s (id :: ids) :: above) queue (some (.system s)))
    (hb : sound s → ∀ id' ∈ id :: ids, ∀ rule ∈ e.rulesOf s, rule.id = id' → rule.boundTo = some t)
    (hy : e.systems[s]? = some y)
    (hchg : RulesChanged (e.withStack (.ruleRemoval s ids :: (above ++ removal t key queue result))) s
      (y.rules.remove id) (.removed id boundTo) e') :
    ∃ above', Removing h sound e' t key result above' queue (some (.system s)) := by
  obtain ⟨y', -, hs'⟩ := hchg.stack
  have hc : ∀ i, e'.core? i = e.core? i := hchg.core?
  have hown : e.rulesOf s = y.rules.rules := by rw [rulesOf, hy]
  have hself : e'.rulesOf s = (e.rulesOf s).eraseP (·.id = id) := by
    rw [hchg.rulesOf_self, hown]
    rfl
  have hrules : ∀ i, e'.rulesOf i ⊆ e.rulesOf i := by
    intro i
    by_cases hi : i = s
    · rw [hi, hself]
      exact List.eraseP_subset
    · rw [hchg.rulesOf_other hi]
      exact List.Subset.refl _
  refine ⟨_, hr.unmoved [_, .ruleRemoval s ids] (by simp [Frame.purpose?]) (fun _ _ _ _ => rfl) hs' ?_ hc
    hrules fun i x hx hd hdef hset => ?_⟩
  · intro g hgm
    simp only [List.mem_cons, List.not_mem_nil, or_false] at hgm
    rcases hgm with rfl | rfl
    · exact ⟨by simp [Frame.purpose?], _, rfl, .dropped⟩
    · exact ⟨by simp [Frame.purpose?], _, rfl, .dropping fun hs id' hm rule hrule =>
        hb hs id' (List.mem_cons_of_mem _ hm) rule (hrules s hrule)⟩
  · rcases hchg.find? h x.system x.selector with ⟨n, hsel, rfl⟩ | hfind
    · have hinfer : x.state.type? = h.inferFrom n (e.rulesOf x.system) := by
        rw [hset, hsel]
        rfl
      -- a rule bound to the type gives nothing else, so it matters only to those who have the type
      by_cases ht : x.state.type? = some t
      · exact .inr ⟨x, hx, hd, ht, hr.ranked.hears i x hx hd ht List.mem_cons_self⟩
      · left
        have honest := hg.honest x.system y.rules (by simp [ruleSet?, hy])
        have hsame : h.inferFrom n ((e.rulesOf x.system).eraseP (·.id = id)) =
            h.inferFrom n (e.rulesOf x.system) := by
          refine h.inferFrom_eraseP n _ _ (fun rule hrule hid => ?_) (hinfer ▸ ht)
          have hid : rule.id = id := by simpa using hid
          exact honest rule (hown ▸ hrule) t (hb (hdef.inferred n hsel) id List.mem_cons_self rule hrule hid) n
        rw [Settled, hinfer, hsel]
        simp only [Host.find?, hself, hsame]
    · exact .inl (Eq.trans hset hfind.symm)

theorem Removing.removeRule {s : SystemId} {id : RuleId} {ids : List RuleId} (hg : Grounded h sound e)
    (hr : Removing h sound e t key result (.ruleRemoval s (id :: ids) :: above) queue cur) :
    ∃ above', Removing h sound ((e.withStack (.ruleRemoval s ids ::
      (above ++ removal t key queue result))).removeRule s id) t key result above' queue cur := by
  obtain ⟨hcur, hb⟩ : cur = some (.system s) ∧
      (sound s → ∀ id' ∈ id :: ids, ∀ rule ∈ e.rulesOf s, rule.id = id' → rule.boundTo = some t) := by
    obtain ⟨l, hl, htu⟩ := hr.turns _ List.mem_cons_self
    cases htu with
    | dropping hb => exact ⟨hl, hb⟩
    | seeking hp => cases hp
  subst hcur
  rcases removeRule_cases (e.withStack (.ruleRemoval s ids :: (above ++ removal t key queue result))) s id
    with heq | ⟨y, rule, hy, -, hchg⟩
  · rw [heq]
    refine ⟨_, hr.still [.ruleRemoval s ids] (by simp [Frame.purpose?]) (fun _ _ _ _ => rfl) rfl ?_
      (fun _ => rfl) (.of_eq rfl rfl)⟩
    intro g hgm
    rw [List.mem_singleton.1 hgm]
    exact ⟨by simp [Frame.purpose?], _, rfl, .dropping fun hs id' hm => hb hs id' (List.mem_cons_of_mem _ hm)⟩
  · exact hr.dropRule hg hb hy hchg

/-- The turn of a system begins. -/
theorem Removing.drop {s : SystemId} {y : System ν} (hg : Grounded h sound e)
    (hr : Removing h sound e t key result [] (.system s :: queue) none) (hy : e.systems[s]? = some y) :
    Removing h sound (e.withStack (.ruleRemoval s (y.rules.boundTo t) :: removal t key queue result)) t key result
      [.ruleRemoval s (y.rules.boundTo t)] queue (some (.system s)) := by
  have hl : ∀ i, GraphListener.system s ≠ .reference i := by simp
  refine hr.next [_] (hr.ranked.turn hl) (fun i => .inl (hl i)) rfl (fun g hgm => ?_) (fun _ => rfl)
    (.of_eq rfl rfl)
  rw [List.mem_singleton.1 hgm]
  have hown : e.rulesOf s = y.rules.rules := by rw [rulesOf, hy]
  refine ⟨by simp [Frame.purpose?], _, rfl, .dropping fun hs id hid rule hrule => ?_⟩
  have hdistinct : y.rules.Distinct := hg.distinct s hs y.rules (by simp [ruleSet?, hy])
  exact hdistinct.of_boundTo hid (hown ▸ hrule)

/-- The turn of a reference begins. -/
theorem Removing.invalidate (hg : Grounded h sound e)
    (hr : Removing h sound e t key result [] (.reference r :: queue) none) :
    ∃ above' cur', Removing h sound ((e.withStack (removal t key queue result)).invalidate r t) t key result above'
      queue cur' := by
  have hst := (Still.withStack e (removal t key queue result)).trans (.invalidate _ r t)
  rcases invalidate_cases (e.withStack (removal t key queue result)) r t with ⟨heq, hno⟩ | ⟨x, watch, hl⟩
  · have off : ∀ i, GraphListener.reference r ≠ .reference i ∨
        ∀ x, e.core? i = some x → x.deconstructed = false → x.state.type? ≠ some t := by
      intro i
      by_cases hi : r = i
      · subst hi
        refine .inr fun x hx hd ht => ?_
        obtain ⟨y, hy, rfl⟩ := Option.map_eq_some_iff.1 hx
        obtain ⟨watch, hw⟩ := hg.lively.watching hy hd ht
        exact hno y hy watch hw
      · exact .inl fun h => hi (GraphListener.reference.inj h)
    rw [heq]
    exact ⟨[], none, hr.next [] (hr.ranked.next off) off rfl (by simp) (fun _ => rfl) (.of_eq rfl rfl)⟩
  · exact ⟨_, _, hr.lose hg hl hst⟩

/-- Who reads the reference that has its turn does not wait for it. -/
theorem Removing.not_waiting {d : ReferenceId} (hg : Grounded h sound e)
    (hr : Removing h sound e t key result above queue (some (.reference r))) (hx : e.core? d = some x)
    (hs : x.selector.source? = some r) : x.isPending = false := by
  by_contra hp
  have hp : x.isPending := by simpa using hp
  obtain ⟨y, hy, -, ht, -⟩ := hr.ranked.follows d r x hx (hg.lively.of_pending hx hp) hs (.inr rfl)
  cases hx.symm.trans hy
  rw [type?_of_isPending hp] at ht
  cases ht

/-- Work in a turn. -/
theorem Removing.work (hg : Grounded h sound e) (hr : Removing h sound e t key result (f :: above) queue cur)
    (hw : Work h e f (above ++ removal t key queue result) e') :
    ∃ above', Removing h sound e' t key result above' queue cur := by
  have hst := hw.still
  obtain ⟨l, rfl, htu⟩ := hr.turns f List.mem_cons_self
  cases hw with
  | pop ho =>
    refine ⟨_, hr.still [] (by simp [Frame.purpose?_of_isOver ho]) (fun i _ _ _ => ?_) rfl (by simp)
      (fun _ => rfl) hst⟩
    exact Frame.isRestartOf_of_isSpent (Frame.isSpent_of_isOver ho) i
  | aside hpl hno hpu =>
    cases htu with
    | telling => cases hno
    | dropping => cases hpl
    | dropped => cases hpl
    | told => cases hpl
    | restart => cases hpl
    | seeking hp => exact absurd hp (hpu _)
  | @pass f' hsk =>
    refine ⟨_, hr.still [f'] (by simp [hsk.purpose?.1]) (fun i _ _ _ => (hsk.isRestartOf i).1) rfl ?_
      (fun _ => rfl) hst⟩
    intro g hgm
    rw [List.mem_singleton.1 hgm]
    exact ⟨by simp [hsk.purpose?.2], l, rfl, htu.skips hsk⟩
  | @tell f' o notice hsk =>
    refine ⟨_, hr.still [.telling o notice, f'] (by simp [hsk.purpose?.1])
      (fun i _ _ _ => (hsk.isRestartOf i).1) (push_stack _ _) ?_ (fun i => ?_) hst⟩
    · intro g hgm
      simp only [List.mem_cons, List.not_mem_nil, or_false] at hgm
      rcases hgm with rfl | rfl
      · exact ⟨by simp [Frame.purpose?], l, rfl, .telling⟩
      · exact ⟨by simp [hsk.purpose?.2], l, rfl, htu.skips hsk⟩
    · rw [core?, push_references]
      rfl
  | @attempt f' d hcl =>
    cases hcl with
    | graph =>
      cases htu with
      | seeking hp => cases hp
    | rules =>
      cases htu with
      | seeking hp => cases hp
    | @source r t' queue' d =>
      cases htu with
      | seeking hp => cases hp
      | told hd =>
        -- whom the reference tells still has the type that leaves, so the call does nothing
        obtain ⟨x, hx, hs⟩ := hd d List.mem_cons_self
        have hno := hr.not_waiting hg hx hs
        rw [attempt_eq_self fun y hy => by cases hx.symm.trans hy; exact hno]
        refine ⟨_, hr.still [.referencePass r (.resolved t') queue'] (by simp [Frame.purpose?])
          (fun i _ _ _ => rfl) rfl ?_ (fun _ => rfl) (.of_eq rfl rfl)⟩
        intro g hgm
        rw [List.mem_singleton.1 hgm]
        exact ⟨by simp [Frame.purpose?], _, rfl, .told fun d hm => hd d (List.mem_cons_of_mem _ hm)⟩
  | evaluate hp hev => exact hr.evaluate hg hp hev

/-- Between two turns, work is the turn of an observer, or of a system that is not there. -/
theorem Removing.pass {queue' : List GraphListener}
    (hr : Removing h sound e t key result [] queue none)
    (hsk : (Frame.graphPass (.removedType t key) queue : Frame ν).Skips
      (.graphPass (.removedType t key) queue')) :
    (Removing h sound (e.withStack (removal t key queue' result)) t key result [] queue' none) ∧
    ∀ o notice, ∃ l, Removing h sound ((e.withStack (removal t key queue' result)).push (.telling o notice)) t key
      result [.telling o notice] queue' (some l) := by
  cases hsk with
  | @graph _ l _ hl =>
    have hl : ∀ i, l ≠ .reference i := fun i h => (hl i t key h).2 rfl
    have hl' : ∀ i, l ≠ .reference i ∨
      ∀ x, e.core? i = some x → x.deconstructed = false → x.state.type? ≠ some t := fun i => .inl (hl i)
    refine ⟨hr.next [] (hr.ranked.next hl') hl' rfl (by simp) (fun _ => rfl) (.of_eq rfl rfl),
      fun o notice => ⟨l, hr.next [_] (hr.ranked.turn hl) hl' (push_stack _ _) (fun g hgm => ?_) (fun i => ?_)
        (.of_eq (push_graph _ _) (push_systems _ _))⟩⟩
    · rw [List.mem_singleton.1 hgm]
      exact ⟨by simp [Frame.purpose?], l, rfl, .telling⟩
    · rw [core?, push_references]
      rfl

/-- When everybody has had its turn, every reference has what its selector gives. -/
theorem Removing.finish (hg : Grounded h sound e) (hr : Removing h sound e t key result [] [] none) :
    Tended h sound (e.withStack [.deliver result]) := by
  have empty : ∀ i, ¬ Queued e t [] i := by
    rintro i ⟨x, -, -, -, hm⟩
    cases hm
  refine .of_call ?_ (fun i x hx hd hdef => .inl ?_) fun i source x y w w' hx hy hs hw hw' => ?_
  · simp [Frame.purpose?, Frame.isRestartOf]
  · rcases hr.settled i x hx hd hdef with hset | hq | ⟨hcur, -⟩
    · exact hset
    · exact absurd hq (empty i)
    · cases hcur
  · exact (hr.ranked.newer i source x y w w' hx (hg.lively.of_watch hx hw) hy hs hw hw').resolve_right
      (empty i)

end Removing

section Start

variable {h : Host ν} {sound : SystemId → Prop} {e e' : Engine ν} {t : Ty} {key : String}
  {result : Result ν} {r : ReferenceId}
  {x : Reference ν}

/-- All that a reference with a type has among the listeners of the graph is its watch. -/
theorem Grounded.watch (hg : Grounded h sound e) (hx : e.core? r = some x) (hd : x.deconstructed = false)
    (ht : x.state.type? = some t) : ∃ w, x.state.watch? = some w ∧
      e.listeners.held (.reference r) = [⟨w, some t, .reference r⟩] := by
  obtain ⟨y, hy, rfl⟩ := Option.map_eq_some_iff.1 hx
  obtain ⟨w, hst⟩ := hg.lively.watching hy hd ht
  refine ⟨w, congrArg ReferenceState.watch? hst, ?_⟩
  rw [hg.subscribed.held, core?_eq hy]
  exact congrArg (ReferenceState.graphEntries r) hst

/-- Who has the type is among those who will hear that it is gone. -/
theorem Grounded.queued (hg : Grounded h sound e) (hc : ∀ i, e'.core? i = e.core? i) (hx : e.core? r = some x)
    (hd : x.deconstructed = false) (ht : x.state.type? = some t) :
    Queued e' t (e.hearers t) r := by
  obtain ⟨w, -, hheld⟩ := hg.watch hx hd ht
  have hm : (⟨w, some t, .reference r⟩ : Entry (Option Ty) GraphListener) ∈
      e.listeners.held (.reference r) := by simp [hheld]
  exact ⟨x, (hc r).trans hx, hd, ht,
    Registry.mem_listeners.2 ⟨_, (Registry.mem_held.1 hm).1, rfl, rfl, by simp⟩⟩

/-- Who has the type hears that it is gone after its system, and after what it reads. -/
theorem Tended.before {b : GraphListener} (ht : Tended h sound e) (hg : Grounded h sound e)
    (hset : ∀ r x, e.core? r = some x → x.deconstructed = false → Clear sound x →
      Settled h e x)
    (hx : e.core? r = some x) (hd : x.deconstructed = false) (htx : x.state.type? = some t)
    (hb : Precedes e x b) : Before (e.hearers t) b (.reference r) := by
  refine before_of_older hg.subscribed.graph fun z hz z' hz' => ?_
  cases hb with
  | system =>
    rw [hg.listed.held, Option.mem_toList] at hz
    obtain ⟨id, hid, rfl⟩ := Option.map_eq_some_iff.1 hz
    exact hg.listed.older r x id hx hid z' hz'
  | @source source y hs hy hdy =>
    have hty : y.state.type? = some t := by
      rw [← htx, hset r x hx hd (.of_source hs), find?_of_source _ hs, typeOf?_eq_core, hy]
      rfl
    obtain ⟨w, hw, hheld⟩ := hg.watch hx hd htx
    obtain ⟨w', hw', hheld'⟩ := hg.watch hy hdy hty
    rw [hheld', List.mem_singleton] at hz
    rw [hheld, List.mem_singleton] at hz'
    rw [hz, hz']
    exact ht.newer r source x y w w' hx hy hs hw hw'

/-- A type is taken from its key. Who has it by the key, or from one who has it, will hear of that. -/
theorem Tended.removeNode (ht : Tended h sound e) (hg : Grounded h sound e)
    (hs : e.stack = [.typeRemoval t key [], .deliver result]) (hk : e.graph.get? key = some t)
    (hrem : NodeRemoved (e.withStack [.deliver result]) t key e') :
    Removing h sound e' t key result [] (e.hearers t) none := by
  have hset : ∀ r x, e.core? r = some x → x.deconstructed = false → Clear sound x →
      Settled h e x := by
    intro r x hx hd hdef
    refine ht.unsummoned ?_ ?_ hx hd hdef
    · simp [summoned, hs, Frame.summons]
    · rintro ⟨f, rest, hf, hp⟩
      rw [hs] at hf
      cases hf
      cases hp
  have hc : ∀ i, e'.core? i = e.core? i := fun i => by rw [core?, hrem.references]; rfl
  have hrules : ∀ s, e'.rulesOf s = e.rulesOf s := fun s => by rw [rulesOf, hrem.systems]; rfl
  have hs' := hrem.stack
  have hfo : Focused h e' := by
    refine ht.toFocused.unmoved [_] hs hs' (by simp [Frame.purpose?])
  have back : ∀ {i queue}, Queued e' t queue i → ∃ x, e.core? i = some x ∧ x.state.type? = some t := by
    rintro i queue ⟨x, hx, -, htx, -⟩
    exact ⟨x, hc i ▸ hx, htx⟩
  refine { hfo with stack := hs', turns := by simp,
                    ranked := ⟨fun i x b hx hd htx hb => ?_, fun i x hx hd htx _ => ?_,
                      fun i source x hx hd hsrc hq => ?_,
                      fun i source x y w w' hx _ hy hsrc hw hw' => .inl ?_⟩,
                    settled := fun i x hx hd hdef => ?_ }
  · rw [hc] at hx
    exact ht.before hg hset hx hd (htx.resolve_right (by simp))
      (hb.congr rfl rfl fun i y hy => ⟨y, hc i ▸ hy, rfl⟩)
  · rw [hc] at hx
    obtain ⟨-, -, -, -, hm⟩ := hg.queued hc hx hd htx
    exact hm
  · rw [hc] at hx
    obtain ⟨y, hy, hty⟩ := back (hq.resolve_right (by simp))
    refine hg.queued hc hx hd ?_
    rw [hset i x hx hd (.of_source hsrc), find?_of_source _ hsrc, typeOf?_eq_core, hy]
    exact hty
  · rw [hc] at hx hy
    exact ht.newer i source x y w w' hx hy hsrc hw hw'
  · rw [hc] at hx
    have hold := hset i x hx hd hdef
    -- only the key that was freed gives something else now
    by_cases hsel : x.selector = .identifier key
    · refine .inr (.inl (hg.queued hc hx hd ?_))
      rw [hold, hsel]
      exact hk
    · left
      rw [Settled, hold]
      cases hx' : x.selector with
      | identifier k =>
        have hne : k ≠ key := by
          rintro rfl
          exact hsel hx'
        simp only [Host.find?, hrem.graph, Graph.get?_freeKey, if_neg hne]
      | type t' => rfl
      | initializer i => rfl
      | reference source => exact (typeOf?_of_core hc source).symm
      | deferred d => rfl
      | node n => simp only [Host.find?, hrules]

end Start

end Engine
end LiveTypes
