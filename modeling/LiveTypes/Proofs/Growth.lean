import LiveTypes.Proofs.Ground
import LiveTypes.Proofs.Queues

/-!
# While no type leaves

As long as types and rules only come, a reference either has what its selector gives, or it waits, and a
pass has it in its queue, or its search is the next thing to be done. `Engine.Tended` says so, and every
piece of work that takes no type from anybody keeps it.
-/
namespace LiveTypes

variable {ν : Type}

/-- The number under which a reference in this state watches for the removal of its type. -/
def ReferenceState.watch? : ReferenceState → Option Nat
  | .resolved _ watch => watch
  | .unresolved _ => none

namespace Frame

/-- Whether a pass still has to make a reference try. -/
def summons (r : ReferenceId) : Frame ν → Bool
  | .graphPass (.addedType _ _) queue => queue.contains (.reference r)
  | .rulePass _ (.added _ _) queue => queue.contains (.reference r)
  | .referencePass _ (.resolved _) queue => queue.contains (.dependent r)
  | _ => false

theorem summons_of_isSpent {f : Frame ν} (h : f.isSpent) (r : ReferenceId) : f.summons r = false := by
  unfold summons
  split
  · rename_i queue
    cases queue with
    | nil => rfl
    | cons => cases h
  · rename_i queue
    cases queue with
    | nil => rfl
    | cons => cases h
  · rename_i queue
    cases queue with
    | nil => rfl
    | cons => cases h
  · rfl

theorem isSpent_of_isOver {f : Frame ν} (h : f.isOver) : f.isSpent := by
  cases f <;> simp_all [isOver, isSpent]

theorem isSpent_of_isPlain {f : Frame ν} (h : f.isPlain) : f.isSpent := by
  cases f <;> simp_all [isPlain, isSpent]

theorem purpose?_of_isOver {f : Frame ν} (h : f.isOver) : f.purpose? = none := by
  cases f <;> simp_all [isOver, purpose?]

theorem Skips.summons {f f' : Frame ν} (h : f.Skips f') (r : ReferenceId) :
    f'.summons r = f.summons r := by
  cases h with
  | @graph event l queue hl =>
    cases event with
    | addedType t key =>
      have hne : GraphListener.reference r ≠ l := fun h => (hl r t key h.symm).1 rfl
      simp [Frame.summons, hne]
    | removedType => rfl
    | addedEdge => rfl
    | removedEdge => rfl
  | @rules s event l queue hl =>
    cases event with
    | added id boundTo =>
      have hne : RuleListener.reference r ≠ l := fun h => hl r id boundTo h.symm rfl
      simp [Frame.summons, hne]
    | removed => rfl
  | @reference r' event l queue hl =>
    cases event with
    | resolved t =>
      have hne : ReferenceListener.dependent r ≠ l := fun h => hl r t h.symm rfl
      simp [Frame.summons, hne]
    | invalidated => rfl

/-- Whether a frame may be there while no type leaves. -/
def grows : Frame ν → Bool
  | .graphPass (.removedType _ _) _ => false
  | .typeRemoval _ _ _ => false
  | .ruleRemoval _ _ => false
  | .restart _ => false
  | _ => true

theorem grows_of_isPlain {f : Frame ν} (h : f.isPlain) : f.grows := by
  cases f <;> simp_all [isPlain, grows]

theorem grows_of_purpose {f : Frame ν} {purpose : Purpose} (h : f.purpose? = some purpose) : f.grows := by
  cases f <;> simp_all [purpose?, grows]

theorem isRestartOf_of_grows {f : Frame ν} (h : f.grows) (r : ReferenceId) :
    f.isRestartOf r = false := by
  cases f <;> simp_all [grows, isRestartOf]

theorem Skips.grows {f f' : Frame ν} (h : f.Skips f') : f'.grows = f.grows := by
  cases h with
  | @graph event => cases event <;> rfl
  | rules => rfl
  | reference => rfl

theorem Calls.grows {f f' : Frame ν} {d : ReferenceId} (h : f.Calls f' d) : f'.grows := by
  cases h <;> rfl

/-- Whoever is not the one called now is still to be called. -/
theorem Calls.summons {f f' : Frame ν} {d r : ReferenceId} (h : f.Calls f' d) (hr : r ≠ d) :
    f'.summons r = f.summons r := by
  cases h <;> simp [Frame.summons, hr]

end Frame

namespace Engine

/-- Whether a pass still has to make a reference try. -/
def summoned (e : Engine ν) (r : ReferenceId) : Bool := e.stack.any (·.summons r)

/-- A reference has what its selector gives. -/
def Settled (h : Host ν) (e : Engine ν) (x : Reference ν) : Prop :=
  x.state.type? = h.find? e x.system x.selector

/-- Only the next thing to be done can be the search of a reference, and it is for one that waits. What it
will find is what the selector gives now. -/
structure Focused (h : Host ν) (e : Engine ν) : Prop where
  below : ∀ f ∈ e.stack.tail, ∀ r, f.purpose? ≠ some (.resolution r)
  seeking : ∀ (f : Frame ν) (rest : List (Frame ν)) (r : ReferenceId), e.stack = f :: rest →
    f.purpose? = some (.resolution r) → ∃ x, e.core? r = some x ∧ x.isPending ∧
      (x.selector.isDeferred = false → h.verdict? e f = some (h.find? e x.system x.selector))

/-- Whether it can be said what a reference should have: its selector is not deferred, and if it is a
value, the system that infers its type is `sound`. -/
structure Clear (sound : SystemId → Prop) (x : Reference ν) : Prop where
  undeferred : x.selector.isDeferred = false
  inferred : ∀ n, x.selector = .node n → sound x.system

/-- Every reference has what its selector gives, or will try again; who reads another came to its type
after that one. -/
structure Tended (h : Host ν) (sound : SystemId → Prop) (e : Engine ν) : Prop extends Focused h e where
  awake : ∀ r, e.restarts r = 0
  settled : ∀ (r : ReferenceId) (x : Reference ν), e.core? r = some x → x.deconstructed = false →
    Clear sound x → Settled h e x ∨ (x.isPending ∧ (e.summoned r ∨ Seeking e r))
  newer : ∀ (r source : ReferenceId) (x y : Reference ν) (w w' : Nat), e.core? r = some x →
    e.core? source = some y → x.selector.source? = some source → x.state.watch? = some w →
    y.state.watch? = some w' → w' < w

section Looking

variable {h : Host ν} {sound : SystemId → Prop} {e e' : Engine ν} {r : ReferenceId} {x : Reference ν}

/-- Who reads another reference should have what that one has. -/
theorem Clear.of_source {source : ReferenceId} (hs : x.selector.source? = some source) : Clear sound x := by
  refine ⟨?_, fun n hn => ?_⟩
  · cases hsel : x.selector <;> simp_all [Selector.source?, Selector.isDeferred]
  · rw [hn] at hs
    cases hs

theorem find?_of_source {selector : Selector ν} {source : ReferenceId} (s : SystemId)
    (hs : selector.source? = some source) : h.find? e s selector = e.typeOf? source := by
  cases selector <;> simp_all [Selector.source?, Host.find?]

theorem type?_of_isPending (hp : x.isPending) : x.state.type? = none := by
  unfold Reference.isPending at hp
  split at hp
  · rename_i hs
    rw [hs]
    rfl
  · cases hp

theorem watch?_of_isPending (hp : x.isPending) : x.state.watch? = none := by
  unfold Reference.isPending at hp
  split at hp
  · rename_i hs
    rw [hs]
    rfl
  · cases hp

/-- Who waits is not deconstructed. -/
theorem Lively.of_pending (hv : Lively e) (hx : e.core? r = some x) (hp : x.isPending) :
    x.deconstructed = false := by
  obtain ⟨y, hy, rfl⟩ := Option.map_eq_some_iff.1 hx
  refine (hv.of_subscribed hy ?_).1
  unfold Reference.isPending at hp
  split at hp
  · rename_i subs hs
    have hs : y.state = .unresolved (some subs) := hs
    rw [hs]
    rfl
  · cases hp

/-- Who watches for the removal of its type is not deconstructed. -/
theorem Lively.of_watch (hv : Lively e) (hx : e.core? r = some x) {w : Nat}
    (hw : x.state.watch? = some w) : x.deconstructed = false := by
  obtain ⟨y, hy, rfl⟩ := Option.map_eq_some_iff.1 hx
  refine (hv.of_subscribed hy ?_).1
  rcases hst : y.state with subs | ⟨t, _ | w⟩
  · simp [Reference.core, hst, ReferenceState.watch?] at hw
  · simp [Reference.core, hst, ReferenceState.watch?] at hw
  · rfl

/-- Who has no type and is not about to start over waits for one. -/
theorem Lively.pending (hv : Lively e) (hx : e.core? r = some x) (hd : x.deconstructed = false)
    (h0 : e.restarts r = 0) (ht : x.state.type? = none) : x.isPending := by
  obtain ⟨y, hy, rfl⟩ := Option.map_eq_some_iff.1 hx
  have hsub := hv.of_quiet hy hd h0
  rcases hst : y.state with (_ | subs) | ⟨t, w⟩
  · simp [hst, ReferenceState.isSubscribed] at hsub
  · simp [Reference.isPending, Reference.core, hst]
  · simp [Reference.core, hst, ReferenceState.type?] at ht

/-- A watch has been given out. -/
theorem Subscribed.watch_lt (hs : Subscribed e) (hx : e.core? r = some x) {w : Nat}
    (hw : x.state.watch? = some w) : w < e.listeners.nextId := by
  have hheld := hs.held r
  rw [hx] at hheld
  rcases hst : x.state with subs | ⟨t, watch⟩
  · simp [hst, ReferenceState.watch?] at hw
  · rw [hst] at hw
    have hw : watch = some w := hw
    subst hw
    have hm : (⟨w, some t, .reference r⟩ : Entry (Option Ty) GraphListener) ∈
        e.listeners.held (.reference r) := by
      rw [hheld]
      simp [Reference.graphEntries, hst, ReferenceState.graphEntries]
    exact hs.graph.issued _ (Registry.mem_held.1 hm).1

/-- With the same keys, rules and references, a selector gives the same. -/
theorem Still.find?_of_core (h : Host ν) {s : SystemId} {selector : Selector ν} (hst : Still e e')
    (hc : ∀ i, e'.core? i = e.core? i) : h.find? e' s selector = h.find? e s selector :=
  hst.find? h fun source _ => typeOf?_of_core hc source

theorem Settled.still (hset : Settled h e x) (hc : ∀ i, e'.core? i = e.core? i) (hst : Still e e') :
    Settled h e' x :=
  Eq.trans hset (hst.find?_of_core h hc).symm

/-- Who does not read the reference finds what it found before. -/
theorem Restated.settled {state : ReferenceState} {y : Reference ν} (hre : Restated e r x state e')
    (hst : Still e e') (hset : Settled h e y) (hsrc : y.selector.source? ≠ some r) : Settled h e' y :=
  Eq.trans hset (hst.find? h fun _ hso => hre.typeOf? fun hr => hsrc (hr ▸ hso)).symm

/-- A reference that takes what its selector gives is in order, for it does not read itself. -/
theorem Restated.settled_self {t : Ty} {watch : Option Nat} (hre : Restated e r x (.resolved t watch) e')
    (hst : Still e e') (htied : Tied e) (hfind : h.find? e x.system x.selector = some t) :
    Settled h e' { x with state := .resolved t watch } := by
  have hsame : h.find? e' x.system x.selector = h.find? e x.system x.selector :=
    hst.find? h fun source hsrc => hre.typeOf? (Nat.ne_of_lt (htied.source_lt hre.found hsrc))
  exact (hsame.trans hfind).symm

/-- A waiting reference that tries has its search on top. -/
theorem attempt_eq (hx : e.core? r = some x) (hp : x.isPending) :
    e.attempt r = e.withStack
      (.selecting ⟨x.system, .resolution r, e.limitOf x.system + 1, []⟩ x.selector :: e.stack) := by
  obtain ⟨y, hy, rfl⟩ := Option.map_eq_some_iff.1 hx
  rw [attempt_of_pending hy hp, select, push_eq _ rfl]
  rfl

theorem attempt_eq_self (h : ∀ x, e.core? r = some x → x.isPending = false) : e.attempt r = e :=
  attempt_of_not_pending fun y hy => h y.core (core?_eq hy)

theorem restarts_eq_zero : e.restarts r = 0 ↔ ∀ f ∈ e.stack, f.isRestartOf r = false := by
  simp [restarts]

end Looking

/-! ## Work keeps it -/

section Work

variable {h : Host ν} {sound : SystemId → Prop} {e e' : Engine ν} {f f' : Frame ν} {rest : List (Frame ν)}

/-- Nobody searches if the frames in place of the top one are not for references. -/
theorem Focused.unmoved (frames : List (Frame ν)) (hfo : Focused h e) (hs : e.stack = f :: rest)
    (hs' : e'.stack = frames ++ rest) (hfr : ∀ g ∈ frames, ∀ r, g.purpose? ≠ some (.resolution r)) :
    Focused h e' := by
  have none : ∀ g ∈ e'.stack, ∀ r, g.purpose? ≠ some (.resolution r) := by
    intro g hg
    rw [hs'] at hg
    rcases List.mem_append.1 hg with hg | hg
    · exact hfr g hg
    · exact hfo.below g (by rw [hs]; exact hg)
  refine ⟨fun g hg => none g (List.mem_of_mem_tail hg), fun g rest' r hs'' hp => ?_⟩
  exact absurd hp (none g (by rw [hs'']; exact List.mem_cons_self) r)

/-- A search begins on top of frames that are not for references. -/
theorem Focused.attempt {d : ReferenceId} {x : Reference ν} (hx : e.core? d = some x) (hp : x.isPending)
    (hb : ∀ g ∈ e.stack, ∀ r, g.purpose? ≠ some (.resolution r)) : Focused h (e.attempt d) := by
  rw [attempt_eq hx hp]
  refine ⟨hb, fun g rest' r hs' hg => ?_⟩
  cases hs'
  cases hg
  refine ⟨x, hx, hp, fun hdef => ?_⟩
  simp only [Host.verdict?, hdef]
  rfl

/-- Work on the top frame that moves no reference keeps order, if those who wait are still called. -/
theorem Tended.unmoved (frames : List (Frame ν)) (ht : Tended h sound e) (hs : e.stack = f :: rest)
    (hf : ∀ r, f.purpose? ≠ some (.resolution r)) (hs' : e'.stack = frames ++ rest)
    (hfr : ∀ g ∈ frames, ∀ r, g.purpose? ≠ some (.resolution r) ∧ g.isRestartOf r = false)
    (hc : ∀ r, e'.core? r = e.core? r) (hst : Still e e')
    (hsum : ∀ r x, e.core? r = some x → x.isPending → f.summons r → frames.any (·.summons r)) :
    Tended h sound e' := by
  refine { ht.toFocused.unmoved frames hs hs' fun g hg r => (hfr g hg r).1 with
    awake := fun r => ?_, settled := fun r x hx hd hdef => ?_, newer := ?_ }
  · have h0 := restarts_eq_zero.1 (ht.awake r)
    rw [restarts_eq_zero, hs']
    intro g hg
    rcases List.mem_append.1 hg with hg | hg
    · exact (hfr g hg r).2
    · exact h0 g (hs ▸ List.mem_cons_of_mem _ hg)
  · rw [hc] at hx
    rcases ht.settled r x hx hd hdef with hset | ⟨hp, hsm | ⟨g, rest', hg, hgp⟩⟩
    · exact .inl (hset.still hc hst)
    · refine .inr ⟨hp, .inl ?_⟩
      simp only [summoned, hs, List.any_cons, Bool.or_eq_true] at hsm
      simp only [summoned, hs', List.any_append, Bool.or_eq_true]
      exact hsm.imp (hsum r x hx hp) id
    · rw [hs] at hg
      cases hg
      exact absurd hgp (hf r)
  · simpa only [hc] using ht.newer

/-- The next turn of a pass makes a reference try. -/
theorem Tended.attempt {d : ReferenceId} (ht : Tended h sound e) (hs : e.stack = f :: rest)
    (hcl : f.Calls f' d) : Tended h sound ((e.withStack (f' :: rest)).attempt d) := by
  have turned : (∀ x, e.core? d = some x → x.isPending = false) →
      Tended h sound (e.withStack (f' :: rest)) := by
    intro hno
    refine ht.unmoved [f'] hs (by simp [hcl.purpose?.1]) rfl ?_ (fun _ => rfl)
      (.of_eq rfl rfl) fun r x hx hp hsm => ?_
    · intro g hg r
      rw [List.mem_singleton.1 hg]
      exact ⟨by simp [hcl.purpose?.2], (hcl.isRestartOf r).2⟩
    · have hr : r ≠ d := by
        rintro rfl
        rw [hno x hx] at hp
        cases hp
      simpa [hcl.summons hr] using hsm
  by_cases hp : ∃ x, e.core? d = some x ∧ x.isPending
  · obtain ⟨x, hx, hp⟩ := hp
    have hx : (e.withStack (f' :: rest)).core? d = some x := hx
    have hb : ∀ g ∈ (e.withStack (f' :: rest)).stack, ∀ r, g.purpose? ≠ some (.resolution r) := by
      intro g hg r
      rcases List.mem_cons.1 hg with rfl | hg
      · simp [hcl.purpose?.2]
      · exact ht.below g (by rw [hs]; exact hg) r
    have hfo : Focused h _ := Focused.attempt hx hp hb
    rw [attempt_eq hx hp] at hfo ⊢
    refine { hfo with awake := fun r => ?_, settled := fun r y hy hd hdef => ?_, newer := ht.newer }
    · have h0 := restarts_eq_zero.1 (ht.awake r)
      rw [restarts_eq_zero]
      intro g hg
      rcases List.mem_cons.1 hg with rfl | hg
      · rfl
      · rcases List.mem_cons.1 hg with rfl | hg
        · exact (hcl.isRestartOf r).2
        · exact h0 g (hs ▸ List.mem_cons_of_mem _ hg)
    · by_cases hr : r = d
      · subst hr
        cases hx.symm.trans hy
        exact .inr ⟨hp, .inr ⟨_, _, rfl, rfl⟩⟩
      · refine (ht.settled r y hy hd hdef).imp id fun ⟨hpy, hsm⟩ => ⟨hpy, .inl ?_⟩
        rcases hsm with hsm | ⟨g, rest', hg, hgp⟩
        · simp only [summoned, hs, List.any_cons, Bool.or_eq_true] at hsm
          simp only [summoned, List.any_cons, Bool.or_eq_true, hcl.summons hr]
          exact .inr hsm
        · rw [hs] at hg
          cases hg
          simp [hcl.purpose?.1] at hgp
  · have hno : ∀ x, e.core? d = some x → x.isPending = false := by
      intro x hx
      by_contra hne
      exact hp ⟨x, hx, by simpa using hne⟩
    rw [attempt_eq_self (e := e.withStack (f' :: rest)) hno]
    exact turned hno

theorem summoned_rest {r : ReferenceId} (hs : e.stack = f :: rest) (hf : f.isSpent)
    (hsm : e.summoned r) : rest.any (·.summons r) := by
  simpa [summoned, hs, Frame.summons_of_isSpent hf] using hsm

/-- Of a search that is on top, somebody else has no part. -/
theorem not_seeking {r i : ReferenceId} (hs : e.stack = f :: rest) (hp : f.purpose? = some (.resolution r))
    (hi : i ≠ r) : ¬ Seeking e i := by
  rintro ⟨g, rest', hg, hgp⟩
  rw [hs] at hg
  cases hg
  rw [hp] at hgp
  cases hgp
  exact hi rfl

theorem awake_rest (hs : e.stack = f :: rest) {r : ReferenceId} (h0 : e.restarts r = 0) :
    ∀ g ∈ rest, g.isRestartOf r = false :=
  fun g hg => restarts_eq_zero.1 h0 g (hs ▸ List.mem_cons_of_mem _ hg)

/-- A search goes on. -/
theorem Focused.onward {r : ReferenceId} (hfo : Focused h e) (hs : e.stack = f :: rest)
    (hp : f.purpose? = some (.resolution r)) (hs' : e'.stack = f' :: rest)
    (hp' : f'.purpose? = some (.resolution r)) (hc : ∀ i, e'.core? i = e.core? i) (hst : Still e e')
    (hv : ∀ v, h.verdict? e f = some v → h.verdict? e' f' = some v) : Focused h e' := by
  obtain ⟨x, hx, hpend, hverdict⟩ := hfo.seeking f rest r hs hp
  refine ⟨fun g hg => ?_, fun g rest' i hg hgp => ?_⟩
  · rw [hs'] at hg
    exact hfo.below g (by rw [hs]; exact hg)
  · rw [hs'] at hg
    cases hg
    rw [hp'] at hgp
    cases hgp
    refine ⟨x, (hc r).trans hx, hpend, fun hdef => ?_⟩
    rw [hst.find?_of_core h hc]
    exact hv _ (hverdict hdef)

theorem Tended.onward {r : ReferenceId} (ht : Tended h sound e) (hs : e.stack = f :: rest)
    (hp : f.purpose? = some (.resolution r)) (hs' : e'.stack = f' :: rest)
    (hp' : f'.purpose? = some (.resolution r)) (hc : ∀ i, e'.core? i = e.core? i) (hst : Still e e')
    (hv : ∀ v, h.verdict? e f = some v → h.verdict? e' f' = some v) : Tended h sound e' := by
  refine { ht.toFocused.onward hs hp hs' hp' hc hst hv with
           awake := fun i => ?_, settled := fun i y hy hd hdef => ?_, newer := ?_ }
  · rw [restarts_eq_zero, hs']
    intro g hg
    rcases List.mem_cons.1 hg with rfl | hg
    · exact Frame.isRestartOf_of_purpose hp' i
    · exact awake_rest hs (ht.awake i) g hg
  · rw [hc] at hy
    rcases ht.settled i y hy hd hdef with hset | ⟨hpy, hsm | hsk⟩
    · exact .inl (hset.still hc hst)
    · refine .inr ⟨hpy, .inl ?_⟩
      have := summoned_rest hs (Frame.isSpent_of_purpose hp) hsm
      simp only [summoned, hs', List.any_cons, this, Bool.or_true]
    · have hi : i = r := by
        by_contra hi
        exact not_seeking hs hp hi hsk
      subst hi
      exact .inr ⟨hpy, .inr ⟨f', rest, hs', hp'⟩⟩
  · simpa only [hc] using ht.newer

/-- A search finds nothing, and nothing is what the selector gives. -/
theorem Tended.nothing {r : ReferenceId} (ht : Tended h sound e) (hs : e.stack = f :: rest)
    (hp : f.purpose? = some (.resolution r)) (hs' : e'.stack = rest) (hc : ∀ i, e'.core? i = e.core? i)
    (hst : Still e e') (hv : ∀ v, h.verdict? e f = some v → v = none) : Tended h sound e' := by
  obtain ⟨x, hx, hpend, hverdict⟩ := ht.seeking f rest r hs hp
  refine { ht.toFocused.unmoved [] hs (by rw [hs']; rfl) (by simp) with
           awake := fun i => ?_, settled := fun i y hy hd hdef => ?_, newer := ?_ }
  · rw [restarts_eq_zero, hs']
    exact awake_rest hs (ht.awake i)
  · rw [hc] at hy
    by_cases hi : i = r
    · subst hi
      cases hx.symm.trans hy
      left
      rw [Settled, hst.find?_of_core h hc, type?_of_isPending hpend]
      exact (hv _ (hverdict hdef.undeferred)).symm
    · rcases ht.settled i y hy hd hdef with hset | ⟨hpy, hsm | hsk⟩
      · exact .inl (hset.still hc hst)
      · refine .inr ⟨hpy, .inl ?_⟩
        rw [summoned, hs']
        exact summoned_rest hs (Frame.isSpent_of_purpose hp) hsm
      · exact absurd hsk (not_seeking hs hp hi)
  · simpa only [hc] using ht.newer

/-- Who reads a reference that waits has no type and waits as well. -/
theorem Tended.waiting {r i : ReferenceId} {x y : Reference ν} (ht : Tended h sound e) (hv : Lively e)
    (hx : e.core? r = some x) (hp : x.isPending) (hy : e.core? i = some y)
    (hd : y.deconstructed = false) (hsrc : y.selector.source? = some r) : y.isPending := by
  rcases ht.settled i y hy hd (.of_source hsrc) with hset | ⟨hpy, -⟩
  · refine hv.pending hy hd (ht.awake i) ?_
    rw [hset, find?_of_source _ hsrc, typeOf?_eq_core, hx]
    exact type?_of_isPending hp
  · exact hpy

/-- A search finds what the selector gives. Those who read the reference are told. -/
theorem Tended.found {r : ReferenceId} {x : Reference ν} {t : Ty} {subs : Subscriptions}
    (ht : Tended h sound e) (hg : Grounded h sound e) (hs : e.stack = f :: rest)
    (hp : f.purpose? = some (.resolution r)) (htk : Taken (e.withStack rest) r t x subs e')
    (hst : Still e e') (hv : ∀ v, h.verdict? e f = some v → v = some t) : Tended h sound e' := by
  obtain ⟨x₀, hx, hpend, hverdict⟩ := ht.seeking f rest r hs hp
  have hxr : e.references[r]? = some x := htk.found
  cases hx.symm.trans (core?_eq hxr)
  have hre : Restated e r x.core (.resolved t (some e.listeners.nextId)) e' :=
    restated_setState hxr htk.references
  have hs' : e'.stack = .referencePass r (.resolved t)
      (x.listeners.map .observer ++ x.dependents.map .dependent) :: rest := htk.stack
  have hlive : x.core.deconstructed = false := hg.lively.of_pending hx hpend
  refine { ht.toFocused.unmoved [_] hs (by rw [hs']; rfl) ?_ with
           awake := fun i => ?_, settled := fun i y hy hd hdef => ?_,
           newer := fun i source y z w w' hy hz hsrc hw hw' => ?_ }
  · intro g hgm
    rw [List.mem_singleton.1 hgm]
    simp [Frame.purpose?]
  · rw [restarts_eq_zero, hs']
    intro g hgm
    rcases List.mem_cons.1 hgm with rfl | hgm
    · rfl
    · exact awake_rest hs (ht.awake i) g hgm
  · by_cases hi : i = r
    · subst hi
      cases hre.self.symm.trans hy
      exact .inl (hre.settled_self hst hg.tied (hv _ (hverdict hdef.undeferred)))
    · have hy := hre.other hi hy
      by_cases hsrc : y.selector.source? = some r
      · -- it reads this one, so it is called by the pass that begins
        refine .inr ⟨ht.waiting hg.lively hx hpend hy hd hsrc, .inl ?_⟩
        have := hg.tied.mem_dependents hy hd hsrc hxr hlive
        simp [summoned, hs', Frame.summons, this]
      · rcases ht.settled i y hy hd hdef with hset | ⟨hpy, hsm | hsk⟩
        · exact .inl (hre.settled hst hset hsrc)
        · refine .inr ⟨hpy, .inl ?_⟩
          have := summoned_rest hs (Frame.isSpent_of_purpose hp) hsm
          simp only [summoned, hs', List.any_cons, this, Bool.or_true]
        · exact absurd hsk (not_seeking hs hp hi)
  · by_cases hi : i = r
    · subst hi
      cases hre.self.symm.trans hy
      cases hw
      have hne : source ≠ i := Nat.ne_of_lt (hg.tied.source_lt hx hsrc)
      exact hg.subscribed.watch_lt (hre.other hne hz) hw'
    · have hy := hre.other hi hy
      by_cases hso : source = r
      · -- who reads this one has no type yet
        subst hso
        have hdy := hg.lively.of_watch hy hw
        rw [watch?_of_isPending (ht.waiting hg.lively hx hpend hy hdy hsrc)] at hw
        cases hw
      · exact ht.newer i source y z w w' hy (hre.other hso hz) hsrc hw hw'

theorem Tended.evaluate {r : ReferenceId} (ht : Tended h sound e) (hg : Grounded h sound e)
    (hs : e.stack = f :: rest) (hp : f.purpose? = some (.resolution r))
    (hev : Evaluates h (.resolution r) e f rest e') : Tended h sound e' := by
  have hst := (Work.evaluate hp hev).still
  cases hev with
  | onward hpl hs' hp' hv => exact ht.onward hs hp hs' hp' hpl.calm.core? hst hv
  | nothing hpl hs' hv => exact ht.nothing hs hp hs' hpl.calm.core? hst hv
  | @found t hv =>
    rcases resolve_cases (e.withStack rest) r t with ⟨-, hno⟩ | ⟨x, subs, htk⟩
    · obtain ⟨x, hx, hpend, -⟩ := ht.seeking f rest r hs hp
      obtain ⟨y, hy, rfl⟩ := Option.map_eq_some_iff.1 hx
      have hpend : y.isPending := hpend
      rw [hno y hy] at hpend
      cases hpend
    · exact ht.found hg hs hp htk hst hv

/-- All work keeps order. -/
theorem Tended.work (ht : Tended h sound e) (hg : Grounded h sound e) (hs : e.stack = f :: rest)
    (hw : Work h e f rest e') : Tended h sound e' := by
  have hst := hw.still
  cases hw with
  | pop ho =>
    refine ht.unmoved [] hs (by simp [Frame.purpose?_of_isOver ho]) rfl (by simp) (fun _ => rfl) hst ?_
    intro r x _ _ hsm
    rw [Frame.summons_of_isSpent (Frame.isSpent_of_isOver ho)] at hsm
    cases hsm
  | aside hpl _ hno hp =>
    obtain ⟨frames, hs', hfr⟩ := hp.stack
    refine ht.unmoved frames hs hno hs' (fun g hgm r => ⟨fun hr => ?_, ?_⟩) hp.calm.core? hst ?_
    · cases (hfr g hgm).purpose r hr
    · exact Frame.isRestartOf_of_isSpent (Frame.isSpent_of_isPlain (hfr g hgm).plain) r
    · intro r x _ _ hsm
      rw [Frame.summons_of_isSpent (Frame.isSpent_of_isPlain hpl)] at hsm
      cases hsm
  | @pass f' hsk =>
    refine ht.unmoved [f'] hs (by simp [hsk.purpose?.1]) rfl ?_ (fun _ => rfl) hst ?_
    · intro g hgm r
      rw [List.mem_singleton.1 hgm]
      exact ⟨by simp [hsk.purpose?.2], (hsk.isRestartOf r).2⟩
    · intro r x _ _ hsm
      simpa [hsk.summons r] using hsm
  | @tell f' o notice hsk =>
    refine ht.unmoved [.telling o notice, f'] hs (by simp [hsk.purpose?.1]) (push_stack _ _) ?_
      (fun r => ?_) hst ?_
    · intro g hgm r
      rcases List.mem_cons.1 hgm with rfl | hgm
      · exact ⟨by simp [Frame.purpose?], rfl⟩
      · rw [List.mem_singleton.1 hgm]
        exact ⟨by simp [hsk.purpose?.2], (hsk.isRestartOf r).2⟩
    · rw [core?, push_references]
      rfl
    · intro r x _ _ hsm
      simp only [List.any_cons, hsk.summons r, hsm, Bool.true_or, Bool.or_true]
  | attempt hcl => exact ht.attempt hs hcl
  | evaluate hp hev => exact ht.evaluate hg hs hp hev

/-- Work on a frame that may be there while no type leaves only leaves such frames. -/
theorem Work.grown (hw : Work h e f rest e') (hf : f.grows) :
    ∃ frames, e'.stack = frames ++ rest ∧ ∀ g ∈ frames, g.grows := by
  cases hw with
  | pop => exact ⟨[], rfl, by simp⟩
  | aside _ _ _ hp =>
    obtain ⟨frames, hs', hfr⟩ := hp.stack
    exact ⟨frames, hs', fun g hg => Frame.grows_of_isPlain (hfr g hg).plain⟩
  | @pass f' hsk => exact ⟨[f'], rfl, by simpa [hsk.grows] using hf⟩
  | @tell f' o notice hsk =>
    refine ⟨[.telling o notice, f'], push_stack _ _, fun g hg => ?_⟩
    rcases List.mem_cons.1 hg with rfl | hg
    · rfl
    · rw [List.mem_singleton.1 hg, hsk.grows]
      exact hf
  | @attempt f' r hcl =>
    obtain ⟨frames, hs', hfr⟩ := (plain_attempt (e.withStack (f' :: rest)) r).stack
    refine ⟨frames ++ [f'], by simpa using hs', fun g hg => ?_⟩
    rcases List.mem_append.1 hg with hg | hg
    · exact Frame.grows_of_isPlain (hfr g hg).plain
    · rw [List.mem_singleton.1 hg]
      exact hcl.grows
  | @evaluate r _ hp hev =>
    cases hev with
    | @onward f' _ _ hs' hp' _ => exact ⟨[f'], hs', by simpa using Frame.grows_of_purpose hp'⟩
    | nothing _ hs' _ => exact ⟨[], hs', by simp⟩
    | @found t _ =>
      rcases resolve_cases (e.withStack rest) r t with ⟨heq, -⟩ | ⟨x, subs, htk⟩
      · exact ⟨[], by rw [selected, heq]; rfl, by simp⟩
      · exact ⟨[_], htk.stack, by simp [Frame.grows]⟩

end Work

end Engine
end LiveTypes
