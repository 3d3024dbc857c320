import LiveTypes.Proofs.Queues
import LiveTypes.Proofs.Sources

/-!
# A reference attends to its source

A reference whose selector is another reference, its source, is told when the source takes a type. So one
that has no type although its source has one is about to try: it is searching, it is in the queue of the
pass that tells of the source's type, or it is to start over. This holds at every moment of every run,
whatever the host calls and when.
-/
namespace LiveTypes.Engine

variable {ν : Type}

/-- A reference without a type will try again, unless its source has no type either. -/
def Awaits (e : Engine ν) (r source : ReferenceId) : Prop :=
  e.typeOf? r = none → e.typeOf? source = none ∨ e.called source r ∨ e.restarts r ≠ 0

/-- Every search of a reference reads its source. -/
def Reads (e : Engine ν) (r source : ReferenceId) : Prop :=
  ∀ f ∈ e.stack, f.purpose? = some (.resolution r) → f.reads? = some (r, source)

/-- How a reference that is not deconstructed stands to its source. -/
def AttendsSource (e : Engine ν) (r : ReferenceId) : Prop :=
  ∀ (x : Reference ν) (source : ReferenceId), e.core? r = some x → x.deconstructed = false →
    x.selector.source? = some source → Reads e r source ∧ (Awaits e r source ∨ Seeking e r)

/-! ## Work on top of the stack -/

section Frames

variable {p : Option Purpose} {e e' : Engine ν} {f f' : Frame ν} {rest : List (Frame ν)}
  {r source : ReferenceId}

theorem Reads.calm (h : Reads e r source) (hc : Calm p e e') (hp : p ≠ some (.resolution r)) :
    Reads e' r source := by
  intro f hf hr
  obtain ⟨frames, hs, hfr⟩ := hc.stack
  rw [hs] at hf
  rcases List.mem_append.1 hf with hf | hf
  · exact absurd ((hfr f hf).purpose r hr) hp
  · exact h f hf hr

/-- Frames that search nothing may come, and frames may go. -/
theorem Reads.of_frames (h : Reads e r source)
    (hs : ∀ f ∈ e'.stack, f.purpose? = none ∨ f ∈ e.stack) : Reads e' r source := by
  intro f hf hr
  rcases hs f hf with hn | hf
  · simp [hn] at hr
  · exact h f hf hr

theorem Reads.pop (h : Reads e r source) (hs : e.stack = f :: rest) : Reads (e.withStack rest) r source :=
  h.of_frames fun _ hg => .inr (hs ▸ List.mem_cons_of_mem _ hg)

theorem Reads.turn (h : Reads e r source) (hs : e.stack = f :: rest) (hp : f'.purpose? = none) :
    Reads (e.withStack (f' :: rest)) r source :=
  h.of_frames fun g hg => by
    rcases List.mem_cons.1 hg with rfl | hg
    · exact .inl hp
    · exact .inr (hs ▸ List.mem_cons_of_mem _ hg)

theorem Awaits.calm (h : Awaits e r source) (hc : Calm p e e') : Awaits e' r source := by
  intro hn
  rw [hc.typeOf?] at hn ⊢
  rw [hc.restarts]
  exact (h hn).imp id (Or.imp hc.toGrown.called id)

theorem Awaits.pop (h : Awaits e r source) (hs : e.stack = f :: rest)
    (hf : f.owesCall source r = false) (hr : f.isRestartOf r = false) :
    Awaits (e.withStack rest) r source := by
  intro hn
  have hr : (e.withStack rest).restarts r = e.restarts r := by simp [restarts, hs, hr]
  have hc : (e.withStack rest).called source r = e.called source r := by simp [called, hs, hf]
  rw [hc, hr]
  exact h hn

theorem Awaits.turn (h : Awaits e r source) (hs : e.stack = f :: rest)
    (hf : f'.owesCall source r = f.owesCall source r)
    (hr : f.isRestartOf r = false ∧ f'.isRestartOf r = false) :
    Awaits (e.withStack (f' :: rest)) r source := by
  intro hn
  have : (e.withStack (f' :: rest)).restarts r = e.restarts r := by simp [restarts, hs, hr]
  rw [called_turn hs hf, this]
  exact h hn

/-- Who is not seeking a type now awaits one. -/
theorem awaits_of_top (h : Awaits e r source ∨ Seeking e r) (hs : e.stack = f :: rest)
    (hp : f.purpose? ≠ some (.resolution r)) : Awaits e r source := by
  rcases h with h | ⟨g, rest', hs', hg⟩
  · exact h
  · rw [hs] at hs'
    cases hs'
    exact absurd hg hp

/-- The search of a reference never waits for the host, so calls find it elsewhere. -/
theorem awaits_of_hostTurn (hl : Reads e r source) (h : Awaits e r source ∨ Seeking e r)
    (ht : e.hostTurn) : Awaits e r source := by
  rcases h with h | ⟨f, rest, hs, hf⟩
  · exact h
  · have hr := hl f (hs ▸ List.mem_cons_self) hf
    simp [hostTurn, atRest, question?, hs, Frame.question?_of_reads hr] at ht

end Frames

/-! ## Each kind of change -/

section Changes

variable {p : Option Purpose} {e e' e₀ : Engine ν} {f f' : Frame ν} {rest : List (Frame ν)}
  {r source : ReferenceId} {m : Move ν} {x : Reference ν}

/-- Of a search that reads the source, calm work leaves nothing but that the source has no type. -/
theorem attendsSource_calm (hl : Reads e r source) (ha : Awaits e r source ∨ Seeking e r)
    (hu : Under e p e₀) (hc : Calm p e₀ e') : Reads e' r source ∧ Awaits e' r source := by
  cases hu with
  | call ht => exact ⟨hl.calm hc (by simp), (awaits_of_hostTurn hl ha ht).calm hc⟩
  | @done f rest hs hf hr =>
    have hp : f.purpose? ≠ some (.resolution r) := fun hp => by
      simp [hl f (hs ▸ List.mem_cons_self) hp] at hr
    exact ⟨(hl.pop hs).calm hc hp, ((awaits_of_top ha hs hp).pop hs (Frame.owesCall_of_isSpent hf _ _)
      (Frame.isRestartOf_of_isSpent hf r)).calm hc⟩
  | @read f rest i source' hs hr hn =>
    have hf := Frame.isSpent_of_reads hr
    refine ⟨(hl.pop hs).calm hc (by simp), ?_⟩
    by_cases hi : i = r
    · subst hi
      have := hl f (hs ▸ List.mem_cons_self) (Frame.purpose?_of_reads hr)
      rw [hr] at this
      cases this
      intro _
      rw [hc.typeOf?]
      exact .inl hn
    · have hp : f.purpose? ≠ some (.resolution r) := fun hp => by
        rw [Frame.purpose?_of_reads hr] at hp
        cases hp
        exact hi rfl
      exact ((awaits_of_top ha hs hp).pop hs (Frame.owesCall_of_isSpent hf _ _)
        (Frame.isRestartOf_of_isSpent hf r)).calm hc

/-- Who neither has a type nor waits for one is about to start over. -/
theorem awaits_of_not_pending (hv : Lively e) (hx : e.references[r]? = some x)
    (hd : x.deconstructed = false) (hp : x.isPending = false) : Awaits e r source := by
  intro hn
  refine .inr (.inr fun h0 => ?_)
  have hsub := hv.of_quiet hx hd h0
  rw [typeOf?_eq hx] at hn
  rcases hst : x.state with (_ | subs) | ⟨t, w⟩ <;>
    simp_all [Reference.isPending, ReferenceState.isSubscribed, ReferenceState.type?]

/-- A waiting reference that tries is seeking, and reads its source. -/
theorem attendsSource_seek (hx : e.references[r]? = some x) (hp : x.isPending)
    (hsrc : x.selector.source? = some source) (hl : Reads e r source) :
    Reads (e.attempt r) r source ∧ Seeking (e.attempt r) r := by
  have hsel : x.selector = .reference source := by
    cases hs : x.selector <;> simp_all [Selector.source?]
  rw [attempt_of_pending hx hp, hsel, select]
  refine ⟨fun f hf hr => ?_, _, _, push_stack _ _, rfl⟩
  rw [push_stack] at hf
  rcases List.mem_cons.1 hf with rfl | hf
  · rfl
  · exact hl f hf hr

/-- A reference that tries is seeking, or has a type, or is about to start over. -/
theorem attendsSource_attempt (hv : Lively e) (hx : e.references[r]? = some x) (hd : x.deconstructed = false)
    (hsrc : x.selector.source? = some source) (hl : Reads e r source) :
    Reads (e.attempt r) r source ∧ (Awaits (e.attempt r) r source ∨ Seeking (e.attempt r) r) := by
  by_cases hp : x.isPending
  · exact (attendsSource_seek hx hp hsrc hl).imp id .inr
  · have hp : x.isPending = false := by simpa using hp
    rw [attempt_of_not_pending fun y hy => by cases hx.symm.trans hy; exact hp]
    exact ⟨hl, .inl (awaits_of_not_pending hv hx hd hp)⟩

/-- A reference that loses its type begins a pass and is to start over. -/
theorem Reads.lost {i : ReferenceId} {t : Ty} {watch : Nat} (hl : Reads e r source)
    (hlost : Lost e i t x watch e') : Reads e' r source := by
  refine hl.of_frames fun f hf => ?_
  rw [hlost.stack] at hf
  rcases List.mem_cons.1 hf with rfl | hf
  · exact .inl rfl
  · exact (List.mem_cons.1 hf).imp (fun h => by rw [h]; rfl) id

/-- A reference that takes a type begins a pass. -/
theorem Reads.taken {i : ReferenceId} {t : Ty} {subs : Subscriptions} (hl : Reads e r source)
    (ht : Taken e i t x subs e') : Reads e' r source := by
  refine hl.of_frames fun f hf => ?_
  rw [ht.stack] at hf
  exact (List.mem_cons.1 hf).imp (fun h => by rw [h]; rfl) id

/-- The source, or somebody else, loses a type. -/
theorem attendsSource_invalidate {i : ReferenceId} {t : Ty} (hi : i ≠ r) (hl : Reads e r source)
    (ha : Awaits e r source) :
    Reads (e.invalidate i t) r source ∧ Awaits (e.invalidate i t) r source := by
  rcases invalidate_cases e i t with ⟨heq, -⟩ | ⟨y, watch, hlost⟩
  · rw [heq]
    exact ⟨hl, ha⟩
  · have htype := typeOf?_setState hlost.found hlost.references
    refine ⟨hl.lost hlost, fun hn => ?_⟩
    rw [htype, if_neg (Ne.symm hi)] at hn
    rw [htype]
    by_cases his : source = i
    · rw [if_pos his]
      exact .inl rfl
    · rw [if_neg his]
      refine (ha hn).imp id (Or.imp (fun hc => ?_) fun hr => ?_)
      · simp only [called, hlost.stack, List.any_cons, Bool.or_eq_true] at hc ⊢
        exact .inr (.inr hc)
      · simpa [restarts, hlost.stack, Frame.isRestartOf, hi] using hr

/-- The source, or somebody else, takes a type. -/
theorem attendsSource_resolve {i : ReferenceId} {t : Ty} (hv : Lively e) (hi : i ≠ r) (hl : Reads e r source)
    (ha : Awaits e r source)
    (told : ∀ y, e.references[source]? = some y → y.deconstructed = false → r ∈ y.dependents) :
    Reads (e.resolve i t) r source ∧ Awaits (e.resolve i t) r source := by
  rcases resolve_cases e i t with ⟨heq, -⟩ | ⟨y, subs, ht⟩
  · rw [heq]
    exact ⟨hl, ha⟩
  · have htype := typeOf?_setState ht.found ht.references
    refine ⟨hl.taken ht, fun hn => ?_⟩
    rw [htype, if_neg (Ne.symm hi)] at hn
    rw [htype]
    by_cases his : source = i
    · -- the source tells all that read it
      subst his
      refine .inr (.inl ?_)
      have hd := (hv.of_subscribed ht.found (by rw [ht.waiting]; rfl)).1
      simp [called, ht.stack, Frame.owesCall, told y ht.found hd]
    · rw [if_neg his]
      refine (ha hn).imp id (Or.imp (fun hc => ?_) fun hr => ?_)
      · simp only [called, ht.stack, List.any_cons, Bool.or_eq_true] at hc ⊢
        exact .inr hc
      · simpa [restarts, ht.stack, Frame.isRestartOf] using hr

/-- A subscription gives and takes no type. -/
theorem typeOf?_subscribe {i : ReferenceId} (s : SystemId) (hx : e.references[i]? = some x)
    (hn : x.state.type? = none) (j : ReferenceId) : (e.subscribe i s).typeOf? j = e.typeOf? j := by
  rw [typeOf?_setState hx rfl]
  split
  · rename_i hj
    rw [hj, typeOf?_eq hx, hn]
    rfl
  · rfl

theorem Awaits.subscribe {i : ReferenceId} (s : SystemId) (hx : e.references[i]? = some x)
    (hn : x.state.type? = none) (ha : Awaits e r source) : Awaits (e.subscribe i s) r source := by
  intro hr
  rw [typeOf?_subscribe s hx hn] at hr ⊢
  exact ha hr

/-- The types of the others stay when a reference comes into being. -/
theorem typeOf?_of_enlisted {s : SystemId} {selector : Selector ν} (hk : e.knowsSelector selector)
    (hrefs : e'.references = e.enlisted s selector) {j : ReferenceId} (hj : j < e.references.length) :
    e'.typeOf? j = e.typeOf? j := by
  rw [typeOf?_eq_core, core?_enlisted hk hrefs, if_neg (Nat.ne_of_lt hj), typeOf?_eq_core]

/-- The types stay when a reference is deconstructed. -/
theorem typeOf?_of_stopped {i : ReferenceId} (hx : e.references[i]? = some x)
    (hrefs : e'.references = e.stopped i x) (j : ReferenceId) : e'.typeOf? j = e.typeOf? j := by
  rw [typeOf?_eq_core, core?_stopped hx hrefs]
  split
  · rename_i hj
    rw [hj, typeOf?_eq hx]
    exact ReferenceState.frozen_type? _
  · rw [typeOf?_eq_core]

end Changes

/-! ## Runs -/

section Runs

variable {e e' : Engine ν} {r source : ReferenceId} {m : Move ν} {x' : Reference ν}

/-- How a reference stood to its source before, whatever its own state was then. -/
theorem AttendsSource.before {i : ReferenceId} {y : Reference ν} {state : ReferenceState} (h : AttendsSource e r)
    (hy : e.references[i]? = some y)
    (hrefs : e'.references = e.references.modify i fun z => { z with state })
    (hx' : e'.core? r = some x') (hd : x'.deconstructed = false)
    (hsrc : x'.selector.source? = some source) :
    Reads e r source ∧ (Awaits e r source ∨ Seeking e r) := by
  rw [core?_setState hy _ hrefs] at hx'
  by_cases hi : r = i
  · rw [if_pos hi] at hx'
    cases hx'
    exact h y.core source (hi ▸ core?_eq hy) hd hsrc
  · rw [if_neg hi] at hx'
    exact h x' source hx' hd hsrc

theorem lose_attendsSource {t : Ty} {key : String} {queue : List GraphListener} {rest : List (Frame ν)}
    {i : ReferenceId} (h : AttendsSource e r)
    (hs : e.stack = .graphPass (.removedType t key) (.reference i :: queue) :: rest)
    (hx' : ((e.withStack (.graphPass (.removedType t key) queue :: rest)).invalidate i t).core? r =
      some x')
    (hd : x'.deconstructed = false) (hsrc : x'.selector.source? = some source) :
    let e' := (e.withStack (.graphPass (.removedType t key) queue :: rest)).invalidate i t
    Reads e' r source ∧ Awaits e' r source := by
  intro e'
  have turned (hl : Reads e r source) (ha : Awaits e r source ∨ Seeking e r) :
      Reads (e.withStack (.graphPass (.removedType t key) queue :: rest)) r source ∧
        Awaits (e.withStack (.graphPass (.removedType t key) queue :: rest)) r source :=
    ⟨hl.turn hs rfl, (awaits_of_top ha hs (by simp [Frame.purpose?])).turn hs rfl ⟨rfl, rfl⟩⟩
  rcases invalidate_cases (e.withStack (.graphPass (.removedType t key) queue :: rest)) i t
    with ⟨heq, -⟩ | ⟨x, watch, hlost⟩
  · rw [heq] at hx'
    obtain ⟨hl, ha⟩ := h x' source hx' hd hsrc
    simp only [e', heq]
    exact turned hl ha
  · obtain ⟨hl, ha⟩ := h.before hlost.found hlost.references hx' hd hsrc
    obtain ⟨hl, ha⟩ := turned hl ha
    by_cases hi : i = r
    · -- it is this one that loses its type, and is to start over
      subst hi
      refine ⟨hl.lost hlost, fun _ => .inr (.inr ?_)⟩
      simp [e', restarts, hlost.stack, Frame.isRestartOf]
    · exact attendsSource_invalidate hi hl ha

theorem resolve_attendsSource {f : Frame ν} {rest : List (Frame ν)} {i : ReferenceId} {t : Ty} (hv : Lively e)
    (htied : Tied e) (h : AttendsSource e r) (hs : e.stack = f :: rest) (hp : f.purpose? = some (.resolution i))
    (hx' : ((e.withStack rest).resolve i t).core? r = some x') (hd : x'.deconstructed = false)
    (hsrc : x'.selector.source? = some source) :
    Reads ((e.withStack rest).resolve i t) r source ∧
      Awaits ((e.withStack rest).resolve i t) r source := by
  have hf := Frame.isSpent_of_purpose hp
  have hv' : Lively (e.withStack rest) := hv.pop hs (Frame.isRestartOf_of_isSpent hf)
  by_cases hi : i = r
  · subst hi
    rcases resolve_cases (e.withStack rest) i t with ⟨heq, hno⟩ | ⟨x, subs, htaken⟩
    · have hx : e.core? i = some x' := by rw [heq] at hx'; exact hx'
      obtain ⟨hl, -⟩ := h x' source hx hd hsrc
      obtain ⟨x, hxr, rfl⟩ := Option.map_eq_some_iff.1 hx
      rw [heq]
      exact ⟨hl.pop hs, awaits_of_not_pending hv' hxr hd (hno x hxr)⟩
    · obtain ⟨hl, -⟩ := h.before htaken.found htaken.references hx' hd hsrc
      refine ⟨(hl.pop hs).taken htaken, fun hn => ?_⟩
      rw [typeOf?_setState htaken.found htaken.references, if_pos rfl] at hn
      cases hn
  · have hx : e.core? r = some x' := by
      rcases resolve_cases (e.withStack rest) i t with ⟨heq, -⟩ | ⟨x, subs, htaken⟩
      · rw [heq] at hx'
        exact hx'
      · rw [core?_setState htaken.found _ htaken.references, if_neg (Ne.symm hi)] at hx'
        exact hx'
    obtain ⟨hl, ha⟩ := h x' source hx hd hsrc
    have hne : f.purpose? ≠ some (.resolution r) := by
      rw [hp]
      intro heq
      cases heq
      exact hi rfl
    have ha := (awaits_of_top ha hs hne).pop hs (Frame.owesCall_of_isSpent hf _ _)
      (Frame.isRestartOf_of_isSpent hf r)
    exact attendsSource_resolve hv' hi (hl.pop hs) ha fun y hy => htied.mem_dependents hx hd hsrc hy

theorem restart_attendsSource {rest : List (Frame ν)} {i : ReferenceId} (hv : Lively e) (h : AttendsSource e r)
    (hs : e.stack = .restart i :: rest) (hx' : ((e.withStack rest).startResolving i).core? r = some x')
    (hd : x'.deconstructed = false) (hsrc : x'.selector.source? = some source) :
    Reads ((e.withStack rest).startResolving i) r source ∧
      (Awaits ((e.withStack rest).startResolving i) r source ∨
        Seeking ((e.withStack rest).startResolving i) r) := by
  have waits : i ≠ r → Awaits e r source ∨ Seeking e r → Awaits (e.withStack rest) r source :=
    fun hi ha => (awaits_of_top ha hs (by simp [Frame.purpose?])).pop hs rfl
      (by simp [Frame.isRestartOf, hi])
  rcases startResolving_cases (e.withStack rest) i with ⟨heq, hdead⟩ | ⟨x, hx, hlive, heq⟩
  · rw [heq] at hx' ⊢
    have hx : e.core? r = some x' := hx'
    obtain ⟨hl, ha⟩ := h x' source hx hd hsrc
    have hi : i ≠ r := by
      rintro rfl
      obtain ⟨x, hxr, rfl⟩ := Option.map_eq_some_iff.1 hx
      have hd : x.deconstructed = false := hd
      simp [hdead x hxr] at hd
    exact ⟨hl.pop hs, .inl (waits hi ha)⟩
  · have hr0 : e.restarts i ≠ 0 := by simp [restarts, hs, Frame.isRestartOf]
    have hn : x.state.type? = none := by
      rw [(hv.of_restart hx hlive hr0).1]
      rfl
    have hcalm := (plain_attempt ((e.withStack rest).subscribe i x.system) i).calm
    have hrefs : ((e.withStack rest).subscribe i x.system).references =
        e.references.modify i fun z => { z with state := _ } := rfl
    rw [heq] at hx' ⊢
    rw [hcalm.core?] at hx'
    obtain ⟨hl, ha⟩ := h.before hx hrefs hx' hd hsrc
    have hl' : Reads ((e.withStack rest).subscribe i x.system) r source := hl.pop hs
    by_cases hi : i = r
    · subst hi
      obtain ⟨y, hy, rfl⟩ := Option.map_eq_some_iff.1 hx'
      have hpending : y.isPending := by
        rw [hrefs, List.getElem?_modify_eq] at hy
        obtain ⟨z, -, rfl⟩ := Option.map_eq_some_iff.1 hy
        rfl
      exact (attendsSource_seek hy hpending hsrc hl').imp id .inr
    · exact ⟨hl'.calm hcalm (by simpa using hi), .inl (((waits hi ha).subscribe x.system hx hn).calm hcalm)⟩

theorem addReference_attendsSource {s : SystemId} {selector : Selector ν} (hk : Known e) (htied : Tied e)
    (h : AttendsSource e r) (ht : e.hostTurn) (hsel : e.knowsSelector selector)
    (hx' : (e.call (.addReference s selector)).core? r = some x') (hd : x'.deconstructed = false)
    (hsrc : x'.selector.source? = some source) :
    Reads (e.call (.addReference s selector)) r source ∧
      (Awaits (e.call (.addReference s selector)) r source ∨
        Seeking (e.call (.addReference s selector)) r) := by
  rw [addReference_eq hsel] at hx' ⊢
  generalize he₁ : { e with
    references := e.enlisted s selector
    stack := .deliver (.reference e.references.length) :: e.stack } = e₁ at hx' ⊢
  have hrefs : e₁.references = e.enlisted s selector := by rw [← he₁]
  have hs : e₁.stack = .deliver (.reference e.references.length) :: e.stack := by rw [← he₁]
  have hnew : e₁.references[e.references.length]? = some { selector, system := s } := by
    rw [hrefs, enlisted_new hsel]
  have hcalm := (plain_attempt (e₁.subscribe e.references.length s) e.references.length).calm
  have hframes : ∀ f ∈ e₁.stack, f.purpose? = none ∨ f ∈ e.stack := fun f hf => by
    rw [hs] at hf
    exact (List.mem_cons.1 hf).imp (fun h => by rw [h]; rfl) id
  rw [hcalm.core?, core?_setState hnew _ rfl] at hx'
  by_cases hr : r = e.references.length
  · subst hr
    rw [if_pos rfl] at hx'
    cases hx'
    have hl : Reads (e₁.subscribe e.references.length s) e.references.length source := by
      intro f hf hp
      rcases hframes f hf with hn | hf
      · simp [hn] at hp
      · exact absurd (hk f hf _ hp) (Nat.lt_irrefl _)
    have hxs : (e₁.subscribe e.references.length s).references[e.references.length]? =
        some { selector, system := s,
               state := .unresolved (some ⟨e₁.listeners.nextId, e₁.nextRuleId s⟩) } := by
      have : (e₁.subscribe e.references.length s).references =
        e₁.references.modify e.references.length fun z => { z with state := _ } := rfl
      rw [this, List.getElem?_modify_eq, hnew]
      rfl
    exact (attendsSource_seek hxs rfl hsrc hl).imp id .inr
  · rw [if_neg hr, core?_enlisted hsel hrefs, if_neg hr] at hx'
    obtain ⟨hl, ha⟩ := h x' source hx' hd hsrc
    have ha := awaits_of_hostTurn hl ha ht
    have hlt : r < e.references.length := by
      obtain ⟨x, hx, -⟩ := Option.map_eq_some_iff.1 hx'
      exact (List.getElem?_eq_some_iff.1 hx).1
    have ha₁ : Awaits e₁ r source := by
      intro hn
      rw [typeOf?_of_enlisted hsel hrefs hlt] at hn
      rw [typeOf?_of_enlisted hsel hrefs (Nat.lt_trans (htied.source_lt hx' hsrc) hlt)]
      simpa [called, restarts, hs, Frame.owesCall, Frame.isRestartOf] using ha hn
    have hl₁ : Reads (e₁.subscribe e.references.length s) r source := hl.of_frames hframes
    exact ⟨hl₁.calm hcalm (by simpa using Ne.symm hr), .inl ((ha₁.subscribe s hnew rfl).calm hcalm)⟩

/-- What a step keeps. -/
theorem step_attendsSource (hv : Lively e) (hk : Known e) (htied : Tied e) (h : AttendsSource e r)
    (hstep : Step e m e') : AttendsSource e' r := by
  intro x' source hx' hd hsrc
  cases hstep with
  | calm hu hc =>
    obtain ⟨hl, ha⟩ := h x' source (by rw [← hu.core?, ← hc.core?]; exact hx') hd hsrc
    exact (attendsSource_calm hl ha hu hc).imp id .inl
  | enrol ha _ =>
    have hrefs := ha.references
    obtain ⟨hl, hw⟩ := h x' source (by rw [core?, ← hrefs]; exact hx') hd hsrc
    have htype : ∀ j, e'.typeOf? j = e.typeOf? j := fun j => by rw [typeOf?, hrefs]; rfl
    refine ⟨?_, hw.imp ?_ ?_⟩
    · exact hl.of_frames fun f hf => .inr (ha.stack ▸ hf)
    · simp [Awaits, htype, called, restarts, ha.stack]
    · simp [Seeking, ha.stack]
  | skip hs hsk hp =>
    obtain ⟨hl, ha⟩ := h x' source (by rw [hp.core?] at hx'; exact hx') hd hsrc
    have ha := awaits_of_top ha hs (by simp [hsk.purpose?.1])
    exact ⟨(hl.turn hs hsk.purpose?.2).calm hp (by simp),
      .inl ((ha.turn hs (hsk.owesCall source r) (hsk.isRestartOf r)).calm hp)⟩
  | @attempt f f' rest i hs hcl =>
    have hcalm := (plain_attempt (e.withStack (f' :: rest)) i).calm
    obtain ⟨hl, ha⟩ := h x' source (by rw [hcalm.core?] at hx'; exact hx') hd hsrc
    have ha := awaits_of_top ha hs (by simp [hcl.purpose?.1])
    have hl := hl.turn hs hcl.purpose?.2
    by_cases hi : i = r
    · subst hi
      rw [hcalm.core?] at hx'
      obtain ⟨x, hx, rfl⟩ := Option.map_eq_some_iff.1 hx'
      exact attendsSource_attempt (hv.turn hs hcl.isRestartOf) hx hd hsrc hl
    · exact ⟨hl.calm hcalm (by simpa using hi),
        .inl ((ha.turn hs (hcl.owesCall (Ne.symm hi) source) (hcl.isRestartOf r)).calm hcalm)⟩
  | lose hs => exact (lose_attendsSource h hs hx' hd hsrc).imp id .inl
  | restart hs => exact restart_attendsSource hv h hs hx' hd hsrc
  | resolve hs hp _ => exact (resolve_attendsSource hv htied h hs hp hx' hd hsrc).imp id .inl
  | addReference ht _ hsel => exact addReference_attendsSource hk htied h ht hsel hx' hd hsrc
  | @deconstruct i ht =>
    have hcalm : Calm none (e.deconstruct i) ((e.deconstruct i).finish .done) := .finish _
    rw [hcalm.core?] at hx'
    rcases deconstruct_cases e i with heq | ⟨y, hst⟩
    · rw [heq] at hx' hcalm ⊢
      obtain ⟨hl, ha⟩ := h x' source hx' hd hsrc
      exact ⟨hl.calm hcalm (by simp), .inl ((awaits_of_hostTurn hl ha ht).calm hcalm)⟩
    · rw [core?_stopped hst.found hst.references] at hx'
      by_cases hi : r = i
      · -- it is this one that stops
        rw [if_pos hi] at hx'
        cases hx'
        cases hd
      · rw [if_neg hi] at hx'
        obtain ⟨hl, ha⟩ := h x' source hx' hd hsrc
        have ha := awaits_of_hostTurn hl ha ht
        have hl' : Reads (e.deconstruct i) r source := hl.of_frames fun f hf => .inr (hst.stack ▸ hf)
        have ha' : Awaits (e.deconstruct i) r source := by
          intro hn
          rw [typeOf?_of_stopped hst.found hst.references] at hn ⊢
          simpa [called, restarts, hst.stack] using ha hn
        exact ⟨hl'.calm hcalm (by simp), .inl (ha'.calm hcalm)⟩

theorem attendsSource_new : AttendsSource ({} : Engine ν) r := fun _ _ hx => by simp [core?] at hx

/-- In every run every reference attends to its source. -/
theorem Reachable.attendsSource (h : e.Reachable) (r : ReferenceId) : AttendsSource e r := by
  obtain ⟨moves, hrun⟩ := h
  refine (run?_keeps (P := fun e => Lively e ∧ Known e ∧ Tied e ∧ AttendsSource e r) ?_
    ⟨lively_new, known_new, tied_new, attendsSource_new⟩ hrun).2.2.2
  rintro e e' m ⟨hv, hk, ht, ha⟩ hm
  have hstep := move?_step hm
  exact ⟨step_lively hv hstep, step_known hk hstep, step_tied ht hstep, step_attendsSource hv hk ht ha hstep⟩

/-- When the engine rests, a reference whose source has a type has one, too. -/
theorem Reachable.typed_of_source {x : Reference ν} (h : e.Reachable) (hrest : e.atRest)
    (hx : e.references[r]? = some x) (hd : x.deconstructed = false)
    (hsrc : x.selector.source? = some source) (ht : e.typeOf? source ≠ none) : e.typeOf? r ≠ none := by
  have hs : e.stack = [] := by simpa [atRest] using hrest
  intro hn
  rcases (h.attendsSource r x.core source (core?_eq hx) hd hsrc).2 with ha | ⟨f, rest, hs', -⟩
  · rcases ha hn with h | h | h
    · exact ht h
    · simp [called, hs] at h
    · simp [restarts, hs] at h
  · simp [hs] at hs'

end Runs
end LiveTypes.Engine
