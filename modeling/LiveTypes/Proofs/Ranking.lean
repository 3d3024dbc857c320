import LiveTypes.Proofs.Growth

/-!
# Who hears of a removal first

The pass about a removal calls those who listened when it began, in the order of their subscriptions. A
reference that has lost the type tries again at once, so whatever its selector looks at has to have heard
of the removal before: its type system, which drops the rules bound to the type, and the reference that it
reads. `Engine.Ranked` says that the queue has this order.
-/
namespace LiveTypes

variable {ν : Type}

namespace Engine

/-! ## Who has to hear first -/

/-- Who has to hear of a removal before a reference: its system, and the reference that it reads. -/
inductive Precedes (e : Engine ν) (x : Reference ν) : GraphListener → Prop
  | system : Precedes e x (.system x.system)
  | source {source : ReferenceId} {y : Reference ν} : x.selector.source? = some source →
    e.core? source = some y → y.deconstructed = false → Precedes e x (.reference source)

/-- A reference has the type `t`, and will hear that it is gone. -/
def Queued (e : Engine ν) (t : Ty) (queue : List GraphListener) (r : ReferenceId) : Prop :=
  ∃ x, e.core? r = some x ∧ x.deconstructed = false ∧ x.state.type? = some t ∧ .reference r ∈ queue

/-- How the references stand to the queue of a pass about the removal of `t`, in which `cur` has its turn
now. -/
structure Ranked (e : Engine ν) (t : Ty) (queue : List GraphListener) (cur : Option GraphListener) :
    Prop where
  order : ∀ (r : ReferenceId) (x : Reference ν) (b : GraphListener), e.core? r = some x →
    x.deconstructed = false → x.state.type? = some t ∨ cur = some (.reference r) → Precedes e x b →
    Before (cur.toList ++ queue) b (.reference r)
  hears : ∀ (r : ReferenceId) (x : Reference ν), e.core? r = some x → x.deconstructed = false →
    x.state.type? = some t → .system x.system ∈ cur.toList ++ queue → .reference r ∈ queue
  follows : ∀ (r source : ReferenceId) (x : Reference ν), e.core? r = some x →
    x.deconstructed = false → x.selector.source? = some source →
    Queued e t queue source ∨ cur = some (.reference source) → Queued e t queue r
  newer : ∀ (r source : ReferenceId) (x y : Reference ν) (w w' : Nat), e.core? r = some x →
    x.deconstructed = false → e.core? source = some y → x.selector.source? = some source →
    x.state.watch? = some w → y.state.watch? = some w' → w' < w ∨ Queued e t queue r

/-- Two references differ at most in what they wait for. -/
structure Alike (x x' : Reference ν) : Prop where
  selector : x'.selector = x.selector
  system : x'.system = x.system
  deconstructed : x'.deconstructed = x.deconstructed
  type : x'.state.type? = x.state.type?
  watch : x'.state.watch? = x.state.watch?

section Queued

variable {e e' : Engine ν} {t : Ty} {queue : List GraphListener} {l : GraphListener} {r : ReferenceId}

theorem Queued.cons (h : Queued e t queue r) : Queued e t (l :: queue) r := by
  obtain ⟨x, hx, hd, ht, hm⟩ := h
  exact ⟨x, hx, hd, ht, List.mem_cons_of_mem _ hm⟩

/-- Who is in the queue for its type stays there, if it is not its turn. -/
theorem Queued.tail (h : Queued e t (l :: queue) r) (hl : l ≠ .reference r ∨
      ∀ x, e.core? r = some x → x.deconstructed = false → x.state.type? ≠ some t) :
    Queued e t queue r := by
  obtain ⟨x, hx, hd, ht, hm⟩ := h
  refine ⟨x, hx, hd, ht, ?_⟩
  rcases List.mem_cons.1 hm with heq | hm
  · exact absurd ht (hl.resolve_left (fun hne => hne heq.symm) x hx hd)
  · exact hm

theorem Queued.alike (h : Queued e t queue r)
    (ha : ∀ x, e.core? r = some x → ∃ x', e'.core? r = some x' ∧ Alike x x') : Queued e' t queue r := by
  obtain ⟨x, hx, hd, ht, hm⟩ := h
  obtain ⟨x', hx', hal⟩ := ha x hx
  exact ⟨x', hx', hal.deconstructed.trans hd, hal.type.trans ht, hm⟩

theorem Queued.congr (h : Queued e t queue r) (hc : ∀ i, e'.core? i = e.core? i) : Queued e' t queue r := by
  obtain ⟨x, hx, hd, ht, hm⟩ := h
  exact ⟨x, (hc r).trans hx, hd, ht, hm⟩

theorem Restated.queued {state : ReferenceState} {x : Reference ν} {i : ReferenceId}
    (hre : Restated e r x state e') (hi : i ≠ r) : Queued e' t queue i ↔ Queued e t queue i := by
  simp only [Queued, hre.core, if_neg hi]

end Queued

section Ranked

variable {e e' : Engine ν} {t : Ty} {queue : List GraphListener} {cur : Option GraphListener}
  {l : GraphListener} {r : ReferenceId} {x : Reference ν}

theorem Alike.refl (x : Reference ν) : Alike x x := ⟨rfl, rfl, rfl, rfl, rfl⟩

theorem Precedes.congr {x x' : Reference ν} {b : GraphListener} (h : Precedes e' x' b)
    (hsys : x'.system = x.system) (hsel : x'.selector = x.selector)
    (hc : ∀ i y', e'.core? i = some y' → ∃ y, e.core? i = some y ∧ y'.deconstructed = y.deconstructed) :
    Precedes e x b := by
  cases h with
  | system =>
    rw [hsys]
    exact .system
  | source hs hy hd =>
    obtain ⟨y, hy', hdy⟩ := hc _ _ hy
    exact .source (hsel ▸ hs) hy' (hdy ▸ hd)

/-- What references wait for does not matter. -/
theorem Ranked.alike (hr : Ranked e t queue cur)
    (ha : ∀ i x', e'.core? i = some x' → ∃ x, e.core? i = some x ∧ Alike x x')
    (ha' : ∀ i x, e.core? i = some x → ∃ x', e'.core? i = some x' ∧ Alike x x') :
    Ranked e' t queue cur := by
  have back : ∀ {i}, Queued e' t queue i → Queued e t queue i := by
    rintro i ⟨x', hx', hd, ht, hm⟩
    obtain ⟨x, hx, hal⟩ := ha i x' hx'
    exact ⟨x, hx, hal.deconstructed ▸ hd, hal.type ▸ ht, hm⟩
  refine ⟨fun r x' b hx' hd ht hb => ?_, fun r x' hx' hd ht hm => ?_,
    fun r source x' hx' hd hs hc => ?_, fun r source x' y' w w' hx' hd hy' hs hw hw' => ?_⟩
  all_goals obtain ⟨x, hx, hal⟩ := ha r x' hx'
  · refine hr.order r x b hx (hal.deconstructed ▸ hd) (hal.type ▸ ht) ?_
    refine hb.congr hal.system hal.selector fun i y' hy' => ?_
    obtain ⟨y, hy, hay⟩ := ha i y' hy'
    exact ⟨y, hy, hay.deconstructed⟩
  · exact hr.hears r x hx (hal.deconstructed ▸ hd) (hal.type ▸ ht) (hal.system ▸ hm)
  · exact (hr.follows r source x hx (hal.deconstructed ▸ hd) (hal.selector ▸ hs)
      (hc.imp back id)).alike (ha' r)
  · obtain ⟨y, hy, hay⟩ := ha source y' hy'
    exact (hr.newer r source x y w w' hx (hal.deconstructed ▸ hd) hy (hal.selector ▸ hs)
      (hal.watch ▸ hw) (hay.watch ▸ hw')).imp id fun hq => hq.alike (ha' r)

theorem Ranked.congr (hr : Ranked e t queue cur) (hc : ∀ i, e'.core? i = e.core? i) :
    Ranked e' t queue cur :=
  hr.alike (fun i x' hx' => ⟨x', hc i ▸ hx', .refl x'⟩) fun i x hx => ⟨x, (hc i).trans hx, .refl x⟩

/-- A turn is over. -/
theorem Ranked.over (hr : Ranked e t queue cur) : Ranked e t queue none := by
  refine ⟨fun r x b hx hd ht hb => ?_, fun r x hx hd ht hm => ?_,
    fun r source x hx hd hs hc => ?_, hr.newer⟩
  · have := hr.order r x b hx hd (.inl (ht.resolve_right (by simp))) hb
    cases cur with
    | none => exact this
    | some l => exact this.tail
  · exact hr.hears r x hx hd ht (List.mem_append_right _ hm)
  · exact hr.follows r source x hx hd hs (.inl (hc.resolve_right (by simp)))

/-- The next in the queue is nobody who has the type, and its turn is over at once. -/
theorem Ranked.next (hr : Ranked e t (l :: queue) none)
    (hl : ∀ r, l ≠ .reference r ∨
      ∀ x, e.core? r = some x → x.deconstructed = false → x.state.type? ≠ some t) :
    Ranked e t queue none := by
  refine ⟨fun r x b hx hd ht hb => (hr.order r x b hx hd ht hb).tail, fun r x hx hd ht hm => ?_,
    fun r source x hx hd hs hc => ?_, fun r source x y w w' hx hd hy hs hw hw' => ?_⟩
  · have hm := hr.hears r x hx hd ht (List.mem_cons_of_mem _ hm)
    obtain ⟨-, -, -, -, hm⟩ := Queued.tail ⟨x, hx, hd, ht, hm⟩ (hl r)
    exact hm
  · exact (hr.follows r source x hx hd hs (.inl (hc.resolve_right (by simp)).cons)).tail (hl r)
  · exact (hr.newer r source x y w w' hx hd hy hs hw hw').imp id fun hq => hq.tail (hl r)

/-- The turn of an observer or a system begins. -/
theorem Ranked.turn (hr : Ranked e t (l :: queue) none) (hl : ∀ r, l ≠ .reference r) :
    Ranked e t queue (some l) := by
  have hnext := hr.next fun r => .inl (hl r)
  refine ⟨fun r x b hx hd ht hb => ?_, fun r x hx hd ht hm => ?_,
    fun r source x hx hd hs hc => ?_, hnext.newer⟩
  · exact hr.order r x b hx hd (.inl (ht.resolve_right fun h => hl r (Option.some.inj h))) hb
  · rcases List.mem_cons.1 (hr.hears r x hx hd ht hm) with heq | hm
    · exact absurd heq.symm (hl r)
    · exact hm
  · exact hnext.follows r source x hx hd hs (.inl (hc.resolve_right fun h => hl source (Option.some.inj h)))

/-- The turn of a reference with the type begins: it loses it. -/
theorem Ranked.lose {subs : Option Subscriptions} (hr : Ranked e t (.reference r :: queue) none)
    (htied : Tied e) (hre : Restated e r x (.unresolved subs) e') (hdx : x.deconstructed = false)
    (htx : x.state.type? = some t) : Ranked e' t queue (some (.reference r)) := by
  have ne : ∀ {i}, i ≠ r → GraphListener.reference r ≠ .reference i := by
    rintro i hi heq
    cases heq
    exact hi rfl
  refine ⟨fun i y b hy hd ht hb => ?_, fun i y hy hd ht hm => ?_,
    fun i source y hy hd hs hc => ?_, fun i source y z w w' hy hd hz hs hw hw' => ?_⟩
  · by_cases hi : i = r
    · subst hi
      cases hre.self.symm.trans hy
      exact hr.order i x b hre.found hdx (.inl htx) (hb.congr rfl rfl hre.old)
    · have ht : y.state.type? = some t := ht.resolve_right fun h => ne hi (Option.some.inj h)
      exact hr.order i y b (hre.other hi hy) hd (.inl ht) (hb.congr rfl rfl hre.old)
  · have hi : i ≠ r := by
      rintro rfl
      cases hre.self.symm.trans hy
      cases ht
    rcases List.mem_cons.1 (hr.hears i y (hre.other hi hy) hd ht hm) with heq | hm
    · exact absurd heq.symm (ne hi)
    · exact hm
  · by_cases hi : i = r
    · -- what it reads has had its turn, for it came first
      subst hi
      cases hre.self.symm.trans hy
      have hne := Nat.ne_of_lt (htied.source_lt hre.found hs)
      rcases hc with ⟨z, hz, hdz, -, hm⟩ | hc
      · have hfirst := hr.order i x _ hre.found hdx (.inl htx) (.source hs (hre.other hne hz) hdz)
        exact absurd hm hfirst.head
      · exact absurd (Option.some.inj hc) (ne hne)
    · have hq : Queued e t (.reference r :: queue) source := by
        by_cases hso : source = r
        · subst hso
          exact ⟨x, hre.found, hdx, htx, List.mem_cons_self⟩
        · have hc := hc.resolve_right fun h => ne hso (Option.some.inj h)
          exact ((hre.queued hso).1 hc).cons
      have hqi := hr.follows i source y (hre.other hi hy) hd hs (.inl hq)
      exact (hre.queued hi).2 (hqi.tail (.inl (ne hi)))
  · have hi : i ≠ r := by
      rintro rfl
      cases hre.self.symm.trans hy
      cases hw
    have hso : source ≠ r := by
      rintro rfl
      cases hre.self.symm.trans hz
      cases hw'
    exact (hr.newer i source y z w w' (hre.other hi hy) hd (hre.other hso hz) hs hw hw').imp id
      fun hq => (hre.queued hi).2 (hq.tail (.inl (ne hi)))

/-- The reference that has its turn takes a type again; its watch is the newest. -/
theorem Ranked.found {t' : Ty} (hr : Ranked e t queue (some (.reference r))) (htied : Tied e)
    (hsub : Subscribed e) (hre : Restated e r x (.resolved t' (some e.listeners.nextId)) e')
    (hdx : x.deconstructed = false) (htx : x.state.type? = none) :
    Ranked e' t queue (some (.reference r)) := by
  have off : ∀ {i}, Queued e t queue i → i ≠ r := by
    rintro i ⟨y, hy, -, ht, -⟩ rfl
    cases hre.found.symm.trans hy
    rw [htx] at ht
    cases ht
  refine ⟨fun i y b hy hd ht hb => ?_, fun i y hy hd ht hm => ?_,
    fun i source y hy hd hs hc => ?_, fun i source y z w w' hy hd hz hs hw hw' => ?_⟩
  · by_cases hi : i = r
    · subst hi
      cases hre.self.symm.trans hy
      exact hr.order i x b hre.found hdx (.inr rfl) (hb.congr rfl rfl hre.old)
    · exact hr.order i y b (hre.other hi hy) hd ht (hb.congr rfl rfl hre.old)
  · by_cases hi : i = r
    · -- its system has had its turn, for it came first
      subst hi
      have hfirst := (hr.order i x _ hre.found hdx (.inr rfl) .system).head
      cases hre.self.symm.trans hy
      rcases List.mem_cons.1 hm with heq | hm
      · cases heq
      · exact absurd hm hfirst
    · exact hr.hears i y (hre.other hi hy) hd ht hm
  · obtain ⟨y', hy', hd', hs'⟩ : ∃ y', e.core? i = some y' ∧ y'.deconstructed = false ∧
        y'.selector.source? = some source := by
      by_cases hi : i = r
      · subst hi
        cases hre.self.symm.trans hy
        exact ⟨x, hre.found, hdx, hs⟩
      · exact ⟨y, hre.other hi hy, hd, hs⟩
    have hc : Queued e t queue source ∨ some (.reference r) = some (GraphListener.reference source) := by
      by_cases hso : source = r
      · subst hso
        exact .inr rfl
      · exact hc.imp (hre.queued hso).1 id
    have hqi := hr.follows i source y' hy' hd' hs' hc
    exact (hre.queued (off hqi)).2 hqi
  · by_cases hi : i = r
    · subst hi
      cases hre.self.symm.trans hy
      cases hw
      have hne := Nat.ne_of_lt (htied.source_lt hre.found hs)
      exact .inl (hsub.watch_lt (hre.other hne hz) hw')
    · by_cases hso : source = r
      · subst hso
        have hqi := hr.follows i source y (hre.other hi hy) hd hs (.inr rfl)
        exact .inr ((hre.queued hi).2 hqi)
      · exact (hr.newer i source y z w w' (hre.other hi hy) hd (hre.other hso hz) hs hw hw').imp id
          (hre.queued hi).2

end Ranked

end Engine
end LiveTypes
