import LiveTypes.Proofs.Growth

/-!
# Types, rules and references come

When the engine rests, every reference has what its selector gives. A call by which something comes, or by
which a reference stops, begins with everybody who may now find something else among those to be called.
-/
namespace LiveTypes

variable {ν : Type}

namespace Engine

section Calls

variable {h : Host ν} {sound : SystemId → Prop} {e e' : Engine ν} {r : ReferenceId} {x : Reference ν}

/-- Who will not try again has what its selector gives. -/
theorem Tended.unsummoned (ht : Tended h sound e) (hsm : e.summoned r = false) (hsk : ¬ Seeking e r)
    (hx : e.core? r = some x) (hd : x.deconstructed = false) (hdef : Clear sound x) :
    Settled h e x := by
  refine (ht.settled r x hx hd hdef).resolve_right ?_
  rintro ⟨-, hsm' | hsk'⟩
  · rw [hsm] at hsm'
    cases hsm'
  · exact hsk hsk'

/-- When the engine rests, every reference has what its selector gives. -/
theorem Tended.at_rest (ht : Tended h sound e) (hs : e.stack = []) (hx : e.core? r = some x)
    (hd : x.deconstructed = false) (hdef : Clear sound x) : Settled h e x := by
  refine ht.unsummoned (by simp [summoned, hs]) ?_ hx hd hdef
  rintro ⟨f, rest, hf, -⟩
  simp [hs] at hf

/-- A call begins with frames that are not for references. -/
theorem Tended.of_call
    (hb : ∀ g ∈ e'.stack, ∀ r, g.purpose? ≠ some (.resolution r) ∧ g.isRestartOf r = false)
    (hset : ∀ r x, e'.core? r = some x → x.deconstructed = false → Clear sound x →
      Settled h e' x ∨ (x.isPending ∧ e'.summoned r))
    (hnew : ∀ r source x y w w', e'.core? r = some x → e'.core? source = some y →
      x.selector.source? = some source → x.state.watch? = some w → y.state.watch? = some w' → w' < w) :
    Tended h sound e' where
  below := fun g hg r => (hb g (List.mem_of_mem_tail hg) r).1
  seeking := fun g rest r hs hp => absurd hp (hb g (by rw [hs]; exact List.mem_cons_self) r).1
  awake := fun r => restarts_eq_zero.2 fun g hg => (hb g hg r).2
  settled := fun r x hx hd hdef => (hset r x hx hd hdef).imp id fun ⟨hp, hsm⟩ => ⟨hp, .inl hsm⟩
  newer := hnew

/-- A call that touches neither references nor what they find. -/
theorem Tended.called (ht : Tended h sound e) (hs : e.stack = [])
    (hb : ∀ g ∈ e'.stack, ∀ r, g.purpose? ≠ some (.resolution r) ∧ g.isRestartOf r = false)
    (hc : ∀ r, e'.core? r = e.core? r) (hg : ∀ key, e'.graph.get? key = e.graph.get? key)
    (hr : ∀ s, e'.rulesOf s = e.rulesOf s) : Tended h sound e' := by
  refine .of_call hb (fun r x hx hd hdef => .inl ?_) (by simpa only [hc] using ht.newer)
  rw [hc] at hx
  have htype := typeOf?_of_core hc
  rw [Settled, h.find?_congr hg (hr _) fun source _ => htype source]
  exact ht.at_rest hs hx hd hdef

/-- Who waits is among those that a pass over the graph calls. -/
theorem Subscribed.mem_listeners (hsub : Subscribed e) (hx : e.core? r = some x) (hp : x.isPending) :
    .reference r ∈ e.listeners.listeners e.hearsGraph Option.isNone := by
  have hheld := hsub.held r
  rw [hx] at hheld
  unfold Reference.isPending at hp
  split at hp
  · rename_i subs hst
    have hm : (⟨subs.graph, none, .reference r⟩ : Entry (Option Ty) GraphListener) ∈
        e.listeners.held (.reference r) := by
      rw [hheld]
      simp [Reference.graphEntries, hst, ReferenceState.graphEntries]
    exact Registry.mem_listeners.2 ⟨_, (Registry.mem_held.1 hm).1, rfl, rfl, rfl⟩
  · cases hp

/-- Who waits is among those that a pass over the rules of its system calls. -/
theorem Subscribed.mem_ruleListeners (hsub : Subscribed e) (hx : e.core? r = some x) (hp : x.isPending)
    {y : System ν} (hy : e.systems[x.system]? = some y) :
    .reference r ∈ y.listeners.listeners e.hearsRules fun _ => true := by
  have hheld := hsub.heldRules x.system y r hy
  rw [hx] at hheld
  unfold Reference.isPending at hp
  split at hp
  · rename_i subs hst
    have hm : (⟨subs.rules, (), .reference r⟩ : Entry Unit RuleListener) ∈
        y.listeners.held (.reference r) := by
      rw [hheld]
      simp [Reference.ruleEntries, hst, ReferenceState.ruleEntries]
    exact Registry.mem_listeners.2 ⟨_, (Registry.mem_held.1 hm).1, rfl, rfl, rfl⟩
  · cases hp

/-- A type comes: only who selects its key finds something new, and hears of it. -/
theorem Tended.addType {t : Ty} {key : String} (ht : Tended h sound e) (hg : Grounded h sound e) (hs : e.stack = [])
    (hadd : TypeAdded e t key e') : Tended h sound e' := by
  obtain ⟨result, hs'⟩ := hadd.stack
  rw [hs] at hs'
  have hc : ∀ r, e'.core? r = e.core? r := fun r => by rw [core?, hadd.references]; rfl
  have htype := typeOf?_of_core hc
  have hrules : ∀ s, e'.rulesOf s = e.rulesOf s := fun s => by rw [rulesOf, hadd.systems]; rfl
  have hkey := Graph.get?_insert hadd.nodes
  refine .of_call ?_ (fun r x hx hd hdef => ?_) (by simpa only [hc] using ht.newer)
  · simp [hs', Frame.purpose?, Frame.isRestartOf]
  · rw [hc] at hx
    have hset := ht.at_rest hs hx hd hdef
    by_cases hsel : x.selector = .identifier key
    · have hnone : x.state.type? = none := by
        rw [hset, hsel]
        exact hadd.free
      have hp := hg.lively.pending hx hd (ht.awake r) hnone
      refine .inr ⟨hp, ?_⟩
      simp [summoned, hs', Frame.summons, hg.subscribed.mem_listeners hx hp]
    · left
      rw [Settled, hset]
      cases hx' : x.selector with
      | identifier k =>
        have hne : k ≠ key := by
          rintro rfl
          exact hsel hx'
        simp only [Host.find?, hkey, if_neg hne]
      | type t' => rfl
      | initializer i => rfl
      | reference source => exact (htype source).symm
      | deferred d => rfl
      | node n => simp only [Host.find?, hrules]

/-- A rule comes: only who waits in its system finds something new, and hears of it. -/
theorem Tended.addRule {s : SystemId} {y : System ν} {tag : RuleTag} {name : String}
    {boundTo : Option Ty} {result : Result ν} (ht : Tended h sound e) (hg : Grounded h sound e) (hs : e.stack = [])
    (hy : e.systems[s]? = some y)
    (hchg : RulesChanged (e.withStack (.deliver result :: e.stack)) s (y.rules.add tag name boundTo)
      (.added y.rules.nextId boundTo) e') : Tended h sound e' := by
  obtain ⟨y', hy', hs'⟩ := hchg.stack
  cases hy.symm.trans hy'
  have hs' : e'.stack = [.rulePass s (.added y.rules.nextId boundTo)
      (y.listeners.listeners e.hearsRules fun _ => true), .deliver result] := by rw [hs', hs]; rfl
  have hc : ∀ r, e'.core? r = e.core? r := hchg.core?
  have hrules : e'.rulesOf s = e.rulesOf s ++ [y.rules.next tag name boundTo] := by
    rw [hchg.rulesOf_self, rulesOf, hy]
    rfl
  refine .of_call ?_ (fun r x hx hd hdef => ?_) (by simpa only [hc] using ht.newer)
  · simp [hs', Frame.purpose?, Frame.isRestartOf]
  · rw [hc] at hx
    have hset := ht.at_rest hs hx hd hdef
    rcases hchg.find? h x.system x.selector with ⟨n, hsel, rfl⟩ | hfind
    · cases hinfer : h.find? e x.system x.selector with
      | none =>
        have hp := hg.lively.pending hx hd (ht.awake r) (hset.trans hinfer)
        refine .inr ⟨hp, ?_⟩
        simp [summoned, hs', Frame.summons, hg.subscribed.mem_ruleListeners hx hp hy]
      | some t =>
        left
        rw [Settled, hset, hinfer, hsel]
        rw [hsel] at hinfer
        have hinfer : h.inferFrom n (e.rulesOf x.system) = some t := hinfer
        simp only [Host.find?, hrules, h.inferFrom_append, hinfer, Option.some_or]
    · exact .inl (Eq.trans hset hfind.symm)

/-- A reference comes and searches; nobody reads it yet. -/
theorem Tended.addReference {s : SystemId} {selector : Selector ν} (ht : Tended h sound e) (hg : Grounded h sound e)
    (hs : e.stack = []) (hk : e.knowsSelector selector) :
    Tended h sound (e.call (.addReference s selector)) := by
  rw [addReference_eq hk]
  generalize he₁ : { e with
    references := e.enlisted s selector
    stack := .deliver (.reference e.references.length) :: e.stack } = e₁
  have hrefs : e₁.references = e.enlisted s selector := by rw [← he₁]
  have hstill : Still e (e₁.subscribe e.references.length s) := by
    rw [← he₁]
    exact .of_modify rfl rfl fun _ => rfl
  have hs₁ : (e₁.subscribe e.references.length s).stack = [.deliver (.reference e.references.length)] := by
    rw [← he₁]
    simp [subscribe, hs]
  have hnew : e₁.references[e.references.length]? = some { selector, system := s } := by
    rw [hrefs, enlisted_new hk]
  have hc : ∀ i, (e₁.subscribe e.references.length s).core? i = if i = e.references.length then
      some { selector, system := s,
             state := .unresolved (some ⟨e₁.listeners.nextId, e₁.nextRuleId s⟩) }
      else e.core? i := fun i => by
    rw [core?_setState hnew _ rfl, core?_enlisted hk hrefs]
    by_cases hi : i = e.references.length
    · rw [if_pos hi, if_pos hi]
      rfl
    · rw [if_neg hi, if_neg hi, if_neg hi]
  generalize he₂ : e₁.subscribe e.references.length s = e₂ at hstill hs₁ hc
  have hexists : ∀ i x, e.core? i = some x → i < e.references.length := fun i x hx => by
    obtain ⟨y, hy, -⟩ := Option.map_eq_some_iff.1 hx
    exact (List.getElem?_eq_some_iff.1 hy).1
  have hself := hc e.references.length
  rw [if_pos rfl] at hself
  have hfo : Focused h (e₂.attempt e.references.length) := by
    refine .attempt hself rfl fun g hgm => ?_
    rw [hs₁] at hgm
    rw [List.mem_singleton.1 hgm]
    simp [Frame.purpose?]
  rw [attempt_eq hself rfl, hs₁] at hfo ⊢
  refine { hfo with awake := fun i => ?_, settled := fun i y hy hd hdef => ?_,
                    newer := fun i source y z w w' hy hz hsrc hw hw' => ?_ }
  · simp [restarts_eq_zero, Frame.isRestartOf]
  · have hy : e₂.core? i = some y := hy
    rw [hc] at hy
    by_cases hi : i = e.references.length
    · subst hi
      rw [if_pos rfl] at hy
      cases hy
      exact .inr ⟨rfl, .inr ⟨_, _, rfl, rfl⟩⟩
    · rw [if_neg hi] at hy
      left
      have hfind : h.find? e₂ y.system y.selector = h.find? e y.system y.selector := by
        refine hstill.find? h fun source hsrc => ?_
        have hlt := Nat.lt_trans (hg.tied.source_lt hy hsrc) (hexists i y hy)
        rw [typeOf?_eq_core, typeOf?_eq_core, hc, if_neg (Nat.ne_of_lt hlt)]
      exact (ht.at_rest hs hy hd hdef).trans hfind.symm
  · have hy : e₂.core? i = some y := hy
    have hz : e₂.core? source = some z := hz
    rw [hc] at hy hz
    by_cases hi : i = e.references.length
    · rw [if_pos hi] at hy
      cases hy
      cases hw
    · rw [if_neg hi] at hy
      have hlt := Nat.lt_trans (hg.tied.source_lt hy hsrc) (hexists i y hy)
      rw [if_neg (Nat.ne_of_lt hlt)] at hz
      exact ht.newer i source y z w w' hy hz hsrc hw hw'

/-- A reference that stops keeps its type for those who read it. -/
theorem Tended.deconstruct (ht : Tended h sound e) (hs : e.stack = []) (r : ReferenceId) :
    Tended h sound ((e.deconstruct r).finish .done) := by
  rcases deconstruct_cases e r with heq | ⟨x, hst⟩
  · rw [heq]
    exact ht.called hs (by simp [finish, report, hs]) (fun _ => rfl) (fun _ => rfl) fun _ => rfl
  · have hstill := Still.deconstruct e r
    have hs' : ((e.deconstruct r).finish .done).stack = [] := hst.stack.trans hs
    have hc : ∀ i, ((e.deconstruct r).finish .done).core? i = if i = r then
        some { x.core with state := x.state.frozen, deconstructed := true } else e.core? i :=
      core?_stopped hst.found hst.references
    have htype : ∀ i, ((e.deconstruct r).finish .done).typeOf? i = e.typeOf? i := fun i => by
      rw [typeOf?_eq_core, typeOf?_eq_core, hc]
      by_cases hi : i = r
      · rw [if_pos hi, hi, core?_eq hst.found]
        exact ReferenceState.frozen_type? _
      · rw [if_neg hi]
    have hwatch : x.state.frozen.watch? = none := by cases x.state <;> rfl
    refine .of_call (by simp [hs']) (fun i y hy hd hdef => .inl ?_)
      fun i source y z w w' hy hz hsrc hw hw' => ?_
    · rw [hc] at hy
      by_cases hi : i = r
      · rw [if_pos hi] at hy
        cases hy
        cases hd
      · rw [if_neg hi] at hy
        have hfind : h.find? ((e.deconstruct r).finish .done) y.system y.selector =
            h.find? e y.system y.selector :=
          h.find?_congr hstill.get? (hstill.rulesOf _) fun source _ => htype source
        exact (ht.at_rest hs hy hd hdef).trans hfind.symm
    · rw [hc] at hy hz
      by_cases hi : i = r
      · rw [if_pos hi] at hy
        cases hy
        simp [hwatch] at hw
      · by_cases hso : source = r
        · rw [if_pos hso] at hz
          cases hz
          simp [hwatch] at hw'
        · rw [if_neg hi] at hy
          rw [if_neg hso] at hz
          exact ht.newer i source y z w w' hy hz hsrc hw hw'

end Calls

end Engine
end LiveTypes
