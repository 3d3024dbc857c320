import LiveTypes.Proofs.Settings

/-!
# How many hops a selection makes

A selection hops from a deferred selector to what the host expands it to, and on demand also from a
reference without a type to the reference's own selector. It may make as many hops as its type system
allows. If that brings it to a selector without a hop, it comes to what this one gives; if not, it stops
right after one hop more. So it ends, however its selectors lead around or on. That is so, too, if the host
calls back from its answers and changes what is looked at: each hop is one in the state it is made in.
-/
namespace LiveTypes

variable {ν : Type}

namespace Oracle

/-- The selector that a selection is at after so many hops, if it makes them all. -/
def stop? (o : Oracle ν) (e : Engine ν) (must : Bool) (limit : Nat) (selector : Selector ν) :
    Nat → Option (Selector ν)
  | 0 => some selector
  | k + 1 => (o.stop? e must limit selector k).bind (o.hop? e must (limit - k))

section Stops

variable {o : Oracle ν} {e : Engine ν} {s : SystemId} {must : Bool} {limit k : Nat}
  {selector next leaf : Selector ν}

/-- After some hops the same selector is ahead as before them, with fewer hops allowed. -/
theorem leaf?_of_stop? (h : o.stop? e must limit selector k = some next) (hk : k ≤ limit + 1) :
    o.leaf? e must (limit + 1) selector = o.leaf? e must (limit + 1 - k) next := by
  induction k generalizing next with
  | zero =>
    cases h
    rfl
  | succ k ih =>
    obtain ⟨mid, hmid, hhop⟩ := Option.bind_eq_some_iff.1 h
    have hleft : limit + 1 - k = limit - k + 1 := by omega
    have hnext : limit + 1 - (k + 1) = limit - k := by omega
    rw [ih hmid (by omega), hleft, hnext]
    simp only [leaf?, hhop]

theorem select_of_stop? (hk : k ≤ limit) (h : o.stop? e must limit selector k = some leaf)
    (hend : o.hop? e must (limit - k) leaf = none) :
    o.select e s must (limit + 1) selector = o.take e s must leaf := by
  have hleft : limit + 1 - k = limit - k + 1 := by omega
  have hleaf : o.leaf? e must (limit + 1) selector = some leaf := by
    rw [leaf?_of_stop? h (by omega), hleft]
    simp only [leaf?, hend]
  simp only [select, hleaf]

theorem select_of_too_many (h : o.stop? e must limit selector (limit + 1) = some next) :
    o.select e s must (limit + 1) selector = .error (.tooDeep (e.limitOf s)) := by
  have hleaf : o.leaf? e must (limit + 1) selector = none := by
    rw [leaf?_of_stop? h le_rfl, Nat.sub_self]
    rfl
  simp only [select, hleaf]

/-- The hops end within the limit, or there is one more. -/
theorem stops_or_exceeds (o : Oracle ν) (e : Engine ν) (must : Bool) (limit : Nat) (selector : Selector ν) :
    (∃ k leaf, k ≤ limit ∧ o.stop? e must limit selector k = some leaf ∧
      o.hop? e must (limit - k) leaf = none) ∨
    ∃ next, o.stop? e must limit selector (limit + 1) = some next := by
  have upTo : ∀ m, (∃ k leaf, k < m ∧ o.stop? e must limit selector k = some leaf ∧
      o.hop? e must (limit - k) leaf = none) ∨ ∃ next, o.stop? e must limit selector m = some next := by
    intro m
    induction m with
    | zero => exact .inr ⟨selector, rfl⟩
    | succ m ih =>
      rcases ih with ⟨k, leaf, hk, h⟩ | ⟨here, hat⟩
      · exact .inl ⟨k, leaf, by omega, h⟩
      · cases hhop : o.hop? e must (limit - m) here with
        | none => exact .inl ⟨m, here, by omega, hat, hhop⟩
        | some next => exact .inr ⟨next, Option.bind_eq_some_iff.2 ⟨here, hat, hhop⟩⟩
  rcases upTo (limit + 1) with ⟨k, leaf, hk, h⟩ | h
  · exact .inl ⟨k, leaf, by omega, h⟩
  · exact .inr h

end Stops

/-- Hops made one after the other, each in the state that stands with the selector it leaves. -/
inductive Hops (o : Oracle ν) (must : Bool) (limit : Nat) (selector : Selector ν) :
    List (Engine ν × Selector ν) → Selector ν → Prop
  | none : Hops o must limit selector [] selector
  | hop {made : List (Engine ν × Selector ν)} {e : Engine ν} {here next : Selector ν} :
    Hops o must limit selector made here → o.hop? e must (limit - made.length) here = some next →
    Hops o must limit selector (made ++ [(e, here)]) next

end Oracle

namespace Engine

/-- The stop of a selection, with the state it is in there: the engine is about to look at the selector, with
nothing but what was under way before left to do. -/
def stopAt (height : Nat) (e : Engine ν) : Move ν → List (Engine ν × Selector ν)
  | .work =>
    match e.stack with
    | .selecting _ selector :: rest => if rest.length = height then [(e, selector)] else []
    | _ => []
  | _ => []

/-- Whether a move answers the selection on top of `base` as foretold, if it answers it at all. -/
def answersAs (o : Oracle ν) (base : List (Frame ν)) (e : Engine ν) (m : Move ν) : Prop :=
  ∀ f a, e.stack = f :: base → m = .answer a → o.Answers f a

/-- Tell who asked for a selection what it came to. -/
def conclude (e : Engine ν) (p : Purpose) : Except SelectError Ty → Engine ν
  | .ok t => e.selected p t
  | .error error => e.unselected p error

section Steps

variable {o : Oracle ν} {e e' : Engine ν} {s : SystemId} {p : Purpose} {n : ν}
  {outcome : Except SelectError Ty}

theorem conclude_eq_finish (hp : ∀ r, p ≠ .resolution r) (e : Engine ν) :
    e.conclude p outcome = e.finish (p.result outcome) := by
  cases p with
  | trial => cases outcome <;> rfl
  | demand => cases outcome <;> rfl
  | resolution r => exact absurd rfl (hp r)

/-- What a selection does at a selector: it goes on from a reference, asks the host, or is over. -/
inductive Looks (o : Oracle ν) (e : Engine ν) (s : SystemId) (p : Purpose) (left : Nat)
    (trail : List (Selector ν)) : Selector ν → Engine ν → Prop
  | onward {r : ReferenceId} {next : Selector ν} : o.hop? e p.must left (.reference r) = some next →
    Looks o e s p left trail (.reference r) (e.push (.selecting ⟨s, p, left, .reference r :: trail⟩ next))
  | expand (d : Deferral) :
    Looks o e s p left trail (.deferred d) (e.push (.expanding d ⟨s, p, left, .deferred d :: trail⟩))
  | construct (i : Initializer) :
    Looks o e s p left trail (.initializer i) (e.push (.initializing i ⟨s, p, left, .initializer i :: trail⟩))
  | infer (n : ν) :
    Looks o e s p left trail (.node n) (e.infer s n (.selection ⟨s, p, left, .node n :: trail⟩))
  | ended {selector : Selector ν} : o.hop? e p.must left selector = none →
    Looks o e s p left trail selector (e.conclude p (o.take e s p.must selector))

theorem selectStep_looks {left : Nat} {trail : List (Selector ν)} {selector : Selector ν} :
    Looks o e s p left trail selector (e.selectStep ⟨s, p, left + 1, trail⟩ selector) := by
  cases selector with
  | type t => exact .ended rfl
  | identifier key =>
    have hstep : e.selectStep ⟨s, p, left + 1, trail⟩ (.identifier key) =
        e.conclude p (o.take e s p.must (.identifier key)) := by
      cases hk : e.graph.get? key <;> simp [selectStep, Oracle.take, conclude, hk]
    exact hstep ▸ .ended rfl
  | initializer i => exact .construct i
  | deferred d => exact .expand d
  | node n => exact .infer n
  | reference r =>
    cases ht : e.typeOf? r with
    | some t =>
      have hstep : e.selectStep ⟨s, p, left + 1, trail⟩ (.reference r) =
          e.conclude p (o.take e s p.must (.reference r)) := by
        simp [selectStep, Oracle.take, conclude, ht]
      exact hstep ▸ .ended (by simp [Oracle.hop?, ht])
    | none =>
      have ends (hp : p.must = false) (hstep : e.selectStep ⟨s, p, left + 1, trail⟩ (.reference r) =
          e.unselected p (.unresolved "")) :
          Looks o e s p left trail (.reference r) (e.selectStep ⟨s, p, left + 1, trail⟩ (.reference r)) := by
        have htake : e.unselected p (.unresolved "") = e.conclude p (o.take e s p.must (.reference r)) := by
          simp [Oracle.take, conclude, ht]
        exact (hstep.trans htake) ▸ .ended (by simp [Oracle.hop?, hp])
      cases p with
      | trial => exact ends rfl (by simp [selectStep, unselected, ht])
      | resolution d => exact ends rfl (by simp [selectStep, unselected, ht])
      | demand =>
        have hstep : e.selectStep ⟨s, .demand, left + 1, trail⟩ (.reference r) =
            e.push (.selecting ⟨s, .demand, left, .reference r :: trail⟩ (e.selectorOf r)) := by
          simp [selectStep, ht]
        exact hstep ▸ .onward (by simp [Oracle.hop?, Purpose.must, ht])

/-- The end of an inference for a selection is the end of the selection. -/
theorem inferred_eq_conclude {i : Inference ν} {wanted : Selection ν} (hu : i.use = .selection wanted)
    (found : Except (List InferenceProblem) Ty) :
    e.inferred i found = e.conclude wanted.purpose (e.judge i.system i.node found) := by
  cases found with
  | ok t => simp only [inferred, hu, judge, conclude]
  | error problems =>
    cases hy : e.systems[i.system]? <;> simp only [inferred, hu, judge, conclude, hy]

end Steps

/-! ## A selection whose host calls back -/

/-- The stops of a selection that is over, and what it came to. -/
inductive Concluded (o : Oracle ν) (s : SystemId) (p : Purpose) (limit : Nat) (selector : Selector ν) :
    List (Engine ν × Selector ν) → Except SelectError Ty → Prop
  | leaf {made : List (Engine ν × Selector ν)} {e : Engine ν} {here : Selector ν} :
    o.Hops p.must limit selector made here → made.length ≤ limit →
    o.hop? e p.must (limit - made.length) here = none →
    Concluded o s p limit selector (made ++ [(e, here)]) (o.take e s p.must here)
  | tooDeep {made : List (Engine ν × Selector ν)} {e : Engine ν} {here : Selector ν} :
    o.Hops p.must limit selector made here → made.length = limit + 1 →
    Concluded o s p limit selector (made ++ [(e, here)]) (.error (.tooDeep limit))

/-- What a frame of a selection is at, after these stops. The selection was asked for in the state `e₀`. -/
inductive Pursues (o : Oracle ν) (e₀ : Engine ν) (s : SystemId) (p : Purpose) (selector : Selector ν) :
    List (Engine ν × Selector ν) → Frame ν → Prop
  | selecting {made : List (Engine ν × Selector ν)} {left : Nat} {trail : List (Selector ν)}
    {here : Selector ν} : o.Hops p.must (e₀.limitOf s) selector made here →
    made.length + left = e₀.limitOf s + 1 →
    Pursues o e₀ s p selector made (.selecting ⟨s, p, left, trail⟩ here)
  | expanding {made : List (Engine ν × Selector ν)} {e : Engine ν} {left : Nat} {trail : List (Selector ν)}
    {d : Deferral} : o.Hops p.must (e₀.limitOf s) selector made (.deferred d) →
    made.length + left = e₀.limitOf s →
    Pursues o e₀ s p selector (made ++ [(e, .deferred d)]) (.expanding d ⟨s, p, left, trail⟩)
  | initializing {made : List (Engine ν × Selector ν)} {e : Engine ν} {left : Nat} {trail : List (Selector ν)}
    {i : Initializer} : o.Hops p.must (e₀.limitOf s) selector made (.initializer i) →
    made.length ≤ e₀.limitOf s →
    Pursues o e₀ s p selector (made ++ [(e, .initializer i)]) (.initializing i ⟨s, p, left, trail⟩)
  | inferring {made : List (Engine ν × Selector ν)} {e : Engine ν} {f : Frame ν} {n : ν}
    {wanted : Selection ν} {rules : List Rule} {problems : List InferenceProblem} :
    o.Hops p.must (e₀.limitOf s) selector made (.node n) → made.length ≤ e₀.limitOf s →
    e₀.settings <+: e.settings → f.inference? = some ⟨s, n, .selection wanted, rules, problems⟩ →
    wanted.purpose = p → inferBy (o.outcome · n) problems rules = inferBy (o.outcome · n) [] (e.rulesOf s) →
    Pursues o e₀ s p selector (made ++ [(e, .node n)]) f

/-- A selection on top of what was under way in `e₀` is at one of its frames, or it is over. -/
def Pursued (o : Oracle ν) (e₀ : Engine ν) (s : SystemId) (p : Purpose) (selector : Selector ν)
    (stops : List (Engine ν × Selector ν)) (e : Engine ν) : Prop :=
  (∃ above f, e.stack = above ++ f :: e₀.stack ∧ Pursues o e₀ s p selector stops f) ∨
    e.stack = e₀.stack ∧ ∃ outcome, Concluded o s p (e₀.limitOf s) selector stops outcome ∧
      e.trace.getLast? = some (.finish (p.result outcome))

section Pursuit

variable {o : Oracle ν} {e₀ e e' : Engine ν} {s : SystemId} {p : Purpose} {selector : Selector ν}
  {stops : List (Engine ν × Selector ν)} {f : Frame ν} {m : Move ν}

theorem Pursued.top (hs : e.stack = f :: e₀.stack) (h : Pursues o e₀ s p selector stops f) :
    Pursued o e₀ s p selector stops e :=
  .inl ⟨[], f, hs, h⟩

theorem Pursued.concluded (hp : ∀ r, p ≠ .resolution r) {outcome : Except SelectError Ty}
    (h : Concluded o s p (e₀.limitOf s) selector stops outcome) (hs : e.stack = e₀.stack) :
    Pursued o e₀ s p selector stops (e.conclude p outcome) := by
  rw [conclude_eq_finish hp]
  exact .inr ⟨hs, outcome, h, by simp [finish, report]⟩

/-- The next stop of a selection that has hops left. -/
theorem Looks.pursued (hp : ∀ r, p ≠ .resolution r) {made : List (Engine ν × Selector ν)} {left : Nat}
    {trail : List (Selector ν)} {here : Selector ν} (hset : e₀.settings <+: e.settings)
    (hmade : o.Hops p.must (e₀.limitOf s) selector made here) (hleft : made.length + left = e₀.limitOf s)
    (hl : Looks o (e.withStack e₀.stack) s p left trail here e') :
    Pursued o e₀ s p selector (made ++ [(e, here)]) e' := by
  have hat : e₀.limitOf s - made.length = left := by omega
  cases hl with
  | onward hhop =>
    refine .top (push_stack _ _) (.selecting (.hop hmade (hat ▸ hhop)) ?_)
    simp only [List.length_append, List.length_singleton]
    omega
  | expand d => exact .top (push_stack _ _) (.expanding hmade hleft)
  | construct i => exact .top (push_stack _ _) (.initializing hmade (by omega))
  | infer n => exact .top (push_stack _ _) (.inferring hmade (by omega) hset rfl rfl rfl)
  | ended hend => exact .concluded hp (.leaf (e := e) hmade (by omega) (hat ▸ hend)) rfl

/-- A step of the inference at a stop. -/
theorem Infers.pursued (hp : ∀ r, p ≠ .resolution r) (hsys : s < e₀.systems.length)
    (hset : e₀.settings <+: e.settings) {made : List (Engine ν × Selector ν)} {e₁ : Engine ν} {n : ν}
    {wanted : Selection ν} {found : Except (List InferenceProblem) Ty}
    (hmade : o.Hops p.must (e₀.limitOf s) selector made (.node n)) (hle : made.length ≤ e₀.limitOf s)
    (hat : e₀.settings <+: e₁.settings) (hwanted : wanted.purpose = p)
    (hfound : found = inferBy (o.outcome · n) [] (e₁.rulesOf s))
    (hi : Infers (o.outcome · n) e f e₀.stack s n (.selection wanted) found e') :
    Pursued o e₀ s p selector (made ++ [(e₁, .node n)]) e' := by
  cases hi with
  | onward _ hs hf _ ho => exact .top hs (.inferring hmade hle hat hf hwanted (ho.trans hfound))
  | @concluded e₂ i hplain hs his hin hiu =>
    have hset₂ : e₀.settings <+: e₂.settings := hplain.settings ▸ hset
    have htake : e₂.judge s n found = o.take e₁ s p.must (.node n) := by
      rw [judge_of_settings hset₂ hsys, ← judge_of_settings hat hsys, hfound]
      rfl
    rw [inferred_eq_conclude hiu, his, hin, hwanted, htake]
    exact .concluded hp (.leaf hmade hle rfl) hs

theorem Pursues.work (hp : ∀ r, p ≠ .resolution r) (hsys : s < e₀.systems.length)
    (hset : e₀.settings <+: e.settings) (h : Pursues o e₀ s p selector stops f) (hs : e.stack = f :: e₀.stack)
    (ht : e.tick = some e') :
    Pursued o e₀ s p selector (stops ++ e.stopAt e₀.stack.length .work) e' := by
  cases h with
  | @selecting _ left trail here hmade hleft =>
    have hstop : e.stopAt e₀.stack.length .work = [(e, here)] := by simp [stopAt, hs]
    have ht : (e.withStack e₀.stack).selectStep ⟨s, p, left, trail⟩ here = e' := by
      simpa only [tick, hs, Option.some.injEq] using ht
    rw [hstop, ← ht]
    cases left with
    | succ left => exact selectStep_looks.pursued hp hset hmade (by omega)
    | zero =>
      -- one hop more than allowed has been made
      have hlimit : (e.withStack e₀.stack).limitOf s = e₀.limitOf s := limitOf_of_settings hset hsys
      have hdeep := Concluded.tooDeep (s := s) (e := e) hmade (by omega)
      simp only [selectStep, tooDeep, hlimit]
      split
      · exact Pursued.concluded (e := e.withStack e₀.stack) hp hdeep rfl
      · exact Pursued.concluded (e := (e.withStack e₀.stack).log _) hp hdeep rfl
  | expanding => simp [tick, hs] at ht
  | initializing => simp [tick, hs] at ht
  | inferring hmade hle hat hf hwanted hrules =>
    have hstop : e.stopAt e₀.stack.length .work = [] := by
      cases f with
      | selecting selection here => cases hf
      | _ => simp [stopAt, hs]
    rw [hstop, List.append_nil]
    cases f with
    | inferring i =>
      cases hf
      exact (tick_infers hs ht).pursued hp hsys hset hmade hle hat hwanted hrules
    | running rule i => simp [tick, hs] at ht
    | _ => cases hf

theorem Pursues.answer {a : Answer ν} (hp : ∀ r, p ≠ .resolution r) (hsys : s < e₀.systems.length)
    (hset : e₀.settings <+: e.settings) (h : Pursues o e₀ s p selector stops f) (hs : e.stack = f :: e₀.stack)
    (hans : o.Answers f a) (ha : e.answer a = some e') : Pursued o e₀ s p selector stops e' := by
  cases h with
  | selecting => simp [Engine.answer, hs] at ha
  | @expanding made e₁ left trail d hmade hleft =>
    cases Oracle.answers_expanding.1 hans
    simp only [Engine.answer, hs, Option.some.injEq] at ha
    subst ha
    have hat : e₀.limitOf s - made.length = left := by omega
    refine .top (push_stack _ _) (.selecting (.hop hmade (by rw [hat]; rfl)) ?_)
    simp only [List.length_append, List.length_singleton]
    omega
  | @initializing made e₁ left trail i hmade hle =>
    cases Oracle.answers_initializing.1 hans
    simp only [Engine.answer, hs, Option.some.injEq] at ha
    subst ha
    have hleaf := Concluded.leaf (s := s) (e := e₁) hmade hle rfl
    exact Pursued.concluded (e := e.withStack e₀.stack) hp hleaf rfl
  | inferring hmade hle hat hf hwanted hrules =>
    cases f with
    | inferring i => simp [Engine.answer, hs] at ha
    | running rule i =>
      obtain ⟨s, n, use, rules, problems⟩ := i
      cases hf
      cases Oracle.answers_running.1 hans
      exact (answer_infers hs ha).pursued hp hsys hset hmade hle hat hwanted hrules
    | _ => cases hf

/-- Only a step with nothing above the selection makes a stop. -/
theorem stopAt_above {g : Frame ν} {above : List (Frame ν)} (hs : e.stack = g :: above ++ f :: e₀.stack) :
    e.stopAt e₀.stack.length m = [] := by
  cases m with
  | work =>
    cases g with
    | selecting selection here =>
      have hlen : (above ++ f :: e₀.stack).length ≠ e₀.stack.length := by
        simp only [List.length_append, List.length_cons]
        omega
      simp only [stopAt, hs, List.cons_append, if_neg hlen]
    | _ => simp [stopAt, hs]
  | _ => rfl

/-- One move while a selection is under way. -/
theorem Pursued.move (hp : ∀ r, p ≠ .resolution r) (hsys : s < e₀.systems.length)
    (hset : e₀.settings <+: e.settings) (h : Pursued o e₀ s p selector stops e) (hne : e.stack ≠ e₀.stack)
    (ha : answersAs o e₀.stack e m) (hm : e.move? m = some e') :
    Pursued o e₀ s p selector (stops ++ e.stopAt e₀.stack.length m) e' := by
  rcases h with ⟨above, f, hs, hf⟩ | ⟨hs, -⟩
  · cases above with
    | cons g above =>
      obtain ⟨above', hs'⟩ := move?_atop hs hm
      rw [stopAt_above hs, List.append_nil]
      exact .inl ⟨above', f, hs', hf⟩
    | nil =>
      cases m with
      | work => exact hf.work hp hsys hset hs hm
      | answer a =>
        simp only [stopAt, List.append_nil]
        exact hf.answer hp hsys hset hs (ha f a hs rfl) hm
      | _ =>
        obtain ⟨frames, hs'⟩ := move?_adds hm nofun nofun
        rw [hs] at hs'
        simp only [stopAt, List.append_nil]
        exact .inl ⟨frames, f, hs', hf⟩
  · exact absurd hs hne

/-- All the moves while a selection is under way. -/
theorem Course.pursued (hp : ∀ r, p ≠ .resolution r) (hsys : s < e₀.systems.length)
    (h : Course (answersAs o e₀.stack) (stopAt e₀.stack.length) e₀.stack (e₀.select s p selector) stops e) :
    e₀.settings <+: e.settings ∧ Pursued o e₀ s p selector stops e := by
  refine h.keeps (P := fun stops e => e₀.settings <+: e.settings ∧ Pursued o e₀ s p selector stops e) ⟨?_, ?_⟩ ?_
  · have hselect : (e₀.select s p selector).settings = e₀.settings := settings_of_eq (push_systems _ _)
    exact hselect ▸ List.prefix_rfl
  · exact .top (push_stack e₀ _) (.selecting .none (Nat.zero_add _))
  · rintro stops e e' m ⟨hset, hpursued⟩ hne ha hm
    exact ⟨hset.trans (move?_settings hm), hpursued.move hp hsys hset hne ha hm⟩

theorem Pursued.ended (h : Pursued o e₀ s p selector stops e) (hs : e.stack = e₀.stack) :
    ∃ outcome, Concluded o s p (e₀.limitOf s) selector stops outcome ∧
      e.trace.getLast? = some (.finish (p.result outcome)) := by
  rcases h with ⟨above, f, hs', -⟩ | ⟨-, h⟩
  · have hlen := congrArg List.length (hs'.symm.trans hs)
    simp only [List.length_append, List.length_cons] at hlen
    omega
  · exact h

end Pursuit

/-- A selection follows the hops from its selector. If the first selector without a hop is no more hops away
than the limit, the selection comes to what that one gives, and else to an error with the limit, for a trial
nothing. With a host that calls back this is so of the hops in the states that they are made in, and one hop
over the limit is the last. No succession of steps and answers is endless. -/
theorem selection_hops_up_to_limit {e : Engine ν} {s : SystemId} {selector : Selector ν} {p : Purpose}
    {c : Call ν} (hc : p = .trial ∧ c = .trySelect s selector ∨ p = .demand ∧ c = .mustSelect s selector)
    (hturn : e.hostTurn) (hk : e.knows c) (o : Oracle ν) :
    (∀ k leaf, k ≤ e.limitOf s → o.stop? e p.must (e.limitOf s) selector k = some leaf →
      o.hop? e p.must (e.limitOf s - k) leaf = none → Gives o.Answers e c (p.result (o.take e s p.must leaf))) ∧
    (∀ next, o.stop? e p.must (e.limitOf s) selector (e.limitOf s + 1) = some next →
      Gives o.Answers e c (p.result (.error (.tooDeep (e.limitOf s))))) ∧
    ((∃ k leaf, k ≤ e.limitOf s ∧ o.stop? e p.must (e.limitOf s) selector k = some leaf ∧
        o.hop? e p.must (e.limitOf s - k) leaf = none) ∨
      ∃ next, o.stop? e p.must (e.limitOf s) selector (e.limitOf s + 1) = some next) ∧
    (∀ stops e', Course (answersAs o e.stack) (stopAt e.stack.length) e.stack (e.call c) stops e' →
      e'.stack = e.stack → ∃ outcome, Concluded o s p (e.limitOf s) selector stops outcome ∧
        e'.trace.getLast? = some (.finish (p.result outcome))) ∧
    WellFounded fun e' e : Engine ν => Proceeds e e' := by
  have hp : ∀ r, p ≠ .resolution r := by
    rintro r rfl
    simp at hc
  have hcall : e.call c = e.select s p selector := by
    rcases hc with ⟨rfl, rfl⟩ | ⟨rfl, rfl⟩ <;> rfl
  have hsys : s < e.systems.length := by
    rcases hc with ⟨rfl, rfl⟩ | ⟨rfl, rfl⟩ <;> simp_all [knows]
  have hgives := gives_select (o := o) hp hcall hturn hk
  refine ⟨?_, ?_, o.stops_or_exceeds e p.must (e.limitOf s) selector, ?_, wellFounded_proceeds⟩
  · intro k leaf hle hstop hend
    rwa [Oracle.select_of_stop? hle hstop hend] at hgives
  · intro next hstop
    rwa [Oracle.select_of_too_many hstop] at hgives
  · intro stops e' hcourse hs
    rw [hcall] at hcourse
    exact (hcourse.pursued hp hsys).2.ended hs

/-- Whether a move answers the question of a demand itself, if it answers that, by the reference 0. Questions of
calls from within are answered as one likes. -/
def expandsInCycle (e : Engine Unit) (m : Move Unit) : Bool :=
  match e.stack, m with
  | [.expanding _ _], .answer (.selector selector) => selector = .reference 0
  | [_], .answer _ => false
  | _, _ => true

/-- A reference whose deferred selector leads back to it, with a limit of two hops. A host that only answers
gets the error. If the host registers a type while it is asked to expand, and lets the reference resolve to
it, the selection finds that type at its third stop. -/
theorem demand_of_cyclic_reference :
    let t : Ty := ⟨1, "t", "t"⟩
    let o : Oracle Unit :=
      ⟨⟨fun _ _ => .notApplicable, fun _ => t⟩, fun _ => t, fun _ _ => .reference 0, fun _ _ _ => {}⟩
    ∃ (e e' : Engine Unit) (stops : List (Engine Unit × Selector Unit)), e.hostTurn ∧ e.limitOf 0 = 2 ∧
      o.stop? e true 2 (.reference 0) 3 = some (.deferred ⟨0⟩) ∧
      Gives o.Answers e (.mustSelect 0 (.reference 0)) (.selection (.error (.tooDeep 2))) ∧
      Course (answersAs o e.stack) (stopAt e.stack.length) e.stack (e.call (.mustSelect 0 (.reference 0)))
        stops e' ∧
      e'.stack = e.stack ∧ stops.map (·.2) = [.reference 0, .deferred ⟨0⟩, .reference 0] ∧
      ∃ outcome, Concluded o 0 .demand 2 (.reference 0) stops outcome ∧
        e'.trace.getLast? = some (.finish (.selection outcome)) := by
  intro t o
  have hok : ∀ e m, expandsInCycle e m → answersAs o [] e m := by
    rintro e m h f a hs rfl
    cases f with
    | expanding d selection =>
      cases a with
      | selector selector =>
        have hsel : selector = .reference 0 := by simpa [expandsInCycle, hs] using h
        rw [hsel]
        exact Oracle.answers_expanding.2 rfl
      | _ => simp [expandsInCycle, hs] at h
    | _ => simp [expandsInCycle, hs] at h
  have hcheck : ((run? ({} : Engine Unit)
      [.call (.addSystem { maxDepth := 2 } ⟨Ty.name, fun _ _ => ""⟩ .graph),
        .call (.addReference 0 (.deferred ⟨0⟩)), .work, .answer (.selector (.reference 0)), .work,
        .work]).bind fun e =>
      ((e.call (.mustSelect 0 (.reference 0))).courseOf? expandsInCycle (stopAt 0) 0 [.work, .work,
        .call (.addType t "t"), .work, .work, .work, .answer (.selector (.type t)), .work, .work, .work, .work,
        .answer (.selector (.reference 0)), .work]).map fun x =>
        decide (e.stack.length = 0 ∧ e.knows (.mustSelect 0 (.reference 0)) ∧ e.limitOf 0 = 2 ∧
          o.stop? e true 2 (.reference 0) 3 = some (.deferred ⟨0⟩) ∧ x.2.stack.length = 0 ∧
          x.1.map (·.2) = [.reference 0, .deferred ⟨0⟩, .reference 0])) = some true := by
    decide +kernel
  obtain ⟨e, -, hcheck⟩ := Option.bind_eq_some_iff.1 hcheck
  obtain ⟨⟨stops, e'⟩, hcourse, hcheck⟩ := Option.map_eq_some_iff.1 hcheck
  obtain ⟨hrest, hk, hlimit, hdeep, hrest', hstops⟩ := of_decide_eq_true hcheck
  have hs : e.stack = [] := List.length_eq_zero_iff.1 hrest
  have hs' : e'.stack = e.stack := (List.length_eq_zero_iff.1 hrest').trans hs.symm
  have hturn : e.hostTurn := by simp [hostTurn, atRest, hs]
  have hcourse : Course (answersAs o e.stack) (stopAt e.stack.length) e.stack
      (e.call (.mustSelect 0 (.reference 0))) stops e' := by
    have hcourse : Course (fun e m => expandsInCycle e m) (stopAt 0) []
        (e.call (.mustSelect 0 (.reference 0))) stops e' := .of_courseOf? hcourse
    rw [hs]
    exact hcourse.mono hok
  obtain ⟨-, hover, -, hends, -⟩ := selection_hops_up_to_limit (.inr ⟨rfl, rfl⟩) hturn hk o
  rw [hlimit] at hover hends
  exact ⟨e, e', stops, hturn, hlimit, hdeep, hover _ hdeep, hcourse, hs', hstops, hends stops e' hcourse hs'⟩

end Engine
end LiveTypes
