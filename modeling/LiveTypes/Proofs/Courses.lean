import LiveTypes.Proofs.Termination

/-!
# The course of a call

A call puts its work on top of what was under way. Until that work is over the host may do many things:
answer, call back, let observers and type systems go. `Engine.Course` is a run of this kind, with whatever
one wants to note of its moves. What was under way before is still there at its end, and a call that is to
deliver a result delivers it.
-/
namespace LiveTypes.Engine

variable {ν α : Type}

/-- What the engine comes to by allowed moves, all made before it is back at the work `base`, and what is
noted of these moves, oldest first. -/
inductive Course (allowed : Engine ν → Move ν → Prop) (note : Engine ν → Move ν → List α)
    (base : List (Frame ν)) (e : Engine ν) : List α → Engine ν → Prop
  | begun : Course allowed note base e [] e
  | move {notes : List α} {e' e'' : Engine ν} {m : Move ν} :
    Course allowed note base e notes e' → e'.stack ≠ base → allowed e' m → e'.move? m = some e'' →
    Course allowed note base e (notes ++ note e' m) e''

section Courses

variable {allowed : Engine ν → Move ν → Prop} {note : Engine ν → Move ν → List α}
  {base : List (Frame ν)} {e e' : Engine ν} {notes : List α} {m : Move ν}

/-- What holds at first of nothing and is kept by every move holds of all that is noted. -/
theorem Course.keeps {P : List α → Engine ν → Prop} (h : Course allowed note base e notes e') (begun : P [] e)
    (keeps : ∀ {notes e' e'' m}, P notes e' → e'.stack ≠ base → allowed e' m → e'.move? m = some e'' →
      P (notes ++ note e' m) e'') : P notes e' := by
  induction h with
  | begun => exact begun
  | move _ hne ha hm ih => exact keeps ih hne ha hm

theorem Course.mono {allowed' : Engine ν → Move ν → Prop} (h : Course allowed note base e notes e')
    (hle : ∀ e m, allowed e m → allowed' e m) : Course allowed' note base e notes e' := by
  induction h with
  | begun => exact .begun
  | move _ hne ha hm ih => exact .move ih hne (hle _ _ ha) hm

theorem Course.head {e'' : Engine ν} (hne : e.stack ≠ base) (ha : allowed e m) (hm : e.move? m = some e')
    (h : Course allowed note base e' notes e'') : Course allowed note base e (note e m ++ notes) e'' := by
  induction h with
  | begun => simpa using Course.move .begun hne ha hm
  | move _ hne' ha' hm' ih =>
    rw [← List.append_assoc]
    exact .move ih hne' ha' hm'

/-- Make moves one after the other, all of them checked and made at another height of the stack, and note
them; nothing if one fails. -/
def courseOf? (ok : Engine ν → Move ν → Bool) (note : Engine ν → Move ν → List α) (height : Nat)
    (e : Engine ν) : List (Move ν) → Option (List α × Engine ν)
  | [] => some ([], e)
  | m :: moves => (e.move? m).bind fun e' =>
    if e.stack.length ≠ height && ok e m then
      (e'.courseOf? ok note height moves).map fun (notes, e'') => (note e m ++ notes, e'')
    else none

theorem Course.of_courseOf? {ok : Engine ν → Move ν → Bool} {moves : List (Move ν)}
    (h : e.courseOf? ok note base.length moves = some (notes, e')) :
    Course (fun e m => ok e m) note base e notes e' := by
  induction moves generalizing e notes with
  | nil =>
    cases h
    exact .begun
  | cons m moves ih =>
    obtain ⟨next, hm, h⟩ := Option.bind_eq_some_iff.1 h
    split at h
    · rename_i hok
      rw [Bool.and_eq_true, decide_eq_true_eq] at hok
      obtain ⟨⟨notes', e''⟩, hrest, heq⟩ := Option.map_eq_some_iff.1 h
      cases heq
      exact .head (fun hs => hok.1 (by rw [hs])) hok.2 hm (ih hrest)
    · cases h

/-- What the host does besides answering adds to the stack at most. -/
theorem move?_adds (hm : e.move? m = some e') (hwork : m ≠ .work) (hanswer : ∀ a, m ≠ .answer a) :
    ∃ frames, e'.stack = frames ++ e.stack := by
  cases m with
  | work => exact absurd rfl hwork
  | answer a => exact absurd rfl (hanswer a)
  | call c =>
    simp only [move?] at hm
    split at hm <;> cases hm
    obtain ⟨frames, hs, -⟩ := adds_call e c
    exact ⟨frames, hs⟩
  | forget o =>
    cases hm
    refine ⟨[], ?_⟩
    unfold forget
    split <;> rfl
  | retire s =>
    cases hm
    refine ⟨[], ?_⟩
    unfold retire
    split <;> rfl

/-- A move replaces the top frame or adds to the stack. -/
theorem proceeds_or_adds (hm : e.move? m = some e') :
    Proceeds e e' ∨ ∃ frames, e'.stack = frames ++ e.stack := by
  cases m with
  | work => exact .inl (.inl hm)
  | answer a => exact .inl (.inr ⟨a, hm⟩)
  | _ => exact .inr (move?_adds hm nofun nofun)

/-- What is below the top frame stays. -/
theorem move?_atop {f : Frame ν} {top : List (Frame ν)} (hs : e.stack = f :: top ++ base)
    (hm : e.move? m = some e') : ∃ top', e'.stack = top' ++ base := by
  rcases proceeds_or_adds hm with h | ⟨frames, hs'⟩
  · obtain ⟨g, rest, hs₁, frames, hs', -⟩ := h.eases
    rw [hs, List.cons_append, List.cons.injEq] at hs₁
    obtain ⟨-, rfl⟩ := hs₁
    exact ⟨frames ++ top, by rw [hs', List.append_assoc]⟩
  · exact ⟨frames ++ f :: top, by rw [hs', hs, List.append_assoc]⟩

end Courses

/-! ## Calls that deliver -/

/-- A call is on the way to this result, or has just delivered it. -/
def Delivers (base : List (Frame ν)) (result : Result ν) (e : Engine ν) : Prop :=
  (∃ top, e.stack = top ++ .deliver result :: base) ∨
    e.stack = base ∧ e.trace.getLast? = some (.finish result)

section Delivery

variable {base : List (Frame ν)} {result : Result ν} {e e' : Engine ν} {m : Move ν}

/-- A call that is back has delivered its result. -/
theorem Delivers.last (h : Delivers base result e) (hs : e.stack = base) :
    e.trace.getLast? = some (.finish result) := by
  rcases h with ⟨top, hs'⟩ | ⟨-, hlast⟩
  · have := congrArg List.length (hs'.symm.trans hs)
    simp only [List.length_append, List.length_cons] at this
    omega
  · exact hlast

theorem Delivers.move (h : Delivers base result e) (hne : e.stack ≠ base) (hm : e.move? m = some e') :
    Delivers base result e' := by
  rcases h with ⟨top, hs⟩ | ⟨hs, -⟩
  · cases top with
    | cons f top => exact .inl (move?_atop hs hm)
    | nil =>
      have hs : e.stack = .deliver result :: base := hs
      cases m with
      | work =>
        simp only [move?, tick, hs, Option.some.injEq] at hm
        subst hm
        exact .inr ⟨rfl, by simp [finish, report]⟩
      | answer a => simp [move?, answer, hs] at hm
      | call c => simp [move?, hostTurn, atRest, question?, hs, Frame.question?] at hm
      | forget o =>
        cases hm
        refine .inl ⟨[], ?_⟩
        unfold forget
        split <;> exact hs
      | retire s =>
        cases hm
        refine .inl ⟨[], ?_⟩
        unfold retire
        split <;> exact hs
  · exact absurd hs hne

/-- If the host only answers from here on, the call comes to its result. -/
theorem Delivers.comesTo (h : Delivers base result e) : ComesTo (fun _ _ => True) base result e := by
  induction e using wellFounded_proceeds.induction with
  | _ e ih =>
    by_cases hbase : e.stack = base
    · exact .ended hbase (h.last hbase)
    · have hne : e.stack ≠ [] := by
        rcases h with ⟨top, hs⟩ | ⟨hs, -⟩
        · simp [hs]
        · exact absurd hs hbase
      obtain ⟨f, rest, hs⟩ := List.exists_cons_of_ne_nil hne
      rcases exists_proceeds hs with ⟨e', ht⟩ | ⟨a, e', ha⟩
      · exact .work hbase ht (ih e' (.inl ht) (h.move (m := .work) hbase ht))
      · refine .answer hbase hs ⟨a, e', trivial, ha⟩ fun a' e'' _ ha' => ?_
        exact ih e'' (.inr ⟨a', ha'⟩) (h.move (m := .answer a') hbase ha')

end Delivery

end LiveTypes.Engine
