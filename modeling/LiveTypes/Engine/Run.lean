import LiveTypes.Engine.Step

/-!
# Runs of the engine

A run is a list of moves: calls and answers of the host, steps of the engine's own work, and the end
of observers and type systems. The host may call only when it is its turn, which includes the time in
which it has a question to answer, and only with type systems and references at hand that exist.
Whatever holds of a new engine and is kept by each move holds after every run.
-/
namespace LiveTypes

/-- One move in a run. -/
inductive Move (ν : Type) where
  | call (call : Call ν)
  | answer (answer : Answer ν)
  /-- The engine does one step of its work. -/
  | work
  /-- An observer ceases to exist. -/
  | forget (observer : Observer)
  /-- A type system ceases to exist. -/
  | retire (system : SystemId)

namespace Engine

variable {ν : Type}

/-- Whether a selector names only a reference that exists. -/
def knowsSelector (e : Engine ν) : Selector ν → Bool
  | .reference r => r < e.references.length
  | _ => true

/-- Whether a call names only type systems and references that exist. -/
def knows (e : Engine ν) : Call ν → Bool
  | .addRule s _ _ _ => s < e.systems.length
  | .removeRule s _ => s < e.systems.length
  | .listenToRules s _ => s < e.systems.length
  | .leaveRules s _ => s < e.systems.length
  | .infer s _ => s < e.systems.length
  | .trySelect s selector => s < e.systems.length && e.knowsSelector selector
  | .mustSelect s selector => s < e.systems.length && e.knowsSelector selector
  | .addReference s selector => s < e.systems.length && e.knowsSelector selector
  | .listenToReference r _ _ => r < e.references.length
  | .leaveReference r _ => r < e.references.length
  | .deconstruct r => r < e.references.length
  | .relate request => request.system < e.systems.length
  | .addChecks s _ => s < e.systems.length
  | .validate s _ => s < e.systems.length
  | _ => true

/-- Make a move; nothing if it is not allowed now. -/
def move? (e : Engine ν) : Move ν → Option (Engine ν)
  | .call c => if e.hostTurn && e.knows c then some (e.call c) else none
  | .answer a => e.answer a
  | .work => e.tick
  | .forget o => some (e.forget o)
  | .retire s => some (e.retire s)

/-- Make moves one after the other; nothing if one of them is not allowed. -/
def run? (e : Engine ν) : List (Move ν) → Option (Engine ν)
  | [] => some e
  | m :: moves => (e.move? m).bind (·.run? moves)

/-- A state that some run of a new engine leads to. -/
def Reachable (e : Engine ν) : Prop := ∃ moves, run? {} moves = some e

/-- A state that a new engine comes to by moves that are each allowed where they are made. -/
inductive ReachableBy (allowed : Engine ν → Move ν → Prop) : Engine ν → Prop where
  | new : ReachableBy allowed {}
  | move {e e' : Engine ν} {m : Move ν} :
    ReachableBy allowed e → allowed e m → e.move? m = some e' → ReachableBy allowed e'

/-- What a new engine comes to by these moves, each of which is allowed where it is made. -/
inductive RunBy (allowed : Engine ν → Move ν → Prop) : List (Move ν) → Engine ν → Prop where
  | new : RunBy allowed [] {}
  | move {moves : List (Move ν)} {e e' : Engine ν} {m : Move ν} :
    RunBy allowed moves e → allowed e m → e.move? m = some e' → RunBy allowed (moves ++ [m]) e'

@[simp] theorem run?_nil (e : Engine ν) : e.run? [] = some e := rfl

@[simp] theorem run?_cons (e : Engine ν) (m : Move ν) (moves : List (Move ν)) :
    e.run? (m :: moves) = (e.move? m).bind (·.run? moves) := rfl

theorem run?_append (e : Engine ν) (first second : List (Move ν)) :
    e.run? (first ++ second) = (e.run? first).bind (·.run? second) := by
  induction first generalizing e with
  | nil => rfl
  | cons m first ih =>
    simp only [List.cons_append, run?_cons]
    cases e.move? m with
    | none => rfl
    | some e' => exact ih e'

theorem Reachable.new : Reachable ({} : Engine ν) := ⟨[], rfl⟩

theorem Reachable.move {e e' : Engine ν} {m : Move ν} (h : e.Reachable) (hm : e.move? m = some e') :
    e'.Reachable := by
  obtain ⟨moves, hr⟩ := h
  exact ⟨moves ++ [m], by simp [run?_append, hr, hm]⟩

theorem Reachable.run {e e' : Engine ν} {moves : List (Move ν)} (h : e.Reachable)
    (hr : e.run? moves = some e') : e'.Reachable := by
  obtain ⟨before, hb⟩ := h
  exact ⟨before ++ moves, by simp [run?_append, hb, hr]⟩

/-- What every move keeps holds after a run from where it holds. -/
theorem run?_keeps {P : Engine ν → Prop}
    (keeps : ∀ {e e' : Engine ν} {m : Move ν}, P e → e.move? m = some e' → P e')
    {e e' : Engine ν} {moves : List (Move ν)} (he : P e) (hr : e.run? moves = some e') : P e' := by
  induction moves generalizing e with
  | nil =>
    cases hr
    exact he
  | cons m moves ih =>
    obtain ⟨next, hm, hr⟩ := Option.bind_eq_some_iff.1 hr
    exact ih (keeps he hm) hr

/-- What every allowed move keeps holds of all that a new engine comes to by such moves. -/
theorem ReachableBy.keeps {P : Engine ν → Prop} {allowed : Engine ν → Move ν → Prop}
    (new : P {})
    (keeps : ∀ {e e' : Engine ν} {m : Move ν}, P e → allowed e m → e.move? m = some e' → P e')
    {e : Engine ν} (h : ReachableBy allowed e) : P e := by
  induction h with
  | new => exact new
  | move _ ha hm ih => exact keeps ih ha hm

theorem ReachableBy.mono {allowed allowed' : Engine ν → Move ν → Prop}
    (hle : ∀ e m, allowed e m → allowed' e m) {e : Engine ν} (h : ReachableBy allowed e) :
    ReachableBy allowed' e := by
  induction h with
  | new => exact .new
  | move _ ha hm ih => exact .move ih (hle _ _ ha) hm

theorem ReachableBy.reachable {allowed : Engine ν → Move ν → Prop} {e : Engine ν}
    (h : ReachableBy allowed e) : e.Reachable :=
  ReachableBy.keeps .new (fun h _ hm => h.move hm) h

theorem RunBy.run {allowed : Engine ν → Move ν → Prop} {moves : List (Move ν)} {e : Engine ν}
    (h : RunBy allowed moves e) : run? {} moves = some e := by
  induction h with
  | new => rfl
  | move _ _ hm ih => simp [run?_append, ih, hm]

/-- A run begins with every run of its first moves. -/
theorem RunBy.of_first {allowed : Engine ν → Move ν → Prop} {all first last : List (Move ν)}
    {e e₀ : Engine ν} (h : RunBy allowed all e) (hall : all = first ++ last)
    (hr : run? {} first = some e₀) : RunBy allowed first e₀ := by
  induction h generalizing last with
  | new =>
    obtain ⟨rfl, rfl⟩ := List.append_eq_nil_iff.1 hall.symm
    cases hr
    exact .new
  | @move moves e e' m hrun ha hm ih =>
    rcases List.eq_nil_or_concat last with rfl | ⟨last', m', rfl⟩
    · have hrun' := RunBy.move hrun ha hm
      rw [hall, List.append_nil] at hrun'
      cases hr.symm.trans hrun'.run
      exact hrun'
    · rw [List.concat_eq_append, ← List.append_assoc] at hall
      exact ih (List.append_inj' hall rfl).1

/-- What an engine comes to from here by moves that are each allowed where they are made. -/
inductive LeadsBy (allowed : Engine ν → Move ν → Prop) (e : Engine ν) : Engine ν → Prop where
  | refl : LeadsBy allowed e e
  | move {e' e'' : Engine ν} {m : Move ν} :
    LeadsBy allowed e e' → allowed e' m → e'.move? m = some e'' → LeadsBy allowed e e''

/-- What every allowed move keeps is kept by all of them. -/
theorem LeadsBy.keeps {P : Engine ν → Prop} {allowed : Engine ν → Move ν → Prop} {e e' : Engine ν}
    (h : LeadsBy allowed e e') (he : P e)
    (keeps : ∀ {e e' : Engine ν} {m : Move ν}, P e → allowed e m → e.move? m = some e' → P e') : P e' := by
  induction h with
  | refl => exact he
  | move _ ha hm ih => exact keeps ih ha hm

/-- A first move, and what comes after it. -/
theorem LeadsBy.head {allowed : Engine ν → Move ν → Prop} {e e' e'' : Engine ν} {m : Move ν}
    (ha : allowed e m) (hm : e.move? m = some e') (h : LeadsBy allowed e' e'') : LeadsBy allowed e e'' := by
  induction h with
  | refl => exact .move .refl ha hm
  | move _ ha hm ih => exact .move ih ha hm

/-- A run of moves that are allowed everywhere. -/
theorem LeadsBy.of_run {allowed : Engine ν → Move ν → Prop} {moves : List (Move ν)} {e e' : Engine ν}
    (ha : ∀ m ∈ moves, ∀ e, allowed e m) (hr : e.run? moves = some e') : LeadsBy allowed e e' := by
  induction moves generalizing e with
  | nil =>
    cases hr
    exact .refl
  | cons m moves ih =>
    obtain ⟨next, hm, hr⟩ := Option.bind_eq_some_iff.1 hr
    exact .head (ha m List.mem_cons_self e) hm (ih (fun m' hm' => ha m' (List.mem_cons_of_mem _ hm')) hr)

/-- Make moves one after the other and check each with the states before and after it; nothing if one
fails. -/
def runChecked? (ok : Engine ν → Move ν → Engine ν → Bool) (e : Engine ν) :
    List (Move ν) → Option (Engine ν)
  | [] => some e
  | m :: moves => (e.move? m).bind fun e' => if ok e m e' then e'.runChecked? ok moves else none

theorem run?_of_runChecked {ok : Engine ν → Move ν → Engine ν → Bool} {moves : List (Move ν)}
    {e e' : Engine ν} (hr : e.runChecked? ok moves = some e') : e.run? moves = some e' := by
  induction moves generalizing e with
  | nil => exact hr
  | cons m moves ih =>
    obtain ⟨next, hm, hr⟩ := Option.bind_eq_some_iff.1 hr
    split at hr
    · rw [run?_cons, hm]
      exact ih hr
    · cases hr

/-- A run whose moves pass a check passes every weaker one. -/
theorem runChecked?_mono {ok ok' : Engine ν → Move ν → Engine ν → Bool}
    (hle : ∀ e m e', ok e m e' → ok' e m e') {moves : List (Move ν)} {e e' : Engine ν}
    (hr : e.runChecked? ok moves = some e') : e.runChecked? ok' moves = some e' := by
  induction moves generalizing e with
  | nil => exact hr
  | cons m moves ih =>
    obtain ⟨next, hm, hr⟩ := Option.bind_eq_some_iff.1 hr
    split at hr
    · rename_i hok
      simp only [runChecked?, hm, Option.bind_some, hle e m next hok, if_true]
      exact ih hr
    · cases hr

/-- A run whose moves all pass a check, after moves that are allowed. -/
theorem RunBy.of_runChecked {allowed : Engine ν → Move ν → Prop} {ok : Engine ν → Move ν → Engine ν → Bool}
    (hok : ∀ e e' m, e.move? m = some e' → ok e m e' → allowed e m) {first moves : List (Move ν)}
    {e e' : Engine ν} (he : RunBy allowed first e) (hr : e.runChecked? ok moves = some e') :
    RunBy allowed (first ++ moves) e' := by
  induction moves generalizing first e with
  | nil =>
    cases hr
    rwa [List.append_nil]
  | cons m moves ih =>
    obtain ⟨next, hm, hr⟩ := Option.bind_eq_some_iff.1 hr
    split at hr
    · have hnext := ih (he.move (hok e next m hm ‹_›) hm) hr
      rwa [List.append_assoc] at hnext
    · cases hr

theorem RunBy.of_check {ok : Engine ν → Move ν → Bool} {moves : List (Move ν)} {e : Engine ν}
    (hr : runChecked? (fun e m _ => ok e m) {} moves = some e) : RunBy (fun e m => ok e m) moves e := by
  refine .of_runChecked ?_ .new hr
  exact fun _ _ _ _ h => h

/-- A run whose moves all pass a check is one of moves that are each allowed by the check. -/
theorem ReachableBy.of_runChecked {allowed : Engine ν → Move ν → Prop}
    {ok : Engine ν → Move ν → Engine ν → Bool}
    (hok : ∀ e e' m, e.move? m = some e' → ok e m e' → allowed e m) {moves : List (Move ν)}
    {e e' : Engine ν} (he : ReachableBy allowed e) (hr : e.runChecked? ok moves = some e') :
    ReachableBy allowed e' := by
  induction moves generalizing e with
  | nil =>
    cases hr
    exact he
  | cons m moves ih =>
    obtain ⟨next, hm, hr⟩ := Option.bind_eq_some_iff.1 hr
    split at hr
    · exact ih (he.move (hok e next m hm ‹_›) hm) hr
    · cases hr

/-- The same from a new engine, for a condition that is itself a check. -/
theorem ReachableBy.of_check {ok : Engine ν → Move ν → Bool} {moves : List (Move ν)} {e : Engine ν}
    (hr : runChecked? (fun e m _ => ok e m) {} moves = some e) : ReachableBy (fun e m => ok e m) e := by
  refine .of_runChecked ?_ .new hr
  exact fun _ _ _ _ h => h

end Engine
end LiveTypes
