import LiveTypes.Proofs.RoundWork

/-!
# Rounds

Rounds nest, and while one waits for a callee the host may do what it likes, so the calls of a round are told
apart from all others by how much work lies beneath the round. What a move does at one height follows from
what it does to the stack; that a round calls those whom it found registered when it began is an induction
over the moves since then.
-/
namespace LiveTypes.Engine

variable {ν : Type}

/-- The frame with a certain number of frames beneath it. -/
def frameAt? (e : Engine ν) (h : Nat) : Option (Frame ν) := e.stack.reverse[h]?

/-- The round with a certain number of frames beneath it. -/
def roundAt? (e : Engine ν) (h : Nat) : Option (Round ν) := (e.frameAt? h).bind Frame.round?

/-- Those whom the round at a height has yet to call. -/
def leftAt (e : Engine ν) (h : Nat) : List (Callee ν) := ((e.frameAt? h).map Frame.left).getD []

/-- Whom a move makes the round at a height call. -/
def callee? (e : Engine ν) (h : Nat) : Move ν → Option (Callee ν)
  | .work => if e.stack.length = h + 1 then (e.stack.head?.bind Frame.call?).map Prod.fst else none
  | _ => none

/-- The round at height `h` that the move `m` began in `e₀` is under way in `e`, and these are the calls it
has made. -/
inductive Underway (h : Nat) (round : Round ν) (e₀ : Engine ν) (m : Move ν) :
    List (Callee ν) → Engine ν → Prop
  | begins {e : Engine ν} :
    e₀.move? m = some e → e₀.roundAt? h ≠ some round → e.roundAt? h = some round →
    Underway h round e₀ m [] e
  | goesOn {calls : List (Callee ν)} {e e' : Engine ν} {m' : Move ν} :
    Underway h round e₀ m calls e → e.move? m' = some e' → e'.roundAt? h = some round →
    Underway h round e₀ m (calls ++ (e.callee? h m').toList) e'

/-! ## What a move does at one height -/

section Heights

variable {e : Engine ν} {m : Move ν} {f g : Frame ν} {rest : List (Frame ν)} {h : Nat} (top : List (Frame ν))

theorem frameAt?_eq_none : e.frameAt? h = none ↔ e.stack.length ≤ h := by
  simp [frameAt?]

theorem frameAt?_of_lt (hs : e.stack = top ++ rest) (hh : h < rest.length) :
    e.frameAt? h = rest.reverse[h]? := by
  rw [frameAt?, hs, List.reverse_append, List.getElem?_append_left (by simpa using hh)]

theorem frameAt?_length (hs : e.stack = top ++ f :: rest) : e.frameAt? rest.length = some f := by
  simp [frameAt?, hs]

theorem mem_of_frameAt? (hs : e.stack = top ++ rest) (hh : rest.length ≤ h) (hg : e.frameAt? h = some g) :
    g ∈ top := by
  rw [frameAt?, hs, List.reverse_append, List.getElem?_append_right (by simpa using hh)] at hg
  exact List.mem_reverse.1 (List.mem_of_getElem? hg)

theorem callee?_of_height (hh : e.stack.length ≠ h + 1) : e.callee? h m = none := by
  cases m <;> simp [callee?, hh]

theorem callee?_top (hs : e.stack = f :: rest) :
    e.callee? rest.length .work = f.call?.map Prod.fst := by
  simp [callee?, hs]

end Heights

/-- What a move does to the work at a height. -/
inductive Shifts (h : Nat) (e : Engine ν) (m : Move ν) (e' : Engine ν) : Prop
  /-- Nothing: there is other work on top, or the move is neither work nor an answer. -/
  | keeps : e'.frameAt? h = e.frameAt? h → e.callee? h m = none →
    (e.stack.length = h + 1 → m ≠ .work ∧ ∀ a, m ≠ .answer a) → Shifts h e m e'
  | calls {f f' : Frame ν} {c : Callee ν} :
    m = .work → e.frameAt? h = some f → e'.frameAt? h = some f' → f.call? = some (c, f') →
    e.callee? h m = some c → Shifts h e m e'
  | hears {f f' : Frame ν} {a : Answer ν} :
    m = .answer a → (∀ t, a ≠ .outcome (.inferred t)) → e.frameAt? h = some f →
    e'.frameAt? h = some f' → f'.round? = f.round? → f'.left = f.left → f'.question? = none →
    Shifts h e m e'
  | leaves {f : Frame ν} :
    e.stack.length = h + 1 → e.frameAt? h = some f →
    (f.round? ≠ none → f.EndsBy m) →
    (∀ g, e'.frameAt? h = some g → e.Opens m g ∧ (f.round? ≠ none → g.round? ≠ f.round?)) →
    Shifts h e m e'
  | opens : e.frameAt? h = none → (∀ g, e'.frameAt? h = some g → e.Opens m g) → Shifts h e m e'

section Shifting

variable {e e' : Engine ν} {m : Move ν} {h : Nat}

theorem move?_shifts (hm : e.move? m = some e') (h : Nat) : Shifts h e m e' := by
  cases move?_restacks hm with
  | covers hw ha hadds =>
    obtain ⟨top, hs, hp⟩ := hadds
    rcases Nat.lt_or_ge h e.stack.length with hh | hh
    · refine .keeps ?_ ?_ fun _ => ⟨hw, ha⟩
      · rw [frameAt?_of_lt top hs hh, frameAt?]
      · cases m <;> first | rfl | exact absurd rfl hw
    · exact .opens (frameAt?_eq_none.2 hh) fun g hg => hp g (mem_of_frameAt? top hs hh hg)
  | @calls f f' rest c hw hs hc heq =>
    obtain ⟨top, hs', hp⟩ := adds_react ((e.withStack rest).push f') m c
    rw [← heq, push_stack] at hs'
    rw [opens_push] at hp
    have hlen : e.stack.length = rest.length + 1 := by simp [hs]
    rcases Nat.lt_trichotomy h rest.length with hh | rfl | hh
    · refine .keeps ?_ (callee?_of_height (by omega)) (by omega)
      rw [frameAt?_of_lt (top ++ [f']) (by simpa using hs') hh, frameAt?_of_lt [f] hs hh]
    · refine .calls hw (frameAt?_length [] hs) (frameAt?_length top hs') hc ?_
      rw [hw, callee?_top hs, hc]
      rfl
    · exact .opens (frameAt?_eq_none.2 (by omega)) fun g hg => hp g (mem_of_frameAt? top hs' hh hg)
  | @hears f f' rest a hma ha hs hs' hround hleft hq =>
    have hlen : e.stack.length = rest.length + 1 := by simp [hs]
    have hlen' : e'.stack.length = rest.length + 1 := by simp [hs']
    rcases Nat.lt_trichotomy h rest.length with hh | rfl | hh
    · refine .keeps ?_ (callee?_of_height (by omega)) (by omega)
      rw [frameAt?_of_lt [f'] hs' hh, frameAt?_of_lt [f] hs hh]
    · exact .hears hma ha (frameAt?_length [] hs) (frameAt?_length [] hs') hround hleft hq
    · refine .opens (frameAt?_eq_none.2 (by omega)) fun g hg => ?_
      rw [frameAt?_eq_none.2 (by omega)] at hg
      cases hg
  | @leaves f rest hs hover hadds =>
    obtain ⟨top, hs', hp⟩ := hadds
    have hlen : e.stack.length = rest.length + 1 := by simp [hs]
    rcases Nat.lt_trichotomy h rest.length with hh | rfl | hh
    · refine .keeps ?_ (callee?_of_height (by omega)) (by omega)
      rw [frameAt?_of_lt top hs' hh, frameAt?_of_lt [f] hs hh]
    · exact .leaves hlen (frameAt?_length [] hs) hover fun g hg =>
        hp g (mem_of_frameAt? top hs' (Nat.le_refl _) hg)
    · exact .opens (frameAt?_eq_none.2 (by omega)) fun g hg =>
        (hp g (mem_of_frameAt? top hs' (Nat.le_of_lt hh) hg)).1

/-- A round under way has called whom it found registered, but for those who are left. -/
theorem Underway.course {round : Round ν} {e₀ : Engine ν} {m₀ : Move ν} {calls : List (Callee ν)}
    (hu : Underway h round e₀ m₀ calls e) :
    ∃ f, e.frameAt? h = some f ∧ f.round? = some round ∧ e₀.registered m₀ round = calls ++ f.left ∧
      ∀ q, f.question? = some q → calls.getLast?.bind Callee.question? = some q := by
  induction hu with
  | @begins e hm hno hround =>
    obtain ⟨f, hf, hr⟩ := Option.bind_eq_some_iff.1 hround
    have hopens : e₀.Opens m₀ f := by
      cases move?_shifts hm h with
      | keeps hsame _ _ => exact absurd (by rwa [roundAt?, ← hsame]) hno
      | calls _ hf₀ hf' hc _ =>
        cases hf.symm.trans hf'
        exact absurd (by rw [roundAt?, hf₀, Option.bind_some, ← Frame.round?_of_call hc, hr]) hno
      | hears _ _ hf₀ hf' hsame _ _ =>
        cases hf.symm.trans hf'
        exact absurd (by rw [roundAt?, hf₀, Option.bind_some, ← hsame, hr]) hno
      | leaves _ _ _ hnew => exact (hnew f hf).1
      | opens _ hnew => exact hnew f hf
    obtain ⟨hq, hleft⟩ := hopens round hr
    refine ⟨f, hf, hr, by simp [hleft], ?_⟩
    intro q hq'
    cases hq.symm.trans hq'
  | @goesOn calls e e' m _ hm hround ih =>
    obtain ⟨f, hf, hr, hreg, hask⟩ := ih
    obtain ⟨g, hg, hrg⟩ := Option.bind_eq_some_iff.1 hround
    cases move?_shifts hm h with
    | keeps hsame hnone _ =>
      refine ⟨f, hsame.trans hf, hr, ?_⟩
      simpa [hnone] using ⟨hreg, hask⟩
    | @calls f₁ f' c _ hf₁ hf' hc hcallee =>
      cases hf.symm.trans hf₁
      refine ⟨f', hf', (Frame.round?_of_call hc).trans hr, ?_, ?_⟩
      · rw [hreg, Frame.left_of_call hc, hcallee]
        simp
      · intro q hq
        simpa [hcallee] using Frame.question?_of_call hc hq
    | @hears f₁ f' a hma _ hf₁ hf' hsame hleft hq =>
      cases hf.symm.trans hf₁
      subst hma
      refine ⟨f', hf', hsame.trans hr, ?_, ?_⟩
      · rw [hreg, hleft]
        simp [callee?]
      · intro q hq'
        cases hq.symm.trans hq'
    | @leaves f₁ _ hf₁ _ hnew =>
      cases hf.symm.trans hf₁
      exact absurd (hrg.trans hr.symm) ((hnew g hg).2 (by simp [hr]))
    | opens hnone _ => cases hf.symm.trans hnone

/-- A round ends when everyone has been called, or when its rule infers a type; nothing else ends it. -/
theorem Underway.ends {round : Round ν} {e₀ : Engine ν} {m₀ : Move ν} {calls : List (Callee ν)}
    (hu : Underway h round e₀ m₀ calls e) (hm : e.move? m = some e') :
    e'.roundAt? h ≠ some round ↔ e.stack.length = h + 1 ∧
      (m = .work ∧ calls = e₀.registered m₀ round ∨
        ∃ s n t, round = .inference s n ∧ m = .answer (.outcome (.inferred t))) := by
  obtain ⟨f, hf, hr, hreg, -⟩ := hu.course
  cases move?_shifts hm h with
  | keeps hsame _ hidle =>
    have hround : e'.roundAt? h = some round := by rw [roundAt?, hsame, hf, Option.bind_some, hr]
    refine ⟨absurd hround, ?_⟩
    rintro ⟨hlen, ⟨hw, -⟩ | ⟨s, n, t, -, hma⟩⟩
    · exact absurd hw (hidle hlen).1
    · exact absurd hma ((hidle hlen).2 _)
  | calls hw hf₁ hf' hc _ =>
    cases hf.symm.trans hf₁
    have hround : e'.roundAt? h = some round := by
      rw [roundAt?, hf', Option.bind_some, Frame.round?_of_call hc, hr]
    refine ⟨absurd hround, ?_⟩
    rintro ⟨-, ⟨-, hall⟩ | ⟨s, n, t, -, hma⟩⟩
    · simp [hall, Frame.left_of_call hc] at hreg
    · cases hw.symm.trans hma
  | hears hma ha hf₁ hf' hsame _ _ =>
    cases hf.symm.trans hf₁
    have hround : e'.roundAt? h = some round := by rw [roundAt?, hf', Option.bind_some, hsame, hr]
    refine ⟨absurd hround, ?_⟩
    rintro ⟨-, ⟨hw, -⟩ | ⟨s, n, t, -, hma'⟩⟩
    · cases hma.symm.trans hw
    · cases hma.symm.trans hma'
      exact absurd rfl (ha t)
  | leaves hlen hf₁ hover hnew =>
    cases hf.symm.trans hf₁
    refine ⟨fun _ => ⟨hlen, ?_⟩, fun _ hround => ?_⟩
    · rcases hover (by simp [hr]) with ⟨hw, hleft⟩ | ⟨s, n, t, hinf, hma⟩
      · exact .inl ⟨hw, by simp [hreg, hleft]⟩
      · exact .inr ⟨s, n, t, Option.some.inj (hr.symm.trans hinf), hma⟩
    · obtain ⟨g, hg, hrg⟩ := Option.bind_eq_some_iff.1 hround
      exact (hnew g hg).2 (by simp [hr]) (hrg.trans hr.symm)
  | opens hnone _ => cases hf.symm.trans hnone

/-- Every round under way in a run began in it. -/
theorem Reachable.underway (he : e.Reachable) {round : Round ν} (hround : e.roundAt? h = some round) :
    ∃ e₀ m calls, e₀.Reachable ∧ Underway h round e₀ m calls e := by
  obtain ⟨moves, hrun⟩ := he
  have began := run?_keeps (P := fun e => e.Reachable ∧ (e.roundAt? h = some round →
    ∃ e₀ m calls, e₀.Reachable ∧ Underway h round e₀ m calls e)) ?_ ⟨.new, nofun⟩ hrun
  · exact began.2 hround
  · intro e e' m he hm
    refine ⟨he.1.move hm, fun hround' => ?_⟩
    by_cases hround : e.roundAt? h = some round
    · obtain ⟨e₀, m₀, calls, he₀, hu⟩ := he.2 hround
      exact ⟨e₀, m₀, _, he₀, .goesOn hu hm hround'⟩
    · exact ⟨e, m, [], he.1, .begins hm hround hround'⟩

theorem stack_of_height {f : Frame ν} (hlen : e.stack.length = h + 1) (hf : e.frameAt? h = some f) :
    ∃ rest, e.stack = f :: rest := by
  cases hs : e.stack with
  | nil => simp [hs] at hlen
  | cons g rest =>
    have hrest : rest.length = h := by simpa [hs] using hlen
    rw [← hrest, frameAt?_length [] hs] at hf
    cases hf
    exact ⟨rest, rfl⟩

/-- A call that has just begun with a round. -/
theorem underway_of_push {round : Round ν} {f : Frame ν} (hm : e.move? m = some (e.push f))
    (hf : f.round? = some round) : Underway e.stack.length round e m [] (e.push f) := by
  have hnone : e.frameAt? e.stack.length = none := frameAt?_eq_none.2 (Nat.le_refl _)
  have htop : (e.push f).frameAt? e.stack.length = some f := frameAt?_length [] (push_stack e f)
  exact .begins hm (by simp [roundAt?, hnone]) (by simp [roundAt?, htop, hf])

theorem underway_validate {s : SystemId} {n : ν} (hm : e.move? (.call (.validate s n)) = some e') :
    Underway e.stack.length (.validation n) e (.call (.validate s n)) [] e' := by
  have hcalled := hm
  simp only [move?] at hcalled
  split at hcalled <;> cases hcalled
  exact underway_of_push (f := .validating _) hm rfl

theorem underway_infer {s : SystemId} {n : ν} (hm : e.move? (.call (.infer s n)) = some e') :
    Underway e.stack.length (.inference s n) e (.call (.infer s n)) [] e' := by
  have hcalled := hm
  simp only [move?] at hcalled
  split at hcalled <;> cases hcalled
  exact underway_of_push (f := .inferring _) hm rfl

/-- Every round calls exactly those who were registered when it began, once for each registration and in the
order of registration, whatever the host does meanwhile. Each validation and each inference that the host
asks for is such a round, and every round that is under way in a run began in it. At any time those who have
been called and those who are left make up the registered; a waiting round waits for the last one called, and
one that is not waiting goes on. Each call asks the host for just that callee, or lets a part of the engine
react. A round is over only when all have been called; an inference is also over as soon as the rule it waits
for infers a type, so no rule before the last one called did. -/
theorem rounds_call_registered :
    (∀ (e e' : Engine ν) (s : SystemId) (n : ν),
      (e.move? (.call (.validate s n)) = some e' →
        Underway e.stack.length (.validation n) e (.call (.validate s n)) [] e') ∧
      (e.move? (.call (.infer s n)) = some e' →
        Underway e.stack.length (.inference s n) e (.call (.infer s n)) [] e')) ∧
    (∀ (e : Engine ν) (h : Nat) (round : Round ν), e.Reachable → e.roundAt? h = some round →
      ∃ e₀ m calls, e₀.Reachable ∧ Underway h round e₀ m calls e) ∧
    ∀ (h : Nat) (round : Round ν) (e₀ : Engine ν) (m : Move ν) (calls : List (Callee ν)) (e : Engine ν),
      Underway h round e₀ m calls e →
      e₀.registered m round = calls ++ e.leftAt h ∧
      (e.stack.length = h + 1 →
        (∀ q, e.question? = some q → calls.getLast?.bind Callee.question? = some q) ∧
        (e.question? = none → ∃ e', e.move? .work = some e')) ∧
      ∀ m' e', e.move? m' = some e' →
        (∀ c, e.callee? h m' = some c →
          e'.asked = e.asked ++ c.question?.toList ∧
          ∃ f, f.round? = some round ∧ e' = c.react ((e.withStack e.stack.tail).push f)) ∧
        (e'.roundAt? h ≠ some round ↔ e.stack.length = h + 1 ∧
          (m' = .work ∧ calls = e₀.registered m round ∨
            ∃ s n t, round = .inference s n ∧ m' = .answer (.outcome (.inferred t)))) := by
  refine ⟨fun e e' s n => ⟨underway_validate, underway_infer⟩, fun e h round he => he.underway, ?_⟩
  intro h round e₀ m calls e hu
  obtain ⟨f, hf, hr, hreg, hask⟩ := hu.course
  refine ⟨by simpa [leftAt, hf] using hreg, fun hlen => ?_, fun m' e' hm => ⟨fun c hc => ?_, hu.ends hm⟩⟩
  · obtain ⟨rest, hs⟩ := stack_of_height hlen hf
    have hq : e.question? = f.question? := by simp [question?, hs]
    rw [hq]
    exact ⟨hask, tick_of_round hs (by simp [hr])⟩
  · cases m' with
    | work =>
      simp only [callee?] at hc
      split at hc
      · rename_i hlen
        obtain ⟨rest, hs⟩ := stack_of_height hlen hf
        rw [hs] at hc ⊢
        obtain ⟨⟨c', f'⟩, hcall, rfl⟩ := Option.map_eq_some_iff.1 hc
        cases (tick_of_call hs hcall).symm.trans hm
        exact ⟨asked_call (e.withStack rest) hcall, f', (Frame.round?_of_call hcall).trans hr, rfl⟩
      · cases hc
    | _ => cases hc

end Shifting

/-! ## Following a round -/

/-- Make moves one after the other while a round goes on, and note whom it calls. -/
def follow? [DecidableEq ν] (h : Nat) (round : Round ν) (calls : List (Callee ν)) (e : Engine ν) :
    List (Move ν) → Option (List (Callee ν) × Engine ν)
  | [] => some (calls, e)
  | m :: moves => (e.move? m).bind fun e' =>
    if e'.roundAt? h = some round then e'.follow? h round (calls ++ (e.callee? h m).toList) moves else none

theorem Underway.follow [DecidableEq ν] {h : Nat} {round : Round ν} {e₀ e e' : Engine ν} {m : Move ν}
    {calls calls' : List (Callee ν)} {moves : List (Move ν)} (hu : Underway h round e₀ m calls e)
    (hf : e.follow? h round calls moves = some (calls', e')) : Underway h round e₀ m calls' e' := by
  induction moves generalizing e calls with
  | nil =>
    cases hf
    exact hu
  | cons m' moves ih =>
    obtain ⟨next, hm, hf⟩ := Option.bind_eq_some_iff.1 hf
    split at hf
    · exact ih (.goesOn hu hm ‹_›) hf
    · cases hf

/-- The theorem at a pass over three observers. While the first is told, it ends the subscription of the
second, the third ceases to exist, a fourth subscribes, and a nested pass goes by. -/
theorem pass_unmoved_by_callbacks : ∃ (e₀ e e' : Engine Nat) (calls : List (Callee Nat)),
    e₀.Reachable ∧
      Underway 1 (.graph (.addedType ⟨1, "a", "a"⟩ "a")) e₀ (.call (.addType ⟨1, "a", "a"⟩ "a")) calls e ∧
      calls = [0, 1, 2].map (fun o => .graphListener (.addedType ⟨1, "a", "a"⟩ "a") (.observer ⟨o⟩)) ∧
      e₀.registered (.call (.addType ⟨1, "a", "a"⟩ "a")) (.graph (.addedType ⟨1, "a", "a"⟩ "a")) = calls ∧
      e.listeners.listeners e.hearsGraph (fun _ => true) = [.observer ⟨0⟩, .observer ⟨3⟩] ∧
      e.move? .work = some e' ∧ e'.roundAt? 1 ≠ some (.graph (.addedType ⟨1, "a", "a"⟩ "a")) := by
  let add : Move Nat := .call (.addType ⟨1, "a", "a"⟩ "a")
  let round : Round Nat := .graph (.addedType ⟨1, "a", "a"⟩ "a")
  obtain ⟨e₀, e₁, e, e', calls, hbefore, hadd, hno, hround, hfollow, hcalls, hlisteners, hheight, hleft,
      hwork⟩ : ∃ (e₀ e₁ e e' : Engine Nat) (calls : List (Callee Nat)),
        run? {} [.call (.listenToGraph ⟨0⟩), .call (.listenToGraph ⟨1⟩),
          .call (.listenToGraph ⟨2⟩)] = some e₀ ∧
        e₀.move? add = some e₁ ∧ e₀.roundAt? 1 = none ∧ e₁.roundAt? 1 = some round ∧
        e₁.follow? 1 round [] [.work,
          .call (.leaveGraph 1), .forget ⟨2⟩, .call (.listenToGraph ⟨3⟩),
          .call (.addType ⟨2, "b", "b"⟩ "b"), .work, .answer .done, .work, .answer .done, .work, .work,
          .answer .done, .work, .answer .done, .work, .answer .done] = some (calls, e) ∧
        calls = [0, 1, 2].map (fun o => .graphListener (.addedType ⟨1, "a", "a"⟩ "a") (.observer ⟨o⟩)) ∧
        e.listeners.listeners e.hearsGraph (fun _ => true) = [.observer ⟨0⟩, .observer ⟨3⟩] ∧
        e.stack.length = 2 ∧ e.leftAt 1 = [] ∧ e.move? .work = some e' :=
    ⟨_, _, _, _, _, rfl, rfl, rfl, rfl, rfl, rfl, rfl, rfl, rfl, rfl⟩
  have hu := (Underway.begins hadd (by simp [hno]) hround).follow hfollow
  obtain ⟨hreg, -, hmoves⟩ := rounds_call_registered.2.2 1 round e₀ add calls e hu
  rw [hleft, List.append_nil] at hreg
  refine ⟨e₀, e, e', calls, ⟨_, hbefore⟩, hu, hcalls, hreg, hlisteners, hwork, ?_⟩
  exact (hmoves .work e' hwork).2.2 ⟨hheight, .inl ⟨rfl, hreg.symm⟩⟩

end LiveTypes.Engine
