import LiveTypes.Proofs.Overtaking

/-!
# What the listeners of a reference have been told

Those who listen to a reference are told synchronously, in passes over whoever listened when the pass began.
A pass can be overtaken by a later change of the reference, and then tells the rest of its listeners
something that is no longer so, after the pass for the later change has told them what is so. This is the
only way in which a listener can be left with an event that does not fit: it has been told of the state
after the last change, and what it is told later either fits or comes from a pass that had been overtaken
when it called the listener. A host that does not call back while a listener of the reference is being told
leaves every listener with an event that fits.
-/
namespace LiveTypes

variable {ν : Type}

namespace ReferenceNote

def isChange : ReferenceNote → Bool
  | .change _ => true
  | .told _ _ => false

/-- Whether it is this observer that is told. -/
def isTo (o : Observer) : ReferenceNote → Bool
  | .change _ => false
  | .told o' _ => o' = o

end ReferenceNote

/-- After the last change in the notes the observer is told that the reference has this type, or none. -/
def ToldSinceChange (o : Observer) (type? : Option Ty) (notes : List ReferenceNote) : Prop :=
  ∃ before event after, notes = before ++ .told o event :: after ∧ event.type? = type? ∧
    ∀ note ∈ after, note.isChange = false

/-- Whatever the observer is told since the last change fits the type or comes late. -/
def Truthful (late : ReferenceEvent → List ReferenceNote → Prop) (o : Observer) (type? : Option Ty)
    (notes : List ReferenceNote) : Prop :=
  ∀ before event after, notes = before ++ .told o event :: after → (∀ note ∈ after, note.isChange = false) →
    event.type? = type? ∨ late event before

section Notes

variable {o o' : Observer} {type? : Option Ty} {event event' : ReferenceEvent} {notes : List ReferenceNote}
  {late : ReferenceEvent → List ReferenceNote → Prop}

theorem ToldSinceChange.append (h : ToldSinceChange o type? notes) {more : List ReferenceNote}
    (hm : ∀ note ∈ more, note.isChange = false) : ToldSinceChange o type? (notes ++ more) := by
  obtain ⟨before, event, after, rfl, hfits, ha⟩ := h
  refine ⟨before, event, after ++ more, by simp, hfits, fun note hn => ?_⟩
  exact (List.mem_append.1 hn).elim (ha note) (hm note)

/-- A telling among notes to which one is added is that one, or is among the notes before. -/
theorem told_of_concat {note : ReferenceNote} {before after : List ReferenceNote}
    (h : notes ++ [note] = before ++ .told o event :: after) :
    (note = .told o event ∧ notes = before ∧ after = []) ∨
      ∃ after', notes = before ++ .told o event :: after' ∧ after = after' ++ [note] := by
  rcases List.eq_nil_or_concat after with rfl | ⟨after', last, rfl⟩
  · obtain ⟨hbefore, hlast⟩ := List.append_inj' h rfl
    exact .inl ⟨by simpa using hlast, hbefore, rfl⟩
  · rw [List.concat_eq_append, ← List.cons_append, ← List.append_assoc] at h
    obtain ⟨hbefore, hlast⟩ := List.append_inj' h rfl
    exact .inr ⟨after', hbefore, by simp_all⟩

theorem Truthful.mono {late' : ReferenceEvent → List ReferenceNote → Prop} (h : Truthful late o type? notes)
    (hle : ∀ event before, late event before → late' event before) : Truthful late' o type? notes :=
  fun before event after hnotes ha => (h before event after hnotes ha).imp_right (hle event before)

theorem Truthful.told (h : Truthful late o type? notes)
    (hnew : o' = o → event'.type? = type? ∨ late event' notes) :
    Truthful late o type? (notes ++ [.told o' event']) := by
  intro before event after hnotes ha
  rcases told_of_concat hnotes with ⟨hlast, rfl, -⟩ | ⟨after', hbefore, rfl⟩
  · cases hlast
    exact hnew rfl
  · exact h before event after' hbefore fun note hn => ha note (List.mem_append_left _ hn)

/-- After a change nothing has been told yet. -/
theorem Truthful.change : Truthful late o type? (notes ++ [.change event']) := by
  intro before event after hnotes ha
  rcases told_of_concat hnotes with ⟨hlast, -, -⟩ | ⟨after', -, rfl⟩
  · cases hlast
  · exact absurd (ha (.change event') (by simp)) (by simp [ReferenceNote.isChange])

/-- The last of the notes that tell the observer something. -/
theorem exists_last_told (h : ∃ event, .told o event ∈ notes) : ∃ before event after,
    notes = before ++ .told o event :: after ∧ ∀ note ∈ after, note.isTo o = false := by
  obtain ⟨event, hm⟩ := h
  have hfound : (notes.reverse.find? (·.isTo o)).isSome := by
    rw [List.find?_isSome]
    exact ⟨_, List.mem_reverse.2 hm, by simp [ReferenceNote.isTo]⟩
  obtain ⟨note, hnote⟩ := Option.isSome_iff_exists.1 hfound
  obtain ⟨hto, after, before, hsplit, hlast⟩ := List.find?_eq_some_iff_append.1 hnote
  cases note with
  | change => cases hto
  | told o' event =>
    obtain rfl : o' = o := by simpa [ReferenceNote.isTo] using hto
    refine ⟨before.reverse, event, after.reverse, ?_, fun note hn => ?_⟩
    · rw [← List.reverse_reverse notes, hsplit]
      simp
    · simpa using hlast note (List.mem_reverse.1 hn)

/-- If the observer has been told the state since the last change, then whatever it is told last fits the
state or comes late, after the observer had been told the state. -/
theorem Truthful.last (h : Truthful late o type? notes) (htold : ToldSinceChange o type? notes) :
    ∃ before event after, notes = before ++ .told o event :: after ∧
      (∀ note ∈ after, note.isChange = false ∧ note.isTo o = false) ∧
      (event.type? = type? ∨ ToldSinceChange o type? before ∧ late event before) := by
  obtain ⟨before, event, after, rfl, hfits, hafter⟩ := htold
  by_cases hlater : ∃ event, .told o event ∈ after
  · obtain ⟨between, last, rest, rfl, hrest⟩ := exists_last_told hlater
    have hchange : ∀ note ∈ rest, note.isChange = false := fun note hn => hafter note (by simp [hn])
    have hsplit : before ++ .told o event :: (between ++ .told o last :: rest) =
        (before ++ .told o event :: between) ++ .told o last :: rest := by simp
    refine ⟨_, last, rest, hsplit, fun note hn => ⟨hchange note hn, hrest note hn⟩, ?_⟩
    rcases h _ last rest hsplit hchange with hlast | hlast
    · exact .inl hlast
    · refine .inr ⟨⟨before, event, between, rfl, hfits, fun note hn => ?_⟩, hlast⟩
      exact hafter note (by simp [hn])
  · refine ⟨before, event, after, rfl, fun note hn => ⟨hafter note hn, ?_⟩, .inl hfits⟩
    cases note with
    | change => rfl
    | told o' event' =>
      have hne : o' ≠ o := by
        rintro rfl
        exact hlater ⟨event', hn⟩
      simp [ReferenceNote.isTo, hne]

end Notes

namespace Engine

/-- After these notes the observer was told of the event by a pass that had been overtaken in the run so
far. -/
def ToldLate (o : Observer) (r : ReferenceId) (moves : List (Move ν)) (event : ReferenceEvent)
    (before : List ReferenceNote) : Prop :=
  ∃ first last e queue below, moves = first ++ .work :: last ∧ run? {} first = some e ∧
    e.history r = before ∧ e.stack = .referencePass r event (.observer o :: queue) :: below ∧
    Overtaken o r event below first e

/-- A listener has been told of the state, or a pass that is under way will tell it. -/
def Informed (o : Observer) (side : ReferenceSide) : Prop :=
  o ∈ side.listeners → ToldSinceChange o side.type? side.notes ∨
    ∃ audience ∈ side.audiences, o ∈ audience.2 ∧ audience.1.type? = side.type?

/-- Whether the observer, should it begin to listen to the reference, is informed about the state. -/
def informs (o : Observer) (r : ReferenceId) (_ : Engine ν) : Move ν → Bool
  | .call (.listenToReference r' o' inform) => inform || r' ≠ r || o' ≠ o
  | _ => true

section Steps

variable {o : Observer} {r : ReferenceId} {side side' : ReferenceSide} {m : Move ν} {e e' : Engine ν}

theorem ToldLate.append {moves : List (Move ν)} {event : ReferenceEvent} {before : List ReferenceNote}
    (h : ToldLate o r moves event before) (m : Move ν) : ToldLate o r (moves ++ [m]) event before := by
  obtain ⟨first, last, e, queue, below, rfl, hlate⟩ := h
  exact ⟨first, last ++ [m], e, queue, below, by simp, hlate⟩

/-- The observer is told by a pass that is in order, or on beginning to listen. -/
theorem truthful_move {moves : List (Move ν)}
    (h : Truthful (ToldLate o r moves) o (e.typeOf? r) (e.history r)) (hrun : run? {} moves = some e)
    (hin : PassesInOrder o r moves e) (hv : Lively e) (hm : e.move? m = some e') :
    Truthful (ToldLate o r (moves ++ [m])) o (e'.typeOf? r) (e'.history r) := by
  have hstep := move?_referenceStep hv hm r
  have before := h.mono fun event before hlate => hlate.append m
  have htype : (e'.referenceSide r).type? = e'.typeOf? r := rfl
  have hnotes : (e'.referenceSide r).notes = e'.history r := rfl
  have haud' : (e'.referenceSide r).audiences = e'.audiences r := rfl
  rw [← htype, ← hnotes]
  generalize e'.referenceSide r = side at hstep haud'
  cases hstep with
  | @told event o' queue rest haud =>
    refine before.told ?_
    rintro rfl
    obtain ⟨rfl, queue', below, hs⟩ := pass_of_told hm haud haud'.symm
    rcases ((hin [] event _ below hs).2 List.mem_cons_self).2 with hfits | hover
    · exact .inl hfits
    · exact .inr ⟨moves, [], e, queue', below, rfl, hrun, rfl, hs, hover⟩
  | change event => exact .change
  | @listen o' inform hcall =>
    cases inform with
    | false => simpa [referenceSide] using before
    | true => exact before.told fun _ => .inl (ReferenceEvent.type?_now _)
  | _ => exact before

theorem RunBy.truthful {allowed : Engine ν → Move ν → Prop} {moves : List (Move ν)}
    (h : RunBy allowed moves e) : Truthful (ToldLate o r moves) o (e.typeOf? r) (e.history r) := by
  induction h with
  | new => exact fun before event after h => by simp [history] at h
  | move hrun _ hm ih =>
    exact truthful_move ih hrun.run hrun.passesInOrder (Reachable.lively ⟨_, hrun.run⟩) hm

theorem ReferenceStep.informed (h : ReferenceStep r m side side') (hm : informs o r e m)
    (hi : Informed o side) : Informed o side' := by
  intro ho
  cases h with
  | unseen => exact hi ho
  | @told event o' queue rest haud =>
    rcases hi ho with htold | ⟨audience, hmem, hmem', hfits⟩
    · exact .inl (htold.append (by simp [ReferenceNote.isChange]))
    · rw [haud] at hmem
      rcases List.mem_cons.1 hmem with rfl | hmem
      · -- The pass that owes it the news has its turn now.
        rcases List.mem_cons.1 hmem' with rfl | hmem'
        · exact .inl ⟨side.notes, event, [], rfl, hfits, nofun⟩
        · exact .inr ⟨(event, queue), by simp, hmem', hfits⟩
      · exact .inr ⟨audience, by simp [hmem], hmem', hfits⟩
  | done haud =>
    rcases hi ho with htold | ⟨audience, hmem, hmem', hfits⟩
    · exact .inl htold
    · rw [haud] at hmem
      rcases List.mem_cons.1 hmem with rfl | hmem
      · cases hmem'
      · exact .inr ⟨audience, hmem, hmem', hfits⟩
  | change event => exact .inr ⟨(event, side.listeners), by simp, ho, rfl⟩
  | @listen o' inform hcall =>
    rcases List.mem_append.1 ho with ho | ho
    · refine (hi ho).imp_left fun htold => htold.append ?_
      cases inform <;> simp [ReferenceNote.isChange]
    · cases List.mem_singleton.1 ho
      have hinform : inform = true := by simpa [hcall, informs] using hm
      subst hinform
      exact .inl ⟨side.notes, _, [], rfl, ReferenceEvent.type?_now _, nofun⟩
  | leave => exact hi (List.mem_of_mem_erase ho)
  | clear => cases ho

theorem RunBy.informed {moves : List (Move ν)} (h : RunBy (fun e m => informs o r e m) moves e) :
    Informed o (e.referenceSide r) := by
  induction h with
  | new => exact nofun
  | move hrun ha hm ih =>
    exact (move?_referenceStep (Reachable.lively ⟨_, hrun.run⟩) hm r).informed ha ih

theorem ToldLate.false_of_peace {moves : List (Move ν)} {event : ReferenceEvent} {before : List ReferenceNote}
    (h : ToldLate o r moves event before) (hp : RunBy (fun e m => e.leavesInPeace r m) moves e) : False := by
  obtain ⟨first, last, e', queue, below, hmoves, -, -, -, hover⟩ := h
  exact hover.false_of_peace hp hmoves

end Steps

/-- Whoever listens to a reference, and was informed about its state on beginning to listen, has at rest
been told something after the last change of the reference. What it was told last fits the state, unless
it was told by a pass that had been overtaken: while an earlier listener of that pass was being told, the
host did something that made the reference change. The listener had then already been told the state. If
the host makes no calls while listeners of the reference are being told, the last event fits. -/
theorem last_told_fits_unless_overtaken {o : Observer} {r : ReferenceId} {moves : List (Move ν)}
    {e : Engine ν} (h : RunBy (fun e m => informs o r e m) moves e) (hrest : e.atRest)
    (ho : o ∈ e.listenersOf r) :
    ∃ before event after, e.history r = before ++ .told o event :: after ∧
      (∀ note ∈ after, note.isChange = false ∧ note.isTo o = false) ∧
      (event.type? = e.typeOf? r ∨
        ToldSinceChange o (e.typeOf? r) before ∧ ToldLate o r moves event before) ∧
      (RunBy (fun e m => e.leavesInPeace r m) moves e → event.type? = e.typeOf? r) := by
  have haud : (e.referenceSide r).audiences = [] := by
    have hs : e.stack = [] := by simpa [atRest] using hrest
    simp [referenceSide, audiences, hs]
  have htold : ToldSinceChange o (e.typeOf? r) (e.history r) := by
    rcases h.informed ho with htold | ⟨audience, hm, -⟩
    · exact htold
    · rw [haud] at hm
      cases hm
  obtain ⟨before, event, after, hnotes, hafter, hlast⟩ := h.truthful.last htold
  refine ⟨before, event, after, hnotes, hafter, hlast, fun hpeace => ?_⟩
  exact hlast.resolve_right fun hlate => hlate.2.false_of_peace hpeace

/-- The theorem at two runs. In the first an earlier listener removes the type as soon as the reference has
it. In the second the type is removed after both have been told of it. -/
theorem last_told_after_removals : (∃ (moves : List (Move Node)) (e : Engine Node),
    RunBy (fun e m => informs ⟨1⟩ 0 e m) moves e ∧
      (e.history 0).getLast? = some (.told ⟨1⟩ (.resolved ⟨1, "a", "a"⟩)) ∧ e.typeOf? 0 = none ∧
      ∃ before event after, e.history 0 = before ++ .told ⟨1⟩ event :: after ∧
        (event.type? = e.typeOf? 0 ∨
          ToldSinceChange ⟨1⟩ (e.typeOf? 0) before ∧ ToldLate ⟨1⟩ 0 moves event before)) ∧
    ∃ (moves : List (Move Node)) (e : Engine Node),
      RunBy (fun e m => informs ⟨1⟩ 0 e m) moves e ∧ RunBy (fun e m => e.leavesInPeace 0 m) moves e ∧
      (e.history 0).length = 7 ∧
      ∃ before event after, e.history 0 = before ++ .told ⟨1⟩ event :: after ∧
        (∀ note ∈ after, note.isChange = false) ∧ event.type? = e.typeOf? 0 := by
  constructor
  · obtain ⟨moves, e, hrun, hrest, ho, hlast, ht⟩ : ∃ moves e,
        runChecked? (fun e m _ => informs ⟨1⟩ 0 e m) ({} : Engine Node) moves = some e ∧
        e.atRest ∧ ⟨1⟩ ∈ e.listenersOf 0 ∧
        (e.history 0).getLast? = some (.told ⟨1⟩ (.resolved ⟨1, "a", "a"⟩)) ∧ e.typeOf? 0 = none :=
      ⟨[.call (.addSystem {} .plain .graph),
        .call (.addReference 0 (.identifier "a")), .work, .work,
        .call (.listenToReference 0 ⟨0⟩ false), .work,
        .call (.listenToReference 0 ⟨1⟩ true), .answer .done, .work,
        .call (.addType ⟨1, "a", "a"⟩ "a"), .work, .work, .work, .work,
        .call (.removeType ⟨1, "a", "a"⟩), .work, .work, .work, .work, .work, .answer .done, .work,
        .answer .done, .work, .work, .work, .work, .work, .answer .done, .work, .answer .done,
        .work, .work, .work], _, rfl, rfl, by decide, rfl, rfl⟩
    have hby := RunBy.of_check hrun
    obtain ⟨before, event, after, hnotes, -, hfits, -⟩ := last_told_fits_unless_overtaken hby hrest ho
    exact ⟨moves, e, hby, hlast, ht, before, event, after, hnotes, hfits⟩
  · obtain ⟨moves, e, hrun, hpeace, hrest, ho, hlength⟩ : ∃ moves e,
        runChecked? (fun e m _ => informs ⟨1⟩ 0 e m) ({} : Engine Node) moves = some e ∧
        runChecked? (fun e m _ => e.leavesInPeace 0 m) ({} : Engine Node) moves = some e ∧
        e.atRest ∧ ⟨1⟩ ∈ e.listenersOf 0 ∧ (e.history 0).length = 7 :=
      ⟨[.call (.addSystem {} .plain .graph),
        .call (.addReference 0 (.identifier "a")), .work, .work,
        .call (.listenToReference 0 ⟨0⟩ false), .work,
        .call (.listenToReference 0 ⟨1⟩ true), .answer .done, .work,
        .call (.addType ⟨1, "a", "a"⟩ "a"), .work, .work, .work, .work, .answer .done, .work, .answer .done,
        .work, .work, .work,
        .call (.removeType ⟨1, "a", "a"⟩), .work, .work, .work, .work, .work, .answer .done, .work,
        .answer .done, .work, .work, .work, .work, .work], _, rfl, rfl, rfl, by decide, rfl⟩
    have hby := RunBy.of_check hrun
    have peaceful := RunBy.of_check hpeace
    obtain ⟨before, event, after, hnotes, hafter, -, hfits⟩ := last_told_fits_unless_overtaken hby hrest ho
    exact ⟨moves, e, hby, peaceful, hlength, before, event, after, hnotes, fun note hn => (hafter note hn).1,
      hfits peaceful⟩

/-- Whether an observer does nothing when it is told something. -/
def onlyRecords (o : Observer) (e : Engine ν) (m : Move ν) : Bool :=
  match e.question?, m with
  | some (.tell _ _), .answer .done => true
  | some (.tell o' _), _ => o' ≠ o
  | _, _ => true

/-- An earlier listener removes the type as soon as the reference has it. The later one, which only records,
is told of the loss before it is told of the type. -/
theorem late_event_told_last : ∃ e : Engine Node,
    runChecked? (fun e m _ => onlyRecords ⟨1⟩ e m) {} [
      .call (.addSystem {} .plain .graph),
      .call (.addReference 0 (.identifier "a")), .work, .work,
      .call (.listenToReference 0 ⟨0⟩ false), .work,
      .call (.listenToReference 0 ⟨1⟩ true), .answer .done, .work,
      .call (.addType ⟨1, "a", "a"⟩ "a"), .work, .work, .work, .work,
      .call (.removeType ⟨1, "a", "a"⟩), .work, .work, .work, .work, .work, .answer .done, .work,
      .answer .done, .work, .work, .work, .work, .work, .answer .done, .work, .answer .done,
      .work, .work, .work] = some e ∧
    e.atRest ∧ e.listenersOf 0 = [⟨0⟩, ⟨1⟩] ∧ e.typeOf? 0 = none ∧
    e.history 0 = [
      .told ⟨1⟩ (.invalidated none),
      .change (.resolved ⟨1, "a", "a"⟩), .told ⟨0⟩ (.resolved ⟨1, "a", "a"⟩),
      .change (.invalidated (some ⟨1, "a", "a"⟩)), .told ⟨0⟩ (.invalidated (some ⟨1, "a", "a"⟩)),
      .told ⟨1⟩ (.invalidated (some ⟨1, "a", "a"⟩)), .told ⟨1⟩ (.resolved ⟨1, "a", "a"⟩)] :=
  ⟨_, rfl, rfl, rfl, rfl, rfl⟩

end Engine
end LiveTypes
