import LiveTypes.Proofs.Chains

/-!
# Discreet hosts

A reference that reads another agrees with it unless it takes a type too late (`Engine.TakesInTime`). A host
prevents that by its calls alone: it may call back from anywhere and as it likes, but it removes a type only
while no removal is being told and no reference is telling that it took a type, and it creates a reference
that reads another only while no removal is being told. `Engine.discreet` is this condition.

Under it a reference follows its source in everything. It subscribes to the graph after it, so every pass on
a removal that has yet to call the source has yet to call the reference, and calls the source first.
-/
namespace LiveTypes

variable {ν : Type}

/-! ## Frames of a removal -/

namespace Frame

/-- Whether a frame is about to take a type out of the graph, or tells that one has left. -/
def withdraws : Frame ν → Bool
  | .graphPass (.removedType _ _) _ => true
  | .typeRemoval _ _ _ => true
  | _ => false

/-- Whether a frame belongs to the telling of a removal: it is the pass on it, or lets a reference start over
that has lost its type. -/
def isAftermath : Frame ν → Bool
  | .graphPass (.removedType _ _) _ => true
  | .restart _ => true
  | _ => false

/-- Whether a frame tells that a reference has taken a type. -/
def tellsOfType : Frame ν → Bool
  | .referencePass _ (.resolved _) _ => true
  | _ => false

/-- Whether a type may leave the graph while the frame is under way. -/
def isIdle (f : Frame ν) : Bool := !f.isAftermath && !f.tellsOfType

section Idle

variable {f f' : Frame ν} (h : f.isIdle)
include h

theorem owesLoss_of_isIdle (r : ReferenceId) (t : Ty) : f.owesLoss r t = false := by
  unfold owesLoss
  split
  · cases h
  · rfl

theorem owesCall_of_isIdle (source r : ReferenceId) : f.owesCall source r = false := by
  unfold owesCall
  split
  · cases h
  · rfl

theorem isRestartOf_of_isIdle (r : ReferenceId) : f.isRestartOf r = false := by
  unfold isRestartOf
  split
  · cases h
  · rfl

end Idle

theorem isIdle_of_isFresh {f : Frame ν} (hf : f.isFresh) (hw : f.withdraws = false) : f.isIdle := by
  cases f with
  | graphPass event queue => cases event <;> first | rfl | cases hw
  | referencePass => cases hf
  | restart => cases hf
  | _ => rfl

theorem withdraws_of_isPlain {f : Frame ν} (h : f.isPlain) : f.withdraws = false := by
  cases f <;> simp_all [isPlain, withdraws]

theorem withdraws_of_purpose {f : Frame ν} {purpose : Purpose} (h : f.purpose? = some purpose) :
    f.withdraws = false := by
  cases f <;> simp_all [purpose?, withdraws]

theorem isGraphWork_of_withdraws {f : Frame ν} (h : f.withdraws) : f.isGraphWork := by
  cases f <;> simp_all [withdraws, isGraphWork]

theorem Skips.withdraws {f f' : Frame ν} (h : f.Skips f') : f'.withdraws = f.withdraws := by
  cases h with
  | @graph event => cases event <;> rfl
  | rules => rfl
  | reference => rfl

theorem Calls.withdraws {f f' : Frame ν} {r : ReferenceId} (h : f.Calls f' r) :
    f.withdraws = false ∧ f'.withdraws = false := by
  cases h <;> exact ⟨rfl, rfl⟩

end Frame

namespace Engine

/-- Whether a move removes types and creates references only when that is harmless. -/
def discreet (e : Engine ν) : Move ν → Bool
  | .call (.removeType _) => e.stack.all Frame.isIdle
  | .call (.addReference _ (.reference _)) => e.stack.all (!·.isAftermath)
  | _ => true

/-! ## Removals are made on top of idle work -/

/-- Whatever takes a type out of the graph or tells of that does so on top of idle work. -/
def Secluded (e : Engine ν) : Prop := e.stack.Pairwise fun f g => f.withdraws → g.isIdle

/-- How many frames take a type out of the graph or tell of that. -/
def withdrawals (e : Engine ν) : Nat := e.stack.countP Frame.withdraws

section Secluded

variable {e e' : Engine ν} {m : Move ν} {f : Frame ν} {news rest : List (Frame ν)}

theorem Secluded.below (h : Secluded e) (hs : e.stack = f :: rest) (hf : f.withdraws) :
    ∀ g ∈ rest, g.isIdle := by
  rw [Secluded, hs, List.pairwise_cons] at h
  exact fun g hg => h.1 g hg hf

theorem Secluded.pop (h : Secluded e) (hs : e.stack = f :: rest) : Secluded (e.withStack rest) := by
  rw [Secluded, hs] at h
  exact h.of_cons

theorem Secluded.turn {f' : Frame ν} (h : Secluded e) (hs : e.stack = f :: rest)
    (hf : f'.withdraws = f.withdraws) : Secluded (e.withStack (f' :: rest)) := by
  rw [Secluded, hs, List.pairwise_cons] at h
  exact List.pairwise_cons.2 ⟨fun g hg hw => h.1 g hg (hf ▸ hw), h.2⟩

/-- Other work goes on top of everything. -/
theorem Secluded.cover (h : Secluded e) (hs : e'.stack = news ++ e.stack)
    (hnews : ∀ f ∈ news, f.withdraws = false) : Secluded e' := by
  rw [Secluded, hs, List.pairwise_append]
  refine ⟨List.pairwise_of_forall_mem_list fun f hf _ _ hw => ?_, h, fun f hf _ _ hw => ?_⟩ <;>
    simp [hnews f hf] at hw

/-- One removal goes on top of idle work, among frames that are no hindrance. -/
theorem Secluded.withdraw (h : Secluded e) (hs : e'.stack = news ++ e.stack) (hidle : ∀ g ∈ e.stack, g.isIdle)
    (hfresh : ∀ f ∈ news, f.isFresh) (hone : news.countP Frame.withdraws ≤ 1) : Secluded e' := by
  rw [Secluded, hs, List.pairwise_append]
  refine ⟨?_, h, fun _ _ g hg _ => hidle g hg⟩
  clear hs
  induction news with
  | nil => exact .nil
  | cons f news ih =>
    rw [List.countP_cons] at hone
    refine List.pairwise_cons.2 ⟨fun g hg hw => ?_, ih (fun g hg => hfresh g (by simp [hg])) (by omega)⟩
    rw [if_pos hw] at hone
    refine Frame.isIdle_of_isFresh (hfresh g (by simp [hg])) ?_
    simpa using List.countP_eq_zero.1 (show news.countP Frame.withdraws = 0 by omega) g hg

theorem withdrawals_eq_works (e : Engine ν) : e.withdrawals = e.works.countP Frame.withdraws := by
  rw [withdrawals, works, List.countP_filter]
  refine List.countP_congr fun f _ => ?_
  cases hw : f.withdraws with
  | true => simp [Frame.isGraphWork_of_withdraws hw]
  | false => simp

/-- A removal comes under way only by a call for it. -/
theorem move?_withdrawals (hm : e.move? m = some e') (hne : ∀ t, m ≠ .call (.removeType t)) :
    e'.withdrawals ≤ e.withdrawals := by
  simp only [withdrawals_eq_works]
  have hstep := move?_graphStep hm
  have hworks : e'.works = e'.graphSide.works := rfl
  rw [hworks]
  generalize e'.graphSide = side at hstep
  cases hstep with
  | relist hr =>
    obtain ⟨listeners, -, rfl⟩ := hr
    exact Nat.le_refl _
  | forget => exact Nat.le_refl _
  | done hw => simp [hw, List.countP_cons]
  | @turn event _ _ _ _ hw => cases event <;> simp [hw, List.countP_cons, Frame.withdraws]
  | addType => simp [announced, Frame.withdraws]
  | addEdge => simp [announced, Frame.withdraws]
  | removeEdge => simp [announced, Frame.withdraws]
  | removeType hm => exact absurd hm (hne _)
  | dropEdge hw => simp [announced, hw, List.countP_cons, Frame.withdraws]
  | missEdge hw => simp [hw, List.countP_cons, Frame.withdraws]
  | dropNode _ hs => simp [announced, works_cons hs rfl, List.countP_cons, Frame.withdraws]

theorem removeType_secluded {t : Ty} (h : Secluded e) (hidle : ∀ g ∈ e.stack, g.isIdle) :
    Secluded (e.call (.removeType t)) := by
  simp only [call]
  split
  · exact h
  · rename_i key _
    have hs : (((e.push (.deliver (.flag true))).push (.typeRemoval t key (e.graph.incident t))).stack) =
        [.typeRemoval t key (e.graph.incident t), .deliver (.flag true)] ++ e.stack := by simp
    refine h.withdraw hs hidle ?_ ?_
    · simp [Frame.isFresh]
    · simp [List.countP_cons, Frame.withdraws]

theorem Plain.secluded {p : Option Purpose} (hp : Plain p e e') (h : Secluded e) : Secluded e' := by
  obtain ⟨news, hs, hf⟩ := hp.stack
  exact h.cover hs fun f hm => Frame.withdraws_of_isPlain (hf f hm).plain

/-- The new work of a calm change, if it adds no removal. -/
theorem Calm.secluded {p : Option Purpose} (hc : Calm p e e') (h : Secluded e)
    (hle : e'.withdrawals ≤ e.withdrawals) : Secluded e' := by
  obtain ⟨news, hs, -⟩ := hc.stack
  refine h.cover hs fun f hm => ?_
  rw [withdrawals, withdrawals, hs, List.countP_append] at hle
  simpa using List.countP_eq_zero.1 (show news.countP Frame.withdraws = 0 by omega) f hm

/-- A move of a discreet host leaves every removal on top of idle work. -/
theorem move?_secluded (hm : e.move? m = some e') (hd : e.discreet m) (h : Secluded e) : Secluded e' := by
  by_cases hcall : ∃ t, m = .call (.removeType t)
  · obtain ⟨t, rfl⟩ := hcall
    simp only [move?] at hm
    split at hm
    · cases hm
      exact removeType_secluded h (by simpa [discreet] using hd)
    · cases hm
  have hle := move?_withdrawals hm fun t ht => hcall ⟨t, ht⟩
  cases move?_step hm with
  | calm hu hc =>
    cases hu with
    | call => exact hc.secluded h hle
    | @done f rest hs hf =>
      obtain ⟨news, hs', hfresh⟩ := hc.stack
      by_cases hw : f.withdraws
      · -- the removal goes on to its next piece of work
        refine (h.pop hs).withdraw hs' (h.below hs hw) (fun g hg => (hfresh g hg).fresh) ?_
        simp only [withdrawals, hs, hs', List.countP_append, List.countP_cons, if_pos hw] at hle
        omega
      · refine hc.secluded (h.pop hs) ?_
        simpa [withdrawals, hs, List.countP_cons, hw] using hle
    | @read f rest i source hs hr =>
      refine hc.secluded (h.pop hs) ?_
      have hw := Frame.withdraws_of_purpose (Frame.purpose?_of_reads hr)
      simpa [withdrawals, hs, List.countP_cons, hw] using hle
  | enrol ha _ =>
    rw [Secluded, ha.stack]
    exact h
  | skip hs hk hc =>
    refine hc.secluded (h.turn hs hk.withdraws) ?_
    simpa [withdrawals, hs, List.countP_cons, hk.withdraws] using hle
  | attempt hs hk =>
    exact (plain_attempt _ _).secluded (h.turn hs (hk.withdraws.2.trans hk.withdraws.1.symm))
  | @lose t key queue rest i hs =>
    have turned : Secluded (e.withStack (.graphPass (.removedType t key) queue :: rest)) := h.turn hs rfl
    rcases invalidate_cases (e.withStack (.graphPass (.removedType t key) queue :: rest)) i t
      with ⟨heq, -⟩ | ⟨x, watch, hlost⟩
    · rw [heq]
      exact turned
    · exact turned.cover (hlost.stack.trans (List.append_assoc [_] [_] _).symm) (by simp [Frame.withdraws])
  | @restart rest i hs =>
    rcases startResolving_cases (e.withStack rest) i with ⟨heq, -⟩ | ⟨x, -, -, heq⟩
    · rw [heq]
      exact h.pop hs
    · have subscribed : Secluded ((e.withStack rest).subscribe i x.system) := h.pop hs
      rw [heq]
      exact (plain_attempt _ _).secluded subscribed
  | @resolve f rest i t hs hp _ =>
    rcases resolve_cases (e.withStack rest) i t with ⟨heq, -⟩ | ⟨x, subs, htaken⟩
    · rw [heq]
      exact h.pop hs
    · exact (h.pop hs).cover (htaken.stack.trans List.singleton_append.symm) (by simp [Frame.withdraws])
  | @addReference s selector _ _ hk =>
    rw [addReference_eq hk]
    refine (plain_attempt _ _).secluded (h.cover List.singleton_append.symm ?_)
    simp [Frame.withdraws]
  | @deconstruct i _ =>
    refine (Plain.finish (p := none) _).secluded ?_
    rcases deconstruct_cases e i with heq | ⟨x, hst⟩
    · rwa [heq]
    · rw [Secluded, hst.stack]
      exact h

end Secluded

/-! ## Following -/

/-- A queue calls `r` if it calls `source`, and afterwards. -/
structure Behind (queue : List GraphListener) (source r : ReferenceId) : Prop where
  called : .reference source ∈ queue → .reference r ∈ queue
  order : Before queue (.reference source) (.reference r)

theorem Behind.tail {l : GraphListener} {queue : List GraphListener} {source r : ReferenceId}
    (h : Behind (l :: queue) source r) : Behind queue source r := by
  refine ⟨fun hm => ?_, h.order.tail⟩
  rcases List.mem_cons.1 (h.called (List.mem_cons_of_mem _ hm)) with heq | hm'
  · subst heq
    exact absurd hm h.order.head
  · exact hm'

/-- A reference is yet to hear that its type left. -/
def Stale (e : Engine ν) (r : ReferenceId) : Prop := ∃ t, e.typeOf? r = some t ∧ e.due r t

/-- A reference subscribed to the graph after its source, or will subscribe anew: because it is to lose its
type, or because it is to take that of the source. -/
def Newer (e : Engine ν) (r source : ReferenceId) : Prop :=
  ∀ (x y : Reference ν) (n n' : Nat), e.core? r = some x → e.core? source = some y →
    x.state.graphNumber? = some n → y.state.graphNumber? = some n' →
    n' < n ∨ Stale e r ∨ (e.typeOf? r = none ∧ e.typeOf? source ≠ none)

/-- How a reference follows its source under a discreet host. -/
structure Follows (e : Engine ν) (r source : ReferenceId) : Prop where
  fits : Fits e r source
  /-- While the source is to start over, the reference has yet to lose its type. -/
  later : e.restarts source ≠ 0 → e.typeOf? r ≠ none
  newer : Newer e r source
  behind : ∀ t key queue, .graphPass (.removedType t key) queue ∈ e.works → Behind queue source r

/-- Every reference that reads another follows it. -/
def Successive (e : Engine ν) : Prop :=
  ∀ (r source : ReferenceId) (x : Reference ν), e.core? r = some x → x.deconstructed = false →
    x.selector.source? = some source → Follows e r source

section Numbers

variable {e : Engine ν} {r : ReferenceId} {x : Reference ν}

/-- What a reference has among the listeners of the graph carries its number and its type. -/
theorem Subscribed.of_held (h : Subscribed e) {z : Entry (Option Ty) GraphListener}
    (hz : z ∈ e.listeners.held (.reference r)) :
    ∃ x, e.core? r = some x ∧ x.state.graphNumber? = some z.id ∧ x.state.type? = z.key := by
  rw [h.held] at hz
  cases hx : e.core? r with
  | none => simp [hx, Reference.graphEntries] at hz
  | some x =>
    refine ⟨x, rfl, ?_⟩
    rw [hx] at hz
    have hz : z ∈ x.state.graphEntries r := hz
    rcases hst : x.state with (_ | subs) | ⟨t, _ | watch⟩ <;> rw [hst] at hz
    · cases hz
    · cases List.mem_singleton.1 hz
      exact ⟨rfl, rfl⟩
    · cases hz
    · cases List.mem_singleton.1 hz
      exact ⟨rfl, rfl⟩

/-- A reference that is neither deconstructed nor to start over has an entry with its type. -/
theorem Subscribed.entry (h : Subscribed e) (hv : Lively e) (hx : e.core? r = some x)
    (hd : x.deconstructed = false) (h0 : e.restarts r = 0) :
    ∃ n, x.state.graphNumber? = some n ∧
      e.listeners.held (.reference r) = [⟨n, x.state.type?, .reference r⟩] := by
  obtain ⟨y, hy, rfl⟩ := Option.map_eq_some_iff.1 hx
  have hsub := hv.of_quiet hy hd h0
  rw [h.held_eq hy, show y.core.state = y.state from rfl]
  rcases hst : y.state with (_ | subs) | ⟨t, _ | watch⟩ <;> rw [hst] at hsub
  · cases hsub
  · exact ⟨subs.graph, rfl, rfl⟩
  · cases hsub
  · exact ⟨watch, rfl, rfl⟩

theorem Subscribed.number_lt (h : Subscribed e) (hx : e.core? r = some x) {n : Nat}
    (hn : x.state.graphNumber? = some n) : n < e.listeners.nextId := by
  have hheld := h.held r
  rw [hx] at hheld
  obtain ⟨z, hz, hid⟩ : ∃ z ∈ x.state.graphEntries r, z.id = n := by
    rcases hst : x.state with (_ | subs) | ⟨t, _ | watch⟩ <;> rw [hst] at hn <;> cases hn
    · exact ⟨_, List.mem_singleton.2 rfl, rfl⟩
    · exact ⟨_, List.mem_singleton.2 rfl, rfl⟩
  have hz : z ∈ e.listeners.held (.reference r) := hheld ▸ hz
  exact hid ▸ h.graph.issued z (Registry.mem_held.1 hz).1

end Numbers

/-! ### What a move keeps -/

section Steps

variable {e e' : Engine ν} {m : Move ν} {r source : ReferenceId} {x x' : Reference ν}

section Idle

variable (hidle : ∀ f ∈ e.stack, f.isIdle)
include hidle

theorem due_of_idle (r : ReferenceId) (t : Ty) : e.due r t = false := by
  simpa [due] using fun f hf => Frame.owesLoss_of_isIdle (hidle f hf) r t

theorem called_of_idle (source r : ReferenceId) : e.called source r = false := by
  simpa [called] using fun f hf => Frame.owesCall_of_isIdle (hidle f hf) source r

theorem restarts_of_idle (r : ReferenceId) : e.restarts r = 0 := by
  simpa [restarts] using fun f hf => Frame.isRestartOf_of_isIdle (hidle f hf) r

/-- While all work is idle, a reference agrees with its source. -/
theorem Fits.agrees_of_idle (h : Fits e r source) (ha : Awaits e r source) :
    e.typeOf? r = e.typeOf? source := by
  cases ht : e.typeOf? r with
  | some t =>
    refine ((h t ht).resolve_right ?_).symm
    simp [due_of_idle hidle]
  | none =>
    refine ((ha ht).resolve_right ?_).symm
    simp [called_of_idle hidle, restarts_of_idle hidle]

end Idle

/-- A pass on a removal that begins now calls a reference after its source. -/
theorem Follows.behind_hearers {t : Ty} {key : String} {rest : List (Frame ν)} (h : Follows e r source)
    (hv : Lively e) (hsub : Subscribed e) (hsec : Secluded e) (hattends : AttendsSource e r)
    (hs : e.stack = .typeRemoval t key [] :: rest) (hx : e.core? r = some x) (hd : x.deconstructed = false)
    (hsrc : x.selector.source? = some source) : Behind (e.hearers t) source r := by
  have hidle : ∀ f ∈ e.stack, f.isIdle := by
    rw [hs]
    exact List.forall_mem_cons.2 ⟨rfl, hsec.below hs rfl⟩
  have hagree := h.fits.agrees_of_idle hidle
    (awaits_of_top (hattends x source hx hd hsrc).2 hs (by simp [Frame.purpose?]))
  obtain ⟨n, hn, hheld⟩ := hsub.entry hv hx hd (restarts_of_idle hidle r)
  have htype : e.typeOf? r = x.state.type? := by
    rw [typeOf?_eq_core, hx]
    rfl
  refine ⟨fun hm => ?_, before_of_older hsub.graph fun z hz z' hz' => ?_⟩
  · obtain ⟨z, hz, hlistener, -, haccepts⟩ := Registry.mem_listeners.1 hm
    obtain ⟨y, hy, -, hkey⟩ := hsub.of_held (Registry.mem_held.2 ⟨hz, hlistener⟩)
    have hz' : (⟨n, x.state.type?, .reference r⟩ : Entry (Option Ty) GraphListener) ∈
        e.listeners.held (.reference r) := by simp [hheld]
    refine Registry.mem_listeners.2 ⟨_, (Registry.mem_held.1 hz').1, rfl, rfl, ?_⟩
    have hsame : x.state.type? = z.key := by
      rw [← htype, hagree, typeOf?_eq_core, hy]
      exact hkey
    rw [← hsame] at haccepts
    exact haccepts
  · obtain ⟨y, hy, hn', hkey⟩ := hsub.of_held hz
    rw [hheld, List.mem_singleton] at hz'
    rw [hz']
    rcases h.newer x y n z.id hx hy hn hn' with hlt | ⟨t', -, hdue⟩ | ⟨hnone, hsome⟩
    · exact hlt
    · simp [due_of_idle hidle] at hdue
    · exact absurd (hagree ▸ hnone) hsome

/-- A pass on a removal that is under way after a move was so before, or begins with it. -/
theorem move?_removalPass {t : Ty} {key : String} {queue : List GraphListener} (hm : e.move? m = some e')
    (h : .graphPass (.removedType t key) queue ∈ e'.works) :
    (∃ queue', .graphPass (.removedType t key) queue' ∈ e.works ∧
        (queue' = queue ∨ ∃ l, queue' = l :: queue)) ∨
      m = .work ∧ queue = e.hearers t ∧ ∃ rest, e.stack = .typeRemoval t key [] :: rest := by
  have same : .graphPass (.removedType t key) queue ∈ e.works → ∃ queue',
      .graphPass (.removedType t key) queue' ∈ e.works ∧ (queue' = queue ∨ ∃ l, queue' = l :: queue) :=
    fun h => ⟨queue, h, .inl rfl⟩
  have hstep := move?_graphStep hm
  have hworks : e'.works = e'.graphSide.works := rfl
  rw [hworks] at h
  generalize e'.graphSide = side at hstep h
  cases hstep with
  | relist hr =>
    obtain ⟨listeners, -, rfl⟩ := hr
    exact .inl (same h)
  | forget => exact .inl (same h)
  | done hw => exact .inl (same (hw ▸ List.mem_cons_of_mem _ h))
  | @turn event l queue' rest _ hw =>
    rcases List.mem_cons.1 h with heq | h
    · cases heq
      exact .inl ⟨l :: queue, hw ▸ List.mem_cons_self, .inr ⟨l, rfl⟩⟩
    · exact .inl (same (hw ▸ List.mem_cons_of_mem _ h))
  | addType => exact .inl (same (by simpa [announced] using h))
  | addEdge => exact .inl (same (by simpa [announced] using h))
  | removeEdge => exact .inl (same (by simpa [announced] using h))
  | removeType => exact .inl (same (by simpa using h))
  | dropEdge hw => exact .inl (same (by simpa [announced, hw] using h))
  | missEdge hw => exact .inl (same (by simpa [hw] using h))
  | @dropNode t' key' rest hwork hs =>
    rcases List.mem_cons.1 h with heq | h
    · cases heq
      exact .inr ⟨hwork, rfl, rest, hs⟩
    · exact .inl (same (works_cons hs rfl ▸ List.mem_cons_of_mem _ h))

/-- While the source is to start over, the reference has yet to lose its type. -/
theorem Follows.step_later (h : Follows e r source) (hsec : Secluded e) (hne : source ≠ r)
    (ha : Awaits e r source ∨ Seeking e r) (hre : Retypes e e') (hres : e'.restarts source ≠ 0) :
    e'.typeOf? r ≠ none := by
  cases hre with
  | keeps hc hle =>
    rw [hc]
    exact h.later (Nat.ne_zero_of_lt (Nat.lt_of_lt_of_le (Nat.pos_of_ne_zero hres) (hle source)))
  | @loses i t key queue rest hs hw hc hle =>
    -- below the pass on the removal all is idle: nobody is called to take a type or to start over
    have hidle := hsec.below hs rfl
    have hrestarts : ∀ j, e.restarts j = 0 := fun j => by
      simpa [restarts, hs, Frame.isRestartOf] using fun f hf => Frame.isRestartOf_of_isIdle (hidle f hf) j
    by_cases hi : source = i
    · subst hi
      rw [hc, if_neg (Ne.symm hne)]
      intro hn
      have hcalled : e.called source r = false := by
        simpa [called, hs, Frame.owesCall] using fun f hf => Frame.owesCall_of_isIdle (hidle f hf) source r
      rcases awaits_of_top ha hs (by simp [Frame.purpose?]) hn with hnone | hcall | hrest
      · rw [typeOf?_of_watches hw] at hnone
        cases hnone
      · simp [hcalled] at hcall
      · exact hrest (hrestarts r)
    · have := hle source hi
      rw [hrestarts] at this
      exact absurd (Nat.le_zero.1 this) hres
  | @takes i t f rest _ _ _ _ hc hle =>
    rw [hc]
    split
    · simp
    · exact h.later (Nat.ne_zero_of_lt (Nat.lt_of_lt_of_le (Nat.pos_of_ne_zero hres) (hle source)))

/-- Two references whose subscriptions stay as they are. -/
theorem Newer.kept (h : Newer e r source) (hcr : e'.core? r = e.core? r) (hcs : e'.core? source = e.core? source)
    (hstale : Stale e r → Stale e' r) : Newer e' r source := by
  intro x y n n' hx hy hn hn'
  have htr : e'.typeOf? r = e.typeOf? r := by rw [typeOf?_eq_core, hcr, typeOf?_eq_core]
  have hts : e'.typeOf? source = e.typeOf? source := by rw [typeOf?_eq_core, hcs, typeOf?_eq_core]
  rw [htr, hts]
  exact (h x y n n' (hcr ▸ hx) (hcs ▸ hy) hn hn').imp_right (·.imp_left hstale)

/-- Who subscribes anew does so after its source; a source that subscribes anew leaves a reference behind that
will do so, too. -/
theorem Follows.step_newer (h : Follows e r source) (hv : Lively e) (hsub : Subscribed e) (htied : Tied e)
    (hstep : Step e m e') (hx : e.core? r = some x) (hd : x.deconstructed = false)
    (hsrc : x.selector.source? = some source) : Newer e' r source := by
  have hlt := htied.source_lt hx hsrc
  have stale : ∀ t, e.typeOf? r = some t → e'.core? r = e.core? r → e.due r t → Stale e' r := by
    intro t ht hcr hdue
    have ht' : e'.typeOf? r = some t := by rw [typeOf?_eq_core, hcr, ← typeOf?_eq_core, ht]
    exact ⟨t, ht', step_due hv hstep hx hd ht ht' hdue⟩
  have kept (hcr : e'.core? r = e.core? r) (hcs : e'.core? source = e.core? source) : Newer e' r source := by
    refine h.newer.kept hcr hcs ?_
    rintro ⟨t, ht, hdue⟩
    exact stale t ht hcr hdue
  cases (step_stateStep hv hstep).renumbers with
  | keeps hc => exact kept (hc r) (hc source)
  | @ends i hothers hnone =>
    intro x' y n n' hx' hy hn hn'
    by_cases hr : r = i
    · cases (hnone x' (hr ▸ hx')).symm.trans hn
    by_cases hs : source = i
    · cases (hnone y (hs ▸ hy)).symm.trans hn'
    exact kept (hothers r hr) (hothers source hs) x' y n n' hx' hy hn hn'
  | @renews i hothers hnum huntyped hwhy =>
    intro x' y n n' hx' hy hn hn'
    by_cases hr : r = i
    · subst hr
      cases (hnum x' hx').symm.trans hn
      exact .inl (hsub.number_lt (hothers source (Nat.ne_of_lt hlt) ▸ hy) hn')
    by_cases hs : source = i
    · subst hs
      have hcr := hothers r hr
      cases ht : e.typeOf? r with
      | some t =>
        -- the source had no type, so what the reference has it is to lose
        exact .inr (.inl (stale t ht hcr ((h.fits t ht).resolve_left (by simp [huntyped]))))
      | none =>
        have hnone : e'.typeOf? r = none := by rw [typeOf?_eq_core, hcr, ← typeOf?_eq_core, ht]
        refine .inr (.inr ⟨hnone, ?_⟩)
        rcases hwhy with hmissing | hres | htyped
        · have hlen := Nat.le_trans (core?_eq_none.1 hmissing) (Nat.le_of_lt hlt)
          cases (core?_eq_none.2 hlen).symm.trans hx
        · exact absurd ht (h.later hres)
        · exact htyped
    exact kept (hothers r hr) (hothers source hs) x' y n n' hx' hy hn hn'

/-- A reference that follows its source is in every queue in which that one is. -/
theorem Successive.chained (h : Successive e) (r : ReferenceId) : Chained e r := by
  refine ⟨fun x source hx hd hsrc => (h r source x hx hd hsrc).fits, ?_⟩
  by_contra hexp
  obtain ⟨x, source, t, hx, hd, hsrc, -, -, hdue, hnot⟩ := exposed_iff.1 (by simpa using hexp)
  rw [due_eq_works, List.any_eq_true] at hdue
  obtain ⟨f, hf, howes⟩ := hdue
  unfold Frame.owesLoss at howes
  split at howes
  · rename_i t' key queue
    simp only [Bool.and_eq_true, decide_eq_true_eq, List.contains_iff_mem] at howes
    obtain ⟨rfl, hmem⟩ := howes
    have hr := ((h r source x hx hd hsrc).behind t' key queue hf).called hmem
    have : e.due r t' = true := by
      rw [due_eq_works]
      exact List.any_eq_true.2 ⟨_, hf, by simp [Frame.owesLoss, hr]⟩
    simp [hnot] at this
  · cases howes

/-- What holds at every moment of a run with a discreet host. -/
structure Discretion (e : Engine ν) : Prop where
  lively : Lively e
  known : Known e
  tied : Tied e
  subscribed : Subscribed e
  attends : ∀ r, AttendsSource e r
  secluded : Secluded e
  successive : Successive e

/-- A new reference follows its source: it has no type yet, it subscribed just now, and no removal is being
told. -/
theorem Arises.follows (h : Arises e m e' r x') (hsub : Subscribed e) (hm : e.move? m = some e')
    (hd : e.discreet m) (hx' : e'.core? r = some x') (hsrc : x'.selector.source? = some source)
    (hne : source ≠ r) : Follows e' r source := by
  have htype : e'.typeOf? r = none := by
    rw [typeOf?_eq_core, hx']
    exact h.untyped
  obtain ⟨s, hcall⟩ := h.call
  have hsel : x'.selector = .reference source := by
    cases hs : x'.selector <;> simp_all [Selector.source?]
  have hcalm : ∀ f ∈ e.stack, f.isAftermath = false := by simpa [hcall, hsel, discreet] using hd
  refine ⟨fun t ht => by simp [htype] at ht, fun hres => ?_, fun x₁ y n n' hx₁ hy hn hn' => ?_,
    fun t key queue hq => ?_⟩
  · have h0 : e.restarts source = 0 := by
      refine List.countP_eq_zero.2 fun f hf hrestart => ?_
      have := hcalm f hf
      cases f <;> simp_all [Frame.isRestartOf, Frame.isAftermath]
    exact absurd (Nat.le_zero.1 (h0 ▸ h.restarts source)) hres
  · cases hx'.symm.trans hx₁
    cases h.number.symm.trans hn
    exact .inl (hsub.number_lt (h.others source hne ▸ hy) hn')
  · rcases move?_removalPass hm hq with ⟨queue', hq', -⟩ | ⟨hwork, -⟩
    · cases hcalm _ (List.mem_filter.1 hq').1
    · cases hcall.symm.trans hwork

/-- A move of a discreet host keeps it. -/
theorem Discretion.move (h : Discretion e) (hspares : SparesReferences e m) (hd : e.discreet m)
    (hm : e.move? m = some e') : Discretion e' := by
  have hstep := move?_step hm
  have hstates := step_stateStep h.lively hstep
  have htied' := step_tied h.tied hstep
  refine ⟨step_lively h.lively hstep, step_known h.known hstep, htied',
    step_subscribed h.lively h.subscribed hspares hstep,
    fun r => step_attendsSource h.lively h.known h.tied (h.attends r) hstep,
    move?_secluded hm hd h.secluded, fun r source x' hx' hd' hsrc' => ?_⟩
  have hne := Nat.ne_of_lt (htied'.source_lt hx' hsrc')
  rcases hstates.reader hx' hd' with hnew | ⟨x, hx, hdx, hsel⟩
  · exact hnew.follows h.subscribed hm hd hx' hsrc' hne
  have hsrc : x.selector.source? = some source := hsel ▸ hsrc'
  have hf := h.successive r source x hx hdx hsrc
  refine ⟨(h.successive.chained r).step_fits h.lively h.tied (h.attends r) hstep hx' hd' hsrc',
    hf.step_later h.secluded hne (h.attends r x source hx hdx hsrc).2 hstates.retypes,
    hf.step_newer h.lively h.subscribed h.tied hstep hx hdx hsrc, fun t key queue hq => ?_⟩
  rcases move?_removalPass hm hq with ⟨queue', hq', rfl | ⟨l, rfl⟩⟩ | ⟨-, rfl, rest, hs⟩
  · exact hf.behind t key queue' hq'
  · exact (hf.behind t key _ hq').tail
  · exact hf.behind_hearers h.lively h.subscribed h.secluded (h.attends r) hs hx hdx hsrc

end Steps

/-! ## Runs -/

section Runs

variable {e : Engine ν}

theorem discretion_new : Discretion ({} : Engine ν) where
  lively := lively_new
  known := known_new
  tied := tied_new
  subscribed := subscribed_new
  attends _ := attendsSource_new
  secluded := .nil
  successive := fun _ _ _ hx => by simp [core?] at hx

theorem ReachableBy.discretion (h : ReachableBy (fun e m => SparesReferences e m ∧ e.discreet m) e) :
    Discretion e :=
  ReachableBy.keeps discretion_new (fun h ha hm => h.move ha.1 ha.2 hm) h

/-- A discreet host lets every reference take its types in time. -/
theorem ReachableBy.inTime (h : ReachableBy (fun e m => SparesReferences e m ∧ e.discreet m) e) :
    ReachableBy (fun e m => SparesReferences e m ∧ ∀ i, TakesInTime i e m) e := by
  induction h with
  | new => exact .new
  | move hreach ha hm ih =>
    refine .move ih ⟨ha.1, fun i e'' hm' _ => ?_⟩ hm
    cases hm.symm.trans hm'
    exact ((hreach.move ha hm).discretion.successive.chained i).sheltered

end Runs

/-- A reference reads another, directly or through more of them; those that read are in `P` and not
deconstructed. -/
inductive ReadsThrough (e : Engine ν) (P : ReferenceId → Prop) : ReferenceId → ReferenceId → Prop
  | direct {r source : ReferenceId} {x : Reference ν} :
    P r → e.references[r]? = some x → x.deconstructed = false → x.selector = .reference source →
    ReadsThrough e P r source
  | through {r middle source : ReferenceId} :
    ReadsThrough e P r middle → ReadsThrough e P middle source → ReadsThrough e P r source

/-- When the engine rests, all references of a chain have the type of the one they lead to. This holds if the
host is discreet; and for any other host that ends no subscription of a reference, if no reference that reads
takes a type while the pass on its removal has yet to call the source but not it. -/
theorem chained_references_agree {e : Engine ν} {P : ReferenceId → Prop} {r source : ReferenceId}
    (h : ReachableBy (fun e m => SparesReferences e m ∧ e.discreet m) e ∨
      ReachableBy (fun e m => SparesReferences e m ∧ ∀ i, P i → TakesInTime i e m) e)
    (hrest : e.atRest) (hc : ReadsThrough e P r source) : e.typeOf? r = e.typeOf? source := by
  have inTime : ReachableBy (fun e m => SparesReferences e m ∧ ∀ i, P i → TakesInTime i e m) e :=
    h.elim (fun h => h.inTime.mono fun _ _ ha => ⟨ha.1, fun i _ => ha.2 i⟩) id
  induction hc with
  | direct hP hx hd hsel =>
    have hchained := (inTime.mono fun _ _ ha => ⟨ha.1, ha.2 _ hP⟩).chained
    exact hchained.agrees inTime.reachable hrest hx hd hsel
  | through _ _ ih ih' => exact ih.trans ih'

/-- Whether a move ends no subscription at all. -/
def keepsSubscriptions : Move ν → Bool
  | .call (.leaveGraph _) => false
  | .call (.leaveRules _ _) => false
  | _ => true

theorem sparesReferences_of_keeps {e : Engine ν} {m : Move ν} (h : keepsSubscriptions m) :
    SparesReferences e m := by
  constructor
  · rintro id rfl
    cases h
  · rintro s id y rfl
    cases h

/-- The theorem at a chain of three whose type was removed by a discreet host, and at a chain of two whose
type was removed as soon as the second had it, in the middle of the passes that tell of it. -/
theorem chains_agree_after_removal :
    (∃ e : Engine Node, e.atRest ∧ ReadsThrough e (fun i => i = 1 ∨ i = 2) 2 0 ∧ e.typeOf? 0 = none ∧
      e.typeOf? 2 = e.typeOf? 0) ∧
    ∃ e : Engine Node, e.atRest ∧ ReadsThrough e (· = 1) 1 0 ∧ e.typeOf? 0 = none ∧
      e.typeOf? 1 = e.typeOf? 0 := by
  constructor
  · obtain ⟨e, x, y, hrun, hrest, hx, hdx, hsx, hy, hdy, hsy, hnone⟩ :
        ∃ (e : Engine Node) (x y : Reference Node),
          runChecked? (fun e m _ => keepsSubscriptions m && e.discreet m) {}
            [.call (.addSystem {} .plain .graph), .call (.addType ⟨1, "a", "a"⟩ "a"), .work, .work, .work,
              .call (.addReference 0 (.identifier "a")), .work, .work, .work,
              .call (.addReference 0 (.reference 0)), .work, .work, .work,
              .call (.addReference 0 (.reference 1)), .work, .work, .work,
              .call (.removeType ⟨1, "a", "a"⟩), .work, .work, .work, .work, .work, .work, .work, .work,
              .work, .work, .work, .work, .work, .work, .work, .work, .work] = some e ∧ e.atRest ∧
          e.references[2]? = some x ∧ x.deconstructed = false ∧ x.selector = .reference 1 ∧
          e.references[1]? = some y ∧ y.deconstructed = false ∧ y.selector = .reference 0 ∧
          e.typeOf? 0 = none := ⟨_, _, _, rfl, rfl, rfl, rfl, rfl, rfl, rfl, rfl, rfl⟩
    have reached := (ReachableBy.of_check hrun).mono fun e m h => by
      obtain ⟨hk, hd⟩ := Bool.and_eq_true_iff.1 h
      exact (⟨sparesReferences_of_keeps hk, hd⟩ : SparesReferences e m ∧ e.discreet m)
    have chain : ReadsThrough e (fun i => i = 1 ∨ i = 2) 2 0 :=
      .through (.direct (.inr rfl) hx hdx hsx) (.direct (.inl rfl) hy hdy hsy)
    exact ⟨e, hrest, chain, hnone, chained_references_agree (.inl reached) hrest chain⟩
  · obtain ⟨e, x, hrun, hrest, hx, hdx, hsx, hnone⟩ : ∃ (e : Engine Node) (x : Reference Node),
        runChecked? (fun _ m e => keepsSubscriptions m && !e.exposed 1) {}
          [.call (.addSystem {} .plain .graph), .call (.addReference 0 (.identifier "a")), .work, .work,
            .call (.addReference 0 (.reference 0)), .work, .work,
            .call (.listenToReference 1 ⟨0⟩ false), .work,
            .call (.addType ⟨1, "a", "a"⟩ "a"), .work, .work, .work, .work, .work, .work,
            -- the observer is told that the second has the type
            .call (.removeType ⟨1, "a", "a"⟩), .work, .work, .work, .work, .work, .work, .work, .work, .work,
            .answer .done, .work, .work, .work, .work, .work, .answer .done,
            .work, .work, .work, .work, .work, .work] = some e ∧ e.atRest ∧
        e.references[1]? = some x ∧ x.deconstructed = false ∧ x.selector = .reference 0 ∧
        e.typeOf? 0 = none := ⟨_, _, rfl, rfl, rfl, rfl, rfl, rfl⟩
    have inTime : ∀ (e e' : Engine Node) (m : Move Node), e.move? m = some e' →
        (keepsSubscriptions m && !e'.exposed 1) →
        SparesReferences e m ∧ ∀ i, i = 1 → TakesInTime i e m := by
      rintro e e' m hm hok
      obtain ⟨hk, hexp⟩ := Bool.and_eq_true_iff.1 hok
      refine ⟨sparesReferences_of_keeps hk, ?_⟩
      rintro i rfl e'' hm' -
      cases hm.symm.trans hm'
      simpa using hexp
    have chain : ReadsThrough e (· = 1) 1 0 := .direct rfl hx hdx hsx
    have reached := ReachableBy.of_runChecked inTime .new hrun
    exact ⟨e, hrest, chain, hnone, chained_references_agree (.inr reached) hrest chain⟩

/-- Whether a run ends with a reference on a type that its source has lost. -/
def LeavesReaderBehind (moves : List (Move Node)) : Prop :=
  ∃ e : Engine Node, run? {} moves = some e ∧ e.atRest ∧ ReadsThrough e (fun _ => True) 1 0 ∧
    e.typeOf? 0 = none ∧ e.typeOf? 1 = some ⟨1, "a", "a"⟩

/-- A reference is left behind if it is created while the removal of the type is being told; or if it had no
turn yet to take the type of its source when the removal began, and takes it while that is being told. In the
last run the host ends the reference's watch. -/
theorem late_readers_disagree :
    LeavesReaderBehind
      [.call (.addSystem {} .plain .graph), .call (.listenToGraph ⟨0⟩),
        .call (.addType ⟨1, "a", "a"⟩ "a"), .work, .work, .answer .done, .work, .work,
        .call (.addReference 0 (.identifier "a")), .work, .work, .work,
        .call (.removeType ⟨1, "a", "a"⟩), .work, .work, .work, .work,
        .call (.addReference 0 (.reference 0)), .work, .work, .work, .answer .done,
        .work, .work, .work, .work, .work, .work] ∧
    LeavesReaderBehind
      [.call (.addSystem {} .plain .graph), .call (.listenToGraph ⟨0⟩),
        .call (.addReference 0 (.identifier "a")), .work, .work,
        .call (.addReference 0 (.reference 0)), .work, .work,
        .call (.listenToReference 0 ⟨1⟩ false), .work,
        .call (.addType ⟨1, "a", "a"⟩ "a"), .work, .work, .answer .done, .work, .work, .work,
        .call (.removeType ⟨1, "a", "a"⟩), .work, .work, .work, .work,
        -- a new type makes the second reference try
        .call (.addType ⟨2, "b", "b"⟩ "b"), .work, .work, .answer .done, .work, .work, .work, .work, .work,
        .answer .done, .work, .work, .work, .work, .work, .work, .work, .answer .done,
        .work, .work, .work, .work, .work, .answer .done, .work, .work, .work, .work, .work] ∧
    LeavesReaderBehind
      [.call (.addSystem {} .plain .graph), .call (.addReference 0 (.identifier "a")), .work, .work,
        .call (.addReference 0 (.reference 0)), .work, .work,
        .call (.addType ⟨1, "a", "a"⟩ "a"), .work, .work, .work, .work, .work, .work, .work, .work, .work,
        .work, .call (.leaveGraph 4),
        .call (.removeType ⟨1, "a", "a"⟩), .work, .work, .work, .work, .work, .work, .work, .work, .work] := by
  refine ⟨?_, ?_, ?_⟩ <;> exact ⟨_, rfl, rfl, .direct trivial rfl rfl rfl, rfl, rfl⟩

end Engine
end LiveTypes
