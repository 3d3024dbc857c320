import LiveTypes.Proofs.Ground
import LiveTypes.Proofs.Numbering
import LiveTypes.Proofs.Selections

/-!
# Which rules there are

What the host does in a run decides which rules a type system has: `survivors` are the rules that were added
and that nothing done later took away. While work is under way the system may still have rules that are
about to go; each of them is doomed by a piece of that work, and the others are the survivors. This needs
two things of the host: it leaves the system its subscription to the graph, and it adds no rule that is
bound to a type while the system has yet to drop the rules bound to that type. A host that does not call
back does the second by itself.

An observer that listens to the rules is told of each one that goes. Together, the rules that are there
and those that the observer has been told or will be told to have gone are always the rules that were there
when it began, and those added since.
-/
namespace LiveTypes

variable {ν : Type}

/-! ## Survivors -/

/-- Whether a rule that is there stays. -/
def RuleAct.spares (rule : Rule) : RuleAct → Bool
  | .added _ => true
  | .removed id => rule.id ≠ id
  | .left t => rule.boundTo ≠ some t

/-- The rules that were added and that all later acts spare, in the order of registration. -/
def survivors : List RuleAct → List Rule
  | [] => []
  | .added rule :: later =>
    if later.all (·.spares rule) then rule :: survivors later else survivors later
  | _ :: later => survivors later

theorem survivors_concat (acts : List RuleAct) (act : RuleAct) :
    survivors (acts ++ [act]) = (survivors acts).filter (act.spares ·) ++ act.rule?.toList := by
  induction acts with
  | nil => cases act <;> rfl
  | cons first acts ih =>
    cases first with
    | added rule =>
      simp only [List.cons_append, survivors, ih, List.all_append, List.all_cons, List.all_nil]
      by_cases hlater : acts.all (·.spares rule) <;> by_cases hact : act.spares rule <;>
        simp [hlater, hact]
    | removed id => exact ih
    | left t => exact ih

/-! ## Doomed rules -/

namespace RuleWork

/-- Whether the system `s` is yet to drop the rules that are bound like this. -/
def drops (s : SystemId) (boundTo : Option Ty) : RuleWork → Bool
  | .leaving t => boundTo = some t
  | .left t queue => boundTo = some t && queue.contains (.system s)
  | _ => false

/-- Whether the rule of this number is yet to be removed. -/
def lists (id : RuleId) : RuleWork → Bool
  | .removal ids => ids.contains id
  | _ => false

/-- Whether this piece of work will take the rule away. -/
def dooms (s : SystemId) (rule : Rule) (work : RuleWork) : Bool :=
  work.drops s rule.boundTo || work.lists rule.id

variable {s : SystemId} {rule : Rule}

@[simp] theorem dooms_leaving (t : Ty) : (leaving t).dooms s rule = decide (rule.boundTo = some t) := by
  simp [dooms, drops, lists]

@[simp] theorem dooms_left (t : Ty) (queue : List GraphListener) :
    (left t queue).dooms s rule = (decide (rule.boundTo = some t) && queue.contains (.system s)) := by
  simp [dooms, drops, lists]

@[simp] theorem dooms_removal (ids : List RuleId) : (removal ids).dooms s rule = ids.contains rule.id := by
  simp [dooms, drops, lists]

@[simp] theorem dooms_pass (event : RuleEvent) (queue : List RuleListener) :
    (pass event queue).dooms s rule = false := rfl

/-- Work that is over takes nothing away. -/
theorem dooms_of_isOver {work : RuleWork} (h : work.isOver) : work.dooms s rule = false := by
  cases work with
  | leaving t => cases h
  | left t queue => simp_all [isOver]
  | removal ids => simp_all [isOver]
  | pass event queue => rfl

end RuleWork

/-- The rules that no work under way is about to take away. -/
def RuleSide.spared (s : SystemId) (side : RuleSide) : List Rule :=
  side.set.rules.filter fun rule => side.works.all fun work => !work.dooms s rule

namespace Engine

/-! ## The host keeps order -/

/-- Whether a move leaves a system its subscription to the graph, and adds no rule that is bound to a type
while the system has yet to drop the rules bound to that type. -/
def orderly (s : SystemId) (e : Engine ν) : Move ν → Bool
  | .call (.leaveGraph id) => e.subscription? s ≠ some id
  | .call (.addRule s' _ _ boundTo) => s' ≠ s || (e.ruleWorks s).all fun work => !work.drops s boundTo
  | .retire s' => s' ≠ s
  | _ => true

/-- The system listens to the graph, if it exists. -/
def Attends (s : SystemId) (e : Engine ν) : Prop :=
  e.listeners.held (.system s) = ((e.subscription? s).map fun id => ⟨id, none, .system s⟩).toList

section Attends

variable {s : SystemId} {e e' : Engine ν} {m : Move ν}

theorem enrols_attends (ho : Owned False e) (h : Attends s e) (hm : e.orderly s m) (he : Enrols e m e') :
    Attends s e' := by
  cases he with
  | forget hl hs => rwa [Attends, hl, subscription?, hs]
  | addSystem _ hn hs hl => exact held_addSystem h hn hs hl
  | @leaveGraph id heq hl hs =>
    subst heq
    rw [Attends, hl, subscription?, hs, ho.graph.held_remove_of_ne]
    · exact h
    · intro x hx
      rw [h] at hx
      obtain ⟨own, hown, rfl⟩ := Option.map_eq_some_iff.1 (Option.mem_toList.1 hx)
      rintro rfl
      simp [orderly, hown] at hm
  | leaveRules heq hl hs =>
    rw [Attends, hl, subscription?, hs]
    refine h.trans ?_
    simp only [subscription?, List.getElem?_modify]
    cases e.systems[s]? with
    | none => rfl
    | some y => split <;> rfl
  | @retire i y heq hy hl hs =>
    subst heq
    rw [Attends, hl, subscription?, hs, ho.graph.held_remove_of_ne]
    · exact h
    · intro x hx hid
      obtain ⟨hx, hlistener⟩ := Registry.mem_held.1 hx
      rw [(ho.own i y hy).2 x hx hid] at hlistener
      cases hlistener
      simp [orderly] at hm

/-- Only the host could end the subscription of a system to the graph. -/
theorem step_attends (ho : Owned False e) (h : Attends s e) (hm : e.orderly s m) (hstep : Step e m e') :
    Attends s e' := by
  have owned : ∀ frames, Owned False (e.withStack frames) := fun frames =>
    ho.keeping (g := fun _ => true) (k := fun _ => true) (.of_eq rfl rfl) (fun _ => rfl) (fun _ => rfl)
      fun _ => rfl
  have kept : ∀ {e₀ e₁ : Engine ν} {g : GraphListener → Bool} {k : RuleListener → Bool},
      Attends s e₀ → Keeping g k e₀ e₁ → g (.system s) = true → Attends s e₁ := fun h hk hg => by
    rw [Attends, hk.graph.held _ hg, hk.subscription?]
    exact h
  have calm : ∀ {e₀ e₁ : Engine ν} {p : Option Purpose}, Attends s e₀ → Calm p e₀ e₁ → Attends s e₁ :=
    fun h hc => kept h hc.toKeeping rfl
  have stack : ∀ frames, Attends s (e.withStack frames) := fun _ => h
  have other : ∀ r, otherGraph r (.system s) = true := fun _ => by simp [otherGraph]
  cases hstep with
  | calm hu hc =>
    cases hu with
    | call => exact calm h hc
    | done => exact calm (stack _) hc
    | read => exact calm (stack _) hc
  | enrol _ he => exact enrols_attends ho h hm he
  | skip _ _ hc => exact calm (stack _) hc
  | attempt => exact calm (stack _) (plain_attempt _ _).calm
  | @lose t key queue rest r hs =>
    rcases invalidate_cases (e.withStack (.graphPass (.removedType t key) queue :: rest)) r t
      with ⟨heq, -⟩ | ⟨x, watch, hlost⟩
    · rwa [heq]
    · exact kept (stack _) ((owned _).keeping_invalidate hlost).1 (other r)
  | @restart rest r hs =>
    rcases startResolving_cases (e.withStack rest) r with ⟨heq, -⟩ | ⟨x, hx, hd, heq⟩
    · rwa [heq]
    · rw [heq]
      exact calm (kept (stack rest) (keeping_subscribe _ r x.system) (other r)) (plain_attempt _ _).calm
  | @resolve f rest r t hs hp _ =>
    rcases resolve_cases (e.withStack rest) r t with ⟨heq, -⟩ | ⟨x, subs, ht⟩
    · rwa [heq]
    · exact kept (stack _) ((owned _).keeping_resolve ht).1 (other r)
  | @addReference i selector _ _ hk =>
    rw [addReference_eq hk]
    refine calm (kept ?_ (keeping_subscribe _ _ i) (other e.references.length)) (plain_attempt _ _).calm
    exact h
  | @deconstruct r _ =>
    refine calm ?_ (.finish (p := none) _)
    rcases deconstruct_cases e r with heq | ⟨x, hst⟩
    · rwa [heq]
    · exact kept h (ho.keeping_deconstruct hst).1 (other r)

end Attends

/-! ## The survivors are the rules that are not doomed -/

/-- What is known of the rules of a system after the host's acts. -/
structure WellKept (s : SystemId) (acts : List RuleAct) (side : RuleSide) : Prop where
  ordered : side.set.Ordered (additions acts).length
  issued : ∀ work ∈ side.works, ∀ id, work.lists id → id.toNat < (additions acts).length
  kept : survivors acts = side.spared s

section WellKept

variable {s : SystemId} {e : Engine ν} {m : Move ν} {act : Option RuleAct} {acts : List RuleAct}
  {side side' : RuleSide}

theorem RuleStep.issued {added : Nat} (h : RuleStep s e m act side) (ho : (e.ruleSetOf s).Ordered added)
    (hi : ∀ work ∈ e.ruleWorks s, ∀ id, work.lists id → id.toNat < added) :
    ∀ work ∈ side.works, ∀ id, work.lists id → id.toNat < added + (additions act.toList).length := by
  cases h with
  | relist hr =>
    obtain ⟨listeners, -, rfl⟩ := hr
    exact hi
  | forget => exact hi
  | leave => exact List.forall_mem_cons.2 ⟨nofun, hi⟩
  | gone hw =>
    rw [hw, List.forall_mem_cons] at hi
    exact List.forall_mem_cons.2 ⟨nofun, hi.2⟩
  | skip hw =>
    rw [hw, List.forall_mem_cons] at hi
    exact List.forall_mem_cons.2 ⟨nofun, hi.2⟩
  | @drop t queue rest hw =>
    rw [hw, List.forall_mem_cons] at hi
    refine List.forall_mem_cons.2 ⟨fun id hid => ?_, List.forall_mem_cons.2 ⟨nofun, hi.2⟩⟩
    have hid : id ∈ (e.ruleSetOf s).boundTo t := by simpa [RuleWork.lists] using hid
    obtain ⟨rule, hr, rfl⟩ := List.mem_map.1 hid
    exact ho.issued rule (List.mem_filter.1 hr).1
  | ended hw =>
    rw [hw, List.forall_mem_cons] at hi
    exact hi.2
  | remove hw =>
    rw [hw, List.forall_mem_cons] at hi
    refine List.forall_mem_cons.2 ⟨nofun, List.forall_mem_cons.2 ⟨fun id hid => hi.1 id ?_, hi.2⟩⟩
    simp_all [RuleWork.lists]
  | miss hw =>
    rw [hw, List.forall_mem_cons] at hi
    refine List.forall_mem_cons.2 ⟨fun id hid => hi.1 id ?_, hi.2⟩
    simp_all [RuleWork.lists]
  | turn hw =>
    rw [hw, List.forall_mem_cons] at hi
    exact List.forall_mem_cons.2 ⟨nofun, hi.2⟩
  | addRule =>
    refine List.forall_mem_cons.2 ⟨nofun, fun work hm id hid => ?_⟩
    exact Nat.lt_succ_of_lt (hi work hm id hid)
  | removeRule => exact List.forall_mem_cons.2 ⟨nofun, hi⟩
  | removeNone => exact hi

/-- The same rules are doomed by other work. -/
theorem spared_congr (hset : side'.set = side.set)
    (h : ∀ rule ∈ side.set.rules, side'.works.all (fun work => !work.dooms s rule) =
      side.works.all (fun work => !work.dooms s rule)) : side'.spared s = side.spared s := by
  rw [RuleSide.spared, hset]
  exact List.filter_congr h

/-- Where there are rules there is a system, and it will hear of a type that leaves. -/
theorem Attends.system_mem {rule : Rule} (h : Attends s e) (hr : rule ∈ (e.ruleSetOf s).rules) (t : Ty)
    (key : String) :
    .system s ∈ e.listeners.listeners e.hearsGraph (GraphEvent.removedType t key).concerns := by
  obtain ⟨y, hy⟩ : ∃ y, e.systems[s]? = some y := by
    cases hy : e.systems[s]? with
    | some y => exact ⟨y, rfl⟩
    | none => simp [ruleSetOf, ruleSet?, hy] at hr
  have hheld : e.listeners.held (.system s) = [⟨y.subscription, none, .system s⟩] := by
    simpa [Attends, subscription?, hy] using h
  have hmem : ⟨y.subscription, none, .system s⟩ ∈ e.listeners.held (.system s) := by simp [hheld]
  exact Registry.mem_listeners.2 ⟨_, (Registry.mem_held.1 hmem).1, rfl, rfl, rfl⟩

theorem RuleStep.kept (h : RuleStep s e m act side) (ha : Attends s e) (hm : e.orderly s m)
    (ht : WellKept s acts (e.ruleSide s))
    (hleft : (additions (acts ++ act.toList)).length ≤ UInt32.size) : survivors (acts ++ act.toList) = side.spared s := by
  have ho : (e.ruleSetOf s).Ordered (additions acts).length := ht.ordered
  have hkept : survivors acts = (e.ruleSide s).spared s := ht.kept
  have same : ∀ {side' : RuleSide}, side'.spared s = (e.ruleSide s).spared s →
      survivors (acts ++ (none : Option RuleAct).toList) = side'.spared s := by
    intro side' hs
    rw [hs, ← hkept, Option.toList_none, List.append_nil]
  cases h with
  | relist hr =>
    obtain ⟨listeners, -, rfl⟩ := hr
    exact same rfl
  | forget => exact same rfl
  | @leave t =>
    rw [Option.toList_some, survivors_concat, hkept]
    simp [RuleSide.spared, RuleAct.rule?, RuleAct.spares, ruleSide]
  | @gone t key rest hw =>
    refine same (spared_congr rfl fun rule hr => ?_)
    simp [hw, ha.system_mem hr t key]
  | @skip t l queue rest hw hl =>
    refine same (spared_congr rfl fun rule hr => ?_)
    have hne : l ≠ .system s := by
      intro heq
      have hr : rule ∈ (e.ruleSetOf s).rules := hr
      simp [ruleSetOf, ruleSet?, hl heq] at hr
    simp [hw, hne.symm]
  | @drop t queue rest hw =>
    refine same (spared_congr rfl fun rule hr => ?_)
    have hbound : rule.id ∈ (e.ruleSetOf s).boundTo t ↔ rule.boundTo = some t := by
      refine ⟨fun hid => ho.distinct.of_boundTo hid hr rfl, fun hb => ?_⟩
      exact List.mem_map.2 ⟨rule, List.mem_filter.2 ⟨hr, by simpa using hb⟩, rfl⟩
    by_cases hb : rule.boundTo = some t <;> simp [hw, hbound, hb]
  | ended hw hover =>
    refine same (spared_congr rfl fun rule hr => ?_)
    simp [hw, RuleWork.dooms_of_isOver hover]
  | @remove id ids rule rest hw hf =>
    refine same ?_
    simp only [RuleSide.spared, rulesAnnounced, ho.rules_remove, List.filter_filter]
    refine List.filter_congr fun rule hr => ?_
    by_cases hid : rule.id = id <;> simp [hw, hid]
  | @miss id ids rest hw hf =>
    refine same (spared_congr rfl fun rule hr => ?_)
    simp [hw, RuleSet.find?_eq_none hf rule hr]
  | turn hw =>
    refine same (spared_congr rfl fun rule hr => ?_)
    simp [hw]
  | @addRule tag name boundTo heq =>
    subst heq
    -- Its number is new, and the host adds no rule that the system is about to drop.
    have hspared : (e.ruleWorks s).all
        (fun work => !work.dooms s ((e.ruleSetOf s).next tag name boundTo)) := by
      have hdrops : ∀ work ∈ e.ruleWorks s, work.drops s boundTo = false := by simpa [orderly] using hm
      refine List.all_eq_true.2 fun work hmem => ?_
      have hlists : work.lists (e.ruleSetOf s).nextId = false := by
        rw [← Bool.not_eq_true]
        intro hid
        have hlt := ht.issued work hmem _ hid
        rw [additions_append, List.length_append] at hleft
        rw [ho.toNat_nextId (Nat.lt_of_succ_le hleft)] at hlt
        exact Nat.lt_irrefl _ hlt
      simp [RuleWork.dooms, RuleSet.next, hdrops work hmem, hlists]
    rw [Option.toList_some, survivors_concat, hkept]
    simp [RuleSide.spared, rulesAnnounced, RuleSet.add, RuleAct.rule?, RuleAct.spares, hspared, ruleSide]
  | @removeRule id rule heq hf =>
    rw [Option.toList_some, survivors_concat, hkept]
    simp only [RuleSide.spared, rulesAnnounced, ho.rules_remove, List.filter_filter]
    simp [RuleAct.rule?, RuleAct.spares, Bool.and_comm, ruleSide]
  | @removeNone id heq hf =>
    rw [Option.toList_some, survivors_concat, hkept]
    refine (List.append_nil _).trans (List.filter_eq_self.2 fun rule hr => ?_)
    simpa [RuleAct.spares] using RuleSet.find?_eq_none hf rule (List.mem_filter.1 hr).1

theorem RuleStep.wellKept (h : RuleStep s e m act side) (ha : Attends s e) (hm : e.orderly s m)
    (ht : WellKept s acts (e.ruleSide s)) (hleft : (additions (acts ++ act.toList)).length ≤ UInt32.size) :
    WellKept s (acts ++ act.toList) side := by
  refine ⟨?_, ?_, h.kept ha hm ht hleft⟩
  · rw [additions_append, List.length_append] at hleft ⊢
    exact h.ordered ht.ordered hleft
  · rw [additions_append, List.length_append]
    exact h.issued ht.ordered ht.issued

end WellKept

/-- Orderly moves keep what is known of the rules. -/
theorem runChecked?_wellKept {s : SystemId} {moves : List (Move ν)} {e e' : Engine ν} {acts : List RuleAct}
    (hv : Lively e) (ho : Owned False e) (ha : Attends s e) (ht : WellKept s acts (e.ruleSide s))
    (hr : e.runChecked? (fun e m _ => e.orderly s m) moves = some e')
    (hleft : (additions (acts ++ e.ruleActs s moves)).length ≤ UInt32.size) :
    WellKept s (acts ++ e.ruleActs s moves) (e'.ruleSide s) := by
  induction moves generalizing e acts with
  | nil =>
    cases hr
    simpa [ruleActs] using ht
  | cons m moves ih =>
    obtain ⟨next, hm, hr⟩ := Option.bind_eq_some_iff.1 hr
    split at hr
    · rename_i horderly
      have hstep := move?_step hm
      have hacts : acts ++ e.ruleActs s (m :: moves) =
          acts ++ (e.ruleAct? s m).toList ++ next.ruleActs s moves := by
        simp [ruleActs, hm]
      rw [hacts] at hleft ⊢
      have hfirst : (additions (acts ++ (e.ruleAct? s m).toList)).length ≤ UInt32.size := by
        rw [additions_append, List.length_append] at hleft
        exact Nat.le_trans (Nat.le_add_right _ _) hleft
      exact ih (step_lively hv hstep) (step_owned hv ho False.elim hstep) (step_attends ho ha horderly hstep)
        ((move?_ruleStep hm s).wellKept ha horderly ht hfirst) hr hleft
    · cases hr

end Engine

/-! ## What an observer is told -/

/-- What is told of a rule that has gone. -/
def Rule.card (rule : Rule) : RuleId × Option Ty := (rule.id, rule.boundTo)

/-- The rule that has gone, if one has. -/
def RuleEvent.removal? : RuleEvent → Option (RuleId × Option Ty)
  | .removed id boundTo => some (id, boundTo)
  | .added _ _ => none

/-- The rules that an observer has been told to have gone. -/
def removalsTold (o : Observer) (hearings : List (Observer × RuleEvent)) : List (RuleId × Option Ty) :=
  hearings.filterMap fun heard => if heard.1 = o then heard.2.removal? else none

/-- The rules that a pass is yet to tell an observer to have gone. -/
def RuleWork.owed (o : Observer) : RuleWork → List (RuleId × Option Ty)
  | .pass event queue => queue.filterMap fun l => if l = .observer o then event.removal? else none
  | _ => []

section Told

variable {o : Observer} {event : RuleEvent} {l : RuleListener} {queue : List RuleListener}

@[simp] theorem removalsTold_append (hearings more : List (Observer × RuleEvent)) :
    removalsTold o (hearings ++ more) = removalsTold o hearings ++ removalsTold o more :=
  List.filterMap_append

/-- A turn of a pass tells the observer what it owes, if it is the observer's turn. -/
theorem RuleWork.owed_cons :
    (RuleWork.pass event (l :: queue)).owed o =
      removalsTold o (l.hearing event) ++ (RuleWork.pass event queue).owed o := by
  cases l with
  | observer o' => cases event <;> by_cases ho : o' = o <;>
      simp [RuleWork.owed, removalsTold, RuleListener.hearing, RuleEvent.removal?, ho]
  | reference r => simp [RuleWork.owed, removalsTold, RuleListener.hearing]

theorem RuleWork.owed_of_isOver {work : RuleWork} (h : work.isOver) : work.owed o = [] := by
  cases work with
  | pass event queue => simp_all [RuleWork.isOver, RuleWork.owed]
  | _ => rfl

/-- A pass that begins owes it once to whoever listens once. -/
theorem RuleWork.owed_once (h : queue.count (.observer o) = 1) :
    (RuleWork.pass event queue).owed o = event.removal?.toList := by
  induction queue with
  | nil => simp at h
  | cons l queue ih =>
    by_cases hl : l = .observer o
    · subst hl
      have hrest : .observer o ∉ queue := by simpa [List.count_eq_zero] using h
      have hnone : queue.filterMap (fun l => if l = .observer o then event.removal? else none) = [] := by
        refine List.filterMap_eq_nil_iff.2 fun l hm => if_neg ?_
        rintro rfl
        exact hrest hm
      cases hevent : event.removal? <;> simp_all [RuleWork.owed]
    · have hcount : queue.count (.observer o) = 1 := by simpa [hl] using h
      rw [← ih hcount]
      simp [RuleWork.owed, hl]

end Told

namespace Engine

/-- Whether a move leaves an observer as it is the one subscription that it has to the rules of a system. -/
def heeds (o : Observer) (s : SystemId) (e : Engine ν) : Move ν → Bool
  | .forget o' => o' ≠ o
  | .call (.listenToRules s' o') => s' ≠ s || o' ≠ o
  | .call (.leaveRules s' id) => s' ≠ s || ((e.ruleListeners s).held (.observer o)).all (·.id ≠ id)
  | _ => true

/-- The observer exists and listens to the rules, once. -/
structure HearsRules (o : Observer) (side : RuleSide) : Prop where
  present : side.gone.contains o = false
  subscribed : ∃ id, side.listeners.held (.observer o) = [⟨id, (), .observer o⟩]

section Hears

variable {o : Observer} {s : SystemId} {e : Engine ν} {m : Move ν} {act : Option RuleAct} {side : RuleSide}

theorem Owned.ruleListeners {full : Prop} (ho : Owned full e) (s : SystemId) :
    (e.ruleListeners s).Ordered := by
  unfold Engine.ruleListeners
  cases hy : e.systems[s]? with
  | none => exact Registry.ordered_new
  | some y => exact ho.rules s y hy

/-- Nobody but the observer ends its subscription. -/
theorem RuleRelists.held {listeners : Registry Unit RuleListener} (ho : Owned False e) (hm : e.heeds o s m)
    (h : RuleRelists s e m listeners) :
    listeners.held (.observer o) = (e.ruleListeners s).held (.observer o) := by
  cases h with
  | same => rfl
  | enter => exact Registry.held_add_of_ne _ _ (by simp)
  | @listen o' heq =>
    subst heq
    have hne : o' ≠ o := by simpa [heeds] using hm
    exact Registry.held_add_of_ne _ _ (by simpa using hne)
  | @leave id heq =>
    subst heq
    refine (ho.ruleListeners s).held_remove_of_ne fun x hx => ?_
    have hall : ∀ x ∈ (e.ruleListeners s).held (.observer o), x.id ≠ id := by simpa [heeds] using hm
    exact hall x hx
  | @release r x subs hx hs hw =>
    subst hs
    obtain ⟨y, hy⟩ : ∃ y, e.systems[x.system]? = some y := ⟨_, List.getElem?_eq_getElem (ho.housed_eq hx)⟩
    have hdue := ho.dueRules hx hy
    rw [if_pos rfl, hw] at hdue
    have hlisteners : e.ruleListeners x.system = y.listeners := by simp [Engine.ruleListeners, hy]
    rw [hlisteners]
    exact (hdue.keeps_drop (ho.rules _ y hy) (List.mem_singleton_self _) otherRules_ne).held _
      (by simp [otherRules])

theorem HearsRules.hears (h : HearsRules o (e.ruleSide s)) : e.hearsRules (.observer o) = true := by
  have : e.gone.contains o = false := h.present
  simp only [hearsRules, this, Bool.not_false]

/-- An announcement drops nobody who exists. -/
theorem HearsRules.announced {event : RuleEvent} (h : HearsRules o (e.ruleSide s)) (hg : side.gone = e.gone) :
    HearsRules o (e.rulesAnnounced s event side) := by
  refine ⟨hg ▸ h.present, ?_⟩
  have hheld : ((e.ruleListeners s).prune e.hearsRules).held (.observer o) =
      (e.ruleListeners s).held (.observer o) := Registry.held_prune _ h.hears
  obtain ⟨id, hid⟩ := h.subscribed
  exact ⟨id, hheld.trans hid⟩

theorem RuleStep.hears (h : RuleStep s e m act side) (ho : Owned False e) (hm : e.heeds o s m)
    (hh : HearsRules o (e.ruleSide s)) : HearsRules o side := by
  cases h with
  | relist hr =>
    obtain ⟨listeners, hr, rfl⟩ := hr
    refine ⟨hh.present, ?_⟩
    obtain ⟨id, hid⟩ := hh.subscribed
    exact ⟨id, (hr.held ho hm).trans hid⟩
  | @forget o' heq =>
    subst heq
    have hne : o' ≠ o := by simpa [heeds] using hm
    refine ⟨?_, hh.subscribed⟩
    have : e.gone.contains o = false := hh.present
    simpa [Ne.symm hne] using this
  | remove => exact hh.announced rfl
  | addRule => exact hh.announced rfl
  | removeRule => exact hh.announced rfl
  | _ => exact ⟨hh.present, hh.subscribed⟩

end Hears

/-! ## Nothing gets lost -/

/-- The rules that are there and those that the observer has been told or will be told to have gone are
together those that were known, and those that it had been told before. -/
structure Reckoned (o : Observer) (before : List (RuleId × Option Ty)) (known : List Rule) (added : Nat)
    (side : RuleSide) : Prop where
  ordered : RuleSet.Ordered ⟨side.set.nextId, known⟩ added
  kept : side.set.rules.Sublist known
  balanced : (before ++ known.map Rule.card).Perm
    (side.set.rules.map Rule.card ++ (removalsTold o side.hearings ++ side.works.flatMap (·.owed o)))

section Reckoned

variable {o : Observer} {s : SystemId} {e : Engine ν} {m : Move ν} {act : Option RuleAct} {side : RuleSide}
  {before : List (RuleId × Option Ty)} {known : List Rule} {added : Nat} {event : RuleEvent}

/-- A rule that is found and removed is one less. -/
theorem perm_remove {set : RuleSet} {id : RuleId} {rule : Rule} (hf : set.find? id = some rule) :
    (set.rules.map Rule.card).Perm ((id, rule.boundTo) :: (set.remove id).rules.map Rule.card) := by
  obtain ⟨hid, first, last, hrules, hfirst⟩ := List.find?_eq_some_iff_append.1 hf
  obtain rfl : rule.id = id := by simpa using hid
  have hremove : (set.remove rule.id).rules = first ++ last := by
    simp only [RuleSet.remove, hrules]
    rw [List.eraseP_append_right _ (by simpa using hfirst), List.eraseP_cons_of_pos (by simp)]
  rw [hremove, hrules, List.map_append, List.map_cons, List.map_append]
  exact List.perm_middle

theorem HearsRules.owed (h : HearsRules o (e.ruleSide s)) (event : RuleEvent) :
    (RuleWork.pass event ((e.ruleListeners s).listeners e.hearsRules fun _ => true)).owed o =
      event.removal?.toList := by
  refine RuleWork.owed_once ?_
  obtain ⟨id, hid⟩ := h.subscribed
  have hid : (e.ruleListeners s).held (.observer o) = [⟨id, (), .observer o⟩] := hid
  simp [Registry.count_listeners h.hears, hid]

/-- The removal of a rule is told to whoever listens. -/
theorem Reckoned.remove {id : RuleId} {rule : Rule} {works : List RuleWork}
    (h : Reckoned o before known added (e.ruleSide s)) (hh : HearsRules o (e.ruleSide s))
    (hf : (e.ruleSetOf s).find? id = some rule)
    (hw : works.flatMap (·.owed o) = (e.ruleWorks s).flatMap (·.owed o)) :
    Reckoned o before known added (e.rulesAnnounced s (.removed id rule.boundTo)
      { e.ruleSide s with set := (e.ruleSetOf s).remove id, works }) := by
  refine ⟨h.ordered, List.eraseP_sublist.trans h.kept, h.balanced.trans ?_⟩
  refine ((perm_remove hf).append_right _).trans ?_
  simp only [rulesAnnounced, List.flatMap_cons, hh.owed, RuleEvent.removal?, Option.toList_some, hw,
    ruleSide_works, ruleSide_hearings, List.cons_append, List.nil_append]
  simp only [← List.append_assoc]
  exact List.perm_middle.symm

theorem RuleStep.reckoned (h : RuleStep s e m act side) (hh : HearsRules o (e.ruleSide s))
    (hr : Reckoned o before known added (e.ruleSide s))
    (hleft : added + (additions act.toList).length ≤ UInt32.size) :
    Reckoned o before (known ++ additions act.toList) (added + (additions act.toList).length) side := by
  have nothing : ∀ {side' : RuleSide}, Reckoned o before known added side' → Reckoned o before (known ++ []) added side' := by
    intro side' hr'
    rwa [List.append_nil]
  have same : ∀ {works : List RuleWork}, works.flatMap (·.owed o) = (e.ruleWorks s).flatMap (·.owed o) →
      Reckoned o before (known ++ []) added { e.ruleSide s with works } := by
    intro works hw
    refine nothing ⟨hr.ordered, hr.kept, ?_⟩
    simpa [hw] using hr.balanced
  cases h with
  | relist hl =>
    obtain ⟨listeners, -, rfl⟩ := hl
    exact nothing ⟨hr.ordered, hr.kept, hr.balanced⟩
  | forget => exact nothing ⟨hr.ordered, hr.kept, hr.balanced⟩
  | leave => exact same rfl
  | gone hw => exact same (by simp [hw, RuleWork.owed])
  | skip hw => exact same (by simp [hw, RuleWork.owed])
  | drop hw => exact same (by simp [hw, RuleWork.owed])
  | ended hw hover => exact same (by simp [hw, RuleWork.owed_of_isOver hover])
  | remove hw hf => exact nothing (hr.remove hh hf (by simp [hw, RuleWork.owed]))
  | miss hw => exact same (by simp [hw, RuleWork.owed])
  | @turn event l queue rest hw =>
    refine nothing ⟨hr.ordered, hr.kept, ?_⟩
    have hbalanced := hr.balanced
    rw [ruleSide_works, hw, List.flatMap_cons, RuleWork.owed_cons] at hbalanced
    simpa using hbalanced
  | @addRule tag name boundTo =>
    refine ⟨hr.ordered.add (Nat.lt_of_succ_le hleft) tag name boundTo, hr.kept.append_right _, ?_⟩
    have hbalanced := hr.balanced.append_right [((e.ruleSetOf s).next tag name boundTo).card]
    simp only [rulesAnnounced, List.flatMap_cons, hh.owed, RuleEvent.removal?, Option.toList_none,
      ruleSide_works, ruleSide_hearings, List.nil_append, RuleSet.add, additions, RuleAct.rule?,
      Option.toList_some, List.filterMap_cons, List.filterMap_nil, List.map_append, List.map_cons,
      List.map_nil, List.append_assoc]
    simp only [List.append_assoc] at hbalanced
    refine hbalanced.trans (List.Perm.append_left _ ?_)
    rw [← List.append_assoc]
    exact List.perm_append_comm
  | removeRule heq hf => exact nothing (hr.remove hh hf rfl)
  | removeNone => exact same rfl

theorem RuleStep.hearings_prefix (h : RuleStep s e m act side) : e.ruleHearings s <+: side.hearings := by
  cases h with
  | relist hl =>
    obtain ⟨listeners, -, rfl⟩ := hl
    exact List.prefix_rfl
  | turn => exact List.prefix_append _ _
  | _ => exact List.prefix_rfl

/-- What the observer has been told since it began, once no pass owes it anything, are the known rules that
are not there. -/
theorem Reckoned.vanished {since : List (Observer × RuleEvent)} (h : Reckoned o before known added side)
    (hold : removalsTold o side.hearings = before ++ removalsTold o since)
    (howed : side.works.flatMap (·.owed o) = []) :
    (removalsTold o since).Perm ((known.filter (· ∉ side.set.rules)).map Rule.card) := by
  have hnodup : known.Nodup := h.ordered.distinct.of_map _
  have hthere : (known.filter (· ∈ side.set.rules)).Perm side.set.rules := by
    refine (List.perm_ext_iff_of_nodup (hnodup.filter _) (hnodup.sublist h.kept)).2 fun rule => ?_
    simp only [List.mem_filter, decide_eq_true_eq]
    exact ⟨fun hr => hr.2, fun hr => ⟨h.kept.subset hr, hr⟩⟩
  have hsplit : known.Perm (side.set.rules ++ known.filter (· ∉ side.set.rules)) := by
    refine (List.filter_append_perm (· ∈ side.set.rules) known).symm.trans ?_
    simpa using hthere.append_right _
  have hcards : (before ++ known.map Rule.card).Perm
      (before ++ (side.set.rules.map Rule.card ++ removalsTold o since)) := by
    refine h.balanced.trans ?_
    rw [hold, howed, List.append_nil, ← List.append_assoc, ← List.append_assoc]
    exact List.perm_append_comm.append_right _
  have hcards := (List.perm_append_left_iff before).1 hcards
  have hsplit := (hsplit.map Rule.card).symm.trans hcards
  rw [List.map_append] at hsplit
  exact ((List.perm_append_left_iff _).1 hsplit).symm

end Reckoned

/-! ## Runs -/

section Runs

variable {o : Observer} {s : SystemId} {e e' e₀ : Engine ν}

theorem ruleWorks_of_atRest (h : e.atRest) (s : SystemId) : e.ruleWorks s = [] := by
  have hs : e.stack = [] := by simpa [atRest] using h
  simp [ruleWorks, hs]

/-- When the observer begins, it knows the rules that are there. -/
theorem reckoned_start {moves : List (Move ν)} (h : run? {} moves = some e) (hrest : e.atRest)
    (hleft : rulesAdded s moves ≤ UInt32.size) :
    Reckoned o (removalsTold o (e.ruleHearings s)) (e.rulesOf s) (rulesAdded s moves) (e.ruleSide s) := by
  rw [rulesOf_eq_ruleSetOf]
  refine ⟨rulesOrdered_of_run h hleft, List.Sublist.refl _, ?_⟩
  simpa [ruleSide, ruleWorks_of_atRest hrest] using List.perm_append_comm

theorem runChecked?_reckoned {moves : List (Move ν)} {before : List (RuleId × Option Ty)}
    {known : List Rule} {added : Nat} (hv : Lively e) (ho : Owned False e) (hh : HearsRules o (e.ruleSide s))
    (hr : Reckoned o before known added (e.ruleSide s))
    (hrun : e.runChecked? (fun e m _ => e.heeds o s m) moves = some e')
    (hleft : added + rulesAdded s moves ≤ UInt32.size) :
    Reckoned o before (known ++ additions (e.ruleActs s moves)) (added + rulesAdded s moves) (e'.ruleSide s) ∧
      e.ruleHearings s <+: e'.ruleHearings s := by
  induction moves generalizing e known added with
  | nil =>
    cases hrun
    exact ⟨by simpa [ruleActs, additions, rulesAdded] using hr, List.prefix_rfl⟩
  | cons m moves ih =>
    obtain ⟨next, hm, hrun⟩ := Option.bind_eq_some_iff.1 hrun
    split at hrun
    · rename_i hheeds
      have hstep := move?_step hm
      have hrule := move?_ruleStep hm s
      have hact := length_additions_ruleAct e s m
      have hsplit : rulesAdded s (m :: moves) = rulesAdded s [m] + rulesAdded s moves :=
        rulesAdded_append s [m] moves
      rw [hsplit, ← Nat.add_assoc] at hleft ⊢
      have hfirst : added + (additions (e.ruleAct? s m).toList).length ≤ UInt32.size :=
        hact ▸ Nat.le_trans (Nat.le_add_right _ _) hleft
      obtain ⟨hnext, hprefix⟩ := ih (step_lively hv hstep) (step_owned hv ho False.elim hstep)
        (hrule.hears ho hheeds hh) (hact ▸ hrule.reckoned hh hr hfirst) hrun hleft
      refine ⟨?_, hrule.hearings_prefix.trans hprefix⟩
      rw [List.append_assoc] at hnext
      simpa [ruleActs, hm] using hnext
    · cases hrun

theorem attends_new (s : SystemId) : Attends s ({} : Engine ν) := rfl

theorem wellKept_new (s : SystemId) : WellKept s [] (({} : Engine ν).ruleSide s) :=
  ⟨RuleSet.ordered_new, nofun, rfl⟩

end Runs

/-- Orderly moves leave a system with the survivors when the engine rests again, if they add no more rules
to it than there are numbers. -/
theorem rulesOf_eq_survivors {s : SystemId} {moves : List (Move ν)} {e : Engine ν}
    (h : runChecked? (fun e m _ => e.orderly s m) {} moves = some e)
    (hfew : rulesAdded s moves ≤ UInt32.size) (hrest : e.atRest) :
    e.rulesOf s = survivors (ruleActs {} s moves) := by
  have hleft : (additions ([] ++ ruleActs {} s moves)).length ≤ UInt32.size := by
    rwa [List.nil_append, length_additions_ruleActs (run?_of_runChecked h)]
  have hkept := (runChecked?_wellKept lively_new owned_new (attends_new s) (wellKept_new s) h hleft).kept
  rw [rulesOf_eq_ruleSetOf]
  simpa [RuleSide.spared, ruleSide, ruleWorks_of_atRest hrest, eq_comm] using hkept

/-- Whether a move leaves a system its subscription to the graph, and is made at rest if it is a call. -/
def restful (s : SystemId) (e : Engine ν) : Move ν → Bool
  | .call (.leaveGraph id) => e.atRest && e.subscription? s ≠ some id
  | .call _ => e.atRest
  | .retire s' => s' ≠ s
  | _ => true

/-- A host that calls only at rest adds no rule that the system is about to drop. -/
theorem orderly_of_restful {s : SystemId} {e : Engine ν} {m : Move ν} (h : e.restful s m) :
    e.orderly s m := by
  unfold restful at h
  split at h
  · exact (Bool.and_eq_true _ _ ▸ h).2
  · rename_i c hleave
    unfold orderly
    split
    · rename_i id hc
      cases hc
      exact absurd rfl (hleave id)
    · simp [ruleWorks_of_atRest h]
    · rename_i hc
      cases hc
    · rfl
  · exact h
  · rename_i hleave hcall hretire
    unfold orderly
    split
    · exact absurd rfl (hcall _)
    · exact absurd rfl (hcall _)
    · exact absurd rfl (hretire _)
    · rfl

/-- With a host that does not call back, and that leaves a system its subscription to the graph, the rules
of the system are the survivors whenever the engine rests. -/
theorem survivors_of_calls_at_rest {s : SystemId} {moves : List (Move ν)} {e : Engine ν}
    (h : runChecked? (fun e m _ => e.restful s m) {} moves = some e)
    (hfew : rulesAdded s moves ≤ UInt32.size) (hrest : e.atRest) :
    e.rulesOf s = survivors (ruleActs {} s moves) :=
  rulesOf_eq_survivors (runChecked?_mono (fun _ _ _ => orderly_of_restful) h) hfew hrest

/-- The rules that were there at first or were added by the moves since, and are there no longer. -/
def vanished (e₀ e : Engine ν) (s : SystemId) (moves : List (Move ν)) : List Rule :=
  (e₀.rulesOf s ++ additions (e₀.ruleActs s moves)).filter (· ∉ e.rulesOf s)

/-- What an observer is told of rules while it listens are the removals of those that vanish, each once. -/
theorem removals_told_once {o : Observer} {s : SystemId} {earlier later : List (Move ν)} {e₀ e : Engine ν}
    (h : run? {} earlier = some e₀) (hrest₀ : e₀.atRest) (hh : HearsRules o (e₀.ruleSide s))
    (hrun : e₀.runChecked? (fun e m _ => e.heeds o s m) later = some e)
    (hfew : rulesAdded s (earlier ++ later) ≤ UInt32.size) (hrest : e.atRest) :
    ∃ since, e.ruleHearings s = e₀.ruleHearings s ++ since ∧
      ((e₀.vanished e s later).map (·.id)).Nodup ∧
      (removalsTold o since).Perm ((e₀.vanished e s later).map Rule.card) := by
  have hreachable : e₀.Reachable := ⟨earlier, h⟩
  rw [rulesAdded_append] at hfew
  have hstart := reckoned_start (o := o) h hrest₀ (Nat.le_trans (Nat.le_add_right _ _) hfew)
  obtain ⟨hreckoned, since, hsince⟩ :=
    runChecked?_reckoned hreachable.lively hreachable.owned hh hstart hrun hfew
  refine ⟨since, hsince.symm, ?_, ?_⟩
  · have hnodup : ((e₀.rulesOf s ++ additions (e₀.ruleActs s later)).map (·.id)).Nodup :=
      hreckoned.ordered.distinct
    exact hnodup.sublist (List.filter_sublist.map _)
  · have hold : removalsTold o (e.ruleSide s).hearings =
        removalsTold o (e₀.ruleHearings s) ++ removalsTold o since := by
      rw [ruleSide_hearings, ← hsince, removalsTold_append]
    rw [vanished, rulesOf_eq_ruleSetOf]
    exact hreckoned.vanished hold (by simp [ruleWorks_of_atRest hrest])

/-- At rest, the rules of a system are the survivors, each that vanished while an observer listened was
reported to it once, and an inference is decided by the first survivor that infers a type. The run adds no
more rules to the system than there are numbers. -/
theorem rules_are_survivors {s : SystemId} {moves : List (Move ν)} {e : Engine ν}
    (h : runChecked? (fun e m _ => e.orderly s m) {} moves = some e)
    (hfew : rulesAdded s moves ≤ UInt32.size) (hrest : e.atRest) :
    e.rulesOf s = survivors (ruleActs {} s moves) ∧
    (∀ (o : Observer) (e₀ : Engine ν) earlier later, moves = earlier ++ later → run? {} earlier = some e₀ →
      e₀.atRest → HearsRules o (e₀.ruleSide s) →
      e₀.runChecked? (fun e m _ => e.heeds o s m) later = some e →
      ∃ since, e.ruleHearings s = e₀.ruleHearings s ++ since ∧
        ((e₀.vanished e s later).map (·.id)).Nodup ∧
        (removalsTold o since).Perm ((e₀.vanished e s later).map Rule.card)) ∧
    (s < e.systems.length → ∀ (host : Oracle ν) (n : ν), ∃ result,
      Gives host.Answers e (.infer s n) (.inference result) ∧
      (∀ t, result = .ok t ↔ ∃ before rule after,
        survivors (ruleActs {} s moves) = before ++ rule :: after ∧ host.outcome rule n = .inferred t ∧
        ∀ earlier ∈ before, ∀ t', host.outcome earlier n ≠ .inferred t') ∧
      ∀ problems, result = .error problems ↔
        (∀ rule ∈ survivors (ruleActs {} s moves), ∀ t, host.outcome rule n ≠ .inferred t) ∧
        problems = (survivors (ruleActs {} s moves)).filterMap fun rule =>
          rule.problem? (host.outcome rule n)) := by
  have hrules := rulesOf_eq_survivors h hfew hrest
  refine ⟨hrules, ?_, ?_⟩
  · rintro o e₀ earlier later rfl hearlier hrest₀ hh hlater
    exact removals_told_once hearlier hrest₀ hh hlater hfew hrest
  · intro hs host n
    rw [← hrules]
    refine ⟨_, gives_inference (by simp [hostTurn, hrest]) (by simpa [knows] using hs), fun t => ?_, ?_⟩
    · exact inferBy_eq_ok
    · intro problems
      exact inferBy_eq_error.trans (by simp)

/-- The theorem at two rules of which one is bound to a type that leaves the graph. -/
theorem rules_after_type_left : ∃ (moves later : List (Move Node)) (e₀ e : Engine Node),
    runChecked? (fun e m _ => e.orderly 0 m) {} moves = some e ∧
      e₀.runChecked? (fun e m _ => e.heeds ⟨0⟩ 0 m) later = some e ∧
      e.rulesOf 0 = survivors (ruleActs {} 0 moves) ∧
      survivors (ruleActs {} 0 moves) = [⟨0, ⟨0⟩, "first", none⟩] ∧
      (∃ since, e.ruleHearings 0 = e₀.ruleHearings 0 ++ since ∧
        (removalsTold ⟨0⟩ since).Perm [(1, some ⟨1, "a", "a"⟩)]) ∧
      ∃ (host : Oracle Node) (result : Except (List InferenceProblem) Ty),
        Gives host.Answers e (.infer 0 (.raw "n")) (.inference result) ∧
        result = .error [⟨"first", "unknown"⟩] := by
  let host : Oracle Node := ⟨⟨fun _ _ => .problem "unknown", fun _ => default⟩, fun _ => default,
    fun _ _ => .identifier "", fun _ _ _ => {}⟩
  let earlier : List (Move Node) := [.call (.addSystem {} .plain .graph), .call (.listenToRules 0 ⟨0⟩)]
  let later : List (Move Node) := [
    .call (.addType ⟨1, "a", "a"⟩ "a"), .work, .work, .work,
    .call (.addRule 0 ⟨0⟩ "first" none), .work, .answer .done, .work, .work,
    .call (.addRule 0 ⟨1⟩ "second" (some ⟨1, "a", "a"⟩)), .work, .answer .done, .work, .work,
    .call (.removeType ⟨1, "a", "a"⟩), .work, .work, .work, .work, .answer .done, .work, .work, .work, .work]
  have hearlier : run? {} earlier = some _ := rfl
  have hrun : runChecked? (fun e m _ => e.orderly 0 m) {} (earlier ++ later) = some _ := rfl
  obtain ⟨hrules, htold, hinfer⟩ := rules_are_survivors hrun (by decide) rfl
  obtain ⟨since, hsince, -, hperm⟩ := htold ⟨0⟩ _ earlier later rfl hearlier rfl ⟨rfl, 0, rfl⟩ rfl
  obtain ⟨result, hgives, -, herror⟩ := hinfer (by decide) host (.raw "n")
  refine ⟨earlier ++ later, later, _, _, hrun, rfl, hrules, by decide, ⟨since, hsince, hperm⟩, host, result,
    hgives, ?_⟩
  exact (herror _).2 ⟨by simp, by decide⟩

/-- A host that ends the subscription of a system keeps the rules of that system from going with their
types. -/
theorem unsubscribed_system_keeps_rule : ∃ (moves : List (Move Node)) (e : Engine Node),
    run? {} moves = some e ∧ e.atRest ∧ survivors (ruleActs {} 0 moves) = [] ∧
      e.rulesOf 0 = [⟨0, ⟨0⟩, "first", some ⟨1, "a", "a"⟩⟩] :=
  ⟨[.call (.addSystem {} .plain .graph), .call (.leaveGraph 0),
    .call (.addType ⟨1, "a", "a"⟩ "a"), .work, .work,
    .call (.addRule 0 ⟨0⟩ "first" (some ⟨1, "a", "a"⟩)), .work, .work,
    .call (.removeType ⟨1, "a", "a"⟩), .work, .work, .work], _, rfl, rfl, by decide, by decide⟩

end Engine
end LiveTypes
