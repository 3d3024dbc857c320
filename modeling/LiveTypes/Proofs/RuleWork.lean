import LiveTypes.Proofs.Furnishing

/-!
# A rule set's side of a run

Rules come and go by calls of the host, and they go with the types that they are bound to: when a type has
left the graph, the type system has its turn in the pass that tells of it, notes which rules are bound to
the type, and removes them one by one. `Engine.ruleSide` is what can be seen of the rules of one system, and
`Engine.RuleStep` says all that a move can do to it, for a host that calls back as it likes, together with
what the host has done by it to the rules.
-/
namespace LiveTypes

variable {ν : Type}

/-- Work under way that concerns the rules of one type system. -/
inductive RuleWork where
  /-- A type is being removed. -/
  | leaving (type : Ty)
  /-- A type was removed, and those in the queue are yet to hear of it. -/
  | left (type : Ty) (queue : List GraphListener)
  /-- The rules of these numbers are yet to be removed. -/
  | removal (rules : List RuleId)
  /-- Those in the queue are yet to hear of what happened to the rules. -/
  | pass (event : RuleEvent) (queue : List RuleListener)

/-- Whether nothing is left to do. -/
def RuleWork.isOver : RuleWork → Bool
  | .leaving _ => false
  | .left _ queue => queue.isEmpty
  | .removal ids => ids.isEmpty
  | .pass _ queue => queue.isEmpty

/-- The work of a frame that concerns the rules of a system. -/
def Frame.ruleWork? (s : SystemId) : Frame ν → Option RuleWork
  | .typeRemoval t _ _ => some (.leaving t)
  | .graphPass (.removedType t _) queue => some (.left t queue)
  | .ruleRemoval s' ids => if s' = s then some (.removal ids) else none
  | .rulePass s' event queue => if s' = s then some (.pass event queue) else none
  | _ => none

@[simp] theorem Frame.ruleWork?_ruleRemoval (s : SystemId) (ids : List RuleId) :
    (Frame.ruleRemoval s ids : Frame ν).ruleWork? s = some (.removal ids) := if_pos rfl

@[simp] theorem Frame.ruleWork?_rulePass (s : SystemId) (event : RuleEvent) (queue : List RuleListener) :
    (Frame.rulePass s event queue : Frame ν).ruleWork? s = some (.pass event queue) := if_pos rfl

/-- What a notice says of the rules of a system. -/
def Notice.ruleEvent? (s : SystemId) : Notice → Option RuleEvent
  | .rule s' event => if s' = s then some event else none
  | _ => none

/-- What an observer is told of the rules of a system. -/
def Report.ruleHearing? (s : SystemId) (q : Report ν) : Option (Observer × RuleEvent) :=
  q.telling?.bind fun told => (told.2.ruleEvent? s).map (told.1, ·)

/-- What is told when the turn of a listener comes; only observers are told anything. -/
def RuleListener.hearing (event : RuleEvent) : RuleListener → List (Observer × RuleEvent)
  | .observer o => [(o, event)]
  | .reference _ => []

/-- What can be seen of the rules of a system. -/
structure RuleSide where
  set : RuleSet
  listeners : Registry Unit RuleListener
  gone : List Observer
  /-- The work under way, innermost first. -/
  works : List RuleWork
  /-- What observers have been told, oldest first. -/
  hearings : List (Observer × RuleEvent)

/-- What the host does that decides which rules a system has. -/
inductive RuleAct where
  | added (rule : Rule)
  /-- The host has the rule of this number removed, if there is one. -/
  | removed (id : RuleId)
  /-- The host has a type removed that is in the graph. -/
  | left (type : Ty)

namespace Engine

/-- The rules of a system and the number of the next one. -/
def ruleSetOf (e : Engine ν) (s : SystemId) : RuleSet := (e.ruleSet? s).getD {}

/-- Who listens to the rules of a system. -/
def ruleListeners (e : Engine ν) (s : SystemId) : Registry Unit RuleListener :=
  (e.systems[s]?.map (·.listeners)).getD {}

/-- The work under way that concerns the rules of a system, innermost first. -/
def ruleWorks (e : Engine ν) (s : SystemId) : List RuleWork := e.stack.filterMap (·.ruleWork? s)

/-- What observers have been told of the rules of a system, oldest first. -/
def ruleHearings (e : Engine ν) (s : SystemId) : List (Observer × RuleEvent) :=
  e.trace.filterMap (·.ruleHearing? s)

def ruleSide (e : Engine ν) (s : SystemId) : RuleSide :=
  ⟨e.ruleSetOf s, e.ruleListeners s, e.gone, e.ruleWorks s, e.ruleHearings s⟩

@[simp] theorem ruleSide_works (e : Engine ν) (s : SystemId) : (e.ruleSide s).works = e.ruleWorks s := rfl

@[simp] theorem ruleSide_hearings (e : Engine ν) (s : SystemId) :
    (e.ruleSide s).hearings = e.ruleHearings s := rfl

theorem rulesOf_eq_ruleSetOf (e : Engine ν) (s : SystemId) : e.rulesOf s = (e.ruleSetOf s).rules := by
  rw [rulesOf_eq, ruleSetOf]
  cases e.ruleSet? s <;> rfl

/-- Of what a rule set can see, the stack decides the work under way only. -/
theorem ruleSide_withStack (e : Engine ν) (frames : List (Frame ν)) (s : SystemId) :
    (e.withStack frames).ruleSide s =
      { e.ruleSide s with works := frames.filterMap (·.ruleWork? s) } := rfl

/-- Those who listen now begin to be told of an event. -/
def rulesAnnounced (e : Engine ν) (s : SystemId) (event : RuleEvent) (side : RuleSide) : RuleSide :=
  { side with
    listeners := (e.ruleListeners s).prune e.hearsRules
    works := .pass event ((e.ruleListeners s).listeners e.hearsRules fun _ => true) :: side.works }

/-- What a move of the host does to the rules of a system. -/
def ruleAct? (e : Engine ν) (s : SystemId) : Move ν → Option RuleAct
  | .call (.addRule s' tag name boundTo) =>
    if s' = s then some (.added ((e.ruleSetOf s).next tag name boundTo)) else none
  | .call (.removeRule s' id) => if s' = s then some (.removed id) else none
  | .call (.removeType t) => if (e.graph.keyOf? t).isSome then some (.left t) else none
  | _ => none

/-! ## What does not show -/

section Unseen

variable {p : Option Purpose} {e e' : Engine ν} {f f' : Frame ν} {rest : List (Frame ν)} {s i : SystemId}

theorem ruleSide_congr (hs : e'.systems = e.systems) (hg : e'.gone = e.gone)
    (hw : e'.ruleWorks s = e.ruleWorks s) (hh : e'.ruleHearings s = e.ruleHearings s) :
    e'.ruleSide s = e.ruleSide s := by
  simp only [ruleSide, ruleSetOf, ruleSet?, ruleListeners, hs, hg, hw, hh]

theorem ruleSide_report (e : Engine ν) {q : Report ν} (h : q.ruleHearing? s = none) :
    (e.report q).ruleSide s = e.ruleSide s :=
  ruleSide_congr rfl rfl rfl (by simp [ruleHearings, report, h])

theorem ruleSide_finish (e : Engine ν) (result : Result ν) : (e.finish result).ruleSide s = e.ruleSide s :=
  ruleSide_report e rfl

theorem ruleHearings_push (e : Engine ν)
    (hq : ∀ q, f.question? = some q → (Report.ask q).ruleHearing? s = none) :
    (e.push f).ruleHearings s = e.ruleHearings s := by
  unfold push
  split
  · rename_i q hf
    simp [ruleHearings, report, hq q hf]
  · rfl

theorem ruleSide_push (e : Engine ν) (hf : f.ruleWork? s = none)
    (hq : ∀ q, f.question? = some q → (Report.ask q).ruleHearing? s = none) :
    (e.push f).ruleSide s = e.ruleSide s :=
  ruleSide_congr (push_systems e f) (push_gone e f) (by simp [ruleWorks, hf]) (ruleHearings_push e hq)

theorem ruleSide_deliver (e : Engine ν) (result : Result ν) :
    (e.push (.deliver result)).ruleSide s = e.ruleSide s :=
  ruleSide_push e rfl nofun

/-- Other work comes and goes unseen. -/
theorem ruleSide_pop (hs : e.stack = f :: rest) (hf : f.ruleWork? s = none) :
    (e.withStack rest).ruleSide s = e.ruleSide s :=
  ruleSide_congr rfl rfl (by simp [ruleWorks, hs, hf]) rfl

theorem ruleSide_turn (hs : e.stack = f :: rest) (hf : f'.ruleWork? s = f.ruleWork? s) :
    (e.withStack (f' :: rest)).ruleSide s = e.ruleSide s :=
  ruleSide_congr rfl rfl (by simp [ruleWorks, hs, List.filterMap_cons, hf]) rfl

theorem Frame.ruleWork?_of_isPlain (h : f.isPlain) : f.ruleWork? s = none := by
  cases f <;> simp_all [Frame.isPlain, Frame.ruleWork?]

theorem Plain.ruleSide (h : Plain p e e') (s : SystemId) : e'.ruleSide s = e.ruleSide s := by
  obtain ⟨frames, hs, hf⟩ := h.stack
  obtain ⟨reports, ht, -⟩ := h.trace
  have hframes : frames.filterMap (·.ruleWork? s) = [] := by
    refine List.filterMap_eq_nil_iff.2 fun f hm => ?_
    exact Frame.ruleWork?_of_isPlain (hf f hm).plain
  have htold : reports.filterMap Report.telling? = [] := by
    have := h.tellings
    simpa [Engine.tellings, ht] using this
  have hreports : reports.filterMap (·.ruleHearing? s) = [] := by
    refine List.filterMap_eq_nil_iff.2 fun q hm => ?_
    simp [Report.ruleHearing?, List.filterMap_eq_nil_iff.1 htold q hm]
  exact ruleSide_congr h.systems h.gone (by simp [ruleWorks, hs, hframes])
    (by simp [ruleHearings, ht, hreports])

/-- Of what the graph tells, only that a type has gone matters to rules. -/
theorem ruleSide_notifyGraph (e : Engine ν) {event : GraphEvent} (h : ∀ t key, event ≠ .removedType t key) :
    (e.notifyGraph event).ruleSide s = e.ruleSide s := by
  refine ruleSide_push _ ?_ nofun
  cases event with
  | removedType t key => exact absurd rfl (h t key)
  | _ => rfl

theorem ruleSide_removeEdge (e : Engine ν) (edge : Edge) :
    (e.removeEdge edge).ruleSide s = e.ruleSide s := by
  unfold removeEdge
  split
  · exact (ruleSide_notifyGraph _ (by simp)).trans (ruleSide_report { e with graph := _ } rfl)
  · rfl

theorem ruleSide_invalidate (e : Engine ν) (r : ReferenceId) (t : Ty) :
    (e.invalidate r t).ruleSide s = e.ruleSide s := by
  rcases invalidate_cases e r t with ⟨heq, -⟩ | ⟨x, watch, hl⟩
  · rw [heq]
  · obtain ⟨text, htrace⟩ := hl.trace
    refine ruleSide_congr hl.systems hl.gone ?_ ?_
    · simp [ruleWorks, hl.stack, Frame.ruleWork?]
    · simp [ruleHearings, htrace, Report.ruleHearing?, Report.telling?]

/-- A change of one system only shows there. -/
theorem ruleSide_modify {update : System ν → System ν} (hs : e'.systems = e.systems.modify i update)
    (hi : i ≠ s) (hg : e'.gone = e.gone) (hw : e'.ruleWorks s = e.ruleWorks s)
    (hh : e'.ruleHearings s = e.ruleHearings s) : e'.ruleSide s = e.ruleSide s := by
  simp only [ruleSide, ruleSetOf, ruleSet?, ruleListeners, hs, hg, hw, hh, List.getElem?_modify_ne _ _ hi]

theorem ruleSide_updateSystem (e : Engine ν) (update : System ν → System ν) (hi : i ≠ s) :
    (e.updateSystem i update).ruleSide s = e.ruleSide s :=
  ruleSide_modify rfl hi rfl rfl rfl

end Unseen

/-! ## Who listens -/

/-- How the list of those who listen to the rules of a system can change, passes aside. -/
inductive RuleRelists (s : SystemId) (e : Engine ν) (m : Move ν) : Registry Unit RuleListener → Prop
  | same : RuleRelists s e m (e.ruleListeners s)
  /-- A reference begins to wait for a type. -/
  | enter {r : ReferenceId} : RuleRelists s e m ((e.ruleListeners s).add () (.reference r))
  | listen {o : Observer} : m = .call (.listenToRules s o) →
    RuleRelists s e m ((e.ruleListeners s).add () (.observer o))
  | leave {id : Nat} : m = .call (.leaveRules s id) → RuleRelists s e m ((e.ruleListeners s).remove id)
  /-- A reference no longer waits for a type. -/
  | release {r : ReferenceId} {x : Reference ν} {subs : Subscriptions} : e.references[r]? = some x →
    x.system = s → x.state = .unresolved (some subs) →
    RuleRelists s e m ((e.ruleListeners s).remove subs.rules)

/-- All that can be seen is perhaps another subscription. -/
def RuleRelisted (s : SystemId) (e : Engine ν) (m : Move ν) (side : RuleSide) : Prop :=
  ∃ listeners, RuleRelists s e m listeners ∧ side = { e.ruleSide s with listeners }

section Listeners

variable {e e' e₀ : Engine ν} {m : Move ν} {s i : SystemId}

theorem RuleRelisted.of_eq (h : e'.ruleSide s = e.ruleSide s) : RuleRelisted s e m (e'.ruleSide s) :=
  ⟨e.ruleListeners s, .same, h⟩

/-- Unseen work comes before. -/
theorem RuleRelisted.before {frames : List (Frame ν)} {side : RuleSide}
    (h : RuleRelisted s (e.withStack frames) m side) (hs : (e.withStack frames).ruleSide s = e.ruleSide s) :
    RuleRelisted s e m side := by
  obtain ⟨listeners, hl, rfl⟩ := h
  refine ⟨listeners, ?_, by rw [hs]⟩
  cases hl with
  | same => exact .same
  | enter => exact .enter
  | listen hm => exact .listen hm
  | leave hm => exact .leave hm
  | release hx hi hw => exact .release hx hi hw

/-- The listeners of one system change, which perhaps does not exist. -/
theorem RuleRelisted.of_modify (update : Registry Unit RuleListener → Registry Unit RuleListener)
    (hs : e'.systems = e.systems.modify i fun y => { y with listeners := update y.listeners })
    (hg : e'.gone = e.gone) (hw : e'.ruleWorks s = e.ruleWorks s)
    (hh : e'.ruleHearings s = e.ruleHearings s)
    (h : i = s → RuleRelists s e m (update (e.ruleListeners s))) : RuleRelisted s e m (e'.ruleSide s) := by
  by_cases hi : i = s
  · subst hi
    cases hy : e.systems[i]? with
    | none =>
      refine .of_eq ?_
      simp [ruleSide, ruleSetOf, ruleSet?, ruleListeners, hs, hg, hw, hh, hy]
    | some y =>
      refine ⟨_, h rfl, ?_⟩
      simp [ruleSide, ruleSetOf, ruleSet?, ruleListeners, hs, hg, hw, hh, hy]
  · exact .of_eq (ruleSide_modify hs hi hg hw hh)

theorem ruleRelisted_resolve (e : Engine ν) (r : ReferenceId) (t : Ty) :
    RuleRelisted s e m ((e.resolve r t).ruleSide s) := by
  rcases resolve_cases e r t with ⟨heq, -⟩ | ⟨x, subs, ht⟩
  · rw [heq]
    exact .of_eq rfl
  · obtain ⟨text, htrace⟩ := ht.trace
    refine .of_modify (·.remove subs.rules) ht.systems ht.gone ?_ ?_ fun hi =>
      .release ht.found hi ht.waiting
    · simp [ruleWorks, ht.stack, Frame.ruleWork?]
    · simp [ruleHearings, htrace, Report.ruleHearing?, Report.telling?]

theorem ruleRelisted_subscribe (e : Engine ν) (r : ReferenceId) (i : SystemId) :
    RuleRelisted s e m (((e.subscribe r i).attempt r).ruleSide s) := by
  rw [(plain_attempt _ r).ruleSide]
  exact .of_modify (·.add () (.reference r)) rfl rfl rfl rfl fun _ => .enter

theorem ruleRelisted_startResolving (e : Engine ν) (r : ReferenceId) :
    RuleRelisted s e m ((e.startResolving r).ruleSide s) := by
  rcases startResolving_cases e r with ⟨heq, -⟩ | ⟨x, -, -, heq⟩
  · rw [heq]
    exact .of_eq rfl
  · rw [heq]
    exact ruleRelisted_subscribe e r x.system

theorem ruleRelisted_deconstruct (e : Engine ν) (r : ReferenceId) :
    RuleRelisted s e m ((e.deconstruct r).ruleSide s) := by
  rcases deconstruct_cases e r with heq | ⟨x, hst⟩
  · rw [heq]
    exact .of_eq rfl
  · obtain ⟨text, htrace⟩ := hst.trace
    have hworks : (e.deconstruct r).ruleWorks s = e.ruleWorks s := by simp only [ruleWorks, hst.stack]
    have hhearings : (e.deconstruct r).ruleHearings s = e.ruleHearings s := by
      simp [ruleHearings, htrace, Report.ruleHearing?, Report.telling?]
    have hsystems := hst.systems
    rcases hw : x.state with (_ | subs) | ⟨t, watch⟩ <;> rw [hw] at hsystems
    · exact .of_eq (ruleSide_congr hsystems hst.gone hworks hhearings)
    · exact .of_modify (·.remove subs.rules) hsystems hst.gone hworks hhearings fun hi =>
        .release hst.found hi hw
    · exact .of_eq (ruleSide_congr hsystems hst.gone hworks hhearings)

end Listeners

/-! ## What a move does -/

/-- What a move can do to the side of a rule set, with what the host does by it to the rules. -/
inductive RuleStep (s : SystemId) (e : Engine ν) (m : Move ν) : Option RuleAct → RuleSide → Prop
  | relist {side : RuleSide} : RuleRelisted s e m side → RuleStep s e m none side
  | forget {o : Observer} : m = .forget o →
    RuleStep s e m none { e.ruleSide s with gone := o :: e.gone }
  /-- The removal of a type begins. -/
  | leave {t : Ty} : m = .call (.removeType t) →
    RuleStep s e m (some (.left t)) { e.ruleSide s with works := .leaving t :: e.ruleWorks s }
  /-- The type has gone, and the pass that tells of it begins. -/
  | gone {t : Ty} {key : String} {rest : List RuleWork} : e.ruleWorks s = .leaving t :: rest →
    RuleStep s e m none { e.ruleSide s with
      works := .left t (e.listeners.listeners e.hearsGraph (GraphEvent.removedType t key).concerns) :: rest }
  /-- A pass has a turn in which this system drops nothing. -/
  | skip {t : Ty} {l : GraphListener} {queue : List GraphListener} {rest : List RuleWork} :
    e.ruleWorks s = .left t (l :: queue) :: rest → (l = .system s → e.systems[s]? = none) →
    RuleStep s e m none { e.ruleSide s with works := .left t queue :: rest }
  | drop {t : Ty} {queue : List GraphListener} {rest : List RuleWork} :
    e.ruleWorks s = .left t (.system s :: queue) :: rest →
    RuleStep s e m none { e.ruleSide s with
      works := .removal ((e.ruleSetOf s).boundTo t) :: .left t queue :: rest }
  | ended {work : RuleWork} {rest : List RuleWork} : e.ruleWorks s = work :: rest → work.isOver →
    RuleStep s e m none { e.ruleSide s with works := rest }
  | remove {id : RuleId} {ids : List RuleId} {rule : Rule} {rest : List RuleWork} :
    e.ruleWorks s = .removal (id :: ids) :: rest → (e.ruleSetOf s).find? id = some rule →
    RuleStep s e m none (e.rulesAnnounced s (.removed id rule.boundTo)
      { e.ruleSide s with set := (e.ruleSetOf s).remove id, works := .removal ids :: rest })
  /-- A rule that was to be removed has gone before. -/
  | miss {id : RuleId} {ids : List RuleId} {rest : List RuleWork} :
    e.ruleWorks s = .removal (id :: ids) :: rest → (e.ruleSetOf s).find? id = none →
    RuleStep s e m none { e.ruleSide s with works := .removal ids :: rest }
  | turn {event : RuleEvent} {l : RuleListener} {queue : List RuleListener} {rest : List RuleWork} :
    e.ruleWorks s = .pass event (l :: queue) :: rest →
    RuleStep s e m none { e.ruleSide s with
      works := .pass event queue :: rest, hearings := e.ruleHearings s ++ l.hearing event }
  | addRule {tag : RuleTag} {name : String} {boundTo : Option Ty} :
    m = .call (.addRule s tag name boundTo) →
    RuleStep s e m (some (.added ((e.ruleSetOf s).next tag name boundTo)))
      (e.rulesAnnounced s (.added (e.ruleSetOf s).nextId boundTo)
        { e.ruleSide s with set := (e.ruleSetOf s).add tag name boundTo })
  | removeRule {id : RuleId} {rule : Rule} : m = .call (.removeRule s id) →
    (e.ruleSetOf s).find? id = some rule → RuleStep s e m (some (.removed id))
      (e.rulesAnnounced s (.removed id rule.boundTo)
        { e.ruleSide s with set := (e.ruleSetOf s).remove id })
  | removeNone {id : RuleId} : m = .call (.removeRule s id) → (e.ruleSetOf s).find? id = none →
    RuleStep s e m (some (.removed id)) (e.ruleSide s)

section Inversion

variable {e e' e₁ : Engine ν} {m : Move ν} {f f' : Frame ν} {rest : List (Frame ν)} {s i : SystemId}

theorem RuleStep.unseen (h : e'.ruleSide s = e.ruleSide s) : RuleStep s e m none (e'.ruleSide s) :=
  .relist (.of_eq h)

/-- Other work is over, and only a subscription changes with it. -/
theorem RuleStep.pop {side : RuleSide} (hs : e.stack = f :: rest) (hf : f.ruleWork? s = none)
    (h : RuleRelisted s (e.withStack rest) m side) : RuleStep s e m none side :=
  .relist (h.before (ruleSide_pop hs hf))

theorem ruleWorks_cons {work : RuleWork} (hs : e.stack = f :: rest) (hf : f.ruleWork? s = some work) :
    e.ruleWorks s = work :: (e.withStack rest).ruleWorks s := by
  simp [ruleWorks, hs, hf]

/-- The rules of a system change and those who listen to them begin to be told. -/
theorem ruleSide_notifyRules {y : System ν} {event : RuleEvent} (set : RuleSet)
    (hy : e.systems[s]? = some y)
    (hs : e'.systems = e.systems.modify s fun y => { y with rules := set }) (hg : e'.gone = e.gone) :
    (e'.notifyRules s event).ruleSide s =
      e.rulesAnnounced s event { e.ruleSide s with
        set, works := e'.ruleWorks s, hearings := e'.ruleHearings s } := by
  have hy' : e'.systems[s]? = some { y with rules := set } := by
    rw [hs, List.getElem?_modify_eq, hy]
    rfl
  rw [notifyRules_eq e' hy', push_eq _ rfl]
  simp [ruleSide, rulesAnnounced, ruleSetOf, ruleSet?, ruleListeners, ruleWorks, ruleHearings, updateSystem,
    hy, hy', hg, hearsRules_congr hg, Frame.ruleWork?]

theorem ruleSide_notifyOther (e : Engine ν) (event : RuleEvent) (hi : i ≠ s) :
    (e.notifyRules i event).ruleSide s = e.ruleSide s := by
  unfold notifyRules
  split
  · rfl
  · refine (ruleSide_push _ (by simp [Frame.ruleWork?, hi]) ?_).trans (ruleSide_updateSystem _ _ hi)
    exact nofun

theorem find?_ruleSetOf (e : Engine ν) (s : SystemId) (id : RuleId) :
    (e.ruleSetOf s).find? id = e.systems[s]?.bind (·.rules.find? id) := by
  unfold ruleSetOf ruleSet?
  cases e.systems[s]? <;> rfl

theorem ruleSide_removeOther (e : Engine ν) (id : RuleId) (hi : i ≠ s) :
    (e.removeRule i id).ruleSide s = e.ruleSide s := by
  unfold removeRule
  split
  · rfl
  · refine (ruleSide_notifyOther _ _ hi).trans ?_
    exact (ruleSide_report (e.updateSystem i _) rfl).trans (ruleSide_updateSystem _ _ hi)

/-- A rule is removed and told of, if it is there. -/
theorem removeRule_ruleSide (e : Engine ν) (s : SystemId) (id : RuleId) :
    ((e.ruleSetOf s).find? id = none ∧ (e.removeRule s id).ruleSide s = e.ruleSide s) ∨
      ∃ rule, (e.ruleSetOf s).find? id = some rule ∧
        (e.removeRule s id).ruleSide s = e.rulesAnnounced s (.removed id rule.boundTo)
          { e.ruleSide s with set := (e.ruleSetOf s).remove id } := by
  rw [find?_ruleSetOf]
  cases hf : e.systems[s]?.bind (·.rules.find? id) with
  | none => exact .inl ⟨rfl, by simp only [removeRule, hf]⟩
  | some rule =>
    refine .inr ⟨rule, rfl, ?_⟩
    obtain ⟨y, hy, -⟩ := Option.bind_eq_some_iff.1 hf
    have hset : e.ruleSetOf s = y.rules := by simp [ruleSetOf, ruleSet?, hy]
    simp only [removeRule, hf]
    refine (ruleSide_notifyRules (y.rules.remove id) hy ?_ ?_).trans ?_
    · refine List.ext_getElem? fun i => ?_
      simp only [updateSystem, log, report, List.getElem?_modify]
      by_cases hi : s = i
      · subst hi
        simp [hy]
      · simp [hi]
    · rfl
    · simp [ruleSide, ruleWorks, ruleHearings, log, report, updateSystem, Report.ruleHearing?,
        Report.telling?, hset]

/-- A reference has its turn in a pass. -/
theorem referenceTurn_ruleStep {event : RuleEvent} {r : ReferenceId} {queue : List RuleListener}
    (hs : e.stack = .rulePass i event (.reference r :: queue) :: rest) :
    RuleStep s e m none ((e.withStack (.rulePass i event queue :: rest)).ruleSide s) := by
  by_cases hi : i = s
  · subst hi
    have hstep := RuleStep.turn (m := m) (ruleWorks_cons hs (Frame.ruleWork?_rulePass i _ _))
    rw [ruleSide_withStack]
    simpa [ruleSide, ruleWorks, ruleHearings, RuleListener.hearing] using hstep
  · exact .unseen (ruleSide_turn hs (by simp [Frame.ruleWork?, hi]))

theorem skips_ruleStep (hs : e.stack = f :: rest) (hsk : f.Skips f') (ht : f.tells? = none)
    (hd : ∀ i, f.drops? = some i → e.systems[i]? = none) :
    RuleStep s e m none ((e.withStack (f' :: rest)).ruleSide s) := by
  cases hsk with
  | @graph event l queue hl =>
    cases event with
    | removedType t key =>
      refine .skip (ruleWorks_cons hs rfl) fun hl => hd s ?_
      subst hl
      rfl
    | _ => exact .unseen (ruleSide_turn hs rfl)
  | @rules i event l queue hl =>
    cases l with
    | observer o => cases ht
    | reference r => exact referenceTurn_ruleStep hs
  | reference => exact .unseen (ruleSide_turn hs rfl)

theorem calls_ruleStep {r : ReferenceId} (hs : e.stack = f :: rest) (hcl : f.Calls f' r) :
    RuleStep s e m none (((e.withStack (f' :: rest)).attempt r).ruleSide s) := by
  rw [(plain_attempt _ r).ruleSide]
  cases hcl with
  | graph => exact .unseen (ruleSide_turn hs rfl)
  | rules => exact referenceTurn_ruleStep hs
  | source => exact .unseen (ruleSide_turn hs rfl)

/-- Others are told unseen. -/
theorem ruleSide_telling (e : Engine ν) {o : Observer} {notice : Notice} (h : notice.ruleEvent? s = none) :
    (e.push (.telling o notice)).ruleSide s = e.ruleSide s := by
  refine ruleSide_push e rfl fun q hq => ?_
  cases hq
  simp [Report.ruleHearing?, Report.telling?, h]

theorem tell_ruleStep {o : Observer} {notice : Notice} (hs : e.stack = f :: rest) (hsk : f.Skips f')
    (ht : f.tells? = some (o, notice)) :
    RuleStep s e m none (((e.withStack (f' :: rest)).push (.telling o notice)).ruleSide s) := by
  cases hsk with
  | @graph event l queue hl =>
    cases l with
    | observer o' =>
      cases ht
      rw [ruleSide_telling _ rfl]
      cases event with
      | removedType t key => exact .skip (ruleWorks_cons hs rfl) nofun
      | _ => exact .unseen (ruleSide_turn hs rfl)
    | system i => cases ht
    | reference r => cases ht
  | @rules i event l queue hl =>
    cases l with
    | observer o' =>
      cases ht
      by_cases hi : i = s
      · subst hi
        have hstep := RuleStep.turn (m := m) (ruleWorks_cons hs (Frame.ruleWork?_rulePass i _ _))
        simpa [ruleSide, ruleSetOf, ruleSet?, ruleListeners, ruleWorks, ruleHearings, push, report,
          Frame.question?, Frame.ruleWork?, RuleListener.hearing, Report.ruleHearing?, Report.telling?,
          Notice.ruleEvent?] using hstep
      · rw [ruleSide_telling _ (by simp [Notice.ruleEvent?, hi])]
        exact .unseen (ruleSide_turn hs (by simp [Frame.ruleWork?, hi]))
    | reference r => cases ht
  | @reference i event l queue hl =>
    cases l with
    | observer o' =>
      cases ht
      rw [ruleSide_telling _ rfl]
      exact .unseen (ruleSide_turn hs rfl)
    | dependent d => cases ht

/-- A type has gone, and those who listen to the graph begin to be told. -/
theorem ruleSide_removeNode (e : Engine ν) (t : Ty) (key : String) :
    (e.removeNode t key).ruleSide s = { e.ruleSide s with
      works := .left t (e.listeners.listeners e.hearsGraph (GraphEvent.removedType t key).concerns) ::
        e.ruleWorks s } := by
  have hears : ∀ graph, ({ e with graph }.log (.typeRemoved key)).hearsGraph = e.hearsGraph :=
    fun _ => hearsGraph_congr rfl
  rw [removeNode, notifyGraph_eq, push_eq _ rfl, hears]
  simp [ruleSide, ruleSetOf, ruleSet?, ruleListeners, ruleWorks, ruleHearings, log, report,
    Frame.ruleWork?, Report.ruleHearing?, Report.telling?]

theorem over_ruleStep (hs : e.stack = f :: rest) (ho : f.isOver) :
    RuleStep s e m none ((e.withStack rest).ruleSide s) := by
  cases hf : f.ruleWork? s with
  | none => exact .unseen (ruleSide_pop hs hf)
  | some work =>
    refine .ended (ruleWorks_cons hs hf) ?_
    unfold Frame.ruleWork? at hf
    split at hf
    · cases ho
    · cases hf
      exact ho
    · split at hf
      · cases hf
        exact ho
      · cases hf
    · split at hf
      · cases hf
        exact ho
      · cases hf
    · cases hf

theorem Work.ruleStep {h : Host ν} (hw : Work h e f rest e') (hs : e.stack = f :: rest) :
    RuleStep s e m none (e'.ruleSide s) := by
  cases hw with
  | pop ho => exact over_ruleStep hs ho
  | aside hf _ _ hp =>
    exact .unseen ((hp.ruleSide s).trans (ruleSide_pop hs (Frame.ruleWork?_of_isPlain hf)))
  | pass hsk ht hd => exact skips_ruleStep hs hsk ht hd
  | tell hsk ht => exact tell_ruleStep hs hsk ht
  | attempt hcl => exact calls_ruleStep hs hcl
  | evaluate hp hev =>
    have hf : f.ruleWork? s = none := by cases f <;> simp_all [Frame.purpose?, Frame.ruleWork?]
    have hpop := ruleSide_pop hs hf
    cases hev with
    | onward hplain => exact .unseen ((hplain.ruleSide s).trans hpop)
    | nothing hplain =>
      exact .unseen (((plain_unselected _ _ _).ruleSide s).trans ((hplain.ruleSide s).trans hpop))
    | found => exact .pop hs hf (ruleRelisted_resolve _ _ _)

theorem Handles.ruleStep {h : Host ν} (hh : Handles h e f rest e') (hs : e.stack = f :: rest) :
    RuleStep s e m none (e'.ruleSide s) := by
  cases hh with
  | work hw => exact hw.ruleStep hs
  | lose =>
    rw [ruleSide_invalidate]
    exact .skip (ruleWorks_cons hs rfl) nofun
  | @drop t key i y queue rest hy =>
    by_cases hi : i = s
    · subst hi
      have hstep := RuleStep.drop (m := m) (ruleWorks_cons (s := i) hs rfl)
      simpa [ruleSide, ruleSetOf, ruleSet?, hy, ruleListeners, ruleWorks, ruleHearings, Frame.ruleWork?]
        using hstep
    · have hstep := RuleStep.skip (m := m) (ruleWorks_cons (s := s) hs rfl) (by simp [hi])
      simpa [ruleSide, ruleSetOf, ruleSet?, ruleListeners, ruleWorks, ruleHearings, Frame.ruleWork?, hi]
        using hstep
  | restart => exact .pop hs rfl (ruleRelisted_startResolving _ _)
  | removeEdge => exact .unseen ((ruleSide_removeEdge _ _).trans (ruleSide_turn hs rfl))
  | @removeNode t key rest =>
    rw [ruleSide_removeNode]
    exact .gone (ruleWorks_cons hs rfl)
  | @removeRule i id ids rest =>
    by_cases hi : i = s
    · subst hi
      have hworks := ruleWorks_cons hs (Frame.ruleWork?_ruleRemoval i (id :: ids))
      have hside : (e.withStack (.ruleRemoval i ids :: rest)).ruleSide i =
          { e.ruleSide i with works := .removal ids :: (e.withStack rest).ruleWorks i } := by
        rw [ruleSide_withStack, List.filterMap_cons, Frame.ruleWork?_ruleRemoval]
        rfl
      rcases removeRule_ruleSide (e.withStack (.ruleRemoval i ids :: rest)) i id
        with ⟨hmiss, heq⟩ | ⟨rule, hfound, heq⟩
      · rw [heq, hside]
        exact .miss hworks hmiss
      · rw [heq, hside]
        exact .remove hworks hfound
    · rw [ruleSide_removeOther _ _ hi]
      exact .unseen (ruleSide_turn hs (by simp [Frame.ruleWork?, hi]))

/-- A rule comes and is told of. -/
theorem ruleSide_addRule {tag : RuleTag} {name : String} {boundTo : Option Ty} (hs : s < e.systems.length) :
    (e.call (.addRule s tag name boundTo)).ruleSide s =
      e.rulesAnnounced s (.added (e.ruleSetOf s).nextId boundTo)
        { e.ruleSide s with set := (e.ruleSetOf s).add tag name boundTo } := by
  obtain ⟨y, hy⟩ : ∃ y, e.systems[s]? = some y := ⟨_, List.getElem?_eq_getElem hs⟩
  have hset : e.ruleSetOf s = y.rules := by simp [ruleSetOf, ruleSet?, hy]
  simp only [call, hy, hset]
  refine (ruleSide_notifyRules (y.rules.add tag name boundTo) hy ?_ ?_).trans ?_
  · rw [push_systems]
    refine List.ext_getElem? fun i => ?_
    simp only [updateSystem, log, report, List.getElem?_modify]
    by_cases hi : s = i
    · subst hi
      simp [hy]
    · simp [hi]
  · rw [push_gone]
    rfl
  · rw [push_eq _ rfl]
    simp [ruleSide, ruleWorks, ruleHearings, log, report, updateSystem, Frame.ruleWork?,
      Report.ruleHearing?, Report.telling?]

theorem ruleSide_addOther {tag : RuleTag} {name : String} {boundTo : Option Ty} (hi : i ≠ s) :
    (e.call (.addRule i tag name boundTo)).ruleSide s = e.ruleSide s := by
  simp only [call]
  split
  · exact ruleSide_finish _ _
  · refine (ruleSide_notifyOther _ _ hi).trans ((ruleSide_deliver _ _).trans ?_)
    exact (ruleSide_updateSystem _ _ hi).trans (ruleSide_report e rfl)

/-- A new system has no rules and nobody who listens to them, like one that does not exist. -/
theorem ruleSide_addSystem (e : Engine ν) (config : Config) (printer : Printer ν) (comparisons : Comparisons) :
    (e.call (.addSystem config printer comparisons)).ruleSide s = e.ruleSide s := by
  simp only [call]
  rw [ruleSide_finish]
  simp only [ruleSide, ruleSetOf, ruleSet?, ruleListeners, ruleWorks, ruleHearings]
  rcases Nat.lt_trichotomy s e.systems.length with hs | rfl | hs
  · simp [List.getElem?_append_left hs]
  · simp
  · have hold : e.systems[s]? = none := List.getElem?_eq_none (Nat.le_of_lt hs)
    have hnew : ∀ y : System ν, (e.systems ++ [y])[s]? = none := by
      intro y
      simp only [List.getElem?_eq_none_iff, List.length_append, List.length_singleton]
      omega
    rw [hold, hnew]

/-- The rules bound to a type begin to go when it begins to leave the graph. -/
theorem ruleSide_removeType {t : Ty} {key : String} (hkey : e.graph.keyOf? t = some key) :
    (e.call (.removeType t)).ruleSide s = { e.ruleSide s with works := .leaving t :: e.ruleWorks s } := by
  simp only [call, hkey]
  rw [push_eq _ rfl, push_eq _ rfl]
  simp [ruleSide, ruleSetOf, ruleSet?, ruleListeners, ruleWorks, ruleHearings, Frame.ruleWork?]

theorem removeRule_ruleStep (i : SystemId) (id : RuleId) :
    RuleStep s e (.call (.removeRule i id)) (e.ruleAct? s (.call (.removeRule i id)))
      ((e.call (.removeRule i id)).ruleSide s) := by
  have hdeliver := ruleSide_deliver (s := s) e (.flag (e.systems[i]?.bind (·.rules.find? id)).isSome)
  by_cases hi : i = s
  · subst hi
    simp only [ruleAct?, if_pos, call]
    rcases removeRule_ruleSide (e.push (.deliver
      (.flag (e.systems[i]?.bind (·.rules.find? id)).isSome))) i id with ⟨hnone, heq⟩ | ⟨rule, hfound, heq⟩
    · rw [heq, hdeliver]
      exact .removeNone rfl hnone
    · rw [heq, hdeliver]
      exact .removeRule rfl hfound
  · simp only [ruleAct?, if_neg hi]
    exact .unseen ((ruleSide_removeOther _ _ hi).trans hdeliver)

theorem ruleSide_listenToReference (e : Engine ν) (r : ReferenceId) (o : Observer) (inform : Bool) :
    (e.call (.listenToReference r o inform)).ruleSide s = e.ruleSide s := by
  simp only [call]
  split
  · split
    · exact (ruleSide_telling _ rfl).trans (ruleSide_deliver _ _)
    · exact (ruleSide_telling _ rfl).trans (ruleSide_deliver _ _)
  · exact ruleSide_deliver _ _

theorem ruleSide_addChecks (e : Engine ν) (i : SystemId) (checks : List CheckTag) :
    (e.call (.addChecks i checks)).ruleSide s = e.ruleSide s := by
  refine (ruleSide_finish _ _).trans ?_
  by_cases hi : i = s
  · subst hi
    cases hy : e.systems[i]? <;>
      simp [ruleSide, ruleSetOf, ruleSet?, ruleListeners, ruleWorks, ruleHearings, updateSystem, hy]
  · exact ruleSide_updateSystem _ _ hi

theorem call_ruleStep {c : Call ν} (hk : e.knows c) :
    RuleStep s e (.call c) (e.ruleAct? s (.call c)) ((e.call c).ruleSide s) := by
  cases c with
  | addSystem config printer comparisons => exact .unseen (ruleSide_addSystem _ _ _ _)
  | addType t key =>
    simp only [call]
    split
    · exact .unseen (ruleSide_finish _ _)
    · exact .unseen (ruleSide_finish _ _)
    · exact .unseen ((ruleSide_notifyGraph _ (by simp)).trans
        ((ruleSide_deliver _ _).trans (ruleSide_report { e with graph := _ } rfl)))
  | removeType t =>
    cases hkey : e.graph.keyOf? t with
    | none =>
      simp only [call, ruleAct?, hkey]
      exact .unseen (ruleSide_finish _ _)
    | some key =>
      rw [ruleSide_removeType hkey]
      simp only [ruleAct?, hkey]
      exact .leave rfl
  | addEdge x =>
    simp only [call]
    split
    · exact .unseen (ruleSide_finish _ _)
    · exact .unseen (ruleSide_finish _ _)
    · exact .unseen ((ruleSide_notifyGraph _ (by simp)).trans
        ((ruleSide_deliver _ _).trans (ruleSide_report { e with graph := _ } rfl)))
  | removeEdge x => exact .unseen ((ruleSide_removeEdge _ _).trans (ruleSide_deliver _ _))
  | listenToGraph o => exact .unseen ((ruleSide_finish _ _).trans rfl)
  | watchRemoval t o => exact .unseen ((ruleSide_finish _ _).trans rfl)
  | leaveGraph id => exact .unseen ((ruleSide_finish _ _).trans rfl)
  | compare relation actual expected =>
    exact .unseen ((ruleSide_finish _ _).trans
      ((plain_compareIn (p := none) e .graph relation actual expected).ruleSide s))
  | addRule i tag name boundTo =>
    by_cases hi : i = s
    · subst hi
      rw [ruleSide_addRule (of_decide_eq_true hk)]
      simp only [ruleAct?, if_pos]
      exact .addRule rfl
    · rw [ruleSide_addOther hi]
      simp only [ruleAct?, if_neg hi]
      exact .unseen rfl
  | removeRule i id => exact removeRule_ruleStep i id
  | listenToRules i o =>
    refine .relist ?_
    simp only [call]
    rw [ruleSide_finish]
    refine .of_modify (·.add () (.observer o)) rfl rfl rfl rfl fun hi => ?_
    subst hi
    exact .listen rfl
  | leaveRules i id =>
    refine .relist ?_
    simp only [call]
    rw [ruleSide_finish]
    refine .of_modify (·.remove id) rfl rfl rfl rfl fun hi => ?_
    subst hi
    exact .leave rfl
  | infer i n => exact .unseen ((plain_infer (p := none) e i n .inquiry (.inl rfl)).ruleSide s)
  | trySelect i selector =>
    exact .unseen ((plain_select (p := none) e i .trial selector (by simp)).ruleSide s)
  | mustSelect i selector =>
    exact .unseen ((plain_select (p := none) e i .demand selector (by simp)).ruleSide s)
  | addReference i selector =>
    simp only [knows, Bool.and_eq_true, decide_eq_true_eq] at hk
    rw [addReference_eq hk.2, (plain_attempt _ _).ruleSide]
    refine .relist (.of_modify (·.add () (.reference e.references.length)) rfl rfl ?_ rfl fun _ => .enter)
    simp [ruleWorks, subscribe, Frame.ruleWork?]
  | listenToReference r o inform => exact .unseen (ruleSide_listenToReference _ _ _ _)
  | leaveReference r o => exact .unseen (ruleSide_finish _ _)
  | deconstruct r =>
    have hstep := ruleRelisted_deconstruct (s := s) (m := .call (.deconstruct r)) e r
    rw [← ruleSide_finish _ .done] at hstep
    exact .relist hstep
  | relate request => exact .unseen ((plain_relate (p := none) e request).ruleSide s)
  | addChecks i checks => exact .unseen (ruleSide_addChecks _ _ _)
  | validate i n => exact .unseen (ruleSide_push _ rfl fun _ hq => by cases hq)

/-- What a move does to the side of a rule set. -/
theorem move?_ruleStep (hm : e.move? m = some e') (s : SystemId) :
    RuleStep s e m (e.ruleAct? s m) (e'.ruleSide s) := by
  cases m with
  | call c =>
    simp only [move?] at hm
    split at hm
    · rename_i hc
      rw [Bool.and_eq_true] at hc
      cases hm
      exact call_ruleStep hc.2
    · cases hm
  | answer a =>
    obtain ⟨f, rest, hs, hh⟩ := answer_handles (answering_answers hm) hm
    exact hh.ruleStep hs
  | work =>
    obtain ⟨f, rest, hs, hh⟩ := tick_handles (h := Host.answering .done) hm
    exact hh.ruleStep hs
  | forget o =>
    cases hm
    unfold forget
    split
    · exact .unseen rfl
    · exact .forget rfl
  | retire i =>
    cases hm
    refine .unseen ?_
    unfold retire
    split <;> rfl

end Inversion

end Engine
end LiveTypes
