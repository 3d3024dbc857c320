import LiveTypes.Proofs.Quiet
import LiveTypes.Proofs.TypeGraph

/-!
# What selectors are resolved against

Apart from references, a selection looks at the keys of the graph and at the rules of its system. Most
moves leave both as they are (`Engine.Still`); the lemmas here say what the others do to them.
-/
namespace LiveTypes

variable {ν : Type}

/-! ## Rules -/

/-- No two rules of a set have the same number. -/
def RuleSet.Distinct (set : RuleSet) : Prop := (set.rules.map (·.id)).Nodup

/-- A rule of the set that is bound to a type infers that type only. -/
def RuleSet.Honest (h : Host ν) (set : RuleSet) : Prop :=
  ∀ rule ∈ set.rules, ∀ t, rule.boundTo = some t →
    ∀ n t', (h.outcome rule n).type? = some t' → t' = t

namespace RuleSet

variable {h : Host ν} {set : RuleSet}

/-- The numbers of the rules bound to a type are of such rules only. -/
theorem Distinct.of_boundTo (hs : set.Distinct) {t : Ty} {id : RuleId} (hid : id ∈ set.boundTo t)
    {rule : Rule} (hr : rule ∈ set.rules) (he : rule.id = id) : rule.boundTo = some t := by
  obtain ⟨other, ho, rfl⟩ := List.mem_map.1 hid
  obtain ⟨ho, hb⟩ := List.mem_filter.1 ho
  rw [List.inj_on_of_nodup_map hs hr ho he]
  simpa using hb

theorem honest_new : ({} : RuleSet).Honest h := by simp [Honest]

theorem Honest.add (hs : set.Honest h) {tag : RuleTag} {name : String} {boundTo : Option Ty}
    (hb : ∀ t, boundTo = some t → ∀ id n t', (h.outcome ⟨id, tag, name, boundTo⟩ n).type? = some t' → t' = t) :
    (set.add tag name boundTo).Honest h := by
  intro rule hr
  rcases List.mem_append.1 hr with hr | hr
  · exact hs rule hr
  · rw [List.mem_singleton.1 hr]
    exact fun t ht => hb t ht set.nextId

theorem Honest.remove (hs : set.Honest h) (id : RuleId) : (set.remove id).Honest h :=
  fun rule hr => hs rule (List.mem_of_mem_eraseP hr)

end RuleSet

namespace Host

variable (h : Host ν)

/-- A rule that comes last matters only where the others infer nothing. -/
theorem inferFrom_append (n : ν) (rules : List Rule) (rule : Rule) :
    h.inferFrom n (rules ++ [rule]) = (h.inferFrom n rules).or (h.outcome rule n).type? := by
  simp only [inferFrom, List.findSome?_append, List.findSome?_cons, List.findSome?_nil]
  cases (h.outcome rule n).type? <;> rfl

/-- Without a rule that infers one type only, another type is inferred as before. -/
theorem inferFrom_eraseP {t : Ty} (n : ν) (rules : List Rule) (p : Rule → Bool)
    (hp : ∀ rule ∈ rules, p rule → ∀ t', (h.outcome rule n).type? = some t' → t' = t)
    (ht : h.inferFrom n rules ≠ some t) : h.inferFrom n (rules.eraseP p) = h.inferFrom n rules := by
  induction rules with
  | nil => rfl
  | cons rule rules ih =>
    by_cases hr : p rule
    · rw [List.eraseP_cons_of_pos hr]
      cases ho : (h.outcome rule n).type? with
      | none => simp [inferFrom, ho]
      | some t' =>
        rw [hp rule (by simp) hr t' ho] at ho
        simp [inferFrom, ho] at ht
    · rw [List.eraseP_cons_of_neg hr]
      cases ho : (h.outcome rule n).type? with
      | some t' => simp [inferFrom, ho]
      | none =>
        have ht : h.inferFrom n rules ≠ some t := by simpa [inferFrom, ho] using ht
        have := ih (fun rule hm => hp rule (List.mem_cons_of_mem _ hm)) ht
        simpa [inferFrom, ho] using this

end Host

/-- Whether a call may change keys or rules by itself. -/
def Call.furnishes : Call ν → Bool
  | .addSystem _ _ _ => true
  | .addType _ _ => true
  | .addRule _ _ _ _ => true
  | .removeRule _ _ => true
  | _ => false

namespace Engine

/-! ## What does not change -/

/-- The rules of a system, if it exists. -/
def ruleSet? (e : Engine ν) (s : SystemId) : Option RuleSet := e.systems[s]?.map (·.rules)

theorem rulesOf_eq (e : Engine ν) (s : SystemId) : e.rulesOf s = (e.ruleSet? s).elim [] (·.rules) := by
  unfold rulesOf ruleSet?
  cases e.systems[s]? <;> rfl

/-- Keys and rules are as before. -/
structure Still (e e' : Engine ν) : Prop where
  keys : e'.graph.nodes = e.graph.nodes
  rules : ∀ s, e'.ruleSet? s = e.ruleSet? s

namespace Still

variable {e e' e'' : Engine ν} {p : Option Purpose}

theorem of_eq (hg : e'.graph = e.graph) (hs : e'.systems = e.systems) : Still e e' :=
  ⟨by rw [hg], fun s => by rw [ruleSet?, ruleSet?, hs]⟩

theorem refl (e : Engine ν) : Still e e := .of_eq rfl rfl

theorem withStack (e : Engine ν) (frames : List (Frame ν)) : Still e (e.withStack frames) :=
  .of_eq rfl rfl

theorem trans (h : Still e e') (h' : Still e' e'') : Still e e'' :=
  ⟨h'.keys.trans h.keys, fun s => (h'.rules s).trans (h.rules s)⟩

/-- A system changes, but not its rules. -/
theorem of_modify {s : SystemId} {f : System ν → System ν} (hg : e'.graph = e.graph)
    (hs : e'.systems = e.systems.modify s f) (hf : ∀ y, (f y).rules = y.rules) : Still e e' := by
  refine ⟨by rw [hg], fun i => ?_⟩
  rw [ruleSet?, ruleSet?, hs, List.getElem?_modify]
  cases e.systems[i]? with
  | none => rfl
  | some y => by_cases hi : s = i <;> simp [hi, hf]

theorem plain (h : Plain p e e') : Still e e' := .of_eq h.graph h.systems

theorem get? (h : Still e e') (key : String) : e'.graph.get? key = e.graph.get? key := by
  rw [Graph.get?, Graph.get?, h.keys]

theorem rulesOf (h : Still e e') (s : SystemId) : e'.rulesOf s = e.rulesOf s := by
  rw [rulesOf_eq, rulesOf_eq, h.rules]

/-- With the same keys and rules, a selector gives the same unless the reference it reads has changed. -/
theorem find? (h : Still e e') (host : Host ν) {s : SystemId} {selector : Selector ν}
    (ht : ∀ source, selector.source? = some source → e'.typeOf? source = e.typeOf? source) :
    host.find? e' s selector = host.find? e s selector :=
  host.find?_congr h.get? (h.rulesOf s) ht

theorem notifyGraph (e : Engine ν) (event : GraphEvent) : Still e (e.notifyGraph event) := by
  rw [notifyGraph_eq]
  exact .of_eq (push_graph _ _) (push_systems _ _)

theorem notifyRules (e : Engine ν) (s : SystemId) (event : RuleEvent) :
    Still e (e.notifyRules s event) := by
  cases hs : e.systems[s]? with
  | none =>
    simp only [Engine.notifyRules, hs]
    exact .refl e
  | some y =>
    rw [notifyRules_eq e hs]
    exact .of_modify (push_graph _ _) (push_systems _ _) fun _ => rfl

theorem removeEdge (e : Engine ν) (edge : Edge) : Still e (e.removeEdge edge) := by
  unfold Engine.removeEdge
  split
  · refine .trans ?_ (.notifyGraph _ _)
    exact ⟨rfl, fun _ => rfl⟩
  · exact .refl e

theorem resolve (e : Engine ν) (r : ReferenceId) (t : Ty) : Still e (e.resolve r t) := by
  rcases resolve_cases e r t with ⟨heq, -⟩ | ⟨x, subs, ht⟩
  · rw [heq]
    exact .refl e
  · exact .of_modify ht.graph ht.systems fun _ => rfl

theorem invalidate (e : Engine ν) (r : ReferenceId) (t : Ty) : Still e (e.invalidate r t) := by
  rcases invalidate_cases e r t with ⟨heq, -⟩ | ⟨x, watch, hl⟩
  · rw [heq]
    exact .refl e
  · exact .of_eq hl.graph hl.systems

theorem subscribe (e : Engine ν) (r : ReferenceId) (s : SystemId) : Still e (e.subscribe r s) :=
  .of_modify rfl rfl fun _ => rfl

theorem startResolving (e : Engine ν) (r : ReferenceId) : Still e (e.startResolving r) := by
  rcases startResolving_cases e r with ⟨heq, -⟩ | ⟨x, -, -, heq⟩
  · rw [heq]
    exact .refl e
  · rw [heq]
    exact (Still.subscribe e r x.system).trans (.plain (plain_attempt _ r))

theorem deconstruct (e : Engine ν) (r : ReferenceId) : Still e (e.deconstruct r) := by
  rcases deconstruct_cases e r with heq | ⟨x, hst⟩
  · rw [heq]
    exact .refl e
  · have hs := hst.systems
    unfold ReferenceState.leaveRules at hs
    split at hs
    · exact .of_modify hst.graph hs fun _ => rfl
    · exact .of_eq hst.graph hs

theorem selected (e : Engine ν) (p : Purpose) (t : Ty) : Still e (e.selected p t) := by
  rcases selected_cases e p t with hp | ⟨r, -, heq⟩
  · exact .plain hp
  · rw [heq]
    exact .resolve e r t

end Still

/-- Work leaves keys and rules as they are. -/
theorem Work.still {h : Host ν} {e e' : Engine ν} {f : Frame ν} {rest : List (Frame ν)}
    (hw : Work h e f rest e') : Still e e' := by
  have stack := Still.withStack e
  cases hw with
  | pop => exact stack _
  | aside _ _ _ hp => exact (stack _).trans (.plain hp)
  | pass => exact stack _
  | tell => exact (stack _).trans (.of_eq (push_graph _ _) (push_systems _ _))
  | attempt => exact (stack _).trans (.plain (plain_attempt _ _))
  | evaluate _ hev =>
    cases hev with
    | onward hp => exact (stack _).trans (.plain hp)
    | nothing hp => exact (stack _).trans ((Still.plain hp).trans (.plain (plain_unselected _ _ _)))
    | found => exact (stack _).trans (.selected _ _ _)

theorem call_still {e : Engine ν} {c : Call ν} (hc : c.furnishes = false) (hk : e.knows c) :
    Still e (e.call c) := by
  cases c with
  | addSystem => cases hc
  | addType => cases hc
  | addRule => cases hc
  | removeRule => cases hc
  | removeType t =>
    simp only [call]
    split
    · exact .of_eq rfl rfl
    · exact .of_eq rfl rfl
  | addEdge edge =>
    cases hg : e.graph.addEdge edge with
    | refused error =>
      simp only [call, hg]
      exact .of_eq rfl rfl
    | present =>
      simp only [call, hg]
      exact .of_eq rfl rfl
    | added graph =>
      obtain ⟨-, -, -, rfl⟩ := Graph.addEdge_added hg
      simp only [call, hg]
      refine .trans ?_ (.notifyGraph _ _)
      exact ⟨rfl, fun _ => rfl⟩
  | removeEdge edge =>
    refine .trans ?_ (.removeEdge _ edge)
    exact .of_eq rfl rfl
  | listenToGraph o => exact .of_eq rfl rfl
  | watchRemoval t o => exact .of_eq rfl rfl
  | leaveGraph id => exact .of_eq rfl rfl
  | compare relation actual expected =>
    exact (Still.plain (plain_compareIn (p := none) e .graph relation actual expected)).trans
      (.of_eq rfl rfl)
  | listenToRules s o => exact .of_modify rfl rfl fun _ => rfl
  | leaveRules s id => exact .of_modify rfl rfl fun _ => rfl
  | infer s n => exact .of_eq rfl rfl
  | trySelect s selector => exact .of_eq rfl rfl
  | mustSelect s selector => exact .of_eq rfl rfl
  | addReference s selector =>
    simp only [knows, Bool.and_eq_true] at hk
    rw [addReference_eq hk.2]
    refine .trans ?_ (.plain (plain_attempt _ _))
    exact .of_modify rfl rfl fun _ => rfl
  | listenToReference r o inform =>
    simp only [call]
    split
    · split
      · exact .of_eq rfl rfl
      · exact .of_eq rfl rfl
    · exact .of_eq rfl rfl
  | leaveReference r o => exact .of_eq rfl rfl
  | deconstruct r => exact (Still.deconstruct e r).trans (.of_eq rfl rfl)
  | relate request => exact .plain (p := none) (plain_relate e request)
  | addChecks s checks => exact .of_modify rfl rfl fun _ => rfl
  | validate s n => exact .of_eq rfl rfl

/-! ## What changes keys and rules -/

/-- A type was added, and those who listen to the graph are being told. -/
structure TypeAdded (e : Engine ν) (t : Ty) (key : String) (e' : Engine ν) : Prop where
  free : e.graph.get? key = none
  nodes : e'.graph.nodes = e.graph.nodes.insert key t
  systems : e'.systems = e.systems
  references : e'.references = e.references
  stack : ∃ result, e'.stack = .graphPass (.addedType t key)
    (e.listeners.listeners e.hearsGraph Option.isNone) :: .deliver result :: e.stack

/-- A type was taken from its key, and those who listen to the graph are being told. -/
structure NodeRemoved (e : Engine ν) (t : Ty) (key : String) (e' : Engine ν) : Prop where
  graph : e'.graph = e.graph.freeKey key
  systems : e'.systems = e.systems
  references : e'.references = e.references
  stack : e'.stack = .graphPass (.removedType t key)
    (e.listeners.listeners e.hearsGraph fun watched => watched.isNone || watched = some t) :: e.stack

/-- The rules of a system were changed, and those who listen to them are being told. -/
structure RulesChanged (e : Engine ν) (s : SystemId) (set : RuleSet) (event : RuleEvent) (e' : Engine ν) :
    Prop where
  graph : e'.graph = e.graph
  references : e'.references = e.references
  rules : ∀ i, e'.ruleSet? i = if i = s then some set else e.ruleSet? i
  stack : ∃ y, e.systems[s]? = some y ∧
    e'.stack = .rulePass s event (y.listeners.listeners e.hearsRules fun _ => true) :: e.stack

section Changes

variable {e e' : Engine ν}

theorem typeOf?_of_core (hc : ∀ i, e'.core? i = e.core? i) (r : ReferenceId) :
    e'.typeOf? r = e.typeOf? r := by
  rw [typeOf?_eq_core, typeOf?_eq_core, hc]

namespace RulesChanged

variable {s i : SystemId} {set : RuleSet} {event : RuleEvent} (hc : RulesChanged e s set event e')
include hc

theorem core? (r : ReferenceId) : e'.core? r = e.core? r := by rw [Engine.core?, Engine.core?, hc.references]

theorem rulesOf_self : e'.rulesOf s = set.rules := by
  rw [rulesOf_eq, hc.rules, if_pos rfl]
  rfl

theorem rulesOf_other (hi : i ≠ s) : e'.rulesOf i = e.rulesOf i := by
  rw [rulesOf_eq, rulesOf_eq, hc.rules, if_neg hi]

end RulesChanged

theorem typeAdded_call {graph : Graph} {t : Ty} {key : String} (hg : e.graph.addType t key = .added graph) :
    TypeAdded e t key (e.call (.addType t key)) := by
  obtain ⟨hfree, -, rfl⟩ := Graph.addType_added hg
  simp only [call, hg]
  exact ⟨hfree, rfl, rfl, rfl, _, rfl⟩

theorem call_addType (e : Engine ν) (t : Ty) (key : String) :
    (∃ result, e.call (.addType t key) = e.finish result) ∨
      TypeAdded e t key (e.call (.addType t key)) := by
  cases hg : e.graph.addType t key with
  | refused error =>
    refine .inl ⟨.addition (.error error), ?_⟩
    simp only [call, hg]
  | present =>
    refine .inl ⟨.addition (.ok ()), ?_⟩
    simp only [call, hg]
  | added graph => exact .inr (typeAdded_call hg)

theorem removeNode_removed (e : Engine ν) (t : Ty) (key : String) :
    NodeRemoved e t key (e.removeNode t key) :=
  ⟨rfl, rfl, rfl, rfl⟩

/-- A change of the rules of a system, and the pass that tells of it. -/
theorem rulesChanged_notify {s : SystemId} {y : System ν} {set : RuleSet} {event : RuleEvent}
    (hy : e.systems[s]? = some y) (hg : e'.graph = e.graph) (hr : e'.references = e.references)
    (hgone : e'.gone = e.gone) (hst : e'.stack = e.stack)
    (hs : e'.systems = e.systems.modify s fun y => { y with rules := set }) :
    RulesChanged e s set event (e'.notifyRules s event) := by
  have hy' : e'.systems[s]? = some { y with rules := set } := by
    rw [hs, List.getElem?_modify_eq, hy]
    rfl
  have hnotify := Still.notifyRules e' s event
  refine ⟨?_, ?_, fun i => ?_, y, hy, ?_⟩
  · rw [notifyRules_eq e' hy', push_graph, ← hg]
    rfl
  · rw [notifyRules_eq e' hy', push_references, ← hr]
    rfl
  · rw [hnotify.rules, ruleSet?, ruleSet?, hs, List.getElem?_modify]
    by_cases hi : i = s
    · subst hi
      simp [hy]
    · simp [hi, Ne.symm hi]
  · rw [notifyRules_eq e' hy', push_stack, hearsRules_congr hgone, ← hst]
    rfl

/-- Only a node in the system can be given something else after a change of its rules. -/
theorem RulesChanged.find? {s : SystemId} {set : RuleSet} {event : RuleEvent}
    (hc : RulesChanged e s set event e') (h : Host ν) (i : SystemId) (selector : Selector ν) :
    (∃ n, selector = .node n ∧ i = s) ∨ h.find? e' i selector = h.find? e i selector := by
  have hget : ∀ key, e'.graph.get? key = e.graph.get? key := fun key => by rw [hc.graph]
  cases selector with
  | node n =>
    by_cases hi : i = s
    · exact .inl ⟨n, rfl, hi⟩
    · exact .inr (by simp only [Host.find?, hc.rulesOf_other hi])
  | type t => exact .inr rfl
  | identifier key => exact .inr (hget key)
  | initializer i => exact .inr rfl
  | reference source => exact .inr (typeOf?_of_core hc.core? source)
  | deferred d => exact .inr rfl

theorem call_addRule {s : SystemId} {y : System ν} (hy : e.systems[s]? = some y) (tag : RuleTag)
    (name : String) (boundTo : Option Ty) :
    ∃ result, RulesChanged (e.withStack (.deliver result :: e.stack)) s (y.rules.add tag name boundTo)
      (.added y.rules.nextId boundTo) (e.call (.addRule s tag name boundTo)) := by
  refine ⟨.rule y.rules.nextId, ?_⟩
  simp only [call, hy]
  refine rulesChanged_notify hy rfl rfl rfl rfl ?_
  refine List.ext_getElem? fun i => ?_
  rw [push_systems]
  simp only [updateSystem, log, report, List.getElem?_modify]
  by_cases hi : s = i
  · subst hi
    simp [hy]
  · simp [hi]

/-- A rule is removed if it is there. -/
theorem removeRule_cases (e : Engine ν) (s : SystemId) (id : RuleId) :
    e.removeRule s id = e ∨ ∃ y rule, e.systems[s]? = some y ∧ y.rules.find? id = some rule ∧
      RulesChanged e s (y.rules.remove id) (.removed id rule.boundTo) (e.removeRule s id) := by
  cases hf : e.systems[s]?.bind (·.rules.find? id) with
  | none =>
    refine .inl ?_
    simp only [removeRule, hf]
  | some rule =>
    obtain ⟨y, hy, hr⟩ := Option.bind_eq_some_iff.1 hf
    refine .inr ⟨y, rule, hy, hr, ?_⟩
    simp only [removeRule, hf]
    refine rulesChanged_notify hy rfl rfl rfl rfl ?_
    refine List.ext_getElem? fun i => ?_
    simp only [updateSystem, log, report, List.getElem?_modify]
    by_cases hi : s = i
    · subst hi
      simp [hy]
    · simp [hi]

end Changes

end Engine
end LiveTypes
