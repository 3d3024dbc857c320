import LiveTypes.Proofs.Furnishing

/-!
# What a quiet run rests on

In a quiet run a key holds one type, a bound rule infers its own type only, and a type system listens to
the graph for longer than its references. `Engine.Grounded` collects what holds at every moment of such a
run, whatever is under way.
-/
namespace LiveTypes

variable {ν : Type}

namespace Engine

/-! ## Who hears of a removal first -/

/-- The number under which a system listens to the graph. -/
def subscription? (e : Engine ν) (s : SystemId) : Option Nat := e.systems[s]?.map (·.subscription)

/-- Every system listens to the graph, and has done so for longer than the references in it. -/
structure Listed (e : Engine ν) : Prop where
  held : ∀ s, e.listeners.held (.system s) =
    ((e.subscription? s).map fun id => ⟨id, none, .system s⟩).toList
  older : ∀ (r : ReferenceId) (x : Reference ν) (id : Nat), e.core? r = some x →
    e.subscription? x.system = some id → ∀ z ∈ e.listeners.held (.reference r), id < z.id

section Listed

variable {e e' : Engine ν} {g : GraphListener → Bool} {k : RuleListener → Bool}

theorem Keeping.subscription? (hk : Keeping g k e e') (s : SystemId) :
    e'.subscription? s = e.subscription? s := by
  unfold Engine.subscription?
  cases hy' : e'.systems[s]? with
  | some y' =>
    obtain ⟨y, hy, hs, -⟩ := hk.systems s y' hy'
    simp [hy, hs]
  | none =>
    have : e.systems[s]? = none := by
      rw [List.getElem?_eq_none_iff, ← hk.housed]
      exact List.getElem?_eq_none_iff.1 hy'
    rw [this]

theorem Numbered.subscription?_lt (h : Numbered e) {s : SystemId} {id : Nat}
    (hs : e.subscription? s = some id) : id < e.listeners.nextId := by
  obtain ⟨y, hy, rfl⟩ := Option.map_eq_some_iff.1 hs
  exact (h.own s y hy).1

/-- What a reference has among the listeners of the graph is newer, if it is new. -/
theorem Listed.keeping (h : Listed e) (hn : Numbered e) (hk : Keeping g k e e')
    (hg : ∀ s, g (.system s))
    (hc : ∀ r x', e'.core? r = some x' → (∃ x, e.core? r = some x ∧ x'.system = x.system) ∨
      e.listeners.held (.reference r) = []) : Listed e' := by
  refine ⟨fun s => ?_, fun r x' id hx' hid z hz => ?_⟩
  · rw [hk.graph.held _ (hg s), hk.subscription?]
    exact h.held s
  · rw [hk.subscription?] at hid
    obtain ⟨hm, hl⟩ := Registry.mem_held.1 hz
    rcases hk.graph.old z hm with hold | hnew
    · have hz : z ∈ e.listeners.held (.reference r) := Registry.mem_held.2 ⟨hold, hl⟩
      rcases hc r x' hx' with ⟨x, hx, hs⟩ | hnil
      · exact h.older r x id hx (hs ▸ hid) z hz
      · simp [hnil] at hz
    · exact Nat.lt_of_lt_of_le (hn.subscription?_lt hid) hnew

/-- References stay at home. -/
theorem Listed.kept (h : Listed e) (hn : Numbered e) (hk : Keeping g k e e') (hg : ∀ s, g (.system s))
    (hc : ∀ r, (e'.core? r).map (·.system) = (e.core? r).map (·.system)) : Listed e' := by
  refine h.keeping hn hk hg fun r x' hx' => .inl ?_
  have := hc r
  rw [hx', Option.map_some] at this
  obtain ⟨x, hx, hs⟩ := Option.map_eq_some_iff.1 this.symm
  exact ⟨x, hx, hs.symm⟩

theorem Listed.calm {p : Option Purpose} (h : Listed e) (hn : Numbered e) (hc : Calm p e e') :
    Listed e' :=
  h.kept hn hc.toKeeping (fun _ => rfl) fun r => by rw [hc.core?]

/-- Where a reference is at home does not depend on its state. -/
theorem system_setState {r : ReferenceId} {x : Reference ν} {state : ReferenceState}
    (hx : e.references[r]? = some x)
    (he' : e'.references = e.references.modify r fun y => { y with state }) (i : ReferenceId) :
    (e'.core? i).map (·.system) = (e.core? i).map (·.system) := by
  rw [core?_setState hx state he']
  by_cases hi : i = r
  · rw [if_pos hi, hi, core?_eq hx]
    rfl
  · rw [if_neg hi]

theorem subscription?_addSystem {y₀ : System ν} (hs : e'.systems = e.systems ++ [y₀]) {s : SystemId}
    (hl : s < e.systems.length) : e'.subscription? s = e.subscription? s := by
  rw [subscription?, subscription?, hs, List.getElem?_append_left hl]

/-- A new system listens to the graph, and each of the others as before. -/
theorem held_addSystem {y₀ : System ν} {s : SystemId}
    (h : e.listeners.held (.system s) =
      ((e.subscription? s).map fun id => ⟨id, none, .system s⟩).toList)
    (hn : y₀.subscription = e.listeners.nextId) (hs : e'.systems = e.systems ++ [y₀])
    (hg : e'.listeners = e.listeners.add none (.system e.systems.length)) :
    e'.listeners.held (.system s) =
      ((e'.subscription? s).map fun id => ⟨id, none, .system s⟩).toList := by
  rw [hg]
  by_cases hl : s < e.systems.length
  · rw [subscription?_addSystem hs hl,
      Registry.held_add_of_ne _ _ (by simpa using Ne.symm (Nat.ne_of_lt hl))]
    exact h
  · have hnone : e.listeners.held (.system s) = [] := by
      rw [h, subscription?, List.getElem?_eq_none (Nat.le_of_not_lt hl)]
      rfl
    by_cases heq : s = e.systems.length
    · subst heq
      rw [Registry.held_add_self, hnone, subscription?, hs, List.getElem?_concat_length]
      simp [hn]
    · have : e.systems.length + 1 ≤ s := Nat.lt_of_le_of_ne (Nat.le_of_not_lt hl) (Ne.symm heq)
      rw [Registry.held_add_of_ne _ _ (by simpa using Ne.symm heq), hnone, subscription?, hs,
        List.getElem?_eq_none (by simpa using this)]
      rfl

theorem Listed.addSystem {y₀ : System ν} (h : Listed e) (hsub : Subscribed e)
    (hn : y₀.subscription = e.listeners.nextId) (hs : e'.systems = e.systems ++ [y₀])
    (hg : e'.listeners = e.listeners.add none (.system e.systems.length))
    (hc : ∀ r, e'.core? r = e.core? r) : Listed e' := by
  refine ⟨fun s => held_addSystem (h.held s) hn hs hg, fun r x id hx hid z hz => ?_⟩
  rw [hc] at hx
  rw [subscription?_addSystem hs (hsub.housed r x hx)] at hid
  rw [hg, Registry.held_add_of_ne _ _ (by simp)] at hz
  exact h.older r x id hx hid z hz

theorem step_listed {h : Host ν} {m : Move ν} (hl : Listed e) (hv : Lively e) (hsub : Subscribed e)
    (ha : h.Allows e m) (hstep : Step e m e') : Listed e' := by
  have stack : ∀ frames, Listed (e.withStack frames) := fun _ => ⟨hl.held, hl.older⟩
  have hown : Owned True e := hsub.owned
  have owned : ∀ frames, Owned True (e.withStack frames) := fun _ =>
    { hown with held := hown.held, heldRules := hown.heldRules, housed := hown.housed }
  have number : ∀ frames, Numbered (e.withStack frames) := fun _ => (owned _).toNumbered
  have hn := hsub.toNumbered
  have other : ∀ r s, otherGraph r (.system s) := fun _ _ => by simp [otherGraph]
  cases hstep with
  | calm hu hc =>
    cases hu with
    | call => exact hl.calm hn hc
    | done => exact (stack _).calm (number _) hc
    | read => exact (stack _).calm (number _) hc
  | enrol has he =>
    have hc : ∀ r, e'.core? r = e.core? r := fun r => by rw [core?, has.references]; rfl
    have kept : ∀ {g k}, Keeping g k e e' → (∀ s, g (.system s)) → Listed e' :=
      fun hk hg => hl.kept hn hk hg fun r => by rw [hc]
    cases he with
    | forget hlis hsys =>
      exact kept (g := fun _ => true) (k := fun _ => true) (.of_eq hlis hsys) fun _ => rfl
    | addSystem _ hid hsys hlis => exact hl.addSystem hsub hid hsys hlis hc
    | @leaveGraph id hm hlis hsys =>
      subst hm
      cases ha with
      | call _ hp =>
        refine kept (g := GraphListener.stays) (k := fun _ => true)
          (.of_graph (hlis ▸ .remove hsub.graph fun l hs z hz hid => ?_) hsys) fun _ => rfl
        obtain ⟨hzm, rfl⟩ := Registry.mem_held.1 hz
        rw [hp z hzm hid] at hs
        cases hs
    | @leaveRules s id hm hlis hsys =>
      refine kept (g := fun _ => true) (k := fun _ => false)
        (.of_modify (hlis ▸ .refl _ _) hsys fun y hy => ⟨rfl, .remove (hsub.rules s y hy) ?_⟩) fun _ => rfl
      intro l hl
      cases hl
    | retire hm =>
      subst hm
      cases ha
  | skip _ _ hc => exact (stack _).calm (number _) hc
  | attempt => exact (stack _).calm (number _) (plain_attempt _ _).calm
  | @lose t key queue rest r hs =>
    rcases invalidate_cases (e.withStack (.graphPass (.removedType t key) queue :: rest)) r t
      with ⟨heq, -⟩ | ⟨x, watch, hlost⟩
    · rw [heq]
      exact stack _
    · exact (stack _).kept (number _) ((owned _).keeping_invalidate hlost).1 (other r)
        (system_setState hlost.found hlost.references)
  | @restart rest r hs =>
    rcases startResolving_cases (e.withStack rest) r with ⟨heq, -⟩ | ⟨x, hx, hd, heq⟩
    · rw [heq]
      exact stack rest
    · have hr : e.restarts r ≠ 0 := by simp [restarts, hs, Frame.isRestartOf]
      rw [heq]
      refine Listed.calm ?_ ?_ (plain_attempt _ _).calm
      · exact (stack rest).kept (number _) (keeping_subscribe _ r x.system) (other r)
          (system_setState hx rfl)
      · exact ((owned rest).subscribe hx (hv.of_restart hx hd hr).1).toNumbered
  | @resolve f rest r t hs hp _ =>
    rcases resolve_cases (e.withStack rest) r t with ⟨heq, -⟩ | ⟨x, subs', ht⟩
    · rw [heq]
      exact stack rest
    · exact (stack rest).kept (number _) ((owned _).keeping_resolve ht).1 (other r)
        (system_setState ht.found ht.references)
  | @addReference s selector _ hsys hk =>
    rw [addReference_eq hk]
    have hnone : e.core? e.references.length = none := core?_eq_none.2 (Nat.le_refl _)
    have hnil : e.listeners.held (.reference e.references.length) = [] := by
      rw [hsub.held, hnone]
      rfl
    have enlisted : Listed { e with
        references := e.enlisted s selector
        stack := .deliver (.reference e.references.length) :: e.stack } := by
      refine hl.keeping (g := fun _ => true) (k := fun _ => true) hn (.of_eq rfl rfl) (fun _ => rfl)
        fun r x' hx' => ?_
      rw [core?_enlisted hk rfl] at hx'
      by_cases hr : r = e.references.length
      · exact .inr (hr ▸ hnil)
      · rw [if_neg hr] at hx'
        exact .inl ⟨x', hx', rfl⟩
    have hn' : Numbered { e with
        references := e.enlisted s selector
        stack := .deliver (.reference e.references.length) :: e.stack } := ⟨hn.graph, hn.rules, hn.own⟩
    refine Listed.calm ?_ (hn'.keeping (keeping_subscribe _ _ s)) (plain_attempt _ _).calm
    exact enlisted.kept hn' (keeping_subscribe _ _ s) (other _)
      (system_setState (enlisted_new hk) rfl)
  | @deconstruct r _ =>
    refine Listed.calm ?_ (hown.deconstruct r).toNumbered (.finish (p := none) _)
    rcases deconstruct_cases e r with heq | ⟨x, hst⟩
    · rwa [heq]
    · refine hl.kept hn (hown.keeping_deconstruct hst).1 (other r) fun i => ?_
      rw [core?_stopped hst.found hst.references]
      by_cases hi : i = r
      · rw [if_pos hi, hi, core?_eq hst.found]
        rfl
      · rw [if_neg hi]

end Listed

/-! ## Runs -/

/-- What holds at every moment of a quiet run, whatever is under way, if the rules of the systems that are
`sound` keep numbers of their own. -/
structure Grounded (h : Host ν) (sound : SystemId → Prop) (e : Engine ν) : Prop where
  lively : Lively e
  subscribed : Subscribed e
  tied : Tied e
  listed : Listed e
  honest : ∀ s set, e.ruleSet? s = some set → set.Honest h
  distinct : ∀ s, sound s → ∀ set, e.ruleSet? s = some set → set.Distinct

section Runs

variable {h : Host ν} {sound : SystemId → Prop} {e e' : Engine ν} {m : Move ν}

theorem grounded_new : Grounded h sound ({} : Engine ν) where
  lively := lively_new
  subscribed := subscribed_new
  tied := tied_new
  listed := ⟨fun _ => rfl, fun r x id hx => by simp [core?] at hx⟩
  honest := fun s set hs => by simp [ruleSet?] at hs
  distinct := fun s _ set hs => by simp [ruleSet?] at hs

/-- A quiet host ends no subscription of a reference. -/
theorem spares_of_allows (ha : h.Allows e m) : SparesReferences e m := by
  refine ⟨fun id hm r z hz hid => ?_, fun s id y hm hy r z hz hid => ?_⟩
  · subst hm
    obtain ⟨hz, hl⟩ := Registry.mem_held.1 hz
    cases ha with
    | call _ hp =>
      have hstays := hp z hz hid
      rw [hl] at hstays
      cases hstays
  · subst hm
    obtain ⟨hz, hl⟩ := Registry.mem_held.1 hz
    cases ha with
    | call _ hp =>
      have hstays := hp y hy z hz hid
      rw [hl] at hstays
      cases hstays

/-- A change of the rules of one system. -/
theorem honest_changed {s : SystemId} {set : RuleSet} {event : RuleEvent}
    (hh : ∀ s set, e.ruleSet? s = some set → set.Honest h) (hc : RulesChanged e s set event e')
    (hset : set.Honest h) (i : SystemId) (set' : RuleSet) (hi : e'.ruleSet? i = some set') :
    set'.Honest h := by
  rw [hc.rules] at hi
  by_cases his : i = s
  · rw [if_pos his] at hi
    exact Option.some.inj hi ▸ hset
  · rw [if_neg his] at hi
    exact hh i set' hi

theorem call_honest {c : Call ν} (hh : ∀ s set, e.ruleSet? s = some set → set.Honest h)
    (hp : h.Permits e c) (hc : e.knows c) :
    ∀ s set, (e.call c).ruleSet? s = some set → set.Honest h := by
  by_cases hf : c.furnishes = false
  · exact fun s set hset => hh s set ((call_still hf hc).rules s ▸ hset)
  · cases c with
    | addSystem config printer comparisons =>
      intro s set hset
      have hset : (e.systems ++ [_])[s]?.map (·.rules) = some set := hset
      obtain ⟨y, hy, rfl⟩ := Option.map_eq_some_iff.1 hset
      by_cases hl : s < e.systems.length
      · rw [List.getElem?_append_left hl] at hy
        exact hh s y.rules (by simp [ruleSet?, hy])
      · rw [List.getElem?_append_right (Nat.le_of_not_lt hl), List.getElem?_singleton] at hy
        split at hy
        · rw [← Option.some.inj hy]
          exact RuleSet.honest_new
        · cases hy
    | addType t key =>
      rcases call_addType e t key with ⟨result, heq⟩ | hadd
      · rw [heq]
        exact hh
      · intro s set hset
        rw [ruleSet?, hadd.systems] at hset
        exact hh s set hset
    | addRule s tag name boundTo =>
      have hs : s < e.systems.length := by simpa [knows] using hc
      obtain ⟨y, hy⟩ : ∃ y, e.systems[s]? = some y := ⟨_, List.getElem?_eq_getElem hs⟩
      obtain ⟨result, hchg⟩ := call_addRule hy tag name boundTo
      refine honest_changed (e := e.withStack (.deliver result :: e.stack)) hh hchg ?_
      refine (hh s y.rules (by simp [ruleSet?, hy])).add fun t ht => ?_
      subst ht
      exact hp
    | removeRule s id => exact hp.elim
    | _ => exact absurd rfl hf

theorem quiet_honest (hh : ∀ s set, e.ruleSet? s = some set → set.Honest h) (hq : Quiet h e e') :
    ∀ s set, e'.ruleSet? s = some set → set.Honest h := by
  have still : Still e e' → ∀ s set, e'.ruleSet? s = some set → set.Honest h :=
    fun hs s set hset => hh s set (hs.rules s ▸ hset)
  have stack := Still.withStack e
  cases hq with
  | @handle f rest _ _ hh' =>
    cases hh' with
    | work hw => exact still hw.still
    | lose => exact still ((stack _).trans (.invalidate _ _ _))
    | drop => exact still (stack _)
    | restart => exact still ((stack _).trans (.startResolving _ _))
    | removeEdge => exact still ((stack _).trans (.removeEdge _ _))
    | removeNode => exact hh
    | @removeRule s id ids =>
      rcases removeRule_cases (e.withStack (.ruleRemoval s ids :: rest)) s id
        with heq | ⟨y, rule, hy, -, hc⟩
      · rw [heq]
        exact hh
      · have hy : e.systems[s]? = some y := hy
        exact honest_changed (e := e.withStack (.ruleRemoval s ids :: rest)) hh hc
          ((hh s y.rules (by simp [ruleSet?, hy])).remove id)
  | call _ hp hc => exact call_honest hh hp hc
  | forget =>
    refine still ?_
    unfold forget
    split
    · exact .refl e
    · exact .of_eq rfl rfl

theorem Grounded.move (hg : Grounded h sound e) (ha : h.Allows e m) (hm : e.move? m = some e')
    (hd : ∀ s, sound s → ∀ set, e'.ruleSet? s = some set → set.Distinct) : Grounded h sound e' := by
  have hstep := move?_step hm
  exact ⟨step_lively hg.lively hstep, step_subscribed hg.lively hg.subscribed (spares_of_allows ha) hstep,
    step_tied hg.tied hstep, step_listed hg.listed hg.lively hg.subscribed ha hstep,
    quiet_honest hg.honest (move?_quiet ha hm), hd⟩

end Runs

end Engine

end LiveTypes
