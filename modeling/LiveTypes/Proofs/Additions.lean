import LiveTypes.Proofs.Departures
import LiveTypes.Proofs.Rounds

/-!
# Additions to the graph are all or nothing

An addition is refused, finds that there is nothing to do, or changes the graph and lets its listeners hear
of it in one pass. Which of these happens depends on the graph alone. In the first two cases the call returns
at once, and nothing but the report of its result is added to the state. In the third, `Engine.Announcing`
follows the pass whatever the host does meanwhile.
-/
namespace LiveTypes

variable {ν : Type}

/-! ## The graph -/

/-- A type has joined a graph under a key, as the latest. -/
structure Graph.Gains (g : Graph) (t : Ty) (key : String) (g' : Graph) : Prop where
  holders : ∀ k, g'.get? k = if k = key then some t else g.get? k
  order : g'.nodes.order = g.nodes.order ++ [key]
  types : g'.types = g.types ++ [t]
  edges : g'.edges = g.edges

namespace Graph

variable {g : Graph} {t : Ty} {key : String} {x : Edge}

/-- What an addition comes to at once, if nothing is added. -/
def Addition.result? : Addition → Option (Except GraphError Unit)
  | .refused error => some (.error error)
  | .present => some (.ok ())
  | .added _ => none

/-- A type is refused if its key holds another type, or else if it has another key. -/
theorem result?_addType : (g.addType t key).result? =
    match g.get? key with
    | some holder => some (if holder = t then .ok () else .error (.duplicateKey key))
    | none => (g.keyOf? t).map fun other => .error (.alreadyRegistered other) := by
  unfold addType
  cases g.get? key with
  | some holder => by_cases h : holder = t <;> simp [h, Addition.result?]
  | none => cases g.keyOf? t <;> rfl

theorem addType_found : (g.addType t key).result? = some (.ok ()) ↔ g.get? key = some t := by
  rw [result?_addType]
  cases g.get? key with
  | some holder => by_cases h : holder = t <;> simp [h]
  | none => simp

theorem addType_duplicate : (g.addType t key).result? = some (.error (.duplicateKey key)) ↔
    ∃ holder, g.get? key = some holder ∧ holder ≠ t := by
  rw [result?_addType]
  cases g.get? key with
  | some holder => by_cases h : holder = t <;> simp [h]
  | none => simp

theorem addType_registered (hc : g.Consistent) {other : String} :
    (g.addType t key).result? = some (.error (.alreadyRegistered other)) ↔
      g.get? key = none ∧ ∀ k, g.get? k = some t ↔ k = other := by
  have hone : g.keyOf? t = some other ↔ ∀ k, g.get? k = some t ↔ k = other := by
    rw [hc.keyOf?_eq_some]
    constructor
    · intro hother k
      refine ⟨fun hk => hc.one_key t k other hk hother, ?_⟩
      rintro rfl
      exact hother
    · intro h
      exact (h other).2 rfl
  rw [result?_addType, ← hone]
  cases g.get? key with
  | some holder => by_cases h : holder = t <;> simp [h]
  | none => simp

/-- A type without a key gets a free key. -/
theorem addType_gains (hc : g.Consistent) (hk : g.get? key = none) (ht : ∀ k, g.get? k ≠ some t) :
    ∃ g', g.addType t key = .added g' ∧ g.Gains t key g' := by
  have hnone : g.keyOf? t = none := by
    rw [hc.keyOf?_eq_none, ← Bool.not_eq_true, hc.contains_iff]
    rintro ⟨k, hk⟩
    exact ht k hk
  have hadd : g.addType t key = .added { g with nodes := g.nodes.insert key t } := by simp [addType, hk, hnone]
  exact ⟨_, hadd, get?_insert rfl, rfl, (hc.types_addType hadd).2.1, rfl⟩

/-- An edge is refused if an end is not registered; its source is looked at first. -/
theorem result?_addEdge : (g.addEdge x).result? =
    if g.contains x.source = false then some (.error (.missingEndpoint x.source.identifier))
    else if g.contains x.target = false then some (.error (.missingEndpoint x.target.identifier))
    else if x ∈ g.edges then some (.ok ()) else none := by
  unfold addEdge
  cases g.contains x.source <;> cases g.contains x.target <;> by_cases hx : x ∈ g.edges <;>
    simp [hx, Addition.result?]

theorem addEdge_found : (g.addEdge x).result? = some (.ok ()) ↔
    g.contains x.source = true ∧ g.contains x.target = true ∧ x ∈ g.edges := by
  rw [result?_addEdge]
  cases g.contains x.source <;> cases g.contains x.target <;> by_cases hx : x ∈ g.edges <;> simp [hx]

end Graph

namespace Engine

/-! ## Following a pass -/

/-- Whom the round at a height is made to call by a move. -/
def callsAt (h : Nat) (e : Engine ν) (m : Move ν) : List (Callee ν) := (e.callee? h m).toList

/-- A call lets this audience hear of an event in one pass, and then returns. So many have been called. -/
inductive Announcing (base : List (Frame ν)) (result : Result ν) (event : GraphEvent)
    (audience : List GraphListener) (calls : List (Callee ν)) (e : Engine ν) : Prop
  | passing {top : List (Frame ν)} {queue : List GraphListener} :
    e.stack = top ++ .graphPass event queue :: .deliver result :: base →
    calls ++ queue.map (.graphListener event) = audience.map (.graphListener event) →
    Announcing base result event audience calls e
  | told : e.stack = .deliver result :: base → calls = audience.map (.graphListener event) →
    Announcing base result event audience calls e
  | back : e.stack = base → calls = audience.map (.graphListener event) →
    Announcing base result event audience calls e

section Passing

variable {e e' : Engine ν} {m : Move ν} {base : List (Frame ν)} {result : Result ν} {event : GraphEvent}
  {audience : List GraphListener} {calls : List (Callee ν)}

/-- Work that waits for nobody stays as it is until it goes on. -/
theorem stack_of_idle {f : Frame ν} {rest : List (Frame ν)} (hs : e.stack = f :: rest) (hq : f.question? = none)
    (hm : e.move? m = some e') (hw : m ≠ .work) : e'.stack = e.stack := by
  cases m with
  | work => exact absurd rfl hw
  | answer a => cases f <;> simp_all [move?, answer, Frame.question?]
  | call c => simp [move?, hostTurn, atRest, question?, hs, hq] at hm
  | forget o =>
    cases hm
    unfold forget
    split <;> rfl
  | retire s =>
    cases hm
    unfold retire
    split <;> rfl

theorem callsAt_of_ne_work (h : Nat) (hw : m ≠ .work) : e.callsAt h m = [] := by
  cases m with
  | work => exact absurd rfl hw
  | _ => rfl

/-- The pass is on top: its next listener is called, or all have been. -/
theorem Announcing.pass {queue : List GraphListener}
    (hs : e.stack = .graphPass event queue :: .deliver result :: base)
    (hcalls : calls ++ queue.map (.graphListener event) = audience.map (.graphListener event))
    (ht : e.tick = some e') :
    Announcing base result event audience (calls ++ e.callsAt (base.length + 1) .work) e' := by
  have hcallee := callee?_top hs
  rw [List.length_cons] at hcallee
  cases queue with
  | nil =>
    simp only [tick, hs, Option.some.injEq] at ht
    subst ht
    have hnone : e.callsAt (base.length + 1) .work = [] := by rw [callsAt, hcallee]; rfl
    exact .told rfl (by simpa [hnone] using hcalls)
  | cons l queue =>
    have hcall : (Frame.graphPass event (l :: queue) : Frame ν).call? =
        some (.graphListener event l, .graphPass event queue) := rfl
    cases (tick_of_call hs hcall).symm.trans ht
    obtain ⟨top, hs', -⟩ := adds_react
      ((e.withStack (.deliver result :: base)).push (.graphPass event queue)) .work (.graphListener event l)
    rw [push_stack] at hs'
    have hone : e.callsAt (base.length + 1) .work = [.graphListener event l] := by rw [callsAt, hcallee]; rfl
    exact .passing hs' (by simpa [hone] using hcalls)

/-- Whatever the host does, the pass goes on with those who are left, and then the call returns. -/
theorem Announcing.move (h : Announcing base result event audience calls e) (hne : e.stack ≠ base)
    (hm : e.move? m = some e') :
    Announcing base result event audience (calls ++ e.callsAt (base.length + 1) m) e' := by
  cases h with
  | @passing top queue hs hcalls =>
    cases top with
    | nil =>
      by_cases hw : m = .work
      · subst hw
        exact .pass hs hcalls hm
      · rw [callsAt_of_ne_work _ hw, List.append_nil]
        exact .passing ((stack_of_idle hs rfl hm hw).trans hs) hcalls
    | cons f top =>
      obtain ⟨top', hs'⟩ := move?_atop hs hm
      have hnone : e.callee? (base.length + 1) m = none := by
        refine callee?_of_height ?_
        simp only [hs, List.length_append, List.length_cons]
        omega
      rw [callsAt, hnone]
      exact .passing hs' (by simpa using hcalls)
  | told hs hcalls =>
    have hnone : e.callee? (base.length + 1) m = none := callee?_of_height (by simp [hs])
    rw [callsAt, hnone]
    by_cases hw : m = .work
    · subst hw
      simp only [move?, tick, hs, Option.some.injEq] at hm
      subst hm
      exact .back rfl (by simpa using hcalls)
    · exact .told ((stack_of_idle hs rfl hm hw).trans hs) (by simpa using hcalls)
  | back hs => exact absurd hs hne

/-- A call that is back has called everyone. -/
theorem Announcing.all_called (h : Announcing base result event audience calls e) (hs : e.stack = base) :
    calls = audience.map (.graphListener event) := by
  cases h with
  | passing hs' =>
    have := congrArg List.length (hs'.symm.trans hs)
    simp only [List.length_append, List.length_cons] at this
    omega
  | told _ hcalls => exact hcalls
  | back _ hcalls => exact hcalls

end Passing
/-! ## What an addition comes to -/

/-- A call returns at once. Only the report of its result is new: the graph, the listeners, the rules, the
references and the work under way are as before, and nobody is asked anything. -/
def Returns (e : Engine ν) (c : Call ν) (result : Result ν) : Prop :=
  e.move? (.call c) = some (e.finish result)

/-- A call makes the graph `g` of the engine's graph and lets all who listen hear of it in one pass. Whatever
the host does, the call returns, and by then this pass has called those who listened when it began, each once
and in order. If the callbacks leave the graph alone, this pass is all that happens around the graph. -/
def Announces (e : Engine ν) (c : Call ν) (event : GraphEvent) (g : Graph) : Prop :=
  ∃ e₁, e.move? (.call c) = some e₁ ∧ e₁.graph = g ∧
    (∀ calls e', Course (fun _ _ => True) (callsAt (e.stack.length + 1)) e.stack e₁ calls e' →
      ComesTo (fun _ _ => True) e.stack (.addition (.ok ())) e' ∧
      (e'.stack = e.stack → calls = (e.audience event).map (.graphListener event))) ∧
    ∀ deeds e', Course (fun e m => e.sparesGraph m) Engine.deeds e.stack e₁ deeds e' → e'.stack = e.stack →
      e'.graph = g ∧ e.deeds (.call c) ++ deeds = GraphDeed.pass event (e.audience event) ∧
      e'.hearings = e.hearings ++ (e.audience event).flatMap fun l => l.hearing event

/-- What a call does with an addition. -/
def settle (e : Engine ν) (entry : LogEntry) (event : GraphEvent) : Graph.Addition → Engine ν
  | .refused error => e.finish (.addition (.error error))
  | .present => e.finish (.addition (.ok ()))
  | .added graph =>
    (({ e with graph }.log entry).push (.deliver (.addition (.ok ())))).notifyGraph event

section Additions

variable {e : Engine ν} {c : Call ν} {entry : LogEntry} {event : GraphEvent} {addition : Graph.Addition}
  {g : Graph}

theorem addType_settles (e : Engine ν) (t : Ty) (key : String) : e.call (.addType t key) =
    e.settle (.typeAdded key) (.addedType t key) (e.graph.addType t key) := by
  simp only [call]
  cases e.graph.addType t key <;> rfl

theorem addEdge_settles (e : Engine ν) (x : Edge) : e.call (.addEdge x) =
    e.settle (.edgeAdded x) (.addedEdge x) (e.graph.addEdge x) := by
  simp only [call]
  cases e.graph.addEdge x <;> rfl

theorem settle_added : e.settle entry event (.added g) =
    { e.log entry with
      graph := g
      listeners := e.listeners.prune e.hearsGraph
      stack := .graphPass event (e.audience event) :: .deliver (.addition (.ok ())) :: e.stack } := by
  rw [← listeners_eq_audience, settle, push_eq _ rfl, notifyGraph_eq, push_eq _ rfl]
  rfl

theorem finish_inj {r r' : Result ν} : e.finish r = e.finish r' ↔ r = r' := by
  refine ⟨fun h => ?_, fun h => by rw [h]⟩
  have htrace := congrArg Engine.trace h
  simpa [finish, report] using htrace

/-- A call with an addition returns at once exactly if nothing is added. -/
theorem returns_iff {result : Except GraphError Unit} (hturn : e.hostTurn) (hk : e.knows c)
    (hcall : e.call c = e.settle entry event addition) :
    e.Returns c (.addition result) ↔ addition.result? = some result := by
  have hmove : e.move? (.call c) = some (e.settle entry event addition) := by simp [move?, hturn, hk, hcall]
  rw [Returns, hmove, Option.some.injEq]
  cases addition with
  | refused error => simp [settle, finish_inj, Graph.Addition.result?]
  | present => simp [settle, finish_inj, Graph.Addition.result?]
  | added g =>
    constructor
    · intro h
      have hlength := congrArg (·.stack.length) h
      simp only [settle_added, finish, report, List.length_cons] at hlength
      omega
    · intro h
      cases h

/-- The calls of the pass, whatever the host does. -/
theorem Announcing.course {result : Result ν} {e₁ e' : Engine ν} {audience : List GraphListener}
    {calls : List (Callee ν)}
    (hs : e₁.stack = .graphPass event audience :: .deliver result :: e.stack)
    (h : Course (fun _ _ => True) (callsAt (e.stack.length + 1)) e.stack e₁ calls e') :
    Delivers e.stack result e' ∧ Announcing e.stack result event audience calls e' := by
  have hbegun : Announcing e.stack result event audience [] e₁ := .passing (hs.trans (List.nil_append _).symm) rfl
  refine h.keeps (P := fun calls e' => Delivers e.stack result e' ∧
    Announcing e.stack result event audience calls e') ⟨.inl ⟨[_], hs⟩, hbegun⟩ ?_
  rintro calls e' e'' m ⟨hd, ha⟩ hne - hm
  exact ⟨hd.move hne hm, ha.move hne hm⟩

/-- What happens around the graph, if the callbacks leave it alone. -/
theorem Told.course {result : Result ν} {e₁ e' : Engine ν} {passes : List (GraphEvent × List GraphListener)}
    {running : List (Frame ν)} {before deeds : List GraphDeed} (hd : Delivers e.stack result e₁)
    (htold : Told before passes running) (hw : e₁.works = running ++ e.works)
    (h : Course (fun e m => e.sparesGraph m) Engine.deeds e.stack e₁ deeds e') (hs : e'.stack = e.stack) :
    e'.graph = e₁.graph ∧ before ++ deeds = GraphDeed.ofPasses passes ∧
      e'.hearings = e₁.hearings ++ deeds.flatMap GraphDeed.hearing := by
  suffices hkept : Delivers e.stack result e' ∧ e'.graph = e₁.graph ∧
      (∃ running : List (Frame ν), Told (before ++ deeds) passes running ∧ e'.works = running ++ e.works) ∧
      e'.hearings = e₁.hearings ++ deeds.flatMap GraphDeed.hearing by
    obtain ⟨-, hg, ⟨running, htold, hw⟩, hh⟩ := hkept
    have hworks : e'.works = e.works := by rw [works, hs, works]
    rw [← hworks] at hw
    exact ⟨hg, htold.ended hw, hh⟩
  refine h.keeps (P := fun deeds e' => Delivers e.stack result e' ∧ e'.graph = e₁.graph ∧
    (∃ running : List (Frame ν), Told (before ++ deeds) passes running ∧ e'.works = running ++ e.works) ∧
    e'.hearings = e₁.hearings ++ deeds.flatMap GraphDeed.hearing)
    ⟨hd, rfl, ⟨running, by simpa using htold, hw⟩, by simp⟩ ?_
  rintro deeds e' e'' m ⟨hd, hg, ⟨running, htold, hw⟩, hh⟩ hne hspare hm
  obtain ⟨running', htold', hg', hw'⟩ := htold.move hw hd hne hspare hm
  refine ⟨hd.move hne hm, hg'.trans hg, ⟨running', by simpa using htold', hw'⟩, ?_⟩
  rw [move?_hearings hm hspare, hh, List.flatMap_append, List.append_assoc]

theorem announces_of_added (hturn : e.hostTurn) (hk : e.knows c)
    (hcall : e.call c = e.settle entry event (.added g)) (hevent : e.event? (.call c) = some event) :
    e.Announces c event g := by
  obtain ⟨e₁, hmove, hs, hg, hh⟩ : ∃ e₁, e.move? (.call c) = some e₁ ∧
      e₁.stack = .graphPass event (e.audience event) :: .deliver (.addition (.ok ())) :: e.stack ∧
      e₁.graph = g ∧ e₁.hearings = e.hearings := by
    refine ⟨_, by simp only [move?, hturn, hk, hcall, settle_added]; rfl, rfl, rfl, ?_⟩
    simp [hearings, log, report, Report.hearing?]
  have hd : Delivers e.stack (.addition (.ok ())) e₁ := .inl ⟨[_], hs⟩
  refine ⟨e₁, hmove, hg, fun calls e' hcourse => ?_, fun deeds e' hcourse hs' => ?_⟩
  · obtain ⟨hd', ha⟩ := Announcing.course hs hcourse
    exact ⟨hd'.comesTo, ha.all_called⟩
  · have hdeeds : e.deeds (.call c) = [.event event (e.audience event)] := by
      simp [Engine.deeds, hevent, turn?]
    have htold : Told (e.deeds (.call c)) [(event, e.audience event)]
        [(.graphPass event (e.audience event) : Frame ν)] := .busy (by simp [hdeeds, GraphDeed.ofPasses, GraphDeed.pass])
    obtain ⟨hg', hall, hh'⟩ := htold.course hd (by rw [works, hs]; rfl) hcourse hs'
    have hpass : GraphDeed.ofPasses [(event, e.audience event)] = GraphDeed.pass event (e.audience event) := by
      simp [GraphDeed.ofPasses]
    have hturns : deeds = (e.audience event).map (.turn event) := by
      simpa [hdeeds, hpass, GraphDeed.pass] using hall
    refine ⟨hg'.trans hg, hall.trans hpass, ?_⟩
    rw [hh', hh, hturns, List.flatMap_map]
    rfl

/-- An addition to the graph is all or nothing, and what it comes to depends on the graph alone. A type is
found under its key; it is refused because the key holds another type, or because the type has another key;
or else it joins the graph as the latest type and is announced in one pass. An edge is refused because its
source is not registered, or else because its target is not; it is found; or else it joins the graph as the
latest edge and is announced in one pass. -/
theorem additions_all_or_nothing {e : Engine ν} (he : e.Reachable) (hturn : e.hostTurn) :
    (∀ t key,
      (e.Returns (.addType t key) (.addition (.ok ())) ↔ e.graph.get? key = some t) ∧
      (e.Returns (.addType t key) (.addition (.error (.duplicateKey key))) ↔
        ∃ holder, e.graph.get? key = some holder ∧ holder ≠ t) ∧
      (∀ other, e.Returns (.addType t key) (.addition (.error (.alreadyRegistered other))) ↔
        e.graph.get? key = none ∧ ∀ k, e.graph.get? k = some t ↔ k = other) ∧
      (e.graph.get? key = none → (∀ k, e.graph.get? k ≠ some t) →
        ∃ g, e.graph.Gains t key g ∧ e.Announces (.addType t key) (.addedType t key) g)) ∧
    ∀ x : Edge,
      (e.graph.contains x.source = false →
        e.Returns (.addEdge x) (.addition (.error (.missingEndpoint x.source.identifier)))) ∧
      (e.graph.contains x.source = true → e.graph.contains x.target = false →
        e.Returns (.addEdge x) (.addition (.error (.missingEndpoint x.target.identifier)))) ∧
      (e.Returns (.addEdge x) (.addition (.ok ())) ↔
        e.graph.contains x.source = true ∧ e.graph.contains x.target = true ∧ x ∈ e.graph.edges) ∧
      (e.graph.contains x.source = true → e.graph.contains x.target = true → x ∉ e.graph.edges →
        e.Announces (.addEdge x) (.addedEdge x) { e.graph with edges := e.graph.edges ++ [x] }) := by
  have hc := he.consistent
  refine ⟨fun t key => ?_, fun x => ?_⟩
  · have hreturns (result : Except GraphError Unit) :
        e.Returns (.addType t key) (.addition result) ↔ (e.graph.addType t key).result? = some result :=
      returns_iff hturn rfl (e.addType_settles t key)
    refine ⟨(hreturns _).trans Graph.addType_found, (hreturns _).trans Graph.addType_duplicate,
      fun other => (hreturns _).trans (Graph.addType_registered hc), fun hk ht => ?_⟩
    obtain ⟨g, hadd, hgains⟩ := Graph.addType_gains hc hk ht
    refine ⟨g, hgains, announces_of_added hturn rfl (hadd ▸ e.addType_settles t key) ?_⟩
    simp only [event?, hadd]
  · have hreturns (result : Except GraphError Unit) :
        e.Returns (.addEdge x) (.addition result) ↔ (e.graph.addEdge x).result? = some result :=
      returns_iff hturn rfl (e.addEdge_settles x)
    refine ⟨fun hsource => ?_, fun hsource htarget => ?_, (hreturns _).trans Graph.addEdge_found,
      fun hsource htarget hx => ?_⟩
    · rw [hreturns, Graph.result?_addEdge, if_pos hsource]
    · rw [hreturns, Graph.result?_addEdge, if_neg (by simp [hsource]), if_pos htarget]
    · have hadd : e.graph.addEdge x = .added { e.graph with edges := e.graph.edges ++ [x] } := by
        simp [Graph.addEdge, hsource, htarget, hx]
      refine announces_of_added hturn rfl (hadd ▸ e.addEdge_settles x) ?_
      simp only [event?, hadd]

/-- The theorem while an observer hears of a type. That type is there already, its key is not free for another
type, and another key is not free for it. An edge to an unregistered type is refused. A second type is
announced to the observer and to a reference that waits for it. -/
theorem additions_during_pass :
    let a : Ty := ⟨1, "a", "a"⟩
    let b : Ty := ⟨2, "b", "b"⟩
    ∃ e : Engine Nat, e.Reachable ∧ e.hostTurn ∧ e.hearings = [(⟨0⟩, .addedType a "a")] ∧
      e.Returns (.addType a "a") (.addition (.ok ())) ∧
      e.Returns (.addType b "a") (.addition (.error (.duplicateKey "a"))) ∧
      e.Returns (.addType a "b") (.addition (.error (.alreadyRegistered "a"))) ∧
      e.Returns (.addEdge ⟨a, b, .subType⟩) (.addition (.error (.missingEndpoint "b"))) ∧
      e.audience (.addedType b "b") = [.system 0, .observer ⟨0⟩, .reference 0] ∧
      ∃ g, e.graph.Gains b "b" g ∧ e.Announces (.addType b "b") (.addedType b "b") g := by
  intro a b
  have hcheck : ((run? ({} : Engine Nat)
      [.call (.addSystem {} ⟨Ty.name, fun _ _ => ""⟩ .graph), .call (.listenToGraph ⟨0⟩),
        .call (.addReference 0 (.identifier "b")), .work, .work, .call (.addType a "a"), .work, .work]).map fun e =>
      decide (e.hostTurn ∧ e.hearings = [(⟨0⟩, .addedType a "a")] ∧
        e.graph.get? "a" = some a ∧ e.graph.get? "b" = none ∧ e.graph.contains a = true ∧
        e.graph.contains b = false ∧ e.audience (.addedType b "b") = [.system 0, .observer ⟨0⟩, .reference 0])) =
      some true := by
    decide +kernel
  obtain ⟨e, hrun, hcheck⟩ := Option.map_eq_some_iff.1 hcheck
  obtain ⟨hturn, hheard, ha, hb, hca, hcb, haudience⟩ := of_decide_eq_true hcheck
  have he : e.Reachable := ⟨_, hrun⟩
  have hc := he.consistent
  obtain ⟨htypes, hedges⟩ := additions_all_or_nothing he hturn
  have honly (k : String) : e.graph.get? k = some a ↔ k = "a" := by
    refine ⟨fun hk => hc.one_key a k "a" hk ha, ?_⟩
    rintro rfl
    exact ha
  have hnew (k : String) : e.graph.get? k ≠ some b := by
    intro hk
    rw [hc.contains_iff.2 ⟨k, hk⟩] at hcb
    cases hcb
  exact ⟨e, he, hturn, hheard, (htypes a "a").1.2 ha, (htypes b "a").2.1.2 ⟨a, ha, by decide⟩,
    ((htypes a "b").2.2.1 "a").2 ⟨hb, honly⟩, (hedges ⟨a, b, .subType⟩).2.1 hca hcb, haudience,
    (htypes b "b").2.2.2 hb hnew⟩

end Additions
end Engine
end LiveTypes
