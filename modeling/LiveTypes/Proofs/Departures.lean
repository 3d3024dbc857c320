import LiveTypes.Proofs.Courses
import LiveTypes.Proofs.Registrations

/-!
# How a type leaves the graph

The removal of a type takes its edges one after the other, then the type itself, and the graph's listeners
hear of each at once. `Engine.deeds` notes of every move which event takes place in it, who listens at that
moment, and whose turn it is to hear of an event. For a host whose callbacks leave the graph alone,
`Engine.Departing` says at every moment of a removal how far it has come and what is still owed to the
listeners.
-/
namespace LiveTypes

variable {ν : Type}

/-! ## Deeds -/

/-- What happens around the graph. -/
inductive GraphDeed where
  /-- An event takes place while these listen. -/
  | event (event : GraphEvent) (audience : List GraphListener)
  /-- It is the turn of a listener to hear of an event. -/
  | turn (event : GraphEvent) (listener : GraphListener)
deriving DecidableEq

namespace GraphDeed

/-- An event, and the turns of all who listen when it takes place. -/
def pass (event : GraphEvent) (audience : List GraphListener) : List GraphDeed :=
  .event event audience :: audience.map (.turn event)

/-- Such passes one after the other. -/
def ofPasses (passes : List (GraphEvent × List GraphListener)) : List GraphDeed :=
  passes.flatMap fun x => pass x.1 x.2

theorem ofPasses_concat (passes : List (GraphEvent × List GraphListener)) (event : GraphEvent)
    (audience : List GraphListener) :
    ofPasses (passes ++ [(event, audience)]) = ofPasses passes ++ pass event audience := by
  simp [ofPasses]

/-- What observers are told. -/
def hearing : GraphDeed → List (Observer × GraphEvent)
  | .event _ _ => []
  | .turn what l => l.hearing what

end GraphDeed

/-- The events of the removal of a type: one for each edge that touches it, oldest first, and then its own. -/
def Graph.departure (g : Graph) (t : Ty) (key : String) : List GraphEvent :=
  (g.incident t).map .removedEdge ++ [.removedType t key]

namespace Engine

/-- The event that takes place with a move. -/
def event? (e : Engine ν) : Move ν → Option GraphEvent
  | .call (.addType t key) =>
    match e.graph.addType t key with
    | .added _ => some (.addedType t key)
    | _ => none
  | .call (.addEdge x) =>
    match e.graph.addEdge x with
    | .added _ => some (.addedEdge x)
    | _ => none
  | .call (.removeEdge x) => if x ∈ e.graph.edges then some (.removedEdge x) else none
  | .work =>
    match e.stack with
    | .typeRemoval _ _ (x :: _) :: _ => if x ∈ e.graph.edges then some (.removedEdge x) else none
    | .typeRemoval t key [] :: _ => some (.removedType t key)
    | _ => none
  | _ => none

/-- The listener of the graph whose turn comes with a move, and what it hears of. -/
def turn? (e : Engine ν) : Move ν → Option (GraphEvent × GraphListener)
  | .work =>
    match e.stack with
    | .graphPass event (l :: _) :: _ => some (event, l)
    | _ => none
  | _ => none

/-- What happens around the graph with a move. -/
def deeds (e : Engine ν) (m : Move ν) : List GraphDeed :=
  ((e.event? m).map fun event => .event event (e.audience event)).toList ++
    ((e.turn? m).map fun x => .turn x.1 x.2).toList

/-- Whether a move is no call that changes the graph. -/
def sparesGraph (e : Engine ν) : Move ν → Bool
  | .call c => !e.alters c
  | _ => true

section Audience

variable {e e' : Engine ν}

theorem audience_congr (hl : e'.listeners = e.listeners) (hg : e'.gone = e.gone) (event : GraphEvent) :
    e'.audience event = e.audience event := by
  rw [audience, hl, hearsGraph_congr hg, audience]

/-- Who is gone is in no audience. -/
theorem audience_prune (hl : e'.listeners = e.listeners.prune e.hearsGraph) (hg : e'.gone = e.gone)
    (event : GraphEvent) : e'.audience event = e.audience event := by
  rw [audience, hl, hearsGraph_congr hg, audience, Registry.prune, List.filter_filter]
  congr 1
  refine List.filter_congr fun x _ => ?_
  cases e.hearsGraph x.listener <;> simp

end Audience

section Deeds

variable {e e' : Engine ν} {m : Move ν} {f : Frame ν} {rest : List (Frame ν)}

/-- Where the top frame is no work on the graph, work is no deed. -/
theorem deeds_work_aside (hs : e.stack = f :: rest) (hf : f.isGraphWork = false) : e.deeds .work = [] := by
  cases f <;> simp_all [deeds, event?, turn?, Frame.isGraphWork]

/-- What leaves the graph alone is no deed. -/
theorem deeds_eq_nil (hspare : e.sparesGraph m) (hwork : m ≠ .work) : e.deeds m = [] := by
  cases m with
  | work => exact absurd rfl hwork
  | call c =>
    have hc : e.alters c = false := by simpa [sparesGraph] using hspare
    cases c with
    | addType t key => cases hadd : e.graph.addType t key <;> simp_all [deeds, event?, turn?, alters]
    | addEdge x => cases hadd : e.graph.addEdge x <;> simp_all [deeds, event?, turn?, alters]
    | removeEdge x => simp_all [deeds, event?, turn?, alters]
    | _ => rfl
  | _ => rfl

/-- A move is work on the graph, or if it is no call that changes the graph, the graph sees at most another
subscription. -/
theorem graphWork_or_unseen (hm : e.move? m = some e') (hspare : e.sparesGraph m) :
    (m = .work ∧ ∃ f rest, e.stack = f :: rest ∧ f.isGraphWork) ∨
      e'.graph = e.graph ∧ e'.works = e.works ∧ e'.hearings = e.hearings ∧ e.deeds m = [] := by
  have seen : Relisted e m e'.graphSide →
      e'.graph = e.graph ∧ e'.works = e.works ∧ e'.hearings = e.hearings := by
    rintro ⟨listeners, -, hside⟩
    exact ⟨congrArg GraphSide.graph hside, congrArg GraphSide.works hside, congrArg GraphSide.hearings hside⟩
  cases m with
  | work =>
    cases hs : e.stack with
    | nil => simp [move?, tick, hs] at hm
    | cons f rest =>
      cases hf : f.isGraphWork with
      | true => exact .inl ⟨rfl, f, rest, rfl, hf⟩
      | false =>
        obtain ⟨hg, hw, hh⟩ := seen (tick_relisted hs hf hm)
        exact .inr ⟨hg, hw, hh, deeds_work_aside hs hf⟩
  | answer a =>
    obtain ⟨hg, hw, hh⟩ := seen (answer_relisted hm)
    exact .inr ⟨hg, hw, hh, deeds_eq_nil hspare (by simp)⟩
  | call c =>
    have hc : e.alters c = false := by simpa [sparesGraph] using hspare
    simp only [move?] at hm
    split at hm
    · rename_i hturn
      rw [Bool.and_eq_true] at hturn
      cases hm
      obtain ⟨hg, hw, hh⟩ := seen (call_relisted hturn.2 hc)
      exact .inr ⟨hg, hw, hh, deeds_eq_nil hspare (by simp)⟩
    · cases hm
  | forget o =>
    cases hm
    unfold forget
    split <;> exact .inr ⟨rfl, rfl, rfl, rfl⟩
  | retire s =>
    cases hm
    unfold retire
    split <;> exact .inr ⟨rfl, rfl, rfl, rfl⟩

end Deeds
/-! ## How far a removal has come -/

/-- So many whole passes have happened, but for the turns that the one under way still owes. -/
inductive Told (deeds : List GraphDeed) (passes : List (GraphEvent × List GraphListener)) :
    List (Frame ν) → Prop
  | idle : deeds = GraphDeed.ofPasses passes → Told deeds passes []
  | busy {event : GraphEvent} {queue : List GraphListener} :
    deeds ++ queue.map (.turn event) = GraphDeed.ofPasses passes → Told deeds passes [.graphPass event queue]

/-- A removal of the type `t` that began in `e₀`: some of the edges are gone and told of, or all of them and
the type. -/
inductive Departing (e₀ : Engine ν) (t : Ty) (key : String) (deeds : List GraphDeed) (e : Engine ν) : Prop
  | edges {done left : List Edge} {passes : List (GraphEvent × List GraphListener)}
      {running : List (Frame ν)} :
    e₀.graph.incident t = done ++ left → passes.map Prod.fst = done.map .removedEdge →
    Told deeds passes running → e.graph = { e₀.graph with edges := e₀.graph.edges.filter (· ∉ done) } →
    e.works = running ++ .typeRemoval t key left :: e₀.works → Departing e₀ t key deeds e
  | node {passes : List (GraphEvent × List GraphListener)} {running : List (Frame ν)} :
    passes.map Prod.fst = e₀.graph.departure t key →
    Told deeds passes running →
    e.graph = { e₀.graph with edges := e₀.graph.edges.filter (!·.touches t) }.freeKey key →
    e.works = running ++ e₀.works → Departing e₀ t key deeds e

section Steps

variable {e₀ e e' : Engine ν} {t : Ty} {key : String} {deeds : List GraphDeed} {m : Move ν} {f : Frame ν}
  {rest : List (Frame ν)}

/-- An edge more is gone. -/
theorem filter_not_mem_erase {edges done : List Edge} (h : edges.Nodup) (x : Edge) :
    (edges.filter (· ∉ done)).erase x = edges.filter (· ∉ done ++ [x]) := by
  rw [(h.filter _).erase_eq_filter, List.filter_filter]
  refine List.filter_congr fun y _ => ?_
  by_cases hy : y = x <;> simp [hy]

/-- The next edge of a removal is still there. -/
theorem mem_of_incident {done left : List Edge} {x : Edge} (hc : e₀.graph.Consistent)
    (h : e₀.graph.incident t = done ++ x :: left) : x ∈ e₀.graph.edges.filter (· ∉ done) := by
  have hnodup : (done ++ x :: left).Nodup := h ▸ hc.edges_nodup.filter _
  have hx : x ∈ e₀.graph.incident t := by simp [h]
  have hnot : x ∉ done := by
    intro hd
    exact (List.nodup_append.1 hnodup).2.2 x hd x (by simp) rfl
  simp [List.mem_filter.1 hx, hnot]

/-- All edges of a type are those that touch it. -/
theorem filter_not_mem_incident (g : Graph) (t : Ty) :
    g.edges.filter (· ∉ g.incident t) = g.edges.filter (!·.touches t) := by
  refine List.filter_congr fun x hx => ?_
  cases ht : x.touches t <;> simp [Graph.incident, hx, ht]

/-- The pass under way has a turn or is over. -/
theorem tick_told {passes : List (GraphEvent × List GraphListener)} {event : GraphEvent}
    {queue : List GraphListener} (h : Told deeds passes [(.graphPass event queue : Frame ν)])
    (hs : e.stack = .graphPass event queue :: rest) (ht : e.tick = some e') :
    ∃ running : List (Frame ν), Told (deeds ++ e.deeds .work) passes running ∧ e'.graph = e.graph ∧
      e'.works = running ++ (e.withStack rest).works := by
  cases h with
  | busy h =>
    cases queue with
    | nil =>
      simp only [tick, hs, Option.some.injEq] at ht
      subst ht
      have hdeeds : e.deeds .work = [] := by simp [Engine.deeds, event?, turn?, hs]
      exact ⟨[], .idle (by simpa [hdeeds] using h), rfl, rfl⟩
    | cons l queue =>
      simp only [tick, hs, Option.some.injEq] at ht
      subst ht
      obtain ⟨listeners, -, hside⟩ := graphTurn_graphSide (m := .work) hs
      have hdeeds : e.deeds .work = [.turn event l] := by simp [Engine.deeds, event?, turn?, hs]
      refine ⟨[.graphPass event queue], .busy (by simpa [hdeeds] using h), ?_, ?_⟩
      · exact congrArg GraphSide.graph hside
      · exact congrArg GraphSide.works hside

/-- The removal goes on to the next edge or to the type. -/
theorem Departing.shed {done left : List Edge} {passes : List (GraphEvent × List GraphListener)}
    (hc : e₀.graph.Consistent) (hall : e₀.graph.incident t = done ++ left)
    (hpasses : passes.map Prod.fst = done.map .removedEdge) (htold : deeds = GraphDeed.ofPasses passes)
    (hg : e.graph = { e₀.graph with edges := e₀.graph.edges.filter (· ∉ done) })
    (hs : e.stack = .typeRemoval t key left :: rest) (hw : (e.withStack rest).works = e₀.works)
    (ht : e.tick = some e') : Departing e₀ t key (deeds ++ e.deeds .work) e' := by
  have begun : ∀ event, e.deeds .work = [.event event (e.audience event)] →
      deeds ++ e.deeds .work ++ (e.audience event).map (.turn event) =
        GraphDeed.ofPasses (passes ++ [(event, e.audience event)]) := by
    intro event hdeeds
    simp [hdeeds, htold, GraphDeed.ofPasses_concat, GraphDeed.pass]
  cases left with
  | nil =>
    simp only [tick, hs, Option.some.injEq] at ht
    subst ht
    have hside : ((e.withStack rest).removeNode t key).graphSide = _ := removeNode_graphSide
    have hdone : e₀.graph.incident t = done := by simpa using hall
    have hdeeds : e.deeds .work = [.event (.removedType t key) (e.audience (.removedType t key))] := by
      simp [Engine.deeds, event?, turn?, hs]
    refine .node ?_ (.busy (begun _ hdeeds)) ?_ ?_
    · rw [List.map_append, hpasses, Graph.departure, hdone]
      rfl
    · rw [← filter_not_mem_incident, hdone, ← hg]
      exact congrArg GraphSide.graph hside
    · have hworks := congrArg GraphSide.works hside
      rw [announced, listeners_eq_audience] at hworks
      simpa [hw] using hworks
  | cons x left =>
    simp only [tick, hs, Option.some.injEq] at ht
    subst ht
    have hx : x ∈ e.graph.edges := by
      rw [hg]
      exact mem_of_incident hc hall
    have hside : ((e.withStack rest).push (.typeRemoval t key left) |>.removeEdge x).graphSide = _ :=
      push_eq (e.withStack rest) (f := .typeRemoval t key left) rfl ▸ removeEdge_graphSide hx
    have hdeeds : e.deeds .work = [.event (.removedEdge x) (e.audience (.removedEdge x))] := by
      simp [Engine.deeds, event?, turn?, hs, hx]
    have hall : e₀.graph.incident t = (done ++ [x]) ++ left := by simpa using hall
    refine .edges hall ?_ (.busy (begun _ hdeeds)) ?_ ?_
    · rw [List.map_append, hpasses, List.map_append]
      rfl
    · rw [← filter_not_mem_erase hc.edges_nodup]
      refine (congrArg GraphSide.graph hside).trans ?_
      simp [announced, Graph.eraseEdge, hg]
    · have hworks := congrArg GraphSide.works hside
      rw [announced, listeners_eq_audience] at hworks
      simpa [hw] using hworks

/-- Where the work on the graph is what it was before a call, the call is not at such work. -/
theorem isGraphWork_of_works {base : List (Frame ν)} {result : Result ν} (hd : Delivers base result e)
    (hne : e.stack ≠ base) (hw : e.works = base.filter Frame.isGraphWork) (hs : e.stack = f :: rest) :
    f.isGraphWork = false := by
  rcases hd with ⟨top, htop⟩ | ⟨hbase, -⟩
  · cases top with
    | nil =>
      rw [hs] at htop
      cases htop
      rfl
    | cons g top =>
      have hempty : (g :: top).filter Frame.isGraphWork = [] := by
        have hsplit : e.works = (g :: top).filter Frame.isGraphWork ++ base.filter Frame.isGraphWork := by
          rw [works, htop, List.filter_append]
          rfl
        simpa [hw] using hsplit
      rw [hs] at htop
      cases htop
      simpa using List.filter_eq_nil_iff.1 hempty f (by simp)
  · exact absurd hbase hne

/-- Passes that have begun go on by every move of a host that leaves the graph alone. -/
theorem Told.move {base : List (Frame ν)} {result : Result ν}
    {passes : List (GraphEvent × List GraphListener)} {running : List (Frame ν)}
    (h : Told deeds passes running) (hw : e.works = running ++ base.filter Frame.isGraphWork)
    (hd : Delivers base result e) (hne : e.stack ≠ base) (hspare : e.sparesGraph m)
    (hm : e.move? m = some e') :
    ∃ running' : List (Frame ν), Told (deeds ++ e.deeds m) passes running' ∧ e'.graph = e.graph ∧
      e'.works = running' ++ base.filter Frame.isGraphWork := by
  rcases graphWork_or_unseen hm hspare with ⟨rfl, f, rest, hs, hf⟩ | ⟨hg, hw', -, hdeeds⟩
  · have hworks : e.works = f :: (e.withStack rest).works := works_cons hs hf
    cases h with
    | idle h => simp [isGraphWork_of_works hd hne hw hs] at hf
    | busy h =>
      obtain ⟨rfl, hrest⟩ := List.cons.inj (hworks.symm.trans hw)
      obtain ⟨running', htold, hg, hw'⟩ := tick_told (.busy h) hs hm
      exact ⟨running', htold, hg, hw'.trans (congrArg _ hrest)⟩
  · rw [hdeeds, List.append_nil]
    exact ⟨running, h, hg, hw'.trans hw⟩

/-- When a call is back, the passes that it began are over. -/
theorem Told.ended {passes : List (GraphEvent × List GraphListener)} {running : List (Frame ν)}
    (h : Told deeds passes running) (hw : e.works = running ++ e.works) : deeds = GraphDeed.ofPasses passes := by
  cases h with
  | idle h => exact h
  | busy =>
    have := congrArg List.length hw
    simp only [List.length_append, List.length_cons, List.length_nil] at this
    omega

/-- A removal goes on by every move of a host that leaves the graph alone. -/
theorem Departing.move (hc : e₀.graph.Consistent) (h : Departing e₀ t key deeds e)
    (hd : Delivers e₀.stack (.flag true) e) (hne : e.stack ≠ e₀.stack) (hspare : e.sparesGraph m)
    (hm : e.move? m = some e') : Departing e₀ t key (deeds ++ e.deeds m) e' := by
  cases h with
  | node hpasses htold hg hw =>
    obtain ⟨running, htold, hg', hw'⟩ := htold.move hw hd hne hspare hm
    exact .node hpasses htold (hg'.trans hg) hw'
  | edges hall hpasses htold hg hw =>
    rcases graphWork_or_unseen hm hspare with ⟨rfl, f, rest, hs, hf⟩ | ⟨hg', hw', -, hdeeds⟩
    · have hworks : e.works = f :: (e.withStack rest).works := works_cons hs hf
      cases htold with
      | idle htold =>
        obtain ⟨rfl, hrest⟩ := List.cons.inj (hworks.symm.trans hw)
        exact .shed hc hall hpasses htold hg hs hrest hm
      | busy htold =>
        obtain ⟨rfl, hrest⟩ := List.cons.inj (hworks.symm.trans hw)
        obtain ⟨running, htold, hg', hw'⟩ := tick_told (.busy htold) hs hm
        exact .edges hall hpasses htold (hg'.trans hg) (hw'.trans (congrArg _ hrest))
    · rw [hdeeds, List.append_nil]
      exact .edges hall hpasses htold (hg'.trans hg) (hw'.trans hw)

/-- Observers hear what their turns are about, and nothing else. -/
theorem move?_hearings (hm : e.move? m = some e') (hspare : e.sparesGraph m) :
    e'.hearings = e.hearings ++ (e.deeds m).flatMap GraphDeed.hearing := by
  rcases graphWork_or_unseen hm hspare with ⟨rfl, f, rest, hs, hf⟩ | ⟨-, -, hh, hdeeds⟩
  · have ht : e.tick = some e' := hm
    rw [tick, hs] at ht
    dsimp only at ht
    cases f with
    | graphPass event queue =>
      cases queue with
      | nil =>
        cases ht
        simp [Engine.deeds, event?, turn?, hs, hearings]
      | cons l queue =>
        cases ht
        obtain ⟨listeners, -, hside⟩ := graphTurn_graphSide (m := .work) hs
        have hdeeds : e.deeds .work = [.turn event l] := by simp [Engine.deeds, event?, turn?, hs]
        exact (congrArg GraphSide.hearings hside).trans (by simp [hdeeds, GraphDeed.hearing])
    | typeRemoval t key edges =>
      have silent : (e.deeds .work).flatMap GraphDeed.hearing = [] := by
        unfold Engine.deeds turn?
        rw [hs]
        cases e.event? .work <;> rfl
      rw [silent, List.append_nil]
      cases edges with
      | nil =>
        cases ht
        exact congrArg GraphSide.hearings (removeNode_graphSide (e := e))
      | cons x edges =>
        cases ht
        rw [push_eq _ rfl]
        by_cases hx : x ∈ e.graph.edges
        · exact congrArg GraphSide.hearings (removeEdge_graphSide hx)
        · have hmiss : ((e.withStack (.typeRemoval t key edges :: rest)).removeEdge x).hearings =
              (e.withStack (.typeRemoval t key edges :: rest)).hearings := congrArg hearings (if_neg hx)
          exact hmiss
    | _ => cases hf
  · simp [hh, hdeeds]

end Steps

end Engine

/-! ## Hosts that only answer -/

/-- Whether a move is a step of the engine's own work or an answer. -/
def Move.isReply : Move ν → Bool
  | .work => true
  | .answer _ => true
  | _ => false

/-- Whether a frame tells of a removed edge or waits for somebody who is told. -/
def Frame.isEdgeNews : Frame ν → Bool
  | .telling _ _ => true
  | .graphPass (.removedEdge _) _ => true
  | _ => false

namespace Engine

/-- A removal that began in `e₀` goes on with nobody but its listeners. As long as it is at the edges, those
who listened at its beginning still do; then no more passes begin. -/
inductive Undisturbed (e₀ : Engine ν) (t : Ty) (key : String) (e : Engine ν) : Prop
  | edges {top : List (Frame ν)} {left : List Edge} :
    e.stack = top ++ .typeRemoval t key left :: .deliver (.flag true) :: e₀.stack →
    (∀ f ∈ top, f.isEdgeNews) → (∀ event, e.audience event = e₀.audience event) → Undisturbed e₀ t key e
  | node {above : List (Frame ν)} :
    e.stack = above ++ e₀.stack → Frame.total Frame.passesAhead above = 0 → Undisturbed e₀ t key e

section Undisturbed

variable {e₀ e e' : Engine ν} {t : Ty} {key : String} {m : Move ν}

/-- A step for a listener that hears of a removed edge. -/
theorem edgeNews_move {f : Frame ν} {rest : List (Frame ν)} (hs : e.stack = f :: rest) (hf : f.isEdgeNews)
    (hreply : m.isReply) (hm : e.move? m = some e') :
    e'.listeners = e.listeners ∧ e'.gone = e.gone ∧
      ∃ news, e'.stack = news ++ rest ∧ ∀ g ∈ news, g.isEdgeNews := by
  cases m with
  | answer a =>
    cases f with
    | telling o notice =>
      cases a with
      | done =>
        simp only [move?, answer, hs, Option.some.injEq] at hm
        subst hm
        exact ⟨rfl, rfl, [], rfl, by simp⟩
      | _ => simp [move?, answer, hs] at hm
    | graphPass event queue => simp [move?, answer, hs] at hm
    | _ => cases hf
  | work =>
    cases f with
    | telling o notice => simp [move?, tick, hs] at hm
    | graphPass event queue =>
      cases event with
      | removedEdge x =>
        cases queue with
        | nil =>
          simp only [move?, tick, hs, Option.some.injEq] at hm
          subst hm
          exact ⟨rfl, rfl, [], rfl, by simp⟩
        | cons l queue =>
          simp only [move?, tick, hs, Option.some.injEq] at hm
          subst hm
          rw [push_eq _ rfl]
          cases l with
          | observer o =>
            refine ⟨push_listeners _ _, push_gone _ _, [.telling o _, .graphPass (.removedEdge x) queue],
              push_stack _ _, ?_⟩
            simp [Frame.isEdgeNews]
          | system s => exact ⟨rfl, rfl, [.graphPass (.removedEdge x) queue], rfl, by simp [Frame.isEdgeNews]⟩
          | reference r => exact ⟨rfl, rfl, [.graphPass (.removedEdge x) queue], rfl, by simp [Frame.isEdgeNews]⟩
      | _ => cases hf
    | _ => cases hf
  | _ => cases hreply

/-- A reply makes no new removal of a type. -/
theorem passesAhead_of_move {f : Frame ν} {rest : List (Frame ν)} (hs : e.stack = f :: rest)
    (hreply : m.isReply) (hm : e.move? m = some e') :
    ∃ frames, e'.stack = frames ++ rest ∧ Frame.total Frame.passesAhead frames ≤ f.passesAhead := by
  have hp : Proceeds e e' := by
    cases m with
    | work => exact .inl hm
    | answer a => exact .inr ⟨a, hm⟩
    | _ => cases hreply
  obtain ⟨g, rest', hs', frames, hstack, hlt⟩ := hp.eases
  obtain ⟨rfl, rfl⟩ := List.cons.inj (hs.symm.trans hs')
  refine ⟨frames, hstack, ?_⟩
  simp only [Frame.burden, Prod.Lex.toLex_lt_toLex, Frame.total_cons, Frame.total_nil] at hlt
  rcases hlt with hlt | ⟨heq, -⟩
  · exact Nat.le_of_lt hlt
  · exact Nat.le_of_eq heq

/-- An edge that goes is told of at once, and those who are gone leave the list of listeners. -/
theorem removeEdge_cases (e : Engine ν) (x : Edge) : e.removeEdge x = e ∨
    ∃ queue, (e.removeEdge x).stack = .graphPass (.removedEdge x) queue :: e.stack ∧
      (e.removeEdge x).listeners = e.listeners.prune e.hearsGraph ∧ (e.removeEdge x).gone = e.gone := by
  unfold removeEdge
  split
  · exact .inr ⟨_, push_stack _ _, push_listeners _ _, push_gone _ _⟩
  · exact .inl rfl

/-- The removal itself goes on: the next edge goes, or the type does. -/
theorem Undisturbed.removal {left : List Edge}
    (hs : e.stack = .typeRemoval t key left :: .deliver (.flag true) :: e₀.stack)
    (haudience : ∀ event, e.audience event = e₀.audience event) (ht : e.tick = some e') :
    Undisturbed e₀ t key e' := by
  cases left with
  | nil =>
    simp only [tick, hs, Option.some.injEq] at ht
    subst ht
    have hstack : ((e.withStack (.deliver (.flag true) :: e₀.stack)).removeNode t key).stack =
        [.graphPass (.removedType t key) _, .deliver (.flag true)] ++ e₀.stack := push_stack _ _
    exact .node hstack rfl
  | cons x left =>
    simp only [tick, hs, Option.some.injEq] at ht
    subst ht
    rw [push_eq _ rfl]
    have hcases := removeEdge_cases
      (e.withStack (.typeRemoval t key left :: .deliver (.flag true) :: e₀.stack)) x
    change Undisturbed e₀ t key
      ((e.withStack (.typeRemoval t key left :: .deliver (.flag true) :: e₀.stack)).removeEdge x)
    generalize removeEdge _ x = e₁ at hcases ⊢
    rcases hcases with rfl | ⟨queue, hstack, hl, hg⟩
    · exact .edges (List.nil_append _).symm (by simp) haudience
    · refine .edges (hstack.trans (List.singleton_append).symm) (by simp [Frame.isEdgeNews]) fun event => ?_
      rw [← haudience]
      exact audience_prune hl hg event

theorem Undisturbed.move (h : Undisturbed e₀ t key e) (hne : e.stack ≠ e₀.stack) (hreply : m.isReply)
    (hm : e.move? m = some e') : Undisturbed e₀ t key e' := by
  cases h with
  | node hs habove =>
    rename_i above
    cases above with
    | nil => exact absurd hs hne
    | cons f above =>
      obtain ⟨frames, hs', hle⟩ := passesAhead_of_move hs hreply hm
      have hstack : e'.stack = (frames ++ above) ++ e₀.stack := by
        rw [hs', List.append_assoc]
        rfl
      refine .node hstack ?_
      rw [Frame.total_cons] at habove
      rw [Frame.total_append]
      omega
  | @edges top left hs htop haudience =>
    cases top with
    | cons f top =>
      obtain ⟨hf, htop⟩ := List.forall_mem_cons.1 htop
      obtain ⟨hl, hg, news, hs', hnews⟩ := edgeNews_move hs hf hreply hm
      have hstack : e'.stack = (news ++ top) ++ .typeRemoval t key left :: .deliver (.flag true) :: e₀.stack := by
        rw [hs', List.append_assoc]
        rfl
      refine .edges hstack ?_ fun event => ?_
      · intro g hg
        exact (List.mem_append.1 hg).elim (hnews g) (htop g)
      · rw [audience_congr hl hg, haudience]
    | nil =>
      have hs : e.stack = .typeRemoval t key left :: .deliver (.flag true) :: e₀.stack := hs
      cases m with
      | answer a => simp [move?, answer, hs] at hm
      | work => exact .removal hs haudience hm
      | _ => cases hreply

/-- Who listens to an event listened when the removal began. -/
theorem Undisturbed.event (h : Undisturbed e₀ t key e) (hne : e.stack ≠ e₀.stack) (hreply : m.isReply)
    {event : GraphEvent} (hev : e.event? m = some event) : e.audience event = e₀.audience event := by
  cases h with
  | edges _ _ haudience => exact haudience event
  | node hs habove =>
    rename_i above
    cases above with
    | nil => exact absurd hs hne
    | cons f above =>
      cases m with
      | work =>
        cases f with
        | typeRemoval t key edges => simp [Frame.passesAhead] at habove
        | _ => simp [event?, hs] at hev
      | answer a => cases hev
      | _ => cases hreply

end Undisturbed

/-! ## The whole removal -/

/-- What a removal of the type `t` under this key, from `e` to `e'`, has done by the given deeds. -/
structure Departed (e : Engine ν) (t : Ty) (key : String) (deeds : List GraphDeed) (e' : Engine ν) : Prop where
  /-- One whole pass for each event. -/
  told : ∃ passes, passes.map Prod.fst = e.graph.departure t key ∧ deeds = GraphDeed.ofPasses passes
  heard : e'.hearings = e.hearings ++ deeds.flatMap GraphDeed.hearing
  absent : e'.graph.contains t = false
  freed : e'.graph.get? key = none
  /-- All else is there as before and in the same order. -/
  edges : e'.graph.edges = e.graph.edges.filter (!·.touches t)
  types : e'.graph.types = e.graph.types.filter (· ≠ t)
  order : e'.graph.nodes.order = e.graph.nodes.order.filter (· ≠ key)
  holders : ∀ k, k ≠ key → e'.graph.get? k = e.graph.get? k

section Removal

variable {e e₁ e' : Engine ν} {t : Ty} {key : String} {deeds : List GraphDeed}

/-- A removal begins with all edges of the type before it. -/
theorem removeType_begins (hc : e.graph.Consistent) (hturn : e.hostTurn) (hkey : e.graph.get? key = some t) :
    ∃ e₁, e.move? (.call (.removeType t)) = some e₁ ∧ Delivers e.stack (.flag true) e₁ ∧
      Departing e t key [] e₁ ∧ Undisturbed e t key e₁ ∧ e₁.hearings = e.hearings := by
  have hcall : e.call (.removeType t) =
      e.withStack (.typeRemoval t key (e.graph.incident t) :: .deliver (.flag true) :: e.stack) := by
    simp only [call, hc.keyOf?_eq_some.2 hkey]
    rw [push_eq _ rfl, push_eq _ rfl]
  refine ⟨e.call (.removeType t), by simp [move?, hturn, knows], ?_⟩
  rw [hcall]
  refine ⟨.inl ⟨[_], rfl⟩, ?_, ?_, rfl⟩
  · have hnothing : [] = GraphDeed.ofPasses [] := rfl
    exact .edges (List.nil_append _).symm rfl (.idle hnothing) (by simp) rfl
  · exact .edges (List.nil_append _).symm (by simp) fun _ => rfl

theorem Departing.course (hc : e.graph.Consistent) (hd : Delivers e.stack (.flag true) e₁)
    (hdep : Departing e t key [] e₁) (hh : e₁.hearings = e.hearings)
    (h : Course (fun e m => e.sparesGraph m) Engine.deeds e.stack e₁ deeds e') :
    Delivers e.stack (.flag true) e' ∧ Departing e t key deeds e' ∧
      e'.hearings = e.hearings ++ deeds.flatMap GraphDeed.hearing := by
  refine h.keeps (P := fun deeds e' => Delivers e.stack (.flag true) e' ∧ Departing e t key deeds e' ∧
    e'.hearings = e.hearings ++ deeds.flatMap GraphDeed.hearing) ⟨hd, hdep, by simp [hh]⟩ ?_
  rintro deeds e' e'' m ⟨hd, hdep, hh⟩ hne hspare hm
  refine ⟨hd.move hne hm, hdep.move hc hd hne hspare hm, ?_⟩
  rw [move?_hearings hm hspare, hh, List.flatMap_append, List.append_assoc]

/-- A removal that is over has told of everything. -/
theorem Departing.ended (h : Departing e t key deeds e') (hs : e'.stack = e.stack) :
    (∃ passes, passes.map Prod.fst = e.graph.departure t key ∧ deeds = GraphDeed.ofPasses passes) ∧
      e'.graph = { e.graph with edges := e.graph.edges.filter (!·.touches t) }.freeKey key := by
  have hworks : e'.works = e.works := by rw [works, hs, works]
  cases h with
  | edges _ _ _ _ hw =>
    have := congrArg List.length (hw.symm.trans hworks)
    simp only [List.length_append, List.length_cons] at this
    omega
  | node hpasses htold hg hw =>
    rw [← hworks] at hw
    exact ⟨⟨_, hpasses, htold.ended hw⟩, hg⟩

theorem Departing.departed (hc : e.graph.Consistent) (hkey : e.graph.get? key = some t)
    (h : Departing e t key deeds e') (hs : e'.stack = e.stack)
    (hh : e'.hearings = e.hearings ++ deeds.flatMap GraphDeed.hearing) : Departed e t key deeds e' := by
  obtain ⟨htold, hg⟩ := h.ended hs
  have hcontains : ∀ t', (e.graph.freeKey key).contains t' = (e.graph.contains t' && t' ≠ t) := by
    intro t'
    rw [Bool.eq_iff_iff, hc.contains_freeKey, hkey, Bool.and_eq_true, decide_eq_true_eq]
    refine and_congr_right fun _ => not_congr ⟨fun h => (Option.some.inj h).symm, fun h => by rw [h]⟩
  refine ⟨htold, hh, ?_, ?_, by rw [hg]; rfl, ?_, by rw [hg]; rfl, fun k hk => ?_⟩
  · rw [hg]
    exact (hcontains t).trans (by simp)
  · rw [hg, Graph.get?_freeKey, if_pos rfl]
  · rw [hg]
    refine (hc.types_freeKey key).trans (List.filter_congr fun t' ht' => ?_)
    have : e.graph.contains t' = true := hc.contains_iff.2 (hc.mem_types.1 ht')
    rw [hcontains, this, Bool.true_and]
  · rw [hg, Graph.get?_freeKey, if_neg hk]
    rfl

/-- If the host only answers, those who are told listened when the removal began. -/
theorem Undisturbed.course (hu : Undisturbed e t key e₁)
    (h : Course (fun _ m => m.isReply) Engine.deeds e.stack e₁ deeds e') :
    ∀ event audience, .event event audience ∈ deeds → audience = e.audience event := by
  refine (h.keeps (P := fun deeds e' => Undisturbed e t key e' ∧
    ∀ event audience, .event event audience ∈ deeds → audience = e.audience event) ⟨hu, by simp⟩ ?_).2
  rintro deeds e' e'' m ⟨hu, hdeeds⟩ hne hreply hm
  refine ⟨hu.move hne hreply hm, fun event audience hmem => ?_⟩
  rcases List.mem_append.1 hmem with hmem | hmem
  · exact hdeeds event audience hmem
  · unfold Engine.deeds at hmem
    rcases List.mem_append.1 hmem with hmem | hmem
    · obtain ⟨ev, hev, heq⟩ := Option.map_eq_some_iff.1 (Option.mem_toList.1 hmem)
      cases heq
      exact hu.event hne hreply hev
    · obtain ⟨_, -, heq⟩ := Option.map_eq_some_iff.1 (Option.mem_toList.1 hmem)
      cases heq

/-- Passes are known by their events if it is known who listens to each. -/
theorem ofPasses_of_audience {passes : List (GraphEvent × List GraphListener)}
    {audience : GraphEvent → List GraphListener}
    (h : ∀ event listening, .event event listening ∈ GraphDeed.ofPasses passes → listening = audience event) :
    GraphDeed.ofPasses passes =
      (passes.map Prod.fst).flatMap fun event => GraphDeed.pass event (audience event) := by
  rw [GraphDeed.ofPasses, List.flatMap_map]
  refine List.flatMap_congr fun x hx => ?_
  have hmem : .event x.1 x.2 ∈ GraphDeed.ofPasses passes :=
    List.mem_flatMap.2 ⟨x, hx, by simp [GraphDeed.pass]⟩
  rw [← h x.1 x.2 hmem]

theorem sparesGraph_of_isReply (e : Engine ν) {m : Move ν} (h : m.isReply) : e.sparesGraph m := by
  cases m with
  | call c => cases h
  | _ => rfl

end Removal

/-- The removal of a type that is not registered returns `false` and does nothing else. That of a registered
type comes to its end with `true` wherever callbacks have taken it that leave the graph alone. By then all
who listened to the graph have been told of each edge that touched the type, oldest edge first, each at the
moment it went; then those who listened to the graph or watched this type have been told once that it left,
in the order in which they had subscribed. The type, its key and its edges are gone and nothing else. If
the host only answers, these are the listeners of the moment when it called. -/
theorem removal_tells_edges_then_type {e : Engine ν} (he : e.Reachable) (hturn : e.hostTurn) (t : Ty) :
    (e.graph.contains t = false → e.move? (.call (.removeType t)) = some (e.finish (.flag false))) ∧
    ∀ key, e.graph.get? key = some t → ∃ e₁, e.move? (.call (.removeType t)) = some e₁ ∧
      (∀ deeds e', Course (fun e m => e.sparesGraph m) Engine.deeds e.stack e₁ deeds e' →
        ComesTo (fun _ _ => True) e.stack (.flag true) e' ∧
        (e'.stack = e.stack → Departed e t key deeds e')) ∧
      ∀ deeds e', Course (fun _ m => m.isReply) Engine.deeds e.stack e₁ deeds e' → e'.stack = e.stack →
        deeds = (e.graph.departure t key).flatMap fun event => GraphDeed.pass event (e.audience event) := by
  have hc := he.consistent
  refine ⟨fun habsent => ?_, fun key hkey => ?_⟩
  · have hnone := hc.keyOf?_eq_none.2 habsent
    simp [move?, hturn, knows, call, hnone]
  · obtain ⟨e₁, hm, hd, hdep, hu, hh⟩ := removeType_begins hc hturn hkey
    refine ⟨e₁, hm, fun deeds e' hcourse => ?_, fun deeds e' hcourse hs => ?_⟩
    · obtain ⟨hd', hdep', hh'⟩ := hdep.course hc hd hh hcourse
      exact ⟨hd'.comesTo, fun hs => hdep'.departed hc hkey hs hh'⟩
    · have hspare := hcourse.mono fun e m hreply => sparesGraph_of_isReply e hreply
      obtain ⟨-, hdep', -⟩ := hdep.course hc hd hh hspare
      obtain ⟨⟨passes, hevents, rfl⟩, -⟩ := hdep'.ended hs
      rw [ofPasses_of_audience (hu.course hcourse), hevents]

/-- The theorem at a type with three edges, one of them to itself. While the first observer hears of the
first edge, it lets another one listen, which hears of all that follows. Who watches another type hears
nothing. -/
theorem removal_with_new_listener :
    let a : Ty := ⟨1, "a", "a"⟩
    let first : Edge := ⟨a, ⟨2, "b", "b"⟩, .subType⟩
    let loop : Edge := ⟨a, a, .subType⟩
    let last : Edge := ⟨⟨2, "b", "b"⟩, a, .implicitConversion⟩
    let heard : List (Observer × GraphEvent) :=
      [(⟨0⟩, .removedEdge first), (⟨3⟩, .removedEdge first),
        (⟨0⟩, .removedEdge loop), (⟨3⟩, .removedEdge loop), (⟨4⟩, .removedEdge loop),
        (⟨0⟩, .removedEdge last), (⟨3⟩, .removedEdge last), (⟨4⟩, .removedEdge last),
        (⟨0⟩, .removedType a "a"), (⟨1⟩, .removedType a "a"), (⟨3⟩, .removedType a "a"),
        (⟨4⟩, .removedType a "a")]
    ∃ (e e₁ e' : Engine Node) (deeds : List GraphDeed), e.Reachable ∧ e.hostTurn ∧ e.graph.get? "a" = some a ∧
      e.move? (.call (.removeType a)) = some e₁ ∧
      Course (fun e m => e.sparesGraph m) Engine.deeds e.stack e₁ deeds e' ∧ e'.stack = e.stack ∧
      Departed e a "a" deeds e' ∧
      e'.hearings = heard := by
  intro a first loop last heard
  have hcheck : ((run? ({} : Engine Node)
      [.call (.addType a "a"), .work, .work, .call (.addType ⟨2, "b", "b"⟩ "b"), .work, .work,
        .call (.addEdge first), .work, .work, .call (.addEdge loop), .work, .work,
        .call (.addEdge last), .work, .work,
        .call (.listenToGraph ⟨0⟩), .call (.watchRemoval a ⟨1⟩), .call (.watchRemoval ⟨2, "b", "b"⟩ ⟨2⟩),
        .call (.listenToGraph ⟨3⟩)]).bind fun e => (e.move? (.call (.removeType a))).bind fun e₁ =>
      (e₁.courseOf? (fun e m => e.sparesGraph m) Engine.deeds e.stack.length
        [.work, .work, .call (.listenToGraph ⟨4⟩), .answer .done, .work, .answer .done, .work,
          .work, .work, .answer .done, .work, .answer .done, .work, .answer .done, .work,
          .work, .work, .answer .done, .work, .answer .done, .work, .answer .done, .work,
          .work, .work, .answer .done, .work, .answer .done, .work, .answer .done, .work, .answer .done,
          .work, .work]).map fun x => decide (e.hostTurn ∧ e.graph.get? "a" = some a ∧ e.stack.length = 0 ∧
            x.2.stack.length = 0 ∧ x.2.hearings = heard)) = some true := by
    decide +kernel
  obtain ⟨e, hrun, hcheck⟩ := Option.bind_eq_some_iff.1 hcheck
  obtain ⟨e₁, hcall, hcheck⟩ := Option.bind_eq_some_iff.1 hcheck
  obtain ⟨⟨deeds, e'⟩, hcourse, hcheck⟩ := Option.map_eq_some_iff.1 hcheck
  obtain ⟨hturn, hkey, hrest, hrest', hhear⟩ := of_decide_eq_true hcheck
  have hs : e'.stack = e.stack := (List.length_eq_zero_iff.1 hrest').trans (List.length_eq_zero_iff.1 hrest).symm
  have hcourse := Course.of_courseOf? hcourse
  obtain ⟨e₂, hcall', hdeparted, -⟩ := (removal_tells_edges_then_type ⟨_, hrun⟩ hturn a).2 "a" hkey
  cases hcall.symm.trans hcall'
  exact ⟨e, e₁, e', deeds, ⟨_, hrun⟩, hturn, hkey, hcall, hcourse, hs, (hdeparted deeds e' hcourse).2 hs, hhear⟩

end Engine
end LiveTypes
