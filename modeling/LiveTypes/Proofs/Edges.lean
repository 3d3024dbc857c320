import LiveTypes.Proofs.Registrations
import LiveTypes.TypeGraph.Assignable

/-!
# Edges between registered types

The removal of a type lists the edges of the type when it begins, removes them one by one, and frees the
key at the end. An edge that a callback adds in between is not on the list: if it touches the type that is
under the key at the end, it stays and dangles. `Engine.astray` says when an edge would be added in this
way. Other edges never dangle, whatever callbacks do, at no moment of a run.

The invariant is about one edge at a time: as long as it is stored, its ends are registered, and every
removal that is about to free the key of one of its ends has it on its list.
-/
namespace LiveTypes

variable {ν : Type}

/-! ## Searching -/

/-- A search finds what is in its queue or at the end of an edge. -/
theorem goal_of_reachesFrom {goal : Ty} {edges : List Edge} {queue : List Ty}
    (h : reachesFrom goal edges queue) : goal ∈ queue ∨ ∃ x ∈ edges, x.target = goal := by
  fun_induction reachesFrom goal edges queue with
  | case1 => cases h
  | case2 => exact .inl (List.mem_cons_self)
  | case3 edges current queue _ _ ih =>
    rcases ih h with hq | ⟨x, hx, ht⟩
    · rcases List.mem_append.1 hq with hq | hq
      · exact .inl (List.mem_cons_of_mem _ hq)
      · obtain ⟨x, hx, ht⟩ := List.mem_map.1 hq
        exact .inr ⟨x, (List.mem_filter.1 hx).1, ht⟩
    · exact .inr ⟨x, (List.mem_filter.1 hx).1, ht⟩

/-- A search from a type that is not the goal follows an edge of this type first. -/
theorem Graph.source_of_reaches {g : Graph} {start goal : Ty} (h : g.reaches start goal)
    (hne : start ≠ goal) : ∃ x ∈ g.edges, x.source = start := by
  rw [reaches, reachesFrom, if_neg hne] at h
  cases hs : successors start g.edges with
  | nil => simp [hs, reachesFrom] at h
  | cons t ts =>
    have ht : t ∈ successors start g.edges := hs ▸ List.mem_cons_self
    obtain ⟨x, hx, -⟩ := List.mem_map.1 ht
    obtain ⟨hx, hsource⟩ := List.mem_filter.1 hx
    rw [Bool.and_eq_true, decide_eq_true_eq] at hsource
    exact ⟨x, hx, hsource.1⟩

/-- If all edges lie between registered types, so does every path. -/
theorem Graph.ends_of_reaches {g : Graph} (h : ∀ x ∈ g.edges, g.contains x.source ∧ g.contains x.target)
    {start goal : Ty} (hr : g.reaches start goal) :
    start = goal ∨ (g.contains start ∧ g.contains goal) := by
  by_cases hne : start = goal
  · exact .inl hne
  · obtain ⟨x, hx, rfl⟩ := source_of_reaches hr hne
    rcases goal_of_reachesFrom hr with hg | ⟨y, hy, rfl⟩
    · exact absurd (List.mem_singleton.1 hg).symm hne
    · exact .inr ⟨(h x hx).1, (h y hy).2⟩

namespace Engine

/-! ## Edges that go astray -/

/-- Whether an edge touches the type whose key a removal under way will free, and the removal does not have
it on its list. -/
def astray (e : Engine ν) (x : Edge) : Bool :=
  e.works.any fun
    | .typeRemoval _ key edges => (e.graph.get? key).any (x.touches ·) && !edges.contains x
    | _ => false

/-- Whether a move adds no edge that goes astray. -/
def addsNoneAstray (e : Engine ν) : Move ν → Bool
  | .call (.addEdge x) => !e.astray x
  | _ => true

/-- What does not go astray is on the list of each removal that it concerns. -/
theorem mem_of_not_astray {e : Engine ν} {x : Edge} (h : e.astray x = false) {t holder : Ty}
    {key : String} {edges : List Edge} (hf : .typeRemoval t key edges ∈ e.works)
    (hk : e.graph.get? key = some holder) (ht : x.touches holder) : x ∈ edges := by
  have := List.any_eq_false.1 h _ hf
  simpa [hk, ht] using this

/-- The ends of an edge are registered, and each removal that will free the key of one of them has the edge
on its list. -/
structure Anchored (side : GraphSide ν) (x : Edge) : Prop where
  source : side.graph.contains x.source
  target : side.graph.contains x.target
  listed : ∀ t key edges holder, .typeRemoval t key edges ∈ side.works →
    side.graph.get? key = some holder → x.touches holder → x ∈ edges

/-- As long as the edge is stored, it is anchored. -/
def Secured (side : GraphSide ν) (x : Edge) : Prop := x ∈ side.graph.edges → Anchored side x

section Steps

variable {e : Engine ν} {m : Move ν} {side side' : GraphSide ν} {x : Edge}

theorem Anchored.contains (h : Anchored side x) {t : Ty} (ht : x.touches t) : side.graph.contains t := by
  rw [Edge.touches, Bool.or_eq_true, decide_eq_true_eq, decide_eq_true_eq] at ht
  rcases ht with rfl | rfl
  · exact h.source
  · exact h.target

/-- The types stay, and a removal only strikes off edges that are not stored any more. -/
theorem Secured.mono (h : Secured side x) (hn : side'.graph.nodes = side.graph.nodes)
    (he : x ∈ side'.graph.edges → x ∈ side.graph.edges)
    (hw : ∀ t key edges', .typeRemoval t key edges' ∈ side'.works → x ∈ side'.graph.edges →
      ∃ edges, .typeRemoval t key edges ∈ side.works ∧ (x ∈ edges → x ∈ edges')) :
    Secured side' x := by
  intro hx
  have ha := h (he hx)
  have hcontains : side'.graph.contains = side.graph.contains := by
    funext t
    rw [Graph.contains, Graph.contains, hn]
  refine ⟨hcontains ▸ ha.source, hcontains ▸ ha.target, fun t key edges' holder hf hk ht => ?_⟩
  obtain ⟨edges, hf', himp⟩ := hw t key edges' hf hx
  rw [Graph.get?, hn] at hk
  exact himp (ha.listed t key edges holder hf' hk ht)

/-- A type that is new was no end of a stored edge, so whatever its key is, it is no risk. -/
theorem Secured.addType {t : Ty} {key : String} {graph : Graph} (h : Secured e.graphSide x)
    (hc : e.graph.Consistent) (ha : e.graph.addType t key = .added graph) :
    Secured (e.announced (.addedType t key) { e.graphSide with graph }) x := by
  intro hx
  obtain ⟨hnew, -, hcontains⟩ := hc.types_addType ha
  obtain ⟨-, -, rfl⟩ := Graph.addType_added ha
  have old := h hx
  have stays : ∀ t', e.graph.contains t' →
      Graph.contains { e.graph with nodes := e.graph.nodes.insert key t } t' := fun t' ht' => by
    rw [hcontains, ht']
    rfl
  refine ⟨stays _ old.source, stays _ old.target, fun t' key' edges holder hf hk htouch => ?_⟩
  have hf : .typeRemoval t' key' edges ∈ e.works := typeRemoval_mem_announced.1 hf
  have hk : (if key' = key then some t else e.graph.get? key') = some holder :=
    (Graph.get?_insert rfl key').symm.trans hk
  split at hk
  · cases hk
    have := old.contains htouch
    exact absurd (hnew.symm.trans this) Bool.false_ne_true
  · exact old.listed t' key' edges holder hf hk htouch

theorem Secured.addEdge {y : Edge} {graph : Graph} (h : Secured e.graphSide x)
    (hm : y = x → e.astray x = false) (ha : e.graph.addEdge y = .added graph) :
    Secured (e.announced (.addedEdge y) { e.graphSide with graph }) x := by
  intro hx
  obtain ⟨hs, ht, -, rfl⟩ := Graph.addEdge_added ha
  rcases List.mem_append.1 hx with hx | hx
  · have old := h hx
    exact ⟨old.source, old.target, fun t key edges holder hf =>
      old.listed t key edges holder (typeRemoval_mem_announced.1 hf)⟩
  · obtain rfl := List.mem_singleton.1 hx
    refine ⟨hs, ht, fun t key edges holder hf hk htouch => ?_⟩
    have hf : .typeRemoval t key edges ∈ e.works := typeRemoval_mem_announced.1 hf
    exact mem_of_not_astray (hm rfl) hf hk htouch

/-- A removal lists all edges of its type that are stored when it begins. -/
theorem Secured.removeType {t : Ty} {key : String} (h : Secured e.graphSide x)
    (hk : e.graph.keyOf? t = some key) :
    Secured { e.graphSide with works := .typeRemoval t key (e.graph.incident t) :: e.works } x := by
  intro hx
  have old := h hx
  refine ⟨old.source, old.target, fun t' key' edges holder hf hk' htouch => ?_⟩
  rcases List.mem_cons.1 hf with hf | hf
  · cases hf
    have hholder : e.graph.get? key = some holder := hk'
    rw [Graph.get?_of_keyOf? hk] at hholder
    cases hholder
    exact List.mem_filter.2 ⟨hx, htouch⟩
  · exact old.listed t' key' edges holder hf hk' htouch

/-- When a removal frees its key, no edge is left that touches what the key holds. -/
theorem Secured.dropNode {t : Ty} {key : String} {rest : List (Frame ν)} (h : Secured e.graphSide x)
    (hc : e.graph.Consistent) (hw : e.works = .typeRemoval t key [] :: rest) :
    Secured (e.announced (.removedType t key)
      { e.graphSide with graph := e.graph.freeKey key, works := rest }) x := by
  intro hx
  have old := h hx
  have hfirst : .typeRemoval t key [] ∈ e.works := hw ▸ List.mem_cons_self
  have stays : ∀ t', x.touches t' → (e.graph.freeKey key).contains t' := fun t' ht' =>
    (hc.contains_freeKey key).2 ⟨old.contains ht', fun hk =>
      List.not_mem_nil (old.listed t key [] t' hfirst hk ht')⟩
  refine ⟨stays _ (by simp [Edge.touches]), stays _ (by simp [Edge.touches]),
    fun t' key' edges holder hf hk htouch => ?_⟩
  have hf : .typeRemoval t' key' edges ∈ e.works := by
    rw [hw]
    exact List.mem_cons_of_mem _ (typeRemoval_mem_announced.1 hf)
  have hk : (if key' = key then none else e.graph.get? key') = some holder :=
    (Graph.get?_freeKey key key').symm.trans hk
  split at hk
  · cases hk
  · exact old.listed t' key' edges holder hf hk htouch

theorem step_secured (hc : e.graph.Consistent) (h : Secured e.graphSide x)
    (hm : m = .call (.addEdge x) → e.astray x = false) (hs : GraphStep e m side) : Secured side x := by
  have erased : ∀ {y : Edge}, x ∈ e.graph.edges.erase y → x ≠ y ∧ x ∈ e.graph.edges :=
    fun hx => hc.edges_nodup.mem_erase_iff.1 hx
  have below : ∀ {f g : Frame ν} {rest : List (Frame ν)}, e.works = g :: rest → f ∈ rest →
      f ∈ e.graphSide.works := fun hw hf => by
    rw [graphSide_works, hw]
    exact List.mem_cons_of_mem _ hf
  -- the removal on top has one edge less to go, which is not stored any more
  have shorter : ∀ {t : Ty} {key : String} {y : Edge} {edges : List Edge}
      {rest : List (Frame ν)}, e.works = .typeRemoval t key (y :: edges) :: rest → x ≠ y →
      ∀ t' key' edges', .typeRemoval t' key' edges' ∈ (.typeRemoval t key edges :: rest : List (Frame ν)) →
        ∃ old, .typeRemoval t' key' old ∈ e.graphSide.works ∧ (x ∈ old → x ∈ edges') := by
    intro t key y edges rest hw hne t' key' edges' hf
    rcases List.mem_cons.1 hf with hf | hf
    · cases hf
      refine ⟨y :: edges, ?_, fun hl => (List.mem_cons.1 hl).resolve_left hne⟩
      rw [graphSide_works, hw]
      exact List.mem_cons_self
    · exact ⟨edges', below hw hf, id⟩
  cases hs with
  | relist hr =>
    obtain ⟨listeners, -, rfl⟩ := hr
    exact h.mono rfl id fun t key edges hf _ => ⟨edges, hf, id⟩
  | forget => exact h.mono rfl id fun t key edges hf _ => ⟨edges, hf, id⟩
  | done hw => exact h.mono rfl id fun t key edges hf _ => ⟨edges, below hw hf, id⟩
  | turn hw =>
    refine h.mono rfl id fun t key edges hf _ => ⟨edges, below hw ?_, id⟩
    exact (List.mem_cons.1 hf).resolve_left nofun
  | addType _ ha => exact h.addType hc ha
  | addEdge heq ha => exact h.addEdge (fun hy => hm (hy ▸ heq)) ha
  | removeEdge =>
    exact h.mono rfl (fun hx => (erased hx).2) fun t key edges hf _ =>
      ⟨edges, typeRemoval_mem_announced.1 hf, id⟩
  | removeType _ hk => exact h.removeType hk
  | dropEdge hw =>
    exact h.mono rfl (fun hx => (erased hx).2) fun t key edges hf hx =>
      shorter hw (erased hx).1 t key edges (typeRemoval_mem_announced.1 hf)
  | missEdge hw hy =>
    refine h.mono rfl id fun t key edges hf hx => shorter hw ?_ t key edges hf
    rintro rfl
    exact hy hx
  | dropNode _ hs => exact h.dropNode hc (works_cons hs rfl)

end Steps

/-! ## Runs -/

/-- An edge that is never added astray is never stored without its ends. -/
theorem ReachableBy.secured {e : Engine ν} {x : Edge}
    (h : ReachableBy (fun e m => m = .call (.addEdge x) → e.astray x = false) e) : Secured e.graphSide x := by
  have new : Graph.Consistent (graph ({} : Engine ν)) ∧ Secured (graphSide ({} : Engine ν)) x :=
    ⟨Graph.consistent_new, nofun⟩
  refine (ReachableBy.keeps (P := fun e => e.graph.Consistent ∧ Secured e.graphSide x) new ?_ h).2
  intro e e' m ⟨hc, hs⟩ ha hm
  have hstep := move?_graphStep hm
  exact ⟨step_consistent hc hstep, step_secured hc hs ha hstep⟩

/-- In every run that adds no edge astray, whatever else callbacks do, at every moment both ends of every
stored edge are registered; so no edge leaves a type that is not registered, and a path that is no
standstill begins and ends at registered types. -/
theorem stored_edges_between_registered_types {e : Engine ν}
    (h : ReachableBy (fun e m => e.addsNoneAstray m) e) :
    (∀ x ∈ e.graph.edges, e.graph.contains x.source ∧ e.graph.contains x.target) ∧
      (∀ t, e.graph.contains t = false → e.graph.outgoing t = []) ∧
      ∀ start goal, e.graph.reaches start goal →
        start = goal ∨ (e.graph.contains start ∧ e.graph.contains goal) := by
  have ends : ∀ x ∈ e.graph.edges, e.graph.contains x.source ∧ e.graph.contains x.target := by
    intro x hx
    have spared : ∀ (e : Engine ν) m, e.addsNoneAstray m → m = .call (.addEdge x) → e.astray x = false := by
      rintro e m ha rfl
      simpa [addsNoneAstray] using ha
    have anchored := (h.mono spared).secured hx
    exact ⟨anchored.source, anchored.target⟩
  refine ⟨ends, fun t ht => ?_, fun start goal => Graph.ends_of_reaches ends⟩
  refine List.filter_eq_nil_iff.2 fun x hx => ?_
  rintro hsource
  rw [decide_eq_true_eq] at hsource
  have := (ends x hx).1
  rw [hsource, ht] at this
  cases this

/-- The theorem at a removal whose callbacks add an edge elsewhere and try to add one to a type that is
gone. -/
theorem edges_after_busy_removal : ∃ e : Engine Node, ReachableBy (fun e m => e.addsNoneAstray m) e ∧
    e.atRest ∧ e.graph.edges = [⟨⟨2, "b", "b"⟩, ⟨3, "c", "c"⟩, .subType⟩] ∧
      e.graph.contains ⟨1, "a", "a"⟩ = false ∧ e.graph.outgoing ⟨1, "a", "a"⟩ = [] := by
  have hrun : runChecked? (fun e m _ => e.addsNoneAstray m) ({} : Engine Node)
      [.call (.addType ⟨1, "a", "a"⟩ "a"), .work, .work,
        .call (.addType ⟨2, "b", "b"⟩ "b"), .work, .work,
        .call (.addType ⟨3, "c", "c"⟩ "c"), .work, .work,
        .call (.addEdge ⟨⟨1, "a", "a"⟩, ⟨2, "b", "b"⟩, .subType⟩), .work, .work,
        .call (.listenToGraph ⟨0⟩),
        .call (.removeType ⟨1, "a", "a"⟩), .work, .work,
        .call (.addEdge ⟨⟨2, "b", "b"⟩, ⟨3, "c", "c"⟩, .subType⟩), .work, .answer .done, .work, .work,
        .answer .done, .work, .work, .work,
        .call (.addEdge ⟨⟨1, "a", "a"⟩, ⟨3, "c", "c"⟩, .subType⟩),
        .answer .done, .work, .work] = some _ := rfl
  have reached := ReachableBy.of_check hrun
  exact ⟨_, reached, rfl, rfl, rfl, (stored_edges_between_registered_types reached).2.1 _ rfl⟩

/-- While the removal of a type tells of its first edge, an observer adds another one. It is there after the
removal, and leaves a type that is not registered. -/
theorem astray_edge_dangles : ∃ e : Engine Node, e.Reachable ∧ e.atRest ∧
    e.graph.contains ⟨1, "a", "a"⟩ = false ∧
      e.graph.outgoing ⟨1, "a", "a"⟩ = [⟨⟨1, "a", "a"⟩, ⟨3, "c", "c"⟩, .subType⟩] :=
  ⟨_, ⟨[.call (.addType ⟨1, "a", "a"⟩ "a"), .work, .work,
    .call (.addType ⟨2, "b", "b"⟩ "b"), .work, .work,
    .call (.addType ⟨3, "c", "c"⟩ "c"), .work, .work,
    .call (.addEdge ⟨⟨1, "a", "a"⟩, ⟨2, "b", "b"⟩, .subType⟩), .work, .work,
    .call (.listenToGraph ⟨0⟩),
    .call (.removeType ⟨1, "a", "a"⟩), .work, .work,
    .call (.addEdge ⟨⟨1, "a", "a"⟩, ⟨3, "c", "c"⟩, .subType⟩), .work, .answer .done, .work, .work,
    .answer .done, .work, .work, .work, .answer .done, .work, .work], rfl⟩, rfl, rfl, rfl⟩

end Engine
end LiveTypes
