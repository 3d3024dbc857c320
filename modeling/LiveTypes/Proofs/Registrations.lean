import LiveTypes.Proofs.GraphWork

/-!
# The graph in every run

A host may call back from every callback, so a removal may find that its type is gone, or that another type
has its key. Still the graph is consistent at every moment, and it lists its types in the order of their
latest registrations. `Engine.registrations` are the registrations of a run; those of them that count are
the last one of each type that is still there.
-/
namespace LiveTypes

variable {ν : Type}

/-! ## Latest occurrences -/

/-- What comes last counts there and not where it came before. -/
theorem dedup_concat_filter {α : Type} [DecidableEq α] {a : α} {p q : α → Bool} (ha : p a = false)
    (hq : ∀ x, q x = (p x || decide (x = a))) (l : List α) :
    (l ++ [a]).dedup.filter q = l.dedup.filter p ++ [a] := by
  induction l with
  | nil => simp [hq]
  | cons b l ih =>
    rw [List.cons_append]
    by_cases hb : b = a
    · subst hb
      rw [List.dedup_cons_of_mem (by simp), ih]
      by_cases hm : b ∈ l
      · rw [List.dedup_cons_of_mem hm]
      · rw [List.dedup_cons_of_notMem hm, List.filter_cons_of_neg (by simp [ha])]
    · by_cases hm : b ∈ l
      · rw [List.dedup_cons_of_mem (by simp [hm]), List.dedup_cons_of_mem hm, ih]
      · have hqb : q b = p b := by simp [hq, hb]
        rw [List.dedup_cons_of_notMem (by simp [hm, hb]), List.dedup_cons_of_notMem hm, List.filter_cons,
          List.filter_cons, hqb, ih]
        split <;> rfl

namespace Engine

/-! ## Registrations -/

/-- The type that a move registers. -/
def registered? (e : Engine ν) : Move ν → Option Ty
  | .call (.addType t key) =>
    match e.graph.addType t key with
    | .added _ => some t
    | _ => none
  | _ => none

/-- The types that a run registers, one for each registration, oldest first. -/
def registrations (e : Engine ν) : List (Move ν) → List Ty
  | [] => []
  | m :: moves => (e.registered? m).toList ++ (e.move? m).elim [] (·.registrations moves)

theorem registered?_eq_some {e : Engine ν} {m : Move ν} {t : Ty} (h : e.registered? m = some t) :
    ∃ key graph, m = .call (.addType t key) ∧ e.graph.addType t key = .added graph := by
  unfold registered? at h
  split at h
  · rename_i t' key
    split at h
    · rename_i graph hg
      cases h
      exact ⟨key, graph, rfl, hg⟩
    · cases h
  · cases h

theorem registered?_added {e : Engine ν} {t : Ty} {key : String} {graph : Graph}
    (h : e.graph.addType t key = .added graph) : e.registered? (.call (.addType t key)) = some t := by
  simp [registered?, h]

/-- A move that registers a type leads to the graph with it. -/
theorem graph_of_addType {e e' : Engine ν} {t : Ty} {key : String} {graph : Graph}
    (hm : e.move? (.call (.addType t key)) = some e') (ha : e.graph.addType t key = .added graph) :
    e'.graph = graph := by
  simp only [move?] at hm
  split at hm
  · cases hm
    simp only [call, ha]
    rfl
  · cases hm

/-! ## Steps -/

/-- The graph has its types in the order of their latest registrations. -/
def Chronological (g : Graph) (past : List Ty) : Prop := g.types = past.dedup.filter g.contains

section Steps

variable {e e' : Engine ν} {m : Move ν} {past : List Ty}

theorem step_consistent {side : GraphSide ν} (h : e.graph.Consistent) (hs : GraphStep e m side) :
    side.graph.Consistent := by
  cases hs with
  | relist hr =>
    obtain ⟨listeners, -, rfl⟩ := hr
    exact h
  | forget => exact h
  | done => exact h
  | turn => exact h
  | addType _ ha => exact h.addType ha
  | addEdge _ ha => exact h.addEdge ha
  | removeEdge => exact h.eraseEdge _
  | removeType => exact h
  | dropEdge => exact h.eraseEdge _
  | missEdge => exact h
  | dropNode => exact h.freeKey _

/-- A move that registers nothing leaves the types as they are or takes one of them. -/
theorem nodes_of_not_registered {side : GraphSide ν} (hs : GraphStep e m side)
    (hn : e.registered? m = none) :
    side.graph.nodes = e.graph.nodes ∨ ∃ key, side.graph = e.graph.freeKey key := by
  cases hs with
  | relist hr =>
    obtain ⟨listeners, -, rfl⟩ := hr
    exact .inl rfl
  | forget => exact .inl rfl
  | done => exact .inl rfl
  | turn => exact .inl rfl
  | addType hm ha =>
    rw [hm, registered?_added ha] at hn
    cases hn
  | addEdge _ ha =>
    obtain ⟨-, -, -, rfl⟩ := Graph.addEdge_added ha
    exact .inl rfl
  | removeEdge => exact .inl rfl
  | removeType => exact .inl rfl
  | dropEdge => exact .inl rfl
  | missEdge => exact .inl rfl
  | dropNode => exact .inr ⟨_, rfl⟩

theorem Chronological.freeKey {g : Graph} (h : g.Consistent) (hc : Chronological g past) (key : String) :
    Chronological (g.freeKey key) past := by
  rw [Chronological, h.types_freeKey, show g.types = _ from hc, List.filter_filter]
  refine List.filter_congr fun t _ => Bool.eq_iff_iff.2 ?_
  rw [Bool.and_eq_true]
  exact ⟨And.left, fun ht => ⟨ht, ((h.contains_freeKey key).1 ht).1⟩⟩

theorem Chronological.addType {g g' : Graph} {t : Ty} {key : String} (h : g.Consistent)
    (hc : Chronological g past) (ha : g.addType t key = .added g') :
    Chronological g' (past ++ [t]) := by
  obtain ⟨hnew, htypes, hcontains⟩ := h.types_addType ha
  rw [Chronological, htypes, show g.types = _ from hc, dedup_concat_filter hnew hcontains]

theorem move?_chronological (h : e.graph.Consistent) (hc : Chronological e.graph past)
    (hm : e.move? m = some e') : Chronological e'.graph (past ++ (e.registered? m).toList) := by
  cases hr : e.registered? m with
  | some t =>
    obtain ⟨key, graph, rfl, ha⟩ := registered?_eq_some hr
    rw [graph_of_addType hm ha]
    exact hc.addType h ha
  | none =>
    rw [Option.toList_none, List.append_nil]
    rcases nodes_of_not_registered (move?_graphStep hm) hr with hn | ⟨key, hg⟩
    · have hn : e'.graph.nodes = e.graph.nodes := hn
      have hget : e'.graph.get? = e.graph.get? := by
        funext key
        rw [Graph.get?, Graph.get?, hn]
      have hcontains : e'.graph.contains = e.graph.contains := by
        funext t
        rw [Graph.contains, Graph.contains, hn]
      rw [Chronological, Graph.types, hget, hcontains, hn]
      exact hc
    · have hg : e'.graph = e.graph.freeKey key := hg
      rw [hg]
      exact hc.freeKey h key

end Steps

/-! ## Runs -/

/-- The graph is consistent in every run. -/
theorem Reachable.consistent {e : Engine ν} (h : e.Reachable) : e.graph.Consistent := by
  obtain ⟨moves, hr⟩ := h
  exact run?_keeps (P := fun e => e.graph.Consistent)
    (fun h hm => step_consistent h (move?_graphStep hm)) Graph.consistent_new hr

/-- A run goes on from the registrations before it. -/
theorem run?_chronological {moves : List (Move ν)} {e e' : Engine ν} {past : List Ty}
    (h : e.graph.Consistent) (hc : Chronological e.graph past) (hr : e.run? moves = some e') :
    Chronological e'.graph (past ++ e.registrations moves) := by
  induction moves generalizing e past with
  | nil =>
    cases hr
    simpa [registrations] using hc
  | cons m moves ih =>
    obtain ⟨next, hm, hr⟩ := Option.bind_eq_some_iff.1 hr
    have := ih (step_consistent h (move?_graphStep hm)) (move?_chronological h hc hm) hr
    simpa [registrations, hm] using this

/-- At every moment of every run the list of keys has no duplicates and the keys of the table, no type has
two keys, all ways to look for a type agree, types are listed once and in the order of their latest
registrations, and no edge is stored twice. -/
theorem graph_consistent_in_every_run {moves : List (Move ν)} {e : Engine ν}
    (h : run? {} moves = some e) :
    e.graph.nodes.order.Nodup ∧
      e.graph.nodes.order.Perm (e.graph.nodes.byKey.map (·.1)) ∧
      (∀ t k k', e.graph.get? k = some t → e.graph.get? k' = some t → k = k') ∧
      (∀ t, e.graph.contains t ↔ t ∈ e.graph.types) ∧
      (∀ t, e.graph.contains t ↔ ∃! key, e.graph.get? key = some t) ∧
      e.graph.types.Nodup ∧
      e.graph.types = (registrations {} moves).dedup.filter e.graph.contains ∧
      e.graph.edges.Nodup := by
  have hc : e.graph.Consistent := Reachable.consistent ⟨moves, h⟩
  have keys : ∀ key, key ∈ e.graph.nodes.order ↔ key ∈ e.graph.nodes.byKey.map (·.1) := by
    intro key
    rw [hc.mem_order, Option.isSome_iff_exists]
    simp [hc.distinct.mem_iff, Graph.get?]
  refine ⟨hc.order_nodup, (List.perm_ext_iff_of_nodup hc.order_nodup hc.distinct).2 keys, hc.one_key,
    fun t => ?_, fun t => ?_, hc.types_nodup, ?_, hc.edges_nodup⟩
  · rw [hc.contains_iff, hc.mem_types]
  · rw [hc.contains_iff]
    constructor
    · rintro ⟨key, hk⟩
      exact ⟨key, hk, fun k hk' => hc.one_key t k key hk' hk⟩
    · rintro ⟨key, hk, -⟩
      exact ⟨key, hk⟩
  · have start : Chronological (graph ({} : Engine ν)) [] := rfl
    exact run?_chronological Graph.consistent_new start h

/-- The theorem at a removal that is overtaken: while it tells of an edge, its type is removed by the
observer and another type gets the key, which then goes instead. -/
theorem types_after_overtaken_removal : ∃ (moves : List (Move Node)) (e : Engine Node),
    run? {} moves = some e ∧
      registrations {} moves = [⟨1, "a", "a"⟩, ⟨2, "b", "b"⟩, ⟨3, "c", "c"⟩, ⟨1, "a", "a"⟩] ∧
      e.graph.contains ⟨3, "c", "c"⟩ = false ∧ e.graph.types = [⟨2, "b", "b"⟩, ⟨1, "a", "a"⟩] ∧
      e.graph.types = (registrations {} moves).dedup.filter e.graph.contains := by
  refine ⟨[.call (.listenToGraph ⟨0⟩),
    .call (.addType ⟨1, "a", "a"⟩ "a"), .work, .answer .done, .work, .work,
    .call (.addType ⟨2, "b", "b"⟩ "b"), .work, .answer .done, .work, .work,
    .call (.addEdge ⟨⟨1, "a", "a"⟩, ⟨2, "b", "b"⟩, .subType⟩), .work, .answer .done, .work, .work,
    .call (.removeType ⟨1, "a", "a"⟩), .work, .work,
    .call (.removeType ⟨1, "a", "a"⟩), .work, .work, .answer .done, .work, .work,
    .call (.addType ⟨3, "c", "c"⟩ "a"), .work, .answer .done, .work, .work,
    .answer .done, .work, .work, .work, .answer .done, .work, .work,
    .call (.addType ⟨1, "a", "a"⟩ "a"), .work, .answer .done, .work, .work], _, rfl, rfl, rfl, rfl, ?_⟩
  exact (graph_consistent_in_every_run rfl).2.2.2.2.2.2.1

end Engine
end LiveTypes
