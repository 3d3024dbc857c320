import LiveTypes.TypeGraph.Basic
import Mathlib.Data.List.Dedup
import Mathlib.Data.List.Nodup

/-!
# The graph keeps its two lists of keys in step

The graph has the registered types twice: in a table by key, and as a list of keys in the order of
registration. `Graph.Consistent` says that the two agree, that no type has two keys and that no edge is
stored twice. Each change of the graph keeps it. In a consistent graph all ways to look for a type give
the same answer.
-/
namespace LiveTypes

/-! ## Tables -/

namespace Table

variable {α : Type}

/-- No name is there twice. -/
def Distinct (t : Table α) : Prop := (t.map (·.1)).Nodup

theorem Distinct.erase {t : Table α} (h : t.Distinct) (name : String) : Distinct (t.erase name) :=
  h.sublist (List.filter_sublist.map _)

theorem Distinct.insert {t : Table α} (h : t.Distinct) (name : String) (a : α) :
    Distinct (t.insert name a) := by
  unfold Distinct Table.insert
  rw [List.map_append, List.nodup_append]
  refine ⟨h.erase name, by simp, fun x hx y hy => ?_⟩
  obtain ⟨entry, he, rfl⟩ := List.mem_map.1 hx
  rw [List.mem_singleton.1 hy]
  simpa using (List.mem_filter.1 he).2

/-- What is in a table is found under its name. -/
theorem Distinct.mem_iff {t : Table α} (h : t.Distinct) {name : String} {a : α} :
    (name, a) ∈ t ↔ t.find? name = some a := by
  induction t with
  | nil => simp [find?]
  | cons entry t ih =>
    obtain ⟨first, b⟩ := entry
    obtain ⟨hf, ht⟩ := List.nodup_cons.1 (show ((first, b) :: t).map (·.1) |>.Nodup from h)
    have hfirst : ∀ c, (first, c) ∉ t := fun c hc => hf (List.mem_map.2 ⟨_, hc, rfl⟩)
    rw [find?_cons, List.mem_cons, ih ht]
    by_cases hn : name = first
    · subst hn
      rw [if_pos rfl, ← ih ht]
      constructor
      · rintro (he | he)
        · cases he
          rfl
        · exact absurd he (hfirst a)
      · intro he
        cases he
        exact .inl rfl
    · simp [hn]

end Table

namespace Graph

variable {g g' : Graph} {t : Ty} {key : String} {x : Edge}

/-! ## What a change comes to -/

/-- A type that is added was not there, and its key was free. -/
theorem addType_added (h : g.addType t key = .added g') :
    g.get? key = none ∧ g.keyOf? t = none ∧ g' = { g with nodes := g.nodes.insert key t } := by
  unfold addType at h
  split at h
  · split at h <;> cases h
  · rename_i hk
    split at h
    · cases h
    · rename_i ht
      cases h
      exact ⟨hk, ht, rfl⟩

/-- An edge that is added was not there, and its ends were. -/
theorem addEdge_added (h : g.addEdge x = .added g') :
    g.contains x.source ∧ g.contains x.target ∧ x ∉ g.edges ∧
      g' = { g with edges := g.edges ++ [x] } := by
  unfold addEdge at h
  split at h
  · cases h
  · rename_i hs
    split at h
    · cases h
    · rename_i ht
      split at h
      · cases h
      · rename_i hx
        cases h
        exact ⟨by simpa using hs, by simpa using ht, hx, rfl⟩

theorem get?_insert (hn : g'.nodes = g.nodes.insert key t) (k : String) :
    g'.get? k = if k = key then some t else g.get? k := by
  rw [get?, hn]
  exact Table.find?_insert _ _ _ _

theorem get?_freeKey (key k : String) :
    (g.freeKey key).get? k = if k = key then none else g.get? k :=
  Table.find?_erase _ _ _

/-- The key of a type holds that type. -/
theorem get?_of_keyOf? (hk : g.keyOf? t = some key) : g.get? key = some t := by
  simpa using List.find?_some hk

/-! ## Consistent graphs -/

/-- The table and the list have the same keys, each once; a type is under one key only; no edge is there
twice. -/
structure Consistent (g : Graph) : Prop where
  distinct : g.nodes.byKey.Distinct
  order_nodup : g.nodes.order.Nodup
  mem_order : ∀ key, key ∈ g.nodes.order ↔ (g.get? key).isSome
  one_key : ∀ t k k', g.get? k = some t → g.get? k' = some t → k = k'
  edges_nodup : g.edges.Nodup

theorem consistent_new : ({} : Graph).Consistent where
  distinct := List.nodup_nil
  order_nodup := List.nodup_nil
  mem_order := by simp [get?, Table.find?]
  one_key := by simp [get?, Table.find?]
  edges_nodup := List.nodup_nil

namespace Consistent

variable (h : g.Consistent)
include h

/-! ### Looking -/

theorem contains_iff : g.contains t ↔ ∃ key, g.get? key = some t := by
  simp only [contains, List.any_eq_true, decide_eq_true_eq, Prod.exists]
  constructor
  · rintro ⟨key, t', hm, rfl⟩
    exact ⟨key, h.distinct.mem_iff.1 hm⟩
  · rintro ⟨key, hk⟩
    exact ⟨key, t, h.distinct.mem_iff.2 hk, rfl⟩

theorem mem_types : t ∈ g.types ↔ ∃ key, g.get? key = some t := by
  rw [types, List.mem_filterMap]
  refine exists_congr fun key => ⟨And.right, fun hk => ⟨?_, hk⟩⟩
  rw [h.mem_order, hk]
  rfl

theorem keyOf?_eq_some : g.keyOf? t = some key ↔ g.get? key = some t := by
  refine ⟨get?_of_keyOf?, fun hk => ?_⟩
  obtain ⟨other, ho⟩ : ∃ other, g.keyOf? t = some other := by
    rw [← Option.isSome_iff_exists, keyOf?, List.find?_isSome]
    exact ⟨key, (h.mem_order key).2 (by simp [hk]), by simpa using hk⟩
  rw [ho, h.one_key t other key (get?_of_keyOf? ho) hk]

theorem keyOf?_eq_none : g.keyOf? t = none ↔ g.contains t = false := by
  rw [← Bool.not_eq_true, h.contains_iff, Option.eq_none_iff_forall_ne_some]
  simp [h.keyOf?_eq_some]

theorem types_nodup : g.types.Nodup :=
  h.order_nodup.filterMap fun k k' t hk hk' => h.one_key t k k' hk hk'

/-! ### Changing -/

theorem addType (ha : g.addType t key = .added g') : g'.Consistent := by
  obtain ⟨hk, ht, rfl⟩ := addType_added ha
  have hget : ∀ k, get? { g with nodes := g.nodes.insert key t } k =
      if k = key then some t else g.get? k := get?_insert rfl
  have hfree : key ∉ g.nodes.order := by simp [h.mem_order, hk]
  have hnew : ∀ k, g.get? k ≠ some t := fun k hk' => by
    rw [h.keyOf?_eq_some.2 hk'] at ht
    cases ht
  refine ⟨h.distinct.insert key t, ?_, fun k => ?_, fun t' k k' hk hk' => ?_, h.edges_nodup⟩
  · simpa [Nodes.insert] using h.order_nodup.concat hfree
  · rw [hget]
    simp only [Nodes.insert, List.mem_append, List.mem_singleton, h.mem_order]
    by_cases hkey : k = key <;> simp [hkey]
  · rw [hget] at hk hk'
    split at hk <;> split at hk'
    · simp_all
    · rw [← Option.some.inj hk] at hk'
      exact absurd hk' (hnew k')
    · rw [← Option.some.inj hk'] at hk
      exact absurd hk (hnew k)
    · exact h.one_key t' k k' hk hk'

theorem freeKey (key : String) : (g.freeKey key).Consistent := by
  refine ⟨h.distinct.erase key, h.order_nodup.filter _, fun k => ?_, fun t k k' hk hk' => ?_,
    h.edges_nodup⟩
  · rw [get?_freeKey]
    simp only [Graph.freeKey, Nodes.erase, List.mem_filter, h.mem_order]
    by_cases hkey : k = key <;> simp [hkey]
  · rw [get?_freeKey] at hk hk'
    split at hk
    · cases hk
    · split at hk'
      · cases hk'
      · exact h.one_key t k k' hk hk'

theorem addEdge (ha : g.addEdge x = .added g') : g'.Consistent := by
  obtain ⟨-, -, hx, rfl⟩ := addEdge_added ha
  exact { h with edges_nodup := by simpa using h.edges_nodup.concat hx }

theorem eraseEdge (x : Edge) : (g.eraseEdge x).Consistent :=
  { h with edges_nodup := h.edges_nodup.erase x }

/-! ### Types that come and go -/

/-- A type that is added comes last, and only it is new. -/
theorem types_addType (ha : g.addType t key = .added g') :
    g.contains t = false ∧ g'.types = g.types ++ [t] ∧
      ∀ t', g'.contains t' = (g.contains t' || decide (t' = t)) := by
  have h' := h.addType ha
  obtain ⟨hk, ht, hg⟩ := addType_added ha
  have hget : ∀ k, g'.get? k = if k = key then some t else g.get? k := get?_insert (by rw [hg])
  have hfree : ∀ k ∈ g.nodes.order, k ≠ key := by
    rintro k hm rfl
    simp [h.mem_order, hk] at hm
  refine ⟨h.keyOf?_eq_none.1 ht, ?_, fun t' => Bool.eq_iff_iff.2 ?_⟩
  · have hold : g.nodes.order.filterMap g'.get? = g.types :=
      List.filterMap_congr fun k hm => by rw [hget, if_neg (hfree k hm)]
    have horder : g'.nodes.order = g.nodes.order ++ [key] := by rw [hg]; rfl
    rw [types, horder, List.filterMap_append, hold]
    simp [hget]
  · rw [Bool.or_eq_true, h'.contains_iff, h.contains_iff, decide_eq_true_eq]
    constructor
    · rintro ⟨k, hk'⟩
      rw [hget] at hk'
      split at hk'
      · exact .inr (Option.some.inj hk').symm
      · exact .inl ⟨k, hk'⟩
    · rintro (⟨k, hk'⟩ | rfl)
      · refine ⟨k, ?_⟩
        rw [hget, if_neg (by rintro rfl; simp [hk] at hk'), hk']
      · exact ⟨key, by rw [hget, if_pos rfl]⟩

/-- When a key is freed, exactly the type that it held goes. -/
theorem contains_freeKey (key : String) :
    (g.freeKey key).contains t ↔ g.contains t ∧ g.get? key ≠ some t := by
  rw [(h.freeKey key).contains_iff, h.contains_iff]
  constructor
  · rintro ⟨k, hk⟩
    rw [get?_freeKey] at hk
    split at hk
    · cases hk
    · rename_i hne
      exact ⟨⟨k, hk⟩, fun hkey => hne (h.one_key t k key hk hkey)⟩
  · rintro ⟨⟨k, hk⟩, hne⟩
    refine ⟨k, ?_⟩
    rw [get?_freeKey, if_neg (by rintro rfl; exact hne hk), hk]

/-- When a key is freed, the types that are left keep their order. -/
theorem types_freeKey (key : String) :
    (g.freeKey key).types = g.types.filter (g.freeKey key).contains := by
  have hleft : (g.freeKey key).types =
      g.nodes.order.filterMap fun k => if k = key then none else g.get? k := by
    have : (g.freeKey key).nodes.order = g.nodes.order.filter (· ≠ key) := rfl
    rw [types, this, List.filterMap_filter]
    refine List.filterMap_congr fun k _ => ?_
    rw [get?_freeKey]
    by_cases hk : k = key <;> simp [hk]
  rw [hleft, types, List.filter_filterMap]
  refine List.filterMap_congr fun k _ => ?_
  by_cases hk : k = key
  · subst hk
    rw [if_pos rfl]
    cases ht : g.get? k with
    | none => rfl
    | some t =>
      have : (g.freeKey k).contains t = false := by
        rw [← Bool.not_eq_true, h.contains_freeKey]
        exact fun hc => hc.2 ht
      simp [Option.filter, this]
  · rw [if_neg hk]
    cases ht : g.get? k with
    | none => rfl
    | some t =>
      have : (g.freeKey key).contains t = true :=
        (h.contains_freeKey key).2 ⟨h.contains_iff.2 ⟨k, ht⟩, fun hkey => hk (h.one_key t k key ht hkey)⟩
      simp [Option.filter, this]

end Consistent

end Graph
end LiveTypes
