import LiveTypes.Relation
import Mathlib.Logic.Relation

/-!
# Assignability is reachability

A path of edges that carry values leads from a type to another exactly if the search of `Graph.reaches`
says so, whatever cycles, self-loops and parallel edges there are and whether or not the ends of the edges
are registered. The invariant of the search is that a path to the goal starts somewhere in the queue and
uses only edges that nobody has followed yet: a path that comes back to the type at hand can be cut after
its last visit there.

`markingSearch` is the same search written with a list of the types that it has looked at. A type can wait
in its queue many times, but hands over its edges only once, so the number of looks is bounded all the same.
-/
namespace LiveTypes

/-! ## Paths -/

/-- One edge makes a value of a type one of another type. -/
def Converts (edges : List Edge) (a b : Ty) : Prop :=
  ∃ x ∈ edges, x.source = a ∧ x.target = b ∧ (x.kind = .subType ∨ x.kind = .implicitConversion)

theorem EdgeKind.carriesValues_iff (kind : EdgeKind) :
    kind.carriesValues = true ↔ kind = .subType ∨ kind = .implicitConversion := by
  cases kind <;> simp [carriesValues]

theorem Converts.mono {edges edges' : List Edge} (h : ∀ x ∈ edges, x ∈ edges') {a b : Ty}
    (hc : Converts edges a b) : Converts edges' a b := by
  obtain ⟨x, hx, hends⟩ := hc
  exact ⟨x, h x hx, hends⟩

theorem mem_edgesElsewhere {t : Ty} {edges : List Edge} {x : Edge} :
    x ∈ edgesElsewhere t edges ↔ x ∈ edges ∧ x.source ≠ t := by
  simp [edgesElsewhere]

theorem mem_successors {t s : Ty} {edges : List Edge} : s ∈ successors t edges ↔ Converts edges t s := by
  simp only [successors, List.mem_map, List.mem_filter, Bool.and_eq_true, decide_eq_true_eq,
    EdgeKind.carriesValues_iff, Converts]
  constructor
  · rintro ⟨x, ⟨hx, hs, hk⟩, ht⟩
    exact ⟨x, hx, hs, ht, hk⟩
  · rintro ⟨x, hx, hs, ht, hk⟩
    exact ⟨x, ⟨hx, hs, hk⟩, ht⟩

/-- Nothing leads on from a type whose edges are gone. -/
theorem eq_of_path_elsewhere {t goal : Ty} {edges : List Edge}
    (h : Relation.ReflTransGen (Converts (edgesElsewhere t edges)) t goal) : t = goal := by
  rcases h.cases_head with heq | ⟨s, ⟨x, hx, hs, -⟩, -⟩
  · exact heq
  · exact absurd hs (mem_edgesElsewhere.1 hx).2

/-- A path either avoids the edges of a type, or what comes after its last visit there does. -/
theorem path_elsewhere {t start goal : Ty} {edges : List Edge}
    (h : Relation.ReflTransGen (Converts edges) start goal) :
    Relation.ReflTransGen (Converts (edgesElsewhere t edges)) start goal ∨
      ∃ s ∈ successors t edges, Relation.ReflTransGen (Converts (edgesElsewhere t edges)) s goal := by
  induction h using Relation.ReflTransGen.head_induction_on with
  | refl => exact .inl .refl
  | @head a b hab _ ih =>
    rcases ih with hb | hlater
    · by_cases ha : a = t
      · subst ha
        exact .inr ⟨b, mem_successors.2 hab, hb⟩
      · obtain ⟨x, hx, hs, hends⟩ := hab
        have hx' : x ∈ edgesElsewhere t edges := mem_edgesElsewhere.2 ⟨hx, hs ▸ ha⟩
        exact .inl (hb.head ⟨x, hx', hs, hends⟩)
    · exact .inr hlater

/-! ## The search -/

/-- A search succeeds exactly if a path leads to the goal from a type in its queue. -/
theorem reachesFrom_iff {goal : Ty} {edges : List Edge} {queue : List Ty} :
    reachesFrom goal edges queue = true ↔ ∃ t ∈ queue, Relation.ReflTransGen (Converts edges) t goal := by
  fun_induction reachesFrom goal edges queue with
  | case1 => simp
  | case2 => simp [Relation.ReflTransGen.refl]
  | case3 edges current queue hne _ ih =>
    rw [ih]
    constructor
    · rintro ⟨t, ht, hp⟩
      have hp : Relation.ReflTransGen (Converts edges) t goal :=
        Relation.ReflTransGen.mono (fun _ _ => Converts.mono fun x hx => (mem_edgesElsewhere.1 hx).1) _ _ hp
      rcases List.mem_append.1 ht with ht | ht
      · exact ⟨t, List.mem_cons_of_mem _ ht, hp⟩
      · exact ⟨current, List.mem_cons_self, hp.head (mem_successors.1 ht)⟩
    · rintro ⟨t, ht, hp⟩
      rcases path_elsewhere (t := current) hp with hp | ⟨s, hs, hp⟩
      · rcases List.mem_cons.1 ht with rfl | ht
        · exact absurd (eq_of_path_elsewhere hp) hne
        · exact ⟨t, List.mem_append_left _ ht, hp⟩
      · exact ⟨s, List.mem_append_right _ hs, hp⟩

theorem Graph.reaches_iff (g : Graph) (a b : Ty) :
    g.reaches a b = true ↔ Relation.ReflTransGen (Converts g.edges) a b := by
  simp [Graph.reaches, reachesFrom_iff]

/-- What a comparison by assignability says. -/
theorem Graph.compare_assignable_eq_none (g : Graph) (a b : Ty) :
    g.compare .assignable a b = none ↔ Relation.ReflTransGen (Converts g.edges) a b := by
  rw [← g.reaches_iff]
  unfold Graph.compare
  by_cases h : g.reaches a b <;> simp [h]

/-! ## Marking types -/

/-- Search by at most `looks` looks at the first type in the queue. A type is marked when it is looked at,
not when it joins the queue; if it is marked already, nothing happens. -/
def markingSearch (edges : List Edge) (goal : Ty) : Nat → List Ty → List Ty → Option Bool
  | 0, _, _ => none
  | _ + 1, _, [] => some false
  | looks + 1, marked, current :: queue =>
    if current = goal then some true
    else if current ∈ marked then markingSearch edges goal looks marked queue
    else markingSearch edges goal looks (current :: marked) (queue ++ successors current edges)

/-- The edges that do not leave a marked type. -/
def unfollowed (marked : List Ty) (edges : List Edge) : List Edge := edges.filter (·.source ∉ marked)

theorem mem_unfollowed {marked : List Ty} {edges : List Edge} {x : Edge} :
    x ∈ unfollowed marked edges ↔ x ∈ edges ∧ x.source ∉ marked := by
  simp [unfollowed]

theorem edgesElsewhere_unfollowed (t : Ty) (marked : List Ty) (edges : List Edge) :
    edgesElsewhere t (unfollowed marked edges) = unfollowed (t :: marked) edges := by
  simp only [edgesElsewhere, unfollowed, List.filter_filter]
  refine List.filter_congr fun x _ => ?_
  simp

theorem edgesElsewhere_of_marked {t : Ty} {marked : List Ty} (h : t ∈ marked) (edges : List Edge) :
    edgesElsewhere t (unfollowed marked edges) = unfollowed marked edges := by
  refine List.filter_eq_self.2 fun x hx => ?_
  have hx := (mem_unfollowed.1 hx).2
  simp only [ne_eq, decide_not, Bool.not_eq_eq_eq_not, Bool.not_true, decide_eq_false_iff_not]
  rintro rfl
  exact hx h

theorem successors_of_marked {t : Ty} {marked : List Ty} (h : t ∈ marked) (edges : List Edge) :
    successors t (unfollowed marked edges) = [] := by
  refine List.eq_nil_iff_forall_not_mem.2 fun s hs => ?_
  obtain ⟨x, hx, rfl, -⟩ := mem_successors.1 hs
  exact (mem_unfollowed.1 hx).2 h

theorem successors_of_unmarked {t : Ty} {marked : List Ty} (h : t ∉ marked) (edges : List Edge) :
    successors t (unfollowed marked edges) = successors t edges := by
  simp only [successors, unfollowed, List.filter_filter]
  congr 1
  refine List.filter_congr fun x _ => ?_
  by_cases hx : x.source = t
  · simp [hx, h]
  · simp [hx]

/-- The marks stand for the edges that were followed. Each look takes a type from the queue, and what joins
the queue leaves the edges still to follow, so their number together bounds the looks. -/
theorem markingSearch_eq {edges : List Edge} {goal : Ty} {looks : Nat} {marked queue : List Ty}
    (h : (unfollowed marked edges).length + queue.length < looks) :
    markingSearch edges goal looks marked queue =
      some (reachesFrom goal (unfollowed marked edges) queue) := by
  induction looks generalizing marked queue with
  | zero => omega
  | succ looks ih =>
    cases queue with
    | nil => simp [markingSearch, reachesFrom]
    | cons current queue =>
      simp only [List.length_cons] at h
      unfold markingSearch reachesFrom
      by_cases hgoal : current = goal
      · simp [hgoal]
      · simp only [if_neg hgoal]
        by_cases hm : current ∈ marked
        · rw [if_pos hm, edgesElsewhere_of_marked hm, successors_of_marked hm, List.append_nil]
          exact ih (by omega)
        · have hshift := length_elsewhere_add_successors current (unfollowed marked edges)
          rw [edgesElsewhere_unfollowed, successors_of_unmarked hm] at hshift
          rw [if_neg hm, edgesElsewhere_unfollowed, successors_of_unmarked hm]
          refine ih ?_
          simp only [List.length_append]
          omega

/-! ## The main statement -/

/-- A type is assignable to another exactly if they are the same or a path of sub-type and conversion edges
leads from the one to the other; otherwise the comparison gives their plain mismatch. A search that marks
types as it looks at them comes to the same answer within two looks more than there are edges. -/
theorem assignable_iff_path (g : Graph) (a b : Ty) :
    (g.compare .assignable a b = none ↔ a = b ∨ Relation.TransGen (Converts g.edges) a b) ∧
    (¬ (a = b ∨ Relation.TransGen (Converts g.edges) a b) →
      ∃ m, g.compare .assignable a b = some m ∧ m.relation = .assignable ∧ m.actual = a ∧
        m.expected = b ∧ m.parts = []) ∧
    markingSearch g.edges b (g.edges.length + 2) [] [a] = some (g.compare .assignable a b).isNone := by
  have path : g.compare .assignable a b = none ↔ a = b ∨ Relation.TransGen (Converts g.edges) a b := by
    rw [g.compare_assignable_eq_none, Relation.reflTransGen_iff_eq_or_transGen, eq_comm]
  refine ⟨path, fun hno => ?_, ?_⟩
  · have hr : g.reaches a b = false := by
      rw [← path, g.compare_assignable_eq_none, ← g.reaches_iff] at hno
      simpa using hno
    simp [Graph.compare, hr, Mismatch.withMessage, Mismatch.plain]
  · have all : unfollowed [] g.edges = g.edges := by simp [unfollowed]
    rw [markingSearch_eq (by simp [all]), all]
    have hr : reachesFrom b g.edges [a] = g.reaches a b := rfl
    rw [hr]
    unfold Graph.compare
    by_cases h : g.reaches a b <;> simp [h]

end LiveTypes
