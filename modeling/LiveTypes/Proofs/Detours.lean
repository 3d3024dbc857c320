import LiveTypes.Proofs.Assignability
import LiveTypes.Proofs.Departures
import Mathlib.Data.List.Chain

/-!
# Assignability after a type has left

A type that leaves takes its edges along, and with them every path that passes through it. All other paths
stay, so of two types that are left one is assignable to the other exactly if a path led past the one that
left. That one itself is cut off, and stays so after it comes back until it gets an edge of its own.
-/
namespace LiveTypes

/-! ## Paths past a type -/

/-- A path of sub-type and conversion edges that does not pass through `t`. -/
def LeadsPast (edges : List Edge) (t a b : Ty) : Prop :=
  ∃ stops, List.IsChain (Converts edges) (a :: stops) ∧ (a :: stops).getLast (List.cons_ne_nil a stops) = b ∧
    t ∉ a :: stops

section Paths

variable {edges : List Edge} {t a b : Ty}

/-- Without the edges of a type, those between other types are left. -/
theorem converts_untouched :
    Converts (edges.filter (!·.touches t)) a b ↔ Converts edges a b ∧ a ≠ t ∧ b ≠ t := by
  constructor
  · rintro ⟨x, hx, rfl, rfl, hkind⟩
    obtain ⟨hx, htouch⟩ := List.mem_filter.1 hx
    simp only [Edge.touches, Bool.not_or, Bool.and_eq_true, Bool.not_eq_true', decide_eq_false_iff_not] at htouch
    exact ⟨⟨x, hx, rfl, rfl, hkind⟩, htouch.1, htouch.2⟩
  · rintro ⟨⟨x, hx, rfl, rfl, hkind⟩, hsource, htarget⟩
    exact ⟨x, List.mem_filter.2 ⟨hx, by simp [Edge.touches, hsource, htarget]⟩, rfl, rfl, hkind⟩

theorem isChain_untouched {stops : List Ty} (ha : a ≠ t) :
    List.IsChain (Converts (edges.filter (!·.touches t))) (a :: stops) ↔
      List.IsChain (Converts edges) (a :: stops) ∧ t ∉ a :: stops := by
  induction stops generalizing a with
  | nil => simp [Ne.symm ha]
  | cons b stops ih =>
    rw [List.isChain_cons_cons, List.isChain_cons_cons, converts_untouched, List.mem_cons]
    constructor
    · rintro ⟨⟨hab, -, hb⟩, hrest⟩
      obtain ⟨hchain, hpast⟩ := (ih hb).1 hrest
      exact ⟨⟨hab, hchain⟩, by simp [Ne.symm ha, hpast]⟩
    · rintro ⟨⟨hab, hchain⟩, hpast⟩
      obtain ⟨-, hpast⟩ := not_or.1 hpast
      have hb : b ≠ t := fun h => hpast (by simp [h])
      exact ⟨⟨hab, ha, hb⟩, (ih hb).2 ⟨hchain, hpast⟩⟩

/-- The paths that are left without the edges of a type are those that led past it. -/
theorem path_untouched_iff (ha : a ≠ t) :
    Relation.ReflTransGen (Converts (edges.filter (!·.touches t))) a b ↔ LeadsPast edges t a b := by
  constructor
  · intro h
    obtain ⟨stops, hchain, hlast⟩ := List.exists_isChain_cons_of_relationReflTransGen h
    obtain ⟨hchain, hpast⟩ := (isChain_untouched ha).1 hchain
    exact ⟨stops, hchain, hlast, hpast⟩
  · rintro ⟨stops, hchain, hlast, hpast⟩
    exact List.relationReflTransGen_of_exists_isChain_cons stops ((isChain_untouched ha).2 ⟨hchain, hpast⟩) hlast

/-- A type without edges is cut off from all others. -/
theorem cut_off_of_untouched (h : ∀ x ∈ edges, x.touches t = false) (ha : a ≠ t) :
    ¬ Relation.ReflTransGen (Converts edges) a t ∧ ¬ Relation.ReflTransGen (Converts edges) t a := by
  constructor
  · intro hpath
    rcases hpath.cases_tail with heq | ⟨c, -, x, hx, -, htarget, -⟩
    · exact ha heq.symm
    · simpa [Edge.touches, htarget] using h x hx
  · intro hpath
    rcases hpath.cases_head with heq | ⟨c, ⟨x, hx, hsource, -⟩, -⟩
    · exact ha heq.symm
    · simpa [Edge.touches, hsource] using h x hx

end Paths

namespace Engine

variable {ν : Type}

/-! ## Runs that add no edge of a type -/

/-- Whether a move adds no edge at a type. -/
def addsNoEdgeAt (t : Ty) (_ : Engine ν) : Move ν → Bool
  | .call (.addEdge x) => !x.touches t
  | _ => true

/-- Only who adds an edge makes one. -/
theorem GraphStep.mem_edges {e : Engine ν} {m : Move ν} {side : GraphSide ν} {x : Edge}
    (h : GraphStep e m side) (hx : x ∈ side.graph.edges) : x ∈ e.graph.edges ∨ m = .call (.addEdge x) := by
  cases h with
  | relist h =>
    obtain ⟨listeners, -, rfl⟩ := h
    exact .inl hx
  | forget => exact .inl hx
  | done => exact .inl hx
  | turn => exact .inl hx
  | removeType => exact .inl hx
  | missEdge => exact .inl hx
  | dropNode => exact .inl hx
  | addType _ hadd =>
    obtain ⟨-, -, rfl⟩ := Graph.addType_added hadd
    exact .inl hx
  | removeEdge => exact .inl (List.mem_of_mem_erase hx)
  | dropEdge => exact .inl (List.mem_of_mem_erase hx)
  | addEdge hm hadd =>
    obtain ⟨-, -, -, rfl⟩ := Graph.addEdge_added hadd
    rcases List.mem_append.1 hx with hx | hx
    · exact .inl hx
    · rw [List.mem_singleton.1 hx]
      exact .inr hm

theorem LeadsBy.untouched {t : Ty} {e e' : Engine ν} (h : LeadsBy (fun e m => e.addsNoEdgeAt t m) e e')
    (he : ∀ x ∈ e.graph.edges, x.touches t = false) : ∀ x ∈ e'.graph.edges, x.touches t = false := by
  refine h.keeps (P := fun e => ∀ x ∈ e.graph.edges, x.touches t = false) he ?_
  intro e e' m he hadds hm x hx
  rcases (move?_graphStep hm).mem_edges hx with hx | rfl
  · exact he x hx
  · simpa [addsNoEdgeAt] using hadds

/-- The removal of a registered type comes to its end wherever callbacks have taken it that leave the graph
alone. Then another type is assignable to a type exactly if, before, a path of sub-type and conversion edges
led from the one to the other past the type that left. No other type is assignable to that
one, nor it to any, also in whatever follows, be it that the type comes back, until an edge is added at it. -/
theorem assignable_past_removed_type {e : Engine ν} (he : e.Reachable) (hturn : e.hostTurn) {t : Ty}
    {key : String} (hkey : e.graph.get? key = some t) :
    ∃ e₁, e.move? (.call (.removeType t)) = some e₁ ∧
      ∀ deeds e', Course (fun e m => e.sparesGraph m) Engine.deeds e.stack e₁ deeds e' →
        ComesTo (fun _ _ => True) e.stack (.flag true) e' ∧
        (e'.stack = e.stack →
          (∀ a b, a ≠ t → (e'.graph.compare .assignable a b = none ↔ LeadsPast e.graph.edges t a b)) ∧
          ∀ e'', LeadsBy (fun e m => e.addsNoEdgeAt t m) e' e'' → ∀ a, a ≠ t →
            e''.graph.compare .assignable a t ≠ none ∧ e''.graph.compare .assignable t a ≠ none) := by
  have hc := he.consistent
  obtain ⟨e₁, hm, hd, hdep, -, hh⟩ := removeType_begins hc hturn hkey
  refine ⟨e₁, hm, fun deeds e' hcourse => ?_⟩
  obtain ⟨hd', hdep', -⟩ := hdep.course hc hd hh hcourse
  refine ⟨hd'.comesTo, fun hs => ?_⟩
  have hedges : e'.graph.edges = e.graph.edges.filter (!·.touches t) := by
    rw [(hdep'.ended hs).2]
    rfl
  refine ⟨fun a b ha => ?_, fun e'' hlater a ha => ?_⟩
  · rw [Graph.compare_assignable_eq_none, hedges, path_untouched_iff ha]
  · have huntouched := hlater.untouched fun x hx => by
      rw [hedges] at hx
      simpa using (List.mem_filter.1 hx).2
    obtain ⟨hto, hfrom⟩ := cut_off_of_untouched huntouched ha
    rw [Ne, Ne, Graph.compare_assignable_eq_none, Graph.compare_assignable_eq_none]
    exact ⟨hto, hfrom⟩

/-- The theorem at a type between two others. The one has another way to the third, the other has none. The
type comes back under another key and is assignable to nothing. -/
theorem detour_after_removal :
    let a : Ty := ⟨1, "a", "a"⟩
    let b : Ty := ⟨2, "b", "b"⟩
    let c : Ty := ⟨3, "c", "c"⟩
    let d : Ty := ⟨4, "d", "d"⟩
    let t : Ty := ⟨5, "t", "t"⟩
    ∃ (e e₁ e' e'' : Engine Node) (deeds : List GraphDeed), e.Reachable ∧ e.hostTurn ∧
      e.graph.get? "t" = some t ∧ e.move? (.call (.removeType t)) = some e₁ ∧
      e.graph.edges = [⟨a, t, .subType⟩, ⟨t, b, .subType⟩, ⟨a, c, .subType⟩, ⟨c, b, .implicitConversion⟩,
        ⟨d, t, .subType⟩] ∧
      Course (fun e m => e.sparesGraph m) Engine.deeds e.stack e₁ deeds e' ∧ e'.stack = e.stack ∧
      e'.graph.compare .assignable a b = none ∧ e'.graph.compare .assignable d b ≠ none ∧
      LeadsBy (fun e m => e.addsNoEdgeAt t m) e' e'' ∧ e''.graph.get? "again" = some t ∧
      e''.graph.compare .assignable a t ≠ none ∧ e''.graph.compare .assignable t b ≠ none := by
  intro a b c d t
  have hcheck : ((run? ({} : Engine Node)
      [.call (.addType a "a"), .work, .work, .call (.addType b "b"), .work, .work,
        .call (.addType c "c"), .work, .work, .call (.addType d "d"), .work, .work,
        .call (.addType t "t"), .work, .work, .call (.addEdge ⟨a, t, .subType⟩), .work, .work,
        .call (.addEdge ⟨t, b, .subType⟩), .work, .work, .call (.addEdge ⟨a, c, .subType⟩), .work, .work,
        .call (.addEdge ⟨c, b, .implicitConversion⟩), .work, .work,
        .call (.addEdge ⟨d, t, .subType⟩), .work, .work]).bind fun e =>
      (e.move? (.call (.removeType t))).bind fun e₁ =>
      (e₁.courseOf? (fun e m => e.sparesGraph m) Engine.deeds e.stack.length
        [.work, .work, .work, .work, .work, .work, .work, .work, .work]).bind fun x =>
      (x.2.move? (.call (.addType t "again"))).map fun e'' =>
        decide (e.hostTurn ∧ e.graph.get? "t" = some t ∧ e.graph.edges = [⟨a, t, .subType⟩, ⟨t, b, .subType⟩,
          ⟨a, c, .subType⟩, ⟨c, b, .implicitConversion⟩, ⟨d, t, .subType⟩] ∧ e.stack.length = 0 ∧
          x.2.stack.length = 0 ∧ e''.graph.get? "again" = some t)) = some true := by
    decide +kernel
  obtain ⟨e, hrun, hcheck⟩ := Option.bind_eq_some_iff.1 hcheck
  obtain ⟨e₁, hcall, hcheck⟩ := Option.bind_eq_some_iff.1 hcheck
  obtain ⟨⟨deeds, e'⟩, hcourse, hcheck⟩ := Option.bind_eq_some_iff.1 hcheck
  obtain ⟨e'', hagain, hcheck⟩ := Option.map_eq_some_iff.1 hcheck
  obtain ⟨hturn, hkey, hedges, hrest, hrest', hback⟩ := of_decide_eq_true hcheck
  have hs : e'.stack = e.stack := (List.length_eq_zero_iff.1 hrest').trans (List.length_eq_zero_iff.1 hrest).symm
  have hcourse := Course.of_courseOf? hcourse
  have hlater : LeadsBy (fun e m => e.addsNoEdgeAt t m) e' e'' := .move .refl rfl hagain
  obtain ⟨e₂, hcall', hends⟩ := assignable_past_removed_type ⟨_, hrun⟩ hturn hkey
  cases hcall.symm.trans hcall'
  obtain ⟨hpast, hcut⟩ := (hends deeds e' hcourse).2 hs
  have hdetour : LeadsPast e.graph.edges t a b :=
    ⟨[c, b], by simp [hedges, Converts], rfl, by decide⟩
  have hnone : ¬ LeadsPast e.graph.edges t d b := by
    rintro ⟨stops, hchain, hlast, hpast⟩
    cases stops with
    | nil => exact absurd hlast (by decide)
    | cons stop stops =>
      obtain ⟨⟨x, hx, hsource, rfl, -⟩, -⟩ := List.isChain_cons_cons.1 hchain
      -- the only edge that leaves it goes to the type that is avoided
      have htarget : x.target = t := by
        rw [hedges] at hx
        simp only [List.mem_cons, List.not_mem_nil, or_false] at hx
        rcases hx with rfl | rfl | rfl | rfl | rfl
        · exact absurd hsource (by decide)
        · exact absurd hsource (by decide)
        · exact absurd hsource (by decide)
        · exact absurd hsource (by decide)
        · rfl
      exact hpast (by simp [htarget])
  refine ⟨e, e₁, e', e'', deeds, ⟨_, hrun⟩, hturn, hkey, hcall, hedges, hcourse, hs, ?_, ?_, hlater, hback, ?_⟩
  · exact (hpast a b (by decide)).2 hdetour
  · exact fun h => hnone ((hpast d b (by decide)).1 h)
  · exact ⟨(hcut e'' hlater a (by decide)).1, (hcut e'' hlater b (by decide)).2⟩

end Engine
end LiveTypes
