import LiveTypes.Proofs.RuleWork

/-!
# The numbers of rules

A type system numbers its rules from zero on, and its numbers have 32 bits. So of the rules that are ever
added to it, the first `UInt32.size` have numbers of their own, in the order of registration, whatever else
happens in the run (`Engine.run?_ordered`). The rule after them has the number of the first again.
-/
namespace LiveTypes

variable {ν : Type}

/-- The rules of a set to which so many have been added have numbers of their own, in the order of
registration. -/
structure RuleSet.Ordered (set : RuleSet) (added : Nat) : Prop where
  next : set.nextId = .ofNat added
  increasing : set.rules.Pairwise (·.id.toNat < ·.id.toNat)
  issued : ∀ rule ∈ set.rules, rule.id.toNat < added

namespace RuleSet

variable {set : RuleSet} {added : Nat}

theorem ordered_new : ({} : RuleSet).Ordered 0 := ⟨rfl, List.Pairwise.nil, by simp⟩

namespace Ordered

variable (hs : set.Ordered added)
include hs

/-- As long as there are numbers left, the next one is how many rules have been added. -/
theorem toNat_nextId (hleft : added < UInt32.size) : set.nextId.toNat = added := by
  rw [hs.next, UInt32.toNat_ofNat_of_lt' hleft]

theorem add (hleft : added < UInt32.size) (tag : RuleTag) (name : String) (boundTo : Option Ty) :
    (set.add tag name boundTo).Ordered (added + 1) := by
  refine ⟨?_, ?_, fun rule hr => ?_⟩
  · simp [RuleSet.add, hs.next, UInt32.ofNat_add]
  · simp only [RuleSet.add, List.pairwise_append, List.pairwise_singleton, List.mem_singleton]
    refine ⟨hs.increasing, trivial, ?_⟩
    rintro rule hr next rfl
    exact (hs.toNat_nextId hleft).symm ▸ hs.issued rule hr
  · rcases List.mem_append.1 hr with hr | hr
    · exact Nat.lt_succ_of_lt (hs.issued rule hr)
    · rw [List.mem_singleton.1 hr]
      exact (hs.toNat_nextId hleft).symm ▸ Nat.lt_succ_self added

theorem remove (id : RuleId) : (set.remove id).Ordered added :=
  ⟨hs.next, hs.increasing.sublist List.eraseP_sublist,
    fun rule hr => hs.issued rule (List.mem_of_mem_eraseP hr)⟩

theorem distinct : set.Distinct := by
  refine List.pairwise_map.2 (hs.increasing.imp fun hlt heq => ?_)
  rw [heq] at hlt
  exact Nat.lt_irrefl _ hlt

/-- To remove a rule takes exactly the one with its number. -/
theorem rules_remove (id : RuleId) : (set.remove id).rules = set.rules.filter (·.id ≠ id) := by
  simpa [RuleSet.remove, UInt32.toNat_inj] using
    eraseP_eq_filter_of_increasing (fun rule : Rule => rule.id.toNat) hs.increasing id.toNat

end Ordered

theorem find?_eq_none {id : RuleId} (h : set.find? id = none) : ∀ rule ∈ set.rules, rule.id ≠ id := by
  simpa [RuleSet.find?] using h

end RuleSet

/-! ## Additions -/

/-- The rule that comes by an act. -/
def RuleAct.rule? : RuleAct → Option Rule
  | .added rule => some rule
  | _ => none

/-- The rules that were added. -/
def additions (acts : List RuleAct) : List Rule := acts.filterMap (·.rule?)

@[simp] theorem additions_append (acts later : List RuleAct) :
    additions (acts ++ later) = additions acts ++ additions later :=
  List.filterMap_append

/-- Whether a move adds a rule to a system. -/
def Move.addsRule (s : SystemId) : Move ν → Bool
  | .call (.addRule s' _ _ _) => s' = s
  | _ => false

/-- How many rules the moves of a run add to a system. -/
def rulesAdded (s : SystemId) (moves : List (Move ν)) : Nat := moves.countP (·.addsRule s)

@[simp] theorem rulesAdded_append (s : SystemId) (moves later : List (Move ν)) :
    rulesAdded s (moves ++ later) = rulesAdded s moves + rulesAdded s later :=
  List.countP_append

namespace Engine

variable {s : SystemId} {e e' : Engine ν} {m : Move ν} {act : Option RuleAct} {side : RuleSide} {added : Nat}

/-- What the moves of the host do to the rules of a system, one after the other. -/
def ruleActs (e : Engine ν) (s : SystemId) : List (Move ν) → List RuleAct
  | [] => []
  | m :: moves => (e.ruleAct? s m).toList ++ (e.move? m).elim [] (·.ruleActs s moves)

theorem length_additions_ruleAct (e : Engine ν) (s : SystemId) (m : Move ν) :
    (additions (e.ruleAct? s m).toList).length = rulesAdded s [m] := by
  unfold ruleAct?
  split
  · rename_i s' _ _ _
    by_cases hs : s' = s <;> simp [additions, rulesAdded, Move.addsRule, RuleAct.rule?, hs]
  · split <;> rfl
  · split <;> rfl
  · rename_i hother _ _
    have hm : m.addsRule s = false := by
      unfold Move.addsRule
      split
      · exact absurd rfl (hother _ _ _ _)
      · rfl
    simp [additions, rulesAdded, hm]

/-- The acts of a run add as many rules as its moves. -/
theorem length_additions_ruleActs {moves : List (Move ν)} (hr : e.run? moves = some e') :
    (additions (e.ruleActs s moves)).length = rulesAdded s moves := by
  induction moves generalizing e with
  | nil => rfl
  | cons m moves ih =>
    obtain ⟨next, hm, hr⟩ := Option.bind_eq_some_iff.1 hr
    have hsplit : rulesAdded s (m :: moves) = rulesAdded s [m] + rulesAdded s moves :=
      rulesAdded_append s [m] moves
    simp only [ruleActs, hm, Option.elim_some, additions_append, List.length_append,
      length_additions_ruleAct, ih hr, hsplit]

theorem RuleStep.ordered (h : RuleStep s e m act side) (ho : (e.ruleSetOf s).Ordered added)
    (hleft : added + (additions act.toList).length ≤ UInt32.size) :
    side.set.Ordered (added + (additions act.toList).length) := by
  cases h with
  | relist hr =>
    obtain ⟨listeners, -, rfl⟩ := hr
    exact ho
  | remove => exact ho.remove _
  | addRule => exact ho.add (Nat.lt_of_succ_le hleft) _ _ _
  | removeRule => exact ho.remove _
  | _ => exact ho

/-- In every run, the rules of a system have numbers of their own as long as no more are added to it than
there are numbers. -/
theorem run?_ordered {moves : List (Move ν)} (ho : (e.ruleSetOf s).Ordered added)
    (hr : e.run? moves = some e') (hleft : added + rulesAdded s moves ≤ UInt32.size) :
    (e'.ruleSetOf s).Ordered (added + rulesAdded s moves) := by
  induction moves generalizing e added with
  | nil =>
    cases hr
    exact ho
  | cons m moves ih =>
    obtain ⟨next, hm, hr⟩ := Option.bind_eq_some_iff.1 hr
    have hsplit : rulesAdded s (m :: moves) = rulesAdded s [m] + rulesAdded s moves :=
      rulesAdded_append s [m] moves
    rw [hsplit, ← Nat.add_assoc] at hleft ⊢
    have hact := length_additions_ruleAct e s m
    refine ih (hact ▸ (move?_ruleStep hm s).ordered ho ?_) hr hleft
    exact hact ▸ Nat.le_trans (Nat.le_add_right _ _) hleft

theorem rulesOrdered_of_run {moves : List (Move ν)} (hr : run? {} moves = some e)
    (hleft : rulesAdded s moves ≤ UInt32.size) : (e.ruleSetOf s).Ordered (rulesAdded s moves) := by
  have hnew : (({} : Engine ν).ruleSetOf s).Ordered 0 := RuleSet.ordered_new
  simpa using run?_ordered hnew hr (by simpa using hleft)

end Engine
end LiveTypes
