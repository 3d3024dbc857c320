import LiveTypes.Proofs.Origins
import Mathlib.Data.Nat.Find

/-!
# Which handle of a type under construction a demand gets

A selector may lead to a type under construction, through deferred selectors and through the selectors of
references. A demand that gets there takes the final handle. But it stops at the first reference that has a
type, and takes that type. It is the initial handle, because a reference resolves speculatively and keeps
what it found. So it depends on the references on the way which of the two handles a demand comes to.
-/
namespace LiveTypes

variable {ν : Type}

namespace Oracle

/-- Where a selector leads: a deferred one to what it expands to, a reference to its own selector, whether it
has a type or not. -/
def onward? (o : Oracle ν) (e : Engine ν) : Selector ν → Option (Selector ν)
  | .deferred d => some (o.expand 0 d)
  | .reference r => some (e.selectorOf r)
  | _ => none

/-- The selector that one comes to from another after so many steps on the way. -/
def way? (o : Oracle ν) (e : Engine ν) (selector : Selector ν) : Nat → Option (Selector ν)
  | 0 => some selector
  | k + 1 => (o.way? e selector k).bind (o.onward? e)

section Way

variable {o : Oracle ν} {e : Engine ν} {t : Ty} {limit j k : Nat} {selector here there : Selector ν}

theorem Origin.onward? (h : o.Origin e t here) (hon : o.onward? e here = some there) : o.Origin e t there := by
  cases h with
  | deferred horigin =>
    cases hon
    exact horigin
  | @reference r selector haim horigin =>
    obtain ⟨y, hy, rfl⟩ := Option.map_eq_some_iff.1 haim
    obtain ⟨x, hx, rfl⟩ := Option.map_eq_some_iff.1 hy
    have hsel : e.selectorOf r = x.selector := by simp [Engine.selectorOf, hx]
    cases hon
    rw [hsel]
    exact horigin
  | _ => cases hon

/-- A type that comes from one selector on a way comes from all that follow. -/
theorem Origin.way? (h : o.Origin e t here) (hj : o.way? e selector j = some here) (hle : j ≤ k)
    (hk : o.way? e selector k = some there) : o.Origin e t there := by
  induction k, hle using Nat.le_induction generalizing there with
  | base =>
    cases hj.symm.trans hk
    exact h
  | succ k _ ih =>
    obtain ⟨mid, hmid, hon⟩ := Option.bind_eq_some_iff.1 hk
    exact (ih hmid).onward? hon

/-- Up to the first reference with a type, a demand makes its hops on the way. -/
theorem stop?_eq_way? (hsame : ∀ left d, o.expand left d = o.expand 0 d)
    (huntyped : ∀ j r, j < k → o.way? e selector j = some (.reference r) → e.typeOf? r = none) :
    o.stop? e true limit selector k = o.way? e selector k := by
  induction k with
  | zero => rfl
  | succ k ih =>
    rw [stop?, way?, ih fun j r hj => huntyped j r (Nat.lt_succ_of_lt hj)]
    cases hway : o.way? e selector k with
    | none => rfl
    | some here =>
      cases here with
      | deferred d => simp [hop?, Oracle.onward?, hsame]
      | reference r => simp [hop?, Oracle.onward?, huntyped k r (Nat.lt_succ_self k) hway]
      | _ => rfl

/-- If a reference on the way has a type, there is a first one. -/
theorem exists_first_typed (h : ∃ j r t, j < k ∧ o.way? e selector j = some (.reference r) ∧
    e.typeOf? r = some t) :
    ∃ j r t, j < k ∧ o.way? e selector j = some (.reference r) ∧ e.typeOf? r = some t ∧
      ∀ j' r', j' < j → o.way? e selector j' = some (.reference r') → e.typeOf? r' = none := by
  classical
  obtain ⟨r, t, hlt, hj, ht⟩ := Nat.find_spec h
  refine ⟨Nat.find h, r, t, hlt, hj, ht, fun j' r' hlt' hj' => ?_⟩
  refine Option.eq_none_iff_forall_ne_some.2 fun t' ht' => ?_
  exact Nat.find_min h hlt' ⟨r', t', hlt'.trans hlt, hj', ht'⟩

end Way

end Oracle

namespace Engine

/-- Whether a move is one of a host that stands by its word, as a check. -/
def keepsWord [DecidableEq ν] (o : Oracle ν) (e : Engine ν) (m : Move ν) : Bool :=
  match m, e.stack with
  | .answer (.selector selector), .expanding d selection :: _ => selector = o.expand selection.hopsLeft d
  | .answer _, .expanding _ _ :: _ => false
  | .answer (.type t), .initializing i selection :: _ => t = o.handle selection.purpose.must i
  | .answer _, .initializing _ _ :: _ => false
  | _, _ => true

theorem standsBy_of_keepsWord [DecidableEq ν] {o : Oracle ν} {e : Engine ν} {m : Move ν} (h : e.keepsWord o m) :
    standsBy o e m := by
  rintro rest selection a rfl
  constructor
  · intro d hs
    cases a with
    | selector selector =>
      have hsel : selector = o.expand selection.hopsLeft d := by simpa [keepsWord, hs] using h
      rw [hsel]
      exact Oracle.answers_expanding.2 rfl
    | _ => simp [keepsWord, hs] at h
  · intro i hs
    cases a with
    | type t =>
      have ht : t = o.handle selection.purpose.must i := by simpa [keepsWord, hs] using h
      rw [ht]
      exact Oracle.answers_initializing.2 rfl
    | _ => simp [keepsWord, hs] at h

/-- Let a selector lead to a type under construction within the limit, with a host that always expands alike
and gives the same handles. A demand of it comes to the final handle if no reference on the way has a type,
and to the initial handle if one has. -/
theorem demand_of_construction {o : Oracle ν} {e : Engine ν} {s : SystemId} {selector : Selector ν}
    {i : Initializer} {k : Nat} (hsame : ∀ left d, o.expand left d = o.expand 0 d)
    (hreach : ReachableBy (standsBy o) e) (hturn : e.hostTurn) (hk : e.knows (.mustSelect s selector))
    (hle : k ≤ e.limitOf s) (hway : o.way? e selector k = some (.initializer i)) :
    ((∀ j r, j < k → o.way? e selector j = some (.reference r) → e.typeOf? r = none) →
      Gives o.Answers e (.mustSelect s selector) (.selection (.ok (o.final i)))) ∧
    ((∃ j r t, j < k ∧ o.way? e selector j = some (.reference r) ∧ e.typeOf? r = some t) →
      Gives o.Answers e (.mustSelect s selector) (.selection (.ok (o.initial i)))) := by
  have hgives := gives_demand (o := o) hturn hk
  constructor
  · intro huntyped
    have hstop : o.stop? e true (e.limitOf s) selector k = _ := Oracle.stop?_eq_way? hsame huntyped
    rwa [Oracle.select_of_stop? hle (hstop.trans hway) rfl] at hgives
  · intro hex
    -- the first reference with a type is where the demand stops
    obtain ⟨j, r, t, hlt, hj, ht, huntyped⟩ := Oracle.exists_first_typed hex
    have hstop : o.stop? e true (e.limitOf s) selector j = _ := Oracle.stop?_eq_way? hsame huntyped
    have hend : o.hop? e true (e.limitOf s - j) (.reference r) = none := by simp [Oracle.hop?, ht]
    have htake : o.take e s true (.reference r) = .ok t := by simp [Oracle.take, ht]
    have horigin : o.Origin e t (.initializer i) := by
      obtain ⟨σ, haim, horigin⟩ := (hreach.sourced hsame).typed r t ht
      exact (Oracle.Origin.reference haim horigin).way? hj hlt.le hway
    have hinitial : o.initial i = t := by
      cases horigin with
      | initializer h => exact h
    rw [Oracle.select_of_stop? (hlt.le.trans hle) (hstop.trans hj) hend, htake] at hgives
    rwa [hinitial]

/-- While the host is asked for the initial handle of a type under construction, the reference to it has no
type, and a demand comes to the final handle. Once the reference has resolved, a demand that a deferred
selector leads to it comes to the initial handle. -/
theorem demand_before_and_after_resolution :
    let initial : Ty := ⟨1, "a", "a"⟩
    let final : Ty := ⟨2, "b", "b"⟩
    let o : Oracle Unit :=
      ⟨⟨fun _ _ => .notApplicable, fun _ => initial⟩, fun _ => final, fun _ _ => .reference 0, fun _ _ _ => {}⟩
    ∃ e e' : Engine Unit, ReachableBy (standsBy o) e ∧ e.hostTurn ∧ e.typeOf? 0 = none ∧
      Gives o.Answers e (.mustSelect 0 (.reference 0)) (.selection (.ok final)) ∧
      ReachableBy (standsBy o) e' ∧ e'.hostTurn ∧ e'.typeOf? 0 = some initial ∧
      Gives o.Answers e' (.mustSelect 0 (.deferred ⟨0⟩)) (.selection (.ok initial)) := by
  intro initial final o
  have hcheck : ((runChecked? (fun e m _ => e.keepsWord o m) ({} : Engine Unit)
      [.call (.addSystem {} ⟨Ty.name, fun _ _ => ""⟩ .graph),
        .call (.addReference 0 (.initializer ⟨0⟩)), .work]).bind fun e =>
      (e.runChecked? (fun e m _ => e.keepsWord o m) [.answer (.type initial), .work, .work]).map fun e' =>
        decide (e.hostTurn ∧ e.knows (.mustSelect 0 (.reference 0)) ∧ e.typeOf? 0 = none ∧ e.limitOf 0 = 64 ∧
          o.way? e (.reference 0) 1 = some (.initializer ⟨0⟩) ∧
          e'.hostTurn ∧ e'.knows (.mustSelect 0 (.deferred ⟨0⟩)) ∧ e'.typeOf? 0 = some initial ∧
          e'.limitOf 0 = 64 ∧ o.way? e' (.deferred ⟨0⟩) 1 = some (.reference 0) ∧
          o.way? e' (.deferred ⟨0⟩) 2 = some (.initializer ⟨0⟩))) = some true := by
    decide +kernel
  obtain ⟨e, hrun, hcheck⟩ := Option.bind_eq_some_iff.1 hcheck
  obtain ⟨e', hrun', hcheck⟩ := Option.map_eq_some_iff.1 hcheck
  obtain ⟨hturn, hk, ht, hlimit, hway, hturn', hk', ht', hlimit', hmid, hway'⟩ := of_decide_eq_true hcheck
  have hreach := ReachableBy.of_runChecked (fun _ _ _ _ h => standsBy_of_keepsWord h) .new hrun
  have hreach' := ReachableBy.of_runChecked (fun _ _ _ _ h => standsBy_of_keepsWord h) hreach hrun'
  have hfinal := demand_of_construction (fun _ _ => rfl) hreach hturn hk (by omega) hway
  have hinitial := demand_of_construction (fun _ _ => rfl) hreach' hturn' hk' (by omega) hway'
  refine ⟨e, e', hreach, hturn, ht, hfinal.1 ?_, hreach', hturn', ht', hinitial.2 ⟨1, 0, initial, ?_⟩⟩
  · intro j r hj hway
    obtain rfl : j = 0 := by omega
    cases hway
    exact ht
  · exact ⟨by omega, hmid, ht'⟩

/-- A reference that leads to a type under construction in one step, and has resolved: a demand of it does not
come to the final handle. -/
theorem resolved_reference_gives_initial :
    let initial : Ty := ⟨1, "a", "a"⟩
    let final : Ty := ⟨2, "b", "b"⟩
    let o : Oracle Unit :=
      ⟨⟨fun _ _ => .notApplicable, fun _ => initial⟩, fun _ => final, fun _ _ => .reference 0, fun _ _ _ => {}⟩
    ∃ e : Engine Unit, ReachableBy (standsBy o) e ∧ e.atRest ∧ e.limitOf 0 = 64 ∧
      o.way? e (.reference 0) 1 = some (.initializer ⟨0⟩) ∧
      Gives o.Answers e (.mustSelect 0 (.reference 0)) (.selection (.ok initial)) ∧
      ¬ Gives o.Answers e (.mustSelect 0 (.reference 0)) (.selection (.ok final)) := by
  intro initial final o
  have hcheck : ((runChecked? (fun e m _ => e.keepsWord o m) ({} : Engine Unit)
      [.call (.addSystem {} ⟨Ty.name, fun _ _ => ""⟩ .graph), .call (.addReference 0 (.initializer ⟨0⟩)), .work,
        .answer (.type initial), .work, .work]).map fun e =>
      decide (e.atRest ∧ e.limitOf 0 = 64 ∧ e.knows (.mustSelect 0 (.reference 0)) ∧ e.typeOf? 0 = some initial ∧
        o.way? e (.reference 0) 1 = some (.initializer ⟨0⟩))) = some true := by
    decide +kernel
  obtain ⟨e, hrun, hcheck⟩ := Option.map_eq_some_iff.1 hcheck
  obtain ⟨hrest, hlimit, hk, ht, hway⟩ := of_decide_eq_true hcheck
  have hreach := ReachableBy.of_runChecked (fun _ _ _ _ h => standsBy_of_keepsWord h) .new hrun
  have hgives := gives_demand (o := o) (by simp [hostTurn, hrest]) hk
  have hselect : o.select e 0 true (e.limitOf 0 + 1) (.reference 0) = .ok initial := by
    simp [Oracle.select, Oracle.leaf?, Oracle.hop?, Oracle.take, ht]
  rw [hselect] at hgives
  refine ⟨e, hreach, hrest, hlimit, hway, hgives, fun hfinal => ?_⟩
  exact absurd (hgives.unique hfinal) (by simp [initial, final])

end Engine
end LiveTypes
