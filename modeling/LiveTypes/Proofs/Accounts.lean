import LiveTypes.Proofs.Ownership
import LiveTypes.Proofs.Registrations
import Mathlib.Algebra.Ring.Nat

/-!
# An observer's account of the types

An observer that has listened to the graph since before the first type came can tell from what it hears
which types are there: it hears of each type that comes and of each that goes. This holds for callbacks
that change the graph as they like, with one exception. A removal that begins while another removal of the
same type is still under way makes the type go once and be reported twice, and the type that has its key by
then goes unreported. `Engine.removesOnce` excludes such a removal, and nothing else.

At each moment the account counts what the observer has been told together with what passes under way
still owe to it. A turn of a pass moves an item from the one part to the other; only the beginning of a
pass adds one, at the moment at which the graph changes.
-/
namespace LiveTypes

variable {ν : Type}

namespace GraphEvent

/-- Whether the event is that a type has come. -/
def adds (t : Ty) : GraphEvent → Bool
  | .addedType t' _ => t' = t
  | _ => false

/-- Whether the event is that a type has gone. -/
def removes (t : Ty) : GraphEvent → Bool
  | .removedType t' _ => t' = t
  | _ => false

/-- Who listens to everything hears of every event. -/
@[simp] theorem concerns_none (event : GraphEvent) : event.concerns none = true := by
  cases event <;> rfl

end GraphEvent

namespace Frame

/-- How often a pass still has to tell an observer of an event of a certain kind. -/
def owed (o : Observer) (p : GraphEvent → Bool) : Frame ν → Nat
  | .graphPass event queue => if p event then queue.count (.observer o) else 0
  | _ => 0

/-- The type that a frame removes and the key that it will free. -/
def removal? : Frame ν → Option (Ty × String)
  | .typeRemoval t key _ => some (t, key)
  | _ => none

end Frame

/-- How often an observer has been told of an event of a certain kind. -/
def told (o : Observer) (p : GraphEvent → Bool) (hearings : List (Observer × GraphEvent)) : Nat :=
  hearings.countP fun h => h.1 = o && p h.2

namespace GraphSide

/-- The removals that are under way, innermost first. -/
def removals (side : GraphSide ν) : List (Ty × String) := side.works.filterMap Frame.removal?

/-- How often an observer has been told, or will be by the passes under way. -/
def tally (o : Observer) (p : GraphEvent → Bool) (side : GraphSide ν) : Nat :=
  told o p side.hearings + (side.works.map (Frame.owed o p)).sum

end GraphSide

namespace Engine

open GraphEvent

/-! ## Hosts that let an observer keep account -/

/-- Whether a move lets an observer record: it stays in existence, subscribes once and to everything, does
so before the first type comes, and keeps its subscription. -/
def records (o : Observer) (e : Engine ν) : Move ν → Bool
  | .forget o' => o' ≠ o
  | .call (.listenToGraph o') => o' ≠ o || (e.listeners.held (.observer o)).isEmpty
  | .call (.watchRemoval _ o') => o' ≠ o
  | .call (.leaveGraph id) => (e.listeners.held (.observer o)).all (·.id ≠ id)
  | .call (.addType _ _) => !(e.listeners.held (.observer o)).isEmpty
  | _ => true

/-- Whether a move begins no removal of a type that is being removed. -/
def removesOnce (e : Engine ν) : Move ν → Bool
  | .call (.removeType t) => !(e.graphSide.removals.map (·.1)).contains t
  | _ => true

variable {e : Engine ν} {m : Move ν} {o : Observer} {side : GraphSide ν}

/-! ## The observer listens -/

/-- The observer exists and listens to everything, once; until it subscribes there are no types. -/
structure Listening (o : Observer) (side : GraphSide ν) : Prop where
  present : side.gone.contains o = false
  subscribed : (side.listeners.held (.observer o) = [] ∧ ∀ key, side.graph.get? key = none) ∨
    ∃ id, side.listeners.held (.observer o) = [⟨id, none, .observer o⟩]

/-- Nobody but the observer ends its subscription. -/
theorem Relists.held {listeners : Registry (Option Ty) GraphListener} (ho : Owned False e) (hm : e.records o m)
    (h : Relists e m listeners) :
    listeners.held (.observer o) = e.listeners.held (.observer o) ∨
      (e.listeners.held (.observer o) = [] ∧
        ∃ id, listeners.held (.observer o) = [⟨id, none, .observer o⟩]) := by
  cases h with
  | same => exact .inl rfl
  | @enter key l hl =>
    refine .inl (Registry.held_add_of_ne _ _ ?_)
    rintro rfl
    cases hl
  | @listen o' heq =>
    subst heq
    by_cases hoo : o' = o
    · subst hoo
      have hnil : e.listeners.held (.observer o') = [] := by simpa [records] using hm
      exact .inr ⟨hnil, e.listeners.nextId, by rw [Registry.held_add_self, hnil]; rfl⟩
    · exact .inl (Registry.held_add_of_ne _ _ (by simpa using hoo))
  | @watch t o' heq =>
    subst heq
    have hoo : o' ≠ o := by simpa [records] using hm
    exact .inl (Registry.held_add_of_ne _ _ (by simpa using hoo))
  | @leave id heq =>
    subst heq
    refine .inl (ho.graph.held_remove_of_ne fun x hx => ?_)
    simpa using List.all_eq_true.1 hm x hx
  | @retire s y hy =>
    refine .inl (ho.graph.held_remove_of_ne fun x hx hid => ?_)
    obtain ⟨hx, hl⟩ := Registry.mem_held.1 hx
    rw [(ho.own s y hy).2 x hx hid] at hl
    cases hl
  | release hx => exact .inl ((ho.leaveGraph hx).1.held _ (by simp [otherGraph]))
  | take hx hw =>
    have hdue := ho.due hx
    rw [hw] at hdue
    exact .inl ((hdue.keeps_change ho.graph _ otherGraph_ne).held _ (by simp [otherGraph]))

theorem Listening.hears (h : Listening o e.graphSide) : e.hearsGraph (.observer o) = true := by
  have : e.gone.contains o = false := h.present
  simp only [hearsGraph, this, Bool.not_false]

theorem Listening.relist {listeners : Registry (Option Ty) GraphListener} {works : List (Frame ν)}
    {hearings : List (Observer × GraphEvent)} (h : Listening o e.graphSide) (ho : Owned False e)
    (hm : e.records o m) (hr : Relists e m listeners) :
    Listening o { e.graphSide with listeners, works, hearings } := by
  refine ⟨h.present, ?_⟩
  rcases hr.held ho hm with heq | ⟨-, hid⟩
  · change (listeners.held _ = [] ∧ _) ∨ ∃ id, listeners.held _ = _
    rw [heq]
    exact h.subscribed
  · exact .inr hid

/-- An announcement drops nobody who exists. -/
theorem Listening.announce {event : GraphEvent} (h : Listening o e.graphSide) (hg : side.gone = e.gone)
    (hs : (∀ key, e.graph.get? key = none) → (∀ key, side.graph.get? key = none) ∨
      e.listeners.held (.observer o) ≠ []) : Listening o (e.announced event side) := by
  have hheld : (e.listeners.prune e.hearsGraph).held (.observer o) = e.listeners.held (.observer o) :=
    Registry.held_prune _ h.hears
  refine ⟨hg ▸ h.present, ?_⟩
  change ((e.listeners.prune e.hearsGraph).held _ = [] ∧ _) ∨
    ∃ id, (e.listeners.prune e.hearsGraph).held _ = _
  rw [hheld]
  rcases h.subscribed with ⟨hnil, hempty⟩ | hid
  · exact .inl ⟨hnil, (hs hempty).resolve_right fun hne => hne hnil⟩
  · exact .inr hid

theorem step_listening (ho : Owned False e) (h : Listening o e.graphSide) (hm : e.records o m)
    (hs : GraphStep e m side) : Listening o side := by
  cases hs with
  | relist hr =>
    obtain ⟨listeners, hr, rfl⟩ := hr
    exact h.relist ho hm hr
  | @forget o' heq =>
    subst heq
    have hne : o' ≠ o := by simpa [records] using hm
    refine ⟨?_, h.subscribed⟩
    have : e.gone.contains o = false := h.present
    simpa [Ne.symm hne] using this
  | done => exact ⟨h.present, h.subscribed⟩
  | turn _ hr => exact h.relist ho hm hr
  | addType heq =>
    subst heq
    exact h.announce rfl fun _ => .inr (by simpa [records] using hm)
  | addEdge _ ha =>
    obtain ⟨-, -, -, rfl⟩ := Graph.addEdge_added ha
    exact h.announce rfl .inl
  | removeEdge => exact h.announce rfl .inl
  | removeType => exact ⟨h.present, h.subscribed⟩
  | dropEdge => exact h.announce rfl .inl
  | missEdge => exact ⟨h.present, h.subscribed⟩
  | @dropNode t key =>
    refine h.announce rfl fun hempty => .inl fun k => ?_
    have : (e.graph.freeKey key).get? k = none := by
      rw [Graph.get?_freeKey, hempty, ite_self]
    exact this

/-! ## Removals find their types -/

/-- Each type that is being removed is still under the key that its removal will free, and has no second
removal. -/
structure Placed (side : GraphSide ν) : Prop where
  inPlace : ∀ t key, (t, key) ∈ side.removals → side.graph.get? key = some t
  once : (side.removals.map (·.1)).Nodup

theorem Placed.of_eq {side' : GraphSide ν} (h : Placed side) (hr : side'.removals = side.removals)
    (hg : ∀ t key, (t, key) ∈ side.removals → side.graph.get? key = some t →
      side'.graph.get? key = some t) : Placed side' := by
  refine ⟨fun t key hm => ?_, ?_⟩
  · rw [hr] at hm
    exact hg t key hm (h.inPlace t key hm)
  · rw [hr]
    exact h.once

theorem removals_cons {f : Frame ν} {rest : List (Frame ν)} (hw : e.works = f :: rest) :
    e.graphSide.removals = f.removal?.toList ++ rest.filterMap Frame.removal? := by
  rw [GraphSide.removals, graphSide_works, hw]
  cases hf : f.removal? with
  | none => rw [List.filterMap_cons_none hf]; rfl
  | some r => rw [List.filterMap_cons_some hf]; rfl

theorem step_placed (h : Placed e.graphSide) (hm : e.removesOnce m) (hs : GraphStep e m side) :
    Placed side := by
  cases hs with
  | relist hr =>
    obtain ⟨listeners, -, rfl⟩ := hr
    exact h.of_eq rfl fun _ _ _ => id
  | forget => exact h.of_eq rfl fun _ _ _ => id
  | done hw => exact h.of_eq (removals_cons hw).symm fun _ _ _ => id
  | turn hw => exact h.of_eq (removals_cons hw).symm fun _ _ _ => id
  | @addType t key graph _ ha =>
    obtain ⟨hfree, -, rfl⟩ := Graph.addType_added ha
    refine h.of_eq rfl fun t' key' _ hk => ?_
    have hk : e.graph.get? key' = some t' := hk
    have hne : key' ≠ key := by
      rintro rfl
      rw [hfree] at hk
      cases hk
    have hget : Graph.get? { e.graph with nodes := e.graph.nodes.insert key t } key' = some t' := by
      rw [Graph.get?_insert rfl, if_neg hne, hk]
    exact hget
  | addEdge _ ha =>
    obtain ⟨-, -, -, rfl⟩ := Graph.addEdge_added ha
    exact h.of_eq rfl fun _ _ _ => id
  | removeEdge => exact h.of_eq rfl fun _ _ _ => id
  | @removeType t key heq hk =>
    subst heq
    have hnew : t ∉ e.graphSide.removals.map (·.1) := by simpa [removesOnce] using hm
    refine ⟨fun t' key' hmem => ?_, List.nodup_cons.2 ⟨hnew, h.once⟩⟩
    rcases List.mem_cons.1 hmem with hmem | hmem
    · cases hmem
      exact Graph.get?_of_keyOf? hk
    · exact h.inPlace t' key' hmem
  | dropEdge hw => exact h.of_eq (removals_cons hw).symm fun _ _ _ => id
  | missEdge hw => exact h.of_eq (removals_cons hw).symm fun _ _ _ => id
  | @dropNode t key rest _ hs =>
    have hcons : e.graphSide.removals = (t, key) :: (e.withStack rest).works.filterMap Frame.removal? :=
      removals_cons (works_cons hs rfl)
    have honce := h.once
    rw [hcons, List.map_cons, List.nodup_cons] at honce
    refine ⟨fun t' key' hmem => ?_, honce.2⟩
    have hk : e.graph.get? key' = some t' := h.inPlace t' key' (hcons ▸ List.mem_cons_of_mem _ hmem)
    have hown : e.graph.get? key = some t := h.inPlace t key (hcons ▸ List.mem_cons_self)
    have hne : key' ≠ key := by
      rintro rfl
      obtain rfl : t = t' := Option.some.inj (hown.symm.trans hk)
      exact honce.1 (List.mem_map.2 ⟨_, hmem, rfl⟩)
    have hget : (e.graph.freeKey key).get? key' = some t' := by
      rw [Graph.get?_freeKey, if_neg hne, hk]
    exact hget

/-! ## The account balances -/

section Tally

variable {p : GraphEvent → Bool} {event : GraphEvent} {rest : List (Frame ν)}

/-- The frame on top counts for what it owes. -/
theorem tally_cons {f : Frame ν} (hw : e.works = f :: rest) :
    e.graphSide.tally o p = f.owed o p + GraphSide.tally o p { e.graphSide with works := rest } := by
  simp only [GraphSide.tally, graphSide_works, hw, List.map_cons, List.sum_cons]
  omega

/-- A turn of a pass tells the observer what it owes, if it is the observer's turn. -/
theorem tally_turn {l : GraphListener} {queue : List GraphListener}
    {listeners : Registry (Option Ty) GraphListener}
    (hw : e.works = .graphPass event (l :: queue) :: rest) :
    GraphSide.tally o p { e.graphSide with
      listeners, works := .graphPass event queue :: rest, hearings := e.hearings ++ l.hearing event } =
      e.graphSide.tally o p := by
  have hturn : told o p (l.hearing event) + Frame.owed (ν := ν) o p (.graphPass event queue) =
      Frame.owed (ν := ν) o p (.graphPass event (l :: queue)) := by
    cases l with
    | observer o' =>
      by_cases hp : p event <;> by_cases ho : o' = o <;>
        simp [told, GraphListener.hearing, Frame.owed, hp, ho, Nat.add_comm]
    | system s => simp [told, GraphListener.hearing, Frame.owed]
    | reference r => simp [told, GraphListener.hearing, Frame.owed]
  have htold : told o p (e.hearings ++ l.hearing event) =
      told o p e.hearings + told o p (l.hearing event) := List.countP_append
  have hrest : GraphSide.tally o p { e.graphSide with works := rest } =
      told o p e.hearings + (rest.map (Frame.owed o p)).sum := rfl
  rw [tally_cons hw, hrest]
  simp only [GraphSide.tally, List.map_cons, List.sum_cons, htold]
  omega

/-- A removal owes nothing, so it may go on or end. -/
theorem tally_removal {t : Ty} {key : String} {edges : List Edge}
    (hw : e.works = .typeRemoval t key edges :: rest) (hh : side.hearings = e.hearings)
    (hs : side.works = rest ∨ ∃ edges', side.works = .typeRemoval t key edges' :: rest) :
    side.tally o p = e.graphSide.tally o p := by
  have hsum : (side.works.map (Frame.owed o p)).sum = (rest.map (Frame.owed o p)).sum := by
    rcases hs with hs | ⟨edges', hs⟩ <;> simp [hs, Frame.owed]
  rw [GraphSide.tally, hh, hsum, GraphSide.tally, graphSide_works, hw]
  simp [Frame.owed, graphSide]

/-- An announcement owes it once to an observer that listens. -/
theorem tally_announced (h : Listening o e.graphSide)
    (hl : p event → e.listeners.held (.observer o) ≠ []) (side : GraphSide ν) :
    (e.announced event side).tally o p = side.tally o p + (p event).toNat := by
  have hcount : p event →
      (e.listeners.listeners e.hearsGraph event.concerns).count (.observer o) = 1 := by
    intro hp
    obtain ⟨id, hid⟩ := h.subscribed.resolve_left fun hnil => hl hp hnil.1
    have hid : e.listeners.held (.observer o) = [⟨id, none, .observer o⟩] := hid
    simp [Registry.count_listeners h.hears, hid]
  have hwork : Frame.owed (ν := ν) o p
      (.graphPass event (e.listeners.listeners e.hearsGraph event.concerns)) = (p event).toNat := by
    cases hp : p event with
    | false => simp [Frame.owed, hp]
    | true => simp [Frame.owed, hp, hcount hp]
  simp only [GraphSide.tally, announced, List.map_cons, List.sum_cons, hwork]
  omega

end Tally

/-- What the observer has heard or will hear of a type coming and going comes to whether it is there. -/
def Balanced (o : Observer) (side : GraphSide ν) : Prop :=
  ∀ t, side.tally o (adds t) = side.tally o (removes t) + (side.graph.contains t).toNat

section Balance

variable {event : GraphEvent} {rest : List (Frame ν)}

/-- What changes neither the types nor the tallies keeps the balance. -/
theorem Balanced.of_tally (h : Balanced o e.graphSide) (hn : side.graph.nodes = e.graph.nodes)
    (ht : ∀ p, side.tally o p = e.graphSide.tally o p) : Balanced o side := by
  intro t
  have hcontains : side.graph.contains t = e.graph.contains t := by
    rw [Graph.contains, Graph.contains, hn]
  rw [ht, ht, hcontains]
  exact h t

/-- So does the announcement of an edge. -/
theorem Balanced.announceEdge (h : Balanced o e.graphSide) (hlisten : Listening o e.graphSide)
    (hn : side.graph.nodes = e.graph.nodes) (ht : ∀ p, side.tally o p = e.graphSide.tally o p)
    (hadds : ∀ t, event.adds t = false) (hremoves : ∀ t, event.removes t = false) :
    Balanced o (e.announced event side) := by
  intro t
  have hside := h.of_tally hn ht t
  rw [tally_announced hlisten (by simp [hadds]), tally_announced hlisten (by simp [hremoves]), hadds,
    hremoves]
  exact hside

theorem Balanced.addType {t : Ty} {key : String} {graph : Graph} (h : Balanced o e.graphSide)
    (hlisten : Listening o e.graphSide) (hc : e.graph.Consistent)
    (hheld : e.listeners.held (.observer o) ≠ []) (ha : e.graph.addType t key = .added graph) :
    Balanced o (e.announced (.addedType t key) { e.graphSide with graph }) := by
  obtain ⟨hnew, -, hcontains⟩ := hc.types_addType ha
  intro t'
  rw [tally_announced hlisten fun _ => hheld, tally_announced hlisten fun _ => hheld]
  have old : e.graphSide.tally o (adds t') =
      e.graphSide.tally o (removes t') + (e.graph.contains t').toNat := h t'
  change e.graphSide.tally o (adds t') + _ =
    e.graphSide.tally o (removes t') + _ + (graph.contains t').toNat
  rw [hcontains]
  by_cases htt : t = t'
  · subst htt
    rw [hnew] at old ⊢
    simpa [adds, removes] using old
  · simpa [adds, removes, htt, Ne.symm htt] using old

/-- A removal that finds its type takes it and tells of it. -/
theorem Balanced.dropNode {t : Ty} {key : String} (h : Balanced o e.graphSide)
    (hlisten : Listening o e.graphSide) (hc : e.graph.Consistent) (hplaced : Placed e.graphSide)
    (hw : e.works = .typeRemoval t key [] :: rest) :
    Balanced o (e.announced (.removedType t key)
      { e.graphSide with graph := e.graph.freeKey key, works := rest }) := by
  have hcons : e.graphSide.removals = (t, key) :: rest.filterMap Frame.removal? := removals_cons hw
  have hk : e.graph.get? key = some t := hplaced.inPlace t key (hcons ▸ List.mem_cons_self)
  have hheld : e.listeners.held (.observer o) ≠ [] := fun hnil => by
    rcases hlisten.subscribed with ⟨-, hempty⟩ | ⟨id, hid⟩
    · have : e.graph.get? key = none := hempty key
      rw [hk] at this
      cases this
    · have hid : e.listeners.held (.observer o) = [⟨id, none, .observer o⟩] := hid
      rw [hnil] at hid
      cases hid
  have hrest : ∀ p, GraphSide.tally o p { e.graphSide with works := rest } = e.graphSide.tally o p :=
    fun p => tally_removal hw rfl (.inl rfl)
  intro t'
  rw [tally_announced hlisten fun _ => hheld, tally_announced hlisten fun _ => hheld]
  have old : e.graphSide.tally o (adds t') =
      e.graphSide.tally o (removes t') + (e.graph.contains t').toNat := h t'
  change GraphSide.tally o (adds t') { e.graphSide with works := rest } + _ =
    GraphSide.tally o (removes t') { e.graphSide with works := rest } + _ +
      ((e.graph.freeKey key).contains t').toNat
  rw [hrest, hrest, old]
  by_cases htt : t = t'
  · subst htt
    have hthere : e.graph.contains t = true := hc.contains_iff.2 ⟨key, hk⟩
    have hgone : (e.graph.freeKey key).contains t = false := by
      rw [← Bool.not_eq_true, hc.contains_freeKey]
      exact fun hboth => hboth.2 hk
    simp [adds, removes, hthere, hgone]
  · have hsame : (e.graph.freeKey key).contains t' = e.graph.contains t' := by
      rw [Bool.eq_iff_iff, hc.contains_freeKey, hk]
      simp [htt]
    simp [adds, removes, htt, hsame]

theorem step_balanced (hc : e.graph.Consistent) (hlisten : Listening o e.graphSide)
    (hplaced : Placed e.graphSide) (h : Balanced o e.graphSide) (hm : e.records o m)
    (hs : GraphStep e m side) : Balanced o side := by
  cases hs with
  | relist hr =>
    obtain ⟨listeners, -, rfl⟩ := hr
    exact h
  | forget => exact h
  | done hw =>
    refine h.of_tally rfl fun p => ?_
    rw [tally_cons hw]
    simp [Frame.owed]
  | turn hw _ => exact h.of_tally rfl fun p => tally_turn hw
  | addType heq ha =>
    subst heq
    exact h.addType hlisten hc (by simpa [records] using hm) ha
  | addEdge _ ha =>
    obtain ⟨-, -, -, rfl⟩ := Graph.addEdge_added ha
    exact h.announceEdge hlisten rfl (fun _ => rfl) (fun _ => rfl) fun _ => rfl
  | removeEdge => exact h.announceEdge hlisten rfl (fun _ => rfl) (fun _ => rfl) fun _ => rfl
  | removeType =>
    refine h.of_tally rfl fun p => ?_
    simp [GraphSide.tally, Frame.owed]
  | dropEdge hw =>
    exact h.announceEdge hlisten rfl (fun p => tally_removal hw rfl (.inr ⟨_, rfl⟩)) (fun _ => rfl)
      fun _ => rfl
  | missEdge hw => exact h.of_tally rfl fun p => tally_removal hw rfl (.inr ⟨_, rfl⟩)
  | dropNode _ hs => exact h.dropNode hlisten hc hplaced (works_cons hs rfl)

end Balance

/-! ## Runs -/

/-- All that is known of a run with an observer that keeps account. -/
structure Accounted (o : Observer) (e : Engine ν) : Prop where
  lively : Lively e
  owned : Owned False e
  consistent : e.graph.Consistent
  listening : Listening o e.graphSide
  placed : Placed e.graphSide
  balanced : Balanced o e.graphSide

theorem accounted_new : Accounted o ({} : Engine ν) where
  lively := lively_new
  owned := owned_new
  consistent := Graph.consistent_new
  listening := ⟨rfl, .inl ⟨rfl, fun _ => rfl⟩⟩
  placed := ⟨nofun, List.nodup_nil⟩
  balanced := fun _ => rfl

theorem move?_accounted {e' : Engine ν} (h : Accounted o e) (hr : e.records o m) (ho : e.removesOnce m)
    (hm : e.move? m = some e') : Accounted o e' := by
  have hstep := move?_step hm
  have hgraph := move?_graphStep hm
  exact ⟨step_lively h.lively hstep, step_owned h.lively h.owned nofun hstep,
    step_consistent h.consistent hgraph, step_listening h.owned h.listening hr hgraph,
    step_placed h.placed ho hgraph,
    step_balanced h.consistent h.listening h.placed h.balanced hr hgraph⟩

/-- In every run in which an observer records from before the first type on, and no removal of a type
begins while one of the same type is under way: whenever nothing is under way in the graph, the observer
has been told of each type that it came once more than that it went if the type is there, and as often
if it is not. -/
theorem events_account_for_types (h : ReachableBy (fun e m => e.records o m && e.removesOnce m) e)
    (hidle : e.works = []) (t : Ty) :
    (told o (adds t) e.hearings : Int) - told o (removes t) e.hearings =
      if e.graph.contains t then 1 else 0 := by
  have accounted : Accounted o e := by
    refine ReachableBy.keeps accounted_new (fun h ha hm => ?_) h
    obtain ⟨hr, ho⟩ := Bool.and_eq_true_iff.1 ha
    exact move?_accounted h hr ho hm
  have balance := accounted.balanced t
  have idle : ∀ p, e.graphSide.tally o p = told o p e.hearings := fun p => by
    simp [GraphSide.tally, hidle, graphSide]
  rw [idle, idle, show e.graphSide.graph = e.graph from rfl] at balance
  rw [balance]
  cases e.graph.contains t with
  | false => simp
  | true =>
    rw [if_pos rfl, Bool.toNat_true]
    omega

/-- The theorem at a removal of `a` during which another observer removes `b` and registers it again. -/
theorem account_after_nested_removal : ∃ e : Engine Node,
    ReachableBy (fun e m => e.records ⟨0⟩ m && e.removesOnce m) e ∧ e.works = [] ∧
      told ⟨0⟩ (adds ⟨2, "b", "b"⟩) e.hearings = 2 ∧ told ⟨0⟩ (removes ⟨2, "b", "b"⟩) e.hearings = 1 ∧
      (2 - 1 : Int) = if e.graph.contains ⟨2, "b", "b"⟩ then 1 else 0 := by
  have hrun : runChecked? (fun e m _ => e.records ⟨0⟩ m && e.removesOnce m) ({} : Engine Node)
      [.call (.listenToGraph ⟨0⟩), .call (.listenToGraph ⟨1⟩),
        .call (.addType ⟨1, "a", "a"⟩ "a"), .work, .answer .done, .work, .answer .done, .work, .work,
        .call (.addType ⟨2, "b", "b"⟩ "b"), .work, .answer .done, .work, .answer .done, .work, .work,
        .call (.addEdge ⟨⟨1, "a", "a"⟩, ⟨2, "b", "b"⟩, .subType⟩),
        .work, .answer .done, .work, .answer .done, .work, .work,
        .call (.removeType ⟨1, "a", "a"⟩), .work, .work, .answer .done, .work,
        .call (.removeType ⟨2, "b", "b"⟩), .work, .work, .answer .done, .work, .answer .done, .work, .work,
        .call (.addType ⟨2, "b", "b"⟩ "b"), .work, .answer .done, .work, .answer .done, .work, .work,
        .answer .done, .work, .work, .work, .answer .done, .work, .answer .done, .work, .work] = some _ :=
    rfl
  have reached := ReachableBy.of_check hrun
  exact ⟨_, reached, rfl, rfl, rfl, events_account_for_types reached rfl ⟨2, "b", "b"⟩⟩

/-- While the removal of `a` tells of an edge, another observer removes `a` and registers `c` under its key.
An observer that records all along hears twice that `a` went, and never that `c` did. -/
theorem overtaken_removal_misreported : ∃ e : Engine Node,
    ReachableBy (fun e m => e.records ⟨0⟩ m) e ∧ e.atRest ∧
      told ⟨0⟩ (adds ⟨1, "a", "a"⟩) e.hearings = 1 ∧ told ⟨0⟩ (removes ⟨1, "a", "a"⟩) e.hearings = 2 ∧
      e.graph.contains ⟨1, "a", "a"⟩ = false ∧
      told ⟨0⟩ (adds ⟨3, "c", "c"⟩) e.hearings = 1 ∧ told ⟨0⟩ (removes ⟨3, "c", "c"⟩) e.hearings = 0 ∧
      e.graph.contains ⟨3, "c", "c"⟩ = false := by
  have hrun : runChecked? (fun e m _ => e.records ⟨0⟩ m) ({} : Engine Node)
      [.call (.listenToGraph ⟨0⟩), .call (.listenToGraph ⟨1⟩),
        .call (.addType ⟨1, "a", "a"⟩ "a"), .work, .answer .done, .work, .answer .done, .work, .work,
        .call (.addType ⟨2, "b", "b"⟩ "b"), .work, .answer .done, .work, .answer .done, .work, .work,
        .call (.addEdge ⟨⟨1, "a", "a"⟩, ⟨2, "b", "b"⟩, .subType⟩),
        .work, .answer .done, .work, .answer .done, .work, .work,
        .call (.removeType ⟨1, "a", "a"⟩), .work, .work, .answer .done, .work,
        .call (.removeType ⟨1, "a", "a"⟩), .work, .work, .answer .done, .work, .answer .done, .work, .work,
        .call (.addType ⟨3, "c", "c"⟩ "a"), .work, .answer .done, .work, .answer .done, .work, .work,
        .answer .done, .work, .work, .work, .answer .done, .work, .answer .done, .work, .work] = some _ :=
    rfl
  exact ⟨_, ReachableBy.of_check hrun, rfl, rfl, rfl, rfl, rfl, rfl, rfl⟩

end Engine
end LiveTypes
