import LiveTypes.Proofs.Registry

/-!
# Pruning cannot be seen

A registry forgets the subscriptions of listeners that are gone when it takes a snapshot. `Ledger` is a
registry that forgets nothing: all subscriptions ever made, which of them were ended, and who was gone at
each snapshot. Whatever is done with the two, and whichever listeners die in between, they reply the same.
Since nobody who is gone comes back, what a registry forgets would be in no later snapshot and in no later
count. It shows only where it should: a subscription still counts as registered until a snapshot finds its
listener gone.
-/
namespace LiveTypes

variable {κ α : Type}

/-- Something that is done with a registry, or that happens to its listeners. -/
inductive RegistryAct (κ α : Type) where
  | add (key : κ) (listener : α)
  | remove (id : Nat)
  | snapshot (accepts : κ → Bool)
  | contains (id : Nat)
  | size
  /-- A listener ceases to exist, for good. -/
  | death (listener : α)

/-- What comes back. -/
inductive RegistryReply (α : Type) where
  | nothing
  | number (id : Nat)
  | flag (value : Bool)
  | listeners (listeners : List α)
  | count (count : Nat)

/-- The number that a reply gives out. -/
def RegistryReply.issued? : RegistryReply α → Option Nat
  | .number id => some id
  | _ => none

def RegistryAct.isAdd : RegistryAct κ α → Bool
  | .add _ _ => true
  | _ => false

/-- Act by act, with the replies. -/
def runActs {σ : Type} (act : σ → RegistryAct κ α → σ × RegistryReply α) (s : σ) :
    List (RegistryAct κ α) → σ × List (RegistryReply α)
  | [] => (s, [])
  | a :: acts =>
    let (next, reply) := act s a
    let (last, replies) := runActs act next acts
    (last, reply :: replies)

section Machines

variable [DecidableEq α]

/-! ## A registry in use -/

/-- A registry, and the listeners that are gone. -/
structure RegistryInUse (κ α : Type) where
  registry : Registry κ α := {}
  gone : List α := []

namespace RegistryInUse

def alive (s : RegistryInUse κ α) (l : α) : Bool := l ∉ s.gone

def act (s : RegistryInUse κ α) : RegistryAct κ α → RegistryInUse κ α × RegistryReply α
  | .add key l => ({ s with registry := s.registry.add key l }, .number s.registry.nextId)
  | .remove id => ({ s with registry := s.registry.remove id }, .flag (s.registry.contains id))
  | .snapshot accepts =>
    let (registry, listeners) := s.registry.snapshot s.alive accepts
    ({ s with registry }, .listeners listeners)
  | .contains id => (s, .flag (s.registry.contains id))
  | .size => (s, .count (s.registry.size s.alive))
  | .death l => ({ s with gone := l :: s.gone }, .nothing)

end RegistryInUse

/-! ## A registry that forgets nothing -/

/-- Everything that ever happened to a registry. -/
structure Ledger (κ α : Type) where
  /-- All subscriptions ever made, oldest first; the number of one is its place. -/
  registrations : List (Entry κ α) := []
  /-- The numbers of the subscriptions that were ended. -/
  removed : List Nat := []
  /-- For each snapshot how many subscriptions had been made and who was gone. -/
  snapshots : List (Nat × List α) := []
  gone : List α := []

namespace Ledger

/-- Whether a subscription was not ended. -/
def stands (l : Ledger κ α) (x : Entry κ α) : Bool := x.id ∉ l.removed

/-- Whether the listener of a subscription was alive at every snapshot since it was made. -/
def seenAlive (l : Ledger κ α) (x : Entry κ α) : Bool :=
  l.snapshots.all fun s => decide (x.id < s.1 → x.listener ∉ s.2)

/-- Whether a number was given out, was not ended, and its listener was alive at every snapshot since. -/
def contains (l : Ledger κ α) (id : Nat) : Bool :=
  l.registrations.any fun x => x.id = id && (l.stands x && l.seenAlive x)

/-- The subscriptions that were not ended and whose listener is alive. -/
def living (l : Ledger κ α) : List (Entry κ α) :=
  l.registrations.filter fun x => l.stands x && decide (x.listener ∉ l.gone)

def act (l : Ledger κ α) : RegistryAct κ α → Ledger κ α × RegistryReply α
  | .add key x =>
    let id := l.registrations.length
    ({ l with registrations := l.registrations ++ [⟨id, key, x⟩] }, .number id)
  | .remove id =>
    -- a number that was never given out cannot be ended in advance
    let removed := if id < l.registrations.length then id :: l.removed else l.removed
    ({ l with removed }, .flag (l.contains id))
  | .snapshot accepts =>
    ({ l with snapshots := (l.registrations.length, l.gone) :: l.snapshots },
      .listeners ((l.living.filter (accepts ·.key)).map (·.listener)))
  | .contains id => (l, .flag (l.contains id))
  | .size => (l, .count l.living.length)
  | .death x => ({ l with gone := x :: l.gone }, .nothing)

/-! ## Both side by side -/

/-- Places, ended numbers and snapshots are as they can be. -/
structure Sound (l : Ledger κ α) : Prop where
  numbered : l.registrations.map (·.id) = List.range l.registrations.length
  removed : ∀ id ∈ l.removed, id < l.registrations.length
  snapshots : ∀ s ∈ l.snapshots, s.1 ≤ l.registrations.length
  /-- Nobody comes back. -/
  gone : ∀ s ∈ l.snapshots, ∀ x ∈ s.2, x ∈ l.gone

/-- A registry has exactly the subscriptions that were not ended and that no snapshot found without a
listener. -/
structure Tracks (l : Ledger κ α) (s : RegistryInUse κ α) : Prop where
  sound : l.Sound
  gone : s.gone = l.gone
  nextId : s.registry.nextId = l.registrations.length
  entries : s.registry.entries = l.registrations.filter fun x => l.stands x && l.seenAlive x

variable {l : Ledger κ α} {s : RegistryInUse κ α}

omit [DecidableEq α] in
theorem Sound.id_lt (h : l.Sound) {x : Entry κ α} (hx : x ∈ l.registrations) :
    x.id < l.registrations.length := by
  have hid : x.id ∈ l.registrations.map (·.id) := List.mem_map_of_mem hx
  rw [h.numbered] at hid
  exact List.mem_range.1 hid

/-- Who is alive now was alive whenever a snapshot was taken. -/
theorem Sound.seenAlive (h : l.Sound) {x : Entry κ α} (hx : x.listener ∉ l.gone) : l.seenAlive x = true := by
  simp only [Ledger.seenAlive, List.all_eq_true, decide_eq_true_eq]
  intro t ht _ hgone
  exact hx (h.gone t ht _ hgone)

/-- The subscriptions of living listeners, with or without those that were forgotten. -/
theorem Sound.filter_alive (h : l.Sound) :
    (l.registrations.filter fun x => l.stands x && l.seenAlive x).filter
      (fun x => decide (x.listener ∉ l.gone)) = l.living := by
  rw [living, List.filter_filter]
  refine List.filter_congr fun x _ => ?_
  by_cases hx : x.listener ∈ l.gone
  · simp [hx]
  · simp [hx, h.seenAlive hx]

theorem tracks_new : Tracks ({} : Ledger κ α) {} := by
  refine ⟨⟨?_, ?_, ?_, ?_⟩, rfl, rfl, rfl⟩ <;> simp

theorem Tracks.ordered (h : l.Tracks s) : s.registry.Ordered := by
  have increasing : l.registrations.Pairwise (·.id < ·.id) := by
    have := List.pairwise_lt_range (n := l.registrations.length)
    rw [← h.sound.numbered] at this
    exact List.pairwise_map.1 this
  refine ⟨?_, ?_⟩
  · rw [h.entries]
    exact increasing.filter _
  · intro x hx
    rw [h.entries] at hx
    rw [h.nextId]
    exact h.sound.id_lt (List.mem_filter.1 hx).1

theorem Tracks.alive_eq (h : l.Tracks s) (x : α) : s.alive x = decide (x ∉ l.gone) := by
  rw [RegistryInUse.alive, h.gone]

/-! ### Replies -/

theorem Tracks.contains_eq (h : l.Tracks s) (id : Nat) : s.registry.contains id = l.contains id := by
  rw [Registry.contains, h.entries, List.any_filter, Ledger.contains]
  refine congrArg (List.any l.registrations) (funext fun x => ?_)
  exact Bool.and_comm _ _

/-- What a registry keeps of the living is all of it. -/
theorem Tracks.filter_alive (h : l.Tracks s) : s.registry.entries.filter (s.alive ·.listener) = l.living := by
  simp only [h.alive_eq, h.entries]
  exact h.sound.filter_alive

theorem Tracks.listeners_eq (h : l.Tracks s) (accepts : κ → Bool) :
    s.registry.listeners s.alive accepts = (l.living.filter (accepts ·.key)).map (·.listener) := by
  rw [Registry.listeners, ← h.filter_alive, List.filter_filter]
  refine congrArg (List.map _) (List.filter_congr fun x _ => ?_)
  exact Bool.and_comm _ _

theorem Tracks.size_eq (h : l.Tracks s) : s.registry.size s.alive = l.living.length := by
  rw [Registry.size, h.filter_alive]

theorem Tracks.reply_eq (h : l.Tracks s) (a : RegistryAct κ α) : (s.act a).2 = (l.act a).2 := by
  cases a with
  | add key x => exact congrArg RegistryReply.number h.nextId
  | remove id => exact congrArg RegistryReply.flag (h.contains_eq id)
  | snapshot accepts => exact congrArg RegistryReply.listeners (h.listeners_eq accepts)
  | contains id => exact congrArg RegistryReply.flag (h.contains_eq id)
  | size => exact congrArg RegistryReply.count h.size_eq
  | death x => rfl

/-! ### Steps -/

/-- A new subscription has a number that nobody ended, and no snapshot has seen it. -/
theorem Tracks.add (h : l.Tracks s) (key : κ) (x : α) :
    Tracks (l.act (.add key x)).1 (s.act (.add key x)).1 := by
  obtain ⟨hsound, hgone, hnext, hentries⟩ := h
  refine ⟨⟨?_, ?_, ?_, hsound.gone⟩, hgone, ?_, ?_⟩
  · simp [Ledger.act, hsound.numbered, List.range_succ]
  · intro id hid
    have := hsound.removed id hid
    simp only [Ledger.act, List.length_append, List.length_singleton]
    omega
  · intro t ht
    have := hsound.snapshots t ht
    simp only [Ledger.act, List.length_append, List.length_singleton]
    omega
  · simp [Ledger.act, RegistryInUse.act, Registry.add, hnext]
  · have hstands : l.registrations.length ∉ l.removed := by
      intro hr
      have := hsound.removed _ hr
      omega
    have hseen : l.seenAlive ⟨l.registrations.length, key, x⟩ = true := by
      simp only [Ledger.seenAlive, List.all_eq_true, decide_eq_true_eq]
      intro t ht hlt
      have := hsound.snapshots t ht
      omega
    have hkept : (l.registrations ++ [(⟨l.registrations.length, key, x⟩ : Entry κ α)]).filter
        (fun y => l.stands y && l.seenAlive y) =
        s.registry.entries ++ [⟨l.registrations.length, key, x⟩] := by
      rw [List.filter_append, ← hentries]
      simp [Ledger.stands, hstands, hseen]
    simp only [RegistryInUse.act, Registry.add, hnext]
    exact hkept.symm

theorem Tracks.remove (h : l.Tracks s) (id : Nat) :
    Tracks (l.act (.remove id)).1 (s.act (.remove id)).1 := by
  have hentries : (s.registry.remove id).entries = _ := h.ordered.entries_remove id
  rw [h.entries, List.filter_filter] at hentries
  by_cases hid : id < l.registrations.length
  · refine ⟨⟨h.sound.numbered, ?_, h.sound.snapshots, h.sound.gone⟩, h.gone, h.nextId, ?_⟩
    · intro other ho
      simp only [Ledger.act, if_pos hid, List.mem_cons] at ho
      rcases ho with rfl | ho
      · exact hid
      · exact h.sound.removed other ho
    · refine hentries.trans (List.filter_congr fun x _ => ?_)
      simp [Ledger.act, hid, Ledger.stands, Ledger.seenAlive, Bool.and_assoc]
  · -- nothing has this number
    have hsame : (l.act (.remove id)).1 = l := by simp [Ledger.act, hid]
    rw [hsame]
    refine ⟨h.sound, h.gone, h.nextId, hentries.trans (List.filter_congr fun x hx => ?_)⟩
    have hne : x.id ≠ id := by
      have := h.sound.id_lt hx
      omega
    simp [hne]

theorem stands_snapshot (l : Ledger κ α) (accepts : κ → Bool) (x : Entry κ α) :
    (l.act (.snapshot accepts)).1.stands x = l.stands x := rfl

theorem seenAlive_snapshot (l : Ledger κ α) (accepts : κ → Bool) (x : Entry κ α) :
    (l.act (.snapshot accepts)).1.seenAlive x =
      (decide (x.id < l.registrations.length → x.listener ∉ l.gone) && l.seenAlive x) := rfl

/-- A snapshot has the registry forget whom it found gone. -/
theorem Tracks.snapshot (h : l.Tracks s) (accepts : κ → Bool) :
    Tracks (l.act (.snapshot accepts)).1 (s.act (.snapshot accepts)).1 := by
  refine ⟨⟨h.sound.numbered, h.sound.removed, ?_, ?_⟩, h.gone, h.nextId, ?_⟩
  · intro t ht
    rcases List.mem_cons.1 ht with rfl | ht
    · exact Nat.le_refl _
    · exact h.sound.snapshots t ht
  · intro t ht x hx
    rcases List.mem_cons.1 ht with rfl | ht
    · exact hx
    · exact h.sound.gone t ht x hx
  · have hkept : s.registry.entries.filter (s.alive ·.listener) = l.living := h.filter_alive
    refine hkept.trans (List.filter_congr fun x hx => ?_)
    have hlt := h.sound.id_lt hx
    rw [seenAlive_snapshot, stands_snapshot]
    by_cases hgone : x.listener ∈ l.gone
    · simp [hgone, hlt]
    · simp [hgone, h.sound.seenAlive hgone]

theorem Tracks.death (h : l.Tracks s) (x : α) : Tracks (l.act (.death x)).1 (s.act (.death x)).1 := by
  refine ⟨⟨h.sound.numbered, h.sound.removed, h.sound.snapshots, ?_⟩, ?_, h.nextId, h.entries⟩
  · intro t ht y hy
    exact List.mem_cons_of_mem _ (h.sound.gone t ht y hy)
  · exact congrArg (x :: ·) h.gone

theorem Tracks.act (h : l.Tracks s) (a : RegistryAct κ α) : Tracks (l.act a).1 (s.act a).1 := by
  cases a with
  | add key x => exact h.add key x
  | remove id => exact h.remove id
  | snapshot accepts => exact h.snapshot accepts
  | contains id => exact h
  | size => exact h
  | death x => exact h.death x

/-! ### Runs -/

/-- Both reply the same all along, and stay side by side. -/
theorem Tracks.run (h : l.Tracks s) (acts : List (RegistryAct κ α)) :
    Tracks (runActs Ledger.act l acts).1 (runActs RegistryInUse.act s acts).1 ∧
      (runActs RegistryInUse.act s acts).2 = (runActs Ledger.act l acts).2 := by
  induction acts generalizing l s with
  | nil => exact ⟨h, rfl⟩
  | cons a acts ih =>
    obtain ⟨htracks, hreplies⟩ := ih (h.act a)
    refine ⟨htracks, ?_⟩
    simp only [runActs, hreplies, h.reply_eq a]

theorem length_act (l : Ledger κ α) (a : RegistryAct κ α) :
    (l.act a).1.registrations.length = l.registrations.length + if a.isAdd then 1 else 0 := by
  cases a <;> simp [Ledger.act, RegistryAct.isAdd]

theorem issued?_act (l : Ledger κ α) (a : RegistryAct κ α) :
    (l.act a).2.issued? = if a.isAdd then some l.registrations.length else none := by
  cases a <;> simp [Ledger.act, RegistryAct.isAdd, RegistryReply.issued?]

/-- The numbers given out are the places of the subscriptions made, one after the other. -/
theorem run_issued (l : Ledger κ α) (acts : List (RegistryAct κ α)) :
    (runActs Ledger.act l acts).1.registrations.length =
      l.registrations.length + acts.countP RegistryAct.isAdd ∧
    (runActs Ledger.act l acts).2.filterMap RegistryReply.issued? =
      List.range' l.registrations.length (acts.countP RegistryAct.isAdd) := by
  induction acts generalizing l with
  | nil => simp [runActs]
  | cons a acts ih =>
    obtain ⟨hlen, hids⟩ := ih (l.act a).1
    rw [length_act] at hlen hids
    have hissued := issued?_act l a
    simp only [runActs]
    cases ha : a.isAdd with
    | true =>
      simp only [ha, if_true] at hlen hids hissued
      rw [List.countP_cons_of_pos ha, List.range'_succ, List.filterMap_cons_some hissued, hids]
      exact ⟨by omega, rfl⟩
    | false =>
      simp only [ha, Bool.false_eq_true, if_false, Nat.add_zero] at hlen hids hissued
      rw [List.countP_cons_of_neg (by simp [ha]), List.filterMap_cons_none hissued]
      exact ⟨hlen, hids⟩

end Ledger

/-- A registry replies to everything as one that forgets nothing does, whoever dies meanwhile. The numbers in
it go up and are below the next one, which is the number of subscriptions made so far; the numbers given out
are all different. -/
theorem registry_replies_as_ledger (acts : List (RegistryAct κ α)) :
    (runActs RegistryInUse.act {} acts).2 = (runActs Ledger.act {} acts).2 ∧
    (runActs RegistryInUse.act {} acts).1.registry.entries.Pairwise (·.id < ·.id) ∧
    (∀ x ∈ (runActs RegistryInUse.act {} acts).1.registry.entries,
      x.id < (runActs RegistryInUse.act {} acts).1.registry.nextId) ∧
    (runActs RegistryInUse.act {} acts).1.registry.nextId = acts.countP RegistryAct.isAdd ∧
    ((runActs RegistryInUse.act {} acts).2.filterMap RegistryReply.issued?).Nodup := by
  obtain ⟨htracks, hreplies⟩ := Ledger.tracks_new.run acts
  obtain ⟨hlen, hids⟩ := Ledger.run_issued {} acts
  refine ⟨hreplies, htracks.ordered.increasing, htracks.ordered.issued, ?_, ?_⟩
  · rw [htracks.nextId, hlen]
    simp
  · rw [hreplies, hids]
    exact List.nodup_range'

end Machines

end LiveTypes
