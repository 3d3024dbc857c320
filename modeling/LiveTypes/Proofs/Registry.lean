import LiveTypes.Registry
import Mathlib.Data.List.Nodup

/-!
# Registries keep their subscriptions apart

The numbers in a registry go up and none is given out twice, so to end a subscription touches nobody
else's. `Registry.held` is what one listener has in a registry, oldest first; each operation has one
equation for it.
-/
namespace LiveTypes

/-- Where numbers go up, to erase the first with a number is to drop all with it. -/
theorem eraseP_eq_filter_of_increasing {β : Type} (number : β → Nat) {xs : List β}
    (h : xs.Pairwise (number · < number ·)) (n : Nat) :
    xs.eraseP (number · = n) = xs.filter (number · ≠ n) := by
  induction xs with
  | nil => rfl
  | cons x xs ih =>
    obtain ⟨hx, h⟩ := List.pairwise_cons.1 h
    by_cases hn : number x = n
    · have hrest : ∀ y ∈ xs, number y ≠ n := by
        intro y hy
        have := hx y hy
        omega
      rw [List.eraseP_cons_of_pos (by simpa using hn), List.filter_cons_of_neg (by simpa using hn)]
      exact (List.filter_eq_self.2 (by simpa using hrest)).symm
    · rw [List.eraseP_cons_of_neg (by simpa using hn), List.filter_cons_of_pos (by simpa using hn), ih h]

namespace Registry

variable {κ α : Type}

/-- The numbers go up, and all of them have been given out. -/
structure Ordered (r : Registry κ α) : Prop where
  increasing : r.entries.Pairwise (·.id < ·.id)
  issued : ∀ x ∈ r.entries, x.id < r.nextId

/-- The subscriptions of one listener. -/
def held [DecidableEq α] (r : Registry κ α) (l : α) : List (Entry κ α) :=
  r.entries.filter (·.listener = l)

/-! ## Numbers -/

theorem ordered_new : ({} : Registry κ α).Ordered := ⟨List.Pairwise.nil, by simp⟩

theorem Ordered.add {r : Registry κ α} (h : r.Ordered) (key : κ) (l : α) : (r.add key l).Ordered := by
  refine ⟨?_, ?_⟩
  · simp only [Registry.add, List.pairwise_append, List.pairwise_singleton, List.mem_singleton]
    refine ⟨h.increasing, trivial, ?_⟩
    rintro x hx y rfl
    exact h.issued x hx
  · intro x hx
    simp only [Registry.add, List.mem_append, List.mem_singleton] at hx ⊢
    rcases hx with hx | rfl
    · have := h.issued x hx
      omega
    · exact Nat.lt_succ_self _

theorem Ordered.remove {r : Registry κ α} (h : r.Ordered) (id : Nat) : (r.remove id).Ordered :=
  ⟨h.increasing.sublist List.eraseP_sublist, fun x hx => h.issued x (List.mem_of_mem_eraseP hx)⟩

theorem Ordered.prune {r : Registry κ α} (h : r.Ordered) (alive : α → Bool) :
    (r.prune alive).Ordered :=
  ⟨h.increasing.sublist List.filter_sublist, fun x hx => h.issued x (List.mem_filter.1 hx).1⟩

/-- A number stands for one subscription. -/
theorem Ordered.eq_of_id {r : Registry κ α} (h : r.Ordered) {x y : Entry κ α} (hx : x ∈ r.entries)
    (hy : y ∈ r.entries) (hid : x.id = y.id) : x = y := by
  have distinct : (r.entries.map (·.id)).Nodup :=
    List.pairwise_map.2 (h.increasing.imp Nat.ne_of_lt)
  exact List.inj_on_of_nodup_map distinct hx hy hid

/-- To end a subscription takes exactly the one with its number. -/
theorem Ordered.entries_remove {r : Registry κ α} (h : r.Ordered) (id : Nat) :
    (r.remove id).entries = r.entries.filter (·.id ≠ id) :=
  eraseP_eq_filter_of_increasing Entry.id h.increasing id

/-! ## What a listener has -/

section Held

variable [DecidableEq α]

theorem mem_held {r : Registry κ α} {l : α} {x : Entry κ α} :
    x ∈ r.held l ↔ x ∈ r.entries ∧ x.listener = l := by
  simp [held]

@[simp] theorem held_new (l : α) : ({} : Registry κ α).held l = [] := rfl

theorem held_add_self (r : Registry κ α) (key : κ) (l : α) :
    (r.add key l).held l = r.held l ++ [⟨r.nextId, key, l⟩] := by
  simp [held, Registry.add]

theorem held_add_of_ne (r : Registry κ α) (key : κ) {l l' : α} (h : l' ≠ l) :
    (r.add key l').held l = r.held l := by
  simp [held, Registry.add, h]

theorem held_prune (r : Registry κ α) {alive : α → Bool} {l : α} (h : alive l = true) :
    (r.prune alive).held l = r.held l := by
  simp only [held, Registry.prune, List.filter_filter]
  refine List.filter_congr fun x _ => ?_
  by_cases hx : x.listener = l <;> simp [hx, h]

/-- To end a subscription takes exactly it from whoever had it. -/
theorem Ordered.held_remove {r : Registry κ α} (h : r.Ordered) (id : Nat) (l : α) :
    (r.remove id).held l = (r.held l).filter (·.id ≠ id) := by
  simp only [held, h.entries_remove, List.filter_filter]
  exact List.filter_congr fun x _ => Bool.and_comm _ _

/-- To end a subscription that a listener does not have leaves it what it has. -/
theorem Ordered.held_remove_of_ne {r : Registry κ α} (h : r.Ordered) {id : Nat} {l : α}
    (hl : ∀ x ∈ r.held l, x.id ≠ id) : (r.remove id).held l = r.held l := by
  rw [h.held_remove]
  exact List.filter_eq_self.2 fun x hx => by simpa using hl x hx

/-! ## Changes that leave some listeners alone -/

/-- `r'` comes from `r` by changes that leave the listeners in `keep` what they have; what is new has
a new number. -/
structure Keeps (keep : α → Bool) (r r' : Registry κ α) : Prop where
  ordered : r.Ordered → r'.Ordered
  issued : r.nextId ≤ r'.nextId
  held : ∀ l, keep l → r'.held l = r.held l
  old : ∀ x ∈ r'.entries, x ∈ r.entries ∨ r.nextId ≤ x.id

namespace Keeps

variable {keep : α → Bool} {r r' r'' : Registry κ α}

theorem refl (keep : α → Bool) (r : Registry κ α) : Keeps keep r r :=
  ⟨id, Nat.le_refl _, fun _ _ => rfl, fun _ hx => .inl hx⟩

theorem trans (h : Keeps keep r r') (h' : Keeps keep r' r'') : Keeps keep r r'' := by
  refine ⟨h'.ordered ∘ h.ordered, Nat.le_trans h.issued h'.issued,
    fun l hl => (h'.held l hl).trans (h.held l hl), fun x hx => ?_⟩
  rcases h'.old x hx with hx | hx
  · exact h.old x hx
  · exact .inr (Nat.le_trans h.issued hx)

theorem add {l : α} (key : κ) (h : keep l = false) : Keeps keep r (r.add key l) := by
  refine ⟨fun ho => ho.add key l, Nat.le_succ _, fun l' hl' => held_add_of_ne r key ?_, fun x hx => ?_⟩
  · rintro rfl
    simp [h] at hl'
  · rcases List.mem_append.1 hx with hx | hx
    · exact .inl hx
    · rw [List.mem_singleton.1 hx]
      exact .inr (Nat.le_refl _)

theorem prune {alive : α → Bool} (h : ∀ l, keep l → alive l) : Keeps keep r (r.prune alive) :=
  ⟨fun ho => ho.prune alive, Nat.le_refl _, fun l hl => held_prune r (h l hl),
    fun _ hx => .inl (List.mem_filter.1 hx).1⟩

theorem remove {id : Nat} (ho : r.Ordered) (h : ∀ l, keep l → ∀ x ∈ r.held l, x.id ≠ id) :
    Keeps keep r (r.remove id) :=
  ⟨fun _ => ho.remove id, Nat.le_refl _, fun l hl => ho.held_remove_of_ne (h l hl),
    fun _ hx => .inl (List.mem_of_mem_eraseP hx)⟩

end Keeps

/-! ## What a listener was given -/

/-- A listener has at most the subscriptions that it was given, in full all of them, and nobody else ever
gets one of their numbers. -/
structure Due (full : Prop) (r : Registry κ α) (l : α) (given : List (Entry κ α)) : Prop where
  held : ∀ x ∈ r.held l, x ∈ given
  own : ∀ x ∈ given, x.id < r.nextId ∧ ∀ y ∈ r.entries, y.id = x.id → y.listener = l
  all : full → ∀ x ∈ given, x ∈ r.held l

namespace Due

variable {full : Prop} {r r' : Registry κ α} {l : α} {given : List (Entry κ α)} {x : Entry κ α}

/-! ### What it has -/

/-- Who has exactly what it was given has it in full. -/
theorem of_held (ho : r.Ordered) (h : r.held l = given) : Due full r l given := by
  subst h
  refine ⟨fun _ hx => hx, fun x hx => ?_, fun _ _ hx => hx⟩
  obtain ⟨hx, hl⟩ := mem_held.1 hx
  exact ⟨ho.issued x hx, fun y hy hid => ho.eq_of_id hy hx hid ▸ hl⟩

theorem held_nil (h : Due full r l []) : r.held l = [] :=
  List.eq_nil_iff_forall_not_mem.2 fun x hx => by simpa using h.held x hx

theorem held_singleton (ho : r.Ordered) (h : Due full r l [x]) (hf : full) : r.held l = [x] := by
  have only : ∀ y ∈ r.held l, y = x := fun y hy => List.mem_singleton.1 (h.held y hy)
  have there : x ∈ r.held l := h.all hf x (List.mem_singleton_self x)
  have increasing : (r.held l).Pairwise (·.id < ·.id) := ho.increasing.filter _
  match hl : r.held l with
  | [] => simp [hl] at there
  | [y] => rw [only y (by simp [hl])]
  | y :: z :: rest =>
    -- two of them would be the same
    rw [hl] at increasing
    have hlt := (List.pairwise_cons.1 increasing).1 z List.mem_cons_self
    rw [only y (by simp [hl]), only z (by simp [hl])] at hlt
    exact absurd hlt (Nat.lt_irrefl _)

theorem held_eq (ho : r.Ordered) (h : Due full r l given) (hf : full) (hlen : given.length ≤ 1) :
    r.held l = given := by
  match given, hlen with
  | [], _ => exact h.held_nil
  | [x], _ => exact h.held_singleton ho hf

/-- Nobody else has what a listener was given. -/
theorem id_ne (h : Due full r l given) {y : Entry κ α} {l' : α} (hx : x ∈ given) (hy : y ∈ r.held l')
    (hne : l' ≠ l) : y.id ≠ x.id := by
  intro hid
  obtain ⟨hy, hl⟩ := mem_held.1 hy
  exact hne (hl ▸ (h.own x hx).2 y hy hid)

/-! ### What changes it -/

theorem keeps {keep : α → Bool} (h : Due full r l given) (hk : Keeps keep r r') (hl : keep l) :
    Due full r' l given := by
  have heq := hk.held l hl
  refine ⟨fun x hx => h.held x (heq ▸ hx), fun x hx => ?_, fun hf x hx => heq ▸ h.all hf x hx⟩
  obtain ⟨hlt, hown⟩ := h.own x hx
  refine ⟨Nat.lt_of_lt_of_le hlt hk.issued, fun y hy hid => ?_⟩
  rcases hk.old y hy with hy | hy
  · exact hown y hy hid
  · omega

/-- A subscription that is over is not among those given. -/
theorem drop (ho : r.Ordered) (h : Due full r l given) (id : Nat) :
    Due full (r.remove id) l (given.filter (·.id ≠ id)) := by
  refine ⟨fun x hx => ?_, fun x hx => ?_, fun hf x hx => ?_⟩
  · rw [ho.held_remove] at hx
    obtain ⟨hx, hid⟩ := List.mem_filter.1 hx
    exact List.mem_filter.2 ⟨h.held x hx, hid⟩
  · obtain ⟨hlt, hown⟩ := h.own x (List.mem_filter.1 hx).1
    exact ⟨hlt, fun y hy => hown y (List.mem_of_mem_eraseP hy)⟩
  · obtain ⟨hx, hid⟩ := List.mem_filter.1 hx
    rw [ho.held_remove]
    exact List.mem_filter.2 ⟨h.all hf x hx, hid⟩

/-- To end a subscription gives nobody more, and who has its own in full loses none by the end of one that
is not its own. -/
theorem remove (ho : r.Ordered) (h : Due full r l given) {id : Nat}
    (hid : full → ∀ x ∈ r.held l, x.id ≠ id) : Due full (r.remove id) l given := by
  have dropped := h.drop ho id
  refine ⟨fun x hx => (List.mem_filter.1 (dropped.held x hx)).1, fun x hx => ?_, fun hf x hx => ?_⟩
  · obtain ⟨hlt, hown⟩ := h.own x hx
    exact ⟨hlt, fun y hy => hown y (List.mem_of_mem_eraseP hy)⟩
  · rw [ho.held_remove_of_ne (hid hf)]
    exact h.all hf x hx

theorem add (ho : r.Ordered) (h : Due full r l given) (key : κ) :
    Due full (r.add key l) l (given ++ [⟨r.nextId, key, l⟩]) := by
  have cases : ∀ y ∈ (r.add key l).entries, y ∈ r.entries ∨ y = ⟨r.nextId, key, l⟩ := fun y hy => by
    simpa [Registry.add] using hy
  refine ⟨fun x hx => ?_, fun x hx => ?_, fun hf x hx => ?_⟩
  · rw [held_add_self] at hx
    exact (List.mem_append.1 hx).elim (fun hx => List.mem_append_left _ (h.held x hx))
      (List.mem_append_right _)
  · rcases List.mem_append.1 hx with hx | hx
    · obtain ⟨hlt, hown⟩ := h.own x hx
      refine ⟨Nat.lt_succ_of_lt hlt, fun y hy hid => ?_⟩
      rcases cases y hy with hy | rfl
      · exact hown y hy hid
      · exact absurd hid (Nat.ne_of_gt hlt)
    · rw [List.mem_singleton.1 hx]
      refine ⟨Nat.lt_succ_self _, fun y hy hid => ?_⟩
      rcases cases y hy with hy | rfl
      · exact absurd hid (Nat.ne_of_lt (ho.issued y hy))
      · rfl
  · rw [held_add_self]
    exact (List.mem_append.1 hx).elim (fun hx => List.mem_append_left _ (h.all hf x hx))
      (List.mem_append_right _)

/-- Who changes its only subscription for another was given that one. -/
theorem change (ho : r.Ordered) (h : Due full r l [x]) (key : κ) :
    Due full ((r.add key l).remove x.id) l [⟨r.nextId, key, l⟩] := by
  have hne : r.nextId ≠ x.id := Nat.ne_of_gt (h.own x (List.mem_singleton_self x)).1
  simpa [hne] using (h.add ho key).drop (ho.add key l) x.id

/-! ### Others are not touched -/

theorem keeps_drop {keep : α → Bool} (ho : r.Ordered) (h : Due full r l given) (hx : x ∈ given)
    (hl : ∀ l', keep l' → l' ≠ l) : Keeps keep r (r.remove x.id) :=
  .remove ho fun l' hl' _ hy => h.id_ne hx hy (hl l' hl')

theorem keeps_change {keep : α → Bool} (ho : r.Ordered) (h : Due full r l [x]) (key : κ)
    (hl : ∀ l', keep l' → l' ≠ l) : Keeps keep r ((r.add key l).remove x.id) := by
  have hk : keep l = false := by
    cases hkl : keep l with
    | false => rfl
    | true => exact absurd rfl (hl l hkl)
  exact .trans (.add key hk) ((h.add ho key).keeps_drop (ho.add key l) (by simp) hl)

end Due

end Held

/-! ## Snapshots -/

theorem mem_listeners {r : Registry κ α} {alive : α → Bool} {accepts : κ → Bool} {l : α} :
    l ∈ r.listeners alive accepts ↔
      ∃ x ∈ r.entries, x.listener = l ∧ alive l = true ∧ accepts x.key = true := by
  simp only [Registry.listeners, List.mem_map, List.mem_filter, Bool.and_eq_true]
  constructor
  · rintro ⟨x, ⟨hx, ha, hk⟩, rfl⟩
    exact ⟨x, hx, rfl, ha, hk⟩
  · rintro ⟨x, hx, rfl, ha, hk⟩
    exact ⟨x, ⟨hx, ha, hk⟩, rfl⟩

/-- A snapshot has a listener once for each of its subscriptions that is accepted. -/
theorem count_listeners [DecidableEq α] {r : Registry κ α} {alive : α → Bool} {accepts : κ → Bool} {l : α}
    (hl : alive l) : (r.listeners alive accepts).count l = (r.held l).countP (accepts ·.key) := by
  simp only [Registry.listeners, held, List.count, List.countP_map, List.countP_filter]
  refine List.countP_congr fun x _ => ?_
  by_cases hx : x.listener = l
  · simp [hx, hl]
  · simp [hx]

end Registry
end LiveTypes
