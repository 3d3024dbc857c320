/-!
# Listener registries: `add_keyed`, `remove`, `snapshot_matching`

An ordered registry of listeners that it does not keep alive. Each subscription has a number and a key
that a notification pass can filter on. A pass works on a snapshot: the listeners that are alive and
accepted when it begins, once per subscription and in the order of subscription. Taking a snapshot also
drops the subscriptions of listeners that are gone; until then such a subscription still counts as
registered.

The numbers are natural here, so that none is given out twice. The counter of the program is a word of 64
bits and comes round: what is said of a registry holds up to its 2^64th subscription.
-/
namespace LiveTypes

/-- One subscription. -/
structure Entry (κ α : Type) where
  id : Nat
  key : κ
  listener : α

/-- A registry of listeners `α` under keys `κ`, oldest subscription first. -/
structure Registry (κ α : Type) where
  nextId : Nat := 0
  entries : List (Entry κ α) := []

namespace Registry

variable {κ α : Type}

/-- Subscribe a listener; the new subscription has the number `nextId`. This is `add_keyed`. -/
def add (r : Registry κ α) (key : κ) (listener : α) : Registry κ α :=
  { nextId := r.nextId + 1, entries := r.entries ++ [⟨r.nextId, key, listener⟩] }

/-- Whether a subscription is registered. -/
def contains (r : Registry κ α) (id : Nat) : Bool := r.entries.any (·.id = id)

/-- End a subscription, if it is registered. -/
def remove (r : Registry κ α) (id : Nat) : Registry κ α :=
  { r with entries := r.entries.eraseP (·.id = id) }

/-- Drop the subscriptions of listeners that are gone. -/
def prune (alive : α → Bool) (r : Registry κ α) : Registry κ α :=
  { r with entries := r.entries.filter (alive ·.listener) }

/-- The listeners that are alive and whose key is accepted, in the order of subscription. -/
def listeners (alive : α → Bool) (accepts : κ → Bool) (r : Registry κ α) : List α :=
  (r.entries.filter fun entry => alive entry.listener && accepts entry.key).map (·.listener)

/-- What a notification pass begins with: the pruned registry and the listeners to call. This is
`snapshot_matching`. -/
def snapshot (alive : α → Bool) (accepts : κ → Bool) (r : Registry κ α) : Registry κ α × List α :=
  (r.prune alive, r.listeners alive accepts)

/-- How many subscriptions have a listener that is alive: `len`. -/
def size (alive : α → Bool) (r : Registry κ α) : Nat := (r.entries.filter (alive ·.listener)).length

/-- The description of a subscription's number. -/
def describeId (id : Nat) : String := "ListenerId(" ++ toString id ++ ")"

/-- The description of a registry. -/
def describe (alive : α → Bool) (r : Registry κ α) : String :=
  "ListenerSet \x7b len: " ++ toString (r.size alive) ++ " \x7d"

end Registry
end LiveTypes
