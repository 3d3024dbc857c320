/-!
# JSON values

A JSON value as text interchange sees it. Integers are exact and unbounded; a number written any
other way (a fraction, an exponent, a negative zero) is kept as it was written, because nothing in
this library computes with it. An object keeps its members in order, repeated keys included, so a
reader can refuse a repetition.
-/
namespace LiveTypes

/-- A JSON value. -/
inductive Json where
  | null
  | bool (value : Bool)
  | int (value : Int)
  /-- A number that is not a plain integer, as written. -/
  | decimal (written : List Char)
  | str (value : String)
  | arr (items : List Json)
  | obj (members : List (String × Json))
deriving Inhabited

namespace Json

/-- A string as a JSON value. -/
instance : Coe String Json := ⟨.str⟩

/-- A natural number as a JSON value. -/
def nat (n : Nat) : Json := .int n

/-- An absent value is written as `null`. -/
def ofOption {α : Type} (f : α → Json) : Option α → Json
  | none => .null
  | some a => f a

/-- A list as an array. -/
def ofList {α : Type} (f : α → Json) (items : List α) : Json := .arr (items.map f)

/-! ## Reading fields -/

/-- The member under a key; of repeated members the last one counts. -/
def get? (key : String) : Json → Option Json
  | .obj members => members.foldl (fun found m => if m.1 = key then some m.2 else found) none
  | _ => none

/-- The member under a key, where a missing member and `null` mean the same. -/
def field (key : String) (j : Json) : Json := (j.get? key).getD .null

def isNull : Json → Bool
  | .null => true
  | _ => false

def str? : Json → Option String
  | .str s => some s
  | _ => none

def bool? : Json → Option Bool
  | .bool b => some b
  | _ => none

def arr? : Json → Option (List Json)
  | .arr items => some items
  | _ => none

/-- A natural number of at most 64 bits. -/
def nat? : Json → Option Nat
  | .int (.ofNat n) => if n < UInt64.size then some n else none
  | _ => none

/-- A signed integer of at most 64 bits. -/
def int? : Json → Option Int
  | .int i => if Int64.minValue.toInt ≤ i ∧ i ≤ Int64.maxValue.toInt then some i else none
  | _ => none

/-! ## Nesting -/

mutual

/-- How deeply arrays and objects are nested. -/
def depth : Json → Nat
  | .arr items => itemsDepth items + 1
  | .obj members => membersDepth members + 1
  | _ => 0

def itemsDepth : List Json → Nat
  | [] => 0
  | j :: rest => max j.depth (itemsDepth rest)

def membersDepth : List (String × Json) → Nat
  | [] => 0
  | (_, j) :: rest => max j.depth (membersDepth rest)

end

end Json
end LiveTypes
