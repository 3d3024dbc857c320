import LiveTypes.Json.Reader

/-!
# Limits of requests

A request is nested at most 127 levels deep, and no number in it is too large for a double. The
magnitude of a number is taken from its leading digits, as many as fit 64 bits, and a power of ten:
both are rounded to doubles, and so is their product. All of this is arithmetic of natural numbers,
because a number below one cannot be too large and every double above `2 ^ 53` is an integer.
-/
namespace LiveTypes.Json

/-! ## Doubles -/

/-- The number of significant bits of a double. -/
def doubleBits : Nat := 53

/-- The least power of two that is too large for a double. -/
def doubleLimit : Nat := 1 <<< 1024

/-- The nearest number with 53 significant bits; of two equally near ones the even one. -/
def nearestDouble (n : Nat) : Nat :=
  let unit := 1 <<< (n.log2 + 1 - doubleBits)
  let below := n / unit
  let rest := 2 * (n % unit)
  if rest > unit || (rest == unit && below % 2 == 1) then (below + 1) * unit else below * unit

/-! ## Magnitudes -/

/-- The absolute value of a number, as `significand * 10 ^ exponent`. -/
structure Magnitude where
  significand : Nat
  exponent : Int
deriving DecidableEq

/-- Append digits to a number as long as 64 bits hold it; the rest of the digits is left over. -/
def appendDigits (n : Nat) : List Char → Nat × List Char
  | [] => (n, [])
  | d :: ds =>
    let longer := 10 * n + ofDigits [d]
    if longer < UInt64.size then appendDigits longer ds else (n, d :: ds)

namespace Magnitude

/-- The magnitude that digits before and after the point and an exponent write. Digits that no longer
fit count only by their place. -/
def ofParts (whole fraction : List Char) (exponent : Int) : Magnitude :=
  let (n, unread) := appendDigits 0 whole
  let (n, ignored) := appendDigits n fraction
  ⟨n, exponent + unread.length - (fraction.length - ignored.length : Nat)⟩

/-- The exponent that stands after its mark; without a mark it is zero. -/
def exponentOf : List Char → Int
  | [] => 0
  | _ :: '-' :: ds => -(ofDigits ds : Int)
  | _ :: '+' :: ds => ofDigits ds
  | _ :: ds => ofDigits ds

/-- The magnitude of a number as it is written. -/
def ofWritten (written : List Char) : Magnitude :=
  let unsigned := written.dropWhile (· = '-')
  let rest := unsigned.dropWhile Char.isDigit
  let fraction := match rest with
    | '.' :: more => more.takeWhile Char.isDigit
    | _ => []
  ofParts (unsigned.takeWhile Char.isDigit) fraction
    (exponentOf (rest.dropWhile fun c => c = '.' || c.isDigit))

/-- Whether a double holds the magnitude, be it roughly. -/
def fits (m : Magnitude) : Bool :=
  m.significand == 0 || m.exponent < 0 ||
    (m.exponent ≤ 308 &&
      nearestDouble (nearestDouble m.significand * nearestDouble (Nat.pow 10 m.exponent.toNat)) < doubleLimit)

end Magnitude

/-! ## Requests -/

mutual

/-- Whether a double holds every number of a value. -/
def numbersFit : Json → Bool
  | .int i => i.natAbs < UInt64.size || (Magnitude.ofParts (Nat.toDigits 10 i.natAbs) [] 0).fits
  | .decimal written => (Magnitude.ofWritten written).fits
  | .arr items => itemsFit items
  | .obj members => membersFit members
  | _ => true

def itemsFit : List Json → Bool
  | [] => true
  | j :: rest => j.numbersFit && itemsFit rest

def membersFit : List (String × Json) → Bool
  | [] => true
  | (_, j) :: rest => j.numbersFit && membersFit rest

end

/-- How deeply a request may be nested. -/
def depthLimit : Nat := 127

/-- Read a request. -/
def parseRequest (text : String) : Option Json :=
  (parse text).filter fun j => j.depth ≤ depthLimit && j.numbersFit

end LiveTypes.Json
