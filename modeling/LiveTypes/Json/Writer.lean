import LiveTypes.Json.Basic

/-!
# Compact JSON text

`Json.write` gives the one compact text of a value: no blanks, members in their order, and inside a
string only the quote, the backslash and the characters below U+0020 are escaped, with the short
escapes where JSON has one and four lower-case hexadecimal digits elsewhere.
-/
namespace LiveTypes.Json

/-! ## Digits -/

/-- The character of a digit below 16, in lower case. -/
def digitChar (d : Nat) : Char :=
  if d < 10 then Char.ofNat ('0'.toNat + d) else Char.ofNat ('a'.toNat + (d - 10))

/-- The digits of a number in a base from 2 to 16, most significant first and without leading
zeros. -/
def digits (base : Nat) (n : Nat) : List Char :=
  if h : 2 ≤ base ∧ base ≤ n then
    have : n / base < n := Nat.div_lt_self (by omega) h.1
    digits base (n / base) ++ [digitChar (n % base)]
  else
    [digitChar n]
termination_by n

/-- A natural number in decimal. -/
def natChars (n : Nat) : List Char := digits 10 n

/-- An integer in decimal, with a minus sign if it is negative. -/
def intChars : Int → List Char
  | .ofNat n => natChars n
  | .negSucc n => '-' :: natChars (n + 1)

/-! ## Strings -/

/-- One character inside a string literal. -/
def escapeChar (c : Char) : List Char :=
  if c = '"' then ['\\', '"']
  else if c = '\\' then ['\\', '\\']
  else if c = '\x08' then ['\\', 'b']
  else if c = '\t' then ['\\', 't']
  else if c = '\n' then ['\\', 'n']
  else if c = '\x0c' then ['\\', 'f']
  else if c = '\r' then ['\\', 'r']
  else if c.toNat < 0x20 then ['\\', 'u', '0', '0', digitChar (c.toNat / 16), digitChar (c.toNat % 16)]
  else [c]

/-- A string literal, quotes included. -/
def stringChars (s : String) : List Char :=
  '"' :: (s.toList.flatMap escapeChar ++ ['"'])

/-! ## Values -/

mutual

/-- The compact text of a value, as characters. -/
def chars : Json → List Char
  | .null => ['n', 'u', 'l', 'l']
  | .bool true => ['t', 'r', 'u', 'e']
  | .bool false => ['f', 'a', 'l', 's', 'e']
  | .int i => intChars i
  | .decimal written => written
  | .str s => stringChars s
  | .arr items => '[' :: (itemsChars items ++ [']'])
  | .obj members => '\x7b' :: (membersChars members ++ ['\x7d'])

/-- The items of an array, divided by commas. -/
def itemsChars : List Json → List Char
  | [] => []
  | [j] => j.chars
  | j :: k :: rest => j.chars ++ ',' :: itemsChars (k :: rest)

/-- The members of an object, divided by commas. -/
def membersChars : List (String × Json) → List Char
  | [] => []
  | [(key, j)] => stringChars key ++ ':' :: j.chars
  | (key, j) :: m :: rest => stringChars key ++ ':' :: (j.chars ++ ',' :: membersChars (m :: rest))

end

/-- The compact text of a value. -/
def write (j : Json) : String := String.ofList j.chars

end LiveTypes.Json
