import LiveTypes.Json.Basic

/-!
# Reading JSON text

A strict reader: no comments, no trailing commas, no leading zeros, no raw control characters inside
strings, nothing but blanks after the value, and every escaped surrogate is half of a pair. The one
relaxation is for values that nobody looks at: the value of an ignored member may hold a string with
an unpaired surrogate, since the text of that string is never needed.

`read` takes fuel from the number of characters: each nested call consumes at least one character,
so the fuel of `parse` always suffices.
-/
namespace LiveTypes.Json

/-! ## Blanks and digits -/

/-- The four blank characters of JSON. -/
def isBlank (c : Char) : Bool := c = ' ' || c = '\t' || c = '\n' || c = '\r'

def skipBlanks (cs : List Char) : List Char := cs.dropWhile isBlank

/-- The value of a hexadecimal digit of either case. -/
def hexValue? (c : Char) : Option Nat :=
  if '0' ≤ c ∧ c ≤ '9' then some (c.toNat - '0'.toNat)
  else if 'a' ≤ c ∧ c ≤ 'f' then some (c.toNat - 'a'.toNat + 10)
  else if 'A' ≤ c ∧ c ≤ 'F' then some (c.toNat - 'A'.toNat + 10)
  else none

/-- The number that a list of decimal digits writes. -/
def ofDigits (ds : List Char) : Nat := ds.foldl (fun n d => 10 * n + (d.toNat - '0'.toNat)) 0

/-! ## Strings -/

/-- What a string literal is made of: characters, and 16-bit units written as `\u` escapes. -/
inductive Piece where
  | char (c : Char)
  | unit (u : Nat)

/-- The pieces up to the closing quote, and what follows it. -/
def readPieces : List Char → Option (List Piece × List Char)
  | [] => none
  | '"' :: rest => some ([], rest)
  | '\\' :: 'u' :: a :: b :: c :: d :: rest => do
    let a ← hexValue? a
    let b ← hexValue? b
    let c ← hexValue? c
    let d ← hexValue? d
    let (pieces, rest) ← readPieces rest
    return (.unit (((a * 16 + b) * 16 + c) * 16 + d) :: pieces, rest)
  | '\\' :: e :: rest => do
    let c ←
      if e = '"' then some '"'
      else if e = '\\' then some '\\'
      else if e = '/' then some '/'
      else if e = 'b' then some '\x08'
      else if e = 'f' then some '\x0c'
      else if e = 'n' then some '\n'
      else if e = 'r' then some '\r'
      else if e = 't' then some '\t'
      else none
    let (pieces, rest) ← readPieces rest
    return (.char c :: pieces, rest)
  | c :: rest =>
    if c = '\\' ∨ c.toNat < 0x20 then none
    else do
      let (pieces, rest) ← readPieces rest
      return (.char c :: pieces, rest)

def isHighSurrogate (u : Nat) : Bool := 0xD800 ≤ u && u < 0xDC00

def isLowSurrogate (u : Nat) : Bool := 0xDC00 ≤ u && u < 0xE000

/-- The text that pieces spell; nothing if a surrogate has no partner. -/
def textOf? : List Piece → Option (List Char)
  | [] => some []
  | .char c :: rest => (textOf? rest).map (c :: ·)
  | .unit u :: .unit v :: rest =>
    if isHighSurrogate u then
      if isLowSurrogate v then
        (textOf? rest).map (Char.ofNat (0x10000 + (u - 0xD800) * 0x400 + (v - 0xDC00)) :: ·)
      else none
    else if isLowSurrogate u then none
    else (textOf? (.unit v :: rest)).map (Char.ofNat u :: ·)
  | .unit u :: rest =>
    if isHighSurrogate u || isLowSurrogate u then none
    else (textOf? rest).map (Char.ofNat u :: ·)

/-- A string literal after its opening quote. If the text is not needed, an unpaired surrogate is let
pass and the text is empty. -/
def readString (needed : Bool) (cs : List Char) : Option (String × List Char) := do
  let (pieces, rest) ← readPieces cs
  match textOf? pieces with
  | some text => return (String.ofList text, rest)
  | none => if needed then none else return ("", rest)

/-! ## Numbers -/

/-- The fraction of a number, if one follows: a point and at least one digit. -/
def readFraction : List Char → Option (List Char × List Char)
  | '.' :: rest =>
    let ds := rest.takeWhile Char.isDigit
    if ds.isEmpty then none else some ('.' :: ds, rest.dropWhile Char.isDigit)
  | cs => some ([], cs)

/-- The digits of an exponent after its mark: an optional sign and at least one digit. -/
def readExponentDigits (cs : List Char) : Option (List Char × List Char) :=
  let (sign, rest) := match cs with
    | '+' :: rest => (['+'], rest)
    | '-' :: rest => (['-'], rest)
    | rest => ([], rest)
  let ds := rest.takeWhile Char.isDigit
  if ds.isEmpty then none else some (sign ++ ds, rest.dropWhile Char.isDigit)

/-- The exponent of a number, if one follows. -/
def readExponent : List Char → Option (List Char × List Char)
  | 'e' :: rest => do
    let (ds, rest) ← readExponentDigits rest
    return ('e' :: ds, rest)
  | 'E' :: rest => do
    let (ds, rest) ← readExponentDigits rest
    return ('E' :: ds, rest)
  | cs => some ([], cs)

/-- The integer part of a number: a zero, or digits that do not start with one. -/
def readWhole (cs : List Char) : Option (List Char × List Char) :=
  match cs.takeWhile Char.isDigit with
  | [] => none
  | '0' :: _ :: _ => none
  | ds => some (ds, cs.dropWhile Char.isDigit)

/-- A number without its sign. Plain digits are an integer; a negative zero is not one. -/
def readUnsigned (negative : Bool) (cs : List Char) : Option (Json × List Char) := do
  let (whole, rest) ← readWhole cs
  let (fraction, rest) ← readFraction rest
  let (exponent, rest) ← readExponent rest
  let n := ofDigits whole
  if fraction.isEmpty && exponent.isEmpty && !(negative && n == 0) then
    return (.int (if negative then -n else n), rest)
  else
    return (.decimal ((if negative then ['-'] else []) ++ whole ++ fraction ++ exponent), rest)

/-! ## Values -/

mutual

/-- One value, blanks before it skipped. -/
def readValue (needed : Bool) : Nat → List Char → Option (Json × List Char)
  | 0, _ => none
  | fuel + 1, cs =>
    match skipBlanks cs with
    | 'n' :: 'u' :: 'l' :: 'l' :: rest => some (.null, rest)
    | 't' :: 'r' :: 'u' :: 'e' :: rest => some (.bool true, rest)
    | 'f' :: 'a' :: 'l' :: 's' :: 'e' :: rest => some (.bool false, rest)
    | '"' :: rest => (readString needed rest).map fun (s, rest) => (.str s, rest)
    | '-' :: rest => readUnsigned true rest
    | '[' :: rest =>
      match skipBlanks rest with
      | ']' :: rest => some (.arr [], rest)
      | rest => (readItems needed fuel rest).map fun (items, rest) => (.arr items, rest)
    | '\x7b' :: rest =>
      match skipBlanks rest with
      | '\x7d' :: rest => some (.obj [], rest)
      | rest => (readMembers needed (fun _ => false) fuel rest).map fun (ms, rest) => (.obj ms, rest)
    | rest => readUnsigned false rest

/-- The items of an array that is not empty, up to its closing bracket. -/
def readItems (needed : Bool) : Nat → List Char → Option (List Json × List Char)
  | 0, _ => none
  | fuel + 1, cs => do
    let (item, rest) ← readValue needed fuel cs
    match skipBlanks rest with
    | ',' :: rest =>
      let (items, rest) ← readItems needed fuel rest
      return (item :: items, rest)
    | ']' :: rest => return ([item], rest)
    | _ => none

/-- The members of an object that is not empty, up to its closing brace. The strings inside the value
of an ignored member are not needed. -/
def readMembers (needed : Bool) (ignored : String → Bool) :
    Nat → List Char → Option (List (String × Json) × List Char)
  | 0, _ => none
  | fuel + 1, cs =>
    match skipBlanks cs with
    | '"' :: rest => do
      let (key, rest) ← readString needed rest
      match skipBlanks rest with
      | ':' :: rest =>
        let (value, rest) ← readValue (needed && !ignored key) fuel rest
        match skipBlanks rest with
        | ',' :: rest =>
          let (members, rest) ← readMembers needed ignored fuel rest
          return ((key, value) :: members, rest)
        | '\x7d' :: rest => return ([(key, value)], rest)
        | _ => none
      | _ => none
    | _ => none

end

/-- A document whose outermost object, if it is one, has members that nobody looks at. -/
def parseIgnoring (ignored : String → Bool) (text : String) : Option Json := do
  let cs := text.toList
  let fuel := cs.length + 1
  let (value, rest) ←
    match skipBlanks cs with
    | '\x7b' :: rest =>
      match skipBlanks rest with
      | '\x7d' :: rest => some (.obj [], rest)
      | rest => (readMembers true ignored fuel rest).map fun (ms, rest) => (.obj ms, rest)
    | rest => readValue true fuel rest
  if (skipBlanks rest).isEmpty then some value else none

/-- A whole document: one value with nothing but blanks around it. -/
def parse (text : String) : Option Json := parseIgnoring (fun _ => false) text

end LiveTypes.Json
