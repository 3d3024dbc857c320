/-!
# Lines and positions

A line ends after a line feed, a carriage return, the two together, a vertical tab, a form feed, or
one of U+0085, U+2028 and U+2029. The line end belongs to the line that it ends, and a text that ends
with one has no further empty line.
-/
namespace LiveTypes.Text

/-- Whether a character ends a line. -/
def isLineEnd (c : Char) : Bool :=
  c = '\n' || c = '\r' || c = '\x0b' || c = '\x0c' || c = '\u0085' || c = '\u2028' || c = '\u2029'

/-- The lines of a text, each with its line end. -/
def splitLines : List Char → List (List Char)
  | [] => []
  | '\r' :: '\n' :: rest => ['\r', '\n'] :: splitLines rest
  | c :: rest =>
    if isLineEnd c then [c] :: splitLines rest
    else
      match splitLines rest with
      | [] => [[c]]
      | line :: more => (c :: line) :: more

/-- The line and the column, both counted from one, of an offset into given lines whose first has the
number `number`. The offset just after the last character is on the last line. -/
def locateIn (number : Nat) : List (List Char) → Nat → Option (Nat × Nat)
  | [], _ => none
  | [line], offset => if offset ≤ line.length then some (number, offset + 1) else none
  | line :: more, offset =>
    if offset < line.length then some (number, offset + 1)
    else locateIn (number + 1) more (offset - line.length)

/-- The line and the column of an offset, counted in characters. -/
def locate (text : String) (offset : Nat) : Option (Nat × Nat) :=
  locateIn 1 (splitLines text.toList) offset

/-- A text up to its first line feed, without a carriage return before it. -/
def firstLine (text : String) : String :=
  let line := text.toList.takeWhile (· ≠ '\n')
  String.ofList (if line.getLast? = some '\r' then line.dropLast else line)

/-- A text without the closing brackets at its end. -/
def unbracketed (text : String) : String :=
  String.ofList (text.toList.reverse.dropWhile (· = ']')).reverse

end LiveTypes.Text
