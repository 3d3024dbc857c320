import LiveTypes.Json.Writer
import LiveTypes.Text.Unprintable

/-!
# Quoted text

How a text is shown inside a description of a value: between double quotes, with a backslash before
a quote or a backslash, the short escapes for tab, line ends and NUL, and `\u` with the code point in
braces for every other character that does not print as itself.
-/
namespace LiveTypes.Text

/-- One character of a quoted text. -/
def quoteChar (c : Char) : List Char :=
  if c = '"' then ['\\', '"']
  else if c = '\\' then ['\\', '\\']
  else if c = '\t' then ['\\', 't']
  else if c = '\r' then ['\\', 'r']
  else if c = '\n' then ['\\', 'n']
  else if c = '\x00' then ['\\', '0']
  else if isUnprintable c then ['\\', 'u', '\x7b'] ++ Json.digits 16 c.toNat ++ ['\x7d']
  else [c]

/-- A text between quotes. -/
def quoted (text : String) : String :=
  String.ofList ('"' :: (text.toList.flatMap quoteChar ++ ['"']))

/-- A list of descriptions between brackets. -/
def bracketed (items : List String) : String := "[" ++ ", ".intercalate items ++ "]"

/-- A description of an optional value. -/
def optional (value : Option String) : String :=
  match value with
  | none => "None"
  | some s => "Some(" ++ s ++ ")"

end LiveTypes.Text
