import LiveTypes.Json.Basic

/-!
# Severities

How grave a diagnostic is. As JSON a severity is its lower-case word; an object whose one member has
that word as key and `null` as value is read as well.
-/
namespace LiveTypes

/-- The severity of a diagnostic. -/
inductive Severity where
  | error
  | warning
  | info
  | hint
deriving DecidableEq

namespace Severity

/-- The numeric level that language servers use: `to_level`. -/
def level : Severity → Nat
  | .error => 1
  | .warning => 2
  | .info => 3
  | .hint => 4

/-- The lower-case word of a severity. -/
def word : Severity → String
  | .error => "error"
  | .warning => "warning"
  | .info => "info"
  | .hint => "hint"

/-- The capitalised name of a severity. -/
def describe : Severity → String
  | .error => "Error"
  | .warning => "Warning"
  | .info => "Info"
  | .hint => "Hint"

/-- The severity that a word names. -/
def ofWord? (word : String) : Option Severity :=
  [Severity.error, .warning, .info, .hint].find? (·.word = word)

def toJson (s : Severity) : Json := .str s.word

def ofJson? : Json → Option Severity
  | .str word => ofWord? word
  | .obj [(word, .null)] => ofWord? word
  | _ => none

end Severity
end LiveTypes
