import LiveTypes.Diagnostic.Code
import LiveTypes.Diagnostic.Severity
import LiveTypes.Span

/-!
# Diagnostics: `with_code`, `with_label`, `with_note`, `with_help`

A message about a place in the host's source, with labels, notes and a help text. A code brings its
suggestion as help, unless a help text is there already.
-/
namespace LiveTypes

/-- Which part of the engine a diagnostic comes from. -/
inductive DiagnosticKind where
  | validation
  | selection
  | graph
deriving DecidableEq

namespace DiagnosticKind

def describe : DiagnosticKind → String
  | .validation => "Validation"
  | .selection => "Selection"
  | .graph => "Graph"

/-- The kind with a given name. -/
def named? (name : String) : Option DiagnosticKind :=
  [DiagnosticKind.validation, .selection, .graph].find? (·.describe = name)

end DiagnosticKind

/-- A span with a word on it. -/
structure Label where
  span : Span
  message : String
deriving DecidableEq

/-- A diagnostic about one span. -/
structure Diagnostic where
  severity : Severity
  kind : DiagnosticKind
  code : Option Code := none
  message : String
  span : Span
  labels : List Label := []
  notes : List String := []
  help : Option String := none
deriving DecidableEq

namespace Diagnostic

/-- Attach a code; its suggestion becomes the help text unless there is one: `with_code`. -/
def withCode (d : Diagnostic) (code : Code) : Diagnostic :=
  { d with code := some code, help := d.help.or code.suggestion? }

def withLabel (d : Diagnostic) (label : Label) : Diagnostic :=
  { d with labels := d.labels ++ [label] }

def withNote (d : Diagnostic) (note : String) : Diagnostic :=
  { d with notes := d.notes ++ [note] }

def withHelp (d : Diagnostic) (help : String) : Diagnostic :=
  { d with help := some help }

end Diagnostic
end LiveTypes
