import LiveTypes.Diagnostic.Basic
import LiveTypes.Text.Lines

/-!
# Rendered diagnostics: `build_report`, `render`

`render` makes a report of a diagnostic (`build_report`) and has it written out beside the source. The
writer of reports is not part of this library: it may be any function of the report and the source. A
report keeps one note, and to set a note replaces the one before.

`Diagnostic.render?` is what can be read in the text of the writer in use, besides the drawing of the
source: the headline, the place, the help and the note, each the first line of its text. The writer
takes spans for character offsets. It draws the labels that it can place in the source, with the place
of the report above and help and note below, so without such a label these are missing. The place stands
in brackets, so brackets that close its line are not part of it. Where a label is drawn over several
lines, help and note are part of the drawing, and this reading does not find them.
-/
namespace LiveTypes

/-! ## Reports -/

/-- How a report is headed. -/
inductive ReportKind where
  | error
  | warning
  | advice
  | hint
deriving DecidableEq

/-- The kind of report for a severity: `report_kind`. -/
def Severity.reportKind : Severity → ReportKind
  | .error => .error
  | .warning => .warning
  | .info => .advice
  | .hint => .hint

/-- A range of offsets with a word on it. -/
structure Mark where
  start : Nat
  stop : Nat
  message : String
deriving DecidableEq

/-- A report about a place in a source, as it is given to the writer. -/
structure SourceReport where
  kind : ReportKind
  file : String
  offset : Nat
  message : String
  code : Option String := none
  marks : List Mark := []
  note : Option String := none
  help : Option String := none
deriving DecidableEq

namespace SourceReport

def withCode (r : SourceReport) (code : String) : SourceReport := { r with code := some code }

def withMark (r : SourceReport) (mark : Mark) : SourceReport := { r with marks := r.marks ++ [mark] }

/-- Set the note, in place of the one before. -/
def withNote (r : SourceReport) (note : String) : SourceReport := { r with note := some note }

def withHelp (r : SourceReport) (help : String) : SourceReport := { r with help := some help }

/-- Of several notes, the last one is kept. -/
theorem foldl_withNote (r : SourceReport) (notes : List String) :
    notes.foldl withNote r = { r with note := notes.getLast?.or r.note } := by
  induction notes generalizing r with
  | nil => rfl
  | cons note notes ih => cases h : notes.getLast? <;> simp [ih, withNote, List.getLast?_cons, h]

end SourceReport

/-- The mark for a label. -/
def Label.mark (l : Label) : Mark := ⟨l.span.range.1, l.span.range.2, l.message⟩

theorem SourceReport.foldl_withMark (r : SourceReport) (labels : List Label) :
    labels.foldl (fun r label => r.withMark label.mark) r =
      { r with marks := r.marks ++ labels.map Label.mark } := by
  induction labels generalizing r with
  | nil => simp
  | cons label labels ih =>
    rw [List.foldl_cons, ih]
    simp [withMark]

namespace Diagnostic

/-- The report of a diagnostic: `build_report`. -/
def report (filename : String) (d : Diagnostic) : SourceReport :=
  let r : SourceReport :=
    { kind := d.severity.reportKind, file := filename, offset := d.span.offset, message := d.message }
  let r := match d.code with
    | some code => r.withCode code.short
    | none => r
  let r := d.labels.foldl (fun r label => r.withMark label.mark) r
  let r := d.notes.foldl SourceReport.withNote r
  match d.help with
  | some help => r.withHelp help
  | none => r

/-- All that a report says, and which note. -/
theorem report_eq (filename : String) (d : Diagnostic) : d.report filename =
    { kind := d.severity.reportKind, file := filename, offset := d.span.offset, message := d.message
      code := d.code.map Code.short, marks := d.labels.map Label.mark, note := d.notes.getLast?
      help := d.help } := by
  simp only [report, SourceReport.foldl_withMark, SourceReport.foldl_withNote]
  cases d.code <;> cases d.help <;> simp [SourceReport.withCode, SourceReport.withHelp]

/-- The text of a diagnostic, by a writer of reports: `render`. -/
def render (write : SourceReport → String → String) (source filename : String) (d : Diagnostic) : String :=
  write (d.report filename) source

end Diagnostic

/-! ## What can be read of a report -/

/-- The parts of a rendered diagnostic. -/
structure Rendered where
  header : String
  place : Option String
  help : Option String
  note : Option String
deriving DecidableEq

namespace Mark

/-- A label that ends before it starts cannot be drawn. -/
def isBackwards (m : Mark) : Bool := m.start > m.stop

/-- Whether a label lies within a source of `length` characters. -/
def isPlaced (length : Nat) (m : Mark) : Bool :=
  0 < length && m.start ≤ length && (m.stop ≤ m.start || m.stop - 1 ≤ length)

/-- Whether the first and the last character of a label are on different lines of a source. -/
def spansLines (source : String) (m : Mark) : Bool :=
  let lineAt (offset : Nat) := (Text.locate source offset).map (·.1)
  lineAt m.start ≠ lineAt (max m.start (m.stop - 1))

end Mark

namespace SourceReport

/-- The word that opens a report, with its mark: a hint keeps its colour. -/
def headline (r : SourceReport) : String :=
  let code := match r.code with
    | none => ""
    | some code => "[" ++ code ++ "] "
  match r.kind with
  | .error => code ++ "Error:"
  | .warning => code ++ "Warning:"
  | .advice => code ++ "Advice:"
  | .hint => "\x1b[36m" ++ code ++ "Hint:\x1b[0m"

/-- The place that a report is about: file, line and column. -/
def place (source : String) (r : SourceReport) : String :=
  match Text.locate source r.offset with
  | some (line, column) => r.file ++ ":" ++ toString line ++ ":" ++ toString column
  | none => r.file ++ ":?:?"

/-- What can be read where a report is written out; there is no text if a label ends before it starts. -/
def read? (source : String) (r : SourceReport) : Option Rendered :=
  if r.marks.any Mark.isBackwards then none
  else
    let placed := r.marks.filter (Mark.isPlaced source.length)
    let drawn := !placed.isEmpty
    let place := Text.unbracketed (Text.firstLine (r.place source))
    let explained := drawn && !placed.any (Mark.spansLines source)
    some {
      header := Text.firstLine (r.headline ++ " " ++ r.message)
      place := if drawn then some place else none
      help := if explained then r.help.map Text.firstLine else none
      note := if explained then r.note.map Text.firstLine else none
    }

end SourceReport

/-- What can be read in the text of a diagnostic; there is none if a label ends before it starts. -/
def Diagnostic.render? (source filename : String) (d : Diagnostic) : Option Rendered :=
  (d.report filename).read? source

end LiveTypes
