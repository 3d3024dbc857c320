import LiveTypes.Diagnostic.Render
import LiveTypes.Proofs.Outlines
import LiveTypes.Selector
import Mathlib.Data.List.Infix

/-!
# What a rendering keeps of an explanation

A problem is explained by the lines of its mismatches, a value without a type by what the rules say of it. The
diagnostic has a note for each of these lines, but the report that `build_report` makes of it keeps one note.
So the note is the last line, and nothing of the lines before it is in the report. Whatever is made of the
report, the text is the same with and without them, and no writer of reports can show every explanation whole.
-/
namespace LiveTypes

namespace Diagnostic

/-- What the report keeps of the lines that explain a diagnostic, for a family of diagnostics that differ in
what they are explained by. -/
structure KeepsLast {α : Type} (lines : List α → List String) (explained : List α → Diagnostic)
    (filename : String) : Prop where
  /-- The note is the last line, and all else is as without an explanation. -/
  report : ∀ items, (explained items).report filename =
    { (explained []).report filename with note := (lines items).getLast? }
  /-- Whoever writes the report, what comes before leaves no trace in the text. -/
  text : ∀ (write : SourceReport → String → String) source before items, items ≠ [] →
    (explained (before ++ items)).render write source filename = (explained items).render write source filename
  /-- So no writer shows every explanation whole. -/
  loses : ∀ (write : SourceReport → String → String) source items, items ≠ [] → ∃ item,
    ∃ line ∈ lines (item :: items),
      ¬ line.toList <:+: ((explained (item :: items)).render write source filename).toList

/-- No text contains all others. -/
theorem exists_not_within (text : String) : ∃ words : String, ¬ words.toList <:+: text.toList := by
  refine ⟨text ++ "!", fun h => absurd h.length_le ?_⟩
  simp

/-- A note for each line, where the last lines stay last and a line can say anything. -/
theorem keepsLast_of_notes {α : Type} {lines : List α → List String} {explained : List α → Diagnostic}
    (hnotes : ∀ items, explained items = (lines items).foldl withNote (explained []))
    (hbare : (explained []).notes = [])
    (hlast : ∀ before items, items ≠ [] → (lines (before ++ items)).getLast? = (lines items).getLast?)
    (hany : ∀ (words : String) items, ∃ item, ∃ line ∈ lines (item :: items), words.toList <:+: line.toList)
    (filename : String) : KeepsLast lines explained filename := by
  have hreport (items : List α) : (explained items).report filename =
      { (explained []).report filename with note := (lines items).getLast? } := by
    rw [hnotes, foldl_withNote, report_eq, report_eq, hbare, List.nil_append]
  have htext (write : SourceReport → String → String) source before items (hne : items ≠ []) :
      (explained (before ++ items)).render write source filename =
        (explained items).render write source filename := by
    rw [render, render, hreport, hreport items, hlast before items hne]
  refine ⟨hreport, htext, fun write source items hne => ?_⟩
  obtain ⟨words, hwords⟩ := exists_not_within ((explained items).render write source filename)
  obtain ⟨item, line, hline, hany⟩ := hany words items
  refine ⟨item, line, hline, fun hwithin => hwords (hany.trans ?_)⟩
  rw [← htext write source [item] items hne]
  exact hwithin

end Diagnostic

/-! ## Problems and selection errors -/

theorem Mismatch.allLines_append (depth : Nat) (before ms : List Mismatch) :
    allLines depth (before ++ ms) = allLines depth before ++ allLines depth ms := by
  induction before with
  | nil => rfl
  | cons m before ih => rw [List.cons_append, allLines, allLines, ih, List.append_assoc]

theorem Mismatch.allLines_ne_nil (depth : Nat) {ms : List Mismatch} (h : ms ≠ []) : allLines depth ms ≠ [] := by
  obtain ⟨⟨_, _, _, _, _⟩, rest, rfl⟩ := List.exists_cons_of_ne_nil h
  simp [allLines, lines]

theorem getLast?_append_of_ne_nil (before : List String) {lines : List String} (h : lines ≠ []) :
    (before ++ lines).getLast? = lines.getLast? := by
  simp [List.getLast?_eq_some_getLast h]

/-- The rendering of a problem keeps the last line of its mismatches, and that of a value without a type what the
last rule said. -/
theorem rendering_keeps_last_line {ν : Type} (p : Problem ν) (node : String) (span : Span) (filename : String) :
    Diagnostic.KeepsLast explain (fun mismatches => Problem.diagnostic { p with mismatches } span) filename ∧
    Diagnostic.KeepsLast (·.map InferenceProblem.describe)
      (fun problems => (SelectError.uninferable node problems).diagnostic span) filename := by
  constructor
  · refine Diagnostic.keepsLast_of_notes (fun mismatches => ?_) (Problem.notes_diagnostic _ span)
      (fun before mismatches hne => ?_) (fun words mismatches => ?_) filename
    · rfl
    · rw [explain, Mismatch.allLines_append]
      exact getLast?_append_of_ne_nil _ (Mismatch.allLines_ne_nil 0 hne)
    · refine ⟨(Mismatch.plain .equal default default).withMessage words, words, ?_, List.infix_rfl⟩
      simp [explain, Mismatch.allLines, Mismatch.withMessage, Mismatch.plain, Mismatch.lines]
  · refine Diagnostic.keepsLast_of_notes (fun problems => ?_) (by rfl) (fun before problems hne => ?_)
      (fun words problems => ?_) filename
    · rfl
    · rw [List.map_append]
      exact getLast?_append_of_ne_nil _ (by simpa using hne)
    · refine ⟨⟨"", words⟩, _, List.mem_cons_self, ?_⟩
      have hend : words.toList <:+ [':', ' '] ++ words.toList := List.suffix_append _ _
      simpa [InferenceProblem.describe] using hend.isInfix

/-- A problem with a mismatch that has a part. -/
def misfit : Problem Node where
  node := .var "xs"
  severity := .error
  message := "the argument does not fit"
  mismatches := [⟨.equal, .anonymous "L", .anonymous "M", "the lists differ",
    [⟨.equal, .anonymous "A", .anonymous "B", "the first items differ", []⟩]⟩]

/-- All the words of a report. -/
def SourceReport.texts (r : SourceReport) : List String :=
  r.file :: r.message :: r.code.toList ++ r.marks.map (·.message) ++ r.note.toList ++ r.help.toList

/-- The note of the problem is about the part. -/
theorem misfit_keeps_part :
    ((misfit.diagnostic (.between 2 4)).report "main.weft").note = some "  the first items differ" := by
  have hreport := (rendering_keeps_last_line misfit "" (.between 2 4) "main.weft").1.report misfit.mismatches
  exact congrArg SourceReport.note hreport

/-- What the part belongs to is not said. Likewise only the last of two rules is heard. -/
theorem misfit_loses_outer_line :
    "the lists differ" ∈ explain misfit.mismatches ∧
    (∀ text ∈ ((misfit.diagnostic (.between 2 4)).report "main.weft").texts,
      ¬ "the lists differ".toList <:+: text.toList) ∧
    ((misfit.diagnostic (.between 2 4)).render? "f(xs);" "main.weft").bind (·.note) =
      some "  the first items differ" ∧
    ∀ text ∈ (((SelectError.uninferable "xs" [⟨"literal", "mixed items"⟩, ⟨"name", "not declared"⟩]).diagnostic
      (.between 2 4)).report "main.weft").texts, ¬ "literal: mixed items".toList <:+: text.toList := by
  decide +kernel

end LiveTypes
