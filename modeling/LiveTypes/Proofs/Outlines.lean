import LiveTypes.Problem.Record
import Mathlib.Data.List.Forall2

/-!
# Explanations keep the tree of mismatches

A list of mismatches is explained by lines, each two blanks deeper than the mismatch it is a part of. A
place in the tree is a path: which mismatch of the list, which part of it, and so on. The lines stand for
the places in lexicographic order, which is the order of reading. If no message begins with a blank, the
depth of a line can be read off it, and `Outline.ofLines` builds the tree of messages again.
-/
namespace LiveTypes

namespace Mismatch

/-! ## Places -/

/-- The mismatch at a place of a list of mismatches. -/
def at? : List Mismatch → List Nat → Option Mismatch
  | _, [] => none
  | ms, i :: place =>
    match ms[i]? with
    | none => none
    | some m => if place = [] then some m else at? m.parts place

/-- A message at a depth. -/
def indented (depth : Nat) (message : String) : String :=
  String.ofList (List.replicate (2 * depth) ' ') ++ message

/-- The line for a place, where the mismatches of the list itself are at the given depth. -/
def LineAt (ms : List Mismatch) (depth : Nat) (place : List Nat) (line : String) : Prop :=
  ∃ m, at? ms place = some m ∧ line = indented (depth + place.tail.length) m.message

mutual

/-- The places of a mismatch and its parts in reading order, seen from the mismatch. -/
def places : Mismatch → List (List Nat)
  | ⟨_, _, _, _, parts⟩ => [] :: placesFrom 0 parts

/-- The places of mismatches in reading order, where the first of them has the given number. -/
def placesFrom (first : Nat) : List Mismatch → List (List Nat)
  | [] => []
  | m :: rest => m.places.map (first :: ·) ++ placesFrom (first + 1) rest

end

theorem places_eq (m : Mismatch) : m.places = [] :: placesFrom 0 m.parts := by
  cases m
  rw [places]

theorem nil_notMem_placesFrom {first : Nat} {ms : List Mismatch} : [] ∉ placesFrom first ms := by
  induction ms generalizing first with
  | nil => simp [placesFrom]
  | cons m ms ih => simp [placesFrom, ih]

theorem cons_mem_placesFrom {first i : Nat} {place : List Nat} {ms : List Mismatch} :
    i :: place ∈ placesFrom first ms ↔ first ≤ i ∧ ∃ m, ms[i - first]? = some m ∧ place ∈ m.places := by
  induction ms generalizing first with
  | nil => simp [placesFrom]
  | cons m ms ih =>
    rw [placesFrom, List.mem_append, ih, List.mem_map]
    rcases Nat.lt_trichotomy i first with hlt | rfl | hgt
    · simp only [List.cons.injEq]
      omega
    · simp only [List.cons.injEq, Nat.sub_self, List.getElem?_cons_zero]
      grind
    · obtain ⟨k, rfl⟩ := Nat.exists_eq_add_of_lt hgt
      have hk : first + k + 1 - first = k + 1 := by omega
      have hk' : first + k + 1 - (first + 1) = k := by omega
      simp only [List.cons.injEq, hk, hk', List.getElem?_cons_succ]
      grind

/-- Every place of the tree is counted. -/
theorem mem_placesFrom_zero {ms : List Mismatch} {place : List Nat} :
    place ∈ placesFrom 0 ms ↔ (at? ms place).isSome := by
  induction place generalizing ms with
  | nil => simp [nil_notMem_placesFrom, at?]
  | cons i place ih =>
    rw [cons_mem_placesFrom, at?]
    cases hm : ms[i]? with
    | none => simp
    | some m =>
      by_cases hp : place = []
      · simp [hp, places_eq]
      · simp [hp, places_eq, ih]

mutual

theorem pairwise_places : (m : Mismatch) → m.places.Pairwise (· < ·)
  | ⟨_, _, _, _, parts⟩ => by
    rw [places, List.pairwise_cons]
    refine ⟨fun place hp => ?_, pairwise_placesFrom 0 parts⟩
    cases place with
    | nil => exact absurd hp nil_notMem_placesFrom
    | cons i place => exact List.nil_lt_cons i place

/-- The places stand in lexicographic order. -/
theorem pairwise_placesFrom (first : Nat) : (ms : List Mismatch) → (placesFrom first ms).Pairwise (· < ·)
  | [] => List.Pairwise.nil
  | m :: rest => by
    rw [placesFrom, List.pairwise_append, List.pairwise_map]
    refine ⟨?_, pairwise_placesFrom (first + 1) rest, fun p hp q hq => ?_⟩
    · exact (pairwise_places m).imp fun hlt => List.cons_lt_cons_iff.2 (.inr ⟨rfl, hlt⟩)
    · obtain ⟨p, -, rfl⟩ := List.mem_map.1 hp
      cases q with
      | nil => exact absurd hq nil_notMem_placesFrom
      | cons i q => exact List.cons_lt_cons_iff.2 (.inl (cons_mem_placesFrom.1 hq).1)

end

/-- The line for a place inside a mismatch, seen from the list that the mismatch stands in. -/
theorem LineAt.inside {ms : List Mismatch} {i depth : Nat} {m : Mismatch} {place : List Nat} {line : String}
    (hm : ms[i]? = some m) (h : LineAt m.parts (depth + 1) place line) : LineAt ms depth (i :: place) line := by
  obtain ⟨m', hm', rfl⟩ := h
  cases place with
  | nil => cases hm'
  | cons j place =>
    refine ⟨m', by simp [at?, hm, ← hm'], ?_⟩
    rw [List.tail_cons, List.tail_cons, List.length_cons, Nat.add_assoc, Nat.add_comm 1]

mutual

theorem lines_forall₂ {ms : List Mismatch} {i : Nat} (depth : Nat) : (m : Mismatch) → ms[i]? = some m →
    List.Forall₂ (LineAt ms depth) (m.places.map (i :: ·)) (m.lines depth)
  | ⟨_, _, _, message, parts⟩, hm => by
    rw [places, lines, List.map_cons]
    refine .cons ⟨_, by simp only [at?, hm, if_true]; rfl, rfl⟩ ?_
    rw [List.forall₂_map_left_iff]
    exact (allLines_forall₂ (depth + 1) [] parts).imp fun place line h => h.inside hm

/-- There is one line for each place, in the same order. -/
theorem allLines_forall₂ (depth : Nat) (before : List Mismatch) : (ms : List Mismatch) →
    List.Forall₂ (LineAt (before ++ ms) depth) (placesFrom before.length ms) (allLines depth ms)
  | [] => .nil
  | m :: rest => by
    rw [placesFrom, allLines]
    refine List.rel_append (lines_forall₂ depth m (by simp)) ?_
    have h := allLines_forall₂ depth (before ++ [m]) rest
    rwa [List.append_assoc, List.length_append] at h

end

end Mismatch

/-! ## Building the tree again -/

/-- What a mismatch and its parts say. -/
inductive Outline where
  | item (message : String) (parts : List Outline)

namespace Mismatch

mutual

/-- What a mismatch says, without the types it is about. -/
def outline : Mismatch → Outline
  | ⟨_, _, _, message, parts⟩ => .item message (outlines parts)

def outlines : List Mismatch → List Outline
  | [] => []
  | m :: rest => m.outline :: outlines rest

end

mutual

/-- Whether no message of a mismatch and its parts begins with a blank. -/
def flush : Mismatch → Bool
  | ⟨_, _, _, message, parts⟩ => message.toList.head? ≠ some ' ' && allFlush parts

def allFlush : List Mismatch → Bool
  | [] => true
  | m :: rest => m.flush && allFlush rest

end

end Mismatch

namespace Outline

/-- How far a line is indented. -/
def indentation (line : String) : Nat := (line.toList.takeWhile (· = ' ')).length

/-- A line without its indentation. -/
def unindented (line : String) : String := String.ofList (line.toList.dropWhile (· = ' '))

/-- The tree that lines show by their indentation: what is deeper than a line belongs to it. -/
def ofLines : List String → List Outline
  | [] => []
  | line :: rest =>
    .item (unindented line) (ofLines (rest.takeWhile (indentation line < indentation ·))) ::
      ofLines (rest.dropWhile (indentation line < indentation ·))
termination_by lines => lines.length
decreasing_by
  · exact Nat.lt_succ_of_le (List.takeWhile_prefix _).length_le
  · exact Nat.lt_succ_of_le (List.dropWhile_suffix _).length_le

end Outline

namespace Mismatch

open Outline

theorem indentation_indented (depth : Nat) (message : String) :
    indentation (indented depth message) = 2 * depth + indentation message := by
  simp [indentation, indented, List.takeWhile_append_of_pos]

theorem unindented_indented (depth : Nat) (message : String) :
    unindented (indented depth message) = unindented message := by
  simp [unindented, indented, List.dropWhile_append_of_pos]

theorem flush_text {message : String} (h : message.toList.head? ≠ some ' ') :
    indentation message = 0 ∧ unindented message = message := by
  unfold indentation unindented
  cases hchars : message.toList with
  | nil => exact ⟨rfl, by rw [List.dropWhile_nil, ← hchars, String.ofList_toList]⟩
  | cons c chars =>
    have hc : c ≠ ' ' := by simpa [hchars] using h
    have hdrop : (c :: chars).dropWhile (· = ' ') = message.toList := by simp [hc, hchars]
    exact ⟨by simp [hc], by rw [hdrop, String.ofList_toList]⟩

/-- The lines of mismatches are indented as deep as the mismatches stand. -/
theorem le_indentation {ms : List Mismatch} {depth : Nat} {line : String} (h : line ∈ allLines depth ms) :
    2 * depth ≤ indentation line := by
  have hlines := allLines_forall₂ depth [] ms
  obtain ⟨i, hi, rfl⟩ := List.mem_iff_getElem.1 h
  obtain ⟨m, -, hline⟩ := hlines.get (hlines.length_eq ▸ hi) hi
  rw [List.get_eq_getElem] at hline
  rw [hline, indentation_indented]
  omega

/-- The first line of mismatches that are flush is not indented deeper. -/
theorem indentation_head {ms : List Mismatch} {depth : Nat} {line : String} (hms : allFlush ms)
    (h : (allLines depth ms).head? = some line) : indentation line = 2 * depth := by
  match ms with
  | [] => cases h
  | ⟨_, _, _, message, parts⟩ :: rest =>
    rw [allLines, lines, ← indented, List.cons_append, List.head?_cons, Option.some.injEq] at h
    rw [allFlush, flush, Bool.and_eq_true, Bool.and_eq_true, decide_eq_true_eq] at hms
    rw [← h, indentation_indented, (flush_text hms.1.1).1, Nat.add_zero]

mutual

theorem ofLines_lines_append (depth : Nat) : (m : Mismatch) → m.flush → (after : List String) →
    (∀ line, after.head? = some line → indentation line = 2 * depth) →
    ofLines (m.lines depth ++ after) = m.outline :: ofLines after
  | ⟨_, _, _, message, parts⟩, hm, after, hafter => by
    rw [flush, Bool.and_eq_true, decide_eq_true_eq] at hm
    obtain ⟨hzero, hself⟩ := flush_text hm.1
    have hdepth : indentation (indented depth message) = 2 * depth := by
      rw [indentation_indented, hzero, Nat.add_zero]
    -- the lines of the parts are exactly those that follow and are deeper
    have hdeeper : ∀ line ∈ allLines (depth + 1) parts, decide (2 * depth < indentation line) = true :=
      fun line hline => decide_eq_true (by have := le_indentation hline; omega)
    have htake : (allLines (depth + 1) parts ++ after).takeWhile (2 * depth < indentation ·) =
        allLines (depth + 1) parts := by
      rw [List.takeWhile_append_of_pos hdeeper]
      cases after <;> simp_all
    have hdrop : (allLines (depth + 1) parts ++ after).dropWhile (2 * depth < indentation ·) = after := by
      rw [List.dropWhile_append_of_pos hdeeper]
      cases after <;> simp_all
    rw [lines, List.cons_append, ← indented, ofLines, hdepth, htake, hdrop, unindented_indented, hself,
      ofLines_allLines (depth + 1) parts hm.2, outline]

/-- The lines of mismatches show their tree. -/
theorem ofLines_allLines (depth : Nat) : (ms : List Mismatch) → allFlush ms →
    ofLines (allLines depth ms) = outlines ms
  | [], _ => by rw [allLines, outlines, ofLines]
  | m :: rest, h => by
    rw [allFlush, Bool.and_eq_true] at h
    rw [allLines, outlines, ofLines_lines_append depth m h.1 _ fun _ => indentation_head h.2,
      ofLines_allLines depth rest h.2]

end

end Mismatch

/-! ## Notes and records -/

theorem Diagnostic.foldl_withNote (d : Diagnostic) (notes : List String) :
    notes.foldl Diagnostic.withNote d = { d with notes := d.notes ++ notes } := by
  induction notes generalizing d with
  | nil => simp
  | cons note notes ih => simp [ih, Diagnostic.withNote]

theorem Problem.notes_diagnostic {ν : Type} (p : Problem ν) (span : Span) :
    (p.diagnostic span).notes = explain p.mismatches := by
  rw [Problem.diagnostic, Diagnostic.foldl_withNote]
  cases p.code <;> simp [Diagnostic.withCode]

/-- The notes of a diagnostic and the texts in a record are one list: a line for each place of the tree of
mismatches, in reading order, two blanks deeper per level. If no message begins with a blank, the tree of
messages can be built from the lines, and so two problems with the same lines have the same tree. -/
theorem Problem.lines_keep_tree {ν : Type} (p : Problem ν) (span : Span) (printer : Printer ν) :
    (p.diagnostic span).notes = (p.record printer).subProblems ∧
    (∃ places : List (List Nat), places.Pairwise (· < ·) ∧
      (∀ place, place ∈ places ↔ (Mismatch.at? p.mismatches place).isSome) ∧
      List.Forall₂ (fun place line => ∃ m, Mismatch.at? p.mismatches place = some m ∧
        line = Mismatch.indented place.tail.length m.message) places (p.record printer).subProblems) ∧
    (Mismatch.allFlush p.mismatches →
      Outline.ofLines (p.record printer).subProblems = Mismatch.outlines p.mismatches ∧
      ∀ q : Problem ν, Mismatch.allFlush q.mismatches →
        (q.record printer).subProblems = (p.record printer).subProblems →
        Mismatch.outlines q.mismatches = Mismatch.outlines p.mismatches) := by
  have hrebuilt (q : Problem ν) (hq : Mismatch.allFlush q.mismatches) :
      Outline.ofLines (q.record printer).subProblems = Mismatch.outlines q.mismatches :=
    Mismatch.ofLines_allLines 0 q.mismatches hq
  refine ⟨p.notes_diagnostic span, ⟨Mismatch.placesFrom 0 p.mismatches, Mismatch.pairwise_placesFrom 0 _,
    fun _ => Mismatch.mem_placesFrom_zero, ?_⟩, fun hp => ⟨hrebuilt p hp, fun q hq heq => ?_⟩⟩
  · refine (Mismatch.allLines_forall₂ 0 [] p.mismatches).imp fun place line ⟨m, hm, hline⟩ => ?_
    exact ⟨m, hm, by rw [hline, Nat.zero_add]⟩
  · rw [← hrebuilt q hq, heq, hrebuilt p hp]

/-- A mismatch with parts at two levels, and a second mismatch after it. -/
theorem Problem.lines_keep_tree_nested :
    Outline.ofLines ["args", "  first", "    item", "  second", "result"] =
      [.item "args" [.item "first" [.item "item" []], .item "second" []], .item "result" []] := by
  let mismatch (message : String) (parts : List Mismatch) : Mismatch :=
    ⟨.equal, .anonymous "a", .anonymous "b", message, parts⟩
  let problem : Problem Node :=
    { node := .int 0, severity := .error, message := ""
      mismatches := [mismatch "args" [mismatch "first" [mismatch "item" []], mismatch "second" []],
        mismatch "result" []] }
  exact ((problem.lines_keep_tree .nowhere .plain).2.2 (by decide)).1

/-- Blanks at the beginning of a message hide the depth: a second mismatch reads like a part. -/
example : explain [⟨.equal, default, default, "a", []⟩, ⟨.equal, default, default, "  b", []⟩] =
    explain [⟨.equal, default, default, "a", [⟨.equal, default, default, "b", []⟩]⟩] := by
  rfl

end LiveTypes
