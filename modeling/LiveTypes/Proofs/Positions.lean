import LiveTypes.Diagnostic.Render
import Mathlib.Data.List.TakeWhile
import Mathlib.Data.String.Basic

/-!
# Printed places

A span is a range of bytes, but a report reads its start as a number of characters. So the printed place
is that of the character at the span's start if every character before it takes one byte, and that of a
later character, or none, if not.

The line and the column of a character are said here by the line ends before it (`position`), without
splitting the text; `locate_eq_position` says that the search through the lines of the text finds them.
-/
namespace LiveTypes

namespace Text

/-! ## Lines and columns by line ends -/

/-- Whether a line of a text ends just before an offset. A carriage return with a line feed after it does
not end its line, the line feed does. -/
def endsBefore (text : List Char) : Nat → Bool
  | 0 => false
  | i + 1 => text[i]?.any isLineEnd && !(text[i]? = some '\r' && text[i + 1]? = some '\n')

/-- The offsets, up to the given one, that a line ends just before. -/
def endsUpTo (text : List Char) (offset : Nat) : List Nat :=
  (List.range (offset + 1)).filter (endsBefore text)

/-- The line and the column, both counted from one, of the character at an offset: one more than the lines
that end before it, and one more than the characters between the last line end and it. -/
def position (text : List Char) (offset : Nat) : Nat × Nat :=
  ((endsUpTo text offset).length + 1, offset - (endsUpTo text offset).getLastD 0 + 1)

@[simp]
theorem endsUpTo_zero (text : List Char) : endsUpTo text 0 = [] := by
  simp [endsUpTo, endsBefore]

theorem endsUpTo_succ (text : List Char) (k : Nat) :
    endsUpTo text (k + 1) = endsUpTo text k ++ if endsBefore text (k + 1) then [k + 1] else [] := by
  simp [endsUpTo, List.range_succ (n := k + 1), List.filter_cons]

/-- The line ends of a text with one more character in front are those of the text, one further on, and
perhaps one behind that character. -/
theorem endsUpTo_cons_succ (c : Char) (text : List Char) (k : Nat) :
    endsUpTo (c :: text) (k + 1) =
      (if endsBefore (c :: text) 1 then [1] else []) ++ (endsUpTo text k).map (· + 1) := by
  induction k with
  | zero => simp [endsUpTo_succ]
  | succ k ih =>
    have hlater : endsBefore (c :: text) (k + 1 + 1) = endsBefore text (k + 1) := by
      simp [endsBefore]
    rw [endsUpTo_succ, ih, endsUpTo_succ text k, hlater]
    by_cases hend : endsBefore text (k + 1) <;> simp [hend]

@[simp]
theorem position_zero (text : List Char) : position text 0 = (1, 1) := by
  simp [position]

/-- Behind a line end, a character is one line further down than in the text that begins there. -/
theorem position_cons_of_ends {c : Char} {text : List Char} (h : endsBefore (c :: text) 1) (k : Nat) :
    position (c :: text) (k + 1) = ((position text k).1 + 1, (position text k).2) := by
  rw [position, position, endsUpTo_cons_succ, if_pos h]
  rcases List.eq_nil_or_concat (endsUpTo text k) with hends | ⟨ends, last, hends⟩
  · simp [hends]
  · simp [hends, List.getLastD_eq_getLast?, List.getLast?_cons]

/-- The place of a character after one more was put in front of the line with the number `first`. -/
def pushedBy (first : Nat) (place : Nat × Nat) : Nat × Nat :=
  if place.1 = first then (first, place.2 + 1) else place

/-- A character in front that ends no line moves the first line by a column. -/
theorem position_cons_of_not_ends {c : Char} {text : List Char} (h : ¬ endsBefore (c :: text) 1) (k : Nat) :
    position (c :: text) (k + 1) = pushedBy 1 (position text k) := by
  rw [position, position, endsUpTo_cons_succ, if_neg h, List.nil_append]
  rcases List.eq_nil_or_concat (endsUpTo text k) with hends | ⟨ends, last, hends⟩
  · simp [hends, pushedBy]
  · simp [hends, pushedBy, List.getLastD_eq_getLast?]

/-! ## The search through the lines -/

theorem splitLines_of_ends {c : Char} {text : List Char} (h : endsBefore (c :: text) 1) :
    splitLines (c :: text) = [c] :: splitLines text := by
  simp only [endsBefore, Bool.and_eq_true, Bool.not_eq_true', List.getElem?_cons_zero] at h
  rw [splitLines, if_pos (by simpa using h.1)]
  rintro rest rfl rfl
  simp at h

theorem splitLines_of_not_ends {c : Char} {text line : List Char} {more : List (List Char)}
    (h : ¬ endsBefore (c :: text) 1) (htext : splitLines text = line :: more) :
    splitLines (c :: text) = (c :: line) :: more := by
  by_cases hcrlf : c = '\r' ∧ text.head? = some '\n'
  -- the line feed alone is the first line of `text`, and the two together are one of the whole
  · obtain ⟨rfl, hhead⟩ := hcrlf
    obtain ⟨rest, rfl⟩ := List.head?_eq_some_iff.1 hhead
    have hfeed : splitLines ('\n' :: rest) = ['\n'] :: splitLines rest :=
      splitLines_of_ends (by simp [endsBefore, isLineEnd])
    rw [hfeed, List.cons.injEq] at htext
    rw [splitLines, ← htext.1, htext.2]
  · have hc : ¬ isLineEnd c := by
      intro hc
      apply h
      simp_all [endsBefore, List.head?_eq_getElem?]
    rw [splitLines, if_neg hc, htext]
    rintro rest rfl rfl
    simp at hcrlf

theorem splitLines_ne_nil {text : List Char} (h : text ≠ []) : splitLines text ≠ [] := by
  fun_cases splitLines text <;> simp_all

theorem ne_nil_of_mem_splitLines {text line : List Char} (h : line ∈ splitLines text) : line ≠ [] := by
  fun_induction splitLines text <;> simp_all <;> grind

/-- A place that the search finds is not before the first line. -/
theorem le_of_locateIn {first offset : Nat} {lines : List (List Char)} {place : Nat × Nat}
    (h : locateIn first lines offset = some place) : first ≤ place.1 := by
  fun_induction locateIn first lines offset with
  | case1 => cases h
  | case2 first line offset hle => cases h; exact Nat.le_refl _
  | case3 => cases h
  | case4 first line more offset hmore hlt => cases h; exact Nat.le_refl _
  | case5 first line more offset hmore hge ih => exact Nat.le_of_succ_le (ih h)

theorem locateIn_zero {first : Nat} {line : List Char} {more : List (List Char)} (h : line ≠ []) :
    locateIn first (line :: more) 0 = some (first, 1) := by
  have hline : 0 < line.length := List.length_pos_iff.2 h
  cases more <;> simp [locateIn, hline]

theorem locateIn_next_line {more : List (List Char)} (h : more ≠ []) (first offset : Nat) (line : List Char) :
    locateIn first (line :: more) (line.length + offset) = locateIn (first + 1) more offset := by
  rw [locateIn, if_neg (by omega), Nat.add_sub_cancel_left]
  exact fun heq => h (by simpa using heq)

theorem locateIn_cons_succ (first offset : Nat) (c : Char) (line : List Char) (more : List (List Char)) :
    locateIn first ((c :: line) :: more) (offset + 1) =
      (locateIn first (line :: more) offset).map (pushedBy first) := by
  cases more with
  | nil =>
    simp only [locateIn, List.length_cons, Nat.add_le_add_iff_right]
    split <;> simp [pushedBy]
  | cons next more =>
    simp only [locateIn, List.length_cons, Nat.add_lt_add_iff_right, Nat.add_sub_add_right]
    split
    · simp [pushedBy]
    · cases hplace : locateIn (first + 1) (next :: more) (offset - line.length) with
      | none => rfl
      | some place =>
        have := le_of_locateIn hplace
        rw [Option.map_some, pushedBy, if_neg (by omega)]

/-- The search through the lines of a text finds the line and the column of a character. -/
theorem locateIn_splitLines {text : List Char} {offset : Nat} (h : offset < text.length) (n : Nat) :
    locateIn (n + 1) (splitLines text) offset =
      some (n + (position text offset).1, (position text offset).2) := by
  -- Both sides are followed as one more character is put in front, which ends a line or pushes the first one.
  induction text generalizing offset n with
  | nil => simp at h
  | cons c text ih =>
    cases offset with
    | zero =>
      obtain ⟨line, more, hlines⟩ := List.exists_cons_of_ne_nil (splitLines_ne_nil (List.cons_ne_nil c text))
      rw [hlines, locateIn_zero (ne_nil_of_mem_splitLines (hlines ▸ List.mem_cons_self)), position_zero]
    | succ k =>
      have hk : k < text.length := by simpa using h
      have hlines : splitLines text ≠ [] := splitLines_ne_nil (List.ne_nil_of_length_pos (by omega))
      by_cases hc : endsBefore (c :: text) 1
      · have hnext := locateIn_next_line hlines (n + 1) k [c]
        rw [List.length_singleton, Nat.add_comm 1 k] at hnext
        rw [splitLines_of_ends hc, hnext, ih hk, position_cons_of_ends hc, Nat.add_right_comm n 1,
          Nat.add_assoc n]
      · obtain ⟨line, more, hlines⟩ := List.exists_cons_of_ne_nil hlines
        rw [splitLines_of_not_ends hc hlines, locateIn_cons_succ, ← hlines, ih hk,
          position_cons_of_not_ends hc]
        simp only [Option.map_some, pushedBy]
        split <;> simp_all

theorem locate_eq_position {text : String} {offset : Nat} (h : offset < text.length) :
    locate text offset = some (position text.toList offset) := by
  rw [locate, locateIn_splitLines (by rwa [String.length_toList]) 0, Nat.zero_add]

/-- An offset is found in the first of several lines or further down. -/
theorem locateIn_cases {first offset : Nat} {line next : List Char} {more : List (List Char)} {place : Nat × Nat}
    (h : locateIn first (line :: next :: more) offset = some place) :
    (offset < line.length ∧ place = (first, offset + 1)) ∨
    (line.length ≤ offset ∧ first < place.1 ∧
      locateIn (first + 1) (next :: more) (offset - line.length) = some place) := by
  by_cases hlt : offset < line.length
  · simp only [locateIn, if_pos hlt, Option.some.injEq] at h
    exact .inl ⟨hlt, h.symm⟩
  · simp only [locateIn, if_neg hlt] at h
    exact .inr ⟨by omega, le_of_locateIn h, h⟩

/-- Different offsets have different places. -/
theorem locateIn_inj {first a b : Nat} {lines : List (List Char)} {place : Nat × Nat}
    (ha : locateIn first lines a = some place) (hb : locateIn first lines b = some place) : a = b := by
  induction lines generalizing first a b with
  | nil => cases ha
  | cons line more ih =>
    cases more with
    | nil =>
      simp only [locateIn, Option.ite_none_right_eq_some, Option.some.injEq] at ha hb
      simpa using ha.2.trans hb.2.symm
    | cons next more =>
      obtain ⟨-, hpa⟩ | ⟨hla, hfa, ha⟩ := locateIn_cases ha <;>
        obtain ⟨-, hpb⟩ | ⟨hlb, hfb, hb⟩ := locateIn_cases hb
      · simpa using hpa.symm.trans hpb
      · simp [hpa] at hfb
      · simp [hpb] at hfa
      · have := ih ha hb
        omega

/-! ## Bytes and characters -/

theorem length_le_utf8Len (chars : List Char) : chars.length ≤ String.utf8Len chars := by
  induction chars with
  | nil => simp
  | cons c chars ih =>
    have := c.utf8Size_pos
    simp only [String.utf8Len_cons, List.length_cons]
    omega

/-- A text has as many bytes as characters if each of them takes one byte. -/
theorem utf8Len_eq_length {chars : List Char} :
    String.utf8Len chars = chars.length ↔ ∀ c ∈ chars, c.toNat < 128 := by
  induction chars with
  | nil => simp
  | cons c chars ih =>
    have hc : c.utf8Size = 1 ↔ c.toNat < 128 := by
      rw [Char.utf8Size_eq_one_iff, UInt32.le_iff_toNat_le, ← Char.toNat_val]
      exact Nat.lt_succ_iff.symm
    have hpos := c.utf8Size_pos
    have hle := length_le_utf8Len chars
    rw [List.forall_mem_cons, ← ih, ← hc, String.utf8Len_cons, List.length_cons]
    omega

theorem utf8ByteSize_eq_length {text : String} :
    text.utf8ByteSize = text.length ↔ ∀ c ∈ text.toList, c.toNat < 128 := by
  rw [← utf8Len_eq_length, ← String.utf8ByteSize_ofList, String.ofList_toList, String.length_toList]

/-! ## The text of a place -/

/-- A place in a file as it is printed. -/
def placeIn (filename : String) (place : Nat × Nat) : String :=
  filename ++ ":" ++ toString place.1 ++ ":" ++ toString place.2

theorem toList_placeIn (filename : String) (place : Nat × Nat) :
    (placeIn filename place).toList =
      filename.toList ++ ':' :: (Nat.toDigits 10 place.1 ++ ':' :: Nat.toDigits 10 place.2) := by
  simp [placeIn]

theorem isDigit_of_mem_digits {n : Nat} {c : Char} (h : c ∈ Nat.toDigits 10 n) : c.isDigit :=
  Nat.isDigit_of_mem_toDigits (by decide) (by decide) h

theorem digits_inj {m n : Nat} (h : Nat.toDigits 10 m = Nat.toDigits 10 n) : m = n := by
  rw [← Nat.ofDigitChars_ten_toDigits (n := m), h, Nat.ofDigitChars_ten_toDigits]

/-- Digits end at the colon after them. -/
theorem takeWhile_digits_colon (n : Nat) (rest : List Char) :
    (Nat.toDigits 10 n ++ ':' :: rest).takeWhile Char.isDigit = Nat.toDigits 10 n := by
  rw [List.takeWhile_append_of_pos fun _ => isDigit_of_mem_digits, List.takeWhile_cons_of_neg (by decide),
    List.append_nil]

theorem placeIn_inj {filename : String} {p q : Nat × Nat} (h : placeIn filename p = placeIn filename q) :
    p = q := by
  have hchars := congrArg String.toList h
  simp only [toList_placeIn, List.append_cancel_left_eq, List.cons.injEq, true_and] at hchars
  have hline : Nat.toDigits 10 p.1 = Nat.toDigits 10 q.1 := by
    have htake := congrArg (List.takeWhile Char.isDigit) hchars
    rwa [takeWhile_digits_colon, takeWhile_digits_colon] at htake
  rw [hline, List.append_cancel_left_eq, List.cons.injEq] at hchars
  exact Prod.ext (digits_inj hline) (digits_inj hchars.2)

/-- A place that is not known reads like no line and column. -/
theorem unknown_ne_placeIn (filename : String) (p : Nat × Nat) : filename ++ ":?:?" ≠ placeIn filename p := by
  intro h
  have hchars := congrArg String.toList h
  simp only [toList_placeIn, String.toList_append, List.append_cancel_left_eq, String.reduceToList,
    List.cons.injEq, true_and] at hchars
  have htake := congrArg (List.takeWhile Char.isDigit) hchars
  rw [takeWhile_digits_colon] at htake
  exact Nat.toDigits_ne_nil htake.symm

/-- A text without a line feed that ends neither with a carriage return nor with a closing bracket is read as
it is. -/
theorem unbracketed_firstLine {text : String} {rest : List Char} {last : Char} (hfeed : '\n' ∉ text.toList)
    (htext : text.toList = rest ++ [last]) (hreturn : last ≠ '\r') (hbracket : last ≠ ']') :
    unbracketed (firstLine text) = text := by
  have hall : text.toList.takeWhile (· ≠ '\n') = text.toList := by
    rw [List.takeWhile_eq_self_iff]
    intro c hc
    exact decide_eq_true fun heq => hfeed (heq ▸ hc)
  have hlast : text.toList.getLast? ≠ some '\r' := by
    simpa [htext] using hreturn
  have hfirst : firstLine text = text := by
    simp only [firstLine, hall, if_neg hlast, String.ofList_toList]
  rw [hfirst, unbracketed, htext, List.reverse_concat, List.dropWhile_cons_of_neg (by simpa using hbracket),
    ← List.reverse_concat, List.reverse_reverse, ← htext, String.ofList_toList]

end Text

namespace SourceReport

open Text

theorem place_eq_placeIn_iff (r : SourceReport) {source : String} {p : Nat × Nat} :
    r.place source = placeIn r.file p ↔ locate source r.offset = some p := by
  rw [place]
  cases hplace : locate source r.offset with
  | none => simpa using unknown_ne_placeIn r.file p
  | some q =>
    constructor
    · intro h
      exact congrArg some (placeIn_inj h)
    · intro h
      exact congrArg (placeIn r.file) (Option.some.inj h)

/-- The place is read as it stands if the name of the file has no line feed. -/
theorem place_read_whole (r : SourceReport) (source : String) (h : '\n' ∉ r.file.toList) :
    unbracketed (firstLine (r.place source)) = r.place source := by
  rw [place]
  cases locate source r.offset with
  | none =>
    have htext : (r.file ++ ":?:?").toList = (r.file.toList ++ [':', '?', ':']) ++ ['?'] := by simp
    exact unbracketed_firstLine (by simpa using h) htext (by decide) (by decide)
  | some p =>
    have hdigit {n : Nat} {c : Char} (hc : ¬ c.isDigit) : c ∉ Nat.toDigits 10 n :=
      fun hmem => hc (isDigit_of_mem_digits hmem)
    have hfeed : '\n' ∉ (placeIn r.file p).toList := by
      simp [toList_placeIn, h, hdigit]
    obtain ⟨digits, last, hlast⟩ :=
      (List.eq_nil_or_concat (Nat.toDigits 10 p.2)).resolve_left Nat.toDigits_ne_nil
    have hmem : last ∈ Nat.toDigits 10 p.2 := by simp [hlast]
    have htext : (placeIn r.file p).toList =
        r.file.toList ++ ':' :: (Nat.toDigits 10 p.1 ++ ':' :: digits) ++ [last] := by
      simp [toList_placeIn, hlast]
    refine unbracketed_firstLine hfeed htext ?_ ?_
    · rintro rfl
      exact hdigit (by decide) hmem
    · rintro rfl
      exact hdigit (by decide) hmem

/-- When a place is read: no label ends before it starts, and one can be placed. -/
theorem exists_place_iff (r : SourceReport) {source text : String} :
    (∃ parts, r.read? source = some parts ∧ parts.place = some text) ↔
      (∀ m ∈ r.marks, ¬ m.isBackwards) ∧ (∃ m ∈ r.marks, m.isPlaced source.length) ∧
        unbracketed (firstLine (r.place source)) = text := by
  by_cases hback : r.marks.any Mark.isBackwards
  · rw [read?, if_pos hback]
    simp_all
  · rw [read?, if_neg hback]
    have hforward : ∀ m ∈ r.marks, m.isBackwards = false := by simpa using hback
    by_cases hplaced : ∃ m ∈ r.marks, m.isPlaced source.length
    · have hdrawn : (r.marks.filter (Mark.isPlaced source.length)).isEmpty = false := by
        simpa [List.isEmpty_eq_false_iff] using hplaced
      simpa [hdrawn, hplaced] using fun _ => hforward
    · have hdrawn : (r.marks.filter (Mark.isPlaced source.length)).isEmpty = true := by
        simpa [List.isEmpty_iff] using hplaced
      simp [hdrawn, hplaced]

end SourceReport

namespace Diagnostic

open Text

/-- The diagnostic is rendered with the place of the character at an offset. -/
def PrintsPlaceOf (d : Diagnostic) (source filename : String) (offset : Nat) : Prop :=
  ∃ r, d.render? source filename = some r ∧
    r.place = some (placeIn filename (position source.toList offset))

instance (d : Diagnostic) (source filename : String) (offset : Nat) :
    Decidable (d.PrintsPlaceOf source filename offset) :=
  decidable_of_iff
    ((d.render? source filename).any fun r =>
      r.place = some (placeIn filename (position source.toList offset)))
    (by simp [PrintsPlaceOf, Option.any_eq_true])

/-- The offset that a report reads as a number of characters is the only one whose place it prints. -/
theorem printsPlaceOf_iff {d : Diagnostic} {source filename : String} {offset : Nat}
    (hfile : '\n' ∉ filename.toList) (hoffset : offset < source.length) :
    d.PrintsPlaceOf source filename offset ↔
      (∀ l ∈ d.labels, ¬ l.mark.isBackwards) ∧ (∃ l ∈ d.labels, l.mark.isPlaced source.length) ∧
        d.span.offset = offset := by
  have hname : (d.report filename).file = filename := by rw [report_eq]
  have hmarks : (d.report filename).marks = d.labels.map Label.mark := by rw [report_eq]
  have hstart : (d.report filename).offset = d.span.offset := by rw [report_eq]
  have hlocate := locate_eq_position hoffset
  rw [PrintsPlaceOf, render?]
  generalize d.report filename = r at hname hmarks hstart ⊢
  subst hname
  rw [r.exists_place_iff, r.place_read_whole source hfile, r.place_eq_placeIn_iff, hmarks, hstart,
    List.forall_mem_map]
  simp only [List.mem_map, exists_exists_and_eq_and]
  refine and_congr_right fun _ => and_congr_right fun _ => ⟨fun h => locateIn_inj h hlocate, ?_⟩
  rintro rfl
  exact hlocate

/-- Suppose that a diagnostic and a label of it have the span of the bytes of `part` in a source. The place of
the first character of `part` is printed exactly if no label ends before it starts, one can be placed and all
characters before `part` take one byte. In particular it is printed if all characters up to the end of `part`
do and no label ends before it starts. -/
theorem place_of_span_printed_iff {source filename before part after : String} {d : Diagnostic} {label : Label}
    (hsource : source = before ++ part ++ after) (hpart : part ≠ "")
    (hspan : d.span.range = (before.utf8ByteSize, (before ++ part).utf8ByteSize))
    (hlabel : label ∈ d.labels) (hsame : label.span = d.span) (hfile : '\n' ∉ filename.toList) :
    (d.PrintsPlaceOf source filename before.length ↔
      (∀ l ∈ d.labels, ¬ l.mark.isBackwards) ∧ (∃ l ∈ d.labels, l.mark.isPlaced source.length) ∧
        ∀ c ∈ before.toList, c.toNat < 128) ∧
    ((∀ l ∈ d.labels, ¬ l.mark.isBackwards) → (∀ c ∈ (before ++ part).toList, c.toNat < 128) →
      d.PrintsPlaceOf source filename before.length) := by
  have hstart : d.span.offset = before.utf8ByteSize := congrArg Prod.fst hspan
  have hpos : 0 < part.length := by
    rw [← String.length_toList, List.length_pos_iff]
    exact fun h => hpart (String.toList_eq_nil_iff.1 h)
  have hlength : source.length = before.length + part.length + after.length := by
    rw [hsource, String.length_append, String.length_append]
  have hiff := printsPlaceOf_iff (d := d) hfile (show before.length < source.length by omega)
  rw [hstart, utf8ByteSize_eq_length] at hiff
  refine ⟨hiff, fun hforward hascii => hiff.2 ⟨hforward, ⟨label, hlabel, ?_⟩, fun c hc => ?_⟩⟩
  · have hstop : (before ++ part).utf8ByteSize = before.length + part.length := by
      rw [utf8ByteSize_eq_length.2 hascii, String.length_append]
    have hle : before.utf8ByteSize ≤ (before ++ part).utf8ByteSize := by
      rw [String.utf8ByteSize_append]
      omega
    simp only [Label.mark, Mark.isPlaced, hsame, hspan, Bool.and_eq_true, Bool.or_eq_true, decide_eq_true_eq]
    omega
  · exact hascii c (by simp [hc])

/-- A diagnostic with one label, on its own span. -/
def pointingAt (span : Span) : Diagnostic :=
  { severity := .error, kind := .validation, message := "type mismatch", span, labels := [⟨span, "here"⟩] }

/-- On the second line of a source whose only wide character stands behind the span. -/
theorem place_before_wide_printed :
    (pointingAt (.between 11 12)).PrintsPlaceOf "x = 1\r\ny = x + é" "main.weft" 11 := by
  have hsource : "x = 1\r\ny = x + é" = "x = 1\r\ny = " ++ "x" ++ " + é" := rfl
  have hlabel : ⟨.between 11 12, "here"⟩ ∈ (pointingAt (.between 11 12)).labels := List.mem_singleton_self _
  exact (place_of_span_printed_iff hsource (by decide) rfl hlabel rfl (by decide)).2 (by decide) (by simp)

/-- The span is that of the bytes of the literal, which is the fourteenth character of its line. -/
theorem place_behind_wide_misprinted :
    "let é: Int = \"a\";" = "let é: Int = " ++ "\"a\"" ++ ";" ∧
    (pointingAt (.between 14 17)).span.range =
      ("let é: Int = ".utf8ByteSize, ("let é: Int = " ++ "\"a\"").utf8ByteSize) ∧
    ¬ (pointingAt (.between 14 17)).PrintsPlaceOf "let é: Int = \"a\";" "main.weft" "let é: Int = ".length ∧
    position "let é: Int = \"a\";".toList "let é: Int = ".length = (1, 14) ∧
    ((pointingAt (.between 14 17)).render? "let é: Int = \"a\";" "main.weft").bind (·.place) =
      some "main.weft:1:15" := by
  decide

/-- Wide characters inside a span can put its end outside the source; then no place is printed. -/
example : ((pointingAt (.between 0 4)).render? "éé" "main.weft").bind (·.place) = none := by
  decide

end Diagnostic
end LiveTypes
