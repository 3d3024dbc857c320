import LiveTypes.Json.Reader
import LiveTypes.Json.Writer

/-!
# Reading undoes writing

The reader gives back every value whose compact text it is handed, whatever characters its strings have,
as long as its numbers are integers (any other number is only kept as it was written). Numbers, strings and
values are read off the front of a longer text, so each lemma has a rest behind what was written; after a
number the rest must not go on with it. The text has at least as many characters as the reader makes nested
calls, so the number of characters is fuel enough.
-/
namespace LiveTypes.Json

/-! ## Digits -/

theorem isDigit_digitChar {d : Nat} (h : d < 10) : (digitChar d).isDigit = true := by
  have all : ∀ d < 10, (digitChar d).isDigit = true := by decide
  exact all d h

theorem ofDigits_singleton {d : Nat} (h : d < 10) : ofDigits [digitChar d] = d := by
  have all : ∀ d < 10, ofDigits [digitChar d] = d := by decide
  exact all d h

theorem hexValue?_digitChar {d : Nat} (h : d < 16) : hexValue? (digitChar d) = some d := by
  have all : ∀ d < 16, hexValue? (digitChar d) = some d := by decide
  exact all d h

theorem ofDigits_concat (ds : List Char) (d : Char) :
    ofDigits (ds ++ [d]) = 10 * ofDigits ds + ofDigits [d] := by
  simp [ofDigits]

theorem natChars_of_lt {n : Nat} (h : n < 10) : natChars n = [digitChar n] := by
  rw [natChars, digits, dif_neg (by omega)]

theorem natChars_of_le {n : Nat} (h : 10 ≤ n) : natChars n = natChars (n / 10) ++ [digitChar (n % 10)] := by
  rw [natChars, digits, dif_pos ⟨by omega, h⟩]
  rfl

theorem ofDigits_natChars (n : Nat) : ofDigits (natChars n) = n := by
  induction n using Nat.strongRecOn with
  | ind n ih =>
    by_cases h : 10 ≤ n
    · rw [natChars_of_le h, ofDigits_concat, ih (n / 10) (by omega), ofDigits_singleton (by omega)]
      omega
    · rw [natChars_of_lt (by omega), ofDigits_singleton (by omega)]

theorem isDigit_of_mem_natChars (n : Nat) : ∀ c ∈ natChars n, c.isDigit = true := by
  induction n using Nat.strongRecOn with
  | ind n ih =>
    intro c hc
    by_cases h : 10 ≤ n
    · rw [natChars_of_le h, List.mem_append, List.mem_singleton] at hc
      rcases hc with hc | rfl
      · exact ih (n / 10) (by omega) c hc
      · exact isDigit_digitChar (by omega)
    · rw [natChars_of_lt (by omega), List.mem_singleton] at hc
      subst hc
      exact isDigit_digitChar (by omega)

theorem natChars_ne_nil (n : Nat) : natChars n ≠ [] := by
  by_cases h : 10 ≤ n
  · simp [natChars_of_le h]
  · simp [natChars_of_lt (n := n) (by omega)]

/-- Only the number zero is written with a leading zero. -/
theorem head_natChars {n : Nat} (h : n ≠ 0) : (natChars n).head? ≠ some '0' := by
  induction n using Nat.strongRecOn with
  | ind n ih =>
    by_cases hn : 10 ≤ n
    · have hfirst := ih (n / 10) (by omega) (by omega)
      rw [natChars_of_le hn]
      cases hds : natChars (n / 10) with
      | nil => exact absurd hds (natChars_ne_nil _)
      | cons d ds => simpa [hds] using hfirst
    · have all : ∀ d < 10, d ≠ 0 → digitChar d ≠ '0' := by decide
      rw [natChars_of_lt (by omega)]
      simpa using all n (by omega) h

/-! ## Numbers -/

/-- A rest that does not go on with a number. -/
def EndsNumber (rest : List Char) : Prop :=
  ∀ c ∈ rest.head?, c.isDigit = false ∧ c ≠ '.' ∧ c ≠ 'e' ∧ c ≠ 'E'

theorem endsNumber_cons {c : Char} (h : c = ',' ∨ c = ']' ∨ c = '\x7d') (rest : List Char) :
    EndsNumber (c :: rest) := by
  rcases h with rfl | rfl | rfl <;> simp [EndsNumber]

section Numbers

variable {rest : List Char} (h : EndsNumber rest)

include h

theorem takeWhile_natChars (n : Nat) : (natChars n ++ rest).takeWhile Char.isDigit = natChars n := by
  rw [List.takeWhile_append_of_pos (isDigit_of_mem_natChars n)]
  cases rest with
  | nil => simp
  | cons c rest =>
    have hc := (h c rfl).1
    simp [hc]

theorem dropWhile_natChars (n : Nat) : (natChars n ++ rest).dropWhile Char.isDigit = rest := by
  rw [List.dropWhile_append_of_pos (isDigit_of_mem_natChars n)]
  cases rest with
  | nil => rfl
  | cons c rest =>
    have hc := (h c rfl).1
    simp [hc]

theorem readWhole_natChars (n : Nat) : readWhole (natChars n ++ rest) = some (natChars n, rest) := by
  unfold readWhole
  rw [takeWhile_natChars h, dropWhile_natChars h]
  split
  · rename_i hnil
    exact absurd hnil (natChars_ne_nil n)
  · rename_i c cs hzero
    by_cases hn : n = 0
    · rw [hn, natChars_of_lt (by omega)] at hzero
      simp at hzero
    · exact absurd (by rw [hzero]; rfl) (head_natChars hn)
  · rfl

theorem readFraction_rest : readFraction rest = some ([], rest) := by
  unfold readFraction
  split
  · exact absurd rfl (h '.' rfl).2.1
  · rfl

theorem readExponent_rest : readExponent rest = some ([], rest) := by
  unfold readExponent
  split
  · exact absurd rfl (h 'e' rfl).2.2.1
  · exact absurd rfl (h 'E' rfl).2.2.2
  · rfl

/-- Digits are read as the number that they write; only a negative zero would not be an integer. -/
theorem readUnsigned_natChars (negative : Bool) {n : Nat} (hn : negative = true → n ≠ 0) :
    readUnsigned negative (natChars n ++ rest) = some (.int (if negative then -n else n), rest) := by
  simpa [readUnsigned, readWhole_natChars h, readFraction_rest h, readExponent_rest h, ofDigits_natChars]
    using hn

end Numbers

/-! ## Strings -/

/-- How the reader sees a character that was written inside a string. -/
def pieceOf (c : Char) : Piece :=
  if c.toNat < 0x20 ∧ c ∉ ['\x08', '\t', '\n', '\x0c', '\r'] then .unit c.toNat else .char c

/-- One escaped character is read as one piece. -/
theorem readPieces_escapeChar (c : Char) (rest : List Char) :
    readPieces (escapeChar c ++ rest) = (readPieces rest).map fun p => (pieceOf c :: p.1, p.2) := by
  by_cases hshort : c ∈ ['"', '\\', '\x08', '\t', '\n', '\x0c', '\r']
  · simp only [List.mem_cons, List.not_mem_nil, or_false] at hshort
    rcases hshort with rfl | rfl | rfl | rfl | rfl | rfl | rfl <;>
      (simp [escapeChar, readPieces, pieceOf]; cases readPieces rest <;> rfl)
  · simp only [List.mem_cons, List.not_mem_nil, or_false, not_or] at hshort
    obtain ⟨hquote, hback, hb, ht, hn, hf, hr⟩ := hshort
    by_cases hlow : c.toNat < 0x20
    · have hpiece : pieceOf c = .unit c.toNat := by simp [pieceOf, hlow, hb, ht, hn, hf, hr]
      have hhigh := hexValue?_digitChar (d := c.toNat / 16) (by omega)
      have hrest := hexValue?_digitChar (d := c.toNat % 16) (by omega)
      have hzero : hexValue? '0' = some 0 := by decide
      have hunit : c.toNat / 16 * 16 + c.toNat % 16 = c.toNat := by omega
      simp [escapeChar, hquote, hback, hb, ht, hn, hf, hr, hlow, readPieces, hhigh, hrest, hzero, hunit, hpiece]
      cases readPieces rest <;> rfl
    · have hpiece : pieceOf c = .char c := by simp [pieceOf, hlow]
      simp [escapeChar, hquote, hback, hb, ht, hn, hf, hr, hlow, readPieces, hpiece]
      cases readPieces rest <;> rfl

theorem readPieces_escaped (cs rest : List Char) :
    readPieces (cs.flatMap escapeChar ++ '"' :: rest) = some (cs.map pieceOf, rest) := by
  induction cs with
  | nil => simp [readPieces]
  | cons c cs ih => simp [readPieces_escapeChar, ih]

theorem textOf?_unit {u : Nat} (h : u < 0xD800) (pieces : List Piece) :
    textOf? (.unit u :: pieces) = (textOf? pieces).map (Char.ofNat u :: ·) := by
  have hhigh : isHighSurrogate u = false := by simp [isHighSurrogate]; omega
  have hlow : isLowSurrogate u = false := by simp [isLowSurrogate]; omega
  cases pieces with
  | nil => simp [textOf?, hhigh, hlow]
  | cons p pieces => cases p <;> simp [textOf?, hhigh, hlow]

theorem textOf?_pieceOf (cs : List Char) : textOf? (cs.map pieceOf) = some cs := by
  induction cs with
  | nil => rfl
  | cons c cs ih =>
    rw [List.map_cons, pieceOf]
    split
    · rename_i hlow
      rw [textOf?_unit (by omega), ih, Option.map_some, Char.ofNat_toNat]
    · simp [textOf?, ih]

theorem readString_stringChars (needed : Bool) (s : String) (rest : List Char) :
    readString needed (s.toList.flatMap escapeChar ++ '"' :: rest) = some (s, rest) := by
  simp [readString, readPieces_escaped, textOf?_pieceOf]

/-! ## Values -/

mutual

/-- Whether all numbers of a value are integers. -/
def isExact : Json → Bool
  | .decimal _ => false
  | .arr items => itemsExact items
  | .obj members => membersExact members
  | _ => true

def itemsExact : List Json → Bool
  | [] => true
  | j :: rest => j.isExact && itemsExact rest

def membersExact : List (String × Json) → Bool
  | [] => true
  | (_, j) :: rest => j.isExact && membersExact rest

end

theorem skipBlanks_cons {c : Char} (h : isBlank c = false) (cs : List Char) :
    skipBlanks (c :: cs) = c :: cs := by
  simp [skipBlanks, h]

theorem isDigit_ne {d : Char} (h : d.isDigit = true) :
    isBlank d = false ∧ d ≠ 'n' ∧ d ≠ 't' ∧ d ≠ 'f' ∧ d ≠ '"' ∧ d ≠ '-' ∧ d ≠ '[' ∧ d ≠ ']' ∧ d ≠ '\x7b' := by
  refine ⟨?_, ?_, ?_, ?_, ?_, ?_, ?_, ?_, ?_⟩
  · cases hb : isBlank d with
    | false => rfl
    | true =>
      simp only [isBlank, Bool.or_eq_true, decide_eq_true_eq] at hb
      rcases hb with ((rfl | rfl) | rfl) | rfl <;> exact absurd h (by decide)
  all_goals
    rintro rfl
    exact absurd h (by decide)

/-- Where a digit comes, a number comes. -/
theorem readValue_digit {d : Char} (h : d.isDigit = true) (needed : Bool) (fuel : Nat) (cs : List Char) :
    readValue needed (fuel + 1) (d :: cs) = readUnsigned false (d :: cs) := by
  obtain ⟨hb, hn, ht, hf, hq, hm, ha, -, ho⟩ := isDigit_ne h
  simp [readValue, skipBlanks_cons hb, hn, ht, hf, hq, hm, ha, ho]

theorem readValue_int (needed : Bool) (fuel : Nat) (i : Int) {rest : List Char} (h : EndsNumber rest) :
    readValue needed (fuel + 1) (intChars i ++ rest) = some (.int i, rest) := by
  cases i with
  | ofNat n =>
    have hread := readUnsigned_natChars h false (n := n) (by simp)
    simp only [intChars]
    cases hds : natChars n with
    | nil => exact absurd hds (natChars_ne_nil n)
    | cons d ds =>
      have hd := isDigit_of_mem_natChars n d (by simp [hds])
      rw [List.cons_append, readValue_digit hd, ← List.cons_append, ← hds, hread]
      rfl
  | negSucc n =>
    have hread := readUnsigned_natChars h true (n := n + 1) (by simp)
    simp only [intChars, List.cons_append, readValue, skipBlanks_cons (c := '-') (by decide), hread]
    rfl

/-- The text of a value begins with what neither is blank nor closes a bracket. -/
theorem chars_head {j : Json} (h : j.isExact = true) :
    ∃ c cs, j.chars = c :: cs ∧ isBlank c = false ∧ c ≠ ']' := by
  cases j with
  | null => exact ⟨_, _, by rw [chars], by decide, by decide⟩
  | bool b => cases b <;> exact ⟨_, _, by rw [chars], by decide, by decide⟩
  | int i =>
    cases i with
    | ofNat n =>
      cases hds : natChars n with
      | nil => exact absurd hds (natChars_ne_nil n)
      | cons d ds =>
        obtain ⟨hb, -, -, -, -, -, -, hc, -⟩ := isDigit_ne (isDigit_of_mem_natChars n d (by simp [hds]))
        exact ⟨d, ds, by rw [chars, intChars, hds], hb, hc⟩
    | negSucc n => exact ⟨_, _, by rw [chars, intChars], by decide, by decide⟩
  | decimal written => cases h
  | str s => exact ⟨_, _, by rw [chars, stringChars], by decide, by decide⟩
  | arr items => exact ⟨_, _, by rw [chars], by decide, by decide⟩
  | obj members => exact ⟨_, _, by rw [chars], by decide, by decide⟩

theorem itemsChars_head {j : Json} (h : j.isExact = true) (items : List Json) :
    ∃ c cs, itemsChars (j :: items) = c :: cs ∧ isBlank c = false ∧ c ≠ ']' := by
  obtain ⟨c, cs, hc, hb, hne⟩ := chars_head h
  cases items with
  | nil => exact ⟨c, cs, by rw [itemsChars, hc], hb, hne⟩
  | cons k items => exact ⟨c, _, by rw [itemsChars, hc, List.cons_append], hb, hne⟩

theorem membersChars_head (m : String × Json) (members : List (String × Json)) :
    ∃ cs, membersChars (m :: members) = '"' :: cs := by
  cases members <;> exact ⟨_, by rw [membersChars, stringChars, List.cons_append]⟩

/-- With so much fuel, the reader gives back every value whose text is no longer, and the items and members up
to their closing bracket. -/
structure ReadsBack (fuel : Nat) : Prop where
  value : ∀ (needed : Bool) (j : Json) (rest : List Char), j.isExact = true → j.chars.length ≤ fuel →
    EndsNumber rest → readValue needed fuel (j.chars ++ rest) = some (j, rest)
  items : ∀ (needed : Bool) (j : Json) (items : List Json) (rest : List Char),
    itemsExact (j :: items) = true → (itemsChars (j :: items)).length < fuel →
    readItems needed fuel (itemsChars (j :: items) ++ ']' :: rest) = some (j :: items, rest)
  members : ∀ (needed : Bool) (ignored : String → Bool) (m : String × Json) (members : List (String × Json))
    (rest : List Char), membersExact (m :: members) = true → (membersChars (m :: members)).length < fuel →
    readMembers needed ignored fuel (membersChars (m :: members) ++ '\x7d' :: rest) =
      some (m :: members, rest)

section Steps

variable {fuel : Nat} (h : ReadsBack fuel) (needed : Bool)

include h

theorem ReadsBack.arr_step (items : List Json) (rest : List Char) (he : itemsExact items = true)
    (hlen : (Json.arr items).chars.length ≤ fuel + 1) :
    readValue needed (fuel + 1) ((Json.arr items).chars ++ rest) = some (.arr items, rest) := by
  rw [chars] at hlen ⊢
  simp only [List.cons_append, List.append_assoc, List.nil_append, readValue,
    skipBlanks_cons (c := '[') (by decide)]
  cases items with
  | nil => simp [itemsChars, skipBlanks_cons (c := ']') (by decide)]
  | cons j items =>
    simp only [List.length_cons, List.length_append, List.length_nil] at hlen
    have hread := h.items needed j items rest he (by omega)
    simp only [itemsExact, Bool.and_eq_true] at he
    obtain ⟨c, cs, hc, hb, hne⟩ := itemsChars_head he.1 items
    rw [hc, List.cons_append] at hread ⊢
    rw [skipBlanks_cons hb]
    split
    · rename_i heq
      exact absurd (List.cons.inj heq).1 hne
    · rw [hread]
      rfl

theorem ReadsBack.obj_step (members : List (String × Json)) (rest : List Char)
    (he : membersExact members = true) (hlen : (Json.obj members).chars.length ≤ fuel + 1) :
    readValue needed (fuel + 1) ((Json.obj members).chars ++ rest) = some (.obj members, rest) := by
  rw [chars] at hlen ⊢
  simp only [List.cons_append, List.append_assoc, List.nil_append, readValue,
    skipBlanks_cons (c := '\x7b') (by decide)]
  cases members with
  | nil => simp [membersChars, skipBlanks_cons (c := '\x7d') (by decide)]
  | cons m members =>
    simp only [List.length_cons, List.length_append, List.length_nil] at hlen
    have hread := h.members needed (fun _ => false) m members rest he (by omega)
    obtain ⟨cs, hc⟩ := membersChars_head m members
    rw [hc, List.cons_append] at hread ⊢
    rw [skipBlanks_cons (by decide)]
    simp [hread]

theorem ReadsBack.value_step (j : Json) (rest : List Char) (he : j.isExact = true)
    (hlen : j.chars.length ≤ fuel + 1) (hr : EndsNumber rest) :
    readValue needed (fuel + 1) (j.chars ++ rest) = some (j, rest) := by
  cases j with
  | null => simp [chars, readValue, skipBlanks_cons (c := 'n') (by decide)]
  | bool b =>
    cases b with
    | true => simp [chars, readValue, skipBlanks_cons (c := 't') (by decide)]
    | false => simp [chars, readValue, skipBlanks_cons (c := 'f') (by decide)]
  | int i =>
    rw [chars]
    exact readValue_int needed fuel i hr
  | decimal written => cases he
  | str s =>
    simp [chars, stringChars, readValue, skipBlanks_cons (c := '"') (by decide), readString_stringChars]
  | arr items => exact h.arr_step needed items rest he hlen
  | obj members => exact h.obj_step needed members rest he hlen

theorem ReadsBack.items_step (j : Json) (items : List Json) (rest : List Char)
    (he : itemsExact (j :: items) = true) (hlen : (itemsChars (j :: items)).length < fuel + 1) :
    readItems needed (fuel + 1) (itemsChars (j :: items) ++ ']' :: rest) = some (j :: items, rest) := by
  rw [itemsExact, Bool.and_eq_true] at he
  cases items with
  | nil =>
    rw [itemsChars] at hlen ⊢
    have hread := h.value needed j (']' :: rest) he.1 (by omega) (endsNumber_cons (by simp) rest)
    simp [readItems, hread, skipBlanks_cons (c := ']') (by decide)]
  | cons k items =>
    rw [itemsChars] at hlen ⊢
    simp only [List.length_append, List.length_cons] at hlen
    rw [List.append_assoc, List.cons_append]
    have hread := h.value needed j (',' :: (itemsChars (k :: items) ++ ']' :: rest)) he.1 (by omega)
      (endsNumber_cons (by simp) _)
    have hmore := h.items needed k items rest he.2 (by omega)
    simp [readItems, hread, skipBlanks_cons (c := ',') (by decide), hmore]

theorem ReadsBack.members_step (ignored : String → Bool) (m : String × Json)
    (members : List (String × Json)) (rest : List Char) (he : membersExact (m :: members) = true)
    (hlen : (membersChars (m :: members)).length < fuel + 1) :
    readMembers needed ignored (fuel + 1) (membersChars (m :: members) ++ '\x7d' :: rest) =
      some (m :: members, rest) := by
  obtain ⟨key, j⟩ := m
  rw [membersExact, Bool.and_eq_true] at he
  cases members with
  | nil =>
    rw [membersChars] at hlen ⊢
    simp only [stringChars, List.length_append, List.length_cons] at hlen
    have hread := h.value (needed && !ignored key) j ('\x7d' :: rest) he.1 (by omega)
      (endsNumber_cons (by simp) rest)
    simp [stringChars, readMembers, skipBlanks_cons (c := '"') (by decide), readString_stringChars,
      skipBlanks_cons (c := ':') (by decide), hread, skipBlanks_cons (c := '\x7d') (by decide)]
  | cons m members =>
    rw [membersChars] at hlen ⊢
    simp only [stringChars, List.length_append, List.length_cons] at hlen
    have hread := h.value (needed && !ignored key) j (',' :: (membersChars (m :: members) ++ '\x7d' :: rest))
      he.1 (by omega) (endsNumber_cons (by simp) _)
    have hmore := h.members needed ignored m members rest he.2 (by omega)
    simp [stringChars, readMembers, skipBlanks_cons (c := '"') (by decide), readString_stringChars,
      skipBlanks_cons (c := ':') (by decide), hread, skipBlanks_cons (c := ',') (by decide), hmore]

end Steps

/-- The induction is on the fuel, since every nested call of the reader has less of it. -/
theorem readsBack (fuel : Nat) : ReadsBack fuel := by
  induction fuel with
  | zero =>
    refine ⟨fun needed j rest he hlen => ?_, fun _ _ _ _ _ hlen => ?_, fun _ _ _ _ _ _ hlen => ?_⟩
    · obtain ⟨c, cs, hc, -⟩ := chars_head he
      simp [hc] at hlen
    · omega
    · omega
  | succ fuel ih =>
    exact ⟨fun needed j rest he hlen hr => ih.value_step needed j rest he hlen hr,
      fun needed j items rest he hlen => ih.items_step needed j items rest he hlen,
      fun needed ignored m members rest he hlen => ih.members_step needed ignored m members rest he hlen⟩

/-! ## Documents -/

/-- The text of an object reads back as that object, also if nobody looks at some of its members. -/
theorem parseIgnoring_obj (ignored : String → Bool) (members : List (String × Json))
    (h : membersExact members = true) :
    parseIgnoring ignored (Json.obj members).write = some (.obj members) := by
  have hend : skipBlanks [] = [] := rfl
  simp only [parseIgnoring, write, String.toList_ofList, chars, skipBlanks_cons (c := '\x7b') (by decide)]
  cases members with
  | nil =>
    simp only [membersChars, List.nil_append, skipBlanks_cons (c := '\x7d') (by decide)]
    simp [hend]
  | cons m members =>
    generalize hfuel : ('\x7b' :: (membersChars (m :: members) ++ ['\x7d'])).length + 1 = fuel
    have hlen : (membersChars (m :: members)).length < fuel := by
      simp at hfuel
      omega
    have hread := (readsBack fuel).members true ignored m members [] h hlen
    obtain ⟨cs, hc⟩ := membersChars_head m members
    rw [hc, List.cons_append] at hread ⊢
    rw [skipBlanks_cons (by decide)]
    simp [hread, hend]

end LiveTypes.Json
