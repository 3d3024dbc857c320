import LiveTypes.Problem.Record
import LiveTypes.Proofs.RoundTrip
import Mathlib.Algebra.Ring.Nat

/-!
# Problem records survive JSON

A record that is written as JSON text and read again is the same record, whatever its texts and whichever of
its fields are absent; so two different records have different texts. What is left out when writing is
exactly what reading fills in. A record is written through its slots, one for each field with the value that
the field has or lacks.
-/
namespace LiveTypes.ProblemRecord

/-! ## Slots -/

/-- The members that are there. -/
def present (slots : List (String × Option Json)) : List (String × Json) :=
  slots.filterMap fun s => s.2.map (s.1, ·)

theorem present_cons_none (key : String) (slots : List (String × Option Json)) :
    present ((key, none) :: slots) = present slots := rfl

theorem present_cons_some (key : String) (j : Json) (slots : List (String × Option Json)) :
    present ((key, some j) :: slots) = (key, j) :: present slots := rfl

theorem key_of_mem_present {slots : List (String × Option Json)} {m : String × Json}
    (h : m ∈ present slots) : m.1 ∈ slots.map (·.1) := by
  obtain ⟨s, hs, hm⟩ := List.mem_filterMap.1 h
  obtain ⟨j, -, rfl⟩ := Option.map_eq_some_iff.1 hm
  exact List.mem_map_of_mem hs

theorem filter_present_of_absent {slots : List (String × Option Json)} {key : String}
    (h : key ∉ slots.map (·.1)) : (present slots).filter (·.1 = key) = [] := by
  refine List.filter_eq_nil_iff.2 fun m hm => ?_
  have hkey := key_of_mem_present hm
  simp only [decide_eq_true_eq]
  rintro rfl
  exact h hkey

/-- Under distinct keys, each member is found as what its slot holds. -/
theorem member?_present {slots : List (String × Option Json)} (hd : (slots.map (·.1)).Nodup)
    {key : String} {value : Option Json} (h : (key, value) ∈ slots) :
    member? (present slots) key = some value := by
  induction slots with
  | nil => cases h
  | cons s slots ih =>
    obtain ⟨first, held⟩ := s
    rw [List.map_cons, List.nodup_cons] at hd
    rcases List.mem_cons.1 h with heq | h
    · cases heq
      have hrest := filter_present_of_absent hd.1
      cases value with
      | none => simp [member?, present_cons_none, hrest]
      | some j => simp [member?, present_cons_some, hrest]
    · have hne : first ≠ key := by
        rintro rfl
        exact hd.1 (List.mem_map.2 ⟨_, h, rfl⟩)
      have hmember := ih hd.2 h
      cases held with
      | none => rwa [present_cons_none]
      | some j =>
        rw [present_cons_some]
        simpa [member?, hne] using hmember

theorem membersExact_present {slots : List (String × Option Json)}
    (h : ∀ s ∈ slots, ∀ j ∈ s.2, j.isExact = true) : Json.membersExact (present slots) = true := by
  induction slots with
  | nil => rfl
  | cons s slots ih =>
    obtain ⟨key, held⟩ := s
    have hrest := ih fun s hs => h s (List.mem_cons_of_mem _ hs)
    cases held with
    | none => rwa [present_cons_none]
    | some j =>
      have hj := h (key, some j) List.mem_cons_self j rfl
      simp [present_cons_some, Json.membersExact, hj, hrest]

/-! ## Fields -/

/-- The fields of a record with what they hold. -/
def slots (r : ProblemRecord) : List (String × Option Json) :=
  [("node", some (.str r.node)), ("property", r.property.map .str), ("index", r.index.map .nat),
    ("severity", some r.severity.toJson), ("code", r.code.map .str), ("message", some (.str r.message)),
    ("sub_problems", if r.subProblems.isEmpty then none else some (.ofList .str r.subProblems))]

theorem toJson_eq (r : ProblemRecord) : r.toJson = .obj (present r.slots) := by
  obtain ⟨node, property, index, severity, code, message, subProblems⟩ := r
  cases property <;> cases index <;> cases code <;> cases subProblems <;> rfl

theorem itemsExact_str (texts : List String) : Json.itemsExact (texts.map .str) = true := by
  induction texts with
  | nil => rfl
  | cons text texts ih => simp [Json.itemsExact, Json.isExact, ih]

theorem slots_exact (r : ProblemRecord) : ∀ s ∈ r.slots, ∀ j ∈ s.2, j.isExact = true := by
  have hlist : ∀ texts : List String, (Json.ofList Json.str texts).isExact = true := fun texts => by
    rw [Json.ofList, Json.isExact]
    exact itemsExact_str texts
  simp only [slots, List.mem_cons, List.not_mem_nil, or_false, forall_eq_or_imp, forall_eq, Option.mem_def,
    Option.map_eq_some_iff, Option.some.injEq]
  refine ⟨?_, ?_, ?_, ?_, ?_, ?_, ?_⟩
  · rintro j rfl; rfl
  · rintro j ⟨text, -, rfl⟩; rfl
  · rintro j ⟨n, -, rfl⟩; rfl
  · rintro j rfl; rfl
  · rintro j ⟨text, -, rfl⟩; rfl
  · rintro j rfl; rfl
  · intro j hj
    split at hj
    · cases hj
    · cases hj
      exact hlist _

/-! ## Reading fields -/

theorem optional?_map {α : Type} {write : α → Json} {read : Json → Option α} (o : Option α)
    (h : ∀ a ∈ o, write a ≠ .null ∧ read (write a) = some a) : optional? read (o.map write) = some o := by
  cases o with
  | none => rfl
  | some a =>
    obtain ⟨hnull, hread⟩ := h a rfl
    rw [Option.map_some, optional?]
    · simp [hread]
    · exact hnull

theorem strings?_ofList (texts : List String) : strings? (some (.ofList .str texts)) = some texts := by
  simp only [strings?, Json.ofList]
  induction texts with
  | nil => rfl
  | cons text texts ih => simp [ih, Json.str?]

theorem severity_ofJson?_toJson (s : Severity) : Severity.ofJson? s.toJson = some s := by
  cases s <;> decide

theorem nat?_nat {n : Nat} (h : n < 2 ^ 64) : Json.nat? (.nat n) = some n := if_pos h

theorem slots_distinct (r : ProblemRecord) : (r.slots.map (·.1)).Nodup := by
  simp only [slots, List.map_cons, List.map_nil]
  decide

theorem ofJson?_toJson (r : ProblemRecord) (h : ∀ i ∈ r.index, i < 2 ^ 64) : ofJson? r.toJson = some r := by
  have found : ∀ (key : String) (value : Option Json), (key, value) ∈ r.slots →
      member? (present r.slots) key = some value := fun _ _ => member?_present r.slots_distinct
  have node := found "node" (some (.str r.node)) (by simp [slots])
  have property := found "property" (r.property.map .str) (by simp [slots])
  have index := found "index" (r.index.map .nat) (by simp [slots])
  have severity := found "severity" (some r.severity.toJson) (by simp [slots])
  have code := found "code" (r.code.map .str) (by simp [slots])
  have message := found "message" (some (.str r.message)) (by simp [slots])
  have subProblems := found "sub_problems"
    (if r.subProblems.isEmpty then none else some (.ofList .str r.subProblems)) (by simp [slots])
  have hproperty : optional? Json.str? (r.property.map .str) = some r.property :=
    optional?_map _ fun _ _ => ⟨nofun, rfl⟩
  have hcode : optional? Json.str? (r.code.map .str) = some r.code :=
    optional?_map _ fun _ _ => ⟨nofun, rfl⟩
  have hindex : optional? Json.nat? (r.index.map .nat) = some r.index :=
    optional?_map _ fun i hi => ⟨nofun, nat?_nat (h i hi)⟩
  have hsubs : strings? (if r.subProblems.isEmpty then none else some (.ofList .str r.subProblems)) =
      some r.subProblems := by
    split
    · rename_i hempty
      rw [List.isEmpty_iff.1 hempty]
      rfl
    · exact strings?_ofList _
  rw [toJson_eq]
  simp only [ofJson?, node, property, index, severity, code, message, subProblems, ofFields?, hproperty, hindex,
    hcode, hsubs, severity_ofJson?_toJson, Json.str?, Option.bind_some, Option.bind_eq_bind]
  rfl

/-! ## The main statement -/

theorem parse_write (r : ProblemRecord) (h : ∀ i ∈ r.index, i < 2 ^ 64) : parse r.write = some r := by
  have hread := Json.parseIgnoring_obj (!fields.contains ·) (present r.slots)
    (membersExact_present r.slots_exact)
  rw [parse, write, toJson_eq, hread, Option.bind_some, ← toJson_eq, ofJson?_toJson r h]

/-- A record that is written and read again is the same record, and no other record has its text. -/
theorem records_survive_json (r : ProblemRecord) (h : ∀ i ∈ r.index, i < 2 ^ 64) :
    parse r.write = some r ∧
    ∀ other : ProblemRecord, (∀ i ∈ other.index, i < 2 ^ 64) → other.write = r.write → other = r := by
  refine ⟨parse_write r h, fun other ho heq => ?_⟩
  have hother := parse_write other ho
  rw [heq, parse_write r h] at hother
  exact (Option.some.inj hother).symm

/-- A record whose texts have everything that is escaped, an empty property and the largest index. -/
def awkward : ProblemRecord where
  node := "\"\\/\x00\x1f\x7f\t\n😀"
  property := some ""
  index := some (2 ^ 64 - 1)
  severity := .hint
  message := ""
  subProblems := ["", "  'A' is not assignable to 'B'"]

theorem awkward_survives : (∀ i ∈ awkward.index, i < 2 ^ 64) ∧ parse awkward.write = some awkward := by
  have hindex : ∀ i ∈ awkward.index, i < 2 ^ 64 := by
    intro i hi
    cases hi
    decide
  exact ⟨hindex, (records_survive_json awkward hindex).1⟩

end LiveTypes.ProblemRecord
