/-!
# Tables

A finite map from names to things. A name stands for at most one thing: to insert under a name that is
taken replaces what is there.
-/
namespace LiveTypes

/-- Names and what they stand for. -/
abbrev Table (α : Type) := List (String × α)

namespace Table

variable {α : Type}

/-- What a name stands for. -/
def find? (t : Table α) (name : String) : Option α := t.lookup name

def erase (t : Table α) (name : String) : Table α := t.filter (·.1 ≠ name)

def insert (t : Table α) (name : String) (a : α) : Table α := t.erase name ++ [(name, a)]

theorem find?_cons (first : String) (a : α) (t : Table α) (name : String) :
    find? ((first, a) :: t) name = if name = first then some a else t.find? name := by
  by_cases h : name = first
  · simp [find?, h]
  · simp [find?, List.lookup_cons, beq_false_of_ne h, h]

theorem find?_erase (t : Table α) (name other : String) :
    (t.erase name).find? other = if other = name then none else t.find? other := by
  induction t with
  | nil => simp [erase, find?]
  | cons entry t ih =>
    obtain ⟨first, a⟩ := entry
    by_cases hf : first = name
    · have heq : erase ((first, a) :: t) name = erase t name := by simp [erase, hf]
      rw [heq, ih, find?_cons, hf]
      split <;> rfl
    · have heq : erase ((first, a) :: t) name = (first, a) :: erase t name := by simp [erase, hf]
      rw [heq, find?_cons, find?_cons, ih]
      by_cases ho : other = first
      · simp [ho, hf]
      · simp [ho]

theorem find?_insert (t : Table α) (name other : String) (a : α) :
    (t.insert name a).find? other = if other = name then some a else t.find? other := by
  have hor : (t.insert name a).find? other = ((t.erase name).find? other).or (find? [(name, a)] other) :=
    List.lookup_append
  rw [hor, find?_erase, find?_cons]
  by_cases ho : other = name
  · simp [ho]
  · simp [ho, find?]

end Table
end LiveTypes
