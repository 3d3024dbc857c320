import LiveTypes.TypeGraph.Assignable

/-!
# Relations between types: `create_strategy`, `compare`

A comparison says either that a relation holds or how it fails. Equality is identity; assignability
follows the edges of the type graph. A host may bring comparisons of its own.
-/
namespace LiveTypes

/-- The relation that a comparison checks. -/
inductive Relation where
  | assignable
  | equal
deriving DecidableEq

namespace Relation

/-- The word for a relation. -/
def word : Relation → String
  | .assignable => "assignable"
  | .equal => "equal"

/-- The phrase that stands between two type names. -/
def phrase : Relation → String
  | .assignable => "assignable to"
  | .equal => "equal to"

/-- The name of a relation. -/
def describe : Relation → String
  | .assignable => "Assignable"
  | .equal => "Equal"

/-- The relation that a word names. -/
def ofWord? (word : String) : Option Relation :=
  [Relation.assignable, .equal].find? (·.word = word)

end Relation

/-- Why a relation does not hold, with the failed comparisons of parts of the types. -/
structure Mismatch where
  relation : Relation
  actual : Ty
  expected : Ty
  message : String
  parts : List Mismatch

namespace Mismatch

/-- The plain mismatch of two types. -/
def plain (relation : Relation) (actual expected : Ty) : Mismatch :=
  { relation, actual, expected, parts := []
    message := "'" ++ actual.name ++ "' is not " ++ relation.phrase ++ " '" ++ expected.name ++ "'" }

def withMessage (m : Mismatch) (message : String) : Mismatch := { m with message }

def withPart (m : Mismatch) (part : Mismatch) : Mismatch := { m with parts := m.parts ++ [part] }

mutual

/-- The messages of a mismatch and its parts in reading order, two blanks deeper per level: `walk`. -/
def lines (depth : Nat) : Mismatch → List String
  | ⟨_, _, _, message, parts⟩ =>
    (String.ofList (List.replicate (2 * depth) ' ') ++ message) :: allLines (depth + 1) parts

def allLines (depth : Nat) : List Mismatch → List String
  | [] => []
  | m :: rest => m.lines depth ++ allLines depth rest

end

mutual

def describe : Mismatch → String
  | ⟨relation, actual, expected, message, parts⟩ =>
    "TypeMismatch \x7b relation: " ++ relation.describe ++ ", actual: " ++ actual.describe ++
      ", expected: " ++ expected.describe ++ ", message: " ++ Text.quoted message ++
      ", sub_problems: " ++ Text.bracketed (describeAll parts) ++ " \x7d"

def describeAll : List Mismatch → List String
  | [] => []
  | m :: rest => m.describe :: describeAll rest

end

end Mismatch

/-- The lines that explain a list of mismatches: `flatten_mismatches`. -/
def explain (mismatches : List Mismatch) : List String := Mismatch.allLines 0 mismatches

/-- How a type system compares types. -/
inductive Comparisons where
  /-- Along the type graph. -/
  | graph
  /-- By a function that the host brings. -/
  | custom (compare : Relation → Ty → Ty → Option Mismatch)

/-- Compare two types along the graph; nothing means that the relation holds. This is `compare` of the two
strategies. -/
def Graph.compare (g : Graph) (relation : Relation) (actual expected : Ty) : Option Mismatch :=
  match relation with
  | .equal => if actual = expected then none else some (.plain .equal actual expected)
  | .assignable =>
    if g.reaches actual expected then none
    else
      some ((Mismatch.plain .assignable actual expected).withMessage
        ("there is no sub-type or implicit conversion path from '" ++ actual.name ++ "' to '" ++
          expected.name ++ "'"))

end LiveTypes
