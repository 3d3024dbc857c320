import LiveTypes.Json.Basic

/-!
# Fields of a request

Reading the members that a request must or may have. The error says which field is wrong; a member
that is missing counts as `null`.
-/
namespace LiveTypes.Json

/-- A value that has to be there. -/
def need {α : Type} (complaint : String) : Option α → Except String α
  | some a => .ok a
  | none => .error complaint

def textAt (j : Json) (key : String) : Except String String :=
  need (key ++ " must be a string") (j.field key).str?

def naturalAt (j : Json) (key : String) : Except String Nat :=
  need (key ++ " must be a natural number") (j.field key).nat?

def arrayAt (j : Json) (key : String) : Except String (List Json) :=
  need (key ++ " must be an array") (j.field key).arr?

/-- A field that may be absent. -/
def optionalAt {α : Type} (read : Json → String → Except String α) (j : Json) (key : String) :
    Except String (Option α) :=
  if (j.field key).isNull then .ok none else (read j key).map some

/-- A field whose text names one of several things. -/
def namedAt {α : Type} (what : String) (find : String → Option α) (j : Json) (key : String) :
    Except String α := do
  let name ← j.textAt key
  need ("unknown " ++ what ++ " " ++ name) (find name)

end LiveTypes.Json
