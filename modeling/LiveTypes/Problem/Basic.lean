import LiveTypes.Diagnostic.Basic
import LiveTypes.Node
import LiveTypes.Relation

/-!
# Validation problems: `location`, `to_diagnostic`

A problem about one domain value, possibly about one property of it or one item of that property,
with the failed comparisons behind it.
-/
namespace LiveTypes

/-- A problem about a domain value `ν`. -/
structure Problem (ν : Type) where
  node : ν
  /-- The faulty property of the value. -/
  property : Option String := none
  /-- The faulty item of a list-valued property. -/
  index : Option Nat := none
  severity : Severity
  code : Option Code := none
  message : String
  /-- The failed comparisons; there is none where a forbidden relation holds. -/
  mismatches : List Mismatch := []

namespace Problem

variable {ν : Type}

/-- Where inside the value the problem sits: `location`. -/
def location (p : Problem ν) : Option String :=
  match p.property, p.index with
  | some property, some index => some (property ++ "[" ++ toString index ++ "]")
  | some property, none => some property
  | none, some index => some ("[" ++ toString index ++ "]")
  | none, none => none

/-- The word on the problem's label. -/
def labelText (p : Problem ν) : String :=
  match p.location with
  | some location => "in `" ++ location ++ "`"
  | none => "here"

/-- A diagnostic at the span where the host found the value: `to_diagnostic`. -/
def diagnostic (p : Problem ν) (span : Span) : Diagnostic :=
  let labelled : Diagnostic :=
    { severity := p.severity, kind := .validation, span, message := p.message
      labels := [⟨span, p.labelText⟩] }
  let coded := match p.code with
    | some code => labelled.withCode code
    | none => labelled
  (explain p.mismatches).foldl Diagnostic.withNote coded

end Problem
end LiveTypes
