import LiveTypes.Registry
import LiveTypes.TypeGraph.Ty

/-!
# Inference rules: `add_inference_rule`, `remove_inference_rule`, `infer_type`

Rules that derive the type of a domain value. The host brings the code of a rule and the engine knows
it by a tag. Rules are tried in the order of registration and the first that infers a type wins. A
rule may be bound to a type; it leaves together with that type.
-/
namespace LiveTypes

/-- The code of an inference rule, as the host knows it. -/
structure RuleTag where
  tag : Nat
deriving DecidableEq

/-- What a rule makes of a value. -/
inductive Outcome where
  | notApplicable
  | inferred (type : Ty)
  /-- The rule applies but could not produce a type. -/
  | problem (message : String)
deriving DecidableEq

/-- Why a rule that applies could not infer a type. -/
structure InferenceProblem where
  rule : String
  message : String
deriving DecidableEq

def InferenceProblem.describe (p : InferenceProblem) : String := p.rule ++ ": " ++ p.message

/-- The number of a rule in its system. The numbers come round again after 2^32. -/
abbrev RuleId := UInt32

/-- A registered rule. -/
structure Rule where
  id : RuleId
  tag : RuleTag
  name : String
  boundTo : Option Ty
deriving DecidableEq

/-- The description of a rule's number. -/
def Rule.describeId (id : RuleId) : String := "RuleId(" ++ toString id ++ ")"

/-- The rules of one type system, oldest first. -/
structure RuleSet where
  nextId : RuleId := 0
  rules : List Rule := []

namespace RuleSet

/-- The rule that would be registered next. -/
def next (s : RuleSet) (tag : RuleTag) (name : String) (boundTo : Option Ty) : Rule :=
  ⟨s.nextId, tag, name, boundTo⟩

/-- Register a rule; its number is `nextId`. This is the change that `add_inference_rule` makes. -/
def add (s : RuleSet) (tag : RuleTag) (name : String) (boundTo : Option Ty) : RuleSet :=
  { nextId := s.nextId + 1, rules := s.rules ++ [s.next tag name boundTo] }

/-- The registered rule with a number. -/
def find? (s : RuleSet) (id : RuleId) : Option Rule := s.rules.find? (·.id = id)

/-- Remove the rule with a number: the change that `remove_inference_rule` makes. -/
def remove (s : RuleSet) (id : RuleId) : RuleSet := { s with rules := s.rules.eraseP (·.id = id) }

/-- The numbers of the rules bound to a type, which go when it leaves: `removed_type` of a system. -/
def boundTo (s : RuleSet) (t : Ty) : List RuleId :=
  (s.rules.filter (·.boundTo = some t)).map (·.id)

end RuleSet
end LiveTypes
