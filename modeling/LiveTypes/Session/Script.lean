import LiveTypes.Exchange

/-!
# Scripts

What a scripted host does when it is called back. A script is written in JSON and names things by
their handles; a handle is looked up each time the script runs, so it may name something that comes
into being later. A part of a script that makes no sense has no effect.
-/
namespace LiveTypes

/-- Steps that a callback runs, so many times as are left. -/
structure Action where
  steps : List Json
  times : Nat

/-- An action as an object gives it; it runs once unless it says how often. -/
def Action.ofJson (j : Json) : Action :=
  ⟨(j.field "steps").arr?.getD [], (j.field "times").nat?.getD 1⟩

/-- An action, by its number. -/
abbrev ActionId := Nat

/-- A scripted observer: what it does on which kind of event. -/
structure ObserverScript where
  name : String
  actions : List (String × ActionId)

/-! ## Tests -/

/-- Which values a case is about. -/
inductive Test where
  | any
  | int
  | text
  | var
  | raw
  | list
  | below (bound : Int)
  | equal (node : Node)
  | never

namespace Test

/-- Whether a value passes a test. -/
def holds : Test → Node → Bool
  | .any, _ => true
  | .int, .int _ => true
  | .text, .text _ => true
  | .var, .var _ => true
  | .raw, .raw _ => true
  | .list, .list _ => true
  | .below bound, .int value => value < bound
  | .equal expected, node => expected == node
  | _, _ => false

def ofJson (j : Json) : Test :=
  match j with
  | .str "any" => .any
  | .str "int" => .int
  | .str "text" => .text
  | .str "var" => .var
  | .str "raw" => .raw
  | .str "list" => .list
  | _ =>
    match (j.field "lt").int?, Node.ofJson? (j.field "eq") with
    | some bound, _ => .below bound
    | none, some node => .equal node
    | none, none => .never

end Test

/-! ## Inference rules -/

/-- What a case of an inference rule gives. -/
inductive Conclusion where
  | notApplicable
  /-- The type that has a handle. -/
  | type (handle : String)
  /-- A new type each time. -/
  | fresh (identifier : String)
  | problem (message : String)
  /-- The type under a key of the graph. -/
  | lookup (key : String)
  /-- The type of an item of a list. -/
  | element (index : Nat)

/-- A conclusion as a member names it; of several, the first one counts that is well-formed. -/
def Conclusion.ofJson (j : Json) : Conclusion :=
  let found := (j.field "type").str?.map .type <|> (j.field "fresh").str?.map .fresh <|>
    (j.field "problem").str?.map .problem <|> (j.field "lookup").str?.map .lookup <|>
    (j.field "elem").nat?.map .element
  found.getD .notApplicable

structure RuleCase where
  test : Test
  action : Option ActionId
  conclusion : Conclusion

/-- A scripted inference rule: its first case that fits counts. -/
structure RuleScript where
  /-- The handle of the type system that infers the types of items. -/
  system : String
  cases : List RuleCase

/-! ## Validation rules -/

structure CheckCase where
  test : Test
  action : Option ActionId
  /-- The relation check, if the case has one, as it is written. -/
  check : Option Json
  /-- The problem that the case itself reports. -/
  problem : Option (String × Severity)

/-- The problem that a case reports; none if its severity is unknown. -/
def CheckCase.problemOf? (j : Json) : Option (String × Severity) := do
  let message ← (j.field "problem").str?
  let severity ← (j.severityAt? "severity").toOption
  return (message, severity.getD .error)

/-- A scripted validation rule: all its cases that fit count. -/
structure CheckScript where
  name : String
  cases : List CheckCase

/-! ## Deferred selectors -/

/-- What a deferred selector stands for. -/
inductive Expansion where
  /-- A selector behind so many further deferrals. -/
  | fixed (deferrals : Nat) (selector : Selector Node)
  /-- Whatever the variable holds when it is asked. -/
  | lookup (name : String)

end LiveTypes
