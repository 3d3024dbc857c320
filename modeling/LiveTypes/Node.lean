import LiveTypes.Text.Quoted
import LiveTypes.Text.Uppercase
import LiveTypes.TypeGraph.Ty

/-!
# Domain values and their printing: `print_type`, `print_node`

The engine is about any kind of domain value; `Node` is the kind that scripted hosts use. A printer
turns types and domain values into text for messages; a value that begins a sentence may be printed
differently.
-/
namespace LiveTypes

/-- A domain value of a scripted host. -/
inductive Node where
  | int (value : Int)
  | text (value : String)
  | var (name : String)
  /-- A value that is described by a given text. -/
  | raw (description : String)
  | list (items : List Node)
deriving BEq, Inhabited

namespace Node

mutual

/-- The description of a value. -/
def describe : Node → String
  | .int value => "Int(" ++ toString value ++ ")"
  | .text value => "Text(" ++ Text.quoted value ++ ")"
  | .var name => "Var(" ++ Text.quoted name ++ ")"
  | .raw description => description
  | .list items => "List(" ++ Text.bracketed (describeAll items) ++ ")"

def describeAll : List Node → List String
  | [] => []
  | n :: rest => n.describe :: describeAll rest

end

end Node

/-- How types and domain values `ν` are printed. -/
structure Printer (ν : Type) where
  type : Ty → String
  node : ν → (startsSentence : Bool) → String

namespace Printer

/-- Types by their names, values by their descriptions; a sentence begins with a capital. -/
def plain : Printer Node where
  type t := t.name
  node n startsSentence := if startsSentence then Text.capitalize n.describe else n.describe

/-- Types with both texts between angle brackets, values with a word before them. -/
def bracket : Printer Node where
  type t := "<" ++ t.identifier ++ "|" ++ t.name ++ ">"
  node n startsSentence := (if startsSentence then "Node " else "node ") ++ n.describe

end Printer
end LiveTypes
