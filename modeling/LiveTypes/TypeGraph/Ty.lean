import LiveTypes.Text.Quoted

/-!
# Types and edges

A type is an identity with two texts: the identifier that the graph knows it by and the name that
users read. Two types made separately are different types, even with the same identifier. Edges are
directed and have a kind.
-/
namespace LiveTypes

/-- A type. -/
structure Ty where
  /-- What tells this type from every other type. -/
  id : Nat
  identifier : String
  name : String
deriving DecidableEq, Inhabited

namespace Ty

/-- A type that only occurs in messages. Nothing tells it from another one with its identifier. -/
def anonymous (identifier : String) : Ty := ⟨0, identifier, identifier⟩

def describe (t : Ty) : String := "Type(" ++ t.identifier ++ ")"

end Ty

/-- The kind of an edge. -/
inductive EdgeKind where
  /-- The source is a sub-type of the target. -/
  | subType
  /-- Values of the source convert implicitly to the target. -/
  | implicitConversion
  /-- A relation that only the host knows. -/
  | other (name : String)
deriving DecidableEq

namespace EdgeKind

def describe : EdgeKind → String
  | .subType => "SubType"
  | .implicitConversion => "ImplicitConversion"
  | .other name => "Other(" ++ Text.quoted name ++ ")"

/-- Whether assignability follows edges of this kind. -/
def carriesValues : EdgeKind → Bool
  | .subType => true
  | .implicitConversion => true
  | .other _ => false

end EdgeKind

/-- An edge between two types. -/
structure Edge where
  source : Ty
  target : Ty
  kind : EdgeKind
deriving DecidableEq

namespace Edge

/-- Whether a type stands at either end. -/
def touches (e : Edge) (t : Ty) : Bool := e.source = t || e.target = t

def describe (e : Edge) : String :=
  "TypeEdge \x7b from: " ++ e.source.describe ++ ", to: " ++ e.target.describe ++ ", kind: " ++
    e.kind.describe ++ " \x7d"

end Edge
end LiveTypes
