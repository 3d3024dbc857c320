import LiveTypes.Diagnostic.Basic
import LiveTypes.Table
import LiveTypes.TypeGraph.Ty

/-!
# The type graph: `add_type_with_key`, `remove_type`, `add_edge`, `remove_edge`

The types that are registered, each under a key, the keys in the order of registration, and the edges
between types. A key holds one type and a type lives under one key. This module has the data and the
single changes; who is told about a change is the engine's business.
-/
namespace LiveTypes

/-- Why a change of the graph is refused. -/
inductive GraphError where
  /-- The key holds another type. -/
  | duplicateKey (key : String)
  /-- The type is registered under this other key. -/
  | alreadyRegistered (key : String)
  /-- An end of the edge, named by its identifier, is not registered. -/
  | missingEndpoint (identifier : String)
deriving DecidableEq

namespace GraphError

def message : GraphError → String
  | .duplicateKey key => "a different type is already registered under the key `" ++ key ++ "`"
  | .alreadyRegistered key => "this type is already registered under the key `" ++ key ++ "`"
  | .missingEndpoint identifier =>
    "edge endpoint `" ++ identifier ++ "` is not part of the type graph"

def code : GraphError → Code
  | .duplicateKey _ => .duplicateTypeKey
  | .alreadyRegistered _ => .duplicateTypeKey
  | .missingEndpoint _ => .missingEdgeEndpoint

/-- A diagnostic at the declaration that caused the error: `to_diagnostic`. -/
def diagnostic (e : GraphError) (span : Span) : Diagnostic :=
  ({ severity := .error, kind := .graph, span, message := e.message : Diagnostic }.withCode
    e.code).withLabel ⟨span, e.code.description⟩

end GraphError

/-- The registered types. -/
structure Nodes where
  /-- The type under each key. -/
  byKey : Table Ty := []
  /-- The keys in the order of registration. -/
  order : List String := []

namespace Nodes

/-- Put a type under a key, as the latest. -/
def insert (n : Nodes) (key : String) (t : Ty) : Nodes :=
  { byKey := n.byKey.insert key t, order := n.order ++ [key] }

/-- Free a key, whatever it holds. -/
def erase (n : Nodes) (key : String) : Nodes :=
  { byKey := n.byKey.erase key, order := n.order.filter (· ≠ key) }

end Nodes

/-- Registered types, and edges in the order in which they came. -/
structure Graph where
  nodes : Nodes := {}
  edges : List Edge := []

namespace Graph

/-! ## Looking -/

/-- The type under a key: `get_type`. -/
def get? (g : Graph) (key : String) : Option Ty := g.nodes.byKey.find? key

/-- The key of a registered type: `key_of`. -/
def keyOf? (g : Graph) (t : Ty) : Option String := g.nodes.order.find? (g.get? · = some t)

/-- Whether a type is registered. -/
def contains (g : Graph) (t : Ty) : Bool := g.nodes.byKey.any (·.2 = t)

/-- All types, in the order of registration. -/
def types (g : Graph) : List Ty := g.nodes.order.filterMap g.get?

/-- The edges that leave a type: `outgoing_edges`. -/
def outgoing (g : Graph) (t : Ty) : List Edge := g.edges.filter (·.source = t)

/-- The edges that touch a type at either end, which `remove_type` removes first. -/
def incident (g : Graph) (t : Ty) : List Edge := g.edges.filter (·.touches t)

/-! ## Changing -/

/-- What an addition comes to: a refusal, nothing to do, or a changed graph. -/
inductive Addition where
  | refused (error : GraphError)
  | present
  | added (graph : Graph)

/-- Register a type under a key. Registering it again under its own key does nothing. This is the change
that `add_type_with_key` makes. -/
def addType (g : Graph) (t : Ty) (key : String) : Addition :=
  match g.get? key with
  | some holder => if holder = t then .present else .refused (.duplicateKey key)
  | none =>
    match g.keyOf? t with
    | some other => .refused (.alreadyRegistered other)
    | none => .added { g with nodes := g.nodes.insert key t }

/-- Free a key, whatever it holds. -/
def freeKey (g : Graph) (key : String) : Graph := { g with nodes := g.nodes.erase key }

/-- Connect two registered types. Adding an edge that exists does nothing. This is the change that
`add_edge` makes. -/
def addEdge (g : Graph) (e : Edge) : Addition :=
  if !g.contains e.source then .refused (.missingEndpoint e.source.identifier)
  else if !g.contains e.target then .refused (.missingEndpoint e.target.identifier)
  else if e ∈ g.edges then .present
  else .added { g with edges := g.edges ++ [e] }

/-- Remove an edge. -/
def eraseEdge (g : Graph) (e : Edge) : Graph := { g with edges := g.edges.erase e }

end Graph
end LiveTypes
