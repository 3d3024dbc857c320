import LiveTypes.TypeGraph.Basic

/-!
# Assignability: `reaches`

A type is assignable to another if a path of edges that carry values leads from the one to the other.
`Graph.reaches` searches breadth first. A type that is visited hands over its outgoing edges: they
leave the list of edges still to follow, so the search ends after as many steps as there are edges,
whatever cycles they form.
-/
namespace LiveTypes

/-- The edges that do not leave a type. -/
def edgesElsewhere (t : Ty) (edges : List Edge) : List Edge := edges.filter (·.source ≠ t)

/-- The types that a value of a type can become by one edge. -/
def successors (t : Ty) (edges : List Edge) : List Ty :=
  (edges.filter fun e => e.source = t && e.kind.carriesValues).map (·.target)

/-- No edge is counted on both sides. -/
theorem length_elsewhere_add_successors (t : Ty) (edges : List Edge) :
    (edgesElsewhere t edges).length + (successors t edges).length ≤ edges.length := by
  induction edges with
  | nil => simp [edgesElsewhere, successors]
  | cons e es ih =>
    simp only [edgesElsewhere, successors, List.length_map] at ih ⊢
    by_cases h : e.source = t <;> by_cases k : e.kind.carriesValues <;> simp [h, k] at ih ⊢ <;> omega

/-- Search for `goal` from a queue of types, along edges that nobody has followed yet. -/
def reachesFrom (goal : Ty) (edges : List Edge) : List Ty → Bool
  | [] => false
  | current :: queue =>
    if current = goal then true
    else
      have := length_elsewhere_add_successors current edges
      reachesFrom goal (edgesElsewhere current edges) (queue ++ successors current edges)
termination_by queue => edges.length + queue.length
decreasing_by
  simp only [List.length_append, List.length_cons]
  omega

/-- Whether a path of edges that carry values leads from one type to another: `reaches`. -/
def Graph.reaches (g : Graph) (start goal : Ty) : Bool := reachesFrom goal g.edges [start]

end LiveTypes
