import LiveTypes.Session.State

/-!
# Scripted sessions: selectors

Selectors as steps write them. A deferred selector keeps the selector that it was made from; a
variable is looked up each time it is expanded.
-/
namespace LiveTypes.Session

def badSelector {α : Type} : Run α := throw (.badStep "bad selector")

/-- Put a selector behind so many deferrals. -/
def defer (deferrals : Nat) (selector : Selector Node) : Run (Selector Node) := do
  match deferrals with
  | 0 => return selector
  | further + 1 => return .deferred (← newExpansion (.fixed further selector))

/-- The handle at a place of an array; what is missing there has the empty handle. -/
def handleIn (items : List Json) (index : Nat) : String := (items[index]?.bind Json.str?).getD ""

/-- Build a selector nested at most `depth` levels deep. A member names the kind of selector; of
several, the first kind counts whose member fits it. -/
def buildSelectorTo : Nat → Json → Run (Selector Node)
  | 0, _ => badSelector
  | depth + 1, j => do
    if let some handle := (j.field "type").str? <|> (j.field "type_ref").str? then
      return .type (← typeNamed handle)
    else if let some key := (j.field "id").str? <|> (j.field "id_owned").str? then
      return .identifier key
    else if let some handles := (j.field "init").arr? then
      let initial ← typeNamed (handleIn handles 0)
      let final ← typeNamed (handleIn handles 1)
      return .initializer (← newInitializer initial final)
    else if (j.field "ref").str?.isSome then return .reference (← handleAt (·.references) j "ref")
    else if (j.field "view").str?.isSome then return .reference (← handleAt (·.views) j "view")
    else if !(j.field "node").isNull then return .node (← j.nodeAt "node")
    else if !(j.field "clone").isNull then buildSelectorTo depth (j.field "clone")
    else if !(j.field "defer").isNull then
      defer ((j.field "times").nat?.getD 1) (← buildSelectorTo depth (j.field "defer"))
    else if let some name := (j.field "var").str? then
      return .deferred (← newExpansion (.lookup name))
    else badSelector

/-- Build a selector. -/
def buildSelector (j : Json) : Run (Selector Node) := buildSelectorTo (j.depth + 1) j

/-- The references that a selector keeps in existence, through at most `depth` expansions. -/
def selectorKeepsTo (s : Session) : Nat → Selector Node → List ReferenceId
  | _, .reference r => [r]
  | depth + 1, .deferred d =>
    match s.expansions[d.tag]? with
    | some (.fixed _ selector) => s.selectorKeepsTo depth selector
    | _ => []
  | _, _ => []

/-- The references that a selector keeps in existence. -/
def selectorKeeps (s : Session) (selector : Selector Node) : List ReferenceId :=
  s.selectorKeepsTo (s.expansions.size + 1) selector

end LiveTypes.Session
