import LiveTypes.Engine.Keeping
import LiveTypes.Session.Selector

/-!
# Scripted sessions: what still exists

An observer exists while it has a handle, while it is in the listener list of a reference that
exists, while a running pass has yet to call it or is calling it, and while a step works with it. A
reference exists while it or a view of it has a handle, while the selector of a reference that exists
names it, and while work under way needs it or a selector that leads to it. A type system exists while
it has a handle, while a reference that exists belongs to it, and while work under way needs it.
-/
namespace LiveTypes.Session

/-- Mark the references reached from some of them through their selectors. Each look takes fuel. -/
def markReferences (s : Session) : Nat → List ReferenceId → Array Bool → Array Bool
  | 0, _, marks => marks
  | _, [], marks => marks
  | fuel + 1, r :: rest, marks =>
    if marks.getD r true then s.markReferences fuel rest marks
    else
      s.markReferences fuel (s.selectorKeeps (s.engine.selectorOf r) ++ rest) (marks.set! r true)

/-- The references that exist. A selector names at most one, which bounds the looks. -/
def existingReferences (s : Session) : List ReferenceId :=
  let kept := s.kept.filterMap fun
    | .reference r => some r
    | _ => none
  let roots := s.references.map (·.2) ++ s.views.map (·.2) ++ kept ++
    s.engine.stack.flatMap Frame.references ++
    (s.engine.stack.flatMap Frame.selectors).flatMap s.selectorKeeps
  let count := s.engine.references.length
  let marks := s.markReferences (roots.length + count) roots (Array.replicate count false)
  (List.range count).filter (marks.getD · false)

/-- The observers that exist, given the references that do. -/
def existingObservers (s : Session) (references : List ReferenceId) : List Observer :=
  let kept := s.kept.filterMap fun
    | .observer o => some o
    | _ => none
  let listening := references.flatMap fun r =>
    match s.engine.references[r]? with
    | some reference => reference.listeners
    | none => []
  s.observers.map (·.2) ++ kept ++ listening ++ s.engine.stack.flatMap Frame.observers

/-- The type systems that exist, given the references that do. -/
def existingSystems (s : Session) (references : List ReferenceId) : List SystemId :=
  let kept := s.kept.filterMap fun
    | .system sys => some sys
    | _ => none
  let owning := references.filterMap fun r => s.engine.references[r]?.map (·.system)
  s.systems.map (·.2) ++ kept ++ owning ++ s.engine.stack.flatMap Frame.systems

/-- Whether everything has a handle or is known to be gone, so that nothing can have ceased to exist.
An observer that is gone has no handle. -/
def isSettled (s : Session) : Bool :=
  s.engine.gone.length + s.observers.length = s.observerScripts.size &&
    s.systems.length = s.engine.systems.length

/-- Let the engine know of everything that no longer exists. -/
def sweep (s : Session) : Session :=
  if s.isSettled then s
  else
    let references := s.existingReferences
    let observers := s.existingObservers references
    let systems := s.existingSystems references
    let engine := (List.range s.observerScripts.size).foldl (fun e tag =>
      if observers.contains ⟨tag⟩ then e else e.forget ⟨tag⟩) s.engine
    let engine := (List.range engine.systems.length).foldl (fun e sys =>
      if systems.contains sys then e else e.retire sys) engine
    { s with engine }

end LiveTypes.Session
