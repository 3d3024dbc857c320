import LiveTypes.Engine.State

/-!
# What work under way keeps in existence

The engine does not keep the listeners of the graph and of rule sets, but a frame keeps what it still
has to work with: a pass keeps the listeners in its queue and the one whose turn it is, a selection
keeps the selectors it has gone through, and a selection for a reference keeps that reference. A
dependent that a reference has yet to tell is not kept.
-/
namespace LiveTypes

/-- The reference that a selection is for. -/
def Purpose.keeps : Purpose → List ReferenceId
  | .resolution r => [r]
  | _ => []

namespace Frame

variable {ν : Type}

/-- Whether the next step of a frame may begin a pass over the graph's or a rule set's listeners. Only
then it matters who has ceased to exist. -/
def notifies : Frame ν → Bool
  | .typeRemoval _ _ _ => true
  | .ruleRemoval _ _ => true
  | _ => false

/-- The observers that a frame keeps. -/
def observers : Frame ν → List Observer
  | .graphPass _ queue => queue.filterMap fun
    | .observer o => some o
    | _ => none
  | .rulePass _ _ queue => queue.filterMap fun
    | .observer o => some o
    | _ => none
  | .referencePass _ _ queue => queue.filterMap fun
    | .observer o => some o
    | _ => none
  | .telling o _ => [o]
  | _ => []

/-- The references that a frame keeps. -/
def references : Frame ν → List ReferenceId
  | .deliver (.reference r) => [r]
  | .graphPass _ queue => queue.filterMap fun
    | .reference r => some r
    | _ => none
  | .rulePass _ _ queue => queue.filterMap fun
    | .reference r => some r
    | _ => none
  | .referencePass r _ _ => [r]
  | .restart r => [r]
  | .telling _ (.reference r _) => [r]
  | .selecting selection _ => selection.purpose.keeps
  | .expanding _ selection => selection.purpose.keeps
  | .initializing _ selection => selection.purpose.keeps
  | .inferring ⟨_, _, .selection selection, _, _⟩ => selection.purpose.keeps
  | .running _ ⟨_, _, .selection selection, _, _⟩ => selection.purpose.keeps
  | _ => []

/-- The selectors that a frame keeps. -/
def selectors : Frame ν → List (Selector ν)
  | .selecting selection selector => selector :: selection.trail
  | .expanding _ selection => selection.trail
  | .initializing _ selection => selection.trail
  | .inferring ⟨_, _, .selection selection, _, _⟩ => selection.trail
  | .running _ ⟨_, _, .selection selection, _, _⟩ => selection.trail
  | _ => []

/-- The type systems that a frame keeps. -/
def systems : Frame ν → List SystemId
  | .graphPass _ queue => queue.filterMap fun
    | .system s => some s
    | _ => none
  | .rulePass s _ _ => [s]
  | .ruleRemoval s _ => [s]
  | .selecting selection _ => [selection.system]
  | .expanding _ selection => [selection.system]
  | .initializing _ selection => [selection.system]
  | .inferring i => [i.system]
  | .running _ i => [i.system]
  | .relating check _ => [check.system]
  | .wording _ v => [v.check.system]
  | _ => []

end Frame
end LiveTypes
