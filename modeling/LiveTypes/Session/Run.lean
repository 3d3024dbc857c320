import LiveTypes.Session.Respond

/-!
# Scripted sessions: running

A call of the engine runs until its result is there; every question in between is answered by the
scripts, which may call the engine again. Fuel bounds the work of one call and the nesting of calls.
-/
namespace LiveTypes.Session

/-! ## Moving the engine -/

/-- Take over a new state of the engine. Its log becomes events as far as the session keeps a log;
the result of the latest call is handed on. -/
def adopt (s : Session) (engine : Engine Node) : Session × Option (Result Node) :=
  engine.trace.foldl (fun (s, result) report =>
    match report with
    | .log entry =>
      if s.logLevel.any (·.shows entry.level) then
        ({ s with events := s.events.push (logJson entry) }, result)
      else (s, result)
    | .ask _ => (s, result)
    | .finish result => (s, some result)) ({ s with engine := { engine with trace := [] } }, none)

/-- Why the engine stopped. -/
inductive Pause where
  | question (question : Question Node)
  | finished (result : Result Node)
  | exhausted

/-- Let the engine work until it asks something or finishes the latest call. -/
def advance : Nat → Session → Session × Pause
  | 0, s => (s, .exhausted)
  | fuel + 1, s =>
    let s := if s.engine.stack.head?.any Frame.notifies then s.sweep else s
    match s.engine.move? .work with
    | some engine =>
      match s.adopt engine with
      | (s, some result) => (s, .finished result)
      | (s, none) => advance fuel s
    | none =>
      match s.engine.question? with
      | some question => (s, .question question)
      | none => (s, .exhausted)

/-- Bring the latest call to its end, answering what the engine asks. -/
def complete (respond : Question Node → Run (Answer Node)) (fuel : Nat) : Nat → Run (Result Node)
  | 0 => throw .exhausted
  | questions + 1 => do
    match ← modifyGet fun s => let (s, pause) := advance fuel s; (pause, s) with
    | .finished result => return result
    | .exhausted => throw .exhausted
    | .question question =>
      let a ← respond question
      match (← get).engine.move? (.answer a) with
      | none => throw .exhausted
      | some engine =>
        match ← modifyGet fun s => let (s, result) := s.adopt engine; (result, s) with
        | some result => return result
        | none => complete respond fuel questions

/-- Call the engine. Calls from inside a callback are nested; `depth` bounds the nesting. -/
def performTo (fuel : Nat) : Nat → Perform
  | 0, _ => throw .exhausted
  | depth + 1, call => do
    modify sweep
    match (← get).engine.move? (.call call) with
    | none => throw .exhausted
    | some engine =>
      match ← modifyGet fun s => let (s, result) := s.adopt engine; (result, s) with
      | some result => return result
      | none => complete (respond (performTo fuel depth)) fuel fuel

/-! ## Whole sessions -/

/-- The level of the log that a session keeps. -/
def logLevelOf? (j : Json) : Option LogLevel :=
  match (j.field "log").str? with
  | some "warn" => some .warn
  | some "debug" => some .debug
  | some "trace" => some .trace
  | _ => none

/-- One step of the script and what was observed during it. -/
def recordStep (perform : Perform) (withState : Bool) (j : Json) : Run Json := do
  modify fun s => { s with events := #[] }
  let result ← answerStep perform j
  let s ← get
  let events := if s.events.isEmpty then [] else [("ev", Json.arr s.events.toList)]
  let state := if withState then [("st", s.stateJson)] else []
  return .obj ([("r", result)] ++ events ++ state)

/-- Run a whole script. -/
def runScript (perform : Perform) (j : Json) : Run Json := do
  newSystem perform "main" j
  modify fun s => { s with logLevel := logLevelOf? j }
  let withState := (j.field "state").bool?.getD false
  let steps ← (← j.arrayAt "steps").mapM (recordStep perform withState)
  return .obj [("steps", .arr steps), ("end", (← get).stateJson)]

/-- Fuel for a session: more than any script can use up. -/
def plenty : Nat := 1 <<< 40

/-- The answer to a session, or why there is none. -/
def run (j : Json) : Except Fault Json :=
  ((runScript (performTo plenty plenty) j).run.run {}).1

end LiveTypes.Session
