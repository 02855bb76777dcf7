import StagedAsm.Run.Compile

/-!
# Scripts and listings

A script compiles programs, runs single commands, or continues from a snapshot on a new engine. An
error is the answer of its step; later steps find everything as the error left it. A listing is what
one program comes to, with the builtin types and the Kernel32 imports in front.
-/

namespace StagedAsm

/-- A template that instantiates itself with new arguments for ever is stopped here. -/
def nestingLimit : Nat := 1000000

/-- Makes an engine with sinks of its own. -/
def startEngine (sections : List String) : CompileM EngineId := do
  let first := (← get).sinks.size
  modify fun s => { s with sinks := s.sinks ++ (sections.map fun _ => "").toArray }
  let sections := sections.zipIdx.map fun entry => (entry.1, { sink := ⟨first + entry.2⟩ })
  newEngine { sections, scopes := [ScopeTree.root] }

inductive ScriptStep where
  | compile (engine : String) (program : List Statement) (upTo : Pass)
  | compilePrepared (engine program : String) (upTo : Pass)
  | command (engine : String) (command : Command)
  | fork (handle engine : String)

def ScriptStep.engineName : ScriptStep → String
  | compile engine _ _ => engine
  | compilePrepared engine _ _ => engine
  | command engine _ => engine
  | fork _ engine => engine

inductive StepAnswer where
  | compiled (actions : Nat)
  | observed (answer : Observation)
  deriving Inhabited

/-- A step with its answer, where its engine stands, and what happened meanwhile. -/
structure StepReport where
  outcome : Except CompileError StepAnswer
  place : Place
  log : List LogEntry

structure Script where
  sections : List String := defaultSections
  settings : Settings := {}
  programs : List (String × List Statement) := []
  steps : List ScriptStep := []

structure ScriptReport where
  steps : List StepReport
  output : List (String × String)
  scopeCount : Nat

structure ScriptNames where
  engines : Dictionary EngineId
  programs : Dictionary Program

def ScriptNames.engine (names : ScriptNames) (name : String) : CompileM EngineId :=
  match names.engines.get? name with
  | some e => pure e
  | none => throw (.meaningless ("engine " ++ name))

/-- A step may add an engine. -/
def ScriptStep.run (names : ScriptNames) : ScriptStep → CompileM (StepAnswer × ScriptNames)
  | compile engine statements upTo => do
    let e ← names.engine engine
    let program ← buildProgram statements
    (e.runner nestingLimit).compile program upTo
    return (.compiled program.length, names)
  | compilePrepared engine name upTo => do
    let e ← names.engine engine
    match names.programs.get? name with
    | none => throw (.meaningless ("program " ++ name))
    | some program =>
      (e.runner nestingLimit).compile program upTo
      return (.compiled program.length, names)
  | command engine c => do
    let e ← names.engine engine
    return (.observed (← (e.runner nestingLimit).runCommand c), names)
  | fork handle engine => do
    let snapshot ← fetch Bindings.snapshots handle
    let (e, _) ← StagedAsm.fork snapshot
    return (.observed .nothing, { names with engines := names.engines.set engine e })

/-- What happened since the log was last taken, in order. -/
def takeLog : CompileM (List LogEntry) :=
  modifyGet fun s => (s.log.reverse, { s with log := [] })

/-- Runs a step and reports on it, whether it succeeds or not. -/
def ScriptStep.perform (names : ScriptNames) (step : ScriptStep) :
    CompileM (StepReport × ScriptNames) := do
  let outcome ← attempt (step.run names)
  let names := match outcome with
    | .ok (_, names) => names
    | .error _ => names
  let log ← takeLog
  let place ← (← names.engine step.engineName).place
  return ({ outcome := outcome.map Prod.fst, place, log }, names)

def runSteps (names : ScriptNames) : List ScriptStep → CompileM (List StepReport)
  | [] => pure []
  | step :: rest => do
    let (report, names) ← step.perform names
    return report :: (← runSteps names rest)

def buildPrograms : List (String × List Statement) → CompileM (Dictionary Program)
  | [] => pure ∅
  | (name, statements) :: rest => do
    let program ← buildProgram statements
    return (← buildPrograms rest).set name program

def sectionOutputs (e : EngineId) : List String → CompileM (List (String × String))
  | [] => pure []
  | name :: rest => do
    let text := (← e.output? name).getD ""
    return (name, text) :: (← sectionOutputs e rest)

/-- Sets up the first engine and the programs. -/
def Script.start (script : Script) : CompileM (EngineId × ScriptNames) := do
  modify fun s => { s with settings := script.settings }
  let main ← startEngine script.sections
  let programs ← buildPrograms script.programs
  return (main, { engines := (∅ : Dictionary EngineId).set "main" main, programs })

def Script.run (script : Script) : CompileM ScriptReport := do
  let (main, names) ← script.start
  let steps ← runSteps names script.steps
  let output ← sectionOutputs main script.sections
  return { steps, output, scopeCount := (← get).tree.size }

def listingHeaders : List (String × String) :=
  [(programSection, "section .text"), (dataSection, "section .data"),
    (uninitialisedSection, "section .bss")]

def listingText (e : EngineId) : List (String × String) → CompileM String
  | [] => pure ""
  | (name, header) :: rest => do
    let text := (← e.output? name).getD ""
    return header ++ "\n" ++ text ++ (← listingText e rest)

def assemble (settings : Settings) (statements : List Statement) : CompileM String := do
  modify fun s => { s with settings }
  let program ← buildProgram statements
  let e ← startEngine defaultSections
  (e.runner nestingLimit).compile (.builtins :: .kernel32 :: program) .generate
  listingText e listingHeaders

end StagedAsm
