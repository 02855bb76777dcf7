import StagedAsm.Session.Inspection
import StagedAsm.Session.Expressions

/-!
# Scripts on sections

Commands that work on sections alone, without an engine. Sections are numbered, and two of them
may share a sink.
-/

namespace StagedAsm

inductive SectionCommand where
  | accept (number : Nat) (text : String)
  | defer (number : Nat) (line : LineExpr)
  | fire (number : Nat)
  | close (number : Nat)
  | setCell (name : String) (value : Option String)
  | sameSink (first second : Nat)

structure SectionView where
  pending : Nat
  bufferedBytes : Nat
  sinkText : String

inductive SectionAnswer where
  | nothing
  | flag (b : Bool)
  | state (outcome : Except CompileError Unit) (view : SectionView)

abbrev Sections := Array Section

def Sections.update (sections : Sections) (number : Nat)
    (f : Section → CompileM (Section × Except CompileError Unit)) :
    CompileM (SectionAnswer × Sections) := do
  let (changed, outcome) ← f (sections.getD number default)
  let view :=
    { pending := changed.pending
      bufferedBytes := changed.bufferedBytes
      sinkText := (← get).sinks.getD changed.sink.index "" }
  return (.state outcome view, sections.setIfInBounds number changed)

def closeSection (s : Section) : CompileM (Section × Except CompileError Unit) := do
  match s.close with
  | .ok (text, closed) =>
    modify fun session =>
      { session with sinks := session.sinks.modify s.sink.index (· ++ text) }
    return (closed, .ok ())
  | .error e => return (s, .error e)

def SectionCommand.run (sections : Sections) :
    SectionCommand → CompileM (SectionAnswer × Sections)
  | accept number text => sections.update number fun s => return (s.accept text, .ok ())
  | defer number line => do
    let line ← evalLine findNothing line
    sections.update number fun s => return (s.defer line, .ok ())
  | fire number => sections.update number fun s => do
    let (fired, outcome) := s.fire (← get).renderLine
    return (fired, ← keepError outcome)
  | close number => sections.update number closeSection
  | setCell name value => do
    modify fun s => { s with cells := s.cells.set name value }
    return (.nothing, sections)
  | sameSink first second =>
    let first := sections.getD first default
    let second := sections.getD second default
    return (.flag (first.sink == second.sink), sections)

def runSectionCommands (sections : Sections) :
    List SectionCommand → CompileM (List SectionAnswer)
  | [] => pure []
  | command :: rest => do
    let (answer, sections) ← command.run sections
    return answer :: (← runSectionCommands sections rest)

/-- Each section writes to the sink with the given number. -/
def runSectionScript (sinks : List Nat) (commands : List SectionCommand) :
    CompileM (List SectionAnswer) := do
  modify fun s => { s with sinks := Array.replicate (sinks.foldl max 0 + 1) "" }
  runSectionCommands (sinks.map fun sink => { sink := ⟨sink⟩ }).toArray commands

end StagedAsm
