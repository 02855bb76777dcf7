import StagedAsm.Engine.Scopes

/-!
# Frames and output of an engine

The frame of the current function, and the lines that go to the sections. A line that addresses
the frame waits until the frame has its final size; setting that size releases it.
-/

namespace StagedAsm

namespace Section

/-- Announces frame sizes to sections in their order, until one fails. -/
def fireAll (render : Line → Except Fault (Option String)) :
    List (String × Section) → List (String × Section) × Except Fault Unit
  | [] => ([], .ok ())
  | (name, s) :: rest =>
    match s.fire render with
    | (s, .ok ()) =>
      let (rest, outcome) := fireAll render rest
      ((name, s) :: rest, outcome)
    | (s, .error fault) => ((name, s) :: rest, .error fault)

/-- Hands the texts of sections to their sinks in order, until one fails. -/
def closeAll (sinks : Array String) :
    List (String × Section) → List (String × Section) × Array String × Except CompileError Unit
  | [] => ([], sinks, .ok ())
  | (name, s) :: rest =>
    match s.close with
    | .ok (text, s) =>
      let (rest, sinks, outcome) := closeAll (sinks.modify s.sink.index (· ++ text)) rest
      ((name, s) :: rest, sinks, outcome)
    | .error e => ((name, s) :: rest, sinks, .error e)

def modifyFirst (name : String) (f : Section → Section) :
    List (String × Section) → List (String × Section)
  | [] => []
  | (other, s) :: rest =>
    if other = name then (other, f s) :: rest else (other, s) :: modifyFirst name f rest

end Section

namespace EngineId

/-! ## Frames -/

def frame (e : EngineId) (operation : String) : CompileM FrameId := do
  e.requireLocal operation
  match (← e.scope).frame with
  | some frame => pure frame
  | none => fail .localWithoutFrame

def frameState (e : EngineId) (operation : String) : CompileM Frame := do
  let id ← e.frame operation
  return (← get).tree.frame id

def currentFrame (e : EngineId) : CompileM FrameId := e.frame "obtain the current stack frame"

def stackSize (e : EngineId) : CompileM UInt32 := do
  e.requirePass .generate "obtain the stack size"
  ofExcept (← e.frameState "obtain the stack size").finalSize

/-- Sets the final size of the frame and releases the lines that wait for it. -/
def setStackSize (e : EngineId) (size : UInt32) : CompileM Unit := do
  e.requirePass .generate "set the stack size"
  let frame ← e.frame "set the stack size"
  onTree (ScopeTree.updateFrame frame ((FrameM.setSize size).adaptExcept .error))
  let s ← get
  let (sections, outcome) := Section.fireAll s.renderLine (s.engine e).sections
  modifyEngine e fun engine => { engine with sections }
  ofFault outcome

/-- The largest extent of the frame so far. -/
def maxStackSize (e : EngineId) : CompileM UInt32 := do
  return (← e.frameState "obtain the max stack size").extent

/-- The distance of the stack pointer from where it stood on entry. -/
def stackPointer (e : EngineId) : CompileM Int := do
  return (← e.frameState "obtain the stack pointer").pointer

def movePointer (e : EngineId) (delta : Int) : CompileM Unit := do
  let frame ← e.frame "move the stack pointer"
  e.requirePass .generate "move the stack pointer"
  onTree (ScopeTree.updateFrame frame (FrameM.move delta))

/-- Records that the current function calls another. -/
def declareCall (e : EngineId) : CompileM Unit := do
  if ← e.isLocal then
    let frame ← e.frame "declare a call"
    onTree (ScopeTree.updateFrame frame ((FrameM.setLeaf false).adaptExcept .error))

def isLeaf (e : EngineId) : CompileM Bool := do
  return (← e.frameState "test whether the function is a leaf").isLeaf

/-! ## Lines -/

def requireSection (e : EngineId) (name : String) : CompileM Unit := do
  if !((← e.state).sections.any fun entry => entry.1 == name) then
    fail (.unknownSection name)

def modifySection (e : EngineId) (name : String) (f : Section → Section) : CompileM Unit :=
  modifyEngine e fun engine =>
    { engine with sections := Section.modifyFirst name f engine.sections }

/-- Aliases mean the registers they name now; a line that addresses the frame waits. -/
def emit (e : EngineId) (line : Line) (name : String) : CompileM Unit := do
  e.requireSection name
  let s ← get
  let line := s.pinAliases line
  if line.addressesFrame then e.modifySection name (·.defer line)
  else
    match ← ofFault (s.renderLine line) with
    | some text => e.modifySection name (·.accept text)
    | none => pure ()

def emitText (e : EngineId) (text name : String) : CompileM Unit :=
  e.emit (Line.ofText text) name

/-- Emits a line that waits for the size of the frame. -/
def emitDeferred (e : EngineId) (line : Line) (name : String) : CompileM Unit := do
  e.requireSection name
  e.modifySection name (·.defer line)

/-- The text a section handed to its sink so far. -/
def output? (e : EngineId) (name : String) : CompileM (Option String) := do
  let s ← get
  return ((s.engine e).sections.find? fun entry => entry.1 == name).map fun entry =>
    s.sinks.getD entry.2.sink.index ""

def closeSections (e : EngineId) : CompileM Unit := do
  let s ← get
  let (sections, sinks, outcome) := Section.closeAll s.sinks (s.engine e).sections
  modify fun s => { s with sinks }
  modifyEngine e fun engine => { engine with sections }
  ofExcept outcome

end EngineId

end StagedAsm
