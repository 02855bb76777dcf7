import StagedAsm.Run.Operands
import StagedAsm.Win64.Shuffle

/-!
# Calls and returns

The first four arguments travel in registers, the others on the stack above a shadow area for the
first four; the result comes back in `rax`. A return releases the frame, whose size is known only
when the whole function was generated.
-/

namespace StagedAsm.Win64

def parameterRegisters : List GeneralRegister := [.rcx, .rdx, .r8, .r9]

/-- The least stack area a caller reserves for arguments. -/
def shadowSpace : Int := 32

def argumentArea (count : Nat) : Int := max (8 * count) shadowSpace

/-- The form of an operand that is no address. -/
def directForm (operand : Operand) : CompileM Line := do
  match ← ofExcept operand.form? with
  | some line => pure line
  | none => fail (.needsAddressLoad (← ofFault ((← get).lineText operand.text)))

def plainText (line : Line) : CompileM String := do
  ofFault ((← get).lineText line)

def textThen (text : String) (line : Line) : Line := .ofText text :: line

/-- Arguments past the registers, with their numbers. -/
def stackArguments (arguments : List Operand) : List (Nat × Operand) :=
  (arguments.zipIdx.drop parameterRegisters.length).map fun entry => (entry.2, entry.1)

def registerArguments (arguments : List Operand) : List (GeneralRegister × Operand) :=
  parameterRegisters.zip arguments

def keyword (size : Size) : Except CompileError String :=
  match size.keyword? with
  | some keyword => .ok keyword
  | none => .error .sizeWithoutKeyword

/-- Registers and constants are stored before any register is overwritten. -/
def storeDirect (e : EngineId) : List (Nat × Operand) → CompileM Unit
  | [] => pure ()
  | (number, argument) :: rest => do
    if argument.isDirect then
      let size ← ofExcept (keyword argument.size)
      let form ← directForm argument
      e.emit (textThen s!"mov {size} [rsp + {number * 8}]," form) programSection
    storeDirect e rest

/-- A byte is moved with the word around it, since not every register has byte names. -/
def argumentMove (place : GeneralRegister) (r : Register) : Except CompileError Move := do
  let source ← if r.size = .byte then r.resize .word else pure r
  let target ← (RegisterBase.general place).part source.size
  return { source, target }

def argumentMoves : List (GeneralRegister × Operand) → Except CompileError (List Move)
  | [] => .ok []
  | (place, .register r) :: rest => do
    let move ← argumentMove place r
    return move :: (← argumentMoves rest)
  | _ :: rest => argumentMoves rest

def emitTexts (e : EngineId) : List String → CompileM Unit
  | [] => pure ()
  | text :: rest => do
    e.emitText text programSection
    emitTexts e rest

def emitLines (e : EngineId) : List Line → CompileM Unit
  | [] => pure ()
  | line :: rest => do
    e.emit line programSection
    emitLines e rest

/-- Brings the bytes down that were moved in the upper half of a word. -/
def highByteLines : List (GeneralRegister × Operand) → List Line
  | [] => []
  | (place, .register r) :: rest =>
    if r.isHighByte then
      Line.ofText s!"shr {place.nameAt .word}, 8" :: highByteLines rest
    else highByteLines rest
  | _ :: rest => highByteLines rest

/-- Loads the register arguments that are in no register yet. -/
def loadLines : List (GeneralRegister × Operand) → CompileM (List Line)
  | [] => pure []
  | (place, argument) :: rest => do
    match argument with
    | .register _ => loadLines rest
    | .reference address =>
      return textThen s!"lea {place.name}," address :: (← loadLines rest)
    | _ =>
      let target ← ofExcept (Operand.ofRegisterPart place.name argument.size true)
      let targetText ← plainText (← directForm target)
      let form ← directForm (← resizeOperand argument target.size)
      return textThen s!"mov {targetText}," form :: (← loadLines rest)

/-- Stack arguments in memory, and addresses, go by way of `rax`. -/
def spillLines : List (Nat × Operand) → CompileM (List Line)
  | [] => pure []
  | (number, argument) :: rest => do
    match argument with
    | .memory size _ =>
      let rax ← ofExcept (Register.ofBaseName "rax" size)
      let form ← directForm argument
      return textThen s!"mov {rax.name}," form ::
        Line.ofText s!"mov [rsp + {number * 8}], {rax.name}" :: (← spillLines rest)
    | .reference address =>
      return textThen "lea rax," address ::
        Line.ofText s!"mov [rsp + {number * 8}], rax" :: (← spillLines rest)
    | _ => spillLines rest

/-- The place of results, or a low part of it. -/
def isResultRegister : Operand → Bool
  | .register r => r.base == .general .rax && !r.isHighByte
  | _ => false

def storeResult (e : EngineId) (target : Operand) : CompileM Unit := do
  if target.isReference then fail .returnIntoAddress
  if target.register? = some (.highByte .a) then e.emitText "shl ax, 8" programSection
  else if isResultRegister target then pure ()
  else
    let rax ← ofExcept (Register.ofBaseName "rax" target.size)
    let form ← directForm target
    e.emit (textThen "mov" (form ++ [.ofText ",", .ofText rax.name])) programSection

/-- The one place for the result of a call, if any. -/
def returnTarget : List Operand → Except CompileError (Option Operand)
  | [] => .ok none
  | [target] => .ok (some target)
  | _ => .error .severalReturnTargets

def call (e : EngineId) (site : CallSite) : CompileM Unit := do
  let target ← ofExcept (returnTarget site.targets)
  let area := argumentArea site.arguments.length
  e.movePointer (-area)
  storeDirect e (stackArguments site.arguments)
  let moves ← ofExcept (argumentMoves (registerArguments site.arguments))
  let steps ← ofExcept (shuffle moves)
  emitTexts e (steps.map ShuffleStep.text)
  let loads ← loadLines (registerArguments site.arguments)
  let spills ← spillLines (stackArguments site.arguments)
  emitLines e (highByteLines (registerArguments site.arguments) ++ loads ++ spills)
  e.emit (textThen "call" site.callee.text) programSection
  e.movePointer area
  match target with
  | some target => storeResult e target
  | none => pure ()

/-- A line that moves the stack pointer by the size of the frame. -/
def frameAdjustment (frame : FrameId) (instruction : String) (inPrologue : Bool) :
    CompileM Line := do
  return [← newDeferred (.frameAdjustment frame instruction inPrologue)]

def loadResult (e : EngineId) (value : Operand) : CompileM Unit := do
  match value with
  | .reference address => e.emit (textThen "lea rax," address) programSection
  | _ =>
    if !isResultRegister value then
      let rax ← ofExcept (Register.ofBaseName "rax" value.size)
      let form ← directForm value
      e.emit (textThen s!"mov {rax.name}," form) programSection

def ret (e : EngineId) (value : Option Operand) : CompileM Unit := do
  if let some value := value then loadResult e value
  let frame ← e.currentFrame
  e.emitDeferred (← frameAdjustment frame "add" false) programSection
  e.emitText "ret" programSection

end StagedAsm.Win64
