import StagedAsm.Engine.Output
import StagedAsm.Literal
import StagedAsm.Run.Lookup

/-!
# Making operands and call sites

An argument becomes an operand once its path is looked up and its size is checked. String literals
become data and their address. A call site is a call whose operands fit the parameters.
-/

namespace StagedAsm

/-- The size has to be an actual one. -/
def sizedOperand (make : Size → Line → Operand) (size : Size) (text : Line) :
    CompileM Operand := do
  let operand := make size text
  if !size.isDefined then
    fail (.unsizedOperand operand.kindName (← ofFault ((← get).lineText text)))
  return operand

/-- An address stays as it is. -/
def resizeOperand (operand : Operand) (size : Size) : CompileM Operand :=
  match operand with
  | .register r => return .register (← ofExcept (r.resize size))
  | .reference _ => pure operand
  | .immediate _ text => sizedOperand .immediate size text
  | .memory _ address => sizedOperand .memory size address

def bracketed (symbol : Symbol) : Line := [.ofText "[", symbol, .ofText "]"]

namespace Argument

/-- Turns an argument called `name` into an operand of the expected type. -/
def toOperand (argument : Argument) (r : Runner) (name : String)
    (expected : Option ValueType) : CompileM Operand := do
  let wanted := (expected.map ValueType.size).filter Size.isDefined
  match argument with
  | .register text =>
    let parsed ← ofExcept (Register.parse text)
    check parsed.size wanted
    return .register parsed
  | .immediate text => sizedOperand .immediate (wanted.getD .qword) (Line.ofText text)
  | .memory path size =>
    let symbol ← r.find path
    if let some explicit := size then check explicit wanted
    let own := some ((← get).symbolSize symbol) |>.filter Size.isDefined
    match (size.or wanted).or own with
    | some size => sizedOperand .memory size (bracketed symbol)
    | none => fail (.operandSizeUnknown ((← get).pathText path) name)
  | .address path =>
    check .qword wanted
    return .reference (bracketed (← r.find path))
where
  check (found : Size) (wanted : Option Size) : CompileM Unit :=
    match wanted with
    | some wanted => if found ≠ wanted then fail (.operandSize name wanted found) else pure ()
    | none => pure ()

end Argument

namespace CallSite

def checkCount (callee : String) (parameters : List Parameter) (found : Nat) : CompileM Unit :=
  if parameters.length ≠ found then fail (.parameterCount callee parameters.length found)
  else pure ()

/-- Addresses fit everywhere. -/
def checkSizes : List (Parameter × Operand) → CompileM Unit
  | [] => pure ()
  | (parameter, argument) :: rest => do
    let wanted := parameter.type.size
    if !argument.isReference && wanted.isDefined && argument.size ≠ wanted then
      fail (.operandSize parameter.name wanted argument.size)
    checkSizes rest

/-- A call site, if the arguments fit the parameters. -/
def make (callee : Operand) (parameters : Option (List Parameter))
    (arguments targets : List Operand) : CompileM CallSite := do
  if let some parameters := parameters then
    checkCount (← ofFault ((← get).lineText callee.text)) parameters arguments.length
    checkSizes (parameters.zip arguments)
  return { callee, parameters, arguments, targets }

def resolveArguments (r : Runner) :
    List (Argument × Option Parameter) → CompileM (List Operand)
  | [] => pure []
  | (argument, parameter) :: rest => do
    let name := (parameter.map Parameter.name).getD "unnamed parameter"
    let operand ← argument.toOperand r name (parameter.map Parameter.type)
    return operand :: (← resolveArguments r rest)

def resolveTargets (r : Runner) : List Argument → CompileM (List Operand)
  | [] => pure []
  | target :: rest => do
    let operand ← target.toOperand r "return target" none
    return operand :: (← resolveTargets r rest)

def resolve (r : Runner) (target : Path) (arguments targets : List Argument) :
    CompileM CallSite := do
  let function ← r.find target
  let parameters := match function with
    | .function _ parameters => parameters
    | _ => none
  let paired ← match parameters with
    | some parameters => do
      checkCount ((← get).pathText target) parameters arguments.length
      pure (arguments.zip (parameters.map some))
    | none => pure (arguments.map (·, none))
  let operands ← resolveArguments r paired
  let targets ← resolveTargets r targets
  let callee ← sizedOperand .immediate .qword [function]
  make callee parameters operands targets

end CallSite

namespace EngineId

def stringLiteral (e : EngineId) (contents : String) : CompileM Operand := do
  let length := (← get).settings.stringLength
  let data ← ofExcept (Literal.encode contents)
  let label ← e.label "anonymous_string"
  let finish ← e.label "end_of_string"
  e.emitText s!"{label}:" dataSection
  let directive ← ofExcept (Literal.directive length)
  e.emitText s!"\t{directive} {finish} - {label} - {length.bytes + 1}" dataSection
  e.emitText (Literal.zeroTerminated data) dataSection
  e.emitText s!"{finish}:" dataSection
  return .reference (Line.ofText s!"[{label}]")

/-- Emits a zero-terminated string and returns its address. -/
def cStringLiteral (e : EngineId) (contents : String) : CompileM Operand := do
  let data ← ofExcept (Literal.encode contents)
  let label ← e.label "anonymous_c_string"
  e.emitText s!"{label}:" dataSection
  e.emitText (Literal.zeroTerminated data) dataSection
  return .reference (Line.ofText s!"[{label}]")

end EngineId

def evalOperand (r : Runner) : OperandExpr → CompileM Operand
  | .register name => return .register (← ofExcept (Register.parse name))
  | .registerPart base size upgrade => ofExcept (Operand.ofRegisterPart base size upgrade)
  | .immediate text size => do sizedOperand .immediate size (← evalLine r.find text)
  | .memory address size => do sizedOperand .memory size (← evalLine r.find address)
  | .reference address => return .reference (← evalLine r.find address)
  | .argument argument expected name => do
    let argument ← evalArgument r.find argument
    let expected ← evalOptional (evalValueType r.find) expected
    argument.toOperand r name expected
  | .stringLiteral contents => r.engine.stringLiteral contents
  | .cStringLiteral contents => r.engine.cStringLiteral contents
  | .resized operand size => do resizeOperand (← evalOperand r operand) size

def evalOperands (r : Runner) : List OperandExpr → CompileM (List Operand)
  | [] => pure []
  | operand :: rest => do
    let operand ← evalOperand r operand
    return operand :: (← evalOperands r rest)

end StagedAsm
