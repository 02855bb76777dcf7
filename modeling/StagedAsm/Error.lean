import StagedAsm.Location
import StagedAsm.Pass
import StagedAsm.Size

/-!
# Errors

What can go wrong while a program is compiled, and the text of every message. A `CompileError` is
reported to whoever asked; a `Fault` is anything that stops a run.
-/

namespace StagedAsm

inductive CompileError where
  | duplicateSymbol (name scope : String)
  | undefinedSymbol (path : String)
  | typeMismatch (detail : String)
  | passOrdering (operation : String) (pass : Pass)
  | cyclicDependency (nodes : List String)
  | templateArity (name : String) (expected found : Nat)
  | stackDiscipline (detail : String)
  /-- Any other error of the source. -/
  | language (detail : String)
  | internal (detail : String)
  | located (location : Location) (source : CompileError)
  deriving DecidableEq, Repr, Inhabited

/-- Whose mistake an error is. -/
inductive ErrorCategory where
  | user
  | logic
  | internal
  deriving DecidableEq, Repr

namespace CompileError

def message : CompileError → String
  | duplicateSymbol name scope => s!"attempted to redefine '{name}' in {scope}"
  | undefinedSymbol path => s!"attempted to reference non-existent symbol '{path}'"
  | typeMismatch detail => s!"type mismatch: {detail}"
  | passOrdering operation pass => s!"attempted to {operation} during pass {pass.text}"
  | cyclicDependency nodes =>
    "encountered a cycle in the dependency graph between " ++ String.intercalate ", " nodes
  | templateArity name expected found =>
    s!"template '{name}' expects {expected} parameter(s), got {found}"
  | stackDiscipline detail => s!"stack discipline violation: {detail}"
  | language detail => detail
  | internal detail => s!"internal compiler fault: {detail}"
  | located location source => s!"in {location.text}: {source.message}"

/-- Attaches a location unless one is attached already. -/
def locate (e : CompileError) (location : Location) : CompileError :=
  match e with
  | located _ _ => e
  | _ => located location e

def location? : CompileError → Option Location
  | located location _ => some location
  | _ => none

def cause : CompileError → CompileError
  | located _ source => source.cause
  | e => e

/-- A location does not matter. -/
def category (e : CompileError) : ErrorCategory :=
  match e.cause with
  | passOrdering _ _ => .logic
  | internal _ => .internal
  | _ => .user

theorem cause_locate (e : CompileError) (l : Location) : (e.locate l).cause = e.cause := by
  cases e <;> rfl

/-! ## Causes

One definition for each thing that can go wrong, named for it. -/

/-! ### Sizes and registers -/

def badSize (keyword : String) : CompileError :=
  language s!"bad size specifier: '{keyword}'"

def sizeWithoutKeyword : CompileError :=
  internal "attempted to convert undefined size specifier to its nasm representation"

def unknownRegister (name : String) : CompileError :=
  language s!"{name} is not recognised as a register"

def cannotResize (base : String) (size : Size) : CompileError :=
  language s!"can't resize '{base}' to size {size.text}"

def fixedRegister (name : String) : CompileError :=
  language s!"attempted to assign to register '{name}' which is not an alias"

/-! ### Frames -/

def pointerFrozen : CompileError :=
  passOrdering "move the stack pointer after the stack size was set" .generate

def frameSizeUnset : CompileError :=
  passOrdering "obtain the stack size before it was set" .generate

def frameSizeSetTwice : CompileError :=
  internal "attempted to set the stack size twice"

def leafAgain : CompileError :=
  internal "attempted to turn a non-leaf function back into a leaf function"

def emptyAllocation : CompileError :=
  internal "attempted to allocate a non-positive amount of stack space"

def noFrame (scope : String) : CompileError :=
  language s!"{scope} is not a local scope and has no stack frame"

def localWithoutFrame : CompileError :=
  internal "local scope without a stack frame"

def pointerAwayFromVariables (pointer expected : Int) : CompileError :=
  stackDiscipline
    s!"attempted to exit local scope with the stack pointer at {pointer}, expected {expected}"

def negativeFrame : CompileError :=
  language "encountered a negative stack size"

def returnFromNegativeFrame (size : Int) : CompileError :=
  internal s!"attempted to return while the stack size ({size}) is negative"

/-! ### Dependencies -/

def graphClosed : CompileError :=
  internal "attempted to add to an already sorted dependency graph"

def noEpoch : CompileError :=
  internal "no dependency epoch is open"

def epochLost : CompileError :=
  internal "attempted to resolve placeholders without an open epoch"

def resolvedTwice (placeholder : String) : CompileError :=
  internal s!"attempted to resolve placeholder {placeholder} twice"

def resultUnknown (placeholder : String) : CompileError :=
  internal s!"attempted to obtain the result of unresolved placeholder {placeholder}"

def renderedUnresolved (placeholder : String) : CompileError :=
  internal s!"attempted to render unresolved placeholder {placeholder}"

def placeholderWithoutParameters (placeholder : String) : CompileError :=
  internal s!"function placeholder {placeholder} has no parameters"

/-! ### Sections -/

def linesWaiting (count : Nat) : CompileError :=
  internal s!"attempted to close a section with {count} line(s) still waiting for an event"

def unknownSection (name : String) : CompileError :=
  language s!"attempted to write to non-existent section '{name}'"

/-! ### Scopes -/

def nestedLocal (name : String) : CompileError :=
  internal s!"attempted to nest local scope '{name}' inside a local scope"

def blocksFixed (scope : String) : CompileError :=
  internal s!"attempted to create a new anonymous scope in {scope} after it was reset"

def resetMidway (scope : String) (cursor count : Nat) : CompileError :=
  internal s!"attempted to reset the anonymous scopes of {scope} at {cursor} of {count}"

def nothingToReplace (name scope : String) : CompileError :=
  internal s!"attempted to replace non-existent placeholder '{name}' in {scope}"

def replacedSettled (kind name scope : String) : CompileError :=
  internal s!"attempted to replace {kind} '{name}' in {scope} as if it were a placeholder"

def globalInsideLocal : CompileError :=
  language "cannot enter a global scope while in a local scope"

def templatedScope (segment : String) : CompileError :=
  language s!"global scope '{segment}' can't carry template arguments"

def notInGlobal : CompileError :=
  internal "attempted to exit a global scope while not in one"

def notInLocal : CompileError :=
  internal "attempted to exit a local scope while not in one"

def notInBlock : CompileError :=
  internal "attempted to exit an anonymous scope while not in one"

def alreadyInLocal (name current : String) : CompileError :=
  internal s!"attempted to enter local scope '{name}' while already in local scope '{current}'"

def unknownLocal (name : String) (pass : Pass) : CompileError :=
  internal s!"attempted to enter non-existent local scope '{name}' during pass {pass.text}"

def associatedTypeOfLocal : CompileError :=
  internal "attempted to obtain the associated type of a local scope"

def snapshotInLocal : CompileError :=
  internal "attempted to snapshot the compiler state inside a local scope"

def inLocalScope (operation : String) : CompileError :=
  language s!"attempted to {operation} in a local scope"

def inGlobalScope (operation : String) : CompileError :=
  language s!"attempted to {operation} in a global scope"

def placeholderInLocal : CompileError :=
  internal "attempted to declare a placeholder in a local scope"

def noLabel (key : String) : CompileError :=
  internal s!"no '{key}' label in the current scope"

/-! ### Files and passes -/

def fileEnteredTwice (file : String) : CompileError :=
  internal s!"attempted to enter file '{file}' twice during pass {Pass.declare.text}"

def fileUnknown (file : String) : CompileError :=
  internal
    s!"attempted to enter file '{file}' which was not entered during pass {Pass.declare.text}"

def notInFile : CompileError :=
  internal "attempted to exit a file while not in one"

def importOutsideFile : CompileError :=
  internal "attempted to import a scope while not in a file"

def filesLeftOpen (found expected : Nat) : CompileError :=
  internal s!"compilation ended with {found} open file(s), expected {expected}"

def scopesLeftOpen (found expected : Nat) : CompileError :=
  internal s!"compilation ended with {found} open scope(s), expected {expected}"

def passLeftScopesOpen (pass : Pass) (found expected : Nat) : CompileError :=
  internal s!"pass {pass.text} ended with {found} open scope(s), expected {expected}"

/-! ### Types -/

def typeAsOperand (name : String) : CompileError :=
  typeMismatch s!"type '{name}' can't be used as an operand"

def layoutUnknown (name : String) : CompileError :=
  internal s!"attempted to obtain the size of type '{name}' before its layout was resolved"

def typeUnresolved (reference : String) : CompileError :=
  internal s!"type '{reference}' was used before it was resolved"

def nothingPending (reference : String) : CompileError :=
  internal s!"type '{reference}' has no pending dependency"

def notAType (path kind : String) : CompileError :=
  typeMismatch s!"'{path}' is a {kind}, not a type"

def notAReference (name : String) : CompileError :=
  typeMismatch s!"'{name}' is not a reference type and has no value type"

def sizedSettledEarly : CompileError :=
  internal "sized types are settled on creation"

def noLayoutToAwait (name : String) : CompileError :=
  internal s!"structure '{name}' has no layout to wait for"

def layoutStillOpen (name reference : String) : CompileError :=
  internal s!"layout of '{name}' is still unresolved while settling '{reference}'"

def layoutNotResolved (name : String) : CompileError :=
  internal s!"layout of '{name}' is not resolved yet"

def layoutLost (name : String) : CompileError :=
  internal s!"scope of structure '{name}' lost its layout"

def fieldSettled (field structureName : String) : CompileError :=
  internal s!"field '{field}' of '{structureName}' is not a placeholder"

/-! ### Templates -/

def templateAsOperand (name : String) : CompileError :=
  typeMismatch s!"template '{name}' can't be used as an operand"

def notATemplate (name kind : String) : CompileError :=
  typeMismatch s!"'{name}' is a {kind}, not a template"

def templateUndeclared (name : String) : CompileError :=
  internal s!"template '{name}' was instantiated before it was declared"

def instanceBusy (name : String) : CompileError :=
  internal s!"template instance '{name}' was compiled while it was already compiling"

/-! ### Operands and calls -/

def unsizedOperand (kind text : String) : CompileError :=
  internal s!"attempted to construct {kind} operand '{text}' with undefined size"

def operandSize (name : String) (wanted found : Size) : CompileError :=
  typeMismatch
    s!"operand size mismatch for '{name}': expected {wanted.text}, got {found.text}"

def operandSizeUnknown (path name : String) : CompileError :=
  typeMismatch s!"size of '{path}' is unknown for '{name}'"

def needsAddressLoad (text : String) : CompileError :=
  internal s!"operand '{text}' has no direct form and needs 'lea'"

def parameterCount (callee : String) (expected found : Nat) : CompileError :=
  typeMismatch
    s!"parameter count mismatch: '{callee}()' expects {expected} parameter(s), got {found}"

def severalReturnTargets : CompileError :=
  language "the Win64 ABI only supports a single return target"

def returnIntoAddress : CompileError :=
  typeMismatch "a return value can't be stored into an address"

def returnOutsideFunction : CompileError :=
  language "return statement in a global scope"

def cycleLost : CompileError :=
  internal "register shuffle lost track of a cycle"

def functionUnsettled (name kind : String) : CompileError :=
  internal s!"function '{name}' resolved to a {kind} while generating its prologue"

/-! ### String literals -/

def danglingEscape (contents : String) : CompileError :=
  language s!"string '{contents}' ends in an escape character"

def unknownEscape (escape : Char) (contents : String) : CompileError :=
  language s!"unknown escape character '\\{escape}' in '{contents}'"

def mixedQuotes (text : String) : CompileError :=
  language s!"string segment '{text}' mixes both quote characters"

def badUnicodeEscape : CompileError :=
  language "bad unicode escape character sequence"

def unsizedStringLength : CompileError :=
  internal "string length field has no size"

end CompileError

/-- Which bounded operation left its range. -/
inductive Overflow where
  | add
  | subtract
  deriving DecidableEq, Repr

def Overflow.message : Overflow → String
  | add => "attempt to add with overflow"
  | subtract => "attempt to subtract with overflow"

/-- What stops a run. Only an `error` can be caught. -/
inductive Fault where
  | error (e : CompileError)
  | overflow (operation : Overflow)
  | meaningless (request : String)
  | endlessSearch
  | nestingTooDeep
  deriving DecidableEq, Repr, Inhabited

end StagedAsm
