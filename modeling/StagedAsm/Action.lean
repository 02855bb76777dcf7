import StagedAsm.Operand
import StagedAsm.Script.Statement

/-!
# Actions

What a program comes down to before it is run: a flat list of actions, each run once in every pass.
Paths are evaluated and type references have an identity, so that all passes see the same ones.
-/

namespace StagedAsm

structure Field where
  name : String
  type : TypeRefId
  deriving DecidableEq, Repr, Inhabited

/-- One step of a program, run once in every pass. -/
inductive Action where
  | perform (pass : Option Pass) (calls : List Call)
  | enterFile (name : String)
  | exitFile
  | importScope (path : Path)
  | enterGlobal (path : Path)
  | exitGlobal
  | constant (name value : String)
  | emitText (text sectionName : String)
  | emit (line : LineExpr)
  | enterBlock
  | exitBlock
  | jumpToNew (mnemonic key : String)
  | placeNew (key : String)
  | jumpToKnown (mnemonic key : String)
  | placeKnown (key : String)
  | startOtherwise
  | prologue (name : String) (parameters : List (TypeRefId × String))
  | epilogue
  | call (target : Path) (arguments targets : List Argument)
  | ret (value : Option Argument)
  | enterStruct (name : String) (fields : List Field) (offsets : List UInt32)
      (knownSize : UInt32)
  | template (id : TemplateId)
  | builtins
  | kernel32
  | entryPoint (start : Option Path)

instance : Inhabited Action := ⟨.exitFile⟩

abbrev Program := List Action

namespace Program

def wrapped (body : Program) (before after : Action) : Program := before :: body ++ [after]

def inBlock (body : Program) : Program := body.wrapped .enterBlock .exitBlock

end Program

/-! ## Control flow

A condition is code that sets the flags, together with a condition code that says which flags
mean that it holds. A construct jumps to labels that are made while text is generated and
remembered in the scope around it until the construct ends. -/

def invertCondition (code : String) : String :=
  match code.toList with
  | 'n' :: rest => String.ofList rest
  | _ => "n" ++ code

namespace Program

/-- Runs `body` if the condition holds. -/
def ifThen (code : String) (condition body : Program) : Program :=
  condition ++ .jumpToNew ("j" ++ invertCondition code) "end_of_if" ::
    body.inBlock ++ [.placeKnown "end_of_if"]

/-- Runs `body` if the condition holds, and `otherwise` if not. -/
def ifElse (code : String) (condition body otherwise : Program) : Program :=
  condition ++ .jumpToNew ("j" ++ invertCondition code) "end_of_if" ::
    body.inBlock ++ .startOtherwise :: otherwise.inBlock ++ [.placeKnown "end_of_else"]

/-- Runs `start` once, then `body`, `advance` and the condition until it does not hold. -/
def doLoop (start body advance : Program) (code : String) (condition : Program) : Program :=
  inBlock (start ++ .placeNew "start_of_loop" :: body ++ advance ++ condition ++
    [.jumpToKnown ("j" ++ code) "start_of_loop"])

/-- Runs `start` once and checks the condition before every run of `body` and `advance`. -/
def forLoop (start : Program) (code : String) (condition advance body : Program) : Program :=
  inBlock (start ++ condition ++ .jumpToNew ("j" ++ invertCondition code) "end_of_loop" ::
    doLoop [] body advance code condition ++ [.placeKnown "end_of_loop"])

/-- Checks the condition before every run of `body`. -/
def whileLoop (code : String) (condition body : Program) : Program :=
  forLoop [] code condition [] body

end Program

end StagedAsm
