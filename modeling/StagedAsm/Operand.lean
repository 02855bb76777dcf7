import StagedAsm.Symbol.Basic

/-!
# Operands

What an instruction works on: a register, a constant, a value in memory, or the address of a value,
which no instruction but an address load can take.
-/

namespace StagedAsm

inductive Operand where
  | register (r : Register)
  | immediate (size : Size) (text : Line)
  | memory (size : Size) (address : Line)
  | reference (address : Line)
  deriving DecidableEq, Repr, Inhabited

namespace Operand

def kindName : Operand → String
  | register _ => "Register"
  | immediate _ _ => "Immediate"
  | memory _ _ => "Memory"
  | reference _ => "Reference"

def size : Operand → Size
  | register r => r.size
  | immediate size _ => size
  | memory size _ => size
  | reference _ => .none

/-- The operand without a size, in full registers. -/
def text : Operand → Line
  | register r => Line.ofText r.base.name
  | immediate _ text => text
  | memory _ address => address
  | reference address => address

def register? : Operand → Option Register
  | register r => some r
  | _ => none

def isReference : Operand → Bool
  | reference _ => true
  | _ => false

/-- The operand is readable without touching memory. -/
def isDirect : Operand → Bool
  | register _ => true
  | immediate _ _ => true
  | _ => false

/-- The form of an operand in an instruction; an address has none. -/
def form? : Operand → Except CompileError (Option Line)
  | register r => .ok (some (Line.ofText r.name))
  | reference _ => .ok none
  | immediate size text => sizedForm size text
  | memory size address => sizedForm size address
where
  sizedForm (size : Size) (text : Line) : Except CompileError (Option Line) :=
    match size.keyword? with
    | some keyword => .ok (some (Line.ofText keyword ++ text))
    | none => .error .sizeWithoutKeyword

/-- The part of a full register with a size. With `upgrade`, a byte without a name becomes a word.
    -/
def ofRegisterPart (base : String) (size : Size) (upgrade : Bool) :
    Except CompileError Operand := do
  let hasByte := (GeneralRegister.ofName? base).any fun r => r.byteRegister?.isSome
  let size := if upgrade && size == .byte && !hasByte then .word else size
  return register (← Register.ofBaseName base size)

end Operand

/-- An argument or a return target before its path is looked up. -/
inductive Argument where
  | register (name : String)
  | immediate (text : String)
  | memory (path : Path) (size : Option Size)
  | address (path : Path)
  deriving DecidableEq, Repr, Inhabited

/-- A call whose operands are all known. -/
structure CallSite where
  callee : Operand
  parameters : Option (List Parameter)
  arguments : List Operand
  targets : List Operand
  deriving DecidableEq, Repr, Inhabited

end StagedAsm
