import StagedAsm.Error

/-!
# Registers

Each register is a part of a full 64-bit register: the whole of it, its low 32 or 16 bits, or one of
the two low bytes where these have names. Control registers have no parts.
-/

namespace StagedAsm

inductive GeneralRegister where
  | rax | rcx | rdx | rbx | rsp | rbp | rsi | rdi
  | r8 | r9 | r10 | r11 | r12 | r13 | r14 | r15
  deriving DecidableEq, Repr, Inhabited

inductive ControlRegister where
  | cr0 | cr2 | cr3 | cr4 | cr8
  deriving DecidableEq, Repr, Inhabited

/-- The registers whose two low bytes have names. -/
inductive ByteRegister where
  | a | b | c | d
  deriving DecidableEq, Repr, Inhabited

/-- The part of a general purpose register, at least a word. -/
inductive RegisterWidth where
  | word | dword | qword
  deriving DecidableEq, Repr, Inhabited

inductive Register where
  | general (base : GeneralRegister) (width : RegisterWidth)
  | lowByte (base : ByteRegister)
  | highByte (base : ByteRegister)
  | control (base : ControlRegister)
  deriving DecidableEq, Repr, Inhabited

/-- The full register a register is a part of. -/
inductive RegisterBase where
  | general (base : GeneralRegister)
  | control (base : ControlRegister)
  deriving DecidableEq, Repr, Inhabited

namespace GeneralRegister

def all : List GeneralRegister :=
  [rax, rcx, rdx, rbx, rsp, rbp, rsi, rdi, r8, r9, r10, r11, r12, r13, r14, r15]

/-- The 16-bit name of a register that is named by letters. -/
def letters? : GeneralRegister → Option String
  | rax => some "ax"
  | rcx => some "cx"
  | rdx => some "dx"
  | rbx => some "bx"
  | rsp => some "sp"
  | rbp => some "bp"
  | rsi => some "si"
  | rdi => some "di"
  | _ => none

def name : GeneralRegister → String
  | rax => "rax"
  | rcx => "rcx"
  | rdx => "rdx"
  | rbx => "rbx"
  | rsp => "rsp"
  | rbp => "rbp"
  | rsi => "rsi"
  | rdi => "rdi"
  | r8 => "r8"
  | r9 => "r9"
  | r10 => "r10"
  | r11 => "r11"
  | r12 => "r12"
  | r13 => "r13"
  | r14 => "r14"
  | r15 => "r15"

/-- A lettered register changes its first letter, a numbered one takes a suffix. -/
def nameAt (r : GeneralRegister) (width : RegisterWidth) : String :=
  match width, r.letters? with
  | .qword, _ => r.name
  | .dword, some letters => "e" ++ letters
  | .dword, none => r.name ++ "d"
  | .word, some letters => letters
  | .word, none => r.name ++ "w"

/-- The byte register inside a register, if its low byte has a name. -/
def byteRegister? : GeneralRegister → Option ByteRegister
  | rax => some .a
  | rbx => some .b
  | rcx => some .c
  | rdx => some .d
  | _ => none

def ofName? (name : String) : Option GeneralRegister :=
  all.find? fun r => r.name == name

/-- The part of a register with `size`, if it has one. -/
def part? (r : GeneralRegister) : Size → Option Register
  | .qword => some (.general r .qword)
  | .dword => some (.general r .dword)
  | .word => some (.general r .word)
  | .byte => r.byteRegister?.map Register.lowByte
  | .none => none

end GeneralRegister

namespace ControlRegister

def all : List ControlRegister := [cr0, cr2, cr3, cr4, cr8]

def name : ControlRegister → String
  | cr0 => "cr0"
  | cr2 => "cr2"
  | cr3 => "cr3"
  | cr4 => "cr4"
  | cr8 => "cr8"

end ControlRegister

namespace ByteRegister

def all : List ByteRegister := [a, b, c, d]

def base : ByteRegister → GeneralRegister
  | a => .rax
  | b => .rbx
  | c => .rcx
  | d => .rdx

def lowName : ByteRegister → String
  | a => "al"
  | b => "bl"
  | c => "cl"
  | d => "dl"

def highName : ByteRegister → String
  | a => "ah"
  | b => "bh"
  | c => "ch"
  | d => "dh"

end ByteRegister

namespace RegisterBase

def name : RegisterBase → String
  | general r => r.name
  | control r => r.name

def hasByteAccess : RegisterBase → Bool
  | general r => r.byteRegister?.isSome
  | control _ => false

/-- Control registers have no part, not even themselves. -/
def part (base : RegisterBase) (size : Size) : Except CompileError Register :=
  match base with
  | general r =>
    match r.part? size with
    | some register => .ok register
    | none => .error (.cannotResize base.name size)
  | control _ => .error (.cannotResize base.name size)

end RegisterBase

namespace Register

def name : Register → String
  | general base width => base.nameAt width
  | lowByte base => base.lowName
  | highByte base => base.highName
  | control base => base.name

def base : Register → RegisterBase
  | general base _ => .general base
  | lowByte base => .general base.base
  | highByte base => .general base.base
  | control base => .control base

def size : Register → Size
  | general _ .word => .word
  | general _ .dword => .dword
  | general _ .qword => .qword
  | lowByte _ => .byte
  | highByte _ => .byte
  | control _ => .qword

/-- Whether this is the second lowest byte of a register. -/
def isHighByte : Register → Bool
  | highByte _ => true
  | _ => false

def all : List Register :=
  GeneralRegister.all.map (general · .qword) ++ ControlRegister.all.map control ++
    GeneralRegister.all.map (general · .dword) ++ GeneralRegister.all.map (general · .word) ++
    ByteRegister.all.map lowByte ++ ByteRegister.all.map highByte

def parse (name : String) : Except CompileError Register :=
  match all.find? fun r => r.name == name with
  | some register => .ok register
  | none => .error (.unknownRegister name)

def resize (r : Register) (size : Size) : Except CompileError Register :=
  r.base.part size

/-- The part with `size` of the register named `base`. -/
def ofBaseName (base : String) (size : Size) : Except CompileError Register :=
  match (GeneralRegister.ofName? base).bind (·.part? size) with
  | some register => .ok register
  | none => .error (.cannotResize base size)

theorem base_of_part? {r : GeneralRegister} {s : Size} {x : Register} (h : r.part? s = some x) :
    x.base = .general r := by
  cases s <;> cases r <;> simp [GeneralRegister.part?, GeneralRegister.byteRegister?] at h <;>
    subst h <;> rfl

end Register

end StagedAsm
