/-!
# Operand sizes

The size of a value in memory or in a register, with its wording in messages and its keyword in
assembly text. `none` belongs to values of no known width, such as untyped constants.
-/

namespace StagedAsm

inductive Size where
  | none
  | byte
  | word
  | dword
  | qword
  deriving DecidableEq, Repr, Inhabited

namespace Size

def bytes : Size → UInt32
  | none => 0
  | byte => 1
  | word => 2
  | dword => 4
  | qword => 8

def isDefined : Size → Bool
  | none => false
  | _ => true

def keyword? : Size → Option String
  | none => Option.none
  | byte => some "byte"
  | word => some "word"
  | dword => some "dword"
  | qword => some "qword"

def text (s : Size) : String :=
  s.keyword?.getD "undefined size"

def ofKeyword? : String → Option Size
  | "byte" => some byte
  | "word" => some word
  | "dword" => some dword
  | "qword" => some qword
  | _ => Option.none

def ofBytes? (n : UInt32) : Option Size :=
  [byte, word, dword, qword].find? fun s => s.bytes == n

/-- Suffix of the data directive that defines a value of this width. -/
def dataSuffix? : Size → Option Char
  | none => Option.none
  | byte => some 'b'
  | word => some 'w'
  | dword => some 'd'
  | qword => some 'q'

end Size

end StagedAsm
