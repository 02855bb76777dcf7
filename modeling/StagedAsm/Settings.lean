import StagedAsm.Size

/-!
# Settings

What a compilation can be configured with, and where the elements of an array start.
-/

namespace StagedAsm

structure Settings where
  stringLength : Size := .dword
  arrayLength : Size := .qword
  maxArrayAlignment : UInt32 := 64
  stackAlignment : UInt32 := 16
  deriving DecidableEq, Repr, Inhabited

namespace Settings

/-- Doubles `offset` until it reaches `wanted` or `limit`, at most `fuel` times. -/
def growOffset (wanted limit : UInt32) : Nat → UInt32 → Option UInt32
  | 0, offset => if offset < wanted && offset < limit then none else some offset
  | fuel + 1, offset =>
    if offset < wanted && offset < limit then growOffset wanted limit fuel (offset <<< 1)
    else some offset

def arrayDataOffset? (s : Settings) (elementSize : UInt32) : Option UInt32 :=
  growOffset elementSize s.maxArrayAlignment 32 s.arrayLength.bytes

end Settings

end StagedAsm
