import StagedAsm.Word

/-!
# Stack frames

The pointer is the distance of the stack pointer from where it stood on entry; the extent is the
largest frame seen so far. The size is set once, after which the pointer stays where it is.
-/

namespace StagedAsm

/-- The frame of one function. -/
structure Frame where
  pointer : Int := 0
  size : Option UInt32 := none
  extent : UInt32 := 0
  isLeaf : Bool := true
  deriving DecidableEq, Repr, Inhabited

/-! ## Operations -/

abbrev FrameM (ε : Type) := EStateM ε Frame

namespace FrameM

/-- The frame behind an operation, unless it is refused. -/
def result {ε : Type} (m : FrameM ε Unit) (f : Frame) : Except ε Frame :=
  match m f with
  | .ok _ f => .ok f
  | .error e _ => .error e

/-- Moves the pointer. Below zero it may raise the extent, which keeps the low 32 bits of the
    distance. -/
def setPointer (pointer : Int) : FrameM CompileError Unit := do
  if (← get).size.isSome then throw .pointerFrozen
  modify fun f => { f with pointer }
  if pointer < 0 then
    modify fun f => { f with extent := max f.extent (UInt32.ofNat pointer.natAbs) }

/-- Moves the pointer by `delta` bytes. -/
def move (delta : Int) : FrameM Fault Unit := do
  match addOffset (← get).pointer delta with
  | .ok pointer => (setPointer pointer).adaptExcept .error
  | .error fault => throw fault

/-- Sets the final size, once. -/
def setSize (size : UInt32) : FrameM CompileError Unit := do
  if (← get).size.isSome then throw .frameSizeSetTwice
  modify fun f => { f with size := some size }

/-- A function that calls another never becomes a leaf again. -/
def setLeaf (isLeaf : Bool) : FrameM CompileError Unit := do
  if isLeaf && !(← get).isLeaf then throw .leafAgain
  modify fun f => { f with isLeaf }

theorem setPointer_apply (pointer : Int) (f : Frame) : setPointer pointer f =
    if f.size.isSome then .error .pointerFrozen f
    else if pointer < 0 then
      .ok () { f with pointer, extent := max f.extent (UInt32.ofNat pointer.natAbs) }
    else .ok () { f with pointer } := by
  obtain ⟨_, size, _, _⟩ := f
  cases size with
  | some size => rfl
  | none =>
    by_cases hneg : pointer < 0
    · unfold setPointer
      rw [if_pos hneg, if_pos hneg]
      rfl
    · unfold setPointer
      rw [if_neg hneg, if_neg hneg]
      rfl

theorem setSize_apply (size : UInt32) (f : Frame) : setSize size f =
    if f.size.isSome then .error .frameSizeSetTwice f else .ok () { f with size := some size } := by
  obtain ⟨_, size, _, _⟩ := f
  cases size <;> rfl

theorem setLeaf_apply (isLeaf : Bool) (f : Frame) : setLeaf isLeaf f =
    if isLeaf && !f.isLeaf then .error .leafAgain f else .ok () { f with isLeaf } := by
  obtain ⟨_, _, _, wasLeaf⟩ := f
  cases isLeaf <;> cases wasLeaf <;> rfl

theorem move_apply (delta : Int) (f : Frame) : move delta f =
    match addOffset f.pointer delta with
    | .ok pointer => (setPointer pointer).adaptExcept .error f
    | .error fault => .error fault f := by
  have hget : (get : FrameM Fault Frame) f = .ok f f := rfl
  simp only [move, bind, EStateM.bind, hget]
  cases addOffset f.pointer delta <;> rfl

end FrameM

namespace Frame

/-- The bytes that a call pushes. -/
def returnAddress : Int := 8

/-- The final size, which all addresses on the frame need. -/
def finalSize (f : Frame) : Except CompileError UInt32 :=
  match f.size with
  | some size => .ok size
  | none => .error .frameSizeUnset

def setPointer (f : Frame) (pointer : Int) : Except CompileError Frame :=
  (FrameM.setPointer pointer).result f

def move (f : Frame) (delta : Int) : Except Fault Frame := (FrameM.move delta).result f

def setSize (f : Frame) (size : UInt32) : Except CompileError Frame :=
  (FrameM.setSize size).result f

def setLeaf (f : Frame) (isLeaf : Bool) : Except CompileError Frame :=
  (FrameM.setLeaf isLeaf).result f

end Frame

end StagedAsm
