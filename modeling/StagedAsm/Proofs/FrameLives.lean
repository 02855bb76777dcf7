import StagedAsm.Proofs.ScopeOperations

/-!
# The life of a frame

The extent of a frame is the largest distance that the pointer had below its start, but measured
with 32 bits: it covers every place where the pointer was exactly as long as all of them are less
than 2³² bytes below the start.
-/

namespace StagedAsm

/-- A call that may change a frame. -/
inductive FrameCall where
  | setPointer (pointer : Int)
  | move (delta : Int)
  | setSize (size : UInt32)
  | setLeaf (isLeaf : Bool)
  deriving DecidableEq, Repr

namespace FrameCall

def run : FrameCall → FrameM Fault Unit
  | setPointer pointer => (FrameM.setPointer pointer).adaptExcept .error
  | move delta => FrameM.move delta
  | setSize size => (FrameM.setSize size).adaptExcept .error
  | setLeaf isLeaf => (FrameM.setLeaf isLeaf).adaptExcept .error

/-- The frame that a call leaves behind, refused or not. -/
def after (f : Frame) (c : FrameCall) : Frame := leaves c.run f

/-- Where the pointer was during a sequence of calls. -/
def places (f : Frame) : List FrameCall → List Int
  | [] => [f.pointer]
  | c :: rest => f.pointer :: places (c.after f) rest

end FrameCall

namespace Frame

inductive Turn (f : Frame) : Frame → Prop where
  | refused : Turn f f
  | moved (pointer : Int) (h : f.size = none) :
      Turn f { f with pointer, extent := max f.extent (UInt32.ofNat (-pointer).toNat) }
  | sized (size : UInt32) (h : f.size = none) : Turn f { f with size := some size }
  | called (isLeaf : Bool) (h : f.isLeaf = false → isLeaf = false) : Turn f { f with isLeaf }

variable {f f' : Frame}

theorem setPointer_cases (pointer : Int) (f : Frame) :
    (∃ fault, (FrameM.setPointer pointer).adaptExcept Fault.error f = .error fault f) ∨
      ∃ f', (FrameM.setPointer pointer).adaptExcept Fault.error f = .ok () f' ∧ Turn f f' := by
  rw [EStateM.adaptExcept, FrameM.setPointer_apply]
  by_cases hsize : f.size.isSome = true
  · rw [if_pos hsize]
    exact .inl ⟨_, rfl⟩
  · rw [if_neg hsize]
    have hmoved := Turn.moved pointer (by simpa using hsize)
    by_cases hneg : pointer < 0
    · rw [if_pos hneg]
      rw [show (-pointer).toNat = pointer.natAbs by omega] at hmoved
      exact .inr ⟨_, rfl, hmoved⟩
    · rw [if_neg hneg]
      rw [show (-pointer).toNat = 0 by omega] at hmoved
      have hzero : max f.extent (UInt32.ofNat 0) = f.extent :=
        UInt32.toNat_inj.mp (by rw [toNat_max]; exact Nat.max_eq_left (Nat.zero_le _))
      rw [hzero] at hmoved
      exact .inr ⟨_, rfl, hmoved⟩

theorem run_cases (c : FrameCall) (f : Frame) :
    (∃ fault, c.run f = .error fault f) ∨ ∃ f', c.run f = .ok () f' ∧ Turn f f' := by
  cases c with
  | setPointer pointer => exact setPointer_cases pointer f
  | move delta =>
    rw [FrameCall.run, FrameM.move_apply]
    cases addOffset f.pointer delta with
    | error fault => exact .inl ⟨_, rfl⟩
    | ok pointer => exact setPointer_cases pointer f
  | setSize size =>
    rw [FrameCall.run, EStateM.adaptExcept, FrameM.setSize_apply]
    by_cases hsize : f.size.isSome = true
    · rw [if_pos hsize]
      exact .inl ⟨_, rfl⟩
    · rw [if_neg hsize]
      exact .inr ⟨_, rfl, .sized size (by simpa using hsize)⟩
  | setLeaf isLeaf =>
    rw [FrameCall.run, EStateM.adaptExcept, FrameM.setLeaf_apply]
    by_cases hleaf : (isLeaf && !f.isLeaf) = true
    · rw [if_pos hleaf]
      exact .inl ⟨_, rfl⟩
    · rw [if_neg hleaf]
      exact .inr ⟨_, rfl, .called isLeaf fun h => by simpa [h] using hleaf⟩

theorem turn_after (f : Frame) (c : FrameCall) : Turn f (c.after f) := by
  rcases run_cases c f with ⟨_, hrefused⟩ | ⟨f', hdone, hturn⟩
  · rw [FrameCall.after, leaves_of_error hrefused]
    exact .refused
  · rw [FrameCall.after, leaves_of_ok hdone]
    exact hturn

theorem eq_of_run_error {c : FrameCall} {fault : Fault} (h : c.run f = .error fault f') :
    f' = f := by
  rcases run_cases c f with ⟨_, hrefused⟩ | ⟨_, hdone, -⟩
  · cases hrefused.symm.trans h
    rfl
  · cases hdone.symm.trans h

/-- What no call takes back. -/
structure Aged (f f' : Frame) : Prop where
  extent_le : f.extent.toNat ≤ f'.extent.toNat
  frozen : f.size.isSome → f'.size = f.size ∧ f'.pointer = f.pointer ∧ f'.extent = f.extent
  called : f.isLeaf = false → f'.isLeaf = false

theorem Turn.aged (h : Turn f f') : Aged f f' := by
  cases h with
  | refused => exact ⟨.refl, fun _ => ⟨rfl, rfl, rfl⟩, id⟩
  | moved pointer h =>
    refine ⟨?_, fun hset => by simp [h] at hset, id⟩
    rw [toNat_max]
    exact Nat.le_max_left _ _
  | sized size h => exact ⟨.refl, fun hset => by simp [h] at hset, id⟩
  | called isLeaf h => exact ⟨.refl, fun _ => ⟨rfl, rfl, rfl⟩, h⟩

theorem aged_foldl (calls : List FrameCall) (f : Frame) :
    Aged f (calls.foldl FrameCall.after f) := by
  induction calls generalizing f with
  | nil => exact Turn.refused.aged
  | cons c rest ih =>
    have hfirst := (turn_after f c).aged
    have hrest := ih (c.after f)
    refine ⟨Nat.le_trans hfirst.extent_le hrest.extent_le, fun hset => ?_,
      fun h => hrest.called (hfirst.called h)⟩
    obtain ⟨hsize, hpointer, hextent⟩ := hfirst.frozen hset
    obtain ⟨hsize', hpointer', hextent'⟩ := hrest.frozen (hsize ▸ hset)
    exact ⟨hsize'.trans hsize, hpointer'.trans hpointer, hextent'.trans hextent⟩

/-- How far a place is below the start, as 32 bits tell it. -/
def measured (place : Int) : Nat := (-place).toNat % 0x100000000

/-- The extent is the largest distance measured at the places where the pointer was. -/
structure Marks (f : Frame) (places : List Int) : Prop where
  here : f.pointer ∈ places
  covers : ∀ p ∈ places, measured p ≤ f.extent.toNat
  tight : ∃ p ∈ places, f.extent.toNat = measured p

theorem Turn.marks {places : List Int} (h : Turn f f') (hf : Marks f places) :
    Marks f' (places ++ [f'.pointer]) := by
  have hkeep : ∀ {g : Frame}, g.extent = f.extent → g.pointer = f.pointer →
      Marks g (places ++ [g.pointer]) := by
    intro g hextent hpointer
    obtain ⟨q, hq, heq⟩ := hf.tight
    refine ⟨by simp, fun p hp => ?_, q, by simp [hq], hextent ▸ heq⟩
    rw [hextent]
    rcases List.mem_append.mp hp with hp | hp
    · exact hf.covers p hp
    · rw [List.mem_singleton.mp hp, hpointer]
      exact hf.covers _ hf.here
  cases h with
  | refused | sized | called => exact hkeep rfl rfl
  | moved pointer h =>
    have hextent : (max f.extent (UInt32.ofNat (-pointer).toNat)).toNat =
        max f.extent.toNat (measured pointer) := by
      rw [toNat_max, UInt32.toNat_ofNat']
      rfl
    refine ⟨by simp, fun p hp => ?_, ?_⟩
    · rw [hextent]
      rcases List.mem_append.mp hp with hp | hp
      · exact Nat.le_trans (hf.covers p hp) (Nat.le_max_left _ _)
      · rw [List.mem_singleton.mp hp]
        exact Nat.le_max_right _ _
    · rw [hextent]
      obtain ⟨q, hq, heq⟩ := hf.tight
      rcases Nat.le_total (measured pointer) f.extent.toNat with hle | hle
      · exact ⟨q, by simp [hq], by rw [Nat.max_eq_left hle, heq]⟩
      · exact ⟨pointer, by simp, Nat.max_eq_right hle⟩

theorem marks_foldl (calls : List FrameCall) (earlier : List Int)
    (hf : Marks f (earlier ++ [f.pointer])) :
    Marks (calls.foldl FrameCall.after f) (earlier ++ FrameCall.places f calls) := by
  induction calls generalizing f earlier with
  | nil => exact hf
  | cons c rest ih => simpa [FrameCall.places] using ih _ ((turn_after f c).marks hf)

end Frame

/-- The extent is the largest distance measured so far, so it covers all places where the pointer
    was exactly if all of them are within 32 bits. It never falls, nothing but the leaf mark changes
    once the size is set, a function that calls another one stays so, and a refused call changes
    nothing. -/
theorem frame_bookkeeping (calls : List FrameCall) :
    let f : Frame := calls.foldl FrameCall.after {}
    let places := FrameCall.places {} calls
    ((∀ p ∈ places, Frame.measured p ≤ f.extent.toNat) ∧
        ∃ p ∈ places, f.extent.toNat = Frame.measured p) ∧
      ((∀ p ∈ places, -p ≤ f.extent.toNat) ↔ ∀ p ∈ places, -0x100000000 < p) ∧
      (∀ more : List FrameCall, Frame.Aged f ((calls ++ more).foldl FrameCall.after {})) ∧
      ∀ (c : FrameCall) (fault : Fault) (f' : Frame), c.run f = .error fault f' → f' = f ∧
        ∀ (t : ScopeTree) (id : FrameId), t.frame id = f →
          ScopeTree.updateFrame id c.run t = .error fault t := by
  intro f places
  have hmarks : Frame.Marks f places :=
    Frame.marks_foldl (f := {}) calls [] ⟨by simp, by decide, by decide⟩
  refine ⟨⟨hmarks.covers, hmarks.tight⟩, ⟨fun h p hp => ?_, fun h p hp => ?_⟩, fun more => ?_, ?_⟩
  · have hle := h p hp
    have hlt := f.extent.toNat_lt
    omega
  · have hle := hmarks.covers p hp
    have hlt := h p hp
    unfold Frame.measured at hle
    omega
  · rw [List.foldl_append]
    exact Frame.aged_foldl more f
  · intro c fault f' hc
    obtain rfl := Frame.eq_of_run_error hc
    refine ⟨rfl, fun t id ht => ?_⟩
    rw [← ht] at hc
    exact ScopeTree.updateFrame_of_error hc

end StagedAsm
