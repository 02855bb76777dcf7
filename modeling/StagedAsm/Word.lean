import StagedAsm.Error

/-!
# Bounded arithmetic

Byte counts have 32 bits and stack offsets have 64 bits with a sign. Sums that leave the range are
refused. Byte counts are `UInt32`; offsets are integers, which the operations here keep in range.
-/

namespace StagedAsm

/-- Sum of two byte counts, if it fits in 32 bits. -/
def addBytes (a b : UInt32) : Except Fault UInt32 :=
  if a.toNat + b.toNat < UInt32.size then .ok (a + b) else .error (.overflow .add)

def FitsOffset (x : Int) : Prop :=
  -0x8000000000000000 ≤ x ∧ x < 0x8000000000000000

instance (x : Int) : Decidable (FitsOffset x) :=
  inferInstanceAs (Decidable (_ ∧ _))

def addOffset (a b : Int) : Except Fault Int :=
  if FitsOffset (a + b) then .ok (a + b) else .error (.overflow .add)

def subOffset (a b : Int) : Except Fault Int :=
  if FitsOffset (a - b) then .ok (a - b) else .error (.overflow .subtract)

def offsetOfBytes (n : UInt32) : Int := n.toNat

theorem addBytes_eq_ok_iff {a b c : UInt32} :
    addBytes a b = .ok c ↔ c.toNat = a.toNat + b.toNat := by
  unfold addBytes
  split
  · next h =>
    have hs : (a + b).toNat = a.toNat + b.toNat := by
      rw [UInt32.toNat_add, Nat.mod_eq_of_lt h]
    constructor
    · intro e
      cases e
      exact hs
    · intro e
      exact congrArg Except.ok (UInt32.toNat_inj.mp (by omega))
  · next h =>
    have := c.toNat_lt_size
    constructor
    · intro e
      cases e
    · intro e
      omega

theorem addOffset_eq_ok_iff {a b c : Int} :
    addOffset a b = .ok c ↔ c = a + b ∧ FitsOffset (a + b) := by
  unfold addOffset
  split
  · next h =>
    constructor
    · intro e
      cases e
      exact ⟨rfl, h⟩
    · intro e
      rw [e.1]
  · next h =>
    constructor
    · intro e
      cases e
    · intro e
      exact absurd e.2 h

end StagedAsm
