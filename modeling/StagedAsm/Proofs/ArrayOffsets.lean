import Mathlib.Algebra.Order.Ring.Nat
import StagedAsm.Settings

/-!
# Where the elements of an array start

The search for the offset of array data doubles the width of the count field while it is below both
the element size and the largest alignment. The largest alignment is not looked at again after a
doubling, so an alignment between two powers of two is passed.
-/

namespace StagedAsm.Settings

/-- The offset after so many doublings. -/
def doubled (offset : UInt32) : Nat → UInt32
  | 0 => offset
  | n + 1 => doubled (offset <<< 1) n

theorem toNat_doubled (offset : UInt32) (n : Nat) :
    (doubled offset n).toNat = offset.toNat * 2 ^ n % 2 ^ 32 := by
  induction n generalizing offset with
  | zero =>
    rw [doubled, pow_zero, Nat.mul_one]
    exact (Nat.mod_eq_of_lt offset.toNat_lt).symm
  | succ n ih =>
    have hshift : (offset <<< 1).toNat = offset.toNat * 2 % 2 ^ 32 := by
      simp [UInt32.toNat_shiftLeft, Nat.shiftLeft_eq]
    rw [doubled, ih, hshift, Nat.mod_mul_mod, Nat.mul_assoc, ← Nat.pow_succ']

/-- The offset is below both bounds, so that the search goes on. -/
def Falls (wanted limit offset : UInt32) : Prop := offset < wanted ∧ offset < limit

variable {wanted limit offset : UInt32} {fuel : Nat}

theorem growOffset_of_falls (h : Falls wanted limit offset) :
    growOffset wanted limit (fuel + 1) offset = growOffset wanted limit fuel (offset <<< 1) := by
  simp [growOffset, h.1, h.2]

theorem growOffset_of_not_falls (h : ¬ Falls wanted limit offset) :
    growOffset wanted limit fuel offset = some offset := by
  have hstop : (offset < wanted && offset < limit) = false := by simpa [Falls] using h
  cases fuel <;> rw [growOffset, hstop] <;> rfl

theorem growOffset_cases : growOffset wanted limit fuel offset = none ∧
        (∀ i ≤ fuel, Falls wanted limit (doubled offset i)) ∨
      ∃ n, growOffset wanted limit fuel offset = some (doubled offset n) ∧
        ¬ Falls wanted limit (doubled offset n) ∧
        ∀ i < n, Falls wanted limit (doubled offset i) := by
  induction fuel generalizing offset with
  | zero =>
    by_cases hfalls : Falls wanted limit offset
    · refine .inl ⟨by simp [growOffset, hfalls.1, hfalls.2], fun i hi => ?_⟩
      rwa [Nat.le_zero.mp hi]
    · exact .inr ⟨0, growOffset_of_not_falls hfalls, hfalls, by simp⟩
  | succ fuel ih =>
    by_cases hfalls : Falls wanted limit offset
    · rw [growOffset_of_falls hfalls]
      -- the first offset is below both bounds, and for the others the search goes on
      have hall : ∀ n, (∀ i < n, Falls wanted limit (doubled (offset <<< 1) i)) →
          ∀ i < n + 1, Falls wanted limit (doubled offset i) := by
        intro n hlater i hi
        cases i with
        | zero => exact hfalls
        | succ i => exact hlater i (Nat.lt_of_succ_lt_succ hi)
      rcases ih with ⟨hnone, hlater⟩ | ⟨n, hsome, hstop, hbefore⟩
      · exact .inl ⟨hnone, fun i hi => hall (fuel + 1) (fun i hi => hlater i (Nat.le_of_lt_succ hi))
          i (Nat.lt_succ_of_le hi)⟩
      · exact .inr ⟨n + 1, hsome, hstop, hall n hbefore⟩
    · exact .inr ⟨0, growOffset_of_not_falls hfalls, hfalls, by simp⟩

theorem arrayDataOffset?_eq_none_iff (s : Settings) (size : UInt32) :
    s.arrayDataOffset? size = none ↔
      ∀ n, Falls size s.maxArrayAlignment (doubled s.arrayLength.bytes n) := by
  have hgone : ∀ n, 32 ≤ n → doubled s.arrayLength.bytes n = 0 := by
    intro n hn
    obtain ⟨m, rfl⟩ := Nat.exists_eq_add_of_le hn
    rw [← UInt32.toNat_inj, toNat_doubled, pow_add, Nat.mul_left_comm, Nat.mul_mod_right]
    rfl
  rw [arrayDataOffset?]
  rcases growOffset_cases with ⟨hnone, hall⟩ | ⟨n, hsome, hstop, -⟩
  · refine ⟨fun _ n => ?_, fun _ => hnone⟩
    by_cases hn : n ≤ 32
    · exact hall n hn
    · rw [hgone n (Nat.le_of_not_le hn), ← hgone 32 .refl]
      exact hall 32 (le_refl _)
  · rw [hsome]
    exact ⟨nofun, fun h => absurd (h n) hstop⟩

theorem bytes_eq_two_pow {width : Size} (h : width ≠ .none) :
    ∃ a < 4, width.bytes.toNat = 2 ^ a := by
  cases width with
  | none => exact absurd rfl h
  | byte => exact ⟨0, by decide, rfl⟩
  | word => exact ⟨1, by decide, rfl⟩
  | dword => exact ⟨2, by decide, rfl⟩
  | qword => exact ⟨3, by decide, rfl⟩

theorem toNat_doubled_of_lt {a n : Nat} (h : offset.toNat = 2 ^ a) (hn : a + n < 32) :
    (doubled offset n).toNat = 2 ^ (a + n) := by
  rw [toNat_doubled, h, ← pow_add]
  exact Nat.mod_eq_of_lt (Nat.pow_lt_pow_right (by decide) hn)

theorem forall_falls_iff {a : Nat} (ha : a < 4) (h : offset.toNat = 2 ^ a) :
    (∀ n, Falls wanted limit (doubled offset n)) ↔
      2 ^ 31 < wanted.toNat ∧ 2 ^ 31 < limit.toNat := by
  constructor
  · intro hfalls
    have htop := hfalls (31 - a)
    have hvalue := toNat_doubled_of_lt h (n := 31 - a) (by omega)
    rw [show a + (31 - a) = 31 by omega] at hvalue
    simpa [Falls, UInt32.lt_iff_toNat_lt, hvalue] using htop
  · intro hlarge n
    have hle : (doubled offset n).toNat ≤ 2 ^ 31 := by
      by_cases hn : a + n < 32
      · rw [toNat_doubled_of_lt h hn]
        exact Nat.pow_le_pow_right (by decide) (by omega)
      · have hzero : (2 ^ (a + n)) % 2 ^ 32 = 0 :=
          Nat.mod_eq_zero_of_dvd (Nat.pow_dvd_pow 2 (by omega))
        rw [toNat_doubled, h, ← pow_add, hzero]
        exact Nat.zero_le _
    simp only [Falls, UInt32.lt_iff_toNat_lt]
    omega

theorem doubled_zero (n : Nat) : doubled 0 n = 0 := by
  rw [← UInt32.toNat_inj, toNat_doubled]
  simp

theorem toNat_of_doubled {a n : Nat} (ha : a < 4) (h : offset.toNat = 2 ^ a)
    (hstop : ¬ Falls wanted limit (doubled offset n))
    (hbefore : ∀ i < n, Falls wanted limit (doubled offset i)) :
    (doubled offset n).toNat = 2 ^ (a + n) := by
  by_cases hn : a + n < 32
  · exact toNat_doubled_of_lt h hn
  · have hzero : (doubled offset n).toNat = 0 := by
      rw [toNat_doubled, h, ← pow_add]
      exact Nat.mod_eq_zero_of_dvd (Nat.pow_dvd_pow 2 (by omega))
    have hfirst := hbefore 0 (by omega)
    simp only [Falls, UInt32.lt_iff_toNat_lt] at hfirst hstop
    omega

/-- The search ends unless a count field without a width is to be enlarged or the bound lies past
    the largest power of two. It finds the first power of two from the width of the count field on
    that is not below both bounds; it passes the largest alignment if that lies between two powers
    of two. -/
theorem array_offset_exact (s : Settings) (size : UInt32) : (s.arrayDataOffset? size = none ↔
      ∀ n, Falls size s.maxArrayAlignment (doubled s.arrayLength.bytes n)) ∧
    (s.arrayDataOffset? size = none ↔ s.arrayLength = .none ∧ size ≠ 0 ∧ s.maxArrayAlignment ≠ 0 ∨
        2 ^ 31 < size.toNat ∧ 2 ^ 31 < s.maxArrayAlignment.toNat) ∧
    ∀ offset, s.arrayDataOffset? size = some offset →
      s.arrayLength.bytes ≤ offset ∧ ¬ Falls size s.maxArrayAlignment offset ∧
      (s.arrayLength ≠ .none → ∃ k, offset.toNat = 2 ^ k) ∧
      (s.arrayLength.bytes < offset → offset.toNat / 2 < size.toNat ∧
        offset.toNat / 2 < s.maxArrayAlignment.toNat ∧
        (offset ≤ s.maxArrayAlignment ∨ ∀ k, s.maxArrayAlignment.toNat ≠ 2 ^ k)) := by
  have hnone := s.arrayDataOffset?_eq_none_iff size
  refine ⟨hnone, ?_, fun offset h => ?_⟩
  · rw [hnone]
    by_cases hwidth : s.arrayLength = .none
    · simp only [hwidth, Size.bytes, doubled_zero, Falls, UInt32.lt_iff_toNat_lt, ne_eq,
        ← UInt32.toNat_inj, UInt32.toNat_zero, forall_const, true_and]
      omega
    · obtain ⟨a, ha, hbytes⟩ := bytes_eq_two_pow hwidth
      rw [forall_falls_iff ha hbytes]
      simp [hwidth]
  · obtain ⟨n, rfl, hstop, hbefore⟩ : ∃ n, offset = doubled s.arrayLength.bytes n ∧
        ¬ Falls size s.maxArrayAlignment (doubled s.arrayLength.bytes n) ∧
        ∀ i < n, Falls size s.maxArrayAlignment (doubled s.arrayLength.bytes i) := by
      rcases growOffset_cases with ⟨hnone, -⟩ | ⟨n, hsome, hcases⟩
      · exact nomatch hnone.symm.trans h
      · exact ⟨n, Option.some.inj (h.symm.trans hsome), hcases⟩
    by_cases hwidth : s.arrayLength = .none
    · simp only [hwidth, Size.bytes, doubled_zero] at hstop ⊢
      exact ⟨UInt32.le_refl _, hstop, fun h => absurd rfl h, fun h => absurd h (UInt32.lt_irrefl _)⟩
    · obtain ⟨a, ha, hbytes⟩ := bytes_eq_two_pow hwidth
      have hvalue := toNat_of_doubled ha hbytes hstop hbefore
      refine ⟨?_, hstop, fun _ => ⟨_, hvalue⟩, fun hlt => ?_⟩
      · rw [UInt32.le_iff_toNat_le, hvalue, hbytes]
        exact Nat.pow_le_pow_right (by decide) (Nat.le_add_right a n)
      cases n with
      | zero => exact absurd hlt (UInt32.lt_irrefl _)
      | succ n =>
        -- the offset before the last doubling was below both bounds
        have hhalf := hbefore n (Nat.lt_succ_self n)
        have hsmall : a + (n + 1) < 32 := (Nat.pow_lt_pow_iff_right (by decide)).mp
          (hvalue ▸ (doubled s.arrayLength.bytes (n + 1)).toNat_lt)
        simp only [Falls, UInt32.lt_iff_toNat_lt,
          toNat_doubled_of_lt hbytes (Nat.lt_of_succ_lt hsmall)] at hhalf
        have hdouble : 2 ^ (a + (n + 1)) = 2 ^ (a + n) * 2 := pow_succ 2 (a + n)
        rw [hvalue, hdouble, Nat.mul_div_cancel _ (by decide)]
        refine ⟨hhalf.1, hhalf.2, ?_⟩
        rw [or_iff_not_imp_left, UInt32.le_iff_toNat_le, hvalue]
        intro hpassed k hk
        rw [hk] at hhalf hpassed
        have hlow := (Nat.pow_lt_pow_iff_right (by decide)).mp hhalf.2
        have hhigh := (Nat.pow_lt_pow_iff_right (by decide)).mp (Nat.lt_of_not_le hpassed)
        omega

end StagedAsm.Settings
