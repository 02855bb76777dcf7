import StagedAsm.Frame
import StagedAsm.Operand
import StagedAsm.Proofs.OverwrittenRegisters

/-!
# Lines that move the stack pointer

What a line does to the stack pointer, read from its text. A function moves the pointer down once,
at its start, and every return moves it back up by the same amount. The other lines leave it where
it is, as long as no call stores its result there.
-/

namespace StagedAsm

open List

/-! ## Reading amounts -/

def pointerAmount? (mnemonic line : String) : Option Nat :=
  let head := (mnemonic ++ " rsp, ").toList
  let digits := line.toList.drop head.length
  if head <+: line.toList ∧ digits ≠ [] ∧ digits.all Char.isDigit = true then
    some (Nat.ofDigitChars 10 digits 0)
  else none

def setsPointer (line : String) : Bool :=
  line.toList.getLast? != some ':' && !"call".toList.isPrefixOf line.toList &&
    (overwritten line).contains .rsp

def pointerShift? (line : String) : Option Int :=
  match pointerAmount? "sub" line, pointerAmount? "add" line with
  | some n, _ => some (-n)
  | none, some n => some n
  | none, none => if setsPointer line then none else some 0

def pointerShifts? : List String → Option Int
  | [] => some 0
  | line :: rest => do return (← pointerShift? line) + (← pointerShifts? rest)

variable {lines : List String} {mnemonic line : String} {size : UInt32} {returns : Nat}
  {spared : Prop}

theorem pointerShifts?_append {first second : List String} {m n : Int}
    (hfirst : pointerShifts? first = some m) (hsecond : pointerShifts? second = some n) :
    pointerShifts? (first ++ second) = some (m + n) := by
  induction first generalizing m with
  | nil =>
    cases hfirst
    rw [nil_append, hsecond, Int.zero_add]
  | cons line rest ih =>
    obtain ⟨k, hk, l, hl, rfl⟩ : ∃ k, pointerShift? line = some k ∧
        ∃ l, pointerShifts? rest = some l ∧ k + l = m := by
      simpa [pointerShifts?, Option.bind_eq_some_iff] using hfirst
    simp [pointerShifts?, hk, ih hl, Int.add_assoc]

theorem pointerShifts?_eq_zero (h : ∀ line ∈ lines, pointerShift? line = some 0) :
    pointerShifts? lines = some 0 := by
  induction lines with
  | nil => rfl
  | cons line rest ih =>
    obtain ⟨hline, hrest⟩ := forall_mem_cons.mp h
    simp [pointerShifts?, hline, ih hrest]

theorem pointerAmount?_self (mnemonic : String) (n : Nat) :
    pointerAmount? mnemonic s!"{mnemonic} rsp, {n}" = some n := by
  have hchars : s!"{mnemonic} rsp, {n}".toList =
      (mnemonic ++ " rsp, ").toList ++ Nat.toDigits 10 n := by
    simp [toString]
  have hdigits : (Nat.toDigits 10 n).all Char.isDigit = true :=
    all_eq_true.mpr fun c hc => Nat.isDigit_of_mem_toDigits (by omega) (by omega) hc
  unfold pointerAmount?
  simp only [hchars, List.drop_left]
  rw [if_pos ⟨List.prefix_append _ _, Nat.toDigits_ne_nil, hdigits⟩, Nat.ofDigitChars_ten_toDigits]

theorem pointerAmount?_of_not_prefix (h : ¬ (mnemonic ++ " rsp, ").toList <+: line.toList) :
    pointerAmount? mnemonic line = none :=
  if_neg fun hall => h hall.1

theorem pointerAmount?_label (mnemonic label : String) :
    pointerAmount? mnemonic (label ++ ":") = none := by
  refine if_neg fun hall => ?_
  obtain ⟨-, hsome, hdigits⟩ := hall
  have hchars : (label ++ ":").toList = label.toList ++ [':'] := by simp
  rw [hchars] at hsome hdigits
  by_cases hle : (mnemonic ++ " rsp, ").toList.length ≤ label.toList.length
  · have hcolon : ':' ∈ (label.toList ++ [':']).drop (mnemonic ++ " rsp, ").toList.length := by
      rw [drop_append_of_le_length hle]
      simp
    have hdigit := all_eq_true.mp hdigits ':' hcolon
    exact absurd hdigit (by decide)
  · exact hsome (drop_eq_nil_of_le (by simp only [length_append, length_singleton]; omega))

theorem pointerShift?_label (label : String) : pointerShift? (label ++ ":") = some 0 := by
  have hlabel : setsPointer (label ++ ":") = false := by simp [setsPointer]
  simp only [pointerShift?, pointerAmount?_label, hlabel]
  rfl

theorem pointerShift?_sub (n : Nat) : pointerShift? s!"sub rsp, {n}" = some (-(n : Int)) := by
  have hread : pointerAmount? "sub" s!"sub rsp, {n}" = some n := pointerAmount?_self "sub" n
  simp only [pointerShift?, hread]

theorem pointerShift?_add (n : Nat) : pointerShift? s!"add rsp, {n}" = some (n : Int) := by
  have hread : pointerAmount? "add" s!"add rsp, {n}" = some n := pointerAmount?_self "add" n
  have hother : pointerAmount? "sub" s!"add rsp, {n}" = none := by
    apply pointerAmount?_of_not_prefix
    simp [toString, cons_prefix_cons]
  simp only [pointerShift?, hread, hother]

/-! ## Other instructions -/

def transferMnemonics : List String := ["mov", "lea", "xchg", "shr", "shl", "call"]

/-- An instruction of a call or a return. If the stack pointer is spared, it does not set it. -/
structure IsTransfer (line : String) (spared : Prop := True) : Prop where
  mnemonic : ∃ mnemonic ∈ transferMnemonics, mnemonic.toList <+: line.toList
  spares : spared → setsPointer line = false

namespace IsTransfer

theorem setsPointer_of_not_overwritten (h : .rsp ∉ overwritten line) :
    setsPointer line = false := by
  simp [setsPointer, h]

theorem of_register (mnemonic : String) {r : Register} {rest : List Char}
    (hmem : mnemonic ∈ transferMnemonics) (hother : mnemonic ≠ "xchg")
    (hbase : spared → r.base ≠ .general .rsp)
    (h : line.toList = mnemonic.toList ++ ' ' :: (r.name.toList ++ ',' :: rest)) :
    IsTransfer line spared := by
  have hblank : ∀ mnemonic ∈ transferMnemonics, ' ' ∉ mnemonic.toList := by decide
  refine ⟨⟨mnemonic, hmem, h ▸ prefix_append _ _⟩, fun hspared => ?_⟩
  apply setsPointer_of_not_overwritten
  rw [overwritten_register (hblank _ hmem) (fun heq => hother (String.toList_inj.mp heq)) h,
    Option.mem_toList, Register.general?_eq_some_iff]
  exact hbase hspared

theorem of_address (mnemonic : String) {width address : List Char}
    (hmem : mnemonic ∈ transferMnemonics) (hother : mnemonic ≠ "xchg") (hwidth : ',' ∉ width)
    (h : line.toList = mnemonic.toList ++ ' ' :: (width ++ '[' :: address)) :
    IsTransfer line spared := by
  have hblank : ∀ mnemonic ∈ transferMnemonics, ' ' ∉ mnemonic.toList := by decide
  refine ⟨⟨mnemonic, hmem, h ▸ prefix_append _ _⟩, fun _ => ?_⟩
  apply setsPointer_of_not_overwritten
  rw [overwritten_address mnemonic.toList (hblank _ hmem)
    (fun heq => hother (String.toList_inj.mp heq)) hwidth h]
  exact not_mem_nil

theorem of_call (h : "call".toList <+: line.toList) : IsTransfer line spared := by
  refine ⟨⟨"call", by decide, h⟩, fun _ => ?_⟩
  have hcall : "call".toList.isPrefixOf line.toList = true := isPrefixOf_iff_prefix.mpr h
  rw [setsPointer, hcall, Bool.not_true, Bool.and_false, Bool.false_and]

theorem pointerShift? (h : IsTransfer line) : pointerShift? line = some 0 := by
  obtain ⟨⟨mnemonic, hmem, tail, hline⟩, hspares⟩ := h
  have hnone : ∀ other ∈ ["sub", "add"], pointerAmount? other line = none := by
    intro other hother
    apply pointerAmount?_of_not_prefix
    rw [← hline]
    simp only [transferMnemonics, mem_cons, not_mem_nil, or_false] at hmem hother
    rcases hother with rfl | rfl <;> rcases hmem with rfl | rfl | rfl | rfl | rfl | rfl <;>
      simp [cons_prefix_cons]
  rw [StagedAsm.pointerShift?, hnone "sub" (by simp), hnone "add" (by simp), hspares trivial]
  rfl

end IsTransfer

/-! ## Places of results -/

def Operand.sparesPointer : Operand → Bool
  | register r => r.base != .general .rsp
  | memory _ (.constant text none :: _) => text.toList.head? == some '['
  | reference _ => true
  | _ => false

def CallSite.sparesPointer (site : CallSite) : Bool := site.targets.all Operand.sparesPointer

/-! ## Functions -/

/-- There is no line if the frame holds nothing below the return address. -/
def adjustmentLines (mnemonic : String) (size : UInt32) : List String :=
  if size.toNat = 8 then [] else [s!"{mnemonic} rsp, {size.toNat - 8}"]

/-- `sign` tells which way the instruction moves the pointer. -/
theorem pointerShifts?_adjustmentLines {sign : Int}
    (hread : ∀ n : Nat, pointerShift? s!"{mnemonic} rsp, {n}" = some (sign * (n : Int)))
    (hsize : 8 ≤ size.toNat) :
    pointerShifts? (adjustmentLines mnemonic size) = some (sign * ((size.toNat : Int) - 8)) := by
  unfold adjustmentLines
  split
  · rename_i heq
    simp [pointerShifts?, heq]
  · have hcast : ((size.toNat - 8 : Nat) : Int) = size.toNat - 8 := by omega
    have hline := hread (size.toNat - 8)
    rw [hcast] at hline
    rw [pointerShifts?, hline]
    simp [pointerShifts?]

theorem pointerShifts?_sub (hsize : 8 ≤ size.toNat) :
    pointerShifts? (adjustmentLines "sub" size) = some (8 - (size.toNat : Int)) := by
  have hshift : pointerShifts? (adjustmentLines "sub" size) =
    some (-1 * ((size.toNat : Int) - 8)) := by
    apply pointerShifts?_adjustmentLines _ hsize
    intro n
    rw [Int.neg_one_mul]
    exact pointerShift?_sub n
  rw [hshift]
  congr 1
  omega

theorem pointerShifts?_add (hsize : 8 ≤ size.toNat) :
    pointerShifts? (adjustmentLines "add" size) = some ((size.toNat : Int) - 8) := by
  rw [← Int.one_mul ((size.toNat : Int) - 8)]
  apply pointerShifts?_adjustmentLines _ hsize
  intro n
  rw [Int.one_mul]
  exact pointerShift?_add n

inductive BodyText (size : UInt32) (spared : Prop) : Nat → List String → Prop where
  | nil : BodyText size spared 0 []
  | transfer {returns : Nat} {line : String} {rest : List String} (h : IsTransfer line spared)
      (hrest : BodyText size spared returns rest) : BodyText size spared returns (line :: rest)
  | release {returns : Nat} {rest : List String} (hrest : BodyText size spared returns rest) :
      BodyText size spared (returns + 1) (adjustmentLines "add" size ++ "ret" :: rest)

theorem BodyText.shift_or (h : BodyText size True returns lines) :
    ∀ line ∈ lines, pointerShift? line = some 0 ∨ line ∈ adjustmentLines "add" size := by
  induction h with
  | nil => simp
  | transfer h _ ih =>
    intro line hmem
    rcases mem_cons.mp hmem with rfl | hmem
    · exact .inl h.pointerShift?
    · exact ih line hmem
  | release _ ih =>
    intro line hmem
    rcases mem_append.mp hmem with hmem | hmem
    · exact .inr hmem
    · rcases mem_cons.mp hmem with rfl | hmem
      · exact .inl (by decide)
      · exact ih line hmem

theorem BodyText.balanced {visited start : List String} (h : BodyText size True returns lines)
    (hsize : 8 ≤ size.toNat) (hstart : ∀ line ∈ start, pointerShift? line = some 0)
    (hvisited : ∀ line ∈ visited, line ∈ lines ∧ line ∉ adjustmentLines "add" size) :
    pointerShifts? (start ++ adjustmentLines "sub" size ++ visited ++ adjustmentLines "add" size) =
      some 0 := by
  have hnone : pointerShifts? visited = some 0 := by
    apply pointerShifts?_eq_zero
    intro line hmem
    obtain ⟨hline, hother⟩ := hvisited line hmem
    exact (h.shift_or line hline).resolve_right hother
  rw [pointerShifts?_append (pointerShifts?_append (pointerShifts?_append
    (pointerShifts?_eq_zero hstart) (pointerShifts?_sub hsize)) hnone) (pointerShifts?_add hsize)]
  congr 1
  omega

end StagedAsm
