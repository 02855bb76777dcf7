import StagedAsm.Win64.Shuffle

/-!
# The register file

A read sees the low part of a register that is as wide as the operand. A write of a word keeps the
rest of the register, a write of a double word clears its upper half. Instructions are executed from
the text of their lines, which `ShuffleStep.ofText?` reads back.
-/

namespace StagedAsm

/-- Number of bits of a part of a register. -/
def RegisterWidth.bits : RegisterWidth → Nat
  | word => 16
  | dword => 32
  | qword => 64

/-- The contents of the general purpose registers. -/
def RegisterFile : Type := GeneralRegister → BitVec 64

namespace RegisterFile

/-- The low part of a register, as wide as an operand. -/
def low (width : RegisterWidth) (value : BitVec 64) : BitVec 64 :=
  (value.setWidth width.bits).setWidth 64

/-- What a register holds after `value` was written to its low part. -/
def merge (width : RegisterWidth) (old value : BitVec 64) : BitVec 64 :=
  match width with
  | .word => (old >>> 16) <<< 16 ||| low .word value
  | .dword => low .dword value
  | .qword => value

/-- Only general purpose registers have a value. -/
def read? (f : RegisterFile) : Register → Option (BitVec 64)
  | .general base width => some (low width (f base))
  | _ => none

def write (f : RegisterFile) (base : GeneralRegister) (width : RegisterWidth)
    (value : BitVec 64) : RegisterFile :=
  fun other => if other = base then merge width (f base) value else f other

@[simp] theorem write_self (f : RegisterFile) (base : GeneralRegister) (width : RegisterWidth)
    (value : BitVec 64) : f.write base width value base = merge width (f base) value := by
  simp [write]

theorem write_of_ne (f : RegisterFile) {base other : GeneralRegister} (h : other ≠ base)
    (width : RegisterWidth) (value : BitVec 64) : f.write base width value other = f other := by
  simp [write, h]

theorem getLsbD_low (width : RegisterWidth) (value : BitVec 64) (i : Nat) :
    (low width value).getLsbD i = (decide (i < width.bits) && value.getLsbD i) := by
  cases width <;> simp only [low, RegisterWidth.bits, BitVec.getLsbD_setWidth] <;>
    by_cases h : i < 64
  all_goals grind

theorem getLsbD_merge (width : RegisterWidth) (old value : BitVec 64) {i : Nat}
    (h : i < width.bits) : (merge width old value).getLsbD i = value.getLsbD i := by
  cases width with
  | word =>
    have hi : i < 16 := h
    simp [merge, getLsbD_low, RegisterWidth.bits, hi]
  | dword => simp [merge, getLsbD_low, h]
  | qword => rfl

theorem low_merge {width seen : RegisterWidth} (h : seen.bits ≤ width.bits)
    (old value : BitVec 64) : low seen (merge width old value) = low seen value := by
  -- bit by bit, since a word is merged and a double word is not
  apply BitVec.eq_of_getLsbD_eq
  intro i _
  rw [getLsbD_low, getLsbD_low]
  by_cases hi : i < seen.bits
  · rw [getLsbD_merge width old value (Nat.lt_of_lt_of_le hi h)]
  · simp [hi]

end RegisterFile

namespace Win64.ShuffleStep

def exec : ShuffleStep → RegisterFile → Option RegisterFile
  | mov (.general target width) (.general source width'), f =>
    if width = width' then some (f.write target width (f source)) else none
  | xchg (.general target width) (.general source width'), f =>
    if width = width' then
      some ((f.write target width (f source)).write source width (f target))
    else none
  | _, _ => none

def execAll : List ShuffleStep → RegisterFile → Option RegisterFile
  | [], f => some f
  | step :: rest, f => (step.exec f).bind (execAll rest)

/-! ## Reading lines -/

/-- The two registers between which a comma stands. -/
def readOperands (text : List Char) : Option (Register × Register) :=
  let first := text.takeWhile (· != ',')
  match Register.parse (String.ofList first),
      Register.parse (String.ofList (text.drop (first.length + 2))) with
  | .ok target, .ok source => some (target, source)
  | _, _ => none

/-- The instruction in a line. -/
def ofText? (line : String) : Option ShuffleStep :=
  match line.toList with
  | 'm' :: 'o' :: 'v' :: ' ' :: rest => (readOperands rest).map fun o => mov o.1 o.2
  | 'x' :: 'c' :: 'h' :: 'g' :: ' ' :: rest => (readOperands rest).map fun o => xchg o.1 o.2
  | _ => none

def execLines : List String → RegisterFile → Option RegisterFile
  | [], f => some f
  | line :: rest, f => ((ofText? line).bind (·.exec f)).bind (execLines rest)

end Win64.ShuffleStep

namespace Register

theorem mem_all (r : Register) : r ∈ all := by
  cases r with
  | general base width => cases base <;> cases width <;> decide
  | lowByte base => cases base <;> decide
  | highByte base => cases base <;> decide
  | control base => cases base <;> decide

theorem parse_name (r : Register) : parse r.name = .ok r := by
  have found : ∀ r ∈ all, (all.find? fun other => other.name == r.name) = some r := by
    decide +kernel
  simp only [parse, found r (mem_all r)]

theorem comma_notMem_name (r : Register) : ',' ∉ r.name.toList := by
  have free : ∀ r ∈ all, ',' ∉ r.name.toList := by decide +kernel
  exact free r (mem_all r)

end Register

theorem takeWhile_mark {mark : Char} {first : List Char} (h : mark ∉ first) (rest : List Char) :
    (first ++ rest).takeWhile (· != mark) = first ++ rest.takeWhile (· != mark) := by
  apply List.takeWhile_append_of_pos
  intro c hc
  have hne : c ≠ mark := fun heq => h (heq ▸ hc)
  simpa using hne

namespace Win64.ShuffleStep

theorem readOperands_names (target source : Register) :
    readOperands (target.name.toList ++ ',' :: ' ' :: source.name.toList) =
      some (target, source) := by
  simp [readOperands, takeWhile_mark target.comma_notMem_name, List.drop_length_add_append,
    Register.parse_name]

@[simp] theorem ofText?_text (step : ShuffleStep) : ofText? step.text = some step := by
  cases step with
  | mov target source =>
    have h : (text (mov target source)).toList =
        'm' :: 'o' :: 'v' :: ' ' :: (target.name.toList ++ ',' :: ' ' :: source.name.toList) := by
      simp only [text, ToString.toString, String.toList_append, List.append_assoc]
      rfl
    simp only [ofText?, h, readOperands_names, Option.map_some]
  | xchg target source =>
    have h : (text (xchg target source)).toList = 'x' :: 'c' :: 'h' :: 'g' :: ' ' ::
          (target.name.toList ++ ',' :: ' ' :: source.name.toList) := by
      simp only [text, ToString.toString, String.toList_append, List.append_assoc]
      rfl
    simp only [ofText?, h, readOperands_names, Option.map_some]

theorem execLines_map_text (steps : List ShuffleStep) (f : RegisterFile) :
    execLines (steps.map text) f = execAll steps f := by
  induction steps generalizing f with
  | nil => rfl
  | cons step rest ih =>
    simp only [List.map_cons, execLines, execAll, ofText?_text, Option.bind_some]
    congr 1
    funext f'
    exact ih f'

end Win64.ShuffleStep

end StagedAsm
