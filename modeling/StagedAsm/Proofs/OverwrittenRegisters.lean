import StagedAsm.Proofs.ParallelMove
import StagedAsm.Symbol.Basic

/-!
# Registers that lines overwrite

Which registers a list of lines overwrites is read off their texts. A shuffle overwrites the targets
of all moves but those of a register to itself. In whole registers, it carries what every source
held to its target (`shuffle_carries`). Unlike `shuffle_parallel_move` this says nothing about
widths, and in turn it holds for control registers as well.
-/

namespace StagedAsm

open GeneralRegister List

/-! ## Texts of instructions -/

/-- The general purpose register that a register is a part of. -/
def Register.general? (r : Register) : Option GeneralRegister :=
  match r.base with
  | .general base => some base
  | .control _ => none

variable {r : Register} {first mnemonic rest : List Char} {text : String}

theorem Register.general?_eq_some_iff {base : GeneralRegister} :
    r.general? = some base ↔ r.base = .general base := by
  unfold general?
  cases r.base <;> simp

def GeneralRegister.named? (name : List Char) : Option GeneralRegister :=
  match Register.parse (String.ofList name) with
  | .ok r => r.general?
  | .error _ => none

theorem GeneralRegister.named?_name (r : Register) : named? r.name.toList = r.general? := by
  simp only [named?, String.ofList_toList, Register.parse_name]

theorem GeneralRegister.named?_of_bracket {name : List Char} (h : '[' ∈ name) :
    named? name = none := by
  have hfree : ∀ r ∈ Register.all, '[' ∉ r.name.toList := by decide +kernel
  have hnone : (Register.all.find? fun r => r.name == String.ofList name) = none := by
    rw [find?_eq_none]
    intro r hr heq
    have hname : r.name.toList = name := by rw [beq_iff_eq.mp heq, String.toList_ofList]
    exact hfree r hr (hname ▸ h)
  simp only [named?, Register.parse, hnone]

/-- An operand without the size that may stand in front of it. -/
def bareOperand (operand : List Char) : List Char :=
  match ["byte ", "word ", "dword ", "qword "].find? (·.toList.isPrefixOf operand) with
  | some keyword => operand.drop keyword.toList.length
  | none => operand

theorem bareOperand_name (r : Register) : bareOperand r.name.toList = r.name.toList := by
  have hall : ∀ r ∈ Register.all, bareOperand r.name.toList = r.name.toList := by decide +kernel
  exact hall r r.mem_all

theorem bracket_mem_bareOperand {operand : List Char} (h : '[' ∈ operand) :
    '[' ∈ bareOperand operand := by
  rw [bareOperand]
  split
  · rename_i keyword hkeyword
    have hprefix : keyword.toList.isPrefixOf operand = true := by simpa using find?_some hkeyword
    obtain ⟨rest, rfl⟩ := isPrefixOf_iff_prefix.mp hprefix
    have hfree : ∀ keyword ∈ ["byte ", "word ", "dword ", "qword "], '[' ∉ keyword.toList := by
      decide
    have hrest := (mem_append.mp h).resolve_left (hfree keyword (mem_of_find?_eq_some hkeyword))
    rwa [drop_left]
  · exact h

/-- The general purpose registers that an instruction overwrites. -/
def overwritten (text : String) : List GeneralRegister :=
  let mnemonic := text.toList.takeWhile (· != ' ')
  let operands := text.toList.drop (mnemonic.length + 1)
  let first := operands.takeWhile (· != ',')
  (GeneralRegister.named? (bareOperand first)).toList ++
    if mnemonic = "xchg".toList then
      (GeneralRegister.named? (operands.drop (first.length + 2))).toList
    else []

theorem overwritten_eq (hmnemonic : ' ' ∉ mnemonic) (hfirst : ',' ∉ first)
    (h : text.toList = mnemonic ++ ' ' :: (first ++ ',' :: rest)) :
    overwritten text = (GeneralRegister.named? (bareOperand first)).toList ++
      if mnemonic = "xchg".toList then (GeneralRegister.named? (rest.drop 1)).toList else [] := by
  simp [overwritten, h, takeWhile_mark hmnemonic, takeWhile_mark hfirst,
    drop_length_add_append]

theorem overwritten_register (hmnemonic : ' ' ∉ mnemonic) (hother : mnemonic ≠ "xchg".toList)
    (h : text.toList = mnemonic ++ ' ' :: (r.name.toList ++ ',' :: rest)) :
    overwritten text = r.general?.toList := by
  rw [overwritten_eq hmnemonic r.comma_notMem_name h, if_neg hother, append_nil,
    bareOperand_name, named?_name]

/-- The first operand has a bracket in it. -/
theorem overwritten_address (mnemonic : List Char) {text : String} {size address : List Char}
    (hmnemonic : ' ' ∉ mnemonic) (hother : mnemonic ≠ "xchg".toList) (hsize : ',' ∉ size)
    (h : text.toList = mnemonic ++ ' ' :: (size ++ '[' :: address)) : overwritten text = [] := by
  have hfirst : '[' ∈ (size ++ '[' :: address).takeWhile (· != ',') := by
    simp [takeWhile_mark hsize]
  simp [overwritten, h, takeWhile_mark hmnemonic, drop_length_add_append,
    named?_of_bracket (bracket_mem_bareOperand hfirst)]
  exact fun heq => absurd heq hother

/-- The first symbol of a line has the instruction and its first operand. -/
def Line.overwrites : Line → List GeneralRegister
  | .constant text _ :: _ => overwritten text
  | _ => []

/-! ## Shuffles -/

namespace Win64

/-- The registers that a step of a shuffle overwrites. -/
def ShuffleStep.bases : ShuffleStep → List RegisterBase
  | mov target _ => [target.base]
  | xchg target source => [target.base, source.base]

theorem ShuffleStep.mem_overwritten_text (step : ShuffleStep) (base : GeneralRegister) :
    base ∈ overwritten step.text ↔ .general base ∈ step.bases := by
  cases step with
  | mov target source =>
    have htext : (text (mov target source)).toList =
        "mov".toList ++ ' ' :: (target.name.toList ++ ',' :: ' ' :: source.name.toList) := by
      simp [text, toString]
    rw [overwritten_register (by decide) (by decide) htext, Option.mem_toList,
      Register.general?_eq_some_iff]
    simp only [bases, mem_singleton, eq_comm]
  | xchg target source =>
    have htext : (text (xchg target source)).toList =
        "xchg".toList ++ ' ' :: (target.name.toList ++ ',' :: ' ' :: source.name.toList) := by
      simp [text, toString]
    rw [overwritten_eq (by decide) target.comma_notMem_name htext, if_pos rfl]
    simp only [drop_one, tail_cons, bareOperand_name, named?_name, mem_append,
      Option.mem_toList, Register.general?_eq_some_iff, bases, mem_cons, not_mem_nil,
      or_false]
    rw [eq_comm, @eq_comm _ source.base]

/-- Carries the contents of whole registers from one to another. -/
def ShuffleStep.carry {α : Type} (f : RegisterBase → α) : ShuffleStep → RegisterBase → α
  | mov target source => fun base => if base = target.base then f source.base else f base
  | xchg target source => fun base =>
    if base = target.base then f source.base
    else if base = source.base then f target.base
    else f base

structure Carries (moves : List Move) (steps : List ShuffleStep) : Prop where
  arrives : ∀ {α : Type} (f : RegisterBase → α), ∀ move ∈ moves,
    steps.foldl ShuffleStep.carry f move.target.base = f move.source.base
  keeps : ∀ {α : Type} (f : RegisterBase → α), ∀ base, base ∉ targetBases moves →
    steps.foldl ShuffleStep.carry f base = f base
  overwrites : ∀ base, base ∈ steps.flatMap ShuffleStep.bases ↔
    ∃ move ∈ moves, move.target.base = base ∧ move.source.base ≠ base

namespace Carries

variable {first rest : List Move} {move : Move} {steps : List ShuffleStep}

theorem nil : Carries [] [] := by
  constructor <;> simp

/-- A move whose target no move reads comes first. -/
theorem mov (unread : ∀ other ∈ first ++ move :: rest, other.source.base ≠ move.target.base)
    (fresh : move.target.base ∉ targetBases (first ++ rest)) (h : Carries (first ++ rest) steps) :
    Carries (first ++ move :: rest) (.mov move.target move.source :: steps) where
  arrives f other hother := by
    rw [foldl_cons]
    rcases (perm_middle.mem_iff.trans mem_cons).mp hother with rfl | hmem
    · rw [h.keeps _ _ fresh]
      exact if_pos rfl
    · rw [h.arrives _ _ hmem]
      exact if_neg (unread other hother)
  keeps f base hbase := by
    simp only [targetBases, map_append, map_cons, mem_append, mem_cons,
      not_or] at hbase
    rw [foldl_cons, h.keeps _ base (by simp [targetBases, hbase.1, hbase.2.2])]
    exact if_neg hbase.2.1
  overwrites base := by
    have hread : move.source.base ≠ move.target.base := unread move (by simp)
    rw [flatMap_cons, mem_append, h.overwrites]
    simp only [ShuffleStep.bases, mem_append, mem_cons, not_mem_nil, or_false]
    constructor
    · rintro (rfl | ⟨other, hother, hbase⟩)
      · exact ⟨move, by simp, rfl, hread⟩
      · exact ⟨other, by tauto, hbase⟩
    · rintro ⟨other, hother, rfl, hne⟩
      by_cases heq : other = move
      · exact .inl (by rw [heq])
      · exact .inr ⟨other, by tauto, rfl, hne⟩

theorem self (hself : move.source.base = move.target.base)
    (fresh : move.target.base ∉ targetBases rest) (h : Carries rest steps) :
    Carries (move :: rest) steps where
  arrives f other hother := by
    rcases mem_cons.mp hother with rfl | hmem
    · rw [h.keeps _ _ fresh, hself]
    · exact h.arrives f other hmem
  keeps f base hbase := h.keeps f base fun hmem => hbase (mem_cons_of_mem _ hmem)
  overwrites base := by
    rw [h.overwrites]
    constructor
    · rintro ⟨other, hother, hbase⟩
      exact ⟨other, mem_cons_of_mem _ hother, hbase⟩
    · rintro ⟨other, hother, rfl, hne⟩
      rcases mem_cons.mp hother with rfl | hmem
      · exact absurd hself hne
      · exact ⟨other, hmem, rfl, hne⟩

theorem xchg {reader : Move} {source target found : Register}
    (hcycle : StartsCycle move first reader rest)
    (hexchange : Exchanges move reader source target found)
    (h : Carries (first ++ { reader with source := found } :: rest) steps) :
    Carries (move :: (first ++ reader :: rest)) (.xchg target source :: steps) := by
  obtain ⟨hne, hreader, unread, fresh, written⟩ := hcycle
  obtain ⟨hsource, htarget, hfound⟩ := hexchange.bases
  have htargets : targetBases (first ++ { reader with source := found } :: rest) =
      targetBases (first ++ reader :: rest) := by
    simp [targetBases]
  have hcarry : ∀ {α : Type} (f : RegisterBase → α) (base : RegisterBase),
      (ShuffleStep.xchg target source).carry f base =
        if base = move.target.base then f move.source.base
        else if base = move.source.base then f move.target.base else f base := by
    intro α f base
    simp only [ShuffleStep.carry, hsource, htarget]
  refine ⟨?_, ?_, ?_⟩
  · intro α f other hother
    rw [foldl_cons]
    rcases mem_cons.mp hother with rfl | hmem
    · rw [h.keeps _ _ (htargets ▸ fresh), hcarry, if_pos rfl]
    · rcases (perm_middle.mem_iff.trans mem_cons).mp hmem with rfl | hmem
      · have hcarried := h.arrives ((ShuffleStep.xchg target source).carry f)
          { other with source := found } (by simp)
        rw [hcarry, hfound, if_neg hne, if_pos rfl] at hcarried
        rw [hcarried, hreader]
      · have hin : other ∈ first ++ { reader with source := found } :: rest :=
          perm_middle.mem_iff.mpr (mem_cons_of_mem _ hmem)
        rw [h.arrives _ other hin, hcarry, if_neg (unread other hmem).2,
          if_neg (unread other hmem).1]
  · intro α f base hbase
    have hrest : base ∉ targetBases (first ++ reader :: rest) :=
      fun hmem => hbase (mem_cons_of_mem _ hmem)
    have htarget' : base ≠ move.target.base := fun heq => hbase (heq ▸ mem_cons_self)
    have hsource' : base ≠ move.source.base := fun heq => hrest (heq ▸ written)
    rw [foldl_cons, h.keeps _ base (htargets ▸ hrest), hcarry, if_neg htarget', if_neg hsource']
  · intro base
    rw [flatMap_cons, mem_append, h.overwrites]
    simp only [ShuffleStep.bases, hsource, htarget, mem_cons, not_mem_nil, or_false,
      mem_append]
    constructor
    · rintro ((rfl | rfl) | ⟨other, hother, rfl, hread⟩)
      · exact ⟨move, .inl rfl, rfl, hne⟩
      · -- the source is some move's target, and nobody else reads it
        obtain ⟨other, hother, hbase⟩ := mem_map.mp written
        refine ⟨other, .inr (by simpa using hother), hbase, ?_⟩
        simp only [mem_append, mem_cons] at hother
        rcases hother with hmem | rfl | hmem
        · exact (unread other (mem_append_left _ hmem)).1
        · rw [hreader]
          exact hne.symm
        · exact (unread other (mem_append_right _ hmem)).1
      · rcases hother with hmem | rfl | hmem
        · exact ⟨other, .inr (.inl hmem), rfl, hread⟩
        · refine ⟨reader, .inr (.inr (.inl rfl)), rfl, ?_⟩
          rw [hreader]
          intro heq
          exact fresh (mem_map.mpr ⟨reader, by simp, heq.symm⟩)
        · exact ⟨other, .inr (.inr (.inr hmem)), rfl, hread⟩
    · rintro ⟨other, rfl | hmem | rfl | hmem, rfl, hread⟩
      · exact .inl (.inl rfl)
      · exact .inr ⟨other, .inl hmem, rfl, hread⟩
      · by_cases heq : other.target.base = move.source.base
        · exact .inl (.inr heq)
        · exact .inr ⟨{ other with source := found }, .inr (.inl rfl), rfl, by
            rw [hfound]
            exact fun h => heq h.symm⟩
      · exact .inr ⟨other, .inr (.inr hmem), rfl, hread⟩

end Carries

theorem shuffle_carries {moves : List Move} {steps : List ShuffleStep}
    (nodup : (targetBases moves).Nodup) (h : shuffle moves = .ok steps) : Carries moves steps := by
  revert steps
  refine shuffleSteps_induction (motive := fun moves result =>
    ∀ {steps}, result = .ok steps → Carries moves steps) ?_ ?_ ?_ ?_ ?_ .refl nodup
  · rintro _ ⟨⟩
    exact .nil
  · intro first rest move result unread fresh ih steps h
    obtain ⟨others, hothers, ⟨⟩⟩ := except_bind_eq_ok.mp h
    exact (ih hothers).mov unread fresh
  · intro move rest result hself fresh ih steps h
    exact (ih h).self hself fresh
  · intro move first reader rest source target found result hcycle hexchange ih steps h
    obtain ⟨others, hothers, ⟨⟩⟩ := except_bind_eq_ok.mp h
    exact (ih hothers).xchg hcycle hexchange
  · intro move first reader rest fault hcycle hstuck steps h
    cases h

end Win64

end StagedAsm
