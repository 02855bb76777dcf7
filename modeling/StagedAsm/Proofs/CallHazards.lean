import StagedAsm.Proofs.FunctionLines
import StagedAsm.Proofs.OverwrittenRegisters
import StagedAsm.Run.Script

/-!
# Hazards of calls

A call fetches its arguments in five phases: it stores the registers and constants that travel on
the stack, shuffles the register arguments, brings bytes down, loads the other arguments that travel
in registers, and takes the rest through `rax`. A value in memory or an address is fetched as it was
before the call exactly if none of its registers is overwritten before its turn.
-/

namespace StagedAsm

open List

/-- The general purpose registers that a text names. -/
def registersIn (text : String) : List GeneralRegister :=
  (text.toList.splitOnP fun c => !c.isAlphanum).filterMap fun word =>
    GeneralRegister.named? (word.map Char.toLower)

def Session.registersIn (s : Session) (line : Line) : List GeneralRegister :=
  line.flatMap fun symbol =>
    match s.denoted symbol, s.render symbol with
    | .slot _ _ _, _ => [.rsp]
    | _, .ok (some text) => StagedAsm.registersIn text
    | _, _ => []

/-- No line overwrites any of the registers. -/
def Intact (lines : List Line) (registers : List GeneralRegister) : Prop :=
  ∀ line ∈ lines, ∀ r ∈ registers, r ∉ line.overwrites

theorem intact_iff {lines : List Line} {registers written : List GeneralRegister}
    (h : ∀ r, r ∈ lines.flatMap Line.overwrites ↔ r ∈ written) :
    Intact lines registers ↔ ∀ r ∈ registers, r ∉ written := by
  constructor
  · intro hintact r hr hover
    obtain ⟨line, hline, hmem⟩ := mem_flatMap.mp ((h r).mpr hover)
    exact hintact line hline r hr hmem
  · intro hfree line hline r hr hmem
    exact hfree r hr ((h r).mp (mem_flatMap.mpr ⟨line, hline, hmem⟩))

namespace Win64

/-! ## Phases -/

/-- The line is an instruction that reads an operand. -/
inductive Fetches : Operand → Line → Prop where
  | register (instruction : String) (r : Register) :
      Fetches (.register r) (textThen instruction (Line.ofText r.name))
  | immediate (instruction keyword : String) (size : Size) (text : Line) :
      Fetches (.immediate size text) (textThen instruction (textThen keyword text))
  | memory (instruction keyword : String) (size : Size) (address : Line) :
      Fetches (.memory size address) (textThen instruction (textThen keyword address))
  | reference (instruction : String) (address : Line) :
      Fetches (.reference address) (textThen instruction address)

theorem fetches_of_form? {operand : Operand} {form : Line} (h : operand.form? = .ok (some form))
    (instruction : String) : Fetches operand (textThen instruction form) := by
  have hsized : ∀ {size : Size} {text : Line}, Operand.form?.sizedForm size text = .ok (some form) →
      ∃ keyword, form = textThen keyword text := by
    intro size text hform
    unfold Operand.form?.sizedForm at hform
    cases hkeyword : size.keyword? with
    | none =>
      rw [hkeyword] at hform
      cases hform
    | some keyword =>
      rw [hkeyword] at hform
      cases hform
      exact ⟨keyword, rfl⟩
  cases operand with
  | register r =>
    cases h
    exact .register instruction r
  | immediate size text =>
    obtain ⟨keyword, rfl⟩ := hsized h
    exact .immediate instruction keyword size text
  | memory size address =>
    obtain ⟨keyword, rfl⟩ := hsized h
    exact .memory instruction keyword size address
  | reference address => cases h

inductive Phase {α : Type} (overwrites : α → List GeneralRegister) (fetched : α → Option Operand) :
    List α → List Line → Prop where
  | nil : Phase overwrites fetched [] []
  | cons {entry : α} {entries : List α} {group lines : List Line}
      (hoverwrites : group.flatMap Line.overwrites = overwrites entry)
      (hfetched : ∀ operand, fetched entry = some operand →
        ∃ line more, group = line :: more ∧ Fetches operand line)
      (hrest : Phase overwrites fetched entries lines) :
      Phase overwrites fetched (entry :: entries) (group ++ lines)

namespace Phase

variable {α : Type} {overwrites : α → List GeneralRegister} {fetched : α → Option Operand}
  {lines : List Line}

theorem flatMap_overwrites {entries : List α} (h : Phase overwrites fetched entries lines) :
    lines.flatMap Line.overwrites = entries.flatMap overwrites := by
  induction h with
  | nil => rfl
  | cons hoverwrites _ _ ih => rw [flatMap_append, flatMap_cons, hoverwrites, ih]

theorem exists_fetches {first rest : List α} {entry : α} {operand : Operand}
    (h : Phase overwrites fetched (first ++ entry :: rest) lines)
    (hoperand : fetched entry = some operand) :
    ∃ before line after, lines = before ++ line :: after ∧ Fetches operand line ∧
      before.flatMap Line.overwrites = first.flatMap overwrites := by
  induction first generalizing lines with
  | nil =>
    cases h with
    | cons _ hfetched _ =>
      obtain ⟨line, more, rfl, hline⟩ := hfetched operand hoperand
      exact ⟨[], line, _, rfl, hline, rfl⟩
  | cons other first ih =>
    cases h with
    | cons hoverwrites _ hrest =>
      obtain ⟨before, line, after, rfl, hline, hbefore⟩ := ih hrest
      refine ⟨_ ++ before, line, after, (append_assoc ..).symm, hline, ?_⟩
      rw [flatMap_append, hoverwrites, hbefore, flatMap_cons]

end Phase

/-- What the first phase stores. -/
def stored? (entry : Nat × Operand) : Option Operand :=
  if entry.2.isDirect then some entry.2 else none

/-- What the last phase takes through `rax`. -/
def spilled? (entry : Nat × Operand) : Option Operand :=
  if entry.2.isDirect then none else some entry.2

/-- What has to be loaded into a register. -/
def loaded? (entry : GeneralRegister × Operand) : Option Operand :=
  if entry.2.register?.isSome then none else some entry.2

/-- What taking an argument through `rax` overwrites. -/
def spillOverwrites (entry : Nat × Operand) : List GeneralRegister :=
  if entry.2.isDirect then [] else [.rax]

/-- What loading an argument overwrites. -/
def loadOverwrites (entry : GeneralRegister × Operand) : List GeneralRegister :=
  if entry.2.register?.isSome then [] else [entry.1]

/-- What bringing a byte down overwrites. -/
def shiftOverwrites (entry : GeneralRegister × Operand) : List GeneralRegister :=
  if entry.2.register?.any Register.isHighByte then [entry.1] else []

def moveOverwrites (entry : GeneralRegister × Operand) : List GeneralRegister :=
  match entry.2.register? with
  | some r => if r.base = .general entry.1 ∧ r.isHighByte = false then [] else [entry.1]
  | none => []

/-! ## The lines of each phase -/

variable {text : String} {r : Register} {base place : GeneralRegister} {size : Size} {α : Type}
  {lines : List Line} {argument : Operand} {s s' : Session}
  {arguments : List (GeneralRegister × Operand)} {line : Line} {moves : List Move}

theorem overwrites_textThen (mnemonic : List Char) {rest : List Char} (line : Line)
    (hbase : r.general? = some base) (hmnemonic : ' ' ∉ mnemonic)
    (hother : mnemonic ≠ "xchg".toList)
    (h : text.toList = mnemonic ++ ' ' :: (r.name.toList ++ ',' :: rest)) :
    (textThen text line).overwrites = [base] := by
  have hover : overwritten text = r.general?.toList := overwritten_register hmnemonic hother h
  rw [hbase] at hover
  exact hover

theorem Phase.of_grouped {overwrites : α → List GeneralRegister} {fetched : α → Option Operand}
    {groups : α → List Line → Prop} {entries : List α} (h : Grouped groups entries lines)
    (hgroups : ∀ entry group, groups entry group →
      group.flatMap Line.overwrites = overwrites entry ∧ ∀ operand, fetched entry = some operand →
        ∃ line more, group = line :: more ∧ Fetches operand line) :
    Phase overwrites fetched entries lines := by
  induction h with
  | nil => exact .nil
  | cons hgroup _ ih =>
    obtain ⟨hoverwrites, hfetched⟩ := hgroups _ _ hgroup
    exact .cons hoverwrites hfetched ih

theorem Stores.overwrites {slot : Nat} (h : Stores slot argument lines) :
    lines.flatMap Line.overwrites = (if argument.isDirect then [] else [.rax]) ∧
      ∃ line more, lines = line :: more ∧ Fetches argument line := by
  have hslot : ∀ {text : String}, "mov [".toList <+: text.toList →
      (Line.ofText text).overwrites = [] := by
    rintro text ⟨address, htext⟩
    have hnothing : ',' ∉ ([] : List Char) := not_mem_nil
    exact overwritten_address "mov".toList (by decide) (by decide) hnothing htext.symm
  cases h with
  | @direct _ size form hdirect hsize hform =>
    have hcomma : ',' ∉ size.toList ++ [' '] := by
      unfold keyword at hsize
      cases hargument : argument.size <;> rw [hargument] at hsize <;> cases hsize <;> decide
    have hover : overwritten s!"mov {size} [rsp + {slot}]," = [] :=
      overwritten_address "mov".toList (by decide) (by decide) hcomma (by simp [toString]; rfl)
    refine ⟨?_, _, _, rfl, fetches_of_form? hform _⟩
    rw [if_pos hdirect]
    exact (append_nil _).trans hover
  | @memory size address form rax hrax hform =>
    have hbase : rax.general? = some .rax := general?_of_ofBaseName hrax
    have hline : (textThen s!"mov {rax.name}," form).overwrites = [.rax] :=
      overwrites_textThen "mov".toList form hbase (by decide) (by decide) (by simp [toString]; rfl)
    refine ⟨?_, _, _, rfl, fetches_of_form? hform _⟩
    rw [flatMap_cons, flatMap_cons, flatMap_nil, hline,
      hslot (by simp [toString, cons_prefix_cons])]
    rfl
  | reference address =>
    have hline : (textThen "lea rax," address).overwrites = [.rax] :=
      overwrites_textThen "lea".toList (r := .general .rax .qword) address rfl (by decide)
        (by decide) rfl
    refine ⟨?_, _, _, rfl, .reference _ _⟩
    rw [flatMap_cons, flatMap_cons, flatMap_nil, hline,
      hslot (by simp [toString, cons_prefix_cons])]
    rfl

theorem storeDirect_phase {e : EngineId} {arguments : List (Nat × Operand)}
    (h : storeDirect e arguments s = .ok () s') :
    ∃ lines, Writes e lines s s' ∧ Phase (fun _ => []) stored? arguments lines := by
  obtain ⟨lines, hwrites, hgrouped⟩ := storeDirect_writes h
  refine ⟨lines, hwrites, .of_grouped hgrouped fun entry group hgroup => ?_⟩
  cases hgroup with
  | skip hother =>
    refine ⟨rfl, fun operand hoperand => ?_⟩
    simp [stored?, hother] at hoperand
  | store hdirect hstores =>
    obtain ⟨hover, hfetches⟩ := hstores.overwrites
    rw [if_pos hdirect] at hover
    refine ⟨hover, fun operand hoperand => ?_⟩
    rw [stored?, if_pos hdirect] at hoperand
    cases hoperand
    exact hfetches

theorem overwrites_shift (place : GeneralRegister) :
    (Line.ofText s!"shr {place.nameAt .word}, 8").overwrites = [place] :=
  overwrites_textThen "shr".toList (r := .general place .word) [] rfl (by decide) (by decide)
    (by simp [toString, Register.name]; rfl)

theorem highByteLines_phase (arguments : List (GeneralRegister × Operand)) :
    Phase shiftOverwrites (fun _ => none) arguments (highByteLines arguments) := by
  have hskip : ∀ {entry rest}, shiftOverwrites entry = [] →
      Phase shiftOverwrites (fun _ => none) rest (highByteLines rest) →
      Phase shiftOverwrites (fun _ => none) (entry :: rest) ([] ++ highByteLines rest) :=
    fun hnothing h => .cons hnothing.symm (fun _ hnone => by cases hnone) h
  fun_induction highByteLines arguments with
  | case1 => exact .nil
  | case2 place r rest hhigh ih =>
    have hshift : shiftOverwrites (place, .register r) = [place] := if_pos hhigh
    have hline : [Line.ofText s!"shr {place.nameAt .word}, 8"].flatMap Line.overwrites = [place] :=
      (append_nil _).trans (overwrites_shift place)
    exact .cons (hline.trans hshift.symm) (fun _ hnone => by cases hnone) ih
  | case3 place r rest hhigh ih => exact hskip (if_neg hhigh) ih
  | case4 entry rest hother ih =>
    refine hskip ?_ ih
    rw [shiftOverwrites, register?_eq_none hother]
    rfl

theorem fetches_of_resizeOperand {resized : Operand} (hnone : argument.register? = none)
    (h : resizeOperand argument size s = .ok resized s') (hfetches : Fetches resized line) :
    Fetches argument line := by
  have hsized : ∀ {make : Size → Line → Operand} {text : Line},
      sizedOperand make size text s = .ok resized s' → resized = make size text := by
    intro make text h
    unfold sizedOperand at h
    by_cases hsize : size.isDefined = true
    · rw [if_neg (by simp [hsize])] at h
      exact (pure_eq_ok.mp h).1.symm
    · rw [if_pos (by simp [hsize]), get_bind_eq_ok] at h
      obtain ⟨_, _, _, hfail⟩ := bind_eq_ok.mp h
      cases hfail
  cases argument with
  | register r => cases hnone
  | reference address =>
    obtain ⟨rfl, -⟩ := pure_eq_ok.mp h
    exact hfetches
  | immediate old text =>
    obtain rfl := hsized h
    cases hfetches with
    | immediate instruction keyword => exact .immediate instruction keyword old text
  | memory old address =>
    obtain rfl := hsized h
    cases hfetches with
    | memory instruction keyword => exact .memory instruction keyword old address

theorem loadLines_phase (h : loadLines arguments s = .ok lines s') :
    Phase loadOverwrites loaded? arguments lines := by
  refine .of_grouped (loadLines_writes h) fun entry group hgroup => ?_
  cases hgroup with
  | skip place r => exact ⟨rfl, fun operand hoperand => by cases hoperand⟩
  | address place address =>
    have hline : (textThen s!"lea {place.name}," address).overwrites = [place] :=
      overwrites_textThen "lea".toList (r := .general place .qword) address rfl (by decide)
        (by decide) (by simp [toString, Register.name, GeneralRegister.nameAt]; rfl)
    refine ⟨(append_nil _).trans hline, fun operand hoperand => ?_⟩
    cases hoperand
    exact ⟨_, _, rfl, .reference _ _⟩
  | @value place argument _ _ _ form targetText _ hnone htarget htargetForm htext hresize hform =>
    obtain ⟨r, rfl, hbase⟩ := ofRegisterPart_eq_ok htarget
    cases htargetForm
    obtain rfl : r.name = targetText := plainText_ofText htext
    have hline : (textThen s!"mov {r.name}," form).overwrites = [place] :=
      overwrites_textThen "mov".toList form hbase (by decide) (by decide) (by simp [toString]; rfl)
    have hloads : loadOverwrites (place, argument) = [place] := if_neg (by simp [hnone])
    refine ⟨(append_nil _).trans (hline.trans hloads.symm), fun operand hoperand => ?_⟩
    rw [loaded?, if_neg (by simp [hnone])] at hoperand
    cases hoperand
    exact ⟨_, _, rfl, fetches_of_resizeOperand hnone hresize (fetches_of_form? hform _)⟩

theorem spillLines_phase {arguments : List (Nat × Operand)}
    (h : spillLines arguments s = .ok lines s') :
    Phase spillOverwrites spilled? arguments lines := by
  refine .of_grouped (spillLines_writes h) fun entry group hgroup => ?_
  cases hgroup with
  | skip hother =>
    have hdirect : entry.2.isDirect = true := by simpa using hother
    refine ⟨(if_pos hdirect).symm, fun operand hoperand => ?_⟩
    rw [spilled?, if_pos hdirect] at hoperand
    cases hoperand
  | store hturn hstores =>
    obtain ⟨hover, hfetches⟩ := hstores.overwrites
    refine ⟨hover, fun operand hoperand => ?_⟩
    rw [spilled?, if_neg (by simp [hturn])] at hoperand
    cases hoperand
    exact hfetches

/-! ## Register arguments -/

theorem exists_move_iff (h : argumentMoves arguments = .ok moves) (target source : RegisterBase) :
    (∃ move ∈ moves, move.target.base = target ∧ move.source.base = source) ↔
      ∃ entry ∈ arguments, ∃ r, entry.2.register? = some r ∧ .general entry.1 = target ∧
        r.base = source := by
  have hmem : (target, source) ∈ moves.map (fun move => (move.target.base, move.source.base)) ↔
      (target, source) ∈ arguments.filterMap fun entry =>
        entry.2.register?.map fun r => (.general entry.1, r.base) := by
    rw [argumentMoves_eq_ok h]
  simpa only [mem_map, mem_filterMap, Prod.mk.injEq, Option.map_eq_some_iff] using hmem

theorem mem_moved {steps : List ShuffleStep} (h : argumentMoves arguments = .ok moves)
    (hsteps : Carries moves steps) (base : GeneralRegister) :
    (base ∈ (steps.map ShuffleStep.line).flatMap Line.overwrites ∨
      base ∈ arguments.flatMap shiftOverwrites) ↔ base ∈ arguments.flatMap moveOverwrites := by
  have hshuffle : base ∈ (steps.map ShuffleStep.line).flatMap Line.overwrites ↔
      ∃ entry ∈ arguments, ∃ r, entry.2.register? = some r ∧ entry.1 = base ∧
        r.base ≠ .general base := by
    have hbases : base ∈ (steps.map ShuffleStep.line).flatMap Line.overwrites ↔
        .general base ∈ steps.flatMap ShuffleStep.bases := by
      simp only [flatMap_map, mem_flatMap]
      exact exists_congr fun step => and_congr_right fun _ => step.mem_overwritten_text base
    rw [hbases, hsteps.overwrites]
    constructor
    · rintro ⟨move, hmove, htarget, hsource⟩
      obtain ⟨entry, hentry, r, hr, hplace, hbase⟩ :=
        (exists_move_iff h _ _).mp ⟨move, hmove, htarget, rfl⟩
      exact ⟨entry, hentry, r, hr, RegisterBase.general.inj hplace, hbase ▸ hsource⟩
    · rintro ⟨entry, hentry, r, hr, rfl, hbase⟩
      obtain ⟨move, hmove, htarget, hsource⟩ :=
        (exists_move_iff h _ _).mpr ⟨entry, hentry, r, hr, rfl, rfl⟩
      exact ⟨move, hmove, htarget, hsource ▸ hbase⟩
  rw [hshuffle]
  simp only [mem_flatMap]
  constructor
  · rintro (⟨entry, hentry, r, hr, rfl, hbase⟩ | ⟨entry, hentry, hmem⟩)
    · refine ⟨entry, hentry, ?_⟩
      simp [moveOverwrites, hr, hbase]
    · refine ⟨entry, hentry, ?_⟩
      unfold shiftOverwrites at hmem
      cases hr : entry.2.register? with
      | none => simp [hr] at hmem
      | some r => cases hhigh : r.isHighByte <;> simp_all [moveOverwrites]
  · rintro ⟨entry, hentry, hmem⟩
    unfold moveOverwrites at hmem
    cases hr : entry.2.register? with
    | none => simp [hr] at hmem
    | some r =>
      simp only [hr] at hmem
      by_cases hplace : r.base = .general entry.1
      · refine .inr ⟨entry, hentry, ?_⟩
        cases hhigh : r.isHighByte <;> simp_all [shiftOverwrites]
      · rw [if_neg (by simp [hplace])] at hmem
        obtain rfl := mem_singleton.mp hmem
        exact .inl ⟨entry, hentry, r, hr, rfl, hplace⟩

def overwrittenBefore (site : CallSite) (j : Nat) : List GeneralRegister :=
  if 4 ≤ j ∧ site.arguments[j]?.any Operand.isDirect then []
  else (registerArguments site.arguments).flatMap moveOverwrites ++
    ((registerArguments site.arguments).take j).flatMap loadOverwrites ++
    ((stackArguments site.arguments).take (j - 4)).flatMap spillOverwrites

theorem mem_loadOverwrites (h : base ∈ loadOverwrites (place, argument)) :
    argument.register? = none ∧ base = place := by
  unfold loadOverwrites at h
  cases hr : argument.register? with
  | some r => simp [hr] at h
  | none => simpa [hr] using h

theorem eq_rax_of_mem_spillOverwrites {entry : Nat × Operand} (h : base ∈ spillOverwrites entry) :
    base = .rax := by
  unfold spillOverwrites at h
  split at h
  · cases h
  · exact mem_singleton.mp h

/-! ## Places -/

theorem argument_eq_of_mem {arguments : List Operand} {a b : Operand}
    (ha : (place, a) ∈ registerArguments arguments)
    (hb : (place, b) ∈ registerArguments arguments) : a = b :=
  congrArg Prod.snd (inj_on_of_nodup_map (nodup_places arguments) ha hb rfl)

theorem take_registerArguments {arguments : List Operand} {j : Nat} (h : 4 ≤ j) :
    (registerArguments arguments).take j = registerArguments arguments := by
  apply take_of_length_le
  have hlength : (registerArguments arguments).length = min 4 arguments.length := length_zip
  omega

theorem eq_take_append_cons {l : List α} {i : Nat} {a : α} (h : l[i]? = some a) :
    l = l.take i ++ a :: l.drop (i + 1) := by
  obtain ⟨hi, rfl⟩ := List.getElem?_eq_some_iff.mp h
  rw [getElem_cons_drop, take_append_drop]

/-! ## Calls -/

/-- The lines of a call, up to the one that calls. -/
structure CallPhases (site : CallSite) (stores moved loads spills : List Line) : Prop where
  stores : Phase (fun _ => []) stored? (stackArguments site.arguments) stores
  moved : ∀ base, base ∈ moved.flatMap Line.overwrites ↔
    base ∈ (registerArguments site.arguments).flatMap moveOverwrites
  loads : Phase loadOverwrites loaded? (registerArguments site.arguments) loads
  spills : Phase spillOverwrites spilled? (stackArguments site.arguments) spills

namespace CallPhases

def IsFetched (site : CallSite) (lines : List Line) (j : Nat) (argument : Operand) : Prop :=
  ∃ before line after, lines = before ++ line :: after ∧ Fetches argument line ∧
    ∀ r, r ∈ before.flatMap Line.overwrites ↔ r ∈ overwrittenBefore site j

variable {site : CallSite} {stores moved loads spills : List Line} {j : Nat} {argument : Operand}
  (h : CallPhases site stores moved loads spills)

include h

theorem flatMap_stores : stores.flatMap Line.overwrites = [] := by
  rw [h.stores.flatMap_overwrites]
  simp

section

variable (hargument : site.arguments[j]? = some argument)
include hargument

theorem fetches_stored (hfour : 4 ≤ j) (hdirect : argument.isDirect = true) :
    IsFetched site (stores ++ moved ++ loads ++ spills) j argument := by
  have hnever : overwrittenBefore site j = [] := if_pos (by simp [hargument, hfour, hdirect])
  have hstores := h.stores
  rw [eq_take_append_cons (getElem?_stackArguments hargument hfour)] at hstores
  obtain ⟨before, line, after, rfl, hline, hbefore⟩ := hstores.exists_fetches (if_pos hdirect)
  refine ⟨before, line, after ++ moved ++ loads ++ spills, by simp, hline, fun r => ?_⟩
  rw [hbefore, hnever]
  simp

theorem fetches_loaded (hfour : j < 4) (hnone : argument.register? = none) :
    IsFetched site (stores ++ moved ++ loads ++ spills) j argument := by
  have hturn : overwrittenBefore site j = _ := if_neg (by omega)
  have hentry : (registerArguments site.arguments)[j]? = some (parameterRegisters[j], argument) :=
    getElem?_zip_eq_some.mpr ⟨getElem?_eq_getElem hfour, hargument⟩
  have hloads := h.loads
  rw [eq_take_append_cons hentry] at hloads
  obtain ⟨before, line, after, rfl, hline, hbefore⟩ :=
    hloads.exists_fetches (if_neg (by simp [hnone]))
  refine ⟨stores ++ moved ++ before, line, after ++ spills, by simp, hline, fun r => ?_⟩
  have hnoSpill : j - 4 = 0 := by omega
  rw [hturn, hnoSpill]
  simp only [flatMap_append, mem_append, h.flatMap_stores, hbefore, h.moved,
    not_mem_nil, false_or, take_zero, flatMap_nil, or_false]

theorem fetches_spilled (hfour : 4 ≤ j) (hdirect : argument.isDirect = false) :
    IsFetched site (stores ++ moved ++ loads ++ spills) j argument := by
  have hturn : overwrittenBefore site j = _ := if_neg (by simp [hargument, hdirect])
  have hspills := h.spills
  rw [eq_take_append_cons (getElem?_stackArguments hargument hfour)] at hspills
  obtain ⟨before, line, after, rfl, hline, hbefore⟩ :=
    hspills.exists_fetches (if_neg (by simp [hdirect]))
  refine ⟨stores ++ moved ++ loads ++ before, line, after, by simp, hline, fun r => ?_⟩
  rw [hturn, take_registerArguments hfour]
  simp only [flatMap_append, mem_append, h.flatMap_stores, hbefore, h.moved,
    h.loads.flatMap_overwrites, not_mem_nil, false_or]

theorem fetches (hlate : argument.register? = none ∨ 4 ≤ j) :
    IsFetched site (stores ++ moved ++ loads ++ spills) j argument := by
  by_cases hfour : 4 ≤ j
  · cases hdirect : argument.isDirect with
    | true => exact h.fetches_stored hargument hfour hdirect
    | false => exact h.fetches_spilled hargument hfour hdirect
  · have hnone : argument.register? = none := by tauto
    exact h.fetches_loaded hargument (Nat.lt_of_not_le hfour) hnone

end

theorem mem_overwrites (r : GeneralRegister) :
    r ∈ (stores ++ moved ++ loads ++ spills).flatMap Line.overwrites ↔
      r ∈ overwrittenBefore site site.arguments.length := by
  have hturn : overwrittenBefore site site.arguments.length = _ := if_neg (by simp)
  have hregisters : (registerArguments site.arguments).take site.arguments.length =
      registerArguments site.arguments := by
    apply take_of_length_le
    rw [registerArguments, length_zip]
    exact min_le_right _ _
  have hstack : (stackArguments site.arguments).take (site.arguments.length - 4) =
      stackArguments site.arguments := by
    apply take_of_length_le
    simp [stackArguments, parameterRegisters]
  rw [hturn, hregisters, hstack]
  simp only [flatMap_append, mem_append, h.flatMap_stores, h.moved,
    h.loads.flatMap_overwrites, h.spills.flatMap_overwrites, not_mem_nil, false_or]

theorem not_mem_overwrites (hentry : (place, .register r) ∈ registerArguments site.arguments)
    (hline : line ∈ loads ++ spills) : place ∉ line.overwrites := by
  intro hover
  rcases mem_append.mp hline with hline | hline
  · have hmem := mem_flatMap.mpr ⟨line, hline, hover⟩
    rw [h.loads.flatMap_overwrites] at hmem
    obtain ⟨⟨place', argument⟩, hentry', hover'⟩ := mem_flatMap.mp hmem
    obtain ⟨hnone, rfl⟩ := mem_loadOverwrites hover'
    cases argument_eq_of_mem hentry hentry'
    cases hnone
  · have hmem := mem_flatMap.mpr ⟨line, hline, hover⟩
    rw [h.spills.flatMap_overwrites] at hmem
    obtain ⟨entry, -, hover'⟩ := mem_flatMap.mp hmem
    obtain rfl := eq_rax_of_mem_spillOverwrites hover'
    exact absurd (of_mem_zip hentry).1 (by decide)

end CallPhases

/-- Which operands of a call are fetched as they were before it. Register arguments are carried into
    their places all at once, and behind that a place is overwritten only to bring down a byte that
    was carried in the upper half of a word. Every other operand has one line that fetches it: the
    registers it reads are intact up to that line exactly if none of them is overwritten before the
    operand's turn. The callee comes last. -/
theorem call_operands_intact_iff {e : EngineId} {site : CallSite} {s s' : Session}
    (h : call e site s = .ok () s') :
    ∃ (stores : List Line) (steps : List ShuffleStep) (loads result : List Line),
      Writes e (stores ++ steps.map ShuffleStep.line ++ loads ++
        textThen "call" site.callee.text :: result) s s' ∧
      (∀ line ∈ stores, line.overwrites = []) ∧
      (∀ (j : Nat) (r : Register) (place : GeneralRegister),
        site.arguments[j]? = some (.register r) → parameterRegisters[j]? = some place →
        (∀ {α : Type} (f : RegisterBase → α),
          steps.foldl ShuffleStep.carry f (.general place) = f r.base) ∧
        ∀ line ∈ loads, place ∈ line.overwrites →
          r.isHighByte = true ∧ line = Line.ofText s!"shr {place.nameAt .word}, 8") ∧
      (∀ (j : Nat) (argument : Operand), site.arguments[j]? = some argument →
        argument.register? = none ∨ 4 ≤ j →
        ∃ before line after,
          stores ++ steps.map ShuffleStep.line ++ loads = before ++ line :: after ∧
          Fetches argument line ∧
          (Intact before (s.registersIn argument.text) ↔
            ∀ r ∈ s.registersIn argument.text, r ∉ overwrittenBefore site j)) ∧
      (Intact (stores ++ steps.map ShuffleStep.line ++ loads) (s.registersIn site.callee.text) ↔
        ∀ r ∈ s.registersIn site.callee.text,
          r ∉ overwrittenBefore site site.arguments.length) := by
  obtain ⟨moves, steps, loads, spills, result, s₁, s₂, s₃, hstore, hmoves, hsteps, hloads, hspills,
    -, hwrites⟩ := call_lines h False.elim
  obtain ⟨stores, hstoreWrites, hstores⟩ := storeDirect_phase hstore
  have hcarries := shuffle_carries (nodup_targets hmoves) hsteps
  have hmoved := mem_moved hmoves hcarries
  let shifts := highByteLines (registerArguments site.arguments)
  have hphases : CallPhases site stores (steps.map ShuffleStep.line ++ shifts) loads spills :=
    { stores := hstores
      moved := fun base => by
        rw [List.flatMap_append, List.mem_append, (highByteLines_phase _).flatMap_overwrites,
          hmoved]
      loads := loadLines_phase hloads
      spills := spillLines_phase hspills }
  have hlines : stores ++ steps.map ShuffleStep.line ++ (shifts ++ loads ++ spills) =
      stores ++ (steps.map ShuffleStep.line ++ shifts) ++ loads ++ spills := by
    simp only [List.append_assoc]
  refine ⟨stores, steps, shifts ++ loads ++ spills, result, hwrites stores hstoreWrites,
    List.flatMap_eq_nil_iff.mp hphases.flatMap_stores, ?_, ?_, ?_⟩
  · intro j r place hargument hplace
    have hentry : (place, .register r) ∈ registerArguments site.arguments :=
      List.mem_of_getElem? (List.getElem?_zip_eq_some.mpr ⟨hplace, hargument⟩)
    constructor
    · intro α f
      obtain ⟨move, hmove, htarget, hsource⟩ :=
        (exists_move_iff hmoves _ _).mpr ⟨_, hentry, r, rfl, rfl, rfl⟩
      rw [← htarget, hcarries.arrives f move hmove, hsource]
    · intro line hline hover
      rw [List.append_assoc] at hline
      rcases List.mem_append.mp hline with hline | hline
      · obtain ⟨place', r', hentry', hhigh, rfl⟩ := mem_highByteLines hline
        rw [overwrites_shift, List.mem_singleton] at hover
        obtain rfl := hover
        cases argument_eq_of_mem hentry hentry'
        exact ⟨hhigh, rfl⟩
      · exact absurd hover (hphases.not_mem_overwrites hentry hline)
  · intro j argument hargument hlate
    obtain ⟨before, line, after, hsplit, hline, hbefore⟩ := hphases.fetches hargument hlate
    exact ⟨before, line, after, hlines.trans hsplit, hline, intact_iff hbefore⟩
  · rw [hlines]
    exact intact_iff hphases.mem_overwrites

/-- A function is open. -/
def callingSession : Session :=
  leaves ((EngineId.runner ⟨0⟩ 0).runAction .generate (.prologue "f" []))
    (leaves ((EngineId.runner ⟨0⟩ 0).compile [.prologue "f" [], .epilogue] .resolve)
      (leaves (startEngine defaultSections) {}))

/-- The second argument is reached through the register of the first. -/
def hazardousSite : CallSite where
  callee := .immediate .qword [.ofText "g"]
  parameters := none
  arguments := [.register (.general .rbx .qword), .memory .qword [.ofText "[rcx]"],
    .reference [.ofText "[rsi + 8]"]]
  targets := []

/-- The second argument is fetched after its address was overwritten, the third one and the callee
    are fetched intact. -/
theorem call_operands_intact_iff_hazard :
    call ⟨0⟩ hazardousSite callingSession =
      .ok () (leaves (call ⟨0⟩ hazardousSite) callingSession) ∧
      ∃ (lines result : List Line),
        Writes ⟨0⟩ (lines ++ textThen "call" hazardousSite.callee.text :: result) callingSession
          (leaves (call ⟨0⟩ hazardousSite) callingSession) ∧
        (∃ before line after, lines = before ++ line :: after ∧
          Fetches (.memory .qword [.ofText "[rcx]"]) line ∧ ¬Intact before [.rcx]) ∧
        (∃ before line after, lines = before ++ line :: after ∧
          Fetches (.reference [.ofText "[rsi + 8]"]) line ∧ Intact before [.rsi]) ∧
        Intact lines (callingSession.registersIn [.ofText "g"]) := by
  have hcall : call ⟨0⟩ hazardousSite callingSession =
      .ok () (leaves (call ⟨0⟩ hazardousSite) callingSession) :=
    eq_ok_of_succeeds (by decide +kernel)
  have hsecond : callingSession.registersIn (Operand.memory .qword [.ofText "[rcx]"]).text =
      [.rcx] := by decide +kernel
  have hthird : callingSession.registersIn (Operand.reference [.ofText "[rsi + 8]"]).text =
      [.rsi] := by decide +kernel
  have hcallee : callingSession.registersIn hazardousSite.callee.text = [] := by decide +kernel
  obtain ⟨stores, steps, loads, result, hwrites, -, -, hfetches, hlast⟩ :=
    call_operands_intact_iff hcall
  refine ⟨hcall, _, result, hwrites, ?_, ?_, hlast.mpr ?_⟩
  · obtain ⟨before, line, after, hlines, hline, hintact⟩ := hfetches 1 _ rfl (.inl rfl)
    refine ⟨before, line, after, hlines, hline, ?_⟩
    rw [hsecond] at hintact
    rw [hintact]
    decide +kernel
  · obtain ⟨before, line, after, hlines, hline, hintact⟩ := hfetches 2 _ rfl (.inl rfl)
    refine ⟨before, line, after, hlines, hline, ?_⟩
    rw [hthird] at hintact
    rw [hintact]
    decide +kernel
  · rw [hcallee]
    decide +kernel

end Win64

end StagedAsm
