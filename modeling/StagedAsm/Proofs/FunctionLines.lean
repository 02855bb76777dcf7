import StagedAsm.Proofs.EmittedLines

/-!
# The lines of calls, returns and prologues

What the parts of a function put into the program section. A call stores the arguments that do not
fit into registers, each into its own slot above the stack pointer. A return gives back the frame in
front of the `ret`, and a prologue stores the register parameters before it takes the frame.
-/

namespace StagedAsm.Win64

open EngineId List

/-! ## Registers of arguments -/

section Registers

variable {r : Register} {base place : GeneralRegister} {size : Size} {text : String}
  {argument : Operand} {arguments : List (GeneralRegister × Operand)} {moves : List Move}
  {s s' : Session}

theorem general?_of_ofBaseName (h : Register.ofBaseName base.name size = .ok r) :
    r.general? = some base := by
  have hname : GeneralRegister.ofName? base.name = some base := by cases base <;> decide
  unfold Register.ofBaseName at h
  rw [hname, Option.bind_some] at h
  cases hpart : base.part? size with
  | none => simp [hpart] at h
  | some part =>
    simp only [hpart, Except.ok.injEq] at h
    exact Register.general?_eq_some_iff.mpr (h ▸ Register.base_of_part? hpart)

theorem ofRegisterPart_eq_ok {upgrade : Bool} {target : Operand}
    (h : Operand.ofRegisterPart base.name size upgrade = .ok target) :
    ∃ r, target = .register r ∧ r.general? = some base := by
  unfold Operand.ofRegisterPart at h
  dsimp only at h
  cases hpart : Register.ofBaseName base.name (if upgrade && size == .byte &&
      !(GeneralRegister.ofName? base.name).any fun r => r.byteRegister?.isSome
      then .word else size) with
  | error fault =>
    rw [hpart] at h
    cases h
  | ok r =>
    rw [hpart] at h
    cases h
    exact ⟨r, rfl, general?_of_ofBaseName hpart⟩

theorem plainText_ofText {found : String} (h : plainText (Line.ofText text) s = .ok found s') :
    text = found := by
  unfold plainText at h
  rw [get_bind_eq_ok] at h
  obtain ⟨hfound, -⟩ := ofFault_eq_ok.mp h
  rw [Session.lineText, s.renderLine_ofText] at hfound
  exact Except.ok.inj hfound

theorem base_of_ofBaseName (base : GeneralRegister) (hbase : base ≠ .rsp)
    (h : Register.ofBaseName base.name size = .ok r) : r.base ≠ .general .rsp := by
  rw [Register.general?_eq_some_iff.mp (general?_of_ofBaseName h)]
  simpa using hbase

theorem register?_eq_none
    (h : ∀ place' r, (place, argument) = (place', Operand.register r) → False) :
    argument.register? = none := by
  cases argument with
  | register r => exact absurd rfl (h place r)
  | _ => rfl

theorem argumentMove_eq_ok {move : Move} (h : argumentMove place r = .ok move) :
    move.target.base = .general place ∧ move.source.base = r.base := by
  unfold argumentMove at h
  by_cases hbyte : r.size = .byte
  · rw [if_pos hbyte] at h
    obtain ⟨source, hsource, h1⟩ := except_bind_eq_ok.mp h
    obtain ⟨target, htarget, h2⟩ := except_bind_eq_ok.mp h1
    cases h2
    exact ⟨base_of_resize (r := .general place .qword) htarget, base_of_resize hsource⟩
  · rw [if_neg hbyte, pure_bind] at h
    obtain ⟨target, htarget, h1⟩ := except_bind_eq_ok.mp h
    cases h1
    exact ⟨base_of_resize (r := .general place .qword) htarget, rfl⟩

/-- The moves of register arguments, in whole registers. -/
theorem argumentMoves_eq_ok (h : argumentMoves arguments = .ok moves) :
    moves.map (fun move => (move.target.base, move.source.base)) =
      arguments.filterMap fun entry =>
        entry.2.register?.map fun r => (.general entry.1, r.base) := by
  fun_induction argumentMoves arguments generalizing moves with
  | case1 =>
    cases h
    rfl
  | case2 place r rest ih =>
    obtain ⟨move, hmove, h1⟩ := except_bind_eq_ok.mp h
    obtain ⟨others, hrest, h2⟩ := except_bind_eq_ok.mp h1
    cases h2
    obtain ⟨htarget, hsource⟩ := argumentMove_eq_ok hmove
    simp only [map_cons, htarget, hsource, ih hrest, Operand.register?, filterMap_cons,
      Option.map_some]
  | case3 entry rest hother ih =>
    obtain ⟨place, argument⟩ := entry
    have hnone := register?_eq_none hother
    rw [filterMap_cons_none (by simp [hnone]), ih h]

theorem nodup_places (arguments : List Operand) :
    ((registerArguments arguments).map Prod.fst).Nodup := by
  rcases arguments with _ | ⟨a, _ | ⟨b, _ | ⟨c, _ | ⟨d, rest⟩⟩⟩⟩ <;>
    simp [registerArguments, parameterRegisters]

theorem nodup_targets {arguments : List Operand}
    (h : argumentMoves (registerArguments arguments) = .ok moves) : (targetBases moves).Nodup := by
  have hsublist : ∀ entries : List (GeneralRegister × Operand),
      ((entries.filterMap fun entry => entry.2.register?.map fun r =>
        (RegisterBase.general entry.1, r.base)).map Prod.fst).Sublist
        ((entries.map Prod.fst).map .general) := by
    intro entries
    induction entries with
    | nil => simp
    | cons entry rest ih =>
      cases hr : entry.2.register? with
      | none =>
        simp only [filterMap_cons, hr, Option.map_none, map_cons]
        exact ih.cons _
      | some r =>
        simp only [filterMap_cons, hr, Option.map_some, map_cons]
        exact ih.cons_cons _
  have hplaces : (((registerArguments arguments).map Prod.fst).map RegisterBase.general).Nodup :=
    (nodup_places arguments).map fun _ _ heq => RegisterBase.general.inj heq
  have htargets := congrArg (List.map Prod.fst) (argumentMoves_eq_ok h)
  rw [map_map] at htargets
  show (moves.map (Prod.fst ∘ fun move => (move.target.base, move.source.base))).Nodup
  rw [htargets]
  exact (hsublist _).nodup hplaces

theorem place_ne_rsp {arguments : List Operand} {entry : GeneralRegister × Operand}
    (h : entry ∈ registerArguments arguments) : entry.1 ≠ .rsp := by
  intro heq
  exact absurd (heq ▸ (of_mem_zip h).1) (by decide)

end Registers

variable {e : EngineId} {s s' : Session}

/-! ## Operands -/

/-- The lines that store an argument into a slot above the stack pointer. -/
inductive Stores (slot : Nat) : Operand → List Line → Prop where
  | direct {operand : Operand} {size : String} {form : Line} (hdirect : operand.isDirect = true)
      (hsize : keyword operand.size = .ok size) (hform : operand.form? = .ok (some form)) :
      Stores slot operand [textThen s!"mov {size} [rsp + {slot}]," form]
  | memory {size : Size} {address form : Line} {rax : Register}
      (hrax : Register.ofBaseName "rax" size = .ok rax)
      (hform : (Operand.memory size address).form? = .ok (some form)) :
      Stores slot (.memory size address)
        [textThen s!"mov {rax.name}," form, Line.ofText s!"mov [rsp + {slot}], {rax.name}"]
  | reference (address : Line) :
      Stores slot (.reference address)
        [textThen "lea rax," address, Line.ofText s!"mov [rsp + {slot}], rax"]

variable {operand argument : Operand} {text name : String} {lines : List Line}
  {arguments : List Operand} {number : Nat} {site : CallSite} {f : FrameId} {size : UInt32}
  {parameters : List (TypeRefId × String)} {r : Runner}

theorem directForm_eq_ok {form : Line} (h : directForm operand s = .ok form s') :
    operand.form? = .ok (some form) ∧ s' = s := by
  obtain ⟨found, s1, hform, h1⟩ := bind_eq_ok.mp h
  obtain ⟨hfound, rfl⟩ := ofExcept_eq_ok.mp hform
  cases found with
  | none =>
    obtain ⟨_, _, _, h2⟩ := bind_eq_ok.mp h1
    obtain ⟨_, _, _, hfail⟩ := bind_eq_ok.mp h2
    cases hfail
  | some line =>
    obtain ⟨rfl, rfl⟩ := pure_eq_ok.mp h1
    exact ⟨hfound, rfl⟩

/-! ## Lines that transfer values -/

section Texts

variable {mnemonic : String} {line : Line} {spared : Prop}

theorem transfers_textThen (h : ∀ tail, IsTransfer (text ++ tail) spared) (line : Line) :
    (textThen text line).Transfers spared := by
  refine ⟨[text], line, rfl, fun tail _ => ?_⟩
  rw [joinTokens_cons, joinTokensAfter, String.append_empty]
  exact h tail

theorem transfers_register (mnemonic : String) {rest : List Char} {r : Register} (line : Line)
    (hmem : mnemonic ∈ transferMnemonics) (hother : mnemonic ≠ "xchg")
    (hbase : r.base ≠ .general .rsp)
    (h : text.toList = mnemonic.toList ++ ' ' :: (r.name.toList ++ ',' :: rest)) :
    (textThen text line).Transfers spared := by
  refine transfers_textThen (fun tail => ?_) line
  have htail : (text ++ tail).toList =
      mnemonic.toList ++ ' ' :: (r.name.toList ++ ',' :: (rest ++ tail.toList)) := by
    simp [h]
  exact .of_register mnemonic hmem hother (fun _ => hbase) htail

theorem transfers_address (mnemonic : String) {width address : List Char} (line : Line)
    (hmem : mnemonic ∈ transferMnemonics) (hother : mnemonic ≠ "xchg") (hwidth : ',' ∉ width)
    (h : text.toList = mnemonic.toList ++ ' ' :: (width ++ '[' :: address)) :
    (textThen text line).Transfers spared := by
  refine transfers_textThen (fun tail => ?_) line
  have htail : (text ++ tail).toList =
      mnemonic.toList ++ ' ' :: (width ++ '[' :: (address ++ tail.toList)) := by
    simp [h]
  exact .of_address mnemonic hmem hother hwidth htail

end Texts

theorem Stores.transfers {slot : Nat} (h : Stores slot operand lines) :
    ∀ line ∈ lines, line.Transfers := by
  have hslot : ∀ {text : String}, "mov [".toList <+: text.toList →
      (Line.ofText text).Transfers := by
    rintro text ⟨address, htext⟩
    exact transfers_address "mov" [] (by decide) (by decide) not_mem_nil htext.symm
  cases h with
  | @direct _ size form hdirect hsize hform =>
    have hcomma : ',' ∉ size.toList ++ [' '] := by
      unfold keyword at hsize
      cases hargument : operand.size <;> rw [hargument] at hsize <;> cases hsize <;> decide
    exact forall_mem_singleton.mpr (transfers_address "mov" form (by decide) (by decide) hcomma
      (by simp [toString]; rfl))
  | @memory size address form rax hrax hform =>
    refine forall_mem_cons.mpr ⟨transfers_register "mov" form (by decide) (by decide)
      (base_of_ofBaseName .rax (by decide) hrax) (by simp [toString]; rfl),
      forall_mem_singleton.mpr (hslot ?_)⟩
    simp [toString, cons_prefix_cons]
  | reference address =>
    refine forall_mem_cons.mpr ⟨transfers_register "lea" (r := .general .rax .qword) address
      (by decide) (by decide) (by decide) rfl, forall_mem_singleton.mpr (hslot ?_)⟩
    simp [toString, cons_prefix_cons]

/-- An argument that does not have its turn has no lines. -/
inductive StoresWhen (direct : Bool) : Nat × Operand → List Line → Prop where
  | store {number : Nat} {argument : Operand} {lines : List Line}
      (hturn : argument.isDirect = direct) (h : Stores (number * 8) argument lines) :
      StoresWhen direct (number, argument) lines
  | skip {entry : Nat × Operand} (hturn : entry.2.isDirect ≠ direct) : StoresWhen direct entry []

theorem StoresWhen.transfers {direct : Bool} {entry : Nat × Operand}
    (h : StoresWhen direct entry lines) : ∀ line ∈ lines, line.Transfers := by
  cases h with
  | store hturn h => exact h.transfers
  | skip hturn => simp

/-- The lines that load an argument into its register. Registers are there already. -/
inductive Loads : GeneralRegister × Operand → List Line → Prop where
  | skip (place : GeneralRegister) (r : Register) : Loads (place, .register r) []
  | address (place : GeneralRegister) (address : Line) :
      Loads (place, .reference address) [textThen s!"lea {place.name}," address]
  | value {place : GeneralRegister} {argument target resized : Operand} {targetForm form : Line}
      {targetText : String} {s : Session} (hnone : argument.register? = none)
      (htarget : Operand.ofRegisterPart place.name argument.size true = .ok target)
      (htargetForm : target.form? = .ok (some targetForm))
      (htext : plainText targetForm s = .ok targetText s)
      (hresize : resizeOperand argument target.size s = .ok resized s)
      (hform : resized.form? = .ok (some form)) :
      Loads (place, argument) [textThen s!"mov {targetText}," form]

theorem Loads.transfers {entry : GeneralRegister × Operand} (h : Loads entry lines)
    (hplace : entry.1 ≠ .rsp) : ∀ line ∈ lines, line.Transfers := by
  cases h with
  | skip place r => simp
  | address place address =>
    exact forall_mem_singleton.mpr (transfers_register "lea" (r := .general place .qword) address
      (by decide) (by decide) (fun heq => hplace (RegisterBase.general.inj heq))
      (by simp [toString, Register.name, GeneralRegister.nameAt]; rfl))
  | @value place argument _ _ _ form targetText _ hnone htarget htargetForm htext hresize hform =>
    obtain ⟨r, rfl, hbase⟩ := ofRegisterPart_eq_ok htarget
    cases htargetForm
    obtain rfl : r.name = targetText := plainText_ofText htext
    have hspares : r.base ≠ .general .rsp := by
      rw [Register.general?_eq_some_iff.mp hbase]
      simpa using hplace
    exact forall_mem_singleton.mpr (transfers_register "mov" form (by decide) (by decide) hspares
      (by simp [toString]; rfl))

/-- Every entry has a group of lines, one behind the other. -/
inductive Grouped {α : Type} (groups : α → List Line → Prop) : List α → List Line → Prop where
  | nil : Grouped groups [] []
  | cons {entry : α} {entries : List α} {group lines : List Line} (hgroup : groups entry group)
      (hrest : Grouped groups entries lines) : Grouped groups (entry :: entries) (group ++ lines)

namespace Grouped

variable {α : Type} {groups : α → List Line → Prop} {entries : List α} {lines : List Line}

variable {entry : α}

theorem skip (hgroup : groups entry []) (h : Grouped groups entries lines) :
    Grouped groups (entry :: entries) lines := .cons hgroup h

theorem transfers (h : Grouped groups entries lines)
    (hgroups : ∀ entry ∈ entries, ∀ group, groups entry group → ∀ line ∈ group, line.Transfers) :
    ∀ line ∈ lines, line.Transfers := by
  induction h with
  | nil => simp
  | cons hgroup _ ih =>
    obtain ⟨hentry, hrest⟩ := forall_mem_cons.mp hgroups
    intro line hmem
    rcases mem_append.mp hmem with hmem | hmem
    · exact hentry _ hgroup line hmem
    · exact ih hrest line hmem

theorem exists_group (h : Grouped groups entries lines) (hmem : entry ∈ entries) :
    ∃ group, groups entry group ∧ group <:+: lines := by
  induction h with
  | nil => cases hmem
  | @cons _ _ group lines hgroup _ ih =>
    rcases mem_cons.mp hmem with rfl | hmem
    · exact ⟨group, hgroup, infix_append [] _ _⟩
    · obtain ⟨found, hfound, hinfix⟩ := ih hmem
      exact ⟨found, hfound, hinfix.trans (suffix_append _ _).isInfix⟩

theorem exists_stores {direct : Bool} {arguments : List (Nat × Operand)}
    (h : Grouped (StoresWhen direct) arguments lines) (hmem : (number, argument) ∈ arguments)
    (hturn : argument.isDirect = direct) :
    ∃ stores, Stores (number * 8) argument stores ∧ stores <:+: lines := by
  obtain ⟨group, hgroup, hinfix⟩ := h.exists_group hmem
  cases hgroup with
  | store _ hstores => exact ⟨group, hstores, hinfix⟩
  | skip hother => exact absurd hturn hother

end Grouped

/-! ## Calls -/

theorem emitLines_writes (h : emitLines e lines s = .ok () s') : Writes e lines s s' := by
  induction lines generalizing s with
  | nil =>
    obtain ⟨-, rfl⟩ := pure_eq_ok.mp h
    exact .nothing (.refl _)
  | cons line rest ih =>
    obtain ⟨_, s1, hemit, hrest⟩ := bind_eq_ok.mp h
    exact (emit_writes hemit).trans (ih hrest)

theorem emitTexts_eq (texts : List String) :
    emitTexts e texts = emitLines e (texts.map Line.ofText) := by
  induction texts with
  | nil => rfl
  | cons text rest ih =>
    simp only [emitTexts, map_cons, emitLines, ih]
    rfl

theorem storeDirect_writes {arguments : List (Nat × Operand)}
    (h : storeDirect e arguments s = .ok () s') :
    ∃ lines, Writes e lines s s' ∧ Grouped (StoresWhen true) arguments lines := by
  induction arguments generalizing s with
  | nil =>
    obtain ⟨-, rfl⟩ := pure_eq_ok.mp h
    exact ⟨[], .nothing (.refl _), .nil⟩
  | cons entry rest ih =>
    obtain ⟨number, argument⟩ := entry
    unfold storeDirect at h
    by_cases hdirect : argument.isDirect = true
    · rw [if_pos hdirect] at h
      obtain ⟨size, s1, hkeyword, h1⟩ := bind_eq_ok.mp h
      obtain ⟨hsize, rfl⟩ := ofExcept_eq_ok.mp hkeyword
      obtain ⟨form, s2, hdirectForm, h2⟩ := bind_eq_ok.mp h1
      obtain ⟨hform, rfl⟩ := directForm_eq_ok hdirectForm
      obtain ⟨_, s3, hemit, hrest⟩ := bind_eq_ok.mp h2
      obtain ⟨lines, hwrites, hgrouped⟩ := ih hrest
      exact ⟨_, (emit_writes hemit).trans hwrites,
        .cons (.store hdirect (.direct hdirect hsize hform)) hgrouped⟩
    · rw [if_neg hdirect] at h
      obtain ⟨lines, hwrites, hgrouped⟩ := ih h
      exact ⟨lines, hwrites, .skip (.skip hdirect) hgrouped⟩

theorem mem_highByteLines {arguments : List (GeneralRegister × Operand)} {line : Line}
    (h : line ∈ highByteLines arguments) :
    ∃ place r, (place, .register r) ∈ arguments ∧
      r.isHighByte = true ∧ line = Line.ofText s!"shr {place.nameAt .word}, 8" := by
  fun_induction highByteLines arguments with
  | case1 => cases h
  | case2 place r rest hhigh ih =>
    rcases mem_cons.mp h with rfl | hmem
    · exact ⟨place, r, mem_cons_self, hhigh, rfl⟩
    · obtain ⟨place', r', hentry, hline⟩ := ih hmem
      exact ⟨place', r', mem_cons_of_mem _ hentry, hline⟩
  | case3 _ _ _ _ ih | case4 _ _ _ ih =>
    obtain ⟨place', r', hentry, hline⟩ := ih h
    exact ⟨place', r', mem_cons_of_mem _ hentry, hline⟩

theorem transfers_highByteLines {arguments : List Operand} :
    ∀ line ∈ highByteLines (registerArguments arguments), line.Transfers := by
  intro line hmem
  obtain ⟨place, r, hentry, -, rfl⟩ := mem_highByteLines hmem
  exact transfers_register "shr" (r := .general place .word) [] (by decide) (by decide)
    (fun heq => place_ne_rsp hentry (RegisterBase.general.inj heq))
    (by simp [toString, Register.name]; rfl)

theorem loadLines_writes {arguments : List (GeneralRegister × Operand)}
    (h : loadLines arguments s = .ok lines s') : Grouped Loads arguments lines := by
  induction arguments generalizing s lines with
  | nil =>
    obtain ⟨rfl, -⟩ := pure_eq_ok.mp h
    exact .nil
  | cons entry rest ih =>
    obtain ⟨place, argument⟩ := entry
    have hload : argument.register? = none → (do
        let target ← ofExcept (Operand.ofRegisterPart place.name argument.size true)
        let targetText ← plainText (← directForm target)
        let form ← directForm (← resizeOperand argument target.size)
        return textThen s!"mov {targetText}," form :: (← loadLines rest)) s = .ok lines s' →
        Grouped Loads ((place, argument) :: rest) lines := by
      intro hnone h
      obtain ⟨target, s1, hofPart, h1⟩ := bind_eq_ok.mp h
      obtain ⟨htarget, rfl⟩ := ofExcept_eq_ok.mp hofPart
      obtain ⟨targetForm, s2, hdirect, h2⟩ := bind_eq_ok.mp h1
      obtain ⟨htargetForm, rfl⟩ := directForm_eq_ok hdirect
      obtain ⟨targetText, s3, hplain, h3⟩ := bind_eq_ok.mp h2
      obtain rfl : s2 = s3 := (Moves.bind .look fun _ => .ofFault _).of_ok (R := Eq) hplain
      obtain ⟨resized, s4, hresize, h4⟩ := bind_eq_ok.mp h3
      obtain rfl : s2 = s4 := (moves_resizeOperand (R := Eq) _ _).of_ok hresize
      obtain ⟨form, s5, hdirect', h5⟩ := bind_eq_ok.mp h4
      obtain ⟨hform, rfl⟩ := directForm_eq_ok hdirect'
      obtain ⟨others, s6, hrest, h6⟩ := bind_eq_ok.mp h5
      obtain ⟨rfl, rfl⟩ := pure_eq_ok.mp h6
      exact .cons (.value hnone htarget htargetForm hplain hresize hform) (ih hrest)
    cases argument with
    | register r => exact .skip (.skip place r) (ih h)
    | reference address =>
      obtain ⟨others, s1, hrest, h1⟩ := bind_eq_ok.mp h
      obtain ⟨rfl, rfl⟩ := pure_eq_ok.mp h1
      exact .cons (.address place address) (ih hrest)
    | immediate size text => exact hload rfl h
    | memory size address => exact hload rfl h

theorem spillLines_writes {arguments : List (Nat × Operand)}
    (h : spillLines arguments s = .ok lines s') : Grouped (StoresWhen false) arguments lines := by
  induction arguments generalizing s lines with
  | nil =>
    obtain ⟨rfl, -⟩ := pure_eq_ok.mp h
    exact .nil
  | cons entry rest ih =>
    obtain ⟨number, argument⟩ := entry
    cases argument with
    | register r => exact .skip (.skip (by simp [Operand.isDirect])) (ih h)
    | immediate size text => exact .skip (.skip (by simp [Operand.isDirect])) (ih h)
    | reference address =>
      obtain ⟨others, s1, hrest, h1⟩ := bind_eq_ok.mp h
      obtain ⟨rfl, rfl⟩ := pure_eq_ok.mp h1
      exact .cons (.store rfl (.reference address)) (ih hrest)
    | memory size address =>
      obtain ⟨rax, s1, hofBase, h1⟩ := bind_eq_ok.mp h
      obtain ⟨hrax, rfl⟩ := ofExcept_eq_ok.mp hofBase
      obtain ⟨form, s2, hdirectForm, h2⟩ := bind_eq_ok.mp h1
      obtain ⟨hform, rfl⟩ := directForm_eq_ok hdirectForm
      obtain ⟨others, s3, hrest, h3⟩ := bind_eq_ok.mp h2
      obtain ⟨rfl, rfl⟩ := pure_eq_ok.mp h3
      exact .cons (.store rfl (.memory hrax hform)) (ih hrest)

theorem emit_transfers {line : Line} {spared : Prop}
    (h : e.emit line programSection s = .ok () s') (hline : line.Transfers spared) :
    ∃ lines, Writes e lines s s' ∧ ∀ line ∈ lines, line.Transfers spared :=
  ⟨[line], emit_writes h, forall_mem_singleton.mpr hline⟩

theorem moveResult_transfers {size : Size} {line : Register → Line → Line} {spared : Prop}
    (h : (ofExcept (Register.ofBaseName "rax" size) >>= fun rax =>
      directForm operand >>= fun form =>
      e.emit (line rax form) programSection) s = .ok () s')
    (hline : ∀ rax form, rax.base ≠ .general .rsp → operand.form? = .ok (some form) →
      (line rax form).Transfers spared) :
    ∃ lines, Writes e lines s s' ∧ ∀ line ∈ lines, line.Transfers spared := by
  obtain ⟨rax, s1, hofBase, h1⟩ := bind_eq_ok.mp h
  obtain ⟨hrax, rfl⟩ := ofExcept_eq_ok.mp hofBase
  obtain ⟨form, s2, hdirect, h2⟩ := bind_eq_ok.mp h1
  obtain ⟨hform, rfl⟩ := directForm_eq_ok hdirect
  exact emit_transfers h2 (hline rax form (base_of_ofBaseName .rax (by decide) hrax) hform)

/-- The address begins with a bracket. -/
theorem transfers_bracket {keyword : String} {size : Size} {address : Line} (rax : String)
    {spared : Prop} (hkeyword : keyword ∈ ["byte", "word", "dword", "qword"])
    (hplace : (Operand.memory size address).sparesPointer = true) :
    (textThen "mov" (Line.ofText keyword ++ address ++ [.ofText ",", .ofText rax])).Transfers
      spared := by
  cases address with
  | nil => cases hplace
  | cons symbol rest =>
    cases symbol with
    | constant text type =>
      cases type with
      | some type => cases hplace
      | none =>
        have hhead : text.toList.head? = some '[' := by simpa [Operand.sparesPointer] using hplace
        obtain ⟨chars, hchars⟩ := head?_eq_some_iff.mp hhead
        have hgap : ∀ keyword ∈ ["byte", "word", "dword", "qword"],
            gapBefore (some (.ofToken "mov")) keyword = true ∧ ',' ∉ keyword.toList := by decide
        obtain ⟨hblank, hcomma⟩ := hgap keyword hkeyword
        refine ⟨["mov", keyword, text], rest ++ [.ofText ",", .ofText rax], rfl, fun tail _ => ?_⟩
        have hjoin : joinTokens ["mov", keyword, text] = "mov" ++ " " ++ keyword ++
            (if gapBefore (some (.ofToken keyword)) text then " " else "") ++ text := by
          rw [joinTokens_cons, joinTokensAfter, joinTokensAfter, joinTokensAfter, hblank]
          simp only [if_true, String.append_empty, String.append_assoc]
        have hwidth : ',' ∉ keyword.toList ++
            (if gapBefore (some (.ofToken keyword)) text then " " else "").toList := by
          split <;> simp [hcomma]
        exact .of_address "mov" (by decide) (by decide) hwidth (by rw [hjoin]; simp [hchars]; rfl)
    | _ => cases hplace

/-- The result goes into a place that is not the stack pointer. -/
theorem transfers_storeResult {target : Operand} {form : Line} (rax : String)
    (hform : target.form? = .ok (some form)) {spared : Prop}
    (hspares : spared → target.sparesPointer = true) :
    (textThen "mov" (form ++ [.ofText ",", .ofText rax])).Transfers spared := by
  have hmov : TokenKind.ofToken "mov" = .word := by decide
  cases hplace : target.sparesPointer with
  | false =>
    refine transfers_textThen (fun tail => ⟨⟨"mov", by decide, by simp⟩, fun hspared => ?_⟩) _
    rw [hspares hspared] at hplace
    cases hplace
  | true =>
    cases target with
    | immediate size text => cases hplace
    | reference address => cases hform
    | register r =>
      cases hform
      have hbase : r.base ≠ .general .rsp := by simpa [Operand.sparesPointer] using hplace
      have hname : ∀ r ∈ Register.all, gapBefore (some .word) r.name = true := by decide +kernel
      have hcomma : ∀ last, gapBefore last "," = false := fun _ => rfl
      refine ⟨["mov", r.name, ",", rax], [], rfl, fun tail hempty => ?_⟩
      rw [hempty rfl, String.append_empty]
      have hjoin : (joinTokens ["mov", r.name, ",", rax]).toList = "mov".toList ++ ' ' ::
          (r.name.toList ++ ',' :: (joinTokensAfter (some (.ofToken ",")) [rax]).toList) := by
        rw [joinTokens_cons, joinTokensAfter, joinTokensAfter, hmov, hname r r.mem_all, hcomma]
        simp
      exact .of_register "mov" (by decide) (by decide) (fun _ => hbase) hjoin
    | memory size address =>
      cases size with
      | none => cases hform
      | byte | word | dword | qword =>
        cases hform
        exact transfers_bracket rax (by decide) hplace

theorem storeResult_writes {target : Operand} {spared : Prop}
    (h : storeResult e target s = .ok () s') (hspares : spared → target.sparesPointer = true) :
    ∃ lines, Writes e lines s s' ∧ ∀ line ∈ lines, line.Transfers spared := by
  unfold storeResult fail at h
  obtain ⟨-, h1⟩ := check_eq_ok.mp h
  split at h1
  · exact emit_transfers h1 (transfers_register "shl" (r := .general .rax .word) [] (by decide)
      (by decide) (by decide) rfl)
  · split at h1
    · obtain ⟨-, rfl⟩ := pure_eq_ok.mp h1
      exact ⟨[], .nothing (.refl _), by simp⟩
    · exact moveResult_transfers h1 fun rax form _ hform =>
        transfers_storeResult rax.name hform hspares

theorem getElem?_stackArguments (h : arguments[number]? = some argument) (hnumber : 4 ≤ number) :
    (stackArguments arguments)[number - 4]? = some (number, argument) := by
  have hsum : parameterRegisters.length + (number - 4) = number := by
    show 4 + (number - 4) = number
    omega
  rw [stackArguments, getElem?_map, getElem?_drop, hsum, getElem?_zipIdx, h]
  simp

theorem mem_stackArguments (h : arguments[number]? = some argument) (hnumber : 4 ≤ number) :
    (number, argument) ∈ stackArguments arguments :=
  mem_of_getElem? (getElem?_stackArguments h hnumber)

def ShuffleStep.line (step : ShuffleStep) : Line := Line.ofText step.text

theorem transfers_shuffle {arguments : List Operand} {moves : List Move}
    {steps : List ShuffleStep} (hmoves : argumentMoves (registerArguments arguments) = .ok moves)
    (hsteps : shuffle moves = .ok steps) :
    ∀ line ∈ steps.map ShuffleStep.line, line.Transfers := by
  intro line hmem
  obtain ⟨step, hstep, rfl⟩ := mem_map.mp hmem
  have hspared : .rsp ∉ overwritten step.text := by
    rw [step.mem_overwritten_text]
    intro hbase
    obtain ⟨move, hmove, htarget, -⟩ := ((shuffle_carries (nodup_targets hmoves) hsteps).overwrites
      _).mp (mem_flatMap.mpr ⟨step, hstep, hbase⟩)
    have hpair : (move.target.base, move.source.base) ∈
        moves.map fun move => (move.target.base, move.source.base) := mem_map_of_mem hmove
    rw [argumentMoves_eq_ok hmoves, mem_filterMap] at hpair
    obtain ⟨entry, hentry, hpair⟩ := hpair
    obtain ⟨r, -, hplace⟩ := Option.map_eq_some_iff.mp hpair
    have heq : RegisterBase.general entry.1 = .general .rsp :=
      (congrArg Prod.fst hplace).trans htarget
    exact place_ne_rsp hentry (RegisterBase.general.inj heq)
  refine ⟨[step.text], [], rfl, fun tail hempty => ?_⟩
  rw [hempty rfl, joinTokens_cons, joinTokensAfter, String.append_empty, String.append_empty]
  refine ⟨?_, fun _ => IsTransfer.setsPointer_of_not_overwritten hspared⟩
  cases step with
  | mov target source =>
    exact ⟨"mov", by decide, by simp [ShuffleStep.text, toString, cons_prefix_cons]⟩
  | xchg target source =>
    exact ⟨"xchg", by decide, by simp [ShuffleStep.text, toString, cons_prefix_cons]⟩

variable {spared : Prop}

theorem call_lines (h : call e site s = .ok () s')
    (hspares : spared → site.sparesPointer = true) :
    ∃ (moves : List Move) (steps : List ShuffleStep) (loads spills result : List Line)
      (s1 s2 s3 : Session),
      storeDirect e (stackArguments site.arguments) s1 = .ok () s2 ∧
      argumentMoves (registerArguments site.arguments) = .ok moves ∧ shuffle moves = .ok steps ∧
      loadLines (registerArguments site.arguments) s3 = .ok loads s3 ∧
      spillLines (stackArguments site.arguments) s3 = .ok spills s3 ∧
      (∀ line ∈ result, line.Transfers spared) ∧
      ∀ direct, Writes e direct s1 s2 → Writes e (direct ++ steps.map ShuffleStep.line ++
          (highByteLines (registerArguments site.arguments) ++ loads ++ spills) ++
          textThen "call" site.callee.text :: result) s s' := by
  unfold call at h
  obtain ⟨target, s1, hreturn, h1⟩ := bind_eq_ok.mp h
  obtain ⟨htarget, rfl⟩ := ofExcept_eq_ok.mp hreturn
  obtain ⟨_, s2, hdown, h2⟩ := bind_eq_ok.mp h1
  have hw2 : Writes e [] s1 s2 := .nothing (movePointer_writes hdown)
  obtain ⟨_, s3, hstore, h3⟩ := bind_eq_ok.mp h2
  obtain ⟨moves, s4, hplanned, h4⟩ := bind_eq_ok.mp h3
  obtain ⟨hmoves, rfl⟩ := ofExcept_eq_ok.mp hplanned
  obtain ⟨steps, s5, hshuffled, h5⟩ := bind_eq_ok.mp h4
  obtain ⟨hsteps, rfl⟩ := ofExcept_eq_ok.mp hshuffled
  obtain ⟨_, s6, htexts, h6⟩ := bind_eq_ok.mp h5
  rw [emitTexts_eq, map_map] at htexts
  have hw6 : Writes e (steps.map ShuffleStep.line) _ s6 := emitLines_writes htexts
  obtain ⟨loads, s7, hloads, h7⟩ := bind_eq_ok.mp h6
  obtain rfl : s6 = s7 := (moves_loadLines (R := Eq) _).of_ok hloads
  obtain ⟨spills, s8, hspills, h8⟩ := bind_eq_ok.mp h7
  obtain rfl : s6 = s8 := (moves_spillLines (R := Eq) _).of_ok hspills
  obtain ⟨_, s9, hlines, h9⟩ := bind_eq_ok.mp h8
  have hw9 := emitLines_writes hlines
  obtain ⟨_, s10, hcall, h10⟩ := bind_eq_ok.mp h9
  have hw10 := emit_writes hcall
  obtain ⟨_, s11, hup, h11⟩ := bind_eq_ok.mp h10
  have hw11 : Writes e [] s10 s11 := .nothing (movePointer_writes hup)
  have hresult : ∃ lines, Writes e lines s11 s' ∧ ∀ line ∈ lines, line.Transfers spared := by
    cases target with
    | none =>
      obtain ⟨-, rfl⟩ := pure_eq_ok.mp h11
      exact ⟨[], .nothing (.refl _), by simp⟩
    | some target =>
      refine storeResult_writes h11 fun hspared => ?_
      have hall := all_eq_true.mp (hspares hspared)
      unfold returnTarget at htarget
      split at htarget
      · cases htarget
      · rename_i hone
        cases htarget
        exact hall target (hone ▸ mem_singleton_self _)
      · cases htarget
  obtain ⟨result, hw12, hresult⟩ := hresult
  refine ⟨moves, steps, loads, spills, result, s2, _, _, hstore, hmoves, hsteps, hloads, hspills,
    hresult, fun direct hw3 => ?_⟩
  have hwrites := (hw2.trans hw3).trans (hw6.trans (hw9.trans (hw10.trans (hw11.trans hw12))))
  simpa only [nil_append, append_assoc, cons_append] using hwrites

theorem call_writes (h : call e site s = .ok () s')
    (hspares : spared → site.sparesPointer = true) :
    ∃ before after, Writes e (before ++ textThen "call" site.callee.text :: after) s s' ∧
      (∀ line ∈ before, line.Transfers) ∧ (∀ line ∈ after, line.Transfers spared) ∧
      ∀ (number : Nat) (argument : Operand), site.arguments[number]? = some argument →
        4 ≤ number → ∃ stores, Stores (number * 8) argument stores ∧ stores <:+: before := by
  obtain ⟨moves, steps, loads, spills, result, s1, s2, s3, hstore, hmoves, hsteps, hloads, hspills,
    hresult, hwrites⟩ := call_lines h hspares
  obtain ⟨direct, hdirectWrites, hdirect⟩ := storeDirect_writes hstore
  have hload := loadLines_writes hloads
  have hspill := spillLines_writes hspills
  refine ⟨_, result, hwrites direct hdirectWrites, ?_, hresult, ?_⟩
  · intro line hmem
    simp only [mem_append] at hmem
    rcases hmem with (hmem | hmem) | (hmem | hmem) | hmem
    · exact hdirect.transfers (fun _ _ _ hgroup => hgroup.transfers) line hmem
    · exact transfers_shuffle hmoves hsteps line hmem
    · exact transfers_highByteLines line hmem
    · exact hload.transfers (fun _ hentry _ hgroup => hgroup.transfers (place_ne_rsp hentry)) line
        hmem
    · exact hspill.transfers (fun _ _ _ hgroup => hgroup.transfers) line hmem
  · intro number argument hargument hnumber
    have hmem := mem_stackArguments hargument hnumber
    cases hisDirect : argument.isDirect with
    | true =>
      obtain ⟨stores, hfound, hinfix⟩ := hdirect.exists_stores hmem hisDirect
      refine ⟨stores, hfound, hinfix.trans (List.IsPrefix.isInfix ?_)⟩
      rw [append_assoc]
      exact prefix_append _ _
    | false =>
      obtain ⟨stores, hfound, hinfix⟩ := hspill.exists_stores hmem hisDirect
      refine ⟨stores, hfound, hinfix.trans (List.IsSuffix.isInfix ?_)⟩
      rw [← append_assoc]
      exact suffix_append _ _

/-! ## Returns -/

theorem loadResult_writes {value : Operand} (h : loadResult e value s = .ok () s') :
    ∃ lines, Writes e lines s s' ∧ ∀ line ∈ lines, line.Transfers spared := by
  have hload : (if !isResultRegister value then do
      let rax ← ofExcept (Register.ofBaseName "rax" value.size)
      let form ← directForm value
      e.emit (textThen s!"mov {rax.name}," form) programSection
      else pure ()) s = .ok () s' →
      ∃ lines, Writes e lines s s' ∧ ∀ line ∈ lines, line.Transfers spared := by
    intro h
    split at h
    · exact moveResult_transfers h fun rax form hbase _ => transfers_register "mov" form
        (by decide) (by decide) hbase (by simp [toString]; rfl)
    · obtain ⟨-, rfl⟩ := pure_eq_ok.mp h
      exact ⟨[], .nothing (.refl _), by simp⟩
  cases value with
  | reference address =>
    exact emit_transfers h (transfers_register "lea" (r := .general .rax .qword) address
      (by decide) (by decide) (by decide) rfl)
  | register r => exact hload h
  | immediate size text => exact hload h
  | memory size address => exact hload h

/-- Moves the stack pointer by the size of a frame, once that is known. -/
def adjustment (f : FrameId) (id : Nat) (instruction : String) (inPrologue : Bool) : Line :=
  [.deferred id (.frameAdjustment f instruction inPrologue)]

section

variable (hsize : (s.tree.frame f).size = some size) (hle : 8 ≤ size.toNat)
include hsize hle

theorem deferredText_adjustment (instruction : String) (inPrologue : Bool) :
    s.deferredText (.frameAdjustment f instruction inPrologue) =
      .ok (adjustmentLines instruction size).head? := by
  have hfinal : (s.tree.frame f).finalSize = .ok size := by
    rw [Frame.finalSize, hsize]
  have hcast : offsetOfBytes size - Frame.returnAddress = ((size.toNat - 8 : Nat) : Int) := by
    unfold offsetOfBytes Frame.returnAddress
    omega
  rw [Session.deferredText, hfinal]
  show (if offsetOfBytes size - Frame.returnAddress > 0 then
      Except.ok (some s!"{instruction} rsp, {offsetOfBytes size - Frame.returnAddress}")
    else if offsetOfBytes size - Frame.returnAddress = 0 then Except.ok none else _) = _
  rw [hcast, adjustmentLines]
  by_cases heq : size.toNat = 8
  · simp [heq]
  · rw [if_pos (by omega), if_neg heq]
    rfl

theorem renderLine_adjustment (id : Nat) (instruction : String) (inPrologue : Bool) :
    s.renderLine (adjustment f id instruction inPrologue) =
      .ok (adjustmentLines instruction size).head? := by
  have hdenoted : s.denoted (.deferred id (.frameAdjustment f instruction inPrologue)) =
      .deferred id (.frameAdjustment f instruction inPrologue) := by
    unfold Session.denoted
    cases s.placeholders.size <;> rfl
  have hrender : s.render (.deferred id (.frameAdjustment f instruction inPrologue)) =
      .ok (adjustmentLines instruction size).head? := by
    rw [Session.render, hdenoted]
    simp only [deferredText_adjustment hsize hle, Except.mapError]
  rw [adjustment, Session.renderLine, Session.renderAll, hrender]
  cases (adjustmentLines instruction size).head? with
  | none => rfl
  | some text =>
    simp only [Session.renderAll, Except.map, Option.map_some, joinTokens_cons, joinTokensAfter,
      String.append_empty]

theorem texts_adjustment (id : Nat) (instruction : String) (inPrologue : Bool) :
    Entry.texts s.renderLine [.waiting (adjustment f id instruction inPrologue)] =
      adjustmentLines instruction size := by
  rw [Entry.texts_singleton, Entry.announce, renderLine_adjustment hsize hle]
  show (adjustmentLines instruction size).head?.toList = _
  unfold adjustmentLines
  split <;> rfl

end

/-- The frame is given back in front of the `ret`. -/
def releaseEntries (f : FrameId) (id : Nat) : List Entry :=
  [.waiting (adjustment f id "add" false), .known (some "ret")]

theorem texts_releaseEntries (hsize : (s.tree.frame f).size = some size) (hle : 8 ≤ size.toNat)
    (id : Nat) :
    Entry.texts s.renderLine (releaseEntries f id) = adjustmentLines "add" size ++ ["ret"] := by
  have hsplit : releaseEntries f id =
      [.waiting (adjustment f id "add" false)] ++ [.known (some "ret")] := rfl
  rw [hsplit, Entry.texts_append, texts_adjustment hsize hle]
  rfl

theorem emits_adjustment {instruction : String} {inPrologue : Bool}
    (h : (do e.emitDeferred (← frameAdjustment f instruction inPrologue) programSection) s =
      .ok () s') : ∃ id, Emits e [.waiting (adjustment f id instruction inPrologue)] s s' ∧
        Written e s s' := by
  obtain ⟨line, s1, hline, h1⟩ := bind_eq_ok.mp h
  have hw : Written e s s1 := (moves_frameAdjustment _ _ _).of_ok hline
  cases hline
  refine ⟨s.nextDeferred, ?_, trans_of (Written e) hw ((e.moves_emitDeferred _ _).of_ok h1)⟩
  have hnothing : Emits e [] s { s with nextDeferred := s.nextDeferred + 1 } :=
    .nothing ⟨rfl, rfl, rfl, rfl, fun _ => rfl⟩ rfl
  exact hnothing.trans (emitDeferred_writes h1)

/-- A return loads its value, gives back the frame and returns. -/
theorem ret_writes {value : Option Operand} (spared : Prop) (h : ret e value s = .ok () s') :
    ∃ entries f id, (∀ entry ∈ entries, entry.Transfers spared) ∧
      Emits e (entries ++ releaseEntries f id) s s' ∧
      (s.tree.scope (s.engine e).currentScope).frame = some f ∧ Written e s s' := by
  have hrelease : ∀ {s : Session}, (do
      let frame ← e.currentFrame
      e.emitDeferred (← frameAdjustment frame "add" false) programSection
      e.emitText "ret" programSection) s = .ok () s' →
      ∃ f id, Emits e (releaseEntries f id) s s' ∧
        (s.tree.scope (s.engine e).currentScope).frame = some f ∧ Written e s s' := by
    intro s h
    obtain ⟨f, s1, hcurrent, h1⟩ := bind_eq_ok.mp h
    obtain ⟨-, hframe, rfl⟩ := frame_eq_ok.mp hcurrent
    rw [← bind_assoc] at h1
    obtain ⟨_, s2, hadjust, h2⟩ := bind_eq_ok.mp h1
    obtain ⟨id, hemits, hwritten⟩ := emits_adjustment hadjust
    refine ⟨f, id, hemits.trans (emitText_writes h2), hframe, ?_⟩
    exact trans_of (Written e) hwritten ((e.moves_emitText _ _).of_ok h2)
  cases value with
  | none =>
    obtain ⟨f, id, hemits, hframe, hwritten⟩ := hrelease h
    exact ⟨[], f, id, by simp, hemits, hframe, hwritten⟩
  | some value =>
    obtain ⟨_, s1, hload, h1⟩ := bind_eq_ok.mp h
    obtain ⟨lines, ⟨entries, hbecomes, hemits⟩, htransfers⟩ := loadResult_writes hload
    have hloaded : Written e s s1 := (moves_loadResult e _).of_ok hload
    obtain ⟨f, id, hreleased, hframe, hwritten⟩ := hrelease h1
    refine ⟨entries, f, id, hbecomes.transfers htransfers, hemits.trans hreleased, ?_,
      trans_of (Written e) hloaded hwritten⟩
    rw [← hframe, hloaded.tree, Engine.currentScope, Engine.currentScope, hloaded.scopes]

/-! ## Prologues -/

def spillText (entry : GeneralRegister × Nat) : String :=
  s!"mov [rsp + {Frame.returnAddress + 8 * (entry.2 : Int)}], {entry.1.name}"

def startTexts (label : String) (count : Nat) : List String :=
  (label ++ ":") :: (parameterRegisters.zipIdx.take count).map spillText

/-- What a prologue puts into the program section. -/
def prologueEntries (label : String) (count : Nat) (f : FrameId) (id : Nat) : List Entry :=
  (startTexts label count).map (fun text => .known (some text)) ++
    [.waiting (adjustment f id "sub" true)]

theorem texts_prologueEntries (hsize : (s.tree.frame f).size = some size) (hle : 8 ≤ size.toNat)
    (label : String) (count id : Nat) :
    Entry.texts s.renderLine (prologueEntries label count f id) =
      startTexts label count ++ adjustmentLines "sub" size := by
  rw [prologueEntries, Entry.texts_append, Entry.texts_known, texts_adjustment hsize hle]

theorem pointerShift?_startTexts (label : String) (count : Nat) :
    ∀ line ∈ startTexts label count, pointerShift? line = some 0 := by
  intro line hmem
  rcases mem_cons.mp hmem with rfl | hmem
  · exact pointerShift?_label label
  · obtain ⟨entry, -, rfl⟩ := mem_map.mp hmem
    apply IsTransfer.pointerShift?
    exact .of_address "mov" (by decide) (by decide) not_mem_nil (by simp [spillText, toString]; rfl)

/-- Names were bound in a scope, and text was written. -/
structure Names (e : EngineId) (own : ScopeId) (s s' : Session) : Prop where
  scopes : (s'.engine e).scopes = (s.engine e).scopes
  keeps : s.tree.Keeps s'.tree
  frames : s'.tree.frames = s.tree.frames
  other : ∀ id, id ≠ own → s'.tree.scope id = s.tree.scope id
  shape : (s'.tree.scope own).shape = (s.tree.scope own).shape
  cursor : (s'.tree.scope own).cursor = (s.tree.scope own).cursor
  variableBytes : (s'.tree.scope own).variableBytes = (s.tree.scope own).variableBytes

namespace Names

variable {own : ScopeId}

instance : IsPreorder Session (Names e own) where
  refl _ := ⟨rfl, refl_of ScopeTree.Keeps _, rfl, fun _ _ => rfl, rfl, rfl, rfl⟩
  trans _ _ _ h h' :=
    { scopes := h'.scopes.trans h.scopes
      keeps := trans_of ScopeTree.Keeps h.keeps h'.keeps
      frames := h'.frames.trans h.frames
      other := fun id hne => (h'.other id hne).trans (h.other id hne)
      shape := h'.shape.trans h.shape
      cursor := h'.cursor.trans h.cursor
      variableBytes := h'.variableBytes.trans h.variableBytes }

theorem of_written (h : Written e s s') : Names e own s s' where
  scopes := h.scopes
  keeps := h.tree ▸ refl_of ScopeTree.Keeps _
  frames := by rw [h.tree]
  other _ _ := by rw [h.tree]
  shape := by rw [h.tree]
  cursor := by rw [h.tree]
  variableBytes := by rw [h.tree]

theorem frame (h : Names e own s s') (f : FrameId) : s'.tree.frame f = s.tree.frame f := by
  simp only [ScopeTree.frame, h.frames]

end Names

/-- Parameters got names, eight bytes for each from the return address up, and nothing else did. -/
structure Places (parameters : List Parameter) (number : Nat) (own : ScopeId) (f : FrameId)
    (pointer : Int) (t t' : ScopeTree) : Prop where
  named : ∀ (i : Nat) (parameter : Parameter), parameters[i]? = some parameter →
    t'.member? own parameter.name = some (.slot f (pointer +
      (Frame.returnAddress + 8 * ((number + i : Nat) : Int))) parameter.type)
  only : ∀ name symbol, t'.member? own name = some symbol → t.member? own name = some symbol ∨
    ∃ (i : Nat) (parameter : Parameter), parameters[i]? = some parameter ∧ name = parameter.name ∧
      symbol = .slot f (pointer + (Frame.returnAddress + 8 * ((number + i : Nat) : Int)))
        parameter.type

theorem declareExisting_names {type : ValueType} {offset : Int}
    (h : e.declareExisting name type offset s = .ok () s') :
    Names e (s.engine e).currentScope s s' ∧ Emits e [] s s' ∧
      ∀ f, (s.tree.scope (s.engine e).currentScope).frame = some f → ∀ other,
        s'.tree.member? (s.engine e).currentScope other = if other = name then
          some (.slot f ((s.tree.frame f).pointer + offset) type)
        else s.tree.member? (s.engine e).currentScope other := by
  obtain ⟨-, t, ht, rfl⟩ := declareExisting_eq_ok.mp h
  have hkeeps :=
    (ScopeTree.within_declareExisting (R := ScopeTree.Keeps) _ name type offset).of_ok ht
  obtain ⟨f, hf, hlt, -, rfl⟩ := ScopeTree.declareExisting_eq_ok ht
  have hscope := s.tree.scope_modifyScope (s.engine e).currentScope
    (s.engine e).currentScope fun scope => { scope with
      members := scope.members.set name (.slot f ((s.tree.frame f).pointer + offset) type) }
  rw [if_pos ⟨rfl, hlt⟩] at hscope
  have hshape := congrArg Scope.shape hscope
  have hcursor := congrArg Scope.cursor hscope
  have hbytes := congrArg Scope.variableBytes hscope
  refine ⟨⟨rfl, hkeeps, rfl, ?_, hshape, hcursor, hbytes⟩, ?_, ?_⟩
  · intro id hne
    exact (ScopeTree.scope_modifyScope _ _ _ _).trans (if_neg fun hand => hne hand.1)
  · exact .nothing ⟨rfl, rfl, rfl, rfl, fun _ => rfl⟩ rfl
  · intro g hg other
    obtain rfl : f = g := Option.some.inj (hf.symm.trans hg)
    show Dictionary.get? (ScopeTree.scope _ _).members other = _
    rw [hscope]
    split
    · rename_i heq
      rw [heq]
      exact Dictionary.get?_set_self _ _ _
    · rename_i hne
      exact Dictionary.get?_set_of_ne _ hne _

theorem placeParameters_names {parameters : List Parameter}
    (h : placeParameters e (parameters.zipIdx number) s = .ok () s') :
    Names e (s.engine e).currentScope s s' ∧
      Emits e (((parameterRegisters.zipIdx.drop number).take parameters.length).map
        fun entry => .known (some (spillText entry))) s s' ∧
      ∀ f, (s.tree.scope (s.engine e).currentScope).frame = some f →
        Places parameters number (s.engine e).currentScope f (s.tree.frame f).pointer s.tree
          s'.tree := by
  induction parameters generalizing number s with
  | nil =>
    obtain ⟨-, rfl⟩ := pure_eq_ok.mp h
    exact ⟨refl_of (Names e _) _, by simpa using Emits.refl s',
      fun _ _ => ⟨by simp, fun _ _ hs => .inl hs⟩⟩
  | cons parameter rest ih =>
    rw [zipIdx_cons] at h
    obtain ⟨_, s1, hplace, h1⟩ := bind_eq_ok.mp h
    obtain ⟨hnames, hemits, hmember⟩ := declareExisting_names hplace
    -- The first parameter is stored if there is a register for it.
    have hstore : ∃ s2, Written e s1 s2 ∧
        Emits e (((parameterRegisters.zipIdx.drop number).take 1).map
          fun entry => .known (some (spillText entry))) s1 s2 ∧
        placeParameters e (rest.zipIdx (number + 1)) s2 = .ok () s' := by
      dsimp only at h1
      cases hregister : parameterRegisters[number]? with
      | none =>
        rw [hregister] at h1
        have hnil : parameterRegisters.zipIdx.drop number = [] :=
          drop_eq_nil_of_le (by simpa using getElem?_eq_none_iff.mp hregister)
        exact ⟨s1, refl_of (Written e) s1, by simpa [hnil] using Emits.refl s1, h1⟩
      | some register =>
        rw [hregister] at h1
        obtain ⟨_, s2, hemit, hrest⟩ := bind_eq_ok.mp h1
        have hget : parameterRegisters.zipIdx[number]? = some (register, number) := by
          rw [getElem?_zipIdx, hregister]
          simp
        obtain ⟨hlt, heq⟩ := List.getElem?_eq_some_iff.mp hget
        refine ⟨s2, (e.moves_emitText _ _).of_ok hemit, ?_, hrest⟩
        rw [drop_eq_getElem_cons hlt, heq]
        exact emitText_writes hemit
    obtain ⟨s2, hwritten, hstored, hrest⟩ := hstore
    have hnamed := trans_of (Names e _) hnames (.of_written hwritten)
    have hcurrent : (s2.engine e).currentScope = (s.engine e).currentScope := by
      rw [Engine.currentScope, Engine.currentScope, hnamed.scopes]
    obtain ⟨hnames', hemits', hplaces⟩ := ih hrest
    rw [hcurrent] at hnames' hplaces
    refine ⟨trans_of (Names e _) hnamed hnames', ?_, fun f hf => ?_⟩
    · have hsplit : (parameterRegisters.zipIdx.drop number).take (parameter :: rest).length =
          (parameterRegisters.zipIdx.drop number).take 1 ++
            (parameterRegisters.zipIdx.drop (number + 1)).take rest.length := by
        rw [length_cons, add_comm, take_add, drop_drop]
      rw [hsplit, map_append]
      exact (hemits.trans hstored).trans hemits'
    · obtain ⟨hall, honly⟩ := hplaces f (hnamed.keeps.frame hf)
      simp only [hnamed.frame, add_right_comm number 1] at hall honly
      refine ⟨fun i other hother => ?_, fun name symbol hs => ?_⟩
      · cases i with
        | zero =>
          obtain rfl : parameter = other := Option.some.inj hother
          apply hnames'.keeps.members
          rw [hwritten.tree, hmember f hf, if_pos rfl]
          rfl
        | succ i => exact hall i other hother
      · rcases honly name symbol hs with hs | ⟨i, other, hother, hfound⟩
        · rw [hwritten.tree, hmember f hf] at hs
          split at hs
          · rename_i heq
            cases hs
            exact .inr ⟨0, parameter, rfl, heq, rfl⟩
          · exact .inl hs
        · exact .inr ⟨i + 1, other, hother, hfound⟩

structure Opens (r : Runner) (own : ScopeId) (f : FrameId) (s opened s' : Session) : Prop where
  isLocal : s.tree.isLocal own = true
  frame : (s.tree.scope own).frame = some f
  moved : ∃ frame visit, (s.tree.frame f).setPointer ((s.tree.frame f).pointer - 8) = .ok frame ∧
    opened.tree = (s.tree.visited visit).setFrame f frame
  scopes : (opened.engine r.engine).scopes = own :: (s.engine r.engine).scopes
  named : Names r.engine own opened s'

theorem prologue_places {own : ScopeId} {f : FrameId}
    (hscope : s.tree.functionScope? (s.engine r.engine).currentScope name = some own)
    (hframe : (s.tree.scope own).frame = some f)
    (h : prologue r .generate name parameters s = .ok () s') :
    ((s.engine r.engine).sections.any fun entry => entry.1 == programSection) = true ∧
    ∃ label id opened, Opens r own f s opened s' ∧
      Emits r.engine (prologueEntries label (r.parametersOf name s).length f id) s s' ∧
      Places (r.parametersOf name s) 0 own f (opened.tree.frame f).pointer s.tree s'.tree := by
  unfold prologue at h
  dsimp only at h
  obtain ⟨symbol, s1, hfind, h1⟩ := bind_eq_ok.mp h
  have hpass := r.currentPass_of_find hfind
  obtain rfl : s = s1 :=
    (r.moves_find_plain (R := Eq) (by simp [Path.ofName, Segment.isTemplated])).of_ok hfind
  have hsymbol : ∃ label known, symbol = .function label known := by
    cases symbol with
    | function label known => exact ⟨label, known, rfl⟩
    | _ =>
      obtain ⟨_, _, hfail, -⟩ := bind_eq_ok.mp h1
      cases hfail
  obtain ⟨label, known, rfl⟩ := hsymbol
  have hparameters : r.parametersOf name s = known.getD [] := by
    rw [Runner.parametersOf, hfind]
  obtain ⟨found, s2, hfound, h2⟩ := bind_eq_ok.mp h1
  obtain ⟨rfl, rfl⟩ := pure_eq_ok.mp hfound
  obtain ⟨_, s3, hemit, h3⟩ := bind_eq_ok.mp h2
  have hwritten : Written r.engine s2 s3 := (r.engine.moves_emit _ _).of_ok hemit
  have hlabel := emits_of_entry hemit (s2.entry_label label known)
  have hlt : r.engine.index < s3.engines.size := by
    rw [← hwritten.pass] at hpass
    exact lt_of_currentPass hpass
  -- The function is entered.
  obtain ⟨_, s4, henter, h4⟩ := bind_eq_ok.mp h3
  obtain ⟨own', hown, hopening⟩ := enterLocal_eq_ok henter (by rw [hwritten.pass]; exact hpass)
  rw [hwritten.tree, Engine.currentScope, hwritten.scopes] at hown
  obtain rfl : own = own' := Option.some.inj (hscope.symm.trans hown)
  obtain ⟨visit, htree⟩ : ∃ visit, s4.tree = s2.tree.visited visit := by
    rw [hopening, ← hwritten.tree]
    exact ⟨_, rfl⟩
  have hscopes : (s4.engine r.engine).scopes = own :: (s2.engine r.engine).scopes := by
    rw [hopening, scopes_opening hlt, hwritten.scopes]
  have hentered : Emits r.engine [] s3 s4 := by
    rw [hopening]
    refine .nothing ⟨rfl, rfl, rfl, rfl, fun _ => rfl⟩ ?_
    rw [engine_opening]
    split <;> rfl
  -- The pointer moves below the return address.
  obtain ⟨_, s5, hdown, h5⟩ := bind_eq_ok.mp h4
  have hmoved := movePointer_writes hdown
  obtain ⟨f', frame, hlocal, hf, -, hmove, hs5⟩ := movePointer_eq_ok.mp hdown
  have hcurrent : (s4.engine r.engine).currentScope = own := by
    rw [Engine.currentScope, hscopes]
    rfl
  rw [hcurrent, htree] at hlocal hf
  obtain rfl : f = f' := Option.some.inj (hframe.symm.trans hf)
  have hcurrent' : (s5.engine r.engine).currentScope = own := by
    rw [hs5]
    exact hcurrent
  have hframe5 : (s5.tree.scope own).frame = some f := by
    rw [hs5, htree]
    exact hf
  -- The parameters get their names.
  obtain ⟨_, s6, hplace, h6⟩ := bind_eq_ok.mp h5
  obtain ⟨hnames, hplaced, hmembers⟩ := placeParameters_names hplace
  rw [hcurrent'] at hnames hmembers
  obtain ⟨g, s7, hgiven, h7⟩ := bind_eq_ok.mp h6
  obtain ⟨-, hg, rfl⟩ := frame_eq_ok.mp hgiven
  have hlast : (s7.engine r.engine).currentScope = own := by
    rw [← hcurrent', Engine.currentScope, Engine.currentScope, hnames.scopes]
  rw [hlast] at hg
  obtain rfl : f = g := Option.some.inj ((hnames.keeps.frame hframe5).symm.trans hg)
  obtain ⟨id, hadjusted, hsilent⟩ := emits_adjustment h7
  refine ⟨any_of_requireSection hemit, label, id, s5,
    ⟨hlocal, hf, ⟨frame, visit, ?_, ?_⟩, ?_, ?_⟩, ?_, ?_⟩
  · rw [htree] at hmove
    exact Frame.move_eq_ok hmove
  · rw [hs5, htree]
  · rw [hs5]
    exact hscopes
  · exact trans_of (Names r.engine own) hnames (.of_written hsilent)
  · have hall := hlabel.trans (hentered.trans (hmoved.trans (hplaced.trans hadjusted)))
    rw [hparameters]
    simpa [prologueEntries, startTexts, Function.comp_def] using hall
  · obtain ⟨hall, honly⟩ := hmembers f hframe5
    rw [hparameters, hsilent.tree]
    refine ⟨hall, fun name symbol hs => (honly name symbol hs).imp_left fun hs => ?_⟩
    rw [hs5, htree] at hs
    exact hs

end StagedAsm.Win64
