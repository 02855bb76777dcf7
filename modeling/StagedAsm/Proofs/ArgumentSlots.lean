import StagedAsm.Proofs.FrameSafety

/-!
# Argument slots

A caller and the function it calls agree on where arguments lie. The caller stores those that have
no register at the bottom of its frame. The function stores the others into the same area before it
takes its own frame, and names all of them by offsets from the return address.
-/

namespace StagedAsm

/-- There are as many arguments as parameters. -/
theorem CallSite.make_eq_ok {callee : Operand} {parameters : List Parameter}
    {arguments targets : List Operand} {s s' : Session} {site : CallSite}
    (h : CallSite.make callee (some parameters) arguments targets s = .ok site s') :
    parameters.length = arguments.length ∧
      site = { callee, parameters := some parameters, arguments, targets } := by
  unfold CallSite.make at h
  rw [get_bind_eq_ok] at h
  obtain ⟨text, s1, -, h1⟩ := bind_eq_ok.mp h
  obtain ⟨_, s2, hcount, h2⟩ := bind_eq_ok.mp h1
  obtain ⟨_, s3, -, h3⟩ := bind_eq_ok.mp h2
  obtain ⟨rfl, -⟩ := pure_eq_ok.mp h3
  refine ⟨?_, rfl⟩
  apply Decidable.byContradiction
  intro hne
  rw [checkCount, if_pos hne] at hcount
  cases hcount

theorem Win64.getElem?_startTexts {label : String} {count i : Nat} (hi : i < count)
    {register : GeneralRegister} (hregister : parameterRegisters[i]? = some register) :
    (startTexts label count)[i + 1]? =
      some s!"mov [rsp + {Frame.returnAddress + 8 * (i : Int)}], {register.name}" := by
  have hget : parameterRegisters.zipIdx[i]? = some (register, i) := by
    rw [List.getElem?_zipIdx, hregister]
    simp
  rw [startTexts, List.getElem?_cons_succ, List.getElem?_map, List.getElem?_take, if_pos hi, hget]
  rfl

/-- With `rsp` for the stack pointer of the caller when it calls, the call pushes eight bytes and
    the prologue moves the pointer further; then the address of a parameter is that of its slot in
    the area the caller keeps for arguments. -/
theorem argument_slots_agree {r : Runner} {name : String} {declared : List (TypeRefId × String)}
    {s s₀ s₁ s' : Session} {own : ScopeId} {f : FrameId} {trace : List (Session × FrameOp)}
    (hwf : s.tree.WellFormed) (hunused : s.tree.Unused f)
    (hscope : s.tree.functionScope? (s.engine r.engine).currentScope name = some own)
    (hframe : (s.tree.scope own).frame = some f)
    (hcount : (r.parametersOf name s).length ≤ 0xffffffff)
    (hprologue : r.runAction .generate (.prologue name declared) s = .ok () s₀)
    (hbody : FrameRun r.engine f trace s₀ s₁)
    (hepilogue : r.runAction .generate .epilogue s₁ = .ok () s')
    {e : EngineId} {g : FrameId} {callee : Operand} {arguments targets : List Operand}
    {site : CallSite} {c c₁ c' : Session}
    (hsite : CallSite.make callee (some (r.parametersOf name s)) arguments targets c = .ok site c₁)
    (hcaller : (c.tree.scope (c.engine e).currentScope).frame = some g)
    (hlt : g.index < c.tree.frames.size)
    (harea : -0xffffffff ≤ (c.tree.frame g).pointer - max (8 * (arguments.length : Int)) 32)
    (hcall : Win64.call e site c = .ok () c') :
    ∃ (size : UInt32) (label : String) (count id : Nat) (before after : List Line),
      (s'.tree.frame f).size = some size ∧ count = (r.parametersOf name s).length ∧
      Emits r.engine (Win64.prologueEntries label count f id) s s₀ ∧
      Entry.texts s'.renderLine (Win64.prologueEntries label count f id) =
        Win64.startTexts label count ++ adjustmentLines "sub" size ∧
      Writes e (before ++ Win64.textThen "call" callee.text :: after) c c' ∧
      (∀ line ∈ before, line.Transfers) ∧
      max (8 * (count : Int)) 32 - (c.tree.frame g).pointer ≤ (c'.tree.frame g).extent.toNat ∧
      ∀ (rsp : Int) (i : Nat) (parameter : Parameter),
        (r.parametersOf name s)[i]? = some parameter →
        (∃ offset k shift : Int,
          s'.tree.member? own parameter.name = some (.slot f offset parameter.type) ∧
          s'.render (.slot f offset parameter.type) = .ok (some s!"rsp + {k}") ∧
          pointerShifts? (Win64.startTexts label count ++ adjustmentLines "sub" size) =
            some shift ∧
          rsp - 8 + shift + k = rsp + 8 * i) ∧
        (∀ register, Win64.parameterRegisters[i]? = some register → ∃ k shift : Int,
          (Win64.startTexts label count)[i + 1]? = some s!"mov [rsp + {k}], {register.name}" ∧
          pointerShifts? ((Win64.startTexts label count).take (i + 1)) = some shift ∧
          rsp - 8 + shift + k = rsp + 8 * i) ∧
        (4 ≤ i → ∃ argument stores, arguments[i]? = some argument ∧
          Win64.Stores (i * 8) argument stores ∧ stores <:+: before) ∧
        8 * i + 8 ≤ max (8 * count) 32 := by
  have hop : Win64.prologue r .generate name declared s = .ok () s₀ := hprologue
  obtain ⟨-, label, number, first, hopens, hemits, hplaces⟩ :=
    Win64.prologue_places hscope hframe hop
  obtain ⟨hopen, -, -, hextent₀, -⟩ := Standing.prologue hwf hunused hscope hopens
  obtain ⟨⟨opened, visited, hend⟩, hgrows⟩ := hopen.run hbody
  obtain ⟨size, hsize, hcover, hkeeps⟩ := Win64.epilogue_eq_ok hend.lt hend.currentFrame hepilogue
  have height : 8 ≤ size.toNat := hextent₀.trans (hgrows.extent.trans hcover)
  obtain ⟨frame, visit, hset, htree⟩ := hopens.moved
  have hpointer : (first.tree.frame f).pointer = -8 := by
    rw [htree, ScopeTree.frame_setFrame, if_pos ⟨rfl, hunused.lt⟩,
      (Frame.setPointer_eq_ok hset).2.2.1, hunused.pointer]
    rfl
  obtain ⟨hlength, rfl⟩ := CallSite.make_eq_ok hsite
  obtain ⟨before, after, hwrites, htransfers, -, hstores⟩ := Win64.call_writes hcall False.elim
  obtain ⟨low, back, hlow, hback, hmoved, -⟩ := Win64.call_eq_ok hcaller hlt hcall
  have hextent : max (8 * (arguments.length : Int)) 32 - (c.tree.frame g).pointer ≤
      (c'.tree.frame g).extent.toNat := by
    have hreached := (Frame.setPointer_eq_ok hlow).2.2.2.2.2 harea
    have hraised := (Frame.setPointer_eq_ok hback).2.2.2.2.1
    rw [hmoved, ScopeTree.frame_setFrame, if_pos ⟨rfl, hlt⟩]
    unfold Win64.argumentArea Win64.shadowSpace at hreached
    dsimp only at hreached
    omega
  have hstart := Win64.pointerShift?_startTexts label (r.parametersOf name s).length
  have hdown : pointerShifts? (Win64.startTexts label (r.parametersOf name s).length ++
      adjustmentLines "sub" size) = some (0 + (8 - (size.toNat : Int))) :=
    pointerShifts?_append (pointerShifts?_eq_zero hstart) (pointerShifts?_sub height)
  refine ⟨size, label, (r.parametersOf name s).length, number, before, after, hsize, rfl, hemits,
    Win64.texts_prologueEntries hsize height label _ number, hwrites, htransfers, ?_, ?_⟩
  · rw [hlength]
    exact hextent
  intro rsp i parameter hparameter
  obtain ⟨hi, -⟩ := List.getElem?_eq_some_iff.mp hparameter
  refine ⟨⟨8 * i, 8 * i + size.toNat, _, ?_, ?_, hdown, by omega⟩, ?_, ?_, by omega⟩
  · have hmember := hplaces.named i parameter hparameter
    have hoffset :
        (first.tree.frame f).pointer + (Frame.returnAddress + 8 * (i : Int)) = 8 * i := by
      rw [hpointer, Frame.returnAddress]
      omega
    rw [zero_add, hoffset] at hmember
    have hin : StackVariable.In ⟨own, parameter.name, 8 * i, parameter.type⟩ s₀.tree f := hmember
    exact hkeeps.members _ _ _ (hgrows.slots _ hopen.frame_eq hin)
  · apply Session.render_slot_of_fits hsize
    · omega
    · have hword := size.toNat_lt
      unfold FitsOffset
      omega
  · intro register hregister
    have hbefore := pointerShifts?_eq_zero fun line hmem =>
      hstart line (List.mem_of_mem_take (i := i + 1) hmem)
    refine ⟨_, 0, Win64.getElem?_startTexts hi hregister, hbefore, ?_⟩
    rw [Frame.returnAddress]
    omega
  · intro hfour
    have hargument : i < arguments.length := by omega
    have hget : arguments[i]? = some arguments[i] := List.getElem?_eq_getElem hargument
    obtain ⟨stores, hstore, hinfix⟩ := hstores i _ hget hfour
    exact ⟨_, stores, hget, hstore, hinfix⟩

/-- More parameters than there are registers. -/
def sixParameters : List (TypeRefId × String) :=
  [(⟨0⟩, "a"), (⟨1⟩, "b"), (⟨2⟩, "c"), (⟨3⟩, "d"), (⟨4⟩, "e"), (⟨5⟩, "f")]

/-- The function and another one that calls it. -/
def sixProgram : Program :=
  [.prologue "six" sixParameters, .epilogue, .prologue "main" [], .epilogue]

/-- The last two arguments have no register. -/
def sixArguments : List Operand :=
  [.immediate .dword [.ofText "1"], .immediate .qword [.ofText "2"], .reference [.ofText "[rbx]"],
    .immediate .dword [.ofText "4"], .immediate .dword [.ofText "5"],
    .memory .qword [.ofText "[rbx]"]]

/-- The function is about to be generated. -/
def sixStart : Session :=
  leaves ((EngineId.runner ⟨0⟩ 0).compile sixProgram .resolve)
    (leaves (buildProgram [.function "six" [(.sized .dword, "a"), (.sized .qword, "b"),
        (.sized .qword, "c"), (.sized .dword, "d"), (.sized .dword, "e"), (.sized .qword, "f")] [],
      .function "main" [] []]) (leaves (startEngine defaultSections) {}))

/-- The function is open. -/
def sixOpen : Session :=
  leaves ((EngineId.runner ⟨0⟩ 0).runAction .generate (.prologue "six" sixParameters)) sixStart

def sixBody : List FrameOp := [.declare "x" (.sized .dword), .declare "y" (.block 12)]

/-- The body has run. -/
def sixClosing : Session := leaves (FrameOp.runAll ⟨0⟩ sixBody) sixOpen

/-- The function is closed. -/
def sixEnd : Session := leaves ((EngineId.runner ⟨0⟩ 0).runAction .generate .epilogue) sixClosing

/-- The other function is about to call it. -/
def sixCalling : Session :=
  leaves ((EngineId.runner ⟨0⟩ 0).runAction .generate (.prologue "main" [])) sixEnd

def sixSite : CallSite where
  callee := .immediate .qword [.ofText "six"]
  parameters := some ((EngineId.runner ⟨0⟩ 0).parametersOf "six" sixStart)
  arguments := sixArguments
  targets := []

def sixCalled : Session := leaves (Win64.call ⟨0⟩ sixSite) sixCalling

theorem argument_slots_agree_six : sixStart.tree.WellFormed ∧ sixStart.tree.Unused ⟨0⟩ ∧
      FrameRun ⟨0⟩ ⟨0⟩ (FrameOp.traceAll ⟨0⟩ sixBody sixOpen) sixOpen sixClosing ∧
      ∃ (size : UInt32) (label : String) (before after : List Line),
        (sixEnd.tree.frame ⟨0⟩).size = some size ∧
        Writes ⟨0⟩ (before ++ Win64.textThen "call" sixSite.callee.text :: after) sixCalling
          sixCalled ∧
        ∀ rsp : Int, (∃ offset k shift : Int,
            sixEnd.tree.member? ⟨1⟩ "f" = some (.slot ⟨0⟩ offset (.sized .qword)) ∧
            sixEnd.render (.slot ⟨0⟩ offset (.sized .qword)) = .ok (some s!"rsp + {k}") ∧
            pointerShifts? (Win64.startTexts label 6 ++ adjustmentLines "sub" size) =
              some shift ∧
            rsp - 8 + shift + k = rsp + 8 * (5 : Nat)) ∧
          ∃ argument stores, sixArguments[5]? = some argument ∧
            Win64.Stores 40 argument stores ∧ stores <:+: before := by
  have hreached : Reached [⟨0⟩] sixStart :=
    .compile 0 sixProgram .resolve (.build _ (.start (.new {}) rfl)) List.mem_cons_self
  have hunused : sixStart.tree.Unused ⟨0⟩ :=
    .of_all (by decide +kernel) (by decide +kernel) (by decide +kernel)
  have hscope : sixStart.tree.functionScope? (sixStart.engine ⟨0⟩).currentScope "six" =
      some ⟨1⟩ := by decide +kernel
  have hprologue : (EngineId.runner ⟨0⟩ 0).runAction .generate (.prologue "six" sixParameters)
      sixStart = .ok () sixOpen := eq_ok_of_succeeds (by decide +kernel)
  have hbody : FrameOp.runAll ⟨0⟩ sixBody sixOpen = .ok () sixClosing :=
    eq_ok_of_succeeds (by decide +kernel)
  have hepilogue : (EngineId.runner ⟨0⟩ 0).runAction .generate .epilogue sixClosing =
      .ok () sixEnd := eq_ok_of_succeeds (by decide +kernel)
  have hsite : CallSite.make sixSite.callee
      (some ((EngineId.runner ⟨0⟩ 0).parametersOf "six" sixStart)) sixArguments [] sixCalling =
      .ok sixSite sixCalling := by
    have hmake : succeeds (CallSite.make sixSite.callee
        (some ((EngineId.runner ⟨0⟩ 0).parametersOf "six" sixStart)) sixArguments []) sixCalling =
        true := by decide +kernel
    obtain ⟨site, c, hok⟩ := exists_ok_of_succeeds hmake
    obtain rfl : sixCalling = c := (moves_makeCallSite (R := Eq) _ _ _ _).of_ok hok
    obtain ⟨-, rfl⟩ := CallSite.make_eq_ok hok
    exact hok
  have hcall : Win64.call ⟨0⟩ sixSite sixCalling = .ok () sixCalled :=
    eq_ok_of_succeeds (by decide +kernel)
  have hrun := FrameRun.of_runAll ⟨0⟩ hbody
  have hlast : ((EngineId.runner ⟨0⟩ 0).parametersOf "six" sixStart)[5]? =
      some ⟨"f", .sized .qword⟩ := by decide +kernel
  have hlength : ((EngineId.runner ⟨0⟩ 0).parametersOf "six" sixStart).length = 6 := by
    decide +kernel
  obtain ⟨size, label, count, id, before, after, hsize, hcount, -, -, hwrites, -, -, hslots⟩ :=
    argument_slots_agree (r := EngineId.runner ⟨0⟩ 0) (e := ⟨0⟩) (g := ⟨1⟩) hreached.wellFormed
      hunused hscope (by decide +kernel) (by omega) hprologue hrun hepilogue hsite
      (by decide +kernel) (by decide +kernel) (by decide +kernel) hcall
  obtain rfl : count = 6 := hcount.trans hlength
  refine ⟨hreached.wellFormed, hunused, hrun, size, label, before, after, hsize, hwrites, ?_⟩
  intro rsp
  obtain ⟨haddress, -, hstored, -⟩ := hslots rsp 5 _ hlast
  exact ⟨haddress, hstored (by decide)⟩

end StagedAsm
