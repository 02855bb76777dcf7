import StagedAsm.Proofs.Instantiation
import StagedAsm.Run.Compile

/-!
# Commands and actions

Everything a program can say moves the session by steps of its engine and by running instances. The
lemmas follow the definitions; `Runner.moves_runActions` is what is used of them.
-/

namespace StagedAsm

variable {R : Session → Session → Prop}

/-! ## Operands -/

section Operands

variable [IsPreorder Session R]

theorem moves_sizedOperand (make : Size → Line → Operand) (size : Size) (text : Line) :
    Moves R (sizedOperand make size text) :=
  .ite (.seq .look <| .seq (.ofFault _) <| .returns (.fail _)) (.pure _)

theorem moves_memoryOperand (path : Path) (name : String) (size wanted : Option Size)
    (symbol : Symbol) : Moves R (do
      let own := some ((← get).symbolSize symbol) |>.filter Size.isDefined
      match (size.or wanted).or own with
      | some size => sizedOperand .memory size (bracketed symbol)
      | none => fail (.operandSizeUnknown ((← get).pathText path) name)) := by
  refine .bind .look fun _ => ?_
  dsimp only
  split
  · exact moves_sizedOperand _ _ _
  · exact .seq .look <| .fail _

theorem moves_resizeOperand (operand : Operand) (size : Size) :
    Moves R (resizeOperand operand size) := by
  cases operand with
  | register r => exact .returns (.ofExcept _)
  | reference address => exact .pure _
  | immediate size text => exact moves_sizedOperand _ _ _
  | memory size address => exact moves_sizedOperand _ _ _

theorem moves_checkCount (callee : String) (parameters : List Parameter) (found : Nat) :
    Moves R (CallSite.checkCount callee parameters found) := .ite (.fail _) (.pure _)

theorem moves_checkSizes (entries : List (Parameter × Operand)) :
    Moves R (CallSite.checkSizes entries) := by
  induction entries with
  | nil => exact .pure _
  | cons entry rest ih => exact .ite (.seq (.fail _) <| ih) ih

theorem moves_makeCallSite (callee : Operand) (parameters : Option (List Parameter))
    (arguments targets : List Operand) :
    Moves R (CallSite.make callee parameters arguments targets) := by
  unfold CallSite.make
  split
  · exact .seq .look <| .seq (.ofFault _) <| .seq (moves_checkCount _ _ _) <|
      .returns (moves_checkSizes _)
  · exact .pure _

theorem moves_checkOperand (name : String) (found : Size) (wanted : Option Size) :
    Moves R (Argument.toOperand.check name found wanted) := by
  unfold Argument.toOperand.check
  split
  · exact .ite (.fail _) (.pure _)
  · exact .pure _

end Operands

/-! ## Text of calls and returns -/

namespace Win64

section Output

variable (e : EngineId) [AdmitsOutput e R]

omit [AdmitsOutput e R] in
theorem moves_directForm [IsPreorder Session R] (operand : Operand) :
    Moves R (directForm operand) :=
  .bind (.ofExcept _) fun _ => by
    split
    · exact .pure _
    · exact .seq .look <| .seq (.ofFault _) <| .fail _

theorem moves_storeDirect (arguments : List (Nat × Operand)) :
    Moves R (storeDirect e arguments) := by
  induction arguments with
  | nil => exact .pure _
  | cons entry rest ih =>
    exact .ite (.seq (.ofExcept _) <| .seq (moves_directForm _) <| .seq (e.moves_emit _ _) <| ih) ih

theorem moves_emitTexts (texts : List String) : Moves R (emitTexts e texts) := by
  induction texts with
  | nil => exact .pure _
  | cons text rest ih => exact .seq (e.moves_emitText _ _) <| ih

theorem moves_emitLines (lines : List Line) : Moves R (emitLines e lines) := by
  induction lines with
  | nil => exact .pure _
  | cons line rest ih => exact .seq (e.moves_emit _ _) <| ih

omit [AdmitsOutput e R] in
theorem moves_loadLines [IsPreorder Session R] (arguments : List (GeneralRegister × Operand)) :
    Moves R (loadLines arguments) := by
  induction arguments with
  | nil => exact .pure _
  | cons entry rest ih =>
    obtain ⟨place, argument⟩ := entry
    have hload : Moves R (do
        let target ← ofExcept (Operand.ofRegisterPart place.name argument.size true)
        let targetText ← plainText (← directForm target)
        let form ← directForm (← resizeOperand argument target.size)
        return textThen s!"mov {targetText}," form :: (← loadLines rest)) :=
      .seq (.ofExcept _) <| .seq (moves_directForm _) <|
        .seq (.bind .look fun _ => .ofFault _) <| .seq (moves_resizeOperand _ _) <|
          .seq (moves_directForm _) <| .returns ih
    cases argument with
    | register r => exact ih
    | reference address => exact .returns ih
    | immediate size text => exact hload
    | memory size address => exact hload

omit [AdmitsOutput e R] in
theorem moves_spillLines [IsPreorder Session R] (arguments : List (Nat × Operand)) :
    Moves R (spillLines arguments) := by
  induction arguments with
  | nil => exact .pure _
  | cons entry rest ih =>
    obtain ⟨number, argument⟩ := entry
    cases argument with
    | register r => exact ih
    | reference address => exact .returns ih
    | immediate size text => exact ih
    | memory size address => exact .seq (.ofExcept _) <| .seq (moves_directForm _) <| .returns ih

theorem moves_storeResult (target : Operand) : Moves R (storeResult e target) := by
  unfold storeResult
  exact .check (.ite (e.moves_emitText _ _) (.ite (.pure _) (.seq (.ofExcept _) <|
    .seq (moves_directForm _) <| e.moves_emit _ _)))

omit [AdmitsOutput e R] in
theorem moves_frameAdjustment [AdmitsSilent R] (frame : FrameId) (instruction : String)
    (inPrologue : Bool) : Moves R (frameAdjustment frame instruction inPrologue) :=
  .returns (moves_newDeferred _)

theorem moves_loadResult (value : Operand) : Moves R (loadResult e value) := by
  have hload : Moves R (if !isResultRegister value then do
      let rax ← ofExcept (Register.ofBaseName "rax" value.size)
      let form ← directForm value
      e.emit (textThen s!"mov {rax.name}," form) programSection
      else pure ()) :=
    .ite (.seq (.ofExcept _) <| .seq (moves_directForm _) <| e.moves_emit _ _) (.pure _)
  cases value with
  | reference address => exact e.moves_emit _ _
  | register r => exact hload
  | immediate size text => exact hload
  | memory size address => exact hload

end Output

end Win64

section Engine

variable (e : EngineId) [AdmitsDeeds e R]

theorem moves_stringLiteral (contents : String) : Moves R (e.stringLiteral contents) :=
  .seq .look <| .seq (.ofExcept _) <| .seq (e.moves_label _) <|
    .seq (e.moves_label _) <| .seq (e.moves_emitText _ _) <|
      .seq (.ofExcept _) <| .seq (e.moves_emitText _ _) <|
        .seq (e.moves_emitText _ _) <| .returns (e.moves_emitText _ _)

theorem moves_cStringLiteral (contents : String) : Moves R (e.cStringLiteral contents) :=
  .seq (.ofExcept _) <| .seq (e.moves_label _) <|
    .seq (e.moves_emitText _ _) <| .returns (e.moves_emitText _ _)

/-! ## Builtin declarations -/

theorem moves_declareBuiltinTypes : Moves R e.declareBuiltinTypes :=
  .seq .look <| .seq (moves_sizedStruct _ _) <|
    .seq (.map (e.moves_declareType _ _) _) <| .seq (e.moves_enterGlobal _) <|
      .seq (e.moves_declare _ _) <| .seq (e.moves_declare _ _) <| e.moves_exitGlobal

theorem moves_declareArrayFields (size : UInt32) : Moves R (e.declareArrayFields size) :=
  .bind .look fun _ => by
    dsimp only
    split
    · exact .throw _
    · exact .seq (e.moves_declare _ _) <| e.moves_declare _ _

theorem moves_declareImports (functions : List ImportedFunction) :
    Moves R (e.declareImports functions) := by
  induction functions with
  | nil => exact .pure _
  | cons function rest ih => exact .seq (e.moves_declareFunction _ _ _) <| ih

theorem moves_declareKernel32 : Moves R e.declareKernel32 :=
  .seq (e.moves_enterFile _) <| .seq (e.moves_enterGlobal _) <|
    .seq (moves_declareImports e _) <| .seq e.moves_exitGlobal <| e.moves_exitFile

/-! ## Calls and returns -/

namespace Win64

theorem moves_call (site : CallSite) : Moves R (call e site) := by
  refine .seq (.ofExcept _) <| .seq (e.moves_movePointer _) <|
    .seq (moves_storeDirect e _) <| .seq (.ofExcept _) <| .seq (.ofExcept _) <|
      .seq (moves_emitTexts e _) <| .seq (moves_loadLines _) <|
        .seq (moves_spillLines _) <| .seq (moves_emitLines e _) <|
          .seq (e.moves_emit _ _) <| .bind (e.moves_movePointer _) fun _ => ?_
  split
  · exact moves_storeResult e _
  · exact .pure _

theorem moves_ret (value : Option Operand) : Moves R (ret e value) := by
  have hret : Moves R (do
      let frame ← e.currentFrame
      e.emitDeferred (← frameAdjustment frame "add" false) programSection
      e.emitText "ret" programSection) :=
    .seq (e.moves_frame _) <| .seq (moves_frameAdjustment _ _ _) <|
      .seq (e.moves_emitDeferred _ _) <| e.moves_emitText _ _
  unfold ret
  split
  · exact .seq (moves_loadResult e _) <| hret
  · exact hret

theorem moves_placeParameters (parameters : List (Parameter × Nat)) :
    Moves R (placeParameters e parameters) := by
  induction parameters with
  | nil => exact .pure _
  | cons entry rest ih =>
    obtain ⟨parameter, number⟩ := entry
    simp only [placeParameters]
    refine .bind (e.moves_declareExisting _ _ _) fun _ => ?_
    cases parameterRegisters[number]? with
    | some register => exact .seq (e.moves_emitText _ _) <| ih
    | none => exact ih

theorem moves_epilogue (pass : Pass) : Moves R (epilogue e pass) := by
  have hset : ∀ size, Moves R (do
      e.movePointer Frame.returnAddress
      e.setStackSize size
      e.exitLocal) := fun _ =>
    .seq (e.moves_movePointer _) <| .seq (e.moves_setStackSize _) <| e.moves_exitLocal
  unfold epilogue
  refine .ite ?_ e.moves_exitLocal
  exact .seq e.moves_maxStackSize <| .seq e.moves_isLeaf <| .seq .look <|
    .ite (.bind (.pure _) hset) (.seq (e.moves_allocate _) <| .bind (.ofFault _) hset)

end Win64

end Engine

/-! ## Arguments and call sites -/

section Arguments

variable (r : Runner) [AdmitsDeeds r.engine R] (hadvance : ∀ id pass, Moves R (r.advance id pass))

include hadvance

theorem moves_toOperand (argument : Argument) (name : String) (expected : Option ValueType) :
    Moves R (argument.toOperand r name expected) := by
  have hfind := r.moves_find hadvance
  unfold Argument.toOperand
  cases argument with
  | register text => exact .seq (.ofExcept _) <| .returns (moves_checkOperand _ _ _)
  | immediate text => exact moves_sizedOperand _ _ _
  | memory path size =>
    refine .bind (hfind path) fun symbol => ?_
    have hsized := moves_memoryOperand (R := R) path name size
      ((expected.map ValueType.size).filter Size.isDefined) symbol
    cases size with
    | none => exact hsized
    | some explicit => exact .seq (moves_checkOperand _ _ _) <| hsized
  | address path => exact .seq (moves_checkOperand _ _ _) <| .returns (hfind path)

theorem moves_resolveArguments (arguments : List (Argument × Option Parameter)) :
    Moves R (CallSite.resolveArguments r arguments) := by
  induction arguments with
  | nil => exact .pure _
  | cons entry rest ih => exact .seq (moves_toOperand r hadvance _ _ _) <| .returns ih

theorem moves_resolveTargets (targets : List Argument) :
    Moves R (CallSite.resolveTargets r targets) := by
  induction targets with
  | nil => exact .pure _
  | cons target rest ih => exact .seq (moves_toOperand r hadvance _ _ _) <| .returns ih

theorem moves_resolveCall (target : Path) (arguments targets : List Argument) :
    Moves R (CallSite.resolve r target arguments targets) := by
  have hmake : ∀ function parameters paired, Moves R (do
      let operands ← CallSite.resolveArguments r paired
      let targets ← CallSite.resolveTargets r targets
      let callee ← sizedOperand .immediate .qword [function]
      CallSite.make callee parameters operands targets) := fun _ _ _ =>
    .seq (moves_resolveArguments r hadvance _) <|
      .seq (moves_resolveTargets r hadvance _) <| .seq (moves_sizedOperand _ _ _) <|
        moves_makeCallSite _ _ _ _
  refine .bind (r.moves_find hadvance target) fun function => ?_
  dsimp only
  split
  · exact .seq .look <| .seq (moves_checkCount _ _ _) <| .seq (.pure _) <| hmake _ _ _
  · exact .seq (.pure _) <| hmake _ _ _

theorem moves_evalOperand (operand : OperandExpr) : Moves R (evalOperand r operand) := by
  have hfind := r.moves_find hadvance
  induction operand with
  | register name => exact .returns (.ofExcept _)
  | registerPart base size upgrade => exact .ofExcept _
  | immediate text size => exact .seq (moves_evalLine hfind text) <| moves_sizedOperand _ _ _
  | memory address size =>
    exact .seq (moves_evalLine hfind address) <| moves_sizedOperand _ _ _
  | reference address => exact .returns (moves_evalLine hfind address)
  | argument argument expected name =>
    exact .seq (moves_evalArgument hfind argument) <|
      .seq (moves_evalOptional (moves_evalValueType hfind) expected) <|
        moves_toOperand r hadvance _ _ _
  | stringLiteral contents => exact moves_stringLiteral r.engine contents
  | cStringLiteral contents => exact moves_cStringLiteral r.engine contents
  | resized operand size ih => exact .seq ih <| moves_resizeOperand _ _

theorem moves_evalOperands (operands : List OperandExpr) : Moves R (evalOperands r operands) := by
  induction operands with
  | nil => exact .pure _
  | cons operand rest ih => exact .seq (moves_evalOperand r hadvance operand) <| .returns ih

end Arguments

/-! ## Commands -/

theorem moves_assignRegister [AdmitsCalm R] (symbol : Symbol) (register : Register) :
    Moves R (Runner.assignRegister symbol register) := by
  unfold Runner.assignRegister
  split
  · exact moves_modify_calm fun _ => .of_eq rfl rfl
  · exact .fail _
  · exact .throw _

namespace Runner

variable (r : Runner) [AdmitsDeeds r.engine R] (hadvance : ∀ id pass, Moves R (r.advance id pass))

theorem moves_runFrame (c : FrameCommand) : Moves R (r.runFrame c) := by
  cases c with
  | size => exact .returns r.engine.moves_stackSize
  | setSize bytes => exact .returns (r.engine.moves_setStackSize bytes)
  | extent => exact .returns r.engine.moves_maxStackSize
  | pointer => exact .returns r.engine.moves_stackPointer
  | move delta => exact .returns (r.engine.moves_movePointer delta)
  | declareCall => exact .returns r.engine.moves_declareCall
  | isLeaf => exact .returns r.engine.moves_isLeaf
  | inspect => exact .returns (r.engine.moves_frameState _)

include hadvance

theorem moves_runScope (c : ScopeCommand) : Moves R (r.runScope c) := by
  have hfind := r.moves_find hadvance
  cases c with
  | setPosition line column => exact .returns (r.engine.moves_setPosition line column)
  | location | currentFile | completed => exact .returns r.engine.moves_state
  | enterFile name => exact .returns (r.engine.moves_enterFile name)
  | exitFile => exact .returns r.engine.moves_exitFile
  | importScope path =>
    exact .seq (moves_evalPath hfind path) <| .returns (r.engine.moves_importScope _)
  | enterGlobal path =>
    exact .seq (moves_evalPath hfind path) <| .returns (r.engine.moves_enterGlobal _)
  | exitGlobal => exact .returns r.engine.moves_exitGlobal
  | currentPath => exact .returns r.engine.moves_currentPath
  | associatedType => exact .seq r.engine.moves_associatedType <| .returns .look
  | enterLocal name => exact .returns (r.engine.moves_enterLocal name)
  | exitLocal => exact .returns r.engine.moves_exitLocal
  | enterBlock => exact .returns r.engine.moves_enterBlock
  | exitBlock => exact .returns r.engine.moves_exitBlock
  | note key => exact .returns (r.engine.moves_note? key)
  | setNote key value => exact .returns (r.engine.moves_setNote key value)
  | place => exact .returns r.engine.moves_place
  | uid => exact .returns moves_nextUid
  | label name => exact .returns (r.engine.moves_label name)
  | settings => exact .returns .look
  | scopeCount => exact .returns .look
  | output name => exact .returns (r.engine.moves_output? name)

theorem moves_runDeclaration (c : DeclarationCommand) : Moves R (r.runDeclaration c) := by
  have hfind := r.moves_find hadvance
  cases c with
  | declare name symbol store =>
    exact .seq (moves_evalSymbol hfind symbol) <| .seq (moves_storeSymbol store _) <|
      .returns (r.engine.moves_declare name _)
  | declareVariable name type =>
    exact .seq (moves_evalValueType hfind type) <| .returns (r.engine.moves_declareVariable name _)
  | declareVariableOf name type =>
    exact .bind (moves_evalTypeRef hfind type) fun reference =>
      .seq (moves_solve (moves_modifyTypeRef reference) hfind) <|
        .returns (r.engine.moves_declareVariable name _)
  | allocate bytes => exact .returns (r.engine.moves_allocate bytes)
  | declareExisting name type offset =>
    exact .seq (moves_evalValueType hfind type) <|
      .returns (r.engine.moves_declareExisting name _ offset)
  | declareConstant name text type =>
    exact .seq (moves_evalOptional (moves_evalValueType hfind) type) <|
      .returns (r.engine.moves_declare name _)
  | declareFunction name label parameters =>
    exact .seq (moves_evalParameters hfind parameters) <|
      .returns (r.engine.moves_declareFunction name label _)
  | declarePlaceholder name resolution store =>
    exact .seq (r.engine.moves_declarePlaceholder name _) <| .returns (moves_storeSymbol store _)
  | declareFunctionPlaceholder name parameters resolution store =>
    exact .seq (moves_evalTypedNames hfind parameters) <|
      .seq (r.engine.moves_declareFunctionPlaceholder name _ _) <|
        .returns (moves_storeSymbol store _)
  | newPlaceholder resolution store =>
    exact .seq (moves_newPlaceholder rfl ⟨_, rfl⟩) <| .returns (moves_storeSymbol _ _)
  | layoutOf type store =>
    refine .bind (moves_evalTypeSymbol hfind type) fun _ => ?_
    split
    · exact .returns (moves_storeSymbol _ _)
    · exact .throw _
  | addPlaceholder handle =>
    exact .seq (moves_fetchPlaceholder handle) <| .returns (r.engine.moves_addPlaceholder _)
  | addDependency first second =>
    exact .seq (moves_fetchPlaceholder first) <|
      .seq (moves_fetchPlaceholder second) <| .returns (r.engine.moves_addDependency _ _)
  | resolvePlaceholder handle =>
    exact .bind (moves_fetchPlaceholder handle) fun id => .seq (moves_resolve id) <|
      .returns (moves_viewSymbol _)
  | placeholderResult handle =>
    exact .bind (moves_fetchPlaceholder handle) fun id => .seq (moves_result id) <|
      .returns (moves_viewSymbol _)
  | declareType name type store =>
    exact .seq (moves_evalTypeSymbol hfind type) <|
      .seq (moves_storeSymbol store _) <| .returns (r.engine.moves_declareType name _)
  | declareTemplate name handle =>
    exact .seq (moves_fetch _ handle) <| .returns (r.engine.moves_declareTemplate name _)
  | setAlias name register => exact .returns (r.engine.moves_setAlias name register)
  | isStackVariable name => exact .returns (r.engine.moves_isStackVariable name)

theorem moves_runSymbol (c : SymbolCommand) : Moves R (r.runSymbol c) := by
  have hfind := r.moves_find hadvance
  have hsymbol := fun symbol => moves_evalSymbol hfind symbol
  cases c with
  | find path store =>
    exact .seq (moves_evalPath hfind path) <| .seq (hfind _) <|
      .seq (moves_storeSymbol store _) <| .returns (moves_viewSymbol _)
  | inspect symbol store =>
    exact .seq (hsymbol symbol) <| .seq (moves_storeSymbol store _) <| .returns (moves_viewSymbol _)
  | settled symbol => exact .seq (hsymbol symbol) <| .seq .look <| .returns (moves_viewSymbol _)
  | summary symbol => exact .seq (hsymbol symbol) <| .returns (moves_viewSymbol _)
  | rendered symbol => exact .seq (hsymbol symbol) <| .returns (moves_renderedText _)
  | equal first second => exact .seq (hsymbol first) <| .seq (hsymbol second) <| .returns .look
  | assign symbol register =>
    exact .seq (.ofExcept _) <| .seq (hsymbol symbol) <| .returns (moves_assignRegister _ _)
  | inspectLine line store =>
    exact .seq (moves_evalLine hfind line) <| .seq (moves_storeLine store _) <|
      .returns (moves_viewLine _)
  | pinned line =>
    exact .seq (moves_evalLine hfind line) <| .seq .look <| .returns (moves_viewLine _)
  | setCell name value => exact .seq (moves_modify_calm fun _ => .of_eq rfl rfl) <| .pure _
  | operand operand =>
    exact .seq (moves_evalOperand r hadvance operand) <| .returns (moves_viewOperand _)
  | valueType type => exact .returns (moves_evalValueType hfind type)
  | sameValueType first second =>
    exact .seq (moves_evalValueType hfind first) <| .returns (moves_evalValueType hfind second)
  | raise e => exact .fail e

theorem moves_runTypeRef (c : TypeRefCommand) : Moves R (r.runTypeRef c) := by
  have hfind := r.moves_find hadvance
  cases c with
  | inspect type store =>
    exact .seq (moves_evalTypeRef hfind type) <| .seq (moves_storeTypeRef store _) <| .returns .look
  | await type handle =>
    exact .seq (moves_evalTypeRef hfind type) <| .seq (moves_fetchPlaceholder handle) <|
        .seq (moves_await (moves_modifyTypeRef _) hfind fun _ =>
          r.engine.moves_addDependency _ _) <| .returns .look
  | settle type =>
    exact .seq (moves_evalTypeRef hfind type) <|
      .seq (moves_settle (moves_modifyTypeRef _)) <| .returns (moves_known _)
  | solve type =>
    exact .seq (moves_evalTypeRef hfind type) <|
      .returns (moves_solve (moves_modifyTypeRef _) hfind)

theorem moves_runOutput (c : OutputCommand) : Moves R (r.runOutput c) := by
  have hfind := r.moves_find hadvance
  have hoperand := moves_evalOperand r hadvance
  have hoperands := moves_evalOperands r hadvance
  cases c with
  | emit line name =>
    exact .seq (moves_evalLine hfind line) <| .returns (r.engine.moves_emit _ name)
  | emitDeferred line name =>
    exact .seq (moves_evalLine hfind line) <| .returns (r.engine.moves_emitDeferred _ name)
  | builtinTypes => exact .returns (moves_declareBuiltinTypes r.engine)
  | arrayFields elementSize => exact .returns (moves_declareArrayFields r.engine elementSize)
  | resolveCall target arguments targets =>
    exact .seq (moves_evalPath hfind target) <| .seq (moves_evalArguments hfind arguments) <|
        .seq (moves_evalArguments hfind targets) <|
          .seq (moves_resolveCall r hadvance _ _ _) <| .seq (moves_viewOperand _) <|
            .seq (moves_viewOperands _) <| .returns (moves_viewOperands _)
  | call callee arguments targets parameters =>
    exact .seq (hoperand callee) <| .seq (hoperands arguments) <| .seq (hoperands targets) <|
        .seq (moves_evalOptional (moves_evalParameters hfind) parameters) <|
          .seq (moves_makeCallSite _ _ _ _) <| .returns (Win64.moves_call r.engine _)
  | ret value =>
    exact .seq (moves_evalOptional hoperand value) <| .returns (Win64.moves_ret r.engine _)

theorem moves_runTemplate (c : TemplateCommand) : Moves R (r.runTemplate c) := by
  have hfind := r.moves_find hadvance
  cases c with
  | instantiate handle arguments store =>
    have : AdmitsForks R := AdmitsDeeds.forks r.engine
    exact .seq (moves_fetch _ handle) <| .seq (moves_evalSymbols hfind arguments) <|
      .seq (r.moves_instantiate hadvance _ _) <| .seq (moves_storeInstance store _) <|
        .returns .look
  | inspectInstance handle => exact .seq (moves_fetch _ handle) <| .returns .look
  | advanceInstance handle pass => exact .seq (moves_fetch _ handle) <| .returns (hadvance _ pass)
  | inspect handle => exact .seq .look <| .returns (moves_fetch _ handle)
  | memoInsert arguments handle =>
    exact .seq (moves_evalSymbols hfind arguments) <| .seq (moves_fetch _ handle) <|
      .seq (moves_modify_calm fun _ => .of_eq rfl rfl) <| .returns .look
  | memoFind arguments => exact .seq (moves_evalSymbols hfind arguments) <| .returns .look
  | snapshot store =>
    exact .seq r.engine.moves_snapshot <| .seq (moves_storeSnapshot store _) <| .returns .look

theorem moves_runCommand (c : Command) : Moves R (r.runCommand c) := by
  cases c with
  | scope c => exact r.moves_runScope hadvance c
  | declaration c => exact r.moves_runDeclaration hadvance c
  | symbol c => exact r.moves_runSymbol hadvance c
  | typeRef c => exact r.moves_runTypeRef hadvance c
  | frame c => exact r.moves_runFrame c
  | output c => exact r.moves_runOutput hadvance c
  | template c => exact r.moves_runTemplate hadvance c
  | newTemplate name parameters body handle => exact .returns (.map (moves_buildTemplate _ _ _ _) _)

theorem moves_runCall (call : Call) : Moves R (r.runCall call) := by
  obtain ⟨label, command, attempted⟩ := call
  refine .seq r.engine.moves_currentPass <|
    .bind (.attempt (r.moves_runCommand hadvance command)) fun outcome => ?_
  split
  · exact .pure _
  · exact moves_record _
  · exact .ite (moves_record _) (.fail _)

theorem moves_runCalls (calls : List Call) : Moves R (r.runCalls calls) := by
  induction calls with
  | nil => exact .pure _
  | cons call rest ih => exact .seq (r.moves_runCall hadvance call) <| ih

end Runner

end StagedAsm
