import StagedAsm.Proofs.CommandMoves

/-!
# Actions

The actions of a program move the session by the steps of the engine that runs it and by running
instances. `Runner.moves_performPass` and `Runner.moves_leavePass` are what is used of it.
-/

namespace StagedAsm

variable {R : Session → Session → Prop}

/-! ## Structures -/

namespace Structure

section Declaring

variable (e : EngineId) [AdmitsDeeds e R]

theorem moves_declareKnown (fields : List (Field × UInt32)) : Moves R (declareKnown e fields) := by
  induction fields with
  | nil => exact .pure _
  | cons entry rest ih => exact .seq (moves_known _) <| .seq (e.moves_declare _ _) <| ih

theorem moves_declarePending (owner : TypeId) (fields : List Field) :
    Moves R (declarePending e owner fields) := by
  induction fields with
  | nil => exact .pure _
  | cons field rest ih => exact .seq (.map (e.moves_declarePlaceholder _ _) _) <| ih

theorem moves_declare (name : String) (fields : List Field) (offsets : List UInt32)
    (knownSize : UInt32) : Moves R (declare e name fields offsets knownSize) := by
  have hfields : ∀ owner, Moves R (do
      e.enterGlobal (Path.ofName name)
      declareKnown e (fields.zip offsets)
      declarePending e owner (fields.drop offsets.length)) := fun owner =>
    .seq (e.moves_enterGlobal _) <| .seq (moves_declareKnown e _) <| moves_declarePending e owner _
  refine .bind (moves_laidOutStruct _ _ _) fun target =>
    .bind (.map (e.moves_declareType _ _) _) fun _ => ?_
  split
  · exact .seq (e.moves_addPlaceholder _) <| hfields target.base
  · exact hfields target.base

end Declaring

variable (r : Runner) [AdmitsDeeds r.engine R] (hadvance : ∀ id pass, Moves R (r.advance id pass))

include hadvance

variable (name : String) (fields : List Field)

theorem moves_chain (previous : Option PlaceholderId) (fields : List Field) :
    Moves R (chain r name previous fields) := by
  have hfind := r.moves_find hadvance
  induction fields generalizing previous with
  | nil => exact .pure _
  | cons field rest ih =>
    refine .bind (hfind _) fun symbol => ?_
    split
    · refine .bind (moves_await (moves_modifyTypeRef _) hfind fun _ =>
        r.engine.moves_addDependency _ _) fun _ => ?_
      cases previous with
      | none => exact ih _
      | some previous => exact .seq (r.engine.moves_addDependency _ _) <| ih _
    · exact .fail _

theorem moves_link : Moves R (link r name fields) := by
  refine .bind r.engine.moves_associatedType fun type => ?_
  split
  · exact .fail _
  · refine .bind (moves_chain r hadvance name none fields) fun last => ?_
    cases last with
    | none => exact .pure _
    | some last => exact r.engine.moves_addDependency _ _

theorem moves_enter (pass : Pass) (name : String) (fields : List Field) (offsets : List UInt32)
    (knownSize : UInt32) : Moves R (enter r pass name fields offsets knownSize) := by
  cases pass with
  | declare => exact moves_declare r.engine name fields offsets knownSize
  | resolve => exact .seq (r.engine.moves_enterGlobal _) <| moves_link r hadvance _ _
  | generate => exact r.engine.moves_enterGlobal _

end Structure

variable (r : Runner) [AdmitsDeeds r.engine R] (hadvance : ∀ id pass, Moves R (r.advance id pass))

/-! ## Functions -/

namespace Win64

include hadvance

theorem moves_awaitParameters (id : PlaceholderId) (parameters : List (TypeRefId × String)) :
    Moves R (awaitParameters r id parameters) := by
  induction parameters with
  | nil => exact .pure _
  | cons entry rest ih =>
    exact .seq (moves_await (moves_modifyTypeRef _) (r.moves_find hadvance) fun _ =>
      r.engine.moves_addDependency _ _) <| ih

theorem moves_prologue (pass : Pass) (name : String) (parameters : List (TypeRefId × String)) :
    Moves R (prologue r pass name parameters) := by
  have hfind := r.moves_find hadvance
  cases pass with
  | declare =>
    exact .seq (r.engine.moves_label _) <|
      .ite (.seq (r.engine.moves_declareFunction _ _ _) <| r.engine.moves_enterLocal _)
        (.seq (.map (r.engine.moves_declareFunctionPlaceholder _ _ _) _) <|
          r.engine.moves_enterLocal _)
  | resolve =>
    refine .bind (hfind _) fun symbol => ?_
    split
    · exact .seq .look <| .seq (moves_awaitParameters r hadvance _ _) <| r.engine.moves_enterLocal _
    · exact r.engine.moves_enterLocal _
  | generate =>
    have hopen : ∀ symbol (parameters : List Parameter), Moves R (do
        r.engine.emit [symbol, .ofText ":"] programSection
        r.engine.enterLocal name
        r.engine.movePointer (-Frame.returnAddress)
        placeParameters r.engine parameters.zipIdx
        let frame ← r.engine.currentFrame
        r.engine.emitDeferred (← frameAdjustment frame "sub" true) programSection) := fun _ _ =>
      .seq (r.engine.moves_emit _ _) <| .seq (r.engine.moves_enterLocal _) <|
        .seq (r.engine.moves_movePointer _) <|
          .seq (moves_placeParameters r.engine _) <| .seq (r.engine.moves_frame _) <|
            .seq (moves_frameAdjustment _ _ _) <| r.engine.moves_emitDeferred _ _
    refine .bind (hfind _) fun symbol => ?_
    dsimp only
    split
    · exact .seq (.pure _) <| hopen _ _
    · exact .seq (.fail _) <| hopen _ _

end Win64

/-! ## Actions -/

variable (e : EngineId) (key : String)

theorem EngineId.moves_rememberLabel [AdmitsWork e R] : Moves R (e.rememberLabel key) :=
  .seq (e.moves_label key) <| .returns (e.moves_setNote key _)

theorem EngineId.moves_recallLabel [IsPreorder Session R] : Moves R (e.recallLabel key) :=
  .bind (e.moves_note? key) fun label => by
    cases label with
    | none => exact .fail _
    | some label => exact .pure _

namespace Runner

include hadvance

theorem moves_emitEntryPoint (start : Option Path) : Moves R (r.emitEntryPoint start) := by
  have hfind := r.moves_find hadvance
  have hcall : ∀ entry : String, Moves R (do
      r.engine.emitText s!"call {entry}" programSection
      r.engine.emitText "xor ecx, ecx" programSection
      r.engine.emitText "jmp ExitProcess" programSection) := fun _ =>
    .seq (r.engine.moves_emitText _ _) <| .seq (r.engine.moves_emitText _ _) <|
      r.engine.moves_emitText _ _
  refine .seq (hfind _) <| .seq (moves_renderedText _) <|
    .seq (r.engine.moves_emitText _ _) <| .bind (r.engine.moves_emitText _ _) fun _ => ?_
  cases start with
  | none => exact hcall _
  | some path =>
    exact .seq (hfind path) <| .seq (moves_renderedText _) <|
      .seq (r.engine.moves_emitText _ _) <| hcall _

variable (pass : Pass) (action : Action)

theorem moves_advanceAll (ids : List InstanceId) : Moves R (r.advanceAll pass ids) := by
  induction ids with
  | nil => exact .pure _
  | cons id rest ih => exact .seq (hadvance id pass) <| ih

theorem moves_runTemplateAction (id : TemplateId) : Moves R (r.runTemplateAction pass id) := by
  have htake : Moves R (do
      let taken := ((← get).template id).memo.instances
      happened (.replayed id pass taken)
      r.advanceAll pass taken) :=
    .look_bind fun s => Moves.leaves_bind
      (AdmitsPlain.plain ⟨.replay id pass, rfl, rfl, fun h => h⟩) fun _ s' _ =>
        r.moves_advanceAll hadvance pass _ s'
  refine .ite ?_ htake
  refine .seq .look <| .bind (r.engine.moves_declareTemplate _ _) fun _ s => ?_
  refine Moves.leaves_bind (r.engine.moves_snapshot s) fun snapshot s' hsnapshot => ?_
  obtain ⟨rfl, rfl⟩ := EngineId.snapshot_eq_ok hsnapshot
  have hdeclare : R s' _ := AdmitsDeeds.deed (e := r.engine) (.declare id)
  exact Moves.leaves_bind hdeclare fun _ s'' _ => htake s''

theorem moves_generateAction : Moves R (r.generateAction action) := by
  have hfind := r.moves_find hadvance
  cases action with
  | emitText text name => exact r.engine.moves_emitText text name
  | emit line => exact .seq (moves_evalLine hfind line) <| r.engine.moves_emit _ _
  | jumpToNew _ key | placeNew key =>
    exact .seq (r.engine.moves_rememberLabel key) <| r.engine.moves_emitText _ _
  | jumpToKnown _ key | placeKnown key =>
    exact .seq (r.engine.moves_recallLabel key) <| r.engine.moves_emitText _ _
  | startOtherwise =>
    exact .seq (r.engine.moves_rememberLabel _) <| .seq (r.engine.moves_emitText _ _) <|
        .seq (r.engine.moves_recallLabel _) <| r.engine.moves_emitText _ _
  | call target arguments targets =>
    exact .seq (moves_resolveCall r hadvance target arguments targets) <|
      .seq (Win64.moves_call r.engine _) <| r.engine.moves_declareCall
  | ret value =>
    exact .seq (moves_evalOptional (fun v => moves_toOperand r hadvance v _ _) value) <|
      Win64.moves_ret r.engine _
  | entryPoint start => exact r.moves_emitEntryPoint hadvance start
  | _ => exact .pure _

theorem moves_runAction : Moves R (r.runAction pass action) := by
  have hgenerate : ∀ action,
      Moves R (if pass = .generate then r.generateAction action else pure ()) := fun action =>
    .ite (r.moves_generateAction hadvance action) (.pure _)
  cases action with
  | perform only calls => exact .ite (r.moves_runCalls hadvance calls) (.pure _)
  | enterFile name => exact r.engine.moves_enterFile name
  | exitFile => exact r.engine.moves_exitFile
  | importScope path => exact .ite (r.engine.moves_importScope path) (.pure _)
  | enterGlobal path => exact r.engine.moves_enterGlobal path
  | exitGlobal => exact r.engine.moves_exitGlobal
  | constant name value => exact .ite (r.engine.moves_declare name _) (.pure _)
  | enterBlock => exact r.engine.moves_enterBlock
  | exitBlock => exact r.engine.moves_exitBlock
  | prologue name parameters => exact Win64.moves_prologue r hadvance pass name parameters
  | epilogue => exact Win64.moves_epilogue r.engine pass
  | enterStruct name fields offsets knownSize =>
    exact Structure.moves_enter r hadvance pass name fields offsets knownSize
  | template id => exact r.moves_runTemplateAction hadvance pass id
  | builtins => exact .ite (moves_declareBuiltinTypes r.engine) (.pure _)
  | kernel32 => exact .ite (moves_declareKernel32 r.engine) (.pure _)
  | ret value => exact .seq r.engine.moves_isLocal <| .check (hgenerate _)
  | _ => exact hgenerate _

theorem moves_runActions (program : Program) : Moves R (r.runActions pass program) := by
  induction program with
  | nil => exact .pure _
  | cons action rest ih => exact .seq (r.moves_runAction hadvance pass action) <| ih

theorem moves_performPass {program : Program} {depth : Nat} {pass : Pass}
    (hrunning : Moves R (modifyEngine r.engine fun engine => { engine with running := some pass }))
    (hopen : Moves R r.openEpoch) : Moves R (r.performPass program depth pass) :=
  .seq hrunning <| .when hopen <| .seq (r.moves_runActions hadvance pass program) <|
    .seq r.engine.moves_state <| .ite (.fail _) (.pure _)

omit hadvance in
theorem moves_leavePass (hsettle : Moves R r.settleEpoch) (pass : Pass) :
    Moves R (r.leavePass pass) := by
  have hend : Moves R (do
      if pass = .generate then r.engine.closeSections
      r.engine.endPass) := by
    dsimp only
    exact .when r.engine.moves_closeSections r.engine.moves_endPass
  unfold leavePass
  exact .when hsettle hend

end Runner

end StagedAsm
