import StagedAsm.Proofs.Evaluation

/-!
# What engines do to a session

An engine that enters scopes, binds names or emits lines does so deed by deed. One that registers
placeholders or makes them wait changes the epoch, and says so in the history.
-/

namespace StagedAsm

open AdmitsDeeds ScopeTree ScopeWork

variable {α : Type}

/-! ## Looking at an engine -/

namespace EngineId

section Reading

variable {R : Session → Session → Prop} [IsPreorder Session R] (e : EngineId)

theorem moves_state : Moves R e.state := .returns .look

theorem moves_currentPass : Moves R e.currentPass := .returns e.moves_state

theorem moves_currentScope : Moves R e.currentScope := .returns e.moves_state

theorem moves_scope : Moves R e.scope := .returns .look

omit [IsPreorder Session R] in
theorem moves_here {k : ScopeId → CompileM α}
    (h : ∀ s, R s (leaves (k (s.engine e).currentScope) s)) : Moves R (e.currentScope >>= k) := h

theorem moves_isLocal : Moves R e.isLocal := .returns e.moves_scope

variable (pass : Pass) (operation : String)

theorem moves_requirePass : Moves R (e.requirePass pass operation) :=
  .seq e.moves_currentPass <| .ite (.fail _) (.pure _)

theorem moves_forbidPass : Moves R (e.forbidPass pass operation) :=
  .seq e.moves_currentPass <| .ite (.fail _) (.pure _)

variable (name operation : String)

theorem moves_requireGlobal : Moves R (e.requireGlobal operation) :=
  .seq e.moves_isLocal <| .ite (.fail _) (.pure _)

theorem moves_requireLocal : Moves R (e.requireLocal operation) :=
  .seq e.moves_isLocal <| .ite (.fail _) (.pure _)

theorem moves_currentPath : Moves R e.currentPath := .returns .look

theorem moves_associatedType : Moves R e.associatedType :=
  .seq e.moves_isLocal <| .check (.returns e.moves_scope)

theorem moves_note? (key : String) : Moves R (e.note? key) := .returns e.moves_scope

theorem moves_snapshot : Moves R e.snapshot :=
  .seq e.moves_isLocal <| .check (.returns e.moves_state)

theorem moves_place : Moves R e.place :=
  .seq e.moves_state <| .seq e.moves_scope <| .returns e.moves_currentPath

theorem moves_frame : Moves R (e.frame operation) :=
  .seq (e.moves_requireLocal operation) <| .bind e.moves_scope fun _ => by
    split
    · exact .pure _
    · exact .fail _

theorem moves_frameState : Moves R (e.frameState operation) :=
  .seq (e.moves_frame operation) <| .returns .look

theorem moves_stackSize : Moves R e.stackSize :=
  .seq (e.moves_requirePass _ _) <| .seq (e.moves_frameState _) <| .ofExcept _

theorem moves_maxStackSize : Moves R e.maxStackSize :=
  .returns (e.moves_frameState _)

theorem moves_stackPointer : Moves R e.stackPointer :=
  .returns (e.moves_frameState _)

theorem moves_isLeaf : Moves R e.isLeaf := .returns (e.moves_frameState _)

theorem moves_requireSection : Moves R (e.requireSection name) :=
  .seq e.moves_state <| .ite (.fail _) (.pure _)

theorem moves_output? : Moves R (e.output? name) := .returns .look

theorem moves_isStackVariable : Moves R (e.isStackVariable name) :=
  .seq e.moves_isLocal <| .returns e.moves_scope

theorem moves_checkPlaceholderSite : Moves R e.checkPlaceholderSite :=
  .seq e.moves_isLocal <| .check (e.moves_requirePass _ _)

end Reading

section Looking

variable {e : EngineId} {s s' : Session}

theorem currentScope_bind (k : ScopeId → CompileM α) :
    (e.currentScope >>= k) s = k (s.engine e).currentScope s := rfl

theorem scope_bind (k : Scope → CompileM α) :
    (e.scope >>= k) s = k (s.tree.scope (s.engine e).currentScope) s := rfl

theorem state_bind (k : Engine → CompileM α) : (e.state >>= k) s = k (s.engine e) s := rfl

theorem isLocal_bind (k : Bool → CompileM α) :
    (e.isLocal >>= k) s = k (s.tree.isLocal (s.engine e).currentScope) s := rfl

variable {operation : String} {u : PUnit} {pass : Pass}

theorem requireLocal_eq_ok : e.requireLocal operation s = .ok u s' ↔
      s.tree.isLocal (s.engine e).currentScope = true ∧ s' = s := by
  rw [requireLocal, isLocal_bind]
  by_cases hlocal : s.tree.isLocal (s.engine e).currentScope = true
  · simp [hlocal]
  · simp [hlocal, fail]

theorem requirePass_eq_ok :
    e.requirePass pass operation s = .ok u s' ↔ (s.engine e).currentPass = pass ∧ s' = s := by
  have hpass : e.requirePass pass operation s =
      (if (s.engine e).currentPass ≠ pass then fail (.passOrdering operation
        (s.engine e).currentPass) else pure () : CompileM Unit) s := rfl
  rw [hpass]
  by_cases hcurrent : (s.engine e).currentPass = pass
  · simp [hcurrent]
  · simp [hcurrent, fail]

theorem forbidPass_eq_ok :
    e.forbidPass pass operation s = .ok u s' ↔ (s.engine e).currentPass ≠ pass ∧ s' = s := by
  have hpass : e.forbidPass pass operation s =
      (if (s.engine e).currentPass = pass then fail (.passOrdering operation
        (s.engine e).currentPass) else pure () : CompileM Unit) s := rfl
  rw [hpass]
  by_cases hcurrent : (s.engine e).currentPass = pass
  · simp [hcurrent, fail]
  · simp [hcurrent]

theorem frame_eq_ok {f : FrameId} :
    e.frame operation s = .ok f s' ↔ s.tree.isLocal (s.engine e).currentScope = true ∧
      (s.tree.scope (s.engine e).currentScope).frame = some f ∧ s' = s := by
  unfold frame
  rw [bind_eq_ok]
  constructor
  · rintro ⟨_, s1, hlocal, h⟩
    obtain ⟨hlocal, rfl⟩ := requireLocal_eq_ok.mp hlocal
    rw [scope_bind] at h
    cases hframe : (s1.tree.scope (s1.engine e).currentScope).frame with
    | none => simp [hframe, fail] at h
    | some g =>
      rw [hframe] at h
      obtain ⟨rfl, rfl⟩ := pure_eq_ok.mp h
      exact ⟨hlocal, rfl, rfl⟩
  · rintro ⟨hlocal, hframe, rfl⟩
    refine ⟨⟨⟩, s', requireLocal_eq_ok.mpr ⟨hlocal, rfl⟩, ?_⟩
    rw [scope_bind, hframe]
    rfl

theorem snapshot_eq_ok {snapshot : Snapshot} (h : e.snapshot s = .ok snapshot s') :
    snapshot = (s.engine e).snapshot ∧ s' = s := by
  rw [EngineId.snapshot, isLocal_bind] at h
  split at h
  · cases h
  · cases h
    exact ⟨rfl, rfl⟩

end Looking

end EngineId

/-! ## Steps -/

section Steps

variable {R : Session → Session → Prop}

theorem moves_nextUid [AdmitsCalm R] : Moves R nextUid :=
  .modifyGet fun s => AdmitsCalm.calm { refl_of Calm s with uid := Nat.le_succ _ }

namespace EngineId

section Work

variable {scope : ScopeId} {s : Session}

theorem works_descend {id : ScopeId} (path : Path) (hunder : s.tree.Under id scope) :
    ScopeWork id s (leaves (descend scope path) s) := by
  induction path generalizing scope s with
  | nil => exact refl_of (ScopeWork id) s
  | cons segment rest ih =>
    rw [descend]
    split
    · exact refl_of (ScopeWork id) s
    · refine Moves.leaves_bind ?_ fun sub s1 hsub => ?_
      · rw [leaves_onTree]
        exact .of_tree (within_getOrAddGlobal_of _ hunder)
      · obtain ⟨t, ht, rfl⟩ := onTree_eq_ok.mp hsub
        have hfound := getOrAddGlobal_eq_ok ht
        have hwithin : s.tree.Within id t := by
          rw [← leaves_of_ok ht]
          exact within_getOrAddGlobal_of _ hunder
        -- The walk goes on in a sub-scope of the scope it came to.
        exact ih ((hunder.keeps hwithin.toKeeps).subScope? hfound)

theorem descend_eq_ok {last : ScopeId} {path : Path} {s' : Session}
    (h : descend scope path s = .ok last s') :
    s'.tree.subScopeAt? scope (path.map Segment.name) = some last := by
  induction path generalizing scope s with
  | nil =>
    cases h
    rfl
  | cons segment rest ih =>
    rw [descend] at h
    split at h
    · exact nomatch h
    · obtain ⟨sub, s1, hsub, h⟩ := bind_eq_ok.mp h
      obtain ⟨t, ht, rfl⟩ := onTree_eq_ok.mp hsub
      have hkeeps : t.Keeps s'.tree := by
        have hworks : ScopeWork sub { s with tree := t } s' := by
          rw [← leaves_of_ok h]
          exact works_descend rest .here
        exact hworks.tree.toKeeps
      have hfound := hkeeps.find? (getOrAddGlobal_eq_ok ht)
      simp only [List.map_cons, subScopeAt?, subScope?, hfound, Option.bind_some]
      exact ih h

variable (e : EngineId) [AdmitsWork e R]

theorem moves_setNote (key value : String) : Moves R (e.setNote key value) :=
  e.moves_inside fun _ => .modify fun _ =>
    .of_tree (ScopeTree.Within.modifyScope (fun _ _ h => h) rfl rfl)

variable (name : String)

theorem moves_label : Moves R (e.label name) :=
  .seq moves_nextUid <| .returns e.moves_currentPath

theorem moves_importScope (path : Path) : Moves R (e.importScope path) := by
  refine .seq (e.moves_forbidPass _ _) <| .bind e.moves_state fun _ => ?_
  split
  · exact .fail _
  · refine .bind .look fun _ => ?_
    split
    · exact .fail _
    · exact .ite (moves_modify_calm fun _ => .of_eq rfl rfl) (.pure _)

/-! ### Declarations -/

theorem moves_declare (symbol : Symbol) : Moves R (e.declare name symbol) :=
  e.moves_inside fun _ => moves_onTree (within_declare _ _ _)

theorem moves_declareAll (bindings : List (String × Symbol)) : Moves R (e.declareAll bindings) := by
  induction bindings with
  | nil => exact .pure _
  | cons entry rest ih => exact .seq (e.moves_declare _ _) <| ih

theorem moves_declareVariable (type : ValueType) : Moves R (e.declareVariable name type) :=
  .seq (e.moves_requireLocal _) <| e.moves_inside fun _ =>
    moves_onTree (within_declareVariable _ _ _)

theorem moves_declareExisting (type : ValueType) (offset : Int) :
    Moves R (e.declareExisting name type offset) :=
  .seq (e.moves_requireLocal _) <| e.moves_inside fun _ =>
    moves_onTree (within_declareExisting _ _ _ _)

theorem moves_allocate (bytes : UInt32) : Moves R (e.allocate bytes) :=
  .seq (e.moves_requireLocal _) <| e.moves_inside fun _ =>
    moves_onTree (within_allocate _ _)

theorem moves_setAlias (register : String) : Moves R (e.setAlias name register) := by
  refine .seq (e.moves_requireLocal _) <| .seq (e.moves_requirePass _ _) <|
    .seq (.ofExcept _) <| .seq .look <| .bind e.moves_currentScope fun _ => ?_
  split
  · exact .seq (moves_modify_calm fun _ => .of_eq rfl rfl) <| .pure _
  · exact .seq (moves_newAlias _) <| .returns (e.moves_declare _ _)

theorem moves_declareFunction (label : String) (parameters : List Parameter) :
    Moves R (e.declareFunction name label parameters) :=
  .seq (e.moves_requireGlobal _) <| e.moves_inside fun _ =>
    .seq (moves_onTree (within_declare _ _ _)) <|
      .map (moves_onTree (within_addFunction _ _)) _

theorem moves_declareType (type : TypeSymbol) : Moves R (e.declareType name type) :=
  .seq (e.moves_requirePass _ _) <| .seq (e.moves_requireGlobal _) <| e.moves_inside fun _ =>
      .seq (moves_onTree (within_addGlobal _ _ _)) <|
        .seq (moves_onTree (within_declare _ _ _)) <| .returns (moves_modifyType _ _)

theorem moves_declareTemplate (template : TemplateId) : Moves R (e.declareTemplate name template) :=
  .seq (e.moves_requirePass _ _) <| .seq (e.moves_requireGlobal _) <| e.moves_declare name _

/-! ### Frames -/

theorem moves_onFrame {β : Type} {operation : String} {k : FrameId → CompileM β}
    (h : ∀ f s, (s.tree.scope (s.engine e).currentScope).frame = some f → R s (leaves (k f) s)) :
    Moves R (e.frame operation >>= k) :=
  fun s => Moves.leaves_bind (e.moves_frame operation s) fun f s' hf => by
    obtain ⟨-, hframe, rfl⟩ := frame_eq_ok.mp hf
    exact h f s' hframe

variable {e} in
theorem work_updateFrame {f : FrameId}
    (hframe : (s.tree.scope (s.engine e).currentScope).frame = some f)
    (change : FrameM Fault Unit) :
    R s (leaves (onTree (updateFrame f change)) s) := by
  rw [leaves_onTree]
  exact AdmitsWork.work (e := e) (within_updateFrame hframe change)

theorem moves_movePointer (delta : Int) : Moves R (e.movePointer delta) :=
  e.moves_onFrame fun f s hframe =>
    Moves.leaves_bind (e.moves_requirePass _ _ s) fun _ s' hpass => by
      obtain ⟨-, rfl⟩ := requirePass_eq_ok.mp hpass
      exact work_updateFrame hframe _

theorem moves_declareCall : Moves R e.declareCall :=
  .seq e.moves_isLocal <|
    .ite (e.moves_onFrame fun _ _ hframe => work_updateFrame hframe _) (.pure _)

end Work

end EngineId

namespace EngineId

/-! ### Placeholders -/

variable (f : DependencyGraph PlaceholderId → Except CompileError (DependencyGraph PlaceholderId))
  (owner : ScopeId) (name : String) (parameters : Option (List (TypeRefId × String)))
  (resolution : Resolution) (s : Session)

theorem bindPlaceholder_apply :
    bindPlaceholder owner name parameters resolution s = (do
      onTree (ScopeTree.declare owner name (.placeholder ⟨s.placeholders.size⟩))
      newPlaceholder { name := some name, owner := some owner, parameters,
                       state := .pending resolution } : CompileM PlaceholderId) s := rfl

/-- A placeholder is bound to a name, or nothing happens. -/
theorem bindPlaceholder_cases :
    (∃ fault, bindPlaceholder owner name parameters resolution s = .error fault s) ∨
      (owner.index < s.tree.size ∧ s.tree.member? owner name = none ∧
        bindPlaceholder owner name parameters resolution s = .ok ⟨s.placeholders.size⟩
          { s with
            tree := s.tree.modifyScope owner fun scope =>
              { scope with members := scope.members.set name (.placeholder ⟨s.placeholders.size⟩) }
            placeholders := s.placeholders.push
              { name := some name, owner := some owner, parameters,
                state := .pending resolution } }) := by
  rcases ScopeTree.declare_cases owner name (.placeholder ⟨s.placeholders.size⟩) s.tree with
    ⟨fault, herror⟩ | ⟨hlt, hfree, hok⟩
  · refine .inl ⟨fault, ?_⟩
    rw [bindPlaceholder_apply]
    simp only [bind, EStateM.bind, onTree, herror]
  · refine .inr ⟨hlt, hfree, ?_⟩
    rw [bindPlaceholder_apply]
    simp only [bind, EStateM.bind, onTree, hok]
    rfl

theorem onEpoch_apply :
    onEpoch f s = (match s.epoch with
      | none => fail .noEpoch
      | some graph => do
        let graph ← ofExcept (f graph)
        modify fun s => { s with epoch := some graph } : CompileM Unit) s := rfl

theorem onEpoch_cases :
    (∃ fault, onEpoch f s = .error fault s) ∨
      ∃ graph graph', s.epoch = some graph ∧ f graph = .ok graph' ∧
        onEpoch f s = .ok () { s with epoch := some graph' } := by
  rw [onEpoch_apply]
  cases hopen : s.epoch with
  | none => exact Or.inl ⟨_, rfl⟩
  | some graph =>
    cases hf : f graph with
    | error e => exact Or.inl ⟨_, by simp only [bind, EStateM.bind, hf]; rfl⟩
    | ok graph' => exact Or.inr ⟨graph, graph', rfl, hf, by simp only [bind, EStateM.bind, hf]; rfl⟩

section Plain

variable [AdmitsPlain R] {f}

theorem moves_onEpoch {event : Event} (h : ∀ {s : Session} {graph graph'}, s.epoch = some graph →
      f graph = .ok graph' → R s { s with epoch := some graph', history := s.history.push event }) :
    Moves R (onEpoch f >>= fun _ => happened event) := by
  intro s
  rcases onEpoch_cases f s with ⟨fault, herror⟩ | ⟨graph, graph', hopen, hf, hok⟩
  · have hleaves : leaves (onEpoch f >>= fun _ => happened event) s = s := by
      simp only [leaves, bind, EStateM.bind, herror]
    rw [hleaves]
    exact refl_of R s
  · have hleaves : leaves (onEpoch f >>= fun _ => happened event) s =
        { s with epoch := some graph', history := s.history.push event } := by
      simp only [leaves, bind, EStateM.bind, hok]
      rfl
    rw [hleaves]
    exact h hopen hf

theorem moves_register (id : PlaceholderId) : Moves R (register id) :=
  moves_onEpoch fun hopen hf => AdmitsPlain.plain ⟨.register id hopen hf, rfl, rfl, fun h => h⟩

theorem moves_addPlaceholder (e : EngineId) (id : PlaceholderId) : Moves R (e.addPlaceholder id) :=
  .seq (e.moves_requirePass _ _) <| moves_register id

theorem moves_addDependency (e : EngineId) (dependency dependent : PlaceholderId) :
    Moves R (e.addDependency dependency dependent) :=
  .seq (e.moves_requirePass _ _) <| moves_onEpoch fun hopen hf =>
    AdmitsPlain.plain ⟨.link dependency dependent hopen hf, rfl, rfl, id⟩

end Plain

end EngineId

end Steps

/-! ## The engine's own state -/

namespace EngineId

section Output

variable {R : Session → Session → Prop} (e : EngineId) [AdmitsOutput e R]

variable (line : Line) (name : String)

theorem moves_accept (text : String) : Moves R (e.modifySection name (·.accept text)) :=
  .modify fun _ => AdmitsOutput.output (.accept name text) _ rfl

theorem moves_defer (line : Line) : Moves R (e.modifySection name (·.defer line)) :=
  .modify fun _ => AdmitsOutput.output (.defer name line) _ rfl

theorem moves_emit : Moves R (e.emit line name) := by
  refine .seq (e.moves_requireSection name) <| .bind .look fun _ => ?_
  refine .ite (e.moves_defer name _) (.bind (.ofFault _) fun _ => ?_)
  split
  · exact e.moves_accept name _
  · exact .pure _

theorem moves_emitText (text name : String) : Moves R (e.emitText text name) :=
  e.moves_emit _ name

theorem moves_emitDeferred : Moves R (e.emitDeferred line name) :=
  .seq (e.moves_requireSection name) <| e.moves_defer name _

theorem moves_closeSections [AdmitsCalm R] : Moves R e.closeSections :=
  .look_bind fun s => by
    have hsinks : ∀ sinks, Calm s { s with sinks } := fun _ => .of_eq rfl rfl
    refine Moves.leaves_bind (AdmitsCalm.calm (hsinks _)) fun _ _ hset => ?_
    cases hset
    exact Moves.leaves_bind (AdmitsOutput.output (e := e) (.close s.sinks) (fun _ => _) rfl)
      fun _ s' _ => Moves.ofExcept _ s'

end Output

section Own

variable {R : Session → Session → Prop} (e : EngineId) [AdmitsDeeds e R]

theorem moves_modifyEngine {f : Engine → Engine}
    (hf : ∀ engine, (f engine).ownsEpoch = engine.ownsEpoch ∧
      (f engine).running = engine.running ∧ (f engine).completed = engine.completed ∧
      (f engine).scopes = engine.scopes ∧ (f engine).sections = engine.sections) :
    Moves R (modifyEngine e f) := .modify fun _ => deed (.own f hf)

theorem moves_setPosition (line column : UInt32) : Moves R (e.setPosition line column) :=
  e.moves_modifyEngine fun _ => ⟨rfl, rfl, rfl, rfl, rfl⟩

theorem moves_enterFile (file : String) : Moves R (e.enterFile file) :=
  have henter : ∀ _ : PUnit, Moves R (modifyEngine e fun engine =>
      { engine with files := file :: engine.files }) :=
    fun _ => e.moves_modifyEngine fun _ => ⟨rfl, rfl, rfl, rfl, rfl⟩
  .seq .look <| .seq e.moves_currentPass <|
    .ite (.check (.bind (moves_modify_calm fun _ => .of_eq rfl rfl) henter)) (.check (henter ⟨⟩))

theorem moves_exitFile : Moves R e.exitFile :=
  .bind e.moves_state fun _ => by
    split
    · exact .fail _
    · exact e.moves_modifyEngine fun _ => ⟨rfl, rfl, rfl, rfl, rfl⟩

theorem moves_setStackSize (size : UInt32) : Moves R (e.setStackSize size) := by
  have hfire : Moves R (do
      let s ← get
      let fired := Section.fireAll s.renderLine (s.engine e).sections
      modifyEngine e fun engine => { engine with sections := fired.1 }
      ofFault fired.2) :=
    .look_bind fun s => Moves.leaves_bind
      (AdmitsOutput.output (e := e) .announce (fun _ => _) rfl) fun _ s' _ => Moves.ofFault _ s'
  exact .seq (e.moves_requirePass _ _) <| e.moves_onFrame fun _ _ hframe =>
    Moves.leaves_bind (work_updateFrame hframe _) fun _ s' _ => hfire s'

/-! ### Placeholders -/

variable (name : String) (resolution : Resolution)

theorem deed_bindPlaceholder (parameters : Option (List (TypeRefId × String)))
    (resolution : Resolution) (s : Session) :
    R s (leaves (bindPlaceholder (s.engine e).currentScope name parameters resolution) s) := by
  refine related_of_cases
    (bindPlaceholder_cases (s.engine e).currentScope name parameters resolution s) ?_
  rintro ⟨hlt, hfree, hok⟩
  rw [leaves_of_ok hok]
  exact deed (.bind _ name rfl rfl ⟨resolution, rfl⟩ hlt hfree)

theorem moves_declarePlaceholder : Moves R (e.declarePlaceholder name resolution) := by
  refine .seq e.moves_checkPlaceholderSite <| e.moves_here fun s => ?_
  exact Moves.leaves_bind (e.deed_bindPlaceholder name none resolution s) fun _ s' _ =>
    Moves.bind (moves_register _) (fun _ => .pure _) s'

theorem moves_declareFunctionPlaceholder (parameters : List (TypeRefId × String))
    (resolution : Resolution) :
    Moves R (e.declareFunctionPlaceholder name parameters resolution) := by
  refine .seq e.moves_checkPlaceholderSite <| e.moves_here fun s => ?_
  refine Moves.leaves_bind (e.deed_bindPlaceholder name (some parameters) resolution s)
    fun id s' hbind => ?_
  -- Binding the name moved no engine, so the innermost scope is still the one it is bound in.
  have hengines : s'.engines = s.engines := by
    rcases bindPlaceholder_cases (s.engine e).currentScope name (some parameters) resolution s with
      ⟨fault, herror⟩ | ⟨-, -, hok⟩
    · rw [herror] at hbind
      cases hbind
    · rw [hok] at hbind
      cases hbind
      rfl
  have hscope : (s.engine e).currentScope = (s'.engine e).currentScope := by
    rw [Session.engine, Session.engine, hengines]
  rw [hscope]
  have hadd := moves_onTree (within_addFunction (s'.engine e).currentScope name)
  exact Moves.leaves_bind (AdmitsWork.works (e := e) (hadd.map _ s')) fun _ s'' _ =>
    Moves.bind (moves_register _) (fun _ => .pure _) s''

/-! ### Scopes -/

variable {s : Session}

theorem step_rewind {k : PUnit → CompileM PUnit}
    (h : ∀ tree, rewindBlocks (s.engine e).currentScope s.tree = .ok () tree →
      R s (leaves (k ⟨⟩) { s with tree })) :
    R s (leaves (onTree (rewindBlocks (s.engine e).currentScope) >>= k) s) := by
  rcases rewindBlocks_cases (s.engine e).currentScope s.tree with
    ⟨fault, herror⟩ | ⟨tree, hok⟩
  · have hrewind : onTree (rewindBlocks (s.engine e).currentScope) s = .error fault s := by
      simp only [onTree, herror]
    rw [leaves_bind_of_error hrewind]
    exact refl_of R s
  · rw [leaves_bind_of_ok (onTree_eq_ok.mpr ⟨tree, hok, rfl⟩)]
    exact h tree hok

theorem step_leave {move : ScopeMove} (hmove : move.isExit = true)
    (hopen : 1 < (s.engine e).scopes.length ∨ s.tree.isLocal (s.engine e).currentScope = true) :
    R s (leaves (do
      onTree (rewindBlocks (← e.currentScope))
      e.popScope move) s) := by
  have hcurrent : e.currentScope s = .ok (s.engine e).currentScope s := rfl
  rw [leaves_bind_of_ok hcurrent]
  exact e.step_rewind fun _ hok => deed (.leave hmove hopen hok)

theorem moves_endPass : Moves R e.endPass :=
  e.moves_here fun _ => e.step_rewind fun _ hok => deed (.endPass hok)

omit [AdmitsDeeds e R] in
theorem quiet_endPass [AdmitsQuiet R] : Moves R e.endPass :=
  .bind e.moves_currentScope fun id => .bind
    (fun s => leaves_onTree (rewindBlocks id) s ▸
      step_keeps (moves_rewindBlocks id s.tree))
    fun _ => .modify fun s => step_keeps (s.tree.keeps_visited _)

theorem moves_enterGlobal (path : Path) : Moves R (e.enterGlobal path) := by
  refine .seq e.moves_isLocal <| .check (e.moves_here fun s => ?_)
  have hworks : ScopeWork (s.engine e).currentScope s
      (leaves (descend (s.engine e).currentScope path) s) :=
    works_descend path .here
  refine Moves.leaves_bind (AdmitsWork.works hworks) fun scope s' hscope => ?_
  refine deed (.enter _ scope ?_)
  rw [leaves_of_ok hscope] at hworks
  have hengine : s'.engine e = s.engine e := by
    rw [Session.engine, hworks.calm.engines, Session.engine]
  rw [hengine]
  exact descend_eq_ok hscope

theorem moves_exitGlobal : Moves R e.exitGlobal := by
  refine .bind e.moves_isLocal fun isLocal s => ?_
  refine Moves.leaves_bind (e.moves_state s) fun engine s' hstate => ?_
  cases hstate
  dsimp only
  split
  · exact refl_of R s
  · rename_i hopen
    simp only [Bool.or_eq_true, decide_eq_true_eq, not_or, Nat.not_le] at hopen
    exact e.step_leave rfl (.inl hopen.2)

theorem moves_enterFunction : Moves R (do
    let parent ← e.currentScope
    match (← get).tree.functionScope? parent name with
    | some scope => e.pushScope (.enterLocal name) scope
    | none =>
      let pass ← e.currentPass
      if pass ≠ .declare then fail (.unknownLocal name pass)
      e.pushScope (.enterLocal name) (← onTree (addFunction parent name))) := by
  refine e.moves_here fun s => Moves.leaves_bind (refl_of R s) fun _ _ hget => ?_
  cases hget
  cases hfound : s.tree.functionScope? (s.engine e).currentScope name with
  | some scope => exact deed (.enter _ scope hfound)
  | none =>
    refine Moves.leaves_bind (e.moves_currentPass s) fun pass s' hpass => ?_
    cases hpass
    dsimp only
    split
    · exact refl_of R s
    · have hadd := within_addFunction (s.engine e).currentScope name
      refine Moves.leaves_bind ?_ fun scope s' hscope => ?_
      · exact AdmitsWork.works (moves_onTree hadd s)
      · obtain ⟨t, ht, rfl⟩ := onTree_eq_ok.mp hscope
        exact deed (.enter _ scope (addFunction_eq_ok ht))

theorem moves_enterLocal : Moves R (e.enterLocal name) := by
  have henter := fun _ : PUnit => e.moves_enterFunction (R := R) name
  refine .seq e.moves_isLocal <| .ite ?_ (henter ⟨⟩)
  exact .seq e.moves_currentPath <| .bind (.fail _) henter

theorem moves_exitLocal : Moves R e.exitLocal := by
  intro s
  rw [exitLocal, leaves_bind_of_ok (rfl : e.scope s = .ok (s.tree.scope _) s)]
  dsimp only
  split
  · exact refl_of R s
  · rename_i hlocal
    simp only [Bool.or_eq_true, Bool.not_eq_true', not_or, Bool.not_eq_false] at hlocal
    have hexit : R s (leaves (do
        onTree (rewindBlocks (← e.currentScope))
        e.popScope .exitLocal) s) := e.step_leave rfl (.inr hlocal.1)
    split
    · refine Moves.leaves_bind (refl_of R s) fun _ _ hget => ?_
      cases hget
      split
      · exact refl_of R s
      · exact hexit
    · exact hexit

theorem moves_enterBlock : Moves R e.enterBlock := by
  refine e.moves_here fun s => ?_
  rcases nextBlock_cases (s.engine e).currentScope s.tree with
    ⟨fault, herror⟩ | ⟨block, tree, hok⟩
  · have hnext : onTree (nextBlock (s.engine e).currentScope) s = .error fault s := by
      simp only [onTree, herror]
    rw [leaves_bind_of_error hnext]
    exact refl_of R s
  · rw [leaves_bind_of_ok (onTree_eq_ok.mpr ⟨tree, hok, rfl⟩)]
    exact deed (.enterBlock hok)

theorem moves_exitBlock : Moves R e.exitBlock := by
  intro s
  rw [exitBlock, leaves_bind_of_ok (rfl : e.scope s = .ok (s.tree.scope _) s),
    leaves_bind_of_ok (rfl : e.state s = .ok _ s)]
  dsimp only
  split
  · exact refl_of R s
  · rename_i hopen
    simp only [Bool.or_eq_true, decide_eq_true_eq, not_or, Nat.not_le] at hopen
    have hexit : ∀ s', s'.engines = s.engines → R s' (leaves (do
        onTree (rewindBlocks (← e.currentScope))
        e.popScope .exitBlock) s') := fun s' hengines => by
      refine e.step_leave rfl (.inl ?_)
      rw [Session.engine, hengines]
      exact hopen.2
    split
    · rename_i frame hframe
      split
      · refine Moves.leaves_bind (work_updateFrame hframe _) fun _ s' hupdate => hexit s' ?_
        obtain ⟨tree, -, rfl⟩ := onTree_eq_ok.mp hupdate
        rfl
      · exact hexit s rfl
    · exact hexit s rfl

end Own

end EngineId

end StagedAsm
