import StagedAsm.Proofs.Reached
import StagedAsm.Proofs.ScopeForest

/-!
# What a declaration that fails leaves behind

A declaration makes two or three entries one after the other. Each is made or refused as a whole,
but none is taken back: if a later one is refused, those before it stay.
-/

namespace StagedAsm

section Atomic

variable {ε σ α β : Type} {m : EStateM ε σ α} {f : α → EStateM ε σ β} {s s' : σ} {fault : ε}

/-- A computation that fails has changed nothing. -/
def Atomic (m : EStateM ε σ α) : Prop := ∀ s fault s', m s = .error fault s' → s' = s

theorem Atomic.of_cases
    (h : ∀ s, (∃ fault, m s = .error fault s) ∨ ∃ a s', m s = .ok a s') : Atomic m := by
  intro s fault s' hm
  rcases h s with ⟨_, herror⟩ | ⟨_, _, hok⟩
  · cases hm.symm.trans herror
    rfl
  · exact nomatch hm.symm.trans hok

theorem bind_eq_error (h : (m >>= f) s = .error fault s') :
    m s = .error fault s' ∨ ∃ a s1, m s = .ok a s1 ∧ f a s1 = .error fault s' := by
  simp only [bind, EStateM.bind] at h
  cases hm : m s with
  | ok a s1 =>
    rw [hm] at h
    exact .inr ⟨a, s1, rfl, h⟩
  | error fault' s1 =>
    rw [hm] at h
    cases h
    exact .inl rfl

theorem Atomic.bind_eq_error (hm : Atomic m) (h : (m >>= f) s = .error fault s') :
    s' = s ∨ ∃ a s1, m s = .ok a s1 ∧ f a s1 = .error fault s' :=
  (StagedAsm.bind_eq_error h).imp_left (hm _ _ _)

theorem Moves.bind_eq_error (hm : Moves Eq m) (h : (m >>= f) s = .error fault s') :
    s' = s ∨ ∃ a, f a s = .error fault s' := by
  rcases StagedAsm.bind_eq_error h with herror | ⟨a, s1, hok, h⟩
  · exact .inl (hm.of_error herror).symm
  · obtain rfl := hm.of_ok hok
    exact .inr ⟨a, h⟩

theorem discard_bind {f : PUnit → EStateM ε σ β} : discard m >>= f = m >>= fun _ => f ⟨⟩ :=
  bind_map_left _ _ _

end Atomic

theorem onTree_eq_error {α : Type} {m : TreeM α} {s s' : Session} {fault : Fault}
    (h : onTree m s = .error fault s') :
    ∃ t, m s.tree = .error fault t ∧ s' = { s with tree := t } := by
  unfold onTree at h
  cases hrun : m s.tree with
  | ok a t =>
    rw [hrun] at h
    cases h
  | error fault' t =>
    rw [hrun] at h
    cases h
    exact ⟨t, rfl, rfl⟩

theorem Atomic.onTree {α : Type} {m : TreeM α} (hm : Atomic m) : Atomic (onTree m) := by
  intro s fault s' h
  obtain ⟨t, ht, rfl⟩ := onTree_eq_error h
  rw [hm _ _ _ ht]

namespace ScopeTree

variable {t t' : ScopeTree} {id : ScopeId} {name : String} {err : CompileError}

theorem atomic_declare (symbol : Symbol) : Atomic (declare id name symbol) :=
  .of_cases fun t => (declare_cases id name symbol t).imp_right fun ⟨_, _, h⟩ => ⟨_, _, h⟩

theorem atomic_addFunction : Atomic (addFunction id name) :=
  .of_cases fun t => (addFunction_cases id name t).imp_right fun ⟨_, h⟩ => ⟨_, _, h⟩

theorem atomic_addGlobal (type : Option TypeSymbol) : Atomic (addGlobal id name type) :=
  .of_cases fun t => (addGlobal_cases id name type t).imp_right fun ⟨_, h⟩ => ⟨_, _, h⟩

/-- A variable may be left with its name only. -/
theorem declareVariable_eq_error {type : ValueType}
    (h : declareVariable id name type t = .error (.error err) t') :
    t' = t ∨ ∃ f offset, declare id name (.slot f offset type) t = .ok () t' ∧
      (t'.frame f).setPointer offset = .error err := by
  have hreads : Moves Eq (frameOf id) := .bind .look fun _ => by
    split
    · exact .pure _
    · exact .throw _
  rcases hreads.bind_eq_error h with rfl | ⟨f, h1⟩
  · exact .inl rfl
  rw [get_bind] at h1
  cases hoffset : subOffset (t.frame f).pointer (offsetOfBytes type.bytes) with
  | error fault =>
    rw [hoffset] at h1
    cases h1
    exact .inl rfl
  | ok offset =>
    rw [hoffset] at h1
    rcases (atomic_declare _).bind_eq_error h1 with rfl | ⟨_, t2, hdeclare, h2⟩
    · exact .inl rfl
    rcases bind_eq_error h2 with hupdate | ⟨_, t3, _, hcount⟩
    · cases hset : FrameM.setPointer offset (t2.frame f) with
      | ok _ frame =>
        rw [updateFrame, get_bind, EStateM.adaptExcept, hset] at hupdate
        cases hupdate
      | error refusal frame =>
        obtain rfl := FrameM.eq_of_setPointer_error hset
        have hrefused : (FrameM.setPointer offset).adaptExcept Fault.error (t2.frame f) =
            .error (.error refusal) (t2.frame f) := by
          rw [EStateM.adaptExcept, hset]
        cases (updateFrame_of_error hrefused).symm.trans hupdate
        exact .inr ⟨f, offset, hdeclare, FrameM.result_eq_error.mpr ⟨_, hset⟩⟩
    · -- counting the bytes fails by an overflow only
      rw [countVariableBytes, get_bind] at hcount
      cases hadd : addBytes (t3.scope id).variableBytes type.bytes with
      | ok total =>
        rw [hadd] at hcount
        cases hcount
      | error fault =>
        rw [hadd] at hcount
        cases hcount
        rw [addBytes] at hadd
        split at hadd <;> cases hadd

end ScopeTree

namespace EngineId

theorem atomic_bindPlaceholder (owner : ScopeId) (name : String)
    (parameters : Option (List (TypeRefId × String))) (resolution : Resolution) :
    Atomic (bindPlaceholder owner name parameters resolution) :=
  .of_cases fun s => (bindPlaceholder_cases owner name parameters resolution s).imp_right
    fun ⟨_, _, h⟩ => ⟨_, _, h⟩

theorem atomic_register (id : PlaceholderId) : Atomic (register id) := by
  have hepoch : Atomic (onEpoch (·.addNode id)) := .of_cases fun s =>
    (onEpoch_cases _ s).imp_right fun ⟨_, _, _, _, h⟩ => ⟨_, _, h⟩
  intro s fault s' h
  rcases hepoch.bind_eq_error h with rfl | ⟨_, _, _, h⟩
  · rfl
  · cases h

end EngineId

variable {s s' s'' : Session} {err : CompileError} {id : ScopeId} {name : String}

/-! ## What entries spare -/

/-- No pointer is moved, no bytes are counted, and the epoch stays as it is. -/
structure SparesCounts (s s' : Session) : Prop where
  frame : ∀ f, s'.tree.frame f = s.tree.frame f
  variableBytes : ∀ id, (s'.tree.scope id).variableBytes = (s.tree.scope id).variableBytes
  epoch : s'.epoch = s.epoch

namespace SparesCounts

theorem refl (s : Session) : SparesCounts s s := ⟨fun _ => rfl, fun _ => rfl, rfl⟩

theorem trans (h : SparesCounts s s') (h' : SparesCounts s' s'') : SparesCounts s s'' where
  frame f := (h'.frame f).trans (h.frame f)
  variableBytes id := (h'.variableBytes id).trans (h.variableBytes id)
  epoch := h'.epoch.trans h.epoch

theorem of_member {symbol : Symbol} (htree : s'.tree = s.tree.modifyScope id fun scope =>
    { scope with members := scope.members.set name symbol }) (hepoch : s'.epoch = s.epoch) :
    SparesCounts s s' where
  frame f := by rw [htree, ScopeTree.modifyScope]; rfl
  variableBytes other := by
    rw [htree, ScopeTree.scope_modifyScope]
    split
    · rename_i hother
      rw [hother.1]
    · rfl
  epoch := hepoch

theorem of_push {t : ScopeTree} {scope : Scope} (hscopes : t.scopes = s.tree.scopes)
    (hframe : ∀ f, t.frame f = s.tree.frame f) (hbytes : scope.variableBytes = 0) :
    SparesCounts s { s with tree := (t.push scope).2 } where
  frame := hframe
  variableBytes other := by
    have hold : t.scope other = s.tree.scope other := by rw [ScopeTree.scope, hscopes]; rfl
    dsimp only
    rw [ScopeTree.scope_push]
    split
    · rename_i hother
      rw [← hold, ScopeTree.scope_of_size_le (by rw [hother]), hbytes]
      rfl
    · rw [hold]
  epoch := rfl

theorem declare {symbol : Symbol} (h : onTree (ScopeTree.declare id name symbol) s = .ok () s') :
    SparesCounts s s' := by
  obtain ⟨t, ht, rfl⟩ := onTree_eq_ok.mp h
  rcases ScopeTree.declare_cases id name symbol s.tree with ⟨_, herror⟩ | ⟨-, -, hok⟩
  · cases herror.symm.trans ht
  · cases hok.symm.trans ht
    exact of_member rfl rfl

theorem bindPlaceholder {parameters : Option (List (TypeRefId × String))} {resolution : Resolution}
    {placeholder : PlaceholderId}
    (h : EngineId.bindPlaceholder id name parameters resolution s = .ok placeholder s') :
    SparesCounts s s' := by
  rcases EngineId.bindPlaceholder_cases id name parameters resolution s with
    ⟨_, herror⟩ | ⟨-, -, hok⟩
  · cases herror.symm.trans h
  · cases hok.symm.trans h
    exact of_member rfl rfl

theorem addFunction {scope : ScopeId}
    (h : onTree (ScopeTree.addFunction id name) s = .ok scope s') :
    SparesCounts s s' := by
  obtain ⟨t, ht, rfl⟩ := onTree_eq_ok.mp h
  rcases ScopeTree.addFunction_cases id name s.tree with ⟨_, herror⟩ | ⟨-, hok⟩
  · cases herror.symm.trans ht
  · cases hok.symm.trans ht
    refine of_push rfl (fun f => ?_) rfl
    -- a frame that is not there reads as a new one
    rw [ScopeTree.frame, getD_push]
    split
    · rename_i hnew
      rw [ScopeTree.frame, hnew, Array.getD_eq_getD_getElem?, Array.getElem?_eq_none .refl]
      rfl
    · rfl

theorem addGlobal {type : Option TypeSymbol} {scope : ScopeId}
    (h : onTree (ScopeTree.addGlobal id name type) s = .ok scope s') : SparesCounts s s' := by
  obtain ⟨t, ht, rfl⟩ := onTree_eq_ok.mp h
  rcases ScopeTree.addGlobal_cases id name type s.tree with ⟨_, herror⟩ | ⟨-, hok⟩
  · cases herror.symm.trans ht
  · cases hok.symm.trans ht
    exact of_push rfl (fun _ => rfl) rfl

end SparesCounts

/-! ## Declarations -/

namespace EngineId

variable {e : EngineId}

theorem declareVariable_eq_error {type : ValueType}
    (h : e.declareVariable name type s = .error (.error err) s') : s' = s ∨
      ∃ f offset, e.declare name (.slot f offset type) s = .ok () s' ∧
        (s'.tree.frame f).setPointer offset = .error err := by
  rcases (e.moves_requireLocal _).bind_eq_error h with rfl | ⟨_, h1⟩
  · exact .inl rfl
  obtain ⟨t, ht, rfl⟩ := onTree_eq_error h1
  rcases ScopeTree.declareVariable_eq_error ht with rfl | ⟨f, offset, hdeclare, hset⟩
  · exact .inl rfl
  · exact .inr ⟨f, offset, onTree_eq_ok.mpr ⟨t, hdeclare, rfl⟩, hset⟩

theorem declareFunction_eq_error {label : String} {parameters : List Parameter}
    (h : e.declareFunction name label parameters s = .error (.error err) s') :
    s' = s ∨ e.declare name (.function label (some parameters)) s = .ok () s' ∧
      onTree (ScopeTree.addFunction (s.engine e).currentScope name) s' =
        .error (.error err) s' := by
  rcases (e.moves_requireGlobal _).bind_eq_error h with rfl | ⟨_, h1⟩
  · exact .inl rfl
  rw [currentScope_bind] at h1
  rcases (ScopeTree.atomic_declare _).onTree.bind_eq_error h1 with rfl | ⟨_, s2, hname, h2⟩
  · exact .inl rfl
  rw [← bind_pure (discard _), discard_bind] at h2
  rcases bind_eq_error h2 with hscope | ⟨_, _, _, h3⟩
  · obtain rfl := ScopeTree.atomic_addFunction.onTree _ _ _ hscope
    exact .inr ⟨hname, hscope⟩
  · cases h3

theorem declareFunctionPlaceholder_eq_error {parameters : List (TypeRefId × String)}
    {resolution : Resolution}
    (h : e.declareFunctionPlaceholder name parameters resolution s = .error (.error err) s') :
    s' = s ∨ ∃ id s1, bindPlaceholder (s.engine e).currentScope name (some parameters)
        resolution s = .ok id s1 ∧
      (s' = s1 ∧ onTree (ScopeTree.addFunction (s.engine e).currentScope name) s1 =
          .error (.error err) s1 ∨
        (∃ scope, onTree (ScopeTree.addFunction (s.engine e).currentScope name) s1 =
          .ok scope s') ∧ register id s' = .error (.error err) s') := by
  rcases e.moves_checkPlaceholderSite.bind_eq_error h with rfl | ⟨_, h1⟩
  · exact .inl rfl
  rw [currentScope_bind] at h1
  have hbind := atomic_bindPlaceholder (s.engine e).currentScope name (some parameters) resolution
  rcases hbind.bind_eq_error h1 with rfl | ⟨id, s2, hname, h2⟩
  · exact .inl rfl
  refine .inr ⟨id, s2, hname, ?_⟩
  rw [discard_bind] at h2
  rcases bind_eq_error h2 with hscope | ⟨scope, s3, hscope, h3⟩
  · obtain rfl := ScopeTree.atomic_addFunction.onTree _ _ _ hscope
    exact .inl ⟨rfl, hscope⟩
  rcases bind_eq_error h3 with hregister | ⟨_, _, _, h4⟩
  · obtain rfl := atomic_register id _ _ _ hregister
    exact .inr ⟨⟨scope, hscope⟩, hregister⟩
  · cases h4

theorem declareType_eq_error {type : TypeSymbol}
    (h : e.declareType name type s = .error (.error err) s') : s' = s ∨
      (∃ members, onTree (ScopeTree.addGlobal (s.engine e).currentScope name (some type)) s =
          .ok members s') ∧
        onTree (ScopeTree.declare (s.engine e).currentScope name (.type type)) s' =
          .error (.error err) s' := by
  rcases (e.moves_requirePass _ _).bind_eq_error h with rfl | ⟨_, h1⟩
  · exact .inl rfl
  rcases (e.moves_requireGlobal _).bind_eq_error h1 with rfl | ⟨_, h2⟩
  · exact .inl rfl
  rw [currentScope_bind] at h2
  rcases (ScopeTree.atomic_addGlobal _).onTree.bind_eq_error h2 with
    rfl | ⟨members, s3, hscope, h3⟩
  · exact .inl rfl
  rcases bind_eq_error h3 with hname | ⟨_, _, _, h4⟩
  · obtain rfl := (ScopeTree.atomic_declare _).onTree _ _ _ hname
    exact .inr ⟨⟨members, hscope⟩, hname⟩
  · cases h4

end EngineId

/-- A declaration that fails leaves everything as it was, or what its first entries lead to, where
    the next one is refused. The pointer, the byte counts and the epoch are changed last, so that a
    failure never shows in them. -/
theorem failed_declaration_leaves (e : EngineId) (name : String) :
    (∀ type, e.declareVariable name type s = .error (.error err) s' → SparesCounts s s' ∧
      (s' = s ∨ ∃ f offset, e.declare name (.slot f offset type) s = .ok () s' ∧
        (s'.tree.frame f).setPointer offset = .error err)) ∧
    (∀ label parameters, e.declareFunction name label parameters s = .error (.error err) s' →
      SparesCounts s s' ∧
      (s' = s ∨ e.declare name (.function label (some parameters)) s = .ok () s' ∧
        onTree (ScopeTree.addFunction (s.engine e).currentScope name) s' =
          .error (.error err) s')) ∧
    (∀ parameters resolution,
      e.declareFunctionPlaceholder name parameters resolution s = .error (.error err) s' →
      SparesCounts s s' ∧
      (s' = s ∨ ∃ id s1, EngineId.bindPlaceholder (s.engine e).currentScope name (some parameters)
          resolution s = .ok id s1 ∧
        (s' = s1 ∧ onTree (ScopeTree.addFunction (s.engine e).currentScope name) s1 =
            .error (.error err) s1 ∨
          (∃ scope, onTree (ScopeTree.addFunction (s.engine e).currentScope name) s1 =
            .ok scope s') ∧ EngineId.register id s' = .error (.error err) s'))) ∧
    ∀ type, e.declareType name type s = .error (.error err) s' → SparesCounts s s' ∧
      (s' = s ∨ (∃ members, onTree (ScopeTree.addGlobal (s.engine e).currentScope name (some type))
          s = .ok members s') ∧
        onTree (ScopeTree.declare (s.engine e).currentScope name (.type type)) s' =
          .error (.error err) s') := by
  refine ⟨fun type h => ?_, fun label parameters h => ?_, fun parameters resolution h => ?_,
    fun type h => ?_⟩
  · have hleft := EngineId.declareVariable_eq_error h
    refine ⟨?_, hleft⟩
    rcases hleft with rfl | ⟨_, _, hname, -⟩
    · exact .refl _
    · exact .declare hname
  · have hleft := EngineId.declareFunction_eq_error h
    refine ⟨?_, hleft⟩
    rcases hleft with rfl | ⟨hname, -⟩
    · exact .refl _
    · exact .declare hname
  · have hleft := EngineId.declareFunctionPlaceholder_eq_error h
    refine ⟨?_, hleft⟩
    rcases hleft with rfl | ⟨_, s1, hname, ⟨rfl, -⟩ | ⟨⟨_, hscope⟩, -⟩⟩
    · exact .refl _
    · exact .bindPlaceholder hname
    · exact .trans (.bindPlaceholder hname) (.addFunction hscope)
  · have hleft := EngineId.declareType_eq_error h
    refine ⟨?_, hleft⟩
    rcases hleft with rfl | ⟨⟨_, hscope⟩, -⟩
    · exact .refl _
    · exact .addGlobal hscope

/-- A name was given to a constant. -/
def namedSession : Session :=
  leaves ((EngineId.runner ⟨0⟩ 0).runCommand (.declaration (.declare "T" (.text "1") none)))
    (leaves (startEngine []) {})

/-- The call was refused and left another number of scopes behind. -/
def refusedWithScope {α : Type} (s : Session) : EStateM.Result Fault Session α → Bool
  | .error (.error _) s' => s'.tree.size != s.tree.size
  | _ => false

theorem namedSession_declareType : ∃ err s',
    EngineId.declareType ⟨0⟩ "T" (.primitive ⟨0⟩ .dword) namedSession = .error (.error err) s' ∧
      s'.tree ≠ namedSession.tree := by
  have hfails : refusedWithScope namedSession
      (EngineId.declareType ⟨0⟩ "T" (.primitive ⟨0⟩ .dword) namedSession) = true := by
    decide +kernel
  unfold refusedWithScope at hfails
  split at hfails
  · rename_i err s' h
    exact ⟨err, s', h, fun htree => by simp [htree] at hfails⟩
  · cases hfails

theorem failed_declaration_leaves_scope : ∃ err s',
    EngineId.declareType ⟨0⟩ "T" (.primitive ⟨0⟩ .dword) namedSession = .error (.error err) s' ∧
      onTree (ScopeTree.declare ⟨0⟩ "T" (.type (.primitive ⟨0⟩ .dword))) s' =
        .error (.error err) s' := by
  obtain ⟨err, s', h, htree⟩ := namedSession_declareType
  rcases ((failed_declaration_leaves ⟨0⟩ "T").2.2.2 _ h).2 with rfl | hleft
  · exact absurd rfl htree
  · exact ⟨err, s', h, hleft.2⟩

/-- A type whose name is bound is refused, and its scope stays. -/
theorem failed_declaration_changes_tree : Reached [⟨0⟩] namedSession ∧ ∃ err s',
    EngineId.declareType ⟨0⟩ "T" (.primitive ⟨0⟩ .dword) namedSession = .error (.error err) s' ∧
      s'.tree ≠ namedSession.tree :=
  ⟨.command 0 _ (.start (.new {}) rfl) List.mem_cons_self, namedSession_declareType⟩

end StagedAsm
