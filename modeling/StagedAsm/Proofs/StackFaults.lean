import StagedAsm.Proofs.FrameBalance
import StagedAsm.Proofs.NamedScopes

/-!
# Errors of the stack

Some errors tell that the bookkeeping of a frame went wrong: a function is left with the pointer
away from its variables, the pointer is moved after the size was set, the size is set twice, or it
is too small. While a frame has no size, nothing but leaving the function can raise one of them.
-/

namespace StagedAsm

open CompileError EngineId ScopeTree String

namespace CompileError

/-- Where the error was raised does not matter. -/
def IsStack (e : CompileError) : Prop :=
  (∃ detail, e.cause = .stackDiscipline detail) ∨ e.cause = .pointerFrozen ∨
    e.cause = .frameSizeSetTwice ∨ e.cause = .negativeFrame ∨
    ∃ size, e.cause = .returnFromNegativeFrame size

theorem not_isStack_passOrdering {operation : String} {pass : Pass} (h : pass ≠ .generate) :
    ¬(passOrdering operation pass).IsStack := by
  simp [IsStack, cause, pointerFrozen, frameSizeSetTwice, negativeFrame, returnFromNegativeFrame, h]

theorem not_isStack_frameSizeUnset : ¬frameSizeUnset.IsStack := by
  simp [IsStack, cause, frameSizeUnset, pointerFrozen, frameSizeSetTwice, negativeFrame,
    returnFromNegativeFrame]

variable {detail : String}

theorem not_isStack_language (h : detail ≠ "encountered a negative stack size") :
    ¬(language detail).IsStack := by
  simp [IsStack, cause, pointerFrozen, frameSizeSetTwice, negativeFrame, returnFromNegativeFrame, h]

theorem not_isStack_internal (htwice : detail ≠ "attempted to set the stack size twice")
    (hnegative : ¬"attempted to return ".toList <+: detail.toList) :
    ¬(internal detail).IsStack := by
  simp only [IsStack, cause, pointerFrozen, frameSizeSetTwice, negativeFrame,
    returnFromNegativeFrame, reduceCtorEq, exists_false, false_or, internal.injEq, htwice]
  rintro ⟨size, rfl⟩
  apply hnegative
  simp [toString, List.cons_prefix_cons]

theorem not_isStack_undefinedSymbol (path : String) : ¬(undefinedSymbol path).IsStack := by
  simp [IsStack, cause, pointerFrozen, frameSizeSetTwice, negativeFrame, returnFromNegativeFrame]

theorem not_isStack_duplicateSymbol (name scope : String) :
    ¬(duplicateSymbol name scope).IsStack := by
  simp [IsStack, cause, pointerFrozen, frameSizeSetTwice, negativeFrame, returnFromNegativeFrame]

theorem not_isStack_typeMismatch (detail : String) : ¬(typeMismatch detail).IsStack := by
  simp [IsStack, cause, pointerFrozen, frameSizeSetTwice, negativeFrame, returnFromNegativeFrame]

end CompileError

def Fault.IsStack : Fault → Prop
  | .error e => e.IsStack
  | _ => False

/-! ## Computations without errors of the stack -/

/-- An error of the stack is raised only with the excuse. -/
def StackSafe {σ α : Type} (excuse : Prop) (m : EStateM Fault σ α) (s : σ) : Prop :=
  ∀ fault s', m s = .error fault s' → fault.IsStack → excuse

namespace StackSafe

variable {σ α β : Type} {excuse : Prop} {m : EStateM Fault σ α} {f : α → EStateM Fault σ β}
variable {s s' : σ} {a : α} {fault : Fault}

theorem of_ok (h : m s = .ok a s') : StackSafe excuse m s := by
  intro fault s1 hrun
  rw [h] at hrun
  cases hrun

theorem throw (h : ¬fault.IsStack) :
    StackSafe excuse (MonadExcept.throw fault : EStateM Fault σ α) s := by
  intro fault' s1 hrun hstack
  cases hrun
  exact absurd hstack h

theorem bind (hm : StackSafe excuse m s) (hf : ∀ a s', m s = .ok a s' → StackSafe excuse (f a) s') :
    StackSafe excuse (m >>= f) s := by
  intro fault s2 hrun
  cases hfirst : m s with
  | error fault' s1 =>
    have herror : (m >>= f) s = .error fault' s1 := by simp only [Bind.bind, EStateM.bind, hfirst]
    rw [herror] at hrun
    cases hrun
    exact hm fault s2 hfirst
  | ok a s1 =>
    simp only [Bind.bind, EStateM.bind, hfirst] at hrun
    exact hf a s1 hfirst fault s2 hrun

theorem mono {excuse' : Prop} (h : StackSafe excuse m s) (himp : excuse → excuse') :
    StackSafe excuse' m s := fun fault s' hrun hstack => himp (h fault s' hrun hstack)

theorem after (hm : m s = .ok a s') (hf : StackSafe excuse (f a) s') :
    StackSafe excuse (m >>= f) s := by
  refine .bind (.of_ok hm) ?_
  intro b s1 hrun
  rw [hm] at hrun
  cases hrun
  exact hf

theorem check {c : Prop} [Decidable c] {k : PUnit → EStateM Fault σ α} (hc : c → ¬fault.IsStack)
    (hk : ¬c → StackSafe excuse (k ⟨⟩) s) :
    StackSafe excuse (if c then MonadExcept.throw fault >>= k else k ⟨⟩) s := by
  split
  · rename_i h
    exact .bind (.throw (hc h)) fun _ _ hrun => by cases hrun
  · rename_i h
    exact hk h

end StackSafe

section Session

variable {α : Type} {excuse : Prop} {s : Session}

theorem StackSafe.onTree {m : TreeM α} (h : StackSafe excuse m s.tree) :
    StackSafe excuse (onTree m) s := by
  intro fault s1 hrun
  rw [StagedAsm.onTree] at hrun
  split at hrun
  · cases hrun
  · rename_i fault' t hm
    cases hrun
    exact h fault t hm

theorem StackSafe.ofFault {x : Except Fault α}
    (h : ∀ fault, x = .error fault → fault.IsStack → excuse) : StackSafe excuse (ofFault x) s := by
  intro fault s1 hrun
  cases x with
  | ok a => cases hrun
  | error fault' =>
    cases hrun
    exact h fault rfl

end Session

/-! ## Frames -/

variable {a b : Int} {fault : Fault} {s : Session} {excuse : Prop}

theorem not_isStack_of_addOffset (h : addOffset a b = .error fault) : ¬fault.IsStack := by
  unfold addOffset at h
  split at h <;> cases h
  exact id

theorem not_isStack_of_subOffset (h : subOffset a b = .error fault) : ¬fault.IsStack := by
  unfold subOffset at h
  split at h <;> cases h
  exact id

theorem not_isStack_of_addBytes {a b : UInt32} (h : addBytes a b = .error fault) :
    ¬fault.IsStack := by
  unfold addBytes at h
  split at h <;> cases h
  exact id

namespace Frame

variable {frame : Frame}

theorem exists_setPointer (hunset : frame.size = none) (pointer : Int) :
    ∃ moved, frame.setPointer pointer = .ok moved := by
  have hrun := FrameM.setPointer_apply pointer frame
  rw [hunset, if_neg (by simp)] at hrun
  split at hrun <;> exact ⟨_, FrameM.result_eq_ok.mpr hrun⟩

theorem not_isStack_of_move (hunset : frame.size = none) {delta : Int} {fault : Fault}
    (h : frame.move delta = .error fault) : ¬fault.IsStack := by
  obtain ⟨_, hrun⟩ := FrameM.result_eq_error.mp h
  rw [FrameM.move_apply] at hrun
  cases hsum : addOffset frame.pointer delta with
  | error fault' =>
    rw [hsum] at hrun
    cases hrun
    exact not_isStack_of_addOffset hsum
  | ok pointer =>
    obtain ⟨moved, hmoved⟩ := exists_setPointer hunset pointer
    rw [hsum] at hrun
    simp only [EStateM.adaptExcept, FrameM.result_eq_ok.mp hmoved] at hrun
    cases hrun

end Frame

/-! ## Scopes -/

namespace ScopeTree

variable {t : ScopeTree} {id : ScopeId} {f : FrameId} {excuse : Prop}

theorem updateFrame_stackSafe {change : FrameM Fault Unit}
    (h : ∀ fault, change.result (t.frame f) = .error fault → ¬fault.IsStack) :
    StackSafe excuse (updateFrame f change) t := by
  refine .after rfl ?_
  cases hchange : change (t.frame f) with
  | ok _ frame => exact .of_ok rfl
  | error fault frame =>
    exact .after rfl (.throw (h fault (FrameM.result_eq_error.mpr ⟨frame, hchange⟩)))

theorem countVariableBytes_stackSafe (bytes : UInt32) :
    StackSafe excuse (countVariableBytes id bytes) t := by
  refine .after rfl ?_
  cases htotal : addBytes (t.scope id).variableBytes bytes with
  | ok total => exact .of_ok rfl
  | error fault => exact .throw (not_isStack_of_addBytes htotal)

theorem declare_stackSafe (name : String) (symbol : Symbol) :
    StackSafe excuse (declare id name symbol) t := by
  refine .after rfl (.check (fun _ hstack => hstack) fun _ => ?_)
  unfold fail
  exact .check (fun _ => not_isStack_duplicateSymbol _ _) fun _ => .of_ok rfl

theorem rewindBlocks_stackSafe : StackSafe excuse (rewindBlocks id) t := by
  refine .after rfl ?_
  unfold fail
  refine .check (fun _ => ?_) fun _ => .of_ok rfl
  exact not_isStack_internal (by simp [← toList_inj, toString])
    (by simp [toString, List.cons_prefix_cons])

theorem nextBlock_stackSafe : StackSafe excuse (nextBlock id) t := by
  refine .after rfl ?_
  dsimp only
  split
  · exact .of_ok rfl
  · unfold fail
    refine .check (fun _ => ?_) fun _ => .of_ok rfl
    exact not_isStack_internal (by simp [← toList_inj, toString])
      (by simp [toString, List.cons_prefix_cons])

section Frame

variable (hframe : (t.scope id).frame = some f)

include hframe

theorem declareExisting_stackSafe (name : String) (type : ValueType) (offset : Int) :
    StackSafe excuse (declareExisting id name type offset) t := by
  refine .after (frameOf_eq_ok.mpr ⟨hframe, rfl⟩) (.after rfl ?_)
  cases hsum : addOffset (t.frame f).pointer offset with
  | error fault => exact .throw (not_isStack_of_addOffset hsum)
  | ok offset => exact declare_stackSafe name _

variable (hunset : (t.frame f).size = none)

include hunset

theorem allocate_stackSafe (bytes : UInt32) : StackSafe excuse (allocate id bytes) t := by
  unfold allocate fail
  refine .check (fun _ => ?_) fun _ => .after (frameOf_eq_ok.mpr ⟨hframe, rfl⟩) ?_
  · exact not_isStack_internal (by decide) (by decide)
  · refine .bind (updateFrame_stackSafe fun fault => Frame.not_isStack_of_move hunset) ?_
    exact fun _ _ _ => countVariableBytes_stackSafe bytes

theorem declareVariable_stackSafe (name : String) (type : ValueType) :
    StackSafe excuse (declareVariable id name type) t := by
  refine .after (frameOf_eq_ok.mpr ⟨hframe, rfl⟩) (.after rfl ?_)
  cases hdifference : subOffset (t.frame f).pointer (offsetOfBytes type.bytes) with
  | error fault => exact .throw (not_isStack_of_subOffset hdifference)
  | ok offset =>
    refine .bind (declare_stackSafe name _) fun _ t1 hdeclare => ?_
    obtain ⟨-, -, rfl⟩ := declare_eq_ok hdeclare
    refine .bind (updateFrame_stackSafe fun fault hset => ?_) fun _ _ _ =>
      countVariableBytes_stackSafe _
    obtain ⟨moved, hmoved⟩ := Frame.exists_setPointer hunset offset
    have hok : ((t.frame f).setPointer offset).mapError Fault.error = .error fault :=
      (FrameM.result_adaptExcept _ _ _).symm.trans hset
    rw [hmoved] at hok
    cases hok

end Frame

end ScopeTree

/-! ## Engines -/

namespace EngineId

variable {e : EngineId} {s : Session} {excuse : Prop} {f : FrameId}

variable (operation name : String)

theorem requireLocal_stackSafe : StackSafe excuse (e.requireLocal operation) s := by
  refine .after rfl ?_
  split
  · exact .throw (not_isStack_language (by simp [← toList_inj, toString]))
  · exact .of_ok rfl

theorem requirePass_stackSafe : StackSafe excuse (e.requirePass .generate operation) s := by
  refine .after rfl ?_
  split
  · rename_i hpass
    exact .throw (not_isStack_passOrdering hpass)
  · exact .of_ok rfl

theorem forbidPass_stackSafe : StackSafe excuse (e.forbidPass .declare operation) s := by
  refine .after rfl ?_
  split
  · rename_i hpass
    refine .throw (not_isStack_passOrdering fun hgenerate => ?_)
    rw [hpass] at hgenerate
    cases hgenerate
  · exact .of_ok rfl

theorem frame_stackSafe : StackSafe excuse (e.frame operation) s := by
  refine .bind (requireLocal_stackSafe operation) fun _ _ _ => .after rfl ?_
  split
  · exact .of_ok rfl
  · exact .throw (not_isStack_internal (by decide) (by decide))

theorem frameState_stackSafe : StackSafe excuse (e.frameState operation) s :=
  .bind (frame_stackSafe operation) fun _ _ _ => .of_ok rfl

theorem requireSection_stackSafe : StackSafe excuse (e.requireSection name) s := by
  refine .after rfl ?_
  split
  · exact .throw (not_isStack_language (by simp [← toList_inj, toString]))
  · exact .of_ok rfl

theorem emit_stackSafe {line : Line} {entry : Entry} (hentry : s.entry line = .ok entry) :
    StackSafe excuse (e.emit line name) s := by
  refine .bind (requireSection_stackSafe name) fun _ s1 hrequire => ?_
  obtain rfl := requireSection_eq_ok hrequire
  refine .after rfl ?_
  dsimp only
  unfold Session.entry at hentry
  dsimp only at hentry
  split
  · exact .of_ok rfl
  · rename_i hslot
    rw [if_neg hslot] at hentry
    cases hrender : s1.renderLine (s1.pinAliases line) with
    | error fault =>
      rw [hrender] at hentry
      cases hentry
    | ok text =>
      refine .after rfl ?_
      cases text <;> exact .of_ok rfl

theorem emitDeferred_stackSafe (line : Line) (name : String) :
    StackSafe excuse (e.emitDeferred line name) s :=
  .bind (requireSection_stackSafe name) fun _ _ _ => .of_ok rfl

section Frame

variable (hframe : (s.tree.scope (s.engine e).currentScope).frame = some f)

include hframe

theorem declareExisting_stackSafe (name : String) (type : ValueType) (offset : Int) :
    StackSafe excuse (e.declareExisting name type offset) s := by
  refine .bind (requireLocal_stackSafe _) fun _ s1 hlocal => ?_
  obtain ⟨-, rfl⟩ := requireLocal_eq_ok.mp hlocal
  exact .after rfl (.onTree (declareExisting_stackSafe hframe name type offset))

variable (hunset : (s.tree.frame f).size = none)

include hunset

theorem movePointer_stackSafe (delta : Int) : StackSafe excuse (e.movePointer delta) s := by
  refine .bind (frame_stackSafe _) fun g s1 hgiven => ?_
  obtain ⟨-, hg, rfl⟩ := frame_eq_ok.mp hgiven
  obtain rfl : f = g := Option.some.inj (hframe.symm.trans hg)
  refine .bind (requirePass_stackSafe _) fun _ s2 hpass => ?_
  obtain ⟨-, rfl⟩ := requirePass_eq_ok.mp hpass
  exact .onTree (updateFrame_stackSafe fun fault => Frame.not_isStack_of_move hunset)

theorem allocate_stackSafe (bytes : UInt32) : StackSafe excuse (e.allocate bytes) s := by
  refine .bind (requireLocal_stackSafe _) fun _ s1 hlocal => ?_
  obtain ⟨-, rfl⟩ := requireLocal_eq_ok.mp hlocal
  exact .after rfl (.onTree (allocate_stackSafe hframe hunset bytes))

theorem declareVariable_stackSafe (name : String) (type : ValueType) :
    StackSafe excuse (e.declareVariable name type) s := by
  refine .bind (requireLocal_stackSafe _) fun _ s1 hlocal => ?_
  obtain ⟨-, rfl⟩ := requireLocal_eq_ok.mp hlocal
  exact .after rfl (.onTree (declareVariable_stackSafe hframe hunset name type))

end Frame

theorem enterLocal_stackSafe {name : String} {own : ScopeId}
    (hscope : s.tree.functionScope? (s.engine e).currentScope name = some own) :
    StackSafe excuse (e.enterLocal name) s := by
  refine .after rfl ?_
  dsimp only
  split
  · refine .after rfl (.bind (.throw ?_) fun _ _ hrun => by cases hrun)
    exact not_isStack_internal (by simp [← toList_inj, toString])
      (by simp [toString, List.cons_prefix_cons])
  · refine .after rfl (.after rfl ?_)
    rw [hscope]
    exact .of_ok rfl

theorem enterBlock_stackSafe : StackSafe excuse e.enterBlock s :=
  .after rfl (.bind (.onTree nextBlock_stackSafe) fun _ _ _ => .of_ok rfl)

theorem leave_stackSafe {move : ScopeMove} : StackSafe excuse (e.currentScope >>= fun id =>
    onTree (rewindBlocks id) >>= fun _ => e.popScope move) s :=
  .after rfl (.bind (.onTree rewindBlocks_stackSafe) fun _ _ _ => .of_ok rfl)

theorem exitBlock_stackSafe (hframe : (s.tree.scope (s.engine e).currentScope).frame = some f)
    (hunset : (s.tree.frame f).size = none) : StackSafe excuse e.exitBlock s := by
  refine .after rfl (.after rfl ?_)
  unfold fail
  refine .check (fun _ => not_isStack_internal (by decide) (by decide)) fun _ => ?_
  rw [hframe]
  dsimp only
  split
  · refine .bind (.onTree (updateFrame_stackSafe fun fault => ?_))
      fun _ _ _ => leave_stackSafe
    exact Frame.not_isStack_of_move hunset
  · exact leave_stackSafe

end EngineId

/-! ## Functions -/

theorem Runner.find_ofName_stackSafe {r : Runner} {name : String} :
    StackSafe excuse (r.find (Path.ofName name)) s := by
  refine .after rfl (.bind (forbidPass_stackSafe _) fun _ s1 hforbid => ?_)
  obtain ⟨-, rfl⟩ := forbidPass_eq_ok.mp hforbid
  have hfind : StackSafe excuse (r.find? (Path.ofName name)) s1 := by
    refine .after rfl (.after (findFirst?_ofName _) ?_)
    split
    · exact .of_ok rfl
    · exact .after rfl (.of_ok (findFirst?_ofName _))
  refine .bind hfind fun found _ _ => ?_
  cases found with
  | some symbol => exact .of_ok rfl
  | none => exact .after rfl (.throw (not_isStack_undefinedSymbol _))

namespace Win64

variable {e : EngineId} {s : Session} {excuse : Prop} {f : FrameId}

theorem placeParameters_stackSafe {parameters : List Parameter} {number : Nat}
    (hframe : (s.tree.scope (s.engine e).currentScope).frame = some f) :
    StackSafe excuse (placeParameters e (parameters.zipIdx number)) s := by
  induction parameters generalizing number s with
  | nil => exact .of_ok rfl
  | cons parameter rest ih =>
    rw [List.zipIdx_cons]
    refine .bind (declareExisting_stackSafe hframe _ _ _) fun _ s1 hplace => ?_
    obtain ⟨hnames, -, -⟩ := declareExisting_names hplace
    have hframe1 : (s1.tree.scope (s1.engine e).currentScope).frame = some f := by
      rw [Engine.currentScope, hnames.scopes]
      exact hnames.keeps.frame hframe
    dsimp only
    split
    · refine .bind (emit_stackSafe _ (s1.entry_ofText _)) fun _ s2 hemit => ih ?_
      have hwritten : Written e s1 s2 := (e.moves_emitText _ _).of_ok hemit
      rw [hwritten.tree, Engine.currentScope, hwritten.scopes]
      exact hframe1
    · exact ih hframe1

theorem prologue_stackSafe {r : Runner} {name : String} {parameters : List (TypeRefId × String)}
    {own : ScopeId}
    (hscope : s.tree.functionScope? (s.engine r.engine).currentScope name = some own)
    (hframe : (s.tree.scope own).frame = some f) (hunset : (s.tree.frame f).size = none) :
    StackSafe excuse (prologue r .generate name parameters) s := by
  unfold prologue
  dsimp only
  refine .bind Runner.find_ofName_stackSafe fun symbol s1 hfind => ?_
  have hpass := r.currentPass_of_find hfind
  obtain rfl : s = s1 :=
    (r.moves_find_plain (R := Eq) (by simp [Path.ofName, Segment.isTemplated])).of_ok hfind
  cases symbol with
  | function label known =>
    refine .after rfl (.bind (emit_stackSafe _ (s.entry_label label known)) fun _ s2 hemit => ?_)
    have hwritten : Written r.engine s s2 := (r.engine.moves_emit _ _).of_ok hemit
    have hcurrent : (s2.engine r.engine).currentScope = (s.engine r.engine).currentScope := by
      simp only [Engine.currentScope, hwritten.scopes]
    have hscope2 : s2.tree.functionScope? (s2.engine r.engine).currentScope name = some own := by
      rw [hwritten.tree, hcurrent, hscope]
    refine .bind (enterLocal_stackSafe hscope2) fun _ s3 henter => ?_
    rw [← hwritten.pass] at hpass
    obtain ⟨own', hown, rfl⟩ := enterLocal_eq_ok henter hpass
    obtain rfl : own = own' := Option.some.inj (hscope2.symm.trans hown)
    have hcurrent3 : ((r.engine.opening (.enterLocal name) own s2).engine r.engine).currentScope =
        own := by
      rw [Engine.currentScope, scopes_opening (lt_of_currentPass hpass)]
      rfl
    obtain ⟨visit, htree⟩ : ∃ visit, (r.engine.opening (.enterLocal name) own s2).tree =
        s.tree.visited visit := ⟨_, by rw [← hwritten.tree]; rfl⟩
    generalize r.engine.opening (.enterLocal name) own s2 = s3 at hcurrent3 htree
    have hframe3 : (s3.tree.scope (s3.engine r.engine).currentScope).frame = some f := by
      rw [hcurrent3, htree]
      exact hframe
    refine .bind (movePointer_stackSafe hframe3 (by rw [htree]; exact hunset) _)
      fun _ s4 hdown => ?_
    obtain ⟨g, moved, -, -, -, -, rfl⟩ := movePointer_eq_ok.mp hdown
    refine .bind (placeParameters_stackSafe (f := f) hframe3) fun _ s5 _ => ?_
    refine .bind (frame_stackSafe _) fun g s6 _ => .after rfl ?_
    exact emitDeferred_stackSafe _ _
  | _ =>
    refine .bind (.throw ?_) fun _ _ hrun => by cases hrun
    exact not_isStack_internal (by simp [← toList_inj, toString])
      (by simp [toString, List.cons_prefix_cons])

end Win64

theorem Balanced.frameOp_stackSafe {e : EngineId} {f : FrameId} {own : ScopeId}
    {outer opened : List ScopeId} {visited : ScopeId → Prop}
    (h : Balanced e f own outer opened visited s) {op : FrameOp} (hop : ∀ site, op ≠ .call site) :
    StackSafe excuse (op.run e) s := by
  cases op with
  | declare name type => exact declareVariable_stackSafe h.currentFrame h.unset name type
  | reserve bytes => exact allocate_stackSafe h.currentFrame h.unset bytes
  | enter => exact enterBlock_stackSafe
  | leave => exact exitBlock_stackSafe h.currentFrame h.unset
  | call site => exact absurd rfl (hop site)
  | noteCall =>
    refine .after rfl ?_
    split
    · refine .bind (frame_stackSafe _) fun g _ _ => .onTree ?_
      exact updateFrame_stackSafe fun fault hset => by cases hset
    · exact .of_ok rfl

end StagedAsm
