import StagedAsm.Proofs.EngineMoves

/-!
# When operations on scopes succeed

For each operation on scopes and frames, what has to hold for it to succeed and what the session is
then. Nothing else of their definitions is needed to follow a run.
-/

namespace StagedAsm

open ScopeTree

/-! ## Frames -/

@[simp] theorem mapError_eq_ok {ε ε' α : Type} {x : Except ε α} {f : ε → ε'} {a : α} :
    x.mapError f = .ok a ↔ x = .ok a := by
  cases x with
  | error e =>
    constructor
    · intro h
      cases h
    · intro h
      cases h
  | ok b =>
    constructor
    · intro h
      cases h
      rfl
    · intro h
      cases h
      rfl

namespace FrameM

variable {ε ε' : Type} {m : FrameM ε Unit} {f f' : Frame}

theorem result_eq_ok : m.result f = .ok f' ↔ m f = .ok () f' := by
  rw [result]
  cases m f <;> simp

theorem result_eq_error {e : ε} : m.result f = .error e ↔ ∃ f', m f = .error e f' := by
  rw [result]
  cases m f <;> simp

theorem eq_of_setPointer_error {pointer : Int} {e : CompileError}
    (h : setPointer pointer f = .error e f') : f' = f := by
  rw [setPointer_apply] at h
  split at h
  · cases h
    rfl
  · split at h <;> cases h

theorem result_adaptExcept (m : FrameM ε Unit) (g : ε → ε') (f : Frame) :
    FrameM.result (m.adaptExcept g) f = (m.result f).mapError g := by
  rw [result, result, EStateM.adaptExcept]
  cases m f <;> rfl

end FrameM

namespace Frame

variable {f f' : Frame}

theorem toNat_max (a b : UInt32) : (max a b).toNat = max a.toNat b.toNat := by
  show (if a ≤ b then b else a).toNat = _
  by_cases hab : a ≤ b
  · rw [if_pos hab, Nat.max_eq_right (UInt32.le_iff_toNat_le.mp hab)]
  · have hlt : ¬a.toNat ≤ b.toNat := fun h => hab (UInt32.le_iff_toNat_le.mpr h)
    rw [if_neg hab, Nat.max_eq_left (by omega)]

theorem setPointer_eq_ok {pointer : Int} (h : f.setPointer pointer = .ok f') :
    f.size = none ∧ f'.size = none ∧ f'.pointer = pointer ∧ f'.isLeaf = f.isLeaf ∧
      f.extent.toNat ≤ f'.extent.toNat ∧
      (-0xffffffff ≤ pointer → -pointer ≤ f'.extent.toNat) := by
  have hrun := FrameM.result_eq_ok.mp h
  rw [FrameM.setPointer_apply] at hrun
  split at hrun
  · cases hrun
  · rename_i hsize
    have hnone : f.size = none := by simpa using hsize
    split at hrun
    · cases hrun
      refine ⟨hnone, hnone, rfl, rfl, ?_, fun hle => ?_⟩
      · rw [toNat_max]
        exact Nat.le_max_left _ _
      · have hword : (UInt32.ofNat pointer.natAbs).toNat = pointer.natAbs :=
          UInt32.toNat_ofNat_of_lt' (by simp only [UInt32.size]; omega)
        rw [toNat_max, hword]
        omega
    · cases hrun
      refine ⟨hnone, hnone, rfl, rfl, .refl, fun _ => ?_⟩
      dsimp only
      omega

theorem move_eq_ok {delta : Int} (h : f.move delta = .ok f') :
    f.setPointer (f.pointer + delta) = .ok f' := by
  have hrun := FrameM.result_eq_ok.mp h
  rw [FrameM.move_apply] at hrun
  cases hadd : addOffset f.pointer delta with
  | error fault =>
    rw [hadd] at hrun
    cases hrun
  | ok pointer =>
    rw [hadd] at hrun
    obtain ⟨rfl, -⟩ := addOffset_eq_ok_iff.mp hadd
    have hmoved : FrameM.result ((FrameM.setPointer (f.pointer + delta)).adaptExcept
        Fault.error) f = .ok f' := FrameM.result_eq_ok.mpr hrun
    rw [FrameM.result_adaptExcept] at hmoved
    exact mapError_eq_ok.mp hmoved

end Frame

/-! ## The scope tree -/

namespace ScopeTree

variable {t t' : ScopeTree} {id : ScopeId}

theorem updateFrame_eq_ok {f : FrameId} {change : FrameM Fault Unit} :
    updateFrame f change t = .ok () t' ↔
      ∃ frame, change.result (t.frame f) = .ok frame ∧ t' = t.setFrame f frame := by
  simp only [updateFrame, get_bind_eq_ok, FrameM.result]
  cases change (t.frame f) with
  | ok _ frame => simp
  | error fault frame =>
    simp only [reduceCtorEq, false_and, exists_false, iff_false]
    intro h
    cases h

theorem updateFrame_of_error {f : FrameId} {change : FrameM Fault Unit} {fault : Fault}
    (h : change (t.frame f) = .error fault (t.frame f)) :
    updateFrame f change t = .error fault t := by
  rw [updateFrame, get_bind, h]
  show EStateM.Result.error fault (t.setFrame f (t.frame f)) = _
  rw [setFrame_frame]

variable {bytes : UInt32} {name : String} {type : ValueType}

theorem countVariableBytes_eq_ok : countVariableBytes id bytes t = .ok () t' ↔
      ∃ total : UInt32, total.toNat = (t.scope id).variableBytes.toNat + bytes.toNat ∧
        t' = t.modifyScope id fun s => { s with variableBytes := total } := by
  simp only [countVariableBytes, get_bind_eq_ok, ← addBytes_eq_ok_iff]
  cases addBytes (t.scope id).variableBytes bytes with
  | ok total => simp
  | error fault => simp

theorem rewindBlocks_eq_ok :
    rewindBlocks id t = .ok () t' ↔ (t.scope id).cursor = (t.scope id).blocks.length ∧
      t' = t.modifyScope id fun s => { s with cursor := 0, canGrow := false } := by
  simp only [rewindBlocks, get_bind_eq_ok]
  rw [fail, check_eq_ok, set_eq_ok]
  simp

theorem nextBlock_eq_ok {block : ScopeId} : nextBlock id t = .ok block t' ↔
      ((t.scope id).blocks[(t.scope id).cursor]? = some block ∧
        t' = t.modifyScope id fun s => { s with cursor := s.cursor + 1 }) ∨
      ((t.scope id).blocks[(t.scope id).cursor]? = none ∧ (t.scope id).canGrow = true ∧
        block = ⟨t.size⟩ ∧ t' = t.withBlock id) := by
  simp only [nextBlock, get_bind_eq_ok]
  cases (t.scope id).blocks[(t.scope id).cursor]? with
  | some found =>
    constructor
    · intro h
      cases h
      exact .inl ⟨rfl, rfl⟩
    · rintro (⟨hfound, rfl⟩ | ⟨hnone, -⟩)
      · cases hfound
        rfl
      · cases hnone
  | none =>
    dsimp only
    rw [fail, check_eq_ok]
    constructor
    · rintro ⟨hgrow, h⟩
      cases h
      exact .inr ⟨rfl, by simpa using hgrow, rfl, rfl⟩
    · rintro (⟨hfound, -⟩ | ⟨-, hgrow, rfl, rfl⟩)
      · cases hfound
      · exact ⟨by simp [hgrow], rfl⟩

theorem subOffset_eq_ok {a b c : Int} (h : subOffset a b = .ok c) : c = a - b := by
  unfold subOffset at h
  split at h
  · cases h
    rfl
  · cases h

theorem declareVariable_eq_ok (h : declareVariable id name type t = .ok () t') :
    ∃ f frame, ∃ total : UInt32, (t.scope id).frame = some f ∧ id.index < t.size ∧
      t.member? id name = none ∧
      (t.frame f).setPointer ((t.frame f).pointer - type.bytes.toNat) = .ok frame ∧
      total.toNat = (t.scope id).variableBytes.toNat + type.bytes.toNat ∧
      t' = (t.setFrame f frame).modifyScope id fun s =>
        { s with
          members := s.members.set name (.slot f ((t.frame f).pointer - type.bytes.toNat) type)
          variableBytes := total } := by
  obtain ⟨f, t1, hframeOf, h1⟩ := bind_eq_ok.mp h
  obtain ⟨hframe, rfl⟩ := frameOf_eq_ok.mp hframeOf
  rw [get_bind_eq_ok] at h1
  cases hoffset : subOffset (t1.frame f).pointer (offsetOfBytes type.bytes) with
  | error fault => simp [hoffset] at h1
  | ok offset =>
    rw [hoffset] at h1
    obtain rfl := subOffset_eq_ok hoffset
    obtain ⟨_, t2, hdeclare, h2⟩ := bind_eq_ok.mp h1
    obtain ⟨hlt, hfree, rfl⟩ := declare_eq_ok hdeclare
    obtain ⟨_, t3, hupdate, h3⟩ := bind_eq_ok.mp h2
    obtain ⟨frame, hset, rfl⟩ := updateFrame_eq_ok.mp hupdate
    obtain ⟨total, htotal, rfl⟩ := countVariableBytes_eq_ok.mp h3
    refine ⟨f, frame, total, hframe, hlt, hfree, ?_, ?_, ?_⟩
    · rw [FrameM.result_adaptExcept] at hset
      exact mapError_eq_ok.mp hset
    · rw [htotal, scope_setFrame, scope_modifyScope, if_pos ⟨rfl, hlt⟩]
    · rw [setFrame_modifyScope, modifyScope_modifyScope]
      rfl

theorem allocate_eq_ok (h : allocate id bytes t = .ok () t') :
    ∃ f frame, ∃ total : UInt32, (t.scope id).frame = some f ∧
      (t.frame f).setPointer ((t.frame f).pointer - bytes.toNat) = .ok frame ∧
      total.toNat = (t.scope id).variableBytes.toNat + bytes.toNat ∧
      t' = (t.setFrame f frame).modifyScope id fun s => { s with variableBytes := total } := by
  unfold allocate fail at h
  obtain ⟨-, h1⟩ := check_eq_ok.mp h
  obtain ⟨f, t1, hframeOf, h2⟩ := bind_eq_ok.mp h1
  obtain ⟨hframe, rfl⟩ := frameOf_eq_ok.mp hframeOf
  obtain ⟨_, t2, hupdate, h3⟩ := bind_eq_ok.mp h2
  obtain ⟨frame, hmove, rfl⟩ := updateFrame_eq_ok.mp hupdate
  obtain ⟨total, htotal, rfl⟩ := countVariableBytes_eq_ok.mp h3
  exact ⟨f, frame, total, hframe, Frame.move_eq_ok hmove, htotal, rfl⟩

theorem declareExisting_eq_ok {offset : Int}
    (h : declareExisting id name type offset t = .ok () t') :
    ∃ f, (t.scope id).frame = some f ∧ id.index < t.size ∧ t.member? id name = none ∧
      t' = t.modifyScope id fun s =>
        { s with
          members := s.members.set name (.slot f ((t.frame f).pointer + offset) type) } := by
  obtain ⟨f, t1, hframeOf, h1⟩ := bind_eq_ok.mp h
  obtain ⟨hframe, rfl⟩ := frameOf_eq_ok.mp hframeOf
  rw [get_bind_eq_ok] at h1
  cases hoffset : addOffset (t1.frame f).pointer offset with
  | error fault => simp [hoffset] at h1
  | ok sum =>
    rw [hoffset] at h1
    obtain ⟨rfl, -⟩ := addOffset_eq_ok_iff.mp hoffset
    obtain ⟨hlt, hfree, rfl⟩ := declare_eq_ok h1
    exact ⟨f, hframe, hlt, hfree, rfl⟩

end ScopeTree

/-! ## Engines -/

namespace EngineId

variable {α : Type} {e : EngineId} {s s' : Session} {a : α}

variable {operation name : String} {type : ValueType}

theorem frameState_eq_ok {frame : Frame} : e.frameState operation s = .ok frame s' ↔ ∃ f,
      s.tree.isLocal (s.engine e).currentScope = true ∧
      (s.tree.scope (s.engine e).currentScope).frame = some f ∧ frame = s.tree.frame f ∧
      s' = s := by
  unfold frameState
  rw [bind_eq_ok]
  constructor
  · rintro ⟨f, _, hf, h⟩
    obtain ⟨hlocal, hframe, rfl⟩ := frame_eq_ok.mp hf
    cases h
    exact ⟨f, hlocal, hframe, rfl, rfl⟩
  · rintro ⟨f, hlocal, hframe, rfl, rfl⟩
    exact ⟨f, s', frame_eq_ok.mpr ⟨hlocal, hframe, rfl⟩, rfl⟩

theorem movePointer_eq_ok {delta : Int} : e.movePointer delta s = .ok () s' ↔ ∃ f frame,
      s.tree.isLocal (s.engine e).currentScope = true ∧
      (s.tree.scope (s.engine e).currentScope).frame = some f ∧
      (s.engine e).currentPass = .generate ∧ (s.tree.frame f).move delta = .ok frame ∧
      s' = { s with tree := s.tree.setFrame f frame } := by
  unfold movePointer
  simp only [bind_eq_ok, frame_eq_ok, requirePass_eq_ok, onTree_eq_ok, updateFrame_eq_ok]
  constructor
  · rintro ⟨f, _, ⟨hlocal, hframe, rfl⟩, _, _, ⟨hpass, rfl⟩, _, ⟨frame, hmove, rfl⟩, rfl⟩
    exact ⟨f, frame, hlocal, hframe, hpass, hmove, rfl⟩
  · rintro ⟨f, frame, hlocal, hframe, hpass, hmove, rfl⟩
    exact ⟨f, s, ⟨hlocal, hframe, rfl⟩, ⟨⟩, s, ⟨hpass, rfl⟩, _, ⟨frame, hmove, rfl⟩, rfl⟩

theorem onLocal_eq_ok {m : ScopeId → TreeM Unit} :
    (e.requireLocal operation >>= fun _ => e.currentScope >>= fun id => onTree (m id)) s =
      .ok () s' ↔ s.tree.isLocal (s.engine e).currentScope = true ∧
      ∃ t, m (s.engine e).currentScope s.tree = .ok () t ∧ s' = { s with tree := t } := by
  simp only [bind_eq_ok, requireLocal_eq_ok]
  constructor
  · rintro ⟨_, _, ⟨hlocal, rfl⟩, _, _, hscope, h⟩
    cases hscope
    exact ⟨hlocal, onTree_eq_ok.mp h⟩
  · rintro ⟨hlocal, h⟩
    exact ⟨⟨⟩, s, ⟨hlocal, rfl⟩, _, s, rfl, onTree_eq_ok.mpr h⟩

theorem declareVariable_eq_ok : e.declareVariable name type s = .ok () s' ↔
      s.tree.isLocal (s.engine e).currentScope = true ∧
      ∃ t, ScopeTree.declareVariable (s.engine e).currentScope name type s.tree = .ok () t ∧
        s' = { s with tree := t } := onLocal_eq_ok

theorem allocate_eq_ok {bytes : UInt32} :
    e.allocate bytes s = .ok () s' ↔ s.tree.isLocal (s.engine e).currentScope = true ∧
      ∃ t, ScopeTree.allocate (s.engine e).currentScope bytes s.tree = .ok () t ∧
        s' = { s with tree := t } := onLocal_eq_ok

theorem declareExisting_eq_ok {offset : Int} : e.declareExisting name type offset s = .ok () s' ↔
      s.tree.isLocal (s.engine e).currentScope = true ∧
      ∃ t, ScopeTree.declareExisting (s.engine e).currentScope name type offset s.tree = .ok () t ∧
        s' = { s with tree := t } := onLocal_eq_ok

theorem lt_of_scopes {id : ScopeId} {rest : List ScopeId}
    (h : (s.engine e).scopes = id :: rest) : e.index < s.engines.size := by
  apply Decidable.byContradiction
  intro hge
  rw [Session.engine_of_size_le (Nat.le_of_not_lt hge)] at h
  cases h

variable {move : ScopeMove}

theorem engine_opening (id : ScopeId) (other : EngineId) : (e.opening move id s).engine other =
      if other = e ∧ e.index < s.engines.size then
        { s.engine e with scopes := id :: (s.engine e).scopes }
      else s.engine other := s.engine_modify e other _

theorem engine_closing (other : EngineId) : (e.closing move s).engine other =
      if other = e ∧ e.index < s.engines.size then
        { s.engine e with scopes := (s.engine e).scopes.tail }
      else s.engine other := s.engine_modify e other _

theorem scopes_opening (h : e.index < s.engines.size) (id : ScopeId) :
    ((e.opening move id s).engine e).scopes = id :: (s.engine e).scopes := by
  rw [engine_opening, if_pos ⟨rfl, h⟩]

theorem scopes_closing : ((e.closing move s).engine e).scopes = (s.engine e).scopes.tail := by
  rw [engine_closing]
  split
  · rfl
  · rename_i hlt
    rw [Session.engine_of_size_le (by simpa using hlt)]
    rfl

theorem enterBlock_eq_ok : e.enterBlock s = .ok () s' ↔ ∃ block t,
    nextBlock (s.engine e).currentScope s.tree = .ok block t ∧
      s' = e.opening .enterBlock block { s with tree := t } := by
  unfold enterBlock
  rw [currentScope_bind]
  simp only [bind_eq_ok, onTree_eq_ok]
  constructor
  · rintro ⟨block, _, ⟨t, hnext, rfl⟩, hpush⟩
    cases hpush
    exact ⟨block, t, hnext, rfl⟩
  · rintro ⟨block, t, hnext, rfl⟩
    exact ⟨block, _, ⟨t, hnext, rfl⟩, rfl⟩

theorem leave_eq_ok : (e.currentScope >>= fun id => onTree (rewindBlocks id) >>= fun _ =>
      e.popScope move) s = .ok () s' ↔
    ∃ t, rewindBlocks (s.engine e).currentScope s.tree = .ok () t ∧
      s' = e.closing move { s with tree := t } := by
  rw [currentScope_bind]
  simp only [bind_eq_ok, onTree_eq_ok]
  constructor
  · rintro ⟨_, _, ⟨t, hrewind, rfl⟩, hpop⟩
    cases hpop
    exact ⟨t, hrewind, rfl⟩
  · rintro ⟨t, hrewind, rfl⟩
    exact ⟨⟨⟩, _, ⟨t, hrewind, rfl⟩, rfl⟩

theorem exitBlock_eq_ok (h : e.exitBlock s = .ok () s') :
    (s.tree.scope (s.engine e).currentScope).isAnonymous = true ∧ 1 < (s.engine e).scopes.length ∧
      ∃ t t', (((s.tree.scope (s.engine e).currentScope).frame = none ∨
          (s.tree.scope (s.engine e).currentScope).variableBytes = 0) ∧ t = s.tree ∨
        ∃ f frame, (s.tree.scope (s.engine e).currentScope).frame = some f ∧
          (s.tree.frame f).setPointer ((s.tree.frame f).pointer +
            (s.tree.scope (s.engine e).currentScope).variableBytes.toNat) = .ok frame ∧
          t = s.tree.setFrame f frame) ∧
        rewindBlocks (s.engine e).currentScope t = .ok () t' ∧
        s' = e.closing .exitBlock { s with tree := t' } := by
  unfold exitBlock at h
  rw [scope_bind, state_bind, fail, check_eq_ok] at h
  obtain ⟨hinside, h1⟩ := h
  simp only [Bool.or_eq_true, Bool.not_eq_true', decide_eq_true_eq, not_or, Bool.not_eq_false,
    Nat.not_le] at hinside
  refine ⟨hinside.1, hinside.2, ?_⟩
  cases hframe : (s.tree.scope (s.engine e).currentScope).frame with
  | none =>
    rw [hframe] at h1
    obtain ⟨t', hrewind, rfl⟩ := leave_eq_ok.mp h1
    exact ⟨s.tree, t', .inl ⟨.inl rfl, rfl⟩, hrewind, rfl⟩
  | some f =>
    rw [hframe] at h1
    dsimp only at h1
    split at h1
    · obtain ⟨_, s1, hupdate, h2⟩ := bind_eq_ok.mp h1
      obtain ⟨t, htree, rfl⟩ := onTree_eq_ok.mp hupdate
      obtain ⟨frame, hmove, rfl⟩ := updateFrame_eq_ok.mp htree
      obtain ⟨t', hrewind, rfl⟩ := leave_eq_ok.mp h2
      exact ⟨_, t', .inr ⟨f, frame, rfl, Frame.move_eq_ok hmove, rfl⟩, hrewind, rfl⟩
    · rename_i hbytes
      have hzero : (s.tree.scope (s.engine e).currentScope).variableBytes = 0 := by
        apply UInt32.toNat_inj.mp
        have hle := UInt32.le_iff_toNat_le.mp (UInt32.not_lt.mp hbytes)
        simpa using hle
      obtain ⟨t', hrewind, rfl⟩ := leave_eq_ok.mp h1
      exact ⟨s.tree, t', .inl ⟨.inr hzero, rfl⟩, hrewind, rfl⟩

theorem exitBlock_releases {f : FrameId}
    (hframe : (s.tree.scope (s.engine e).currentScope).frame = some f)
    (hlt : f.index < s.tree.frames.size) (h : e.exitBlock s = .ok () s') :
    (s.tree.scope (s.engine e).currentScope).isAnonymous = true ∧ ∃ frame,
      frame.pointer = (s.tree.frame f).pointer +
        (s.tree.scope (s.engine e).currentScope).variableBytes.toNat ∧
      ((s.tree.frame f).size = none → frame.size = none) ∧
      frame.isLeaf = (s.tree.frame f).isLeaf ∧
      (s.tree.frame f).extent.toNat ≤ frame.extent.toNat ∧
      s' = e.closing .exitBlock { s with
        tree := (s.tree.setFrame f frame).modifyScope (s.engine e).currentScope fun scope =>
          { scope with cursor := 0, canGrow := false } } := by
  obtain ⟨hblock, -, t, t', hmoved, hrewind, rfl⟩ := exitBlock_eq_ok h
  obtain ⟨-, rfl⟩ := rewindBlocks_eq_ok.mp hrewind
  refine ⟨hblock, ?_⟩
  rcases hmoved with ⟨hnothing, rfl⟩ | ⟨g, frame, hg, hset, rfl⟩
  · rw [hframe] at hnothing
    have hzero := hnothing.resolve_left (Option.some_ne_none f)
    refine ⟨s.tree.frame f, ?_, id, rfl, .refl, ?_⟩
    · rw [hzero]
      simp
    · rw [setFrame_frame]
  · obtain rfl : g = f := Option.some.inj (hg.symm.trans hframe)
    obtain ⟨-, hunset, hpointer, hleaf, hextent, -⟩ := Frame.setPointer_eq_ok hset
    exact ⟨frame, hpointer, fun _ => hunset, hleaf, hextent, rfl⟩

theorem enterLocal_eq_ok (h : e.enterLocal name s = .ok () s')
    (hpass : (s.engine e).currentPass ≠ .declare) :
    ∃ scope, s.tree.functionScope? (s.engine e).currentScope name = some scope ∧
      s' = e.opening (.enterLocal name) scope s := by
  unfold enterLocal at h
  rw [isLocal_bind] at h
  split at h
  · obtain ⟨_, _, hpath, h1⟩ := bind_eq_ok.mp h
    obtain ⟨_, _, hfail, -⟩ := bind_eq_ok.mp h1
    cases hfail
  · dsimp only at h
    rw [currentScope_bind, get_bind_eq_ok] at h
    cases hscope : s.tree.functionScope? (s.engine e).currentScope name with
    | none =>
      rw [hscope] at h
      obtain ⟨pass, s1, hcurrent, h1⟩ := bind_eq_ok.mp h
      cases hcurrent
      obtain ⟨hdeclare, -⟩ := check_eq_ok.mp h1
      exact absurd (by simpa using hdeclare) hpass
    | some scope =>
      rw [hscope] at h
      cases h
      exact ⟨scope, rfl, rfl⟩

theorem exitLocal_eq_ok (h : e.exitLocal s = .ok () s') :
    ∃ t, rewindBlocks (s.engine e).currentScope s.tree = .ok () t ∧
      s' = e.closing .exitLocal { s with tree := t } := by
  unfold exitLocal at h
  rw [scope_bind, fail, check_eq_ok] at h
  obtain ⟨-, h1⟩ := h
  cases hframe : (s.tree.scope (s.engine e).currentScope).frame with
  | none =>
    rw [hframe] at h1
    exact leave_eq_ok.mp h1
  | some f =>
    rw [hframe] at h1
    dsimp only at h1
    rw [get_bind_eq_ok, fail, check_eq_ok] at h1
    exact leave_eq_ok.mp h1.2

theorem declareCall_eq_ok (h : e.declareCall s = .ok () s') : s' = s ∨
    ∃ f, (s.tree.scope (s.engine e).currentScope).frame = some f ∧
      s' = { s with tree := s.tree.setFrame f { s.tree.frame f with isLeaf := false } } := by
  unfold declareCall at h
  rw [isLocal_bind] at h
  split at h
  · obtain ⟨f, s1, hf, h1⟩ := bind_eq_ok.mp h
    obtain ⟨-, hframe, rfl⟩ := frame_eq_ok.mp hf
    obtain ⟨t, hupdate, rfl⟩ := onTree_eq_ok.mp h1
    obtain ⟨frame, hset, rfl⟩ := updateFrame_eq_ok.mp hupdate
    cases hset
    exact .inr ⟨f, hframe, rfl⟩
  · cases h
    exact .inl rfl

theorem setStackSize_eq_ok {size : UInt32} (h : e.setStackSize size s = .ok () s') :
    ∃ f sections, (s.tree.scope (s.engine e).currentScope).frame = some f ∧
      Section.fireAll ({ s with tree := s.tree.setFrame f { s.tree.frame f with
        size := some size } } : Session).renderLine (s.engine e).sections = (sections, .ok ()) ∧
      s' = { s with
        tree := s.tree.setFrame f { s.tree.frame f with size := some size }
        engines := s.engines.modify e.index fun engine => { engine with sections } } := by
  unfold setStackSize at h
  obtain ⟨_, s1, hpass, h1⟩ := bind_eq_ok.mp h
  obtain ⟨-, rfl⟩ := requirePass_eq_ok.mp hpass
  obtain ⟨f, s2, hf, h2⟩ := bind_eq_ok.mp h1
  obtain ⟨-, hframe, rfl⟩ := frame_eq_ok.mp hf
  obtain ⟨_, s3, hupdate, h3⟩ := bind_eq_ok.mp h2
  obtain ⟨t, htree, rfl⟩ := onTree_eq_ok.mp hupdate
  obtain ⟨frame, hset, rfl⟩ := updateFrame_eq_ok.mp htree
  rw [FrameM.result_adaptExcept] at hset
  have hsize := FrameM.result_eq_ok.mp (mapError_eq_ok.mp hset)
  rw [FrameM.setSize_apply] at hsize
  split at hsize
  · cases hsize
  · cases hsize
    rw [get_bind_eq_ok] at h3
    obtain ⟨_, s4, hmodify, h4⟩ := bind_eq_ok.mp h3
    cases hmodify
    obtain ⟨hfired, rfl⟩ := ofFault_eq_ok.mp h4
    exact ⟨f, _, hframe, Prod.ext rfl hfired, rfl⟩

end EngineId

end StagedAsm
