import StagedAsm.Proofs.StackFaults

/-!
# Closing functions

At the end of a function its frame gets the size that all lines were waiting for. The pointer is
back above the return address then, and the lines that move the stack pointer all have the same
amount. So the function leaves the stack as it was, whichever return it takes.
-/

namespace StagedAsm

open CompileError EngineId List ScopeTree

/-! ## Lines that fail -/

namespace Session

def FailsAlone (s : Session) (f : FrameId) : DeferredText → Prop
  | .failing e => e.IsStack
  | .frameAdjustment g _ _ => g ≠ f ∧ ∃ size, (s.tree.frame g).size = some size ∧ size.toNat < 8
  | _ => False

def LineFails (s : Session) (e : EngineId) (f : FrameId) : Prop :=
  ∃ x ∈ (s.engine e).sections, ∃ item ∈ x.2.backlog, ∃ symbol ∈ item.line, ∃ id text,
    s.denoted symbol = .deferred id text ∧ s.FailsAlone f text

variable {s s' : Session} {e : EngineId} {f : FrameId}

theorem LineFails.of_sizes (h : s'.LineFails e f)
    (hsections : (s'.engine e).sections = (s.engine e).sections)
    (hplaceholders : s'.placeholders = s.placeholders)
    (hsizes : ∀ g, g ≠ f → (s'.tree.frame g).size = (s.tree.frame g).size) : s.LineFails e f := by
  obtain ⟨x, hx, item, hitem, symbol, hsymbol, id, text, hdenoted, hfails⟩ := h
  rw [hsections] at hx
  rw [denoted_congr hplaceholders] at hdenoted
  refine ⟨x, hx, item, hitem, symbol, hsymbol, id, text, hdenoted, ?_⟩
  cases text with
  | frameAdjustment g instruction inPrologue =>
    obtain ⟨hne, size, hsize, hlt⟩ := hfails
    rw [hsizes g hne] at hsize
    exact ⟨hne, size, hsize, hlt⟩
  | _ => exact hfails

variable {size : UInt32} {fault : Fault}

theorem failsAlone_of_deferredText {text : DeferredText} {error : CompileError}
    (hsize : (s.tree.frame f).size = some size) (hle : 8 ≤ size.toNat)
    (h : s.deferredText text = .error error) (hstack : error.IsStack) : s.FailsAlone f text := by
  cases text with
  | failing e =>
    cases h
    exact hstack
  | frameAdjustment g instruction inPrologue =>
    cases hg : (s.tree.frame g).size with
    | none =>
      have hunset : s.deferredText (.frameAdjustment g instruction inPrologue) =
          .error .frameSizeUnset := by
        simp [deferredText, Frame.finalSize, hg, Bind.bind, Except.bind]
      rw [hunset] at h
      cases h
      exact absurd hstack CompileError.not_isStack_frameSizeUnset
    | some other =>
      have hlt : other.toNat < 8 := by
        apply Nat.lt_of_not_le
        intro hcovers
        rw [Win64.deferredText_adjustment hg hcovers] at h
        cases h
      refine ⟨?_, other, hg, hlt⟩
      rintro rfl
      obtain rfl : size = other := Option.some.inj (hsize.symm.trans hg)
      omega
  | _ => cases h

theorem exists_failsAlone_of_render {symbol : Symbol} (hsize : (s.tree.frame f).size = some size)
    (hle : 8 ≤ size.toNat) (h : s.render symbol = .error fault) (hstack : fault.IsStack) :
    ∃ id text, s.denoted symbol = .deferred id text ∧ s.FailsAlone f text := by
  unfold render at h
  split at h
  case h_2 g offset type _ =>
    -- Addresses fail for want of a size, or because they are too large.
    exfalso
    cases hg : (s.tree.frame g).size with
    | none =>
      simp only [slotAddress, Frame.finalSize, hg, Except.mapError, Bind.bind, Except.bind,
        Except.map] at h
      cases h
      exact not_isStack_frameSizeUnset hstack
    | some other =>
      simp only [slotAddress, Frame.finalSize, hg, Except.mapError, Bind.bind, Except.bind,
        Except.map] at h
      cases hsum : addOffset offset (offsetOfBytes other) with
      | ok total =>
        rw [hsum] at h
        cases h
      | error fault' =>
        rw [hsum] at h
        cases h
        exact not_isStack_of_addOffset hsum hstack
  case h_6 id text hdenoted =>
    cases htext : s.deferredText text with
    | ok found =>
      rw [htext] at h
      cases h
    | error error =>
      rw [htext] at h
      cases h
      exact ⟨id, text, hdenoted, failsAlone_of_deferredText hsize hle htext hstack⟩
  case h_7 =>
    cases h
    refine absurd hstack (not_isStack_internal ?_ ?_)
    · simp [← String.toList_inj, toString]
    · simp [toString, cons_prefix_cons]
  case h_8 =>
    cases h
    exact absurd hstack (not_isStack_typeMismatch _)
  case h_9 =>
    cases h
    exact absurd hstack (not_isStack_typeMismatch _)
  all_goals cases h

theorem exists_render_of_renderLine {line : Line} (h : s.renderLine line = .error fault) :
    ∃ symbol ∈ line, s.render symbol = .error fault := by
  have hall : s.renderAll line = .error fault := by
    cases htexts : s.renderAll line with
    | ok texts =>
      rw [renderLine, htexts] at h
      cases h
    | error fault' =>
      rw [renderLine, htexts] at h
      cases h
      rfl
  clear h
  induction line with
  | nil => cases hall
  | cons symbol rest ih =>
    simp only [renderAll] at hall
    split at hall
    · split at hall
      · cases hall
      · obtain ⟨other, hother, hrender⟩ := ih hall
        exact ⟨other, mem_cons_of_mem _ hother, hrender⟩
    · cases hall
    · rename_i hrender
      cases hall
      exact ⟨symbol, mem_cons_self, hrender⟩

end Session

namespace Section

variable {render : Line → Except Fault (Option String)} {fault : Fault}

variable {sections : List (String × Section)}

theorem exists_render_of_fireAll (h : (fireAll render sections).2 = .error fault) :
    ∃ x ∈ sections, ∃ item ∈ x.2.backlog, render item.line = .error fault := by
  induction sections with
  | nil => cases h
  | cons x rest ih =>
    obtain ⟨name, s⟩ := x
    unfold fireAll at h
    split at h
    · obtain ⟨other, hother, hitem⟩ := ih h
      exact ⟨other, mem_cons_of_mem _ hother, hitem⟩
    · rename_i fired fault' hfire
      cases h
      have hwrite : (writeOut render s.buffer s.backlog).2 = .error fault := by
        have hsecond := congrArg Prod.snd hfire
        exact hsecond
      obtain ⟨item, hitem, hrender⟩ := exists_render_of_writeOut hwrite
      exact ⟨(name, s), mem_cons_self, item, hitem, hrender⟩

theorem fireAll_eq_ok (h : (fireAll render sections).2 = .ok ()) :
    (fireAll render sections).1 = sections.map (fun x => (x.1, (x.2.fire render).1)) ∧
      ∀ x ∈ sections, (x.2.fire render).2 = .ok () := by
  induction sections with
  | nil => exact ⟨rfl, by simp⟩
  | cons x rest ih =>
    obtain ⟨name, s⟩ := x
    unfold fireAll at h ⊢
    cases hfire : s.fire render with
    | mk fired outcome =>
      rw [hfire] at h
      cases outcome with
      | error fault => cases h
      | ok done =>
        obtain ⟨hmap, hall⟩ := ih h
        refine ⟨?_, ?_⟩
        · simp only [map_cons, hfire, hmap]
        · intro x hx
          rcases mem_cons.mp hx with rfl | hx
          · show (s.fire render).2 = .ok ()
            rw [hfire]
          · exact hall x hx

end Section

/-! ## The program section -/

def Engine.program? (engine : Engine) : Option Section :=
  (engine.sections.find? fun x => x.1 == programSection).map Prod.snd

theorem Section.find?_modifyFirst (name : String) (g : Section → Section)
    (sections : List (String × Section)) :
    (modifyFirst name g sections).find? (fun x => x.1 == name) =
      (sections.find? fun x => x.1 == name).map fun x => (x.1, g x.2) := by
  induction sections with
  | nil => rfl
  | cons x rest ih =>
    by_cases heq : x.1 = name
    · simp [modifyFirst, heq]
    · simp [modifyFirst, heq, ih]

variable {e : EngineId} {s s' : Session} {x : Section}

theorem Feeds.program? {entries : List Entry} (h : Feeds e entries s s')
    (hx : (s.engine e).program? = some x) :
    (s'.engine e).program? = some (entries.foldl Section.feed x) := by
  unfold Feeds at h
  unfold Engine.program? at hx ⊢
  obtain ⟨entry, hentry, rfl⟩ := Option.map_eq_some_iff.mp hx
  rw [h, Section.find?_modifyFirst, hentry]
  rfl

theorem Engine.program?_fired {engine engine' : Engine}
    {render : Line → Except Fault (Option String)}
    (hsections : engine'.sections = engine.sections.map fun x => (x.1, (x.2.fire render).1))
    (hfired : ∀ x ∈ engine.sections, (x.2.fire render).2 = .ok ()) (hx : engine.program? = some x) :
    engine'.program? = some (x.fire render).1 ∧ (x.fire render).2 = .ok () := by
  unfold Engine.program? at hx ⊢
  obtain ⟨entry, hentry, rfl⟩ := Option.map_eq_some_iff.mp hx
  refine ⟨?_, hfired entry (mem_of_find?_eq_some hentry)⟩
  have hfind : (engine.sections.map fun x => (x.1, (x.2.fire render).1)).find?
      (fun x => x.1 == programSection) =
      (engine.sections.find? fun x => x.1 == programSection).map
        fun x => (x.1, (x.2.fire render).1) := by
    rw [find?_map]
    rfl
  rw [hsections, hfind, hentry]
  rfl

theorem Engine.exists_program {engine : Engine}
    (h : (engine.sections.any fun entry => entry.1 == programSection) = true) :
    ∃ x, engine.program? = some x := by
  have hfound := find?_isSome.mpr (any_eq_true.mp h)
  obtain ⟨x, hx⟩ := Option.isSome_iff_exists.mp hfound
  exact ⟨x.2, by rw [Engine.program?, hx]; rfl⟩

/-! ## Setting the size -/

def Session.sized (s : Session) (f : FrameId) (size : UInt32) : Session :=
  { s with tree := s.tree.setFrame f { s.tree.frame f with size := some size } }

namespace EngineId

variable {e : EngineId} {f : FrameId} {size : UInt32} {s s' : Session}

section

variable (hframe : (s.tree.scope (s.engine e).currentScope).frame = some f)
include hframe

theorem setStackSize_fires (h : e.setStackSize size s = .ok () s') :
    (Section.fireAll (s.sized f size).renderLine (s.engine e).sections).2 = .ok () ∧
      s' = { s.sized f size with
        engines := s.engines.modify e.index fun engine => { engine with
          sections :=
            (Section.fireAll (s.sized f size).renderLine (s.engine e).sections).1 } } := by
  obtain ⟨g, sections, hg, hfired, rfl⟩ := setStackSize_eq_ok h
  obtain rfl : f = g := Option.some.inj (hframe.symm.trans hg)
  rw [Session.sized, hfired]
  exact ⟨rfl, rfl⟩

theorem setStackSize_stackSafe
    (hlt : f.index < s.tree.frames.size) (hunset : (s.tree.frame f).size = none)
    (hle : 8 ≤ size.toNat) : StackSafe (s.LineFails e f) (e.setStackSize size) s := by
  refine .bind (requirePass_stackSafe _) fun _ s1 hpass => ?_
  obtain ⟨-, rfl⟩ := requirePass_eq_ok.mp hpass
  refine .bind (frame_stackSafe _) fun g s2 hgiven => ?_
  obtain ⟨-, hg, rfl⟩ := frame_eq_ok.mp hgiven
  obtain rfl : f = g := Option.some.inj (hframe.symm.trans hg)
  have hset : onTree (updateFrame f ((FrameM.setSize size).adaptExcept .error)) s2 =
      .ok () (s2.sized f size) := by
    apply onTree_eq_ok.mpr
    refine ⟨_, updateFrame_eq_ok.mpr ⟨_, FrameM.result_eq_ok.mpr ?_, rfl⟩, rfl⟩
    simp [EStateM.adaptExcept, FrameM.setSize_apply, hunset]
  refine .after hset (.after rfl (.after rfl (.ofFault fun fault hfault hstack => ?_)))
  have hsize : ((s2.sized f size).tree.frame f).size = some size := by
    show ((s2.tree.setFrame f _).frame f).size = some size
    rw [frame_setFrame, if_pos ⟨rfl, hlt⟩]
  have hother : ∀ g, g ≠ f → ((s2.sized f size).tree.frame g).size = (s2.tree.frame g).size := by
    intro g hne
    show ((s2.tree.setFrame f _).frame g).size = _
    rw [frame_setFrame, if_neg fun hand => hne hand.1]
  obtain ⟨x, hx, item, hitem, hline⟩ := Section.exists_render_of_fireAll hfault
  obtain ⟨symbol, hsymbol, hrender⟩ := Session.exists_render_of_renderLine hline
  obtain ⟨id, text, hdenoted, hfails⟩ :=
    Session.exists_failsAlone_of_render hsize hle hrender hstack
  have hsized : (s2.sized f size).LineFails e f :=
    ⟨x, hx, item, hitem, symbol, hsymbol, id, text, hdenoted, hfails⟩
  exact hsized.of_sizes rfl rfl hother

theorem exitLocal_stackSafe {excuse : Prop} (hpointer : (s.tree.frame f).pointer =
      -((s.tree.scope (s.engine e).currentScope).variableBytes.toNat : Int)) :
    StackSafe excuse e.exitLocal s := by
  refine .after rfl ?_
  unfold fail
  refine .check (fun _ => not_isStack_internal (by decide) (by decide)) fun _ => ?_
  rw [hframe]
  refine .after rfl (.check (fun hne => ?_) fun _ => leave_stackSafe)
  exact absurd hpointer hne

end

end EngineId

/-! ## The epilogue -/

/-- Bytes that are reserved belong to the scope that is open. -/
theorem Balanced.pad {f : FrameId} {own : ScopeId} {outer : List ScopeId} {visited : ScopeId → Prop}
    {bytes : UInt32} (h : Balanced e f own outer [own] visited s)
    (hallocate : e.allocate bytes s = .ok () s') :
    ∃ visited', Balanced e f own outer [own] visited' s' := by
  have hop : (FrameOp.reserve bytes).run e s = .ok () s' := hallocate
  obtain ⟨opened, visited', hbalanced⟩ := (h.frameOp hop).balanced
  have hscopes : (s'.engine e).scopes = (s.engine e).scopes := by
    obtain ⟨-, t, -, rfl⟩ := allocate_eq_ok.mp hallocate
    rfl
  rw [hbalanced.scopes, h.scopes] at hscopes
  obtain rfl : opened = [own] := append_cancel_right hscopes
  exact ⟨visited', hbalanced⟩

namespace Win64

variable {e : EngineId} {f : FrameId} {own : ScopeId} {outer : List ScopeId}
variable {visited : ScopeId → Prop} {size : UInt32} {s s' : Session}

def finish (e : EngineId) (size : UInt32) : CompileM Unit := do
  e.movePointer Frame.returnAddress
  e.setStackSize size
  e.exitLocal

/-- All lines that wait are written with the size of the frame. -/
theorem finish_fires (hframe : (s.tree.scope (s.engine e).currentScope).frame = some f)
    (h : finish e size s = .ok () s') :
    (s'.engine e).sections =
        (s.engine e).sections.map (fun x => (x.1, (x.2.fire s'.renderLine).1)) ∧
      ∀ x ∈ (s.engine e).sections, (x.2.fire s'.renderLine).2 = .ok () := by
  obtain ⟨_, s1, hmove, h1⟩ := bind_eq_ok.mp h
  obtain ⟨g, moved, -, hg, hpass, -, hs1⟩ := movePointer_eq_ok.mp hmove
  obtain rfl : f = g := Option.some.inj (hframe.symm.trans hg)
  have hengine : s1.engine e = s.engine e := by
    rw [hs1]
    rfl
  have hlt : e.index < s1.engines.size := by
    apply lt_of_currentPass
    rw [hengine, hpass]
    decide
  have hframe1 : (s1.tree.scope (s1.engine e).currentScope).frame = some f := by
    rw [hengine, hs1]
    exact hframe
  obtain ⟨_, s2, hsize, h2⟩ := bind_eq_ok.mp h1
  obtain ⟨hfired, hs2⟩ := setStackSize_fires hframe1 hsize
  obtain ⟨t, hrewind, hs'⟩ := exitLocal_eq_ok h2
  obtain ⟨-, ht⟩ := rewindBlocks_eq_ok.mp hrewind
  have hrenders : RendersAs (s1.sized f size) s' := by
    rw [hs', ht, hs2]
    exact ⟨rfl, rfl, rfl, rfl, fun _ => rfl⟩
  have hrender : (s1.sized f size).renderLine = s'.renderLine :=
    funext fun line => (hrenders.renderLine line).symm
  have hsections : (s'.engine e).sections =
      (Section.fireAll (s1.sized f size).renderLine (s1.engine e).sections).1 := by
    rw [hs', engine_closing]
    have hs2' : (s2.engine e).sections =
        (Section.fireAll (s1.sized f size).renderLine (s1.engine e).sections).1 := by
      rw [hs2]
      show (Session.engine { s1 with engines := s1.engines.modify e.index _ } e).sections = _
      rw [Session.engine_modify, if_pos ⟨rfl, hlt⟩]
    split <;> exact hs2'
  rw [hrender, hengine] at hfired hsections
  obtain ⟨hmap, hall⟩ := Section.fireAll_eq_ok hfired
  exact ⟨hsections.trans hmap, hall⟩

theorem finish_stackSafe (h : Balanced e f own outer [own] visited s) (hle : 8 ≤ size.toNat) :
    StackSafe (s.LineFails e f) (finish e size) s := by
  refine .bind (movePointer_stackSafe h.currentFrame h.unset _) fun _ s1 hmove => ?_
  obtain ⟨g, moved, -, hg, -, hmoved, hs1⟩ := movePointer_eq_ok.mp hmove
  obtain rfl : g = f := Option.some.inj (hg.symm.trans h.currentFrame)
  obtain ⟨-, hunset, hpointer, -, -, -⟩ := Frame.setPointer_eq_ok (Frame.move_eq_ok hmoved)
  have htree : s1.tree = s.tree.setFrame g moved := by rw [hs1]
  have hengine : s1.engine e = s.engine e := by
    rw [hs1]
    rfl
  have hplaceholders : s1.placeholders = s.placeholders := by rw [hs1]
  have hcurrent : (s1.engine e).currentScope = own := by rw [hengine, h.currentScope]
  have hframe : (s1.tree.scope (s1.engine e).currentScope).frame = some g := by
    rw [hengine, htree, scope_setFrame]
    exact hg
  have hlt : g.index < s1.tree.frames.size := by
    rw [htree]
    simpa [setFrame] using h.lt
  have hmovedFrame : s1.tree.frame g = moved := by
    rw [htree, frame_setFrame, if_pos ⟨rfl, h.lt⟩]
  have hsizes : ∀ other, other ≠ g → (s1.tree.frame other).size = (s.tree.frame other).size := by
    intro other hne
    rw [htree, frame_setFrame, if_neg fun hand => hne hand.1]
  have hset : StackSafe (s1.LineFails e g) (e.setStackSize size) s1 :=
    setStackSize_stackSafe hframe hlt (by rw [hmovedFrame]; exact hunset) hle
  refine .bind (hset.mono fun hfails => ?_) fun _ s2 hsize => ?_
  · exact hfails.of_sizes (by rw [hengine]) hplaceholders hsizes
  obtain ⟨-, hs2⟩ := setStackSize_fires hframe hsize
  have hscopes : (s2.engine e).currentScope = own := by
    rw [← hcurrent, hs2]
    show (Session.engine { s1 with engines := s1.engines.modify e.index _ } e).currentScope = _
    rw [Session.engine_modify]
    split <;> rfl
  have hscope : s2.tree.scope own = s.tree.scope own := by
    rw [hs2]
    show (s1.tree.setFrame g _).scope own = _
    rw [scope_setFrame, htree, scope_setFrame]
  have hfinal : (s2.tree.frame g).pointer = (s.tree.frame g).pointer + 8 := by
    rw [hs2]
    show ((s1.tree.setFrame g _).frame g).pointer = _
    rw [frame_setFrame, if_pos ⟨rfl, hlt⟩, hmovedFrame]
    exact hpointer
  -- The function's own scope holds all bytes between the pointer and the return address.
  have hheld := h.pointer
  rw [heldBytes_cons] at hheld
  have hnil : s.tree.heldBytes [] = 0 := rfl
  apply exitLocal_stackSafe
  · rw [hscopes, hscope]
    exact h.frame_eq
  · rw [hscopes, hscope, hfinal]
    omega

theorem allocate_keeps {bytes : UInt32}
    (hframe : (s.tree.scope (s.engine e).currentScope).frame = some f)
    (h : e.allocate bytes s = .ok () s') : s'.engine e = s.engine e ∧
      s'.placeholders = s.placeholders ∧
      ∀ g, g ≠ f → (s'.tree.frame g).size = (s.tree.frame g).size := by
  obtain ⟨-, t, ht, rfl⟩ := allocate_eq_ok.mp h
  obtain ⟨f', frame, total, hf', -, -, rfl⟩ := allocate_eq_ok ht
  obtain rfl : f' = f := Option.some.inj (hf'.symm.trans hframe)
  refine ⟨rfl, rfl, fun g hne => ?_⟩
  show ((s.tree.setFrame f' frame).frame g).size = _
  rw [frame_setFrame, if_neg fun hand => hne hand.1]

theorem epilogue_stackSafe (h : Balanced e f own outer [own] visited s) :
    StackSafe (s.LineFails e f) (epilogue e .generate) s := by
  unfold epilogue
  rw [if_pos rfl]
  refine .bind (.bind (frameState_stackSafe _) fun _ _ _ => .of_ok rfl) fun extent s1 hextent => ?_
  obtain ⟨frame, _, hstate, hreturn⟩ := bind_eq_ok.mp hextent
  obtain ⟨g, -, hg, rfl, rfl⟩ := frameState_eq_ok.mp hstate
  obtain rfl : g = f := Option.some.inj (hg.symm.trans h.currentFrame)
  obtain ⟨rfl, rfl⟩ := pure_eq_ok.mp hreturn
  refine .bind (.bind (frameState_stackSafe _) fun _ _ _ => .of_ok rfl) fun isLeaf s2 hleaf => ?_
  obtain rfl : s1 = s2 := (e.moves_isLeaf (R := Eq)).of_ok hleaf
  refine .after rfl ?_
  dsimp only
  split
  · exact finish_stackSafe h h.extent
  · refine .bind (allocate_stackSafe h.currentFrame h.unset _) fun _ s3 hallocate => ?_
    obtain ⟨visited', hpadded⟩ := h.pad hallocate
    obtain ⟨hengine, hplaceholders, hsizes⟩ := allocate_keeps h.currentFrame hallocate
    refine .bind (StackSafe.ofFault fun fault hsum hstack => ?_) fun size s4 hsum => ?_
    · exact absurd hstack (not_isStack_of_addBytes hsum)
    obtain ⟨hbytes, rfl⟩ := ofFault_eq_ok.mp hsum
    have htotal := addBytes_eq_ok_iff.mp hbytes
    have hcovered := h.extent
    refine (finish_stackSafe hpadded (by omega)).mono fun hfails => ?_
    exact hfails.of_sizes (by rw [hengine]) hplaceholders hsizes

theorem epilogue_fires (h : Balanced e f own outer [own] visited s)
    (hrun : epilogue e .generate s = .ok () s') :
    ∃ size, (s'.tree.frame f).size = some size ∧ 8 ≤ size.toNat ∧
      ((s.tree.frame f).isLeaf = false → 0 < s.settings.stackAlignment.toNat →
        size.toNat % s.settings.stackAlignment.toNat = 0) ∧
      (s'.engine e).sections =
        (s.engine e).sections.map (fun x => (x.1, (x.2.fire s'.renderLine).1)) ∧
      ∀ x ∈ (s.engine e).sections, (x.2.fire s'.renderLine).2 = .ok () := by
  obtain ⟨size, s1, hfinish, hpad, hcovers, haligned⟩ := epilogue_pads h.currentFrame hrun
  have hle := h.extent
  -- Padding leaves the sections as they are.
  have hpadded : (∃ visited', Balanced e f own outer [own] visited' s1) ∧
      s1.engine e = s.engine e := by
    rcases hpad with rfl | ⟨bytes, hallocate⟩
    · exact ⟨⟨visited, h⟩, rfl⟩
    · exact ⟨h.pad hallocate, (allocate_keeps h.currentFrame hallocate).1⟩
  obtain ⟨⟨visited', hbalanced⟩, hengine⟩ := hpadded
  obtain ⟨hsections, hfired⟩ := finish_fires hbalanced.currentFrame hfinish
  have hsize := (close_eq_ok hbalanced.lt hbalanced.currentFrame hfinish).1
  rw [hengine] at hsections hfired
  exact ⟨size, hsize, by omega, haligned, hsections, hfired⟩

end Win64

/-! ## Functions -/

/-- Opening a function, and whatever its body does on the frame, raises no error of the stack;
    neither does closing it, unless a waiting line names a text that fails by itself. The lines that
    take and give back the frame have the same amount, so that every run from the start to a return
    moves the stack pointer by nothing in total. The size of the frame is a multiple of the
    alignment if the body has a call. -/
theorem function_stack_balanced {r : Runner} {name : String} {declared : List (TypeRefId × String)}
    {s : Session} {own : ScopeId} {f : FrameId} (hwf : s.tree.WellFormed)
    (hunused : s.tree.Unused f) (hunset : (s.tree.frame f).size = none)
    (hscope : s.tree.functionScope? (s.engine r.engine).currentScope name = some own)
    (hframe : (s.tree.scope own).frame = some f) :
    StackSafe False (r.runAction .generate (.prologue name declared)) s ∧
    ∀ s₀, r.runAction .generate (.prologue name declared) s = .ok () s₀ →
    ∀ trace s₁, BodyRun r.engine f trace s₀ s₁ →
      (∀ op : FrameOp, (∀ site, op ≠ .call site) → StackSafe False (op.run r.engine) s₁) ∧
      ((s₁.engine r.engine).scopes = (s₀.engine r.engine).scopes →
        StackSafe (s₁.LineFails r.engine f) (r.runAction .generate .epilogue) s₁ ∧
        ∀ s', r.runAction .generate .epilogue s₁ = .ok () s' →
          ∃ (size : UInt32) (label : String) (body : List String) (x y : Section),
            (s'.tree.frame f).size = some size ∧ 8 ≤ size.toNat ∧
            (s.engine r.engine).program? = some x ∧ (s'.engine r.engine).program? = some y ∧
            y.backlog = [] ∧ y.buffer = x.announced s'.renderLine ++ Section.linesText
              (Win64.startTexts label (r.parametersOf name s).length ++
                adjustmentLines "sub" size ++ body) ∧
            BodyText size (∀ m ∈ trace, m.2.sparesPointer = true) (bodyReturns trace) body ∧
            ((∀ m ∈ trace, m.2.sparesPointer = true) → ∀ visited : List String,
              (∀ line ∈ visited, line ∈ body ∧ line ∉ adjustmentLines "add" size) →
              pointerShifts? (Win64.startTexts label (r.parametersOf name s).length ++
                adjustmentLines "sub" size ++ visited ++ adjustmentLines "add" size) = some 0) ∧
            ∀ t site, (t, BodyOp.call site) ∈ trace → 0 < s₁.settings.stackAlignment.toNat →
              size.toNat % s₁.settings.stackAlignment.toNat = 0) := by
  have hsafe : StackSafe False (Win64.prologue r .generate name declared) s :=
    Win64.prologue_stackSafe hscope hframe hunset
  refine ⟨hsafe, ?_⟩
  intro s₀ hprologue trace s₁ hbody
  have hop : Win64.prologue r .generate name declared s = .ok () s₀ := hprologue
  obtain ⟨houtput, label, number, first, hopens, hemits, -⟩ :=
    Win64.prologue_places hscope hframe hop
  have hopen := Balanced.prologue hwf hunused hscope hopens
  obtain ⟨⟨⟨opened, visited, hend⟩, -⟩, ⟨entries, hentries, hfeeds⟩, hcalls⟩ := hopen.run hbody id
  refine ⟨fun op hno => hend.frameOp_stackSafe hno, fun hclosed => ?_⟩
  rw [hend.scopes, hopen.scopes] at hclosed
  obtain rfl : opened = [own] := List.append_cancel_right hclosed
  refine ⟨Win64.epilogue_stackSafe hend, fun s' hepilogue => ?_⟩
  obtain ⟨size, hsize, hle, haligned, hsections, hfired⟩ := Win64.epilogue_fires hend hepilogue
  obtain ⟨x, hx⟩ := Engine.exists_program houtput
  have hprogram := (hemits.feeds.trans hfeeds).program? hx
  obtain ⟨hy, hok⟩ := Engine.program?_fired hsections hfired hprogram
  have hbodyText := hentries.texts hsize hle
  refine ⟨size, label, _, x, _, hsize, hle, hx, hy, rfl, ?_,
    hbodyText, fun hspares visited hvisited => ?_, fun t site hmem => haligned (hcalls t site hmem)⟩
  · rw [Section.fire_feed hok, Entry.texts_append, Win64.texts_prologueEntries hsize hle]
  · rw [eq_true hspares] at hbodyText
    exact hbodyText.balanced hle (Win64.pointerShift?_startTexts _ _) hvisited

def branchingBody : List BodyOp :=
  [.frame (.declare "x" (.sized .dword)), .frame .enter, .frame (.declare "y" (.block 12)),
    .frame .enter, .frame (.declare "z" (.sized .qword)), .call nestedCall, .ret none,
    .frame .leave, .frame .leave, .frame (.reserve 24), .frame .enter,
    .frame (.declare "y" (.sized .byte)), .frame .leave,
    .ret (some (.immediate .dword [.ofText "7"]))]

def branchingClosing : Session := leaves (BodyOp.runAll ⟨0⟩ branchingBody) nestedOpen

def branchingEnd : Session :=
  leaves ((runner ⟨0⟩ 0).runAction .generate .epilogue) branchingClosing

theorem function_stack_balanced_branching :
    nestedStart.tree.WellFormed ∧ nestedStart.tree.Unused ⟨0⟩ ∧
      BodyRun ⟨0⟩ ⟨0⟩ (BodyOp.traceAll ⟨0⟩ branchingBody nestedOpen) nestedOpen branchingClosing ∧
      ∃ (label : String) (body : List String) (y : Section),
        (branchingEnd.tree.frame ⟨0⟩).size = some 80 ∧
        (branchingEnd.engine ⟨0⟩).program? = some y ∧
        y.buffer = Section.linesText (Win64.startTexts label 2 ++ ["sub rsp, 72"] ++ body) ∧
        BodyText 80 True 2 body ∧ (∀ visited : List String,
          (∀ line ∈ visited, line ∈ body ∧ line ∉ ["add rsp, 72"]) →
          pointerShifts? (Win64.startTexts label 2 ++ ["sub rsp, 72"] ++ visited ++
            ["add rsp, 72"]) = some 0) ∧
        (80 : UInt32).toNat % 16 = 0 := by
  have hwf := reached_nestedStart.wellFormed
  have hbody : BodyOp.runAll ⟨0⟩ branchingBody nestedOpen = .ok () branchingClosing :=
    eq_ok_of_succeeds (by decide +kernel)
  have hepilogue : (EngineId.runner ⟨0⟩ 0).runAction .generate .epilogue branchingClosing =
      .ok () branchingEnd := eq_ok_of_succeeds (by decide +kernel)
  have hclosed : (branchingClosing.engine ⟨0⟩).scopes = (nestedOpen.engine ⟨0⟩).scopes := by
    decide +kernel
  have hrun := BodyRun.of_runAll ⟨0⟩ hbody
  obtain ⟨-, hall⟩ := function_stack_balanced (r := EngineId.runner ⟨0⟩ 0) hwf unused_nestedStart
    (by decide +kernel) scope_nestedStart (by decide +kernel)
  obtain ⟨-, hend⟩ := hall nestedOpen prologue_nestedStart _ _ hrun
  obtain ⟨-, hwritten⟩ := hend hclosed
  obtain ⟨size, label, body, x, y, hsize, hle, hx, hy, -, hbuffer, htext, hbalanced, haligned⟩ :=
    hwritten branchingEnd hepilogue
  have hspares : ∀ m ∈ BodyOp.traceAll ⟨0⟩ branchingBody nestedOpen, m.2.sparesPointer = true := by
    decide +kernel
  have hfinal : (branchingEnd.tree.frame ⟨0⟩).size = some 80 := by decide +kernel
  obtain rfl : size = 80 := Option.some.inj (hsize.symm.trans hfinal)
  have hcount : ((EngineId.runner ⟨0⟩ 0).parametersOf "f" nestedStart).length = 2 := by
    decide +kernel
  have hreturns : bodyReturns (BodyOp.traceAll ⟨0⟩ branchingBody nestedOpen) = 2 := by
    decide +kernel
  -- Nothing was written before the function.
  have hempty : x.announced branchingEnd.renderLine = "" := by
    have hfirst : (nestedStart.engine ⟨0⟩).program? = some { sink := ⟨0⟩ } := by decide +kernel
    obtain rfl : x = { sink := ⟨0⟩ } := Option.some.inj (hx.symm.trans hfirst)
    rfl
  have hcall := haligned _ nestedCall
    (.tail _ (.tail _ (.tail _ (.tail _ (.tail _ (.head _)))))) (by decide +kernel)
  have halignment : branchingClosing.settings.stackAlignment.toNat = 16 := by decide +kernel
  rw [hcount, hempty, String.empty_append] at hbuffer
  rw [hreturns, eq_true hspares] at htext
  rw [halignment] at hcall
  have hshifts := hbalanced hspares
  rw [hcount] at hshifts
  exact ⟨hwf, unused_nestedStart, hrun, label, body, y, hfinal, hy, hbuffer, htext, hshifts, hcall⟩

/-- A call that stores its result in the stack pointer. -/
def pointerCall : CallSite :=
  { nestedCall with arguments := [], targets := [.register (.general .rsp .qword)] }

def pointerEnd : Session :=
  leaves ((runner ⟨0⟩ 0).runAction .generate .epilogue)
    (leaves (BodyOp.runAll ⟨0⟩ [.call pointerCall, .ret none]) nestedOpen)

def pointerLines : List String :=
  ["L0__f:", "mov [rsp + 8], rcx", "mov [rsp + 16], rdx", "sub rsp, 40", "call g", "mov rsp, rax",
    "add rsp, 40", "ret"]

theorem pointer_lost_to_result :
    (pointerEnd.engine ⟨0⟩).program?.map Section.buffer = some (Section.linesText pointerLines) ∧
      pointerShifts? pointerLines = none := by decide +kernel

end StagedAsm
