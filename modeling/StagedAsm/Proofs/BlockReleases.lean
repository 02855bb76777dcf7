import Mathlib.Algebra.GroupWithZero.Nat
import StagedAsm.Proofs.GroundedSessions

/-!
# What a block gives back

A block counts the bytes that are taken in it, and gives all of them back when it is closed. The
count stays with the block, so bytes from an earlier visit are given back a second time: the pointer
ends above where it was by exactly as many.

Inside a block the sum of the pointer and the bytes of the block is where the pointer lands once the
block is closed. Nothing but an inner block with carried bytes changes this place.
-/

namespace StagedAsm

open EngineId ScopeTree

/-! ## Operations -/

/-- What is done in the blocks of a function. -/
inductive BlockOp where
  | declare (name : String) (type : ValueType)
  | place (name : String) (type : ValueType) (offset : Int)
  | reserve (bytes : UInt32)
  | enter
  | leave

namespace BlockOp

variable (e : EngineId)

def run : BlockOp → CompileM Unit
  | declare name type => e.declareVariable name type
  | place name type offset => e.declareExisting name type offset
  | reserve bytes => e.allocate bytes
  | enter => e.enterBlock
  | leave => e.exitBlock

def runAll : List BlockOp → CompileM Unit
  | [] => pure ()
  | op :: rest => do
    op.run e
    runAll rest

/-- The operation neither opens nor closes a block. -/
def stays : BlockOp → Bool
  | enter => false
  | leave => false
  | _ => true

/-- Each block that is opened is closed again, and no other is. -/
inductive Nested : List BlockOp → Prop where
  | nil : Nested []
  | stay {op : BlockOp} {rest : List BlockOp} (hop : op.stays = true) (hrest : Nested rest) :
      Nested (op :: rest)
  | block {body rest : List BlockOp} (hbody : Nested body) (hrest : Nested rest) :
      Nested (enter :: (body ++ leave :: rest))

/-- The bytes that a block just entered holds from before. -/
def carried (s : Session) : BlockOp → List Nat
  | enter => [(s.tree.scope (s.engine e).currentScope).variableBytes.toNat]
  | _ => []

def carriedAll : List BlockOp → Session → List Nat
  | [], _ => []
  | op :: rest, s =>
    op.carried e (leaves (op.run e) s) ++ carriedAll rest (leaves (op.run e) s)

variable {e} {s s' s₁ : Session} {op : BlockOp} {first second rest : List BlockOp}

theorem runAll_cons_eq_ok : runAll e (op :: rest) s = .ok () s' ↔
      ∃ s₁, op.run e s = .ok () s₁ ∧ runAll e rest s₁ = .ok () s' := by
  rw [runAll, bind_eq_ok]
  constructor
  · rintro ⟨⟨⟩, s₁, hop, hrest⟩
    exact ⟨s₁, hop, hrest⟩
  · rintro ⟨s₁, hop, hrest⟩
    exact ⟨⟨⟩, s₁, hop, hrest⟩

theorem runAll_append_eq_ok : runAll e (first ++ second) s = .ok () s' ↔
      ∃ s₁, runAll e first s = .ok () s₁ ∧ runAll e second s₁ = .ok () s' := by
  induction first generalizing s with
  | nil =>
    constructor
    · intro h
      exact ⟨s, rfl, h⟩
    · rintro ⟨s₁, hnil, h⟩
      obtain ⟨-, rfl⟩ := pure_eq_ok.mp hnil
      exact h
  | cons op rest ih =>
    rw [List.cons_append, runAll_cons_eq_ok]
    constructor
    · rintro ⟨s₁, hop, h⟩
      obtain ⟨s₂, hrest, hsecond⟩ := ih.mp h
      exact ⟨s₂, runAll_cons_eq_ok.mpr ⟨s₁, hop, hrest⟩, hsecond⟩
    · rintro ⟨s₂, h, hsecond⟩
      obtain ⟨s₁, hop, hrest⟩ := runAll_cons_eq_ok.mp h
      exact ⟨s₁, hop, ih.mpr ⟨s₂, hrest, hsecond⟩⟩

theorem moves_run {R : Session → Session → Prop} [AdmitsDeeds e R] (op : BlockOp) :
    Moves R (op.run e) := by
  cases op with
  | declare name type => exact e.moves_declareVariable name type
  | place name type offset => exact e.moves_declareExisting name type offset
  | reserve bytes => exact e.moves_allocate bytes
  | enter => exact e.moves_enterBlock
  | leave => exact e.moves_exitBlock

theorem grounded (op : BlockOp) (h : op.run e s = .ok () s') (hs : s.Grounded) : s'.Grounded :=
  ((op.moves_run (R := Travels)).of_ok h hs).1

theorem carriedAll_cons (hop : op.run e s = .ok () s₁) :
    carriedAll e (op :: rest) s = op.carried e s₁ ++ carriedAll e rest s₁ := by
  rw [carriedAll, leaves_of_ok hop]

theorem carriedAll_append (hfirst : runAll e first s = .ok () s₁) :
    carriedAll e (first ++ second) s = carriedAll e first s ++ carriedAll e second s₁ := by
  induction first generalizing s with
  | nil =>
    obtain ⟨-, rfl⟩ := pure_eq_ok.mp hfirst
    rfl
  | cons op rest ih =>
    obtain ⟨s₂, hop, hrest⟩ := runAll_cons_eq_ok.mp hfirst
    rw [List.cons_append, carriedAll_cons hop, carriedAll_cons hop, ih hrest, List.append_assoc]

end BlockOp

/-! ## Inside a function -/

/-- An engine is inside a function, and all scopes are as they should be. -/
structure OnFrame (e : EngineId) (f : FrameId) (s : Session) : Prop where
  grounded : s.Grounded
  isLocal : s.tree.isLocal (s.engine e).currentScope = true
  frame : (s.tree.scope (s.engine e).currentScope).frame = some f
  lt : f.index < s.tree.frames.size

/-- Where the pointer lands if the innermost scope is closed. -/
def EngineId.landing (e : EngineId) (f : FrameId) (s : Session) : Int :=
  (s.tree.frame f).pointer + (s.tree.scope (s.engine e).currentScope).variableBytes.toNat

structure Outcome (e : EngineId) (f : FrameId) (carried : Nat) (s s' : Session) : Prop where
  onFrame : OnFrame e f s'
  keeps : s.tree.Keeps s'.tree
  scopes : (s'.engine e).scopes = (s.engine e).scopes
  older : ∀ id : ScopeId, id.index < (s.engine e).currentScope.index →
    (s'.tree.scope id).variableBytes = (s.tree.scope id).variableBytes
  landing : e.landing f s' = e.landing f s + carried

namespace OnFrame

variable {e : EngineId} {f : FrameId} {s s' : Session}

theorem scopes_eq (h : OnFrame e f s) :
    (s.engine e).scopes = (s.engine e).currentScope :: (s.engine e).scopes.tail := by
  cases hscopes : (s.engine e).scopes with
  | nil =>
    have hroot : (s.engine e).currentScope = root := by
      rw [Engine.currentScope, hscopes]
      rfl
    have hlocal := h.isLocal
    rw [hroot, h.grounded.tree.root_global] at hlocal
    cases hlocal
  | cons id rest =>
    rw [Engine.currentScope, hscopes]
    rfl

theorem of_keeps (h : OnFrame e f s) (hgrounded : s'.Grounded) (hkeeps : s.tree.Keeps s'.tree)
    (hscopes : (s'.engine e).scopes = (s.engine e).scopes)
    (hlt : f.index < s'.tree.frames.size) : OnFrame e f s' := by
  have hcurrent : (s'.engine e).currentScope = (s.engine e).currentScope := by
    rw [Engine.currentScope, Engine.currentScope, hscopes]
  have hplace := hkeeps.place _ (h.grounded.current_lt e)
  simp only [Scope.place, Prod.mk.injEq] at hplace
  refine ⟨hgrounded, ?_, ?_, hlt⟩
  · rw [hcurrent, ScopeTree.isLocal, Scope.isLocal, hplace.2.1]
    exact h.isLocal
  · rw [hcurrent]
    exact hkeeps.frame h.frame

theorem take (h : OnFrame e f s) {tree : ScopeTree} {frame : Frame} {g : Scope → Scope}
    (htree : tree = (s.tree.setFrame f frame).modifyScope (s.engine e).currentScope g)
    (hgrounded : ({ s with tree } : Session).Grounded) (hkeeps : s.tree.Keeps tree)
    (htaken : frame.pointer + (g (s.tree.scope (s.engine e).currentScope)).variableBytes.toNat =
      e.landing f s) : Outcome e f 0 s { s with tree } := by
  have hframe : tree.frame f = frame := by rw [htree, frame_change h.lt]
  have hscope : ∀ id, tree.scope id = if id = (s.engine e).currentScope then
      g (s.tree.scope (s.engine e).currentScope) else s.tree.scope id := by
    intro id
    rw [htree, scope_change (h.grounded.current_lt e)]
  have hframes : tree.frames.size = s.tree.frames.size := by
    rw [htree]
    exact Array.size_setIfInBounds
  refine ⟨h.of_keeps hgrounded hkeeps rfl (hframes ▸ h.lt), hkeeps, rfl, fun id hid => ?_, ?_⟩
  · have hne : id ≠ (s.engine e).currentScope := by
      rintro rfl
      exact Nat.lt_irrefl _ hid
    show (tree.scope id).variableBytes = _
    rw [hscope, if_neg hne]
  · show (tree.frame f).pointer +
      ((tree.scope (s.engine e).currentScope).variableBytes.toNat : Int) = _
    rw [hframe, hscope, if_pos rfl, htaken]
    simp

end OnFrame

/-! ## Steps -/

namespace Outcome

variable {e : EngineId} {f : FrameId} {s s' s'' : Session} {n k : Nat}

theorem refl (h : OnFrame e f s) : Outcome e f 0 s s :=
  ⟨h, refl_of ScopeTree.Keeps _, rfl, fun _ _ => rfl, by simp⟩

theorem currentScope (h : Outcome e f n s s') :
    (s'.engine e).currentScope = (s.engine e).currentScope := by
  rw [Engine.currentScope, Engine.currentScope, h.scopes]

theorem trans (h : Outcome e f n s s') (h' : Outcome e f k s' s'') : Outcome e f (n + k) s s'' where
  onFrame := h'.onFrame
  keeps := trans_of ScopeTree.Keeps h.keeps h'.keeps
  scopes := h'.scopes.trans h.scopes
  older id hid := (h'.older id (by rw [h.currentScope]; exact hid)).trans (h.older id hid)
  landing := by
    rw [h'.landing, h.landing]
    omega

theorem stay (hs : OnFrame e f s) {op : BlockOp} (hop : op.stays = true)
    (h : op.run e s = .ok () s') : Outcome e f 0 s s' := by
  have hgrounded := op.grounded h hs.grounded
  cases op with
  | declare name type =>
    obtain ⟨-, tree, hdeclare, rfl⟩ := EngineId.declareVariable_eq_ok.mp h
    have hkeeps := (within_declareVariable (R := Keeps) _ name type).of_ok hdeclare
    obtain ⟨f', frame, total, hf', -, -, hset, htotal, htree⟩ :=
      declareVariable_eq_ok hdeclare
    obtain rfl : f' = f := Option.some.inj (hf'.symm.trans hs.frame)
    have hpointer := (Frame.setPointer_eq_ok hset).2.2.1
    refine hs.take htree hgrounded hkeeps ?_
    rw [hpointer, EngineId.landing]
    dsimp only
    omega
  | place name type offset =>
    obtain ⟨-, tree, hdeclare, rfl⟩ := EngineId.declareExisting_eq_ok.mp h
    have hkeeps := (within_declareExisting (R := Keeps) _ name type offset).of_ok hdeclare
    obtain ⟨f', hf', -, -, htree⟩ := declareExisting_eq_ok hdeclare
    obtain rfl : f' = f := Option.some.inj (hf'.symm.trans hs.frame)
    -- the frame stays as it is
    rw [← setFrame_frame s.tree _] at htree
    exact hs.take htree hgrounded hkeeps rfl
  | reserve bytes =>
    obtain ⟨-, tree, hreserve, rfl⟩ := EngineId.allocate_eq_ok.mp h
    have hkeeps := (within_allocate (R := Keeps) _ bytes).of_ok hreserve
    obtain ⟨f', frame, total, hf', hset, htotal, htree⟩ := allocate_eq_ok hreserve
    obtain rfl : f' = f := Option.some.inj (hf'.symm.trans hs.frame)
    have hpointer := (Frame.setPointer_eq_ok hset).2.2.1
    refine hs.take htree hgrounded hkeeps ?_
    rw [hpointer, EngineId.landing]
    dsimp only
    omega
  | enter => cases hop
  | leave => cases hop

end Outcome

/-! ## Blocks -/

namespace ScopeTree

variable {t t' : ScopeTree} {id block : ScopeId}

theorem nextBlock_bytes (hid : id.index < t.size) (h : nextBlock id t = .ok block t') :
    t'.frames = t.frames ∧
      ∀ other, (t'.scope other).variableBytes = (t.scope other).variableBytes := by
  rcases nextBlock_eq_ok.mp h with ⟨-, rfl⟩ | ⟨-, -, -, rfl⟩
  · refine ⟨rfl, fun other => ?_⟩
    rw [scope_modifyScope_of_lt hid]
    split
    · rename_i heq
      rw [heq]
    · rfl
  · refine ⟨rfl, fun other => ?_⟩
    rw [scope_withBlock hid]
    split
    · rename_i heq
      rw [heq]
    · split
      · rename_i hnew
        rw [hnew, scope_size]
        rfl
      · rfl

theorem nextBlock_place (ht : t.Grounded) (hid : id.index < t.size)
    (h : nextBlock id t = .ok block t') : id.index < block.index ∧
      t'.isLocal block = t.isLocal id ∧ (t'.scope block).frame = (t.scope id).frame := by
  have hgrounded := ht.nextBlock hid h
  have hkeeps := (moves_nextBlock id).of_ok h
  obtain ⟨blocks, hwalk, -, hblock, -⟩ := nextBlock_walk hid (ht.cursor_le id) h
  have hblocks : (t'.scope id).blocks = blocks := congrArg (·.1) hwalk
  rw [← hblocks] at hblock
  have hplace := hkeeps.place id hid
  simp only [Scope.place, Prod.mk.injEq] at hplace
  refine ⟨hgrounded.ordered ?_, ?_, ?_⟩
  · rw [parent?, hgrounded.wellFormed.block_origin hblock]
    rfl
  · rw [isLocal, isLocal, Scope.isLocal, Scope.isLocal, hgrounded.wellFormed.block_kind hblock,
      hplace.2.1]
  · rw [hgrounded.wellFormed.block_frame hblock, hplace.2.2.2]

end ScopeTree

namespace OnFrame

variable {e : EngineId} {f : FrameId} {s s' : Session}

theorem enter (hs : OnFrame e f s) (h : e.enterBlock s = .ok () s') :
    OnFrame e f s' ∧ s.tree.Keeps s'.tree ∧
      (s'.engine e).scopes = (s'.engine e).currentScope :: (s.engine e).scopes ∧
      (s.engine e).currentScope.index < (s'.engine e).currentScope.index ∧
      (s'.tree.frame f).pointer = (s.tree.frame f).pointer ∧
      ∀ id, (s'.tree.scope id).variableBytes = (s.tree.scope id).variableBytes := by
  have hgrounded := BlockOp.grounded .enter h hs.grounded
  obtain ⟨block, tree, hnext, rfl⟩ := enterBlock_eq_ok.mp h
  have hlt : e.index < s.engines.size := lt_of_scopes hs.scopes_eq
  have hscopes : ((e.opening .enterBlock block { s with tree }).engine e).scopes =
      block :: (s.engine e).scopes := scopes_opening (s := { s with tree }) hlt block
  have hcurrent :
      ((e.opening .enterBlock block { s with tree }).engine e).currentScope = block := by
    rw [Engine.currentScope, hscopes]
    rfl
  have hinside := hs.grounded.current_lt e
  obtain ⟨hframes, hbytes⟩ := ScopeTree.nextBlock_bytes hinside hnext
  obtain ⟨hyounger, hlocal, hframe⟩ := ScopeTree.nextBlock_place hs.grounded.tree hinside hnext
  refine ⟨⟨hgrounded, ?_, ?_, ?_⟩, ((ScopeTree.moves_nextBlock _).of_ok hnext).visited _, ?_,
    ?_, ?_, hbytes⟩
  · rw [hcurrent]
    exact hlocal.trans hs.isLocal
  · rw [hcurrent]
    exact hframe.trans hs.frame
  · show f.index < tree.frames.size
    rw [hframes]
    exact hs.lt
  · rw [hcurrent]
    exact hscopes
  · rw [hcurrent]
    exact hyounger
  · show (tree.frame f).pointer = _
    rw [ScopeTree.frame, hframes, ScopeTree.frame]

theorem leave (hs : OnFrame e f s) (h : e.exitBlock s = .ok () s') :
    s'.Grounded ∧ s.tree.Keeps s'.tree ∧ s'.tree.frames.size = s.tree.frames.size ∧
      (s'.engine e).scopes = (s.engine e).scopes.tail ∧
      (s'.tree.frame f).pointer = e.landing f s ∧
      ∀ id, (s'.tree.scope id).variableBytes = (s.tree.scope id).variableBytes := by
  have hgrounded := BlockOp.grounded .leave h hs.grounded
  obtain ⟨-, frame, hpointer, -, -, -, rfl⟩ := exitBlock_releases hs.frame hs.lt h
  have hkeeps := keeps_setFrame s.tree f frame
  have hframe := frame_change hs.lt frame (s.engine e).currentScope fun scope =>
    { scope with cursor := 0, canGrow := false }
  refine ⟨hgrounded, (trans_of ScopeTree.Keeps hkeeps
    (keeps_modifyScope (fun _ _ hs => hs) rfl)).visited _, Array.size_setIfInBounds,
    scopes_closing, ?_, fun id => ?_⟩
  · exact (congrArg Frame.pointer hframe).trans hpointer
  · refine (congrArg Scope.variableBytes
      (scope_change (hs.grounded.current_lt e) f frame _ id)).trans ?_
    split
    · rename_i hid
      rw [hid]
    · rfl

end OnFrame

/-! ## Runs -/

namespace Outcome

variable {e : EngineId} {f : FrameId} {s s' s₁ s₂ : Session} {n : Nat}

theorem block (hs : OnFrame e f s) (henter : e.enterBlock s = .ok () s₁) (h : Outcome e f n s₁ s₂)
    (hleave : e.exitBlock s₂ = .ok () s') {bytes : Nat}
    (hbytes : (s₁.tree.scope (s₁.engine e).currentScope).variableBytes.toNat = bytes) :
    Outcome e f (bytes + n) s s' ∧
      (s'.tree.frame f).pointer = (s.tree.frame f).pointer + (bytes + n : Nat) := by
  obtain ⟨-, hkeeps1, hscopes1, hyounger, hpointer1, hbytes1⟩ := hs.enter henter
  obtain ⟨hgrounded, hkeeps, hframes, hscopes, hpointer, hbytes'⟩ := h.onFrame.leave hleave
  have hkept : s.tree.Keeps s'.tree :=
    trans_of ScopeTree.Keeps hkeeps1 (trans_of ScopeTree.Keeps h.keeps hkeeps)
  have hopen : (s'.engine e).scopes = (s.engine e).scopes := by
    rw [hscopes, h.scopes, hscopes1]
    rfl
  have hcurrent : (s'.engine e).currentScope = (s.engine e).currentScope := by
    rw [Engine.currentScope, Engine.currentScope, hopen]
  -- the scopes around the block are older than it, so what they hold does not change
  have hheld : ∀ id : ScopeId, id.index < (s₁.engine e).currentScope.index →
      (s'.tree.scope id).variableBytes = (s.tree.scope id).variableBytes := by
    intro id hid
    rw [hbytes', h.older id hid, hbytes1]
  have hlanded : (s'.tree.frame f).pointer = (s.tree.frame f).pointer + (bytes + n : Nat) := by
    rw [hpointer, h.landing, EngineId.landing, hpointer1, hbytes]
    omega
  have hinside : OnFrame e f s' := hs.of_keeps hgrounded hkept hopen (hframes ▸ h.onFrame.lt)
  refine ⟨⟨hinside, hkept, hopen, fun id hid => hheld id (by omega), ?_⟩, hlanded⟩
  rw [EngineId.landing, EngineId.landing, hlanded, hcurrent, hheld _ hyounger]
  omega

theorem run {ops : List BlockOp} (hnested : BlockOp.Nested ops) (hs : OnFrame e f s)
    (h : BlockOp.runAll e ops s = .ok () s') :
    Outcome e f (BlockOp.carriedAll e ops s).sum s s' := by
  induction hnested generalizing s s' with
  | nil =>
    obtain ⟨-, rfl⟩ := pure_eq_ok.mp h
    exact .refl hs
  | @stay op rest hop _ ih =>
    obtain ⟨s₁, hrun, hrest⟩ := BlockOp.runAll_cons_eq_ok.mp h
    have hstay := Outcome.stay hs hop hrun
    have hnone : op.carried e s₁ = [] := by
      cases op with
      | enter => cases hop
      | _ => rfl
    rw [BlockOp.carriedAll_cons hrun, hnone, List.nil_append]
    have hall := hstay.trans (ih hstay.onFrame hrest)
    rwa [zero_add] at hall
  | @block body rest _ _ ihbody ihrest =>
    obtain ⟨s₁, henter, hinner⟩ := BlockOp.runAll_cons_eq_ok.mp h
    obtain ⟨s₂, hbody, hclosing⟩ := BlockOp.runAll_append_eq_ok.mp hinner
    obtain ⟨s3, hleave, hrest⟩ := BlockOp.runAll_cons_eq_ok.mp hclosing
    have hblock := (Outcome.block hs henter (ihbody (hs.enter henter).1 hbody) hleave rfl).1
    have hall := hblock.trans (ihrest hblock.onFrame hrest)
    rw [BlockOp.carriedAll_cons henter, BlockOp.carriedAll_append hbody,
      BlockOp.carriedAll_cons hleave]
    simpa [BlockOp.carried, add_assoc] using hall

end Outcome

/-- When a block is closed, the pointer is above where it was when the block was entered by the
    bytes that the block and the blocks entered inside it held from before. It is where it was
    exactly if none of them held any. -/
theorem pointer_after_block {e : EngineId} {f : FrameId} {s s' : Session} {body : List BlockOp}
    (hs : OnFrame e f s) (hbody : BlockOp.Nested body)
    (h : BlockOp.runAll e (.enter :: (body ++ [.leave])) s = .ok () s') :
    (s'.engine e).scopes = (s.engine e).scopes ∧
    (s'.tree.frame f).pointer = (s.tree.frame f).pointer +
      (BlockOp.carriedAll e (.enter :: (body ++ [.leave])) s).sum ∧
    ((s'.tree.frame f).pointer = (s.tree.frame f).pointer ↔
      ∀ bytes ∈ BlockOp.carriedAll e (.enter :: (body ++ [.leave])) s, bytes = 0) := by
  obtain ⟨s₁, henter, hinner⟩ := BlockOp.runAll_cons_eq_ok.mp h
  obtain ⟨s₂, hrun, hclosing⟩ := BlockOp.runAll_append_eq_ok.mp hinner
  obtain ⟨s₃, hleave, hnone⟩ := BlockOp.runAll_cons_eq_ok.mp hclosing
  obtain ⟨-, rfl⟩ := pure_eq_ok.mp hnone
  obtain ⟨hblock, hpointer⟩ :=
    Outcome.block hs henter (Outcome.run hbody (hs.enter henter).1 hrun) hleave rfl
  have hsum : (BlockOp.carriedAll e (.enter :: (body ++ [.leave])) s).sum =
      (s₁.tree.scope (s₁.engine e).currentScope).variableBytes.toNat +
        (BlockOp.carriedAll e body s₁).sum := by
    rw [BlockOp.carriedAll_cons henter, BlockOp.carriedAll_append hrun,
      BlockOp.carriedAll_cons hleave]
    simp [BlockOp.carried, BlockOp.carriedAll]
  rw [← hsum] at hpointer
  refine ⟨hblock.scopes, hpointer, ?_⟩
  rw [hpointer, ← List.sum_eq_zero_iff_forall_eq_nat]
  omega

/-- A block that takes twelve bytes, four of them in a block inside it. -/
def twiceBody : List BlockOp := [.reserve 8, .enter, .reserve 4, .leave]

theorem nested_twiceBody : BlockOp.Nested twiceBody := .stay rfl (.block (.stay rfl .nil) .nil)

/-- The function was entered for the first time. -/
def onceOpen : Session :=
  leaves (enterLocal ⟨0⟩ "f") (leaves (startEngine defaultSections) {})

/-- It was left, with the block closed, and entered again. -/
def twiceOpen : Session :=
  leaves (do exitLocal ⟨0⟩; enterLocal ⟨0⟩ "f")
    (leaves (BlockOp.runAll ⟨0⟩ (.enter :: (twiceBody ++ [.leave]))) onceOpen)

/-- The block was run through once more. -/
def twiceClosed : Session :=
  leaves (BlockOp.runAll ⟨0⟩ (.enter :: (twiceBody ++ [.leave]))) twiceOpen

theorem onFrame_twiceOpen : OnFrame ⟨0⟩ ⟨0⟩ twiceOpen := by
  have hstart : (leaves (startEngine defaultSections) {}).Grounded :=
    (Session.Grounded.new {}).start (rfl : startEngine defaultSections {} = _)
  have honce : OnFrame ⟨0⟩ ⟨0⟩ onceOpen :=
    ⟨(moves_enterLocal (R := Travels) ⟨0⟩ "f" _ hstart).1, by decide +kernel,
      by decide +kernel, by decide +kernel⟩
  have hrun : BlockOp.runAll ⟨0⟩ (.enter :: (twiceBody ++ [.leave])) onceOpen = .ok () _ :=
    eq_ok_of_succeeds (by decide +kernel)
  have hvisited := (Outcome.run (.block nested_twiceBody .nil) honce hrun).onFrame.grounded
  have hmoves : Moves Travels (do exitLocal ⟨0⟩; enterLocal ⟨0⟩ "f") :=
    .bind (moves_exitLocal ⟨0⟩) fun _ => moves_enterLocal ⟨0⟩ "f"
  exact ⟨(hmoves _ hvisited).1, by decide +kernel, by decide +kernel, by decide +kernel⟩

theorem pointer_after_block_twice : OnFrame ⟨0⟩ ⟨0⟩ twiceOpen ∧ BlockOp.Nested twiceBody ∧
    BlockOp.runAll ⟨0⟩ (.enter :: (twiceBody ++ [.leave])) twiceOpen = .ok () twiceClosed ∧
    (twiceOpen.tree.frame ⟨0⟩).pointer = 0 ∧ (twiceClosed.tree.frame ⟨0⟩).pointer = 12 := by
  have hrun : BlockOp.runAll ⟨0⟩ (.enter :: (twiceBody ++ [.leave])) twiceOpen =
    .ok () twiceClosed :=
    eq_ok_of_succeeds (by decide +kernel)
  have hcarried :
      BlockOp.carriedAll ⟨0⟩ (.enter :: (twiceBody ++ [.leave])) twiceOpen = [8, 4] := by
    decide +kernel
  have hzero : (twiceOpen.tree.frame ⟨0⟩).pointer = 0 := by decide +kernel
  obtain ⟨-, hpointer, -⟩ := pointer_after_block onFrame_twiceOpen nested_twiceBody hrun
  rw [hcarried, hzero] at hpointer
  exact ⟨onFrame_twiceOpen, nested_twiceBody, hrun, hzero, hpointer⟩

end StagedAsm
