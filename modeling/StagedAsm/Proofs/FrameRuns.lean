import StagedAsm.Proofs.CommandMoves
import StagedAsm.Proofs.ScopeOperations

/-!
# Runs on a frame

The body of a function declares variables, reserves bytes, opens and closes blocks and calls other
functions, and does things in between that leave its frame alone. A block is entered at most once
while the function is open, so nothing was declared in an open scope before.
-/

namespace StagedAsm

open ScopeTree

/-! ## Operations on a frame -/

/-- An operation that takes stack or gives it back, or notes that the function calls another. -/
inductive FrameOp where
  | declare (name : String) (type : ValueType)
  | reserve (bytes : UInt32)
  | enter
  | leave
  | call (site : CallSite)
  | noteCall

namespace FrameOp

def run (e : EngineId) : FrameOp → CompileM Unit
  | declare name type => e.declareVariable name type
  | reserve bytes => e.allocate bytes
  | enter => e.enterBlock
  | leave => e.exitBlock
  | call site => Win64.call e site
  | noteCall => e.declareCall

/-- A call moves the pointer only while it is made. -/
def reach : FrameOp → Int
  | declare _ type => type.bytes.toNat
  | reserve bytes => bytes.toNat
  | enter => 0
  | leave => 0
  | call site => Win64.argumentArea site.arguments.length
  | noteCall => 0

end FrameOp

/-! ## What is left alone -/

/-- Alike in everything that concerns a frame. -/
structure Scope.Agrees (f : FrameId) (a b : Scope) : Prop where
  shape : a.shape = b.shape
  cursor : a.cursor = b.cursor
  variableBytes : a.variableBytes = b.variableBytes
  slots : ∀ name offset type, a.members.get? name = some (.slot f offset type) ↔
    b.members.get? name = some (.slot f offset type)

/-- Neither the frame nor the scopes that an engine has open. -/
structure LeavesAlone (e : EngineId) (f : FrameId) (s s' : Session) : Prop where
  scopes : (s'.engine e).scopes = (s.engine e).scopes
  wellFormed : s.tree.WellFormed → s'.tree.WellFormed
  size : s.tree.size ≤ s'.tree.size
  frames : s.tree.frames.size ≤ s'.tree.frames.size
  frame : s'.tree.frame f = s.tree.frame f
  own : ∀ id, (s.tree.scope id).frame = some f ∨ (s'.tree.scope id).frame = some f →
    (s'.tree.scope id).Agrees f (s.tree.scope id)

variable {e : EngineId} {s s' : Session}

theorem EngineId.lt_of_currentPass (h : (s.engine e).currentPass ≠ .declare) :
    e.index < s.engines.size := by
  apply Decidable.byContradiction
  intro hge
  rw [Session.engine_of_size_le (Nat.le_of_not_lt hge)] at h
  exact h rfl

/-- What writing text does to a session, as far as scopes go. -/
structure Written (e : EngineId) (s s' : Session) : Prop where
  tree : s'.tree = s.tree
  scopes : (s'.engine e).scopes = (s.engine e).scopes
  pass : (s'.engine e).currentPass = (s.engine e).currentPass

namespace Written

variable {e : EngineId}

instance : IsPreorder Session (Written e) where
  refl _ := ⟨rfl, rfl, rfl⟩
  trans _ _ _ h h' := ⟨h'.tree.trans h.tree, h'.scopes.trans h.scopes, h'.pass.trans h.pass⟩

instance : AdmitsOutput e (Written e) where
  silent {s s'} h := by
    have hstanding := h.standing
    simp only [Session.standing, Prod.mk.injEq] at hstanding
    obtain ⟨htree, -, -, hengines, -⟩ := hstanding
    have hengine : s'.engine e = s.engine e := by simp only [Session.engine, hengines]
    exact ⟨htree, by rw [hengine], by rw [hengine]⟩
  output {s} _ f _ := by
    have hengine := s.engine_modify e e fun engine => { engine with sections := f engine.sections }
    refine ⟨rfl, ?_, ?_⟩
    · rw [hengine]
      split <;> rfl
    · rw [hengine]
      split <;> rfl

theorem leavesAlone (h : Written e s s') (f : FrameId) : LeavesAlone e f s s' where
  scopes := h.scopes
  wellFormed := h.tree ▸ id
  size := h.tree ▸ .refl
  frames := h.tree ▸ .refl
  frame := by rw [h.tree]
  own id _ := h.tree ▸ ⟨rfl, rfl, rfl, fun _ _ _ => Iff.rfl⟩

end Written

theorem Win64.call_eq_ok {site : CallSite} {f : FrameId}
    (hframe : (s.tree.scope (s.engine e).currentScope).frame = some f)
    (hlt : f.index < s.tree.frames.size) (h : Win64.call e site s = .ok () s') :
    ∃ low frame, (s.tree.frame f).setPointer ((s.tree.frame f).pointer -
        argumentArea site.arguments.length) = .ok low ∧
      low.setPointer (s.tree.frame f).pointer = .ok frame ∧ s'.tree = s.tree.setFrame f frame ∧
      (s'.engine e).scopes = (s.engine e).scopes := by
  unfold Win64.call at h
  obtain ⟨target, s1, htarget, h1⟩ := bind_eq_ok.mp h
  obtain rfl : s = s1 := (Moves.ofExcept (R := Eq) _).of_ok htarget
  obtain ⟨_, s2, hdown, h2⟩ := bind_eq_ok.mp h1
  obtain ⟨f', low, -, hf', -, hlow, rfl⟩ := EngineId.movePointer_eq_ok.mp hdown
  obtain rfl : f' = f := Option.some.inj (hf'.symm.trans hframe)
  have hpointer := (Frame.setPointer_eq_ok (Frame.move_eq_ok hlow)).2.2.1
  obtain ⟨_, s3, hw, h3⟩ := (Win64.moves_storeDirect e _).next (refl_of (Written e) _) h2
  obtain ⟨_, s4, hw, h4⟩ := (Moves.ofExcept _).next hw h3
  obtain ⟨_, s5, hw, h5⟩ := (Moves.ofExcept _).next hw h4
  obtain ⟨_, s6, hw, h6⟩ := (Win64.moves_emitTexts e _).next hw h5
  obtain ⟨_, s7, hw, h7⟩ := (Win64.moves_loadLines _).next hw h6
  obtain ⟨_, s8, hw, h8⟩ := (Win64.moves_spillLines _).next hw h7
  obtain ⟨_, s9, hw, h9⟩ := (Win64.moves_emitLines e _).next hw h8
  obtain ⟨_, s10, hw, h10⟩ := (e.moves_emit _ _).next hw h9
  -- The second move finds the frame as the first one left it.
  have htree : s10.tree = s.tree.setFrame f' low := hw.tree
  have hscope : (s10.engine e).currentScope = (s.engine e).currentScope := by
    simp only [Engine.currentScope, hw.scopes]
    rfl
  obtain ⟨_, s11, hup, h11⟩ := bind_eq_ok.mp h10
  obtain ⟨f'', frame, -, hf'', -, hmove, rfl⟩ := EngineId.movePointer_eq_ok.mp hup
  rw [hscope, htree, scope_setFrame] at hf''
  obtain rfl : f'' = f' := Option.some.inj (hf''.symm.trans hf')
  have hfound : s10.tree.frame f'' = low := by
    rw [htree, frame_setFrame, if_pos ⟨rfl, hlt⟩]
  have hresult : Written e { s10 with tree := s10.tree.setFrame f'' frame } s' := by
    cases target with
    | none => exact (Moves.pure _).of_ok h11
    | some target => exact (Win64.moves_storeResult e _).of_ok h11
  have hback := Frame.move_eq_ok hmove
  rw [hfound, hpointer] at hback
  refine ⟨low, frame, ?_, ?_, ?_, ?_⟩
  · exact Frame.move_eq_ok hlow
  · have hsum : (s.tree.frame f'').pointer + -argumentArea site.arguments.length +
        argumentArea site.arguments.length = (s.tree.frame f'').pointer := by omega
    rw [hsum] at hback
    exact hback
  · rw [hresult.tree]
    dsimp only
    rw [htree, setFrame_setFrame]
  · rw [hresult.scopes]
    exact hw.scopes

/-! ## Runs -/

inductive FrameRun (e : EngineId) (f : FrameId) : List (Session × FrameOp) → Session → Session →
    Prop where
  | done {s s' : Session} (h : LeavesAlone e f s s') : FrameRun e f [] s s'
  | step {s s1 s2 s' : Session} {op : FrameOp} {trace : List (Session × FrameOp)}
      (hbefore : LeavesAlone e f s s1) (hop : op.run e s1 = .ok () s2)
      (hrest : FrameRun e f trace s2 s') : FrameRun e f ((s1, op) :: trace) s s'

namespace FrameOp

variable (e : EngineId)

def runAll : List FrameOp → CompileM Unit
  | [] => pure ()
  | op :: rest => do
    op.run e
    runAll rest

def traceAll : List FrameOp → Session → List (Session × FrameOp)
  | [], _ => []
  | op :: rest, s => (s, op) :: traceAll rest (leaves (op.run e) s)

end FrameOp

theorem FrameRun.of_runAll (f : FrameId) {ops : List FrameOp}
    (h : FrameOp.runAll e ops s = .ok () s') : FrameRun e f (FrameOp.traceAll e ops s) s s' := by
  induction ops generalizing s with
  | nil =>
    obtain ⟨-, rfl⟩ := pure_eq_ok.mp h
    exact .done ((refl_of (Written e) s').leavesAlone f)
  | cons op rest ih =>
    obtain ⟨_, s1, hop, hrest⟩ := bind_eq_ok.mp h
    have hleaves : leaves (op.run e) s = s1 := leaves_of_ok hop
    rw [FrameOp.traceAll, hleaves]
    exact .step ((refl_of (Written e) s).leavesAlone f) hop (ih hrest)

/-! ## Blocks are entered once -/

/-- The scopes of a function that were entered, and those of them that are open, innermost first. -/
structure Walk (t : ScopeTree) (f : FrameId) (opened : List ScopeId) (visited : ScopeId → Prop) :
    Prop where
  wellFormed : t.WellFormed
  nodup : opened.Nodup
  visited_of_mem : ∀ id ∈ opened, visited id
  lt : ∀ id, visited id → id.index < t.size
  frame : ∀ id, visited id → (t.scope id).frame = some f
  parent : ∀ id outer number, visited id → (t.scope id).origin = .block outer number → visited outer
  behind : ∀ id outer number, visited id → outer ∈ opened →
    (t.scope id).origin = .block outer number → number < (t.scope outer).cursor
  untouched : ∀ id, ¬visited id → (t.scope id).frame = some f → (t.scope id).variableBytes = 0 ∧
    ∀ name offset type, t.member? id name ≠ some (.slot f offset type)

namespace Walk

variable {t t' : ScopeTree} {f : FrameId} {opened : List ScopeId} {visited : ScopeId → Prop}

theorem entered {own parent : ScopeId} {name : String} (hwf : t.WellFormed)
    (hlt : own.index < t.size) (hframe : (t.scope own).frame = some f)
    (horigin : (t.scope own).origin = .function parent name)
    (huntouched : ∀ id, id ≠ own → (t.scope id).frame = some f → (t.scope id).variableBytes = 0 ∧
      ∀ name offset type, t.member? id name ≠ some (.slot f offset type)) :
    Walk t f [own] (· = own) := by
  refine
    { wellFormed := hwf
      nodup := List.pairwise_singleton _ own
      visited_of_mem := fun id hid => List.mem_singleton.mp hid
      lt := ?_, frame := ?_, parent := ?_, behind := ?_, untouched := huntouched }
  · rintro id rfl
    exact hlt
  · rintro id rfl
    exact hframe
  · rintro id outer number rfl hblock
    rw [horigin] at hblock
    cases hblock
  · rintro id outer number rfl - hblock
    rw [horigin] at hblock
    cases hblock

theorem taken_down (h : Walk t f opened visited) (visit : Visit) :
    Walk (t.visited visit) f opened visited :=
  ⟨h.wellFormed.visited visit, h.nodup, h.visited_of_mem, h.lt, h.frame, h.parent, h.behind,
    h.untouched⟩

theorem congr {opened' : List ScopeId} (h : Walk t f opened visited) (hwf : t'.WellFormed)
    (hsize : t.size ≤ t'.size) (hsub : opened'.Sublist opened)
    (hshape : ∀ id, visited id → (t'.scope id).shape = (t.scope id).shape)
    (hcursor : ∀ id ∈ opened', (t'.scope id).cursor = (t.scope id).cursor)
    (huntouched : ∀ id, ¬visited id → (t'.scope id).frame = some f →
      (t'.scope id).variableBytes = 0 ∧
        ∀ name offset type, t'.member? id name ≠ some (.slot f offset type)) :
    Walk t' f opened' visited := by
  simp only [Scope.shape, Prod.mk.injEq] at hshape
  refine ⟨hwf, h.nodup.sublist hsub, fun id hid => h.visited_of_mem id (hsub.subset hid), ?_, ?_,
    ?_, ?_, huntouched⟩
  · intro id hid
    have hlt := h.lt id hid
    omega
  · intro id hid
    rw [(hshape id hid).2.2.2.1]
    exact h.frame id hid
  · intro id outer number hid horigin
    rw [(hshape id hid).1] at horigin
    exact h.parent id outer number hid horigin
  · intro id outer number hid houter horigin
    rw [(hshape id hid).1] at horigin
    rw [hcursor outer houter]
    exact h.behind id outer number hid (hsub.subset houter) horigin

theorem leavesAlone (h : Walk s.tree f opened visited) (halone : LeavesAlone e f s s') :
    Walk s'.tree f opened visited := by
  have hagrees := fun id hid => halone.own id (.inl (h.frame id hid))
  refine h.congr (halone.wellFormed h.wellFormed) halone.size (List.Sublist.refl _)
    (fun id hid => (hagrees id hid).shape)
    (fun id hid => (hagrees id (h.visited_of_mem id hid)).cursor) fun id hid hframe => ?_
  · have hagrees := halone.own id (.inr hframe)
    have hshape := hagrees.shape
    simp only [Scope.shape, Prod.mk.injEq] at hshape
    rw [hshape.2.2.2.1] at hframe
    obtain ⟨hbytes, hslots⟩ := h.untouched id hid hframe
    refine ⟨hagrees.variableBytes.trans hbytes, fun name offset type hmember => ?_⟩
    exact hslots name offset type ((hagrees.slots name offset type).mp hmember)

variable {id block : ScopeId} {rest : List ScopeId}

theorem modify (h : Walk t f (id :: rest) visited) (hwf : t'.WellFormed) (hsize : t.size ≤ t'.size)
    (hother : ∀ other, other ≠ id → t'.scope other = t.scope other)
    (hshape : (t'.scope id).shape = (t.scope id).shape) (hsub : opened.Sublist (id :: rest))
    (hcursor : id ∈ opened → (t'.scope id).cursor = (t.scope id).cursor) :
    Walk t' f opened visited := by
  refine h.congr hwf hsize hsub (fun other _ => ?_) (fun other hmem => ?_)
    fun other hnot hframe => ?_
  · by_cases heq : other = id
    · rw [heq, hshape]
    · rw [hother other heq]
  · by_cases heq : other = id
    · subst heq
      exact hcursor hmem
    · rw [hother other heq]
  · have hne : other ≠ id := by
      rintro rfl
      exact hnot (h.visited_of_mem other List.mem_cons_self)
    rw [hother other hne] at hframe ⊢
    simp only [member?, hother other hne]
    exact h.untouched other hnot hframe

theorem push {number : Nat} (h : Walk t f (id :: rest) visited) (hwf : t'.WellFormed)
    (hsize : t.size ≤ t'.size) (hnew : ¬visited block) (hlt : block.index < t'.size)
    (hother : ∀ other, other ≠ id → other ≠ block → t'.scope other = t.scope other)
    (hid : (t'.scope id).origin = (t.scope id).origin ∧ (t'.scope id).frame = (t.scope id).frame ∧
      (t'.scope id).cursor = (t.scope id).cursor + 1)
    (horigin : (t'.scope block).origin = .block id number) (hnumber : number ≤ (t.scope id).cursor)
    (hframe : (t'.scope block).frame = some f) :
    Walk t' f (block :: id :: rest) (fun other => visited other ∨ other = block) := by
  have hvisited : visited id := h.visited_of_mem id List.mem_cons_self
  have hne : ∀ other, visited other → other ≠ block := by
    rintro other hother' rfl
    exact hnew hother'
  -- What is said of the scopes that were entered before is not changed by the new one.
  have hsame : ∀ other, visited other → (t'.scope other).origin = (t.scope other).origin ∧
      (t'.scope other).frame = (t.scope other).frame ∧
      (t.scope other).cursor ≤ (t'.scope other).cursor := by
    intro other hother'
    by_cases heq : other = id
    · rw [heq]
      exact ⟨hid.1, hid.2.1, by omega⟩
    · rw [hother other heq (hne other hother')]
      exact ⟨rfl, rfl, .refl⟩
  refine ⟨hwf, ?_, ?_, ?_, ?_, ?_, ?_, ?_⟩
  · exact List.nodup_cons.mpr ⟨fun hmem => hnew (h.visited_of_mem block hmem), h.nodup⟩
  · intro other hmem
    rcases List.mem_cons.mp hmem with rfl | hmem
    · exact .inr rfl
    · exact .inl (h.visited_of_mem other hmem)
  · rintro other (hother' | rfl)
    · have hold := h.lt other hother'
      omega
    · exact hlt
  · rintro other (hother' | rfl)
    · rw [(hsame other hother').2.1]
      exact h.frame other hother'
    · exact hframe
  · rintro other outer k (hother' | rfl) hblock
    · rw [(hsame other hother').1] at hblock
      exact .inl (h.parent other outer k hother' hblock)
    · rw [horigin] at hblock
      cases hblock
      exact .inl hvisited
  · rintro other outer k (hother' | rfl) houter hblock
    · rw [(hsame other hother').1] at hblock
      rcases List.mem_cons.mp houter with rfl | houter
      -- No scope that was entered hangs off the new block.
      · exact absurd (h.parent other outer k hother' hblock) hnew
      · have hbehind := h.behind other outer k hother' houter hblock
        have hcursor := (hsame outer (h.visited_of_mem outer houter)).2.2
        omega
    · rw [horigin] at hblock
      cases hblock
      rw [hid.2.2]
      omega
  · intro other hnot hframe'
    simp only [not_or] at hnot
    have hnid : other ≠ id := by
      rintro rfl
      exact hnot.1 hvisited
    simp only [member?, hother other hnid hnot.2] at hframe' ⊢
    exact h.untouched other hnot.1 hframe'

theorem enter (h : Walk t f (id :: rest) visited) (hnext : nextBlock id t = .ok block t') :
    Walk t' f (block :: id :: rest) (fun other => visited other ∨ other = block) ∧
      t'.frames = t.frames ∧ (t'.scope block).variableBytes = 0 ∧
      (∀ name offset type, t'.member? block name ≠ some (.slot f offset type)) ∧
      ∀ other, other ≠ block → (t'.scope other).frame = (t.scope other).frame ∧
        (t'.scope other).variableBytes = (t.scope other).variableBytes ∧
        (t'.scope other).members = (t.scope other).members := by
  have hvisited : visited id := h.visited_of_mem id List.mem_cons_self
  have hlt : id.index < t.size := h.lt id hvisited
  have hwf : t'.WellFormed := ((moves_nextBlock id).of_ok hnext).wellFormed h.wellFormed
  rcases nextBlock_eq_ok.mp hnext with ⟨hblock, rfl⟩ | ⟨hend, -, rfl, rfl⟩
  -- The block was made in an earlier pass, and nothing was done in it since.
  · have horigin := h.wellFormed.block_origin hblock
    have hframe := h.wellFormed.block_frame hblock
    have hnew : ¬visited block := by
      intro hvisited'
      have hbehind := h.behind block id _ hvisited' List.mem_cons_self horigin
      omega
    have hne : block ≠ id := by
      rintro rfl
      exact hnew hvisited
    have hscope := scope_modifyScope_of_lt hlt fun s => { s with cursor := s.cursor + 1 }
    have hframe' : (t.scope block).frame = some f := by
      rw [hframe, h.frame id hvisited]
    obtain ⟨hbytes, hslots⟩ := h.untouched block hnew hframe'
    refine ⟨h.push hwf (by simp) hnew (by simpa using h.wellFormed.block_lt hblock) ?_ ?_ ?_
      .refl ?_, rfl, ?_, ?_, ?_⟩
    · intro other hother _
      rw [hscope, if_neg hother]
    · rw [hscope, if_pos rfl]
      exact ⟨rfl, rfl, rfl⟩
    · rw [hscope, if_neg hne]
      exact horigin
    · rw [hscope, if_neg hne]
      exact hframe'
    · rw [hscope, if_neg hne]
      exact hbytes
    · simp only [member?, hscope, if_neg hne]
      exact hslots
    · intro other _
      rw [hscope]
      split
      · rename_i heq
        rw [heq]
        exact ⟨rfl, rfl, rfl⟩
      · exact ⟨rfl, rfl, rfl⟩
  -- The block is made now.
  · have hnew : ¬visited ⟨t.size⟩ := fun hvisited' => Nat.lt_irrefl _ (h.lt _ hvisited')
    have hne := (ne_size hlt).symm
    have hscope := scope_withBlock hlt
    have hlength : (t.scope id).blocks.length ≤ (t.scope id).cursor :=
      List.getElem?_eq_none_iff.mp hend
    refine ⟨h.push hwf (by simp) hnew (by simp) ?_ ?_ ?_ hlength ?_, rfl, ?_, ?_, ?_⟩
    · intro other hother hother'
      rw [hscope, if_neg hother, if_neg hother']
    · rw [hscope, if_pos rfl]
      exact ⟨rfl, rfl, rfl⟩
    · rw [hscope, if_neg hne, if_pos rfl]
      rfl
    · rw [hscope, if_neg hne, if_pos rfl]
      exact h.frame id hvisited
    · rw [hscope, if_neg hne, if_pos rfl]
      rfl
    · intro name offset type hmember
      rw [member?, hscope, if_neg hne, if_pos rfl] at hmember
      cases hmember
    · intro other hother
      rw [hscope, if_neg hother]
      split
      · rename_i heq
        rw [heq]
        exact ⟨rfl, rfl, rfl⟩
      · exact ⟨rfl, rfl, rfl⟩

end Walk

end StagedAsm
