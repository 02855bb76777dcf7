import StagedAsm.Proofs.FrameRuns

/-!
# What operations do inside a function

Each operation of a body does one of three things to the open scopes: the innermost one takes bytes
below the pointer, a block is opened that holds nothing yet, or the innermost block is closed and
gives back its bytes.
-/

namespace StagedAsm

open ScopeTree

/-- An engine has opened a function's own scope, and blocks in it. -/
structure Standing (e : EngineId) (f : FrameId) (own : ScopeId) (outer opened : List ScopeId)
    (visited : ScopeId → Prop) (s : Session) : Prop where
  scopes : (s.engine e).scopes = opened ++ outer
  last : opened.getLast? = some own
  named : (s.tree.scope own).isAnonymous = false
  walk : Walk s.tree f opened visited
  lt : f.index < s.tree.frames.size

structure FrameStep (op : FrameOp) (a b : Frame) : Prop where
  unset : a.size = none → b.size = none
  isLeaf : a.isLeaf = false → b.isLeaf = false
  extent : a.extent.toNat ≤ b.extent.toNat
  reached : -a.pointer ≤ a.extent.toNat → -0xffffffff ≤ a.pointer - op.reach →
    op.reach - a.pointer ≤ b.extent.toNat

/-- What an operation does to the scopes that are open. -/
inductive Effect (f : FrameId) (op : FrameOp) (t t' : ScopeTree) :
    List ScopeId → List ScopeId → Prop where
  /-- For a new variable or for none. -/
  | take {id : ScopeId} {rest : List ScopeId} {bytes : Nat} (new : Option String)
      (hle : bytes ≤ op.reach) (hpointer : (t'.frame f).pointer = (t.frame f).pointer - bytes)
      (hother : ∀ other, other ≠ id → t'.scope other = t.scope other)
      (hbytes : (t'.scope id).variableBytes.toNat = (t.scope id).variableBytes.toNat + bytes)
      (hnew : ∀ name offset type, t'.member? id name = some (.slot f offset type) →
        t.member? id name = some (.slot f offset type) ∨ new = some name ∧
          offset = (t.frame f).pointer - bytes ∧ type.bytes.toNat ≤ bytes) :
      Effect f op t t' (id :: rest) (id :: rest)
  | push {block : ScopeId} {opened : List ScopeId} (hframe : t'.frame f = t.frame f)
      (hbytes : (t'.scope block).variableBytes = 0)
      (hempty : ∀ name offset type, t'.member? block name ≠ some (.slot f offset type))
      (hother : ∀ other, other ≠ block → (t'.scope other).frame = (t.scope other).frame ∧
        (t'.scope other).variableBytes = (t.scope other).variableBytes ∧
        (t'.scope other).members = (t.scope other).members) :
      Effect f op t t' opened (block :: opened)
  | pop {id : ScopeId} {rest : List ScopeId}
      (hpointer : (t'.frame f).pointer = (t.frame f).pointer + (t.scope id).variableBytes.toNat)
      (hbytes : ∀ other, (t'.scope other).variableBytes = (t.scope other).variableBytes)
      (hmembers : ∀ other, (t'.scope other).members = (t.scope other).members) :
      Effect f op t t' (id :: rest) rest

namespace FrameStep

variable {op : FrameOp} {a b low : Frame}

theorem lower (h : a.setPointer (a.pointer - op.reach) = .ok b) : FrameStep op a b := by
  obtain ⟨-, hunset, -, hleaf, hextent, hcovered⟩ := Frame.setPointer_eq_ok h
  refine ⟨fun _ => hunset, hleaf.trans, hextent, fun _ hreach => ?_⟩
  have hle := hcovered hreach
  omega

theorem lower_back (h : a.setPointer (a.pointer - op.reach) = .ok low)
    (h' : low.setPointer a.pointer = .ok b) : FrameStep op a b := by
  have hlow := lower h
  obtain ⟨-, hunset, -, hleaf, hextent, -⟩ := Frame.setPointer_eq_ok h'
  refine ⟨fun _ => hunset, fun hnoLeaf => hleaf.trans (hlow.isLeaf hnoLeaf),
    Nat.le_trans hlow.extent hextent, fun hcovered hreach => ?_⟩
  have hle := hlow.reached hcovered hreach
  omega

theorem keep (hreach : op.reach = 0) (hunset : a.size = none → b.size = none)
    (hleaf : a.isLeaf = false → b.isLeaf = false) (hextent : a.extent.toNat ≤ b.extent.toNat) :
    FrameStep op a b := by
  refine ⟨hunset, hleaf, hextent, fun hcovered _ => ?_⟩
  rw [hreach]
  omega

end FrameStep

namespace Standing

variable {e : EngineId} {f : FrameId} {own id : ScopeId} {outer opened rest : List ScopeId}
variable {visited : ScopeId → Prop} {s s' : Session}

theorem exists_cons (h : Standing e f own outer opened visited s) :
    ∃ id rest, opened = id :: rest := by
  cases opened with
  | nil =>
    have hlast := h.last
    cases hlast
  | cons id rest => exact ⟨id, rest, rfl⟩

theorem currentScope (h : Standing e f own outer (id :: rest) visited s) :
    (s.engine e).currentScope = id := by
  rw [Engine.currentScope, h.scopes]
  rfl

theorem frame_eq (h : Standing e f own outer (id :: rest) visited s) :
    (s.tree.scope id).frame = some f :=
  h.walk.frame id (h.walk.visited_of_mem id List.mem_cons_self)

theorem currentFrame (h : Standing e f own outer opened visited s) :
    (s.tree.scope (s.engine e).currentScope).frame = some f := by
  obtain ⟨id, rest, rfl⟩ := h.exists_cons
  rw [h.currentScope]
  exact h.frame_eq

theorem scope_lt (h : Standing e f own outer (id :: rest) visited s) : id.index < s.tree.size :=
  h.walk.lt id (h.walk.visited_of_mem id List.mem_cons_self)

theorem named_of_keeps (h : Standing e f own outer opened visited s) {t : ScopeTree}
    (hkeeps : s.tree.Keeps t) : (t.scope own).isAnonymous = false := by
  have hown := h.walk.lt own (h.walk.visited_of_mem own (List.mem_of_getLast? h.last))
  have hplace := hkeeps.place own hown
  simp only [Scope.place, Prod.mk.injEq] at hplace
  exact hplace.2.2.1.trans h.named

theorem frame_of_mem (h : Standing e f own outer opened visited s) :
    ∀ id ∈ opened, (s.tree.scope id).frame = some f :=
  fun id hid => h.walk.frame id (h.walk.visited_of_mem id hid)

theorem leavesAlone (h : Standing e f own outer opened visited s) (halone : LeavesAlone e f s s') :
    Standing e f own outer opened visited s' := by
  have hown := h.frame_of_mem own (List.mem_of_getLast? h.last)
  have hshape := (halone.own own (.inl hown)).shape
  simp only [Scope.shape, Prod.mk.injEq] at hshape
  have hlt := h.lt
  have hframes := halone.frames
  exact ⟨halone.scopes.trans h.scopes, h.last, hshape.2.2.1.trans h.named,
    h.walk.leavesAlone halone, by omega⟩

/-! ## Steps -/

structure After (e : EngineId) (f : FrameId) (own : ScopeId) (outer : List ScopeId) (op : FrameOp)
    (opened opened' : List ScopeId) (visited : ScopeId → Prop) (s s' : Session) : Prop where
  standing : Standing e f own outer opened' visited s'
  keeps : s.tree.Keeps s'.tree
  frame : FrameStep op (s.tree.frame f) (s'.tree.frame f)
  effect : Effect f op s.tree s'.tree opened opened'

variable {op : FrameOp} {frame : Frame}

section Innermost

variable (h : Standing e f own outer (id :: rest) visited s)

include h

theorem take {bytes : Nat} {g : Scope → Scope} (new : Option String)
    (hscopes : (s'.engine e).scopes = (s.engine e).scopes)
    (htree : s'.tree = (s.tree.setFrame f frame).modifyScope id g) (hkeeps : s.tree.Keeps s'.tree)
    (hstep : FrameStep op (s.tree.frame f) frame)
    (hpointer : frame.pointer = (s.tree.frame f).pointer - bytes) (hle : bytes ≤ op.reach)
    (hshape : (g (s.tree.scope id)).shape = (s.tree.scope id).shape)
    (hcursor : (g (s.tree.scope id)).cursor = (s.tree.scope id).cursor) (hbytes : (g (s.tree.scope
      id)).variableBytes.toNat = (s.tree.scope id).variableBytes.toNat + bytes) (hnew : ∀ name
      offset type, (g (s.tree.scope id)).members.get? name = some (.slot f offset type) →
      s.tree.member? id name = some (.slot f offset type) ∨ new = some name ∧ offset = (s.tree.frame
      f).pointer - bytes ∧ type.bytes.toNat ≤ bytes) : After e f own outer op (id :: rest)
    (id :: rest) visited s s' := by
  have hframe : s'.tree.frame f = frame := by rw [htree, frame_change h.lt]
  have hscope : s'.tree.scope id = g (s.tree.scope id) := by
    rw [htree, scope_change h.scope_lt, if_pos rfl]
  have hother : ∀ other, other ≠ id → s'.tree.scope other = s.tree.scope other := by
    intro other hne
    rw [htree, scope_change h.scope_lt, if_neg hne]
  have hwalk : Walk s'.tree f (id :: rest) visited := by
    refine h.walk.modify (hkeeps.wellFormed h.walk.wellFormed) hkeeps.size hother ?_
      (List.Sublist.refl _) fun _ => ?_
    · rw [hscope, hshape]
    · rw [hscope, hcursor]
  have hlt : f.index < s'.tree.frames.size := by
    rw [htree]
    simpa [modifyScope, setFrame] using h.lt
  refine ⟨⟨hscopes.trans h.scopes, h.last, h.named_of_keeps hkeeps, hwalk, hlt⟩, hkeeps, ?_,
    .take new hle ?_ hother ?_ fun name offset type hmember => hnew name offset type ?_⟩
  · rw [hframe]
    exact hstep
  · rw [hframe]
    exact hpointer
  · rw [hscope]
    exact hbytes
  · rw [← hscope]
    exact hmember

theorem declare {name : String} {type : ValueType} (hop : e.declareVariable name type s = .ok () s')
    : After e f own outer (.declare name type) (id :: rest) (id :: rest) visited s s' := by
  obtain ⟨-, t, ht, rfl⟩ := EngineId.declareVariable_eq_ok.mp hop
  have hkeeps := (within_declareVariable (R := Keeps) _ name type).of_ok ht
  rw [h.currentScope] at ht
  obtain ⟨g, frame, total, hg, -, -, hset, htotal, rfl⟩ := declareVariable_eq_ok ht
  obtain rfl : g = f := Option.some.inj (hg.symm.trans h.frame_eq)
  refine h.take (some name) rfl rfl hkeeps (.lower hset) (Frame.setPointer_eq_ok hset).2.2.1
    (Int.le_refl _) rfl rfl htotal ?_
  intro other offset type' hmember
  dsimp only at hmember
  by_cases heq : other = name
  · rw [heq, Dictionary.get?_set_self] at hmember
    cases hmember
    exact .inr ⟨congrArg some heq.symm, rfl, .refl⟩
  · rw [Dictionary.get?_set_of_ne _ heq] at hmember
    exact .inl hmember

theorem reserve {bytes : UInt32} (hop : e.allocate bytes s = .ok () s') : After e f own outer
    (.reserve bytes) (id :: rest) (id :: rest) visited s s' := by
  obtain ⟨-, t, ht, rfl⟩ := EngineId.allocate_eq_ok.mp hop
  have hkeeps := (within_allocate (R := Keeps) _ bytes).of_ok ht
  rw [h.currentScope] at ht
  obtain ⟨g, frame, total, hg, hset, htotal, rfl⟩ := allocate_eq_ok ht
  obtain rfl : g = f := Option.some.inj (hg.symm.trans h.frame_eq)
  exact h.take none rfl rfl hkeeps (.lower hset) (Frame.setPointer_eq_ok hset).2.2.1
    (Int.le_refl _) rfl rfl htotal fun _ _ _ hmember => .inl hmember

theorem reframe (hscopes : (s'.engine e).scopes = (s.engine e).scopes)
    (htree : s'.tree = s.tree.setFrame f frame) (hstep : FrameStep op (s.tree.frame f) frame)
    (hpointer : frame.pointer = (s.tree.frame f).pointer) (hle : 0 ≤ op.reach) : After e f own outer
    op (id :: rest) (id :: rest) visited s s' := by
  have hkeeps : s.tree.Keeps s'.tree := htree ▸ keeps_setFrame s.tree f frame
  have hnothing : s'.tree = (s.tree.setFrame f frame).modifyScope id fun scope => scope := by
    rw [modifyScope_self]
    exact htree
  have hback : frame.pointer = (s.tree.frame f).pointer - (0 : Nat) := by
    rw [hpointer]
    simp
  exact h.take none hscopes hnothing hkeeps hstep hback hle rfl rfl rfl
    fun _ _ _ hmember => .inl hmember

theorem call {site : CallSite} (hop : Win64.call e site s = .ok () s') : After e f own outer
    (.call site) (id :: rest) (id :: rest) visited s s' := by
  obtain ⟨low, frame, hlow, hset, htree, hscopes⟩ := Win64.call_eq_ok h.currentFrame h.lt hop
  have harea : 0 ≤ Win64.argumentArea site.arguments.length := by
    unfold Win64.argumentArea Win64.shadowSpace
    omega
  exact h.reframe hscopes htree (.lower_back hlow hset) (Frame.setPointer_eq_ok hset).2.2.1 harea

theorem noteCall (hop : e.declareCall s = .ok () s') : After e f own outer .noteCall (id :: rest)
    (id :: rest) visited s s' := by
  rcases EngineId.declareCall_eq_ok hop with rfl | ⟨g, hg, rfl⟩
  · have hsame := setFrame_frame s'.tree f
    exact h.reframe rfl hsame.symm (.keep rfl (fun hnone => hnone) (fun hleaf => hleaf)
      .refl) rfl (Int.le_refl 0)
  · obtain rfl : g = f := Option.some.inj (hg.symm.trans h.currentFrame)
    exact h.reframe rfl rfl (.keep rfl (fun hnone => hnone) (fun _ => rfl) (Nat.le_refl _)) rfl
      (Int.le_refl 0)

theorem enter (hop : e.enterBlock s = .ok () s') : ∃ opened' visited', After e f own outer .enter
    (id :: rest) opened' visited' s s' := by
  obtain ⟨block, t, hnext, rfl⟩ := EngineId.enterBlock_eq_ok.mp hop
  rw [h.currentScope] at hnext
  have hkeeps := (moves_nextBlock id).of_ok hnext
  obtain ⟨hwalk, hframes, hbytes, hempty, hother⟩ := h.walk.enter hnext
  have hframe : t.frame f = s.tree.frame f := by simp only [frame, hframes]
  have hlt : e.index < s.engines.size := EngineId.lt_of_scopes h.scopes
  refine ⟨block :: id :: rest, fun other => visited other ∨ other = block,
    ⟨?_, ?_, h.named_of_keeps (hkeeps.visited _), hwalk.taken_down _, ?_⟩, hkeeps.visited _, ?_,
    .push hframe hbytes hempty hother⟩
  · rw [EngineId.scopes_opening (s := { s with tree := t }) hlt]
    exact congrArg (block :: ·) h.scopes
  · rw [List.getLast?_cons_cons]
    exact h.last
  · show f.index < t.frames.size
    rw [hframes]
    exact h.lt
  · show FrameStep .enter (s.tree.frame f) (t.frame f)
    rw [hframe]
    exact .keep rfl (fun hnone => hnone) (fun hleaf => hleaf) (Nat.le_refl _)

theorem leave (hop : e.exitBlock s = .ok () s') : After e f own outer .leave (id :: rest) rest
    visited s s' := by
  obtain ⟨hblock, frame, hpointer, hunset, hleaf, hextent, rfl⟩ :=
    EngineId.exitBlock_releases h.currentFrame h.lt hop
  rw [h.currentScope] at hblock hpointer ⊢
  generalize htree : (s.tree.setFrame f frame).modifyScope id _ = t
  have hframe : t.frame f = frame := by rw [← htree, frame_change h.lt]
  have hscope : ∀ other, t.scope other = if other = id then
      { s.tree.scope id with cursor := 0, canGrow := false } else s.tree.scope other := by
    intro other
    rw [← htree, scope_change h.scope_lt]
  have hkeeps : s.tree.Keeps t := by
    rw [← htree]
    exact trans_of ScopeTree.Keeps (keeps_setFrame s.tree f frame)
      (keeps_modifyScope (fun _ _ hs => hs) rfl)
  have hrest : rest.getLast? = some own := by
    have hlast := h.last
    cases rest with
    | nil =>
      obtain rfl : id = own := Option.some.inj hlast
      rw [h.named] at hblock
      cases hblock
    | cons next rest =>
      rw [List.getLast?_cons_cons] at hlast
      exact hlast
  refine ⟨⟨?_, hrest, h.named_of_keeps (hkeeps.visited _), ?_, ?_⟩, hkeeps.visited _, ?_, ?_⟩
  · rw [EngineId.scopes_closing]
    show ((s.engine e).scopes).tail = rest ++ outer
    rw [h.scopes]
    rfl
  · have hopen := (List.nodup_cons.mp h.walk.nodup).1
    refine (h.walk.modify (hkeeps.wellFormed h.walk.wellFormed) hkeeps.size (fun other hne => ?_) ?_
      (List.sublist_cons_self _ _) fun hmem => absurd hmem hopen).taken_down _
    · rw [hscope, if_neg hne]
    · rw [hscope, if_pos rfl]
      rfl
  · show f.index < t.frames.size
    rw [← htree]
    simpa [modifyScope, setFrame] using h.lt
  · show FrameStep .leave (s.tree.frame f) (t.frame f)
    rw [hframe]
    exact .keep rfl hunset hleaf.trans hextent
  · have hsame : ∀ other, (t.scope other).variableBytes = (s.tree.scope other).variableBytes ∧
        (t.scope other).members = (s.tree.scope other).members := by
      intro other
      rw [hscope]
      split
      · rename_i heq
        rw [heq]
        exact ⟨rfl, rfl⟩
      · exact ⟨rfl, rfl⟩
    refine .pop ?_ (fun other => (hsame other).1) fun other => (hsame other).2
    exact (congrArg Frame.pointer hframe).trans hpointer

end Innermost

theorem step (h : Standing e f own outer opened visited s) (hop : op.run e s = .ok () s') :
    ∃ opened' visited', After e f own outer op opened opened' visited' s s' := by
  obtain ⟨id, rest, rfl⟩ := h.exists_cons
  cases op with
  | declare name type => exact ⟨_, _, h.declare hop⟩
  | reserve bytes => exact ⟨_, _, h.reserve hop⟩
  | enter => exact h.enter hop
  | leave => exact ⟨_, _, h.leave hop⟩
  | call site => exact ⟨_, _, h.call hop⟩
  | noteCall => exact ⟨_, _, h.noteCall hop⟩

end Standing

end StagedAsm
