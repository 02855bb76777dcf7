import Mathlib.Algebra.GroupWithZero.Nat
import Mathlib.Algebra.Ring.Int.Defs
import StagedAsm.Proofs.FrameSafety

/-!
# Functions keep the stack in balance

While a function is open, the pointer is below the return address by exactly the bytes that its open
scopes hold: what a scope takes it gives back, and a call moves the pointer back to where it was.
Only returns move the stack pointer.
-/

namespace StagedAsm

open List ScopeTree

/-! ## Runs of bodies -/

/-- What the body of a function does: operations on its frame, calls and returns. -/
inductive BodyOp where
  | frame (op : FrameOp)
  | call (site : CallSite)
  | ret (value : Option Operand)

namespace BodyOp

/-- A call that was made is noted, so that the function is no leaf. -/
def run (e : EngineId) : BodyOp → CompileM Unit
  | frame op => op.run e
  | call site => do
    Win64.call e site
    e.declareCall
  | ret value => Win64.ret e value

/-- The number of returns. -/
def returns : BodyOp → Nat
  | ret _ => 1
  | _ => 0

/-- The result of a call does not go into the stack pointer. -/
def sparesPointer : BodyOp → Bool
  | frame (.call site) | call site => site.sparesPointer
  | _ => true

end BodyOp

/-- Neither the frame, nor the scopes that an engine has open, nor the lines it has written. -/
structure Aside (e : EngineId) (f : FrameId) (s s' : Session) : Prop
    extends LeavesAlone e f s s' where
  sections : (s'.engine e).sections = (s.engine e).sections

inductive BodyRun (e : EngineId) (f : FrameId) : List (Session × BodyOp) → Session → Session →
    Prop where
  | done {s s' : Session} (h : Aside e f s s') : BodyRun e f [] s s'
  | step {s s1 s2 s' : Session} {op : BodyOp} {trace : List (Session × BodyOp)}
      (hbefore : Aside e f s s1) (hop : op.run e s1 = .ok () s2)
      (hrest : BodyRun e f trace s2 s') : BodyRun e f ((s1, op) :: trace) s s'

def bodyReturns (trace : List (Session × BodyOp)) : Nat := (trace.map fun m => m.2.returns).sum

namespace BodyOp

variable (e : EngineId)

def runAll : List BodyOp → CompileM Unit
  | [] => pure ()
  | op :: rest => do
    op.run e
    runAll rest

def traceAll : List BodyOp → Session → List (Session × BodyOp)
  | [], _ => []
  | op :: rest, s => (s, op) :: traceAll rest (leaves (op.run e) s)

end BodyOp

theorem Aside.refl (e : EngineId) (f : FrameId) (s : Session) : Aside e f s s :=
  ⟨(refl_of (Written e) s).leavesAlone f, rfl⟩

variable {e : EngineId} {s s' : Session}

theorem BodyRun.of_runAll (f : FrameId) {ops : List BodyOp}
    (h : BodyOp.runAll e ops s = .ok () s') : BodyRun e f (BodyOp.traceAll e ops s) s s' := by
  induction ops generalizing s with
  | nil =>
    obtain ⟨-, rfl⟩ := pure_eq_ok.mp h
    exact .done (.refl e f _)
  | cons op rest ih =>
    obtain ⟨_, s1, hop, hrest⟩ := bind_eq_ok.mp h
    have hleaves : leaves (op.run e) s = s1 := leaves_of_ok hop
    rw [BodyOp.traceAll, hleaves]
    exact .step (.refl e f s) hop (ih hrest)

/-! ## Lines of bodies -/

inductive BodyEntries (f : FrameId) (spared : Prop) : Nat → List Entry → Prop where
  | nil : BodyEntries f spared 0 []
  | transfer {returns : Nat} {entry : Entry} {rest : List Entry} (h : entry.Transfers spared)
      (hrest : BodyEntries f spared returns rest) : BodyEntries f spared returns (entry :: rest)
  | release {returns : Nat} {rest : List Entry} (id : Nat)
      (hrest : BodyEntries f spared returns rest) :
      BodyEntries f spared (returns + 1) (Win64.releaseEntries f id ++ rest)

variable {spared : Prop}

namespace BodyEntries

variable {f : FrameId} {first second : List Entry} {n k : Nat}

theorem append (h : BodyEntries f spared n first) (h' : BodyEntries f spared k second) :
    BodyEntries f spared (n + k) (first ++ second) := by
  induction h with
  | nil =>
    rw [zero_add]
    exact h'
  | transfer h _ ih => exact .transfer h ih
  | release id _ ih =>
    rw [add_right_comm, append_assoc]
    exact .release id ih

theorem of_transfers (h : ∀ entry ∈ first, entry.Transfers spared) :
    BodyEntries f spared 0 first := by
  induction first with
  | nil => exact .nil
  | cons entry rest ih =>
    exact .transfer (h entry mem_cons_self)
      (ih fun other hother => h other (mem_cons_of_mem _ hother))

theorem texts {s : Session} {size : UInt32} (hsize : (s.tree.frame f).size = some size)
    (hle : 8 ≤ size.toNat) (h : BodyEntries f spared n first) :
    BodyText size spared n (Entry.texts s.renderLine first) := by
  induction h with
  | nil => exact .nil
  | @transfer returns entry rest h _ ih =>
    have hsplit := Entry.texts_append s.renderLine [entry] rest
    rw [singleton_append, Entry.texts_singleton] at hsplit
    rw [hsplit]
    cases htext : (entry.announce s.renderLine).text? with
    | none => exact ih
    | some text => exact .transfer (h.announce htext) ih
  | release id _ ih =>
    rw [Entry.texts_append, Win64.texts_releaseEntries hsize hle, append_assoc]
    exact .release ih

end BodyEntries

theorem FrameOp.feeds {op : FrameOp} (h : op.run e s = .ok () s')
    (hspares : spared → (BodyOp.frame op).sparesPointer = true) :
    ∃ entries, (∀ entry ∈ entries, entry.Transfers spared) ∧ Feeds e entries s s' := by
  have hnothing : (s'.engine e).sections = (s.engine e).sections →
      ∃ entries : List Entry, (∀ entry ∈ entries, entry.Transfers spared) ∧ Feeds e entries s s' :=
    fun h => ⟨[], by simp, .nothing h⟩
  cases op with
  | declare name type =>
    obtain ⟨-, t, -, rfl⟩ := EngineId.declareVariable_eq_ok.mp h
    exact hnothing rfl
  | reserve bytes =>
    obtain ⟨-, t, -, rfl⟩ := EngineId.allocate_eq_ok.mp h
    exact hnothing rfl
  | enter =>
    obtain ⟨block, t, -, rfl⟩ := EngineId.enterBlock_eq_ok.mp h
    apply hnothing
    rw [EngineId.engine_opening]
    split <;> rfl
  | leave =>
    obtain ⟨-, -, t, t', -, -, rfl⟩ := EngineId.exitBlock_eq_ok h
    apply hnothing
    rw [EngineId.engine_closing]
    split <;> rfl
  | noteCall =>
    rcases EngineId.declareCall_eq_ok h with rfl | ⟨g, -, rfl⟩
    · exact hnothing rfl
    · exact hnothing rfl
  | call site =>
    obtain ⟨before, after, ⟨entries, hbecomes, hemits⟩, hbefore, hafter, -⟩ :=
      Win64.call_writes h hspares
    refine ⟨entries, hbecomes.transfers fun line hmem => ?_, hemits.feeds⟩
    rcases mem_append.mp hmem with hmem | hmem
    · exact (hbefore line hmem).imp fun _ => trivial
    · rcases mem_cons.mp hmem with rfl | hmem
      · exact Win64.transfers_textThen (fun tail => .of_call (by simp)) _
      · exact hafter line hmem

theorem BodyOp.feeds {f : FrameId} {op : BodyOp}
    (hframe : (s.tree.scope (s.engine e).currentScope).frame = some f)
    (h : op.run e s = .ok () s') (hspares : spared → op.sparesPointer = true) :
    ∃ entries, BodyEntries f spared op.returns entries ∧ Feeds e entries s s' := by
  cases op with
  | frame op =>
    obtain ⟨entries, htransfers, hfeeds⟩ := FrameOp.feeds h hspares
    exact ⟨entries, .of_transfers htransfers, hfeeds⟩
  | call site =>
    obtain ⟨_, s1, hcall, hnote⟩ := bind_eq_ok.mp h
    have hcalled : (FrameOp.call site).run e s = .ok () s1 := hcall
    have hnoted : FrameOp.noteCall.run e s1 = .ok () s' := hnote
    obtain ⟨entries, htransfers, hfeeds⟩ := FrameOp.feeds hcalled hspares
    obtain ⟨more, htransfers', hfeeds'⟩ := FrameOp.feeds hnoted fun _ : spared => rfl
    refine ⟨entries ++ more, .of_transfers fun entry hmem => ?_, hfeeds.trans hfeeds'⟩
    exact (mem_append.mp hmem).elim (htransfers entry) (htransfers' entry)
  | ret value =>
    obtain ⟨entries, g, id, htransfers, hemits, hg, -⟩ := Win64.ret_writes spared h
    obtain rfl : f = g := Option.some.inj (hframe.symm.trans hg)
    refine ⟨_, ?_, hemits.feeds⟩
    have hrelease : BodyEntries f spared 1 (Win64.releaseEntries f id ++ []) := .release id .nil
    rw [append_nil] at hrelease
    have hall := (BodyEntries.of_transfers (f := f) htransfers).append hrelease
    rwa [zero_add] at hall

/-! ## The pointer -/

/-- The bytes that scopes hold on a frame. -/
def ScopeTree.heldBytes (t : ScopeTree) (opened : List ScopeId) : Int :=
  (opened.map fun id => ((t.scope id).variableBytes.toNat : Int)).sum

namespace ScopeTree

variable {t t' : ScopeTree}

theorem heldBytes_cons (id : ScopeId) (rest : List ScopeId) :
    t.heldBytes (id :: rest) = (t.scope id).variableBytes.toNat + t.heldBytes rest := by
  simp [heldBytes]

variable {opened : List ScopeId}

theorem heldBytes_congr
    (h : ∀ id ∈ opened, (t'.scope id).variableBytes = (t.scope id).variableBytes) :
    t'.heldBytes opened = t.heldBytes opened := by
  unfold heldBytes
  congr 1
  apply map_congr_left
  intro id hid
  rw [h id hid]

theorem heldBytes_step {f : FrameId} {op : FrameOp} {opened' : List ScopeId}
    (hnodup : opened'.Nodup) (h : Effect f op t t' opened opened') :
    (t'.frame f).pointer + t'.heldBytes opened' = (t.frame f).pointer + t.heldBytes opened := by
  cases h with
  | @take id rest bytes new hle hpointer hother hbytes hnew =>
    have hrest : t'.heldBytes rest = t.heldBytes rest := by
      apply heldBytes_congr
      intro other hmem
      rw [hother other]
      rintro rfl
      exact (nodup_cons.mp hnodup).1 hmem
    rw [heldBytes_cons, heldBytes_cons, hrest, hpointer, hbytes]
    omega
  | push hframe hbytes hempty hother =>
    have hrest : t'.heldBytes opened = t.heldBytes opened := by
      apply heldBytes_congr
      intro other hmem
      refine (hother other ?_).2.1
      rintro rfl
      exact (nodup_cons.mp hnodup).1 hmem
    rw [heldBytes_cons, hrest, hframe, hbytes]
    simp
  | pop hpointer hbytes hmembers =>
    rw [heldBytes_congr fun other _ => hbytes other, heldBytes_cons, hpointer]
    omega

end ScopeTree

structure Balanced (e : EngineId) (f : FrameId) (own : ScopeId) (outer opened : List ScopeId)
    (visited : ScopeId → Prop) (s : Session) : Prop
    extends Standing e f own outer opened visited s where
  unset : (s.tree.frame f).size = none
  pointer : (s.tree.frame f).pointer + s.tree.heldBytes opened = -8
  extent : 8 ≤ (s.tree.frame f).extent.toNat

namespace Balanced

variable {e : EngineId} {f : FrameId} {own id : ScopeId} {outer opened rest : List ScopeId}
variable {visited : ScopeId → Prop} {s s' : Session}

theorem leavesAlone (h : Balanced e f own outer opened visited s) (halone : LeavesAlone e f s s') :
    Balanced e f own outer opened visited s' := by
  have hheld : s'.tree.heldBytes opened = s.tree.heldBytes opened := heldBytes_congr fun id hid =>
      (halone.own id (.inl (h.frame_of_mem id hid))).variableBytes
  refine ⟨h.toStanding.leavesAlone halone, ?_, ?_, ?_⟩
  · rw [halone.frame]
    exact h.unset
  · rw [halone.frame, hheld]
    exact h.pointer
  · rw [halone.frame]
    exact h.extent

/-! ## Steps -/

/-- A function that is no leaf does not become one again. -/
structure After (e : EngineId) (f : FrameId) (own : ScopeId) (outer : List ScopeId)
    (s s' : Session) : Prop where
  balanced : ∃ opened visited, Balanced e f own outer opened visited s'
  isLeaf : (s.tree.frame f).isLeaf = false → (s'.tree.frame f).isLeaf = false

theorem After.trans {s'' : Session} (h : After e f own outer s s')
    (h' : After e f own outer s' s'') :
    After e f own outer s s'' := ⟨h'.balanced, fun hleaf => h'.isLeaf (h.isLeaf hleaf)⟩

section

variable (h : Balanced e f own outer opened visited s)
include h

theorem After.of_leavesAlone (halone : LeavesAlone e f s s') : After e f own outer s s' := by
  refine ⟨⟨opened, visited, h.leavesAlone halone⟩, fun hleaf => ?_⟩
  rw [halone.frame]
  exact hleaf

theorem frameOp {op : FrameOp} (hop : op.run e s = .ok () s') : After e f own outer s s' := by
  obtain ⟨opened', visited', hafter⟩ := h.toStanding.step hop
  have hextent := le_trans h.extent hafter.frame.extent
  have hpointer := heldBytes_step hafter.standing.walk.nodup hafter.effect
  rw [h.pointer] at hpointer
  exact ⟨⟨opened', visited', hafter.standing, hafter.frame.unset h.unset, hpointer, hextent⟩,
    hafter.frame.isLeaf⟩

theorem isLeaf_of_call {site : CallSite}
    (hop : (BodyOp.call site).run e s = .ok () s') : (s'.tree.frame f).isLeaf = false := by
  obtain ⟨_, s1, hcall, hnote⟩ := bind_eq_ok.mp hop
  obtain ⟨_, s0, htarget, h1⟩ := bind_eq_ok.mp hcall
  obtain ⟨-, hsame⟩ := ofExcept_eq_ok.mp htarget
  obtain rfl : s = s0 := by simp [hsame]
  obtain ⟨_, _, hdown, -⟩ := bind_eq_ok.mp h1
  obtain ⟨-, -, hlocal, -⟩ := EngineId.movePointer_eq_ok.mp hdown
  obtain ⟨low, frame, -, -, htree, hscopes⟩ := Win64.call_eq_ok h.currentFrame h.lt hcall
  have hcurrent : (s1.engine e).currentScope = (s.engine e).currentScope := by
    rw [Engine.currentScope, Engine.currentScope, hscopes]
  have hlocal' : s1.tree.isLocal (s1.engine e).currentScope = true := by
    rw [hcurrent, htree, isLocal, scope_setFrame]
    exact hlocal
  have hframe : (s1.tree.scope (s1.engine e).currentScope).frame = some f := by
    rw [hcurrent, htree, scope_setFrame]
    exact h.currentFrame
  have hlt : f.index < s1.tree.frames.size := by
    rw [htree]
    simpa [setFrame] using h.lt
  have hrun : e.declareCall s1 = .ok () s' := hnote
  unfold EngineId.declareCall at hrun
  rw [EngineId.isLocal_bind, hlocal', if_pos rfl] at hrun
  obtain ⟨g, s2, hgiven, h2⟩ := bind_eq_ok.mp hrun
  obtain ⟨-, hg, rfl⟩ := EngineId.frame_eq_ok.mp hgiven
  obtain rfl : g = f := Option.some.inj (hg.symm.trans hframe)
  obtain ⟨t, hupdate, rfl⟩ := onTree_eq_ok.mp h2
  obtain ⟨noted, hset, rfl⟩ := updateFrame_eq_ok.mp hupdate
  cases hset
  rw [frame_setFrame, if_pos ⟨rfl, hlt⟩]

theorem step {op : BodyOp} (hop : op.run e s = .ok () s') : After e f own outer s s' := by
  cases op with
  | frame op => exact h.frameOp hop
  | call site =>
    obtain ⟨_, s1, hcall, hnote⟩ := bind_eq_ok.mp hop
    have hcalled : (FrameOp.call site).run e s = .ok () s1 := hcall
    have hnoted : FrameOp.noteCall.run e s1 = .ok () s' := hnote
    have hfirst := h.frameOp hcalled
    obtain ⟨opened', visited', hbalanced⟩ := hfirst.balanced
    exact hfirst.trans (hbalanced.frameOp hnoted)
  | ret value =>
    obtain ⟨_, _, _, -, -, -, hwritten⟩ := Win64.ret_writes True hop
    exact .of_leavesAlone h (hwritten.leavesAlone f)

/-! ## Runs -/

theorem run {trace : List (Session × BodyOp)} (hrun : BodyRun e f trace s s')
    (hspares : spared → ∀ m ∈ trace, m.2.sparesPointer = true) :
    After e f own outer s s' ∧
      (∃ entries, BodyEntries f spared (bodyReturns trace) entries ∧ Feeds e entries s s') ∧
      ∀ t site, (t, BodyOp.call site) ∈ trace → (s'.tree.frame f).isLeaf = false := by
  induction hrun generalizing opened visited with
  | done haside =>
    refine ⟨.of_leavesAlone h haside.toLeavesAlone, ⟨[], .nil, .nothing haside.sections⟩, ?_⟩
    intro t site hmem
    cases hmem
  | @step s s1 s2 s' op trace hbefore hop _ ih =>
    have hcame := h.leavesAlone hbefore.toLeavesAlone
    have hstep := hcame.step hop
    obtain ⟨opened', visited', hnext⟩ := hstep.balanced
    have hspares' := fun hspared => forall_mem_cons.mp (hspares hspared)
    obtain ⟨hafter, ⟨rest, hbody, hfeeds⟩, hcalls⟩ := ih hnext fun hspared => (hspares' hspared).2
    obtain ⟨entries, hentries, hfed⟩ :=
      BodyOp.feeds hcame.currentFrame hop fun hspared => (hspares' hspared).1
    refine ⟨?_, ⟨entries ++ rest, ?_, ?_⟩, ?_⟩
    · exact (After.of_leavesAlone h hbefore.toLeavesAlone).trans (hstep.trans hafter)
    · exact hentries.append hbody
    · exact (Feeds.nothing hbefore.sections).trans (hfed.trans hfeeds)
    · intro t site hmem
      rcases mem_cons.mp hmem with heq | hmem
      · cases heq
        exact hafter.isLeaf (hcame.isLeaf_of_call hop)
      · exact hcalls t site hmem

end

theorem prologue {r : Runner} {first : Session} (hwf : s.tree.WellFormed)
    (hunused : s.tree.Unused f) {name : String}
    (hscope : s.tree.functionScope? (s.engine r.engine).currentScope name = some own)
    (hopens : Win64.Opens r own f s first s') :
    Balanced r.engine f own (s.engine r.engine).scopes [own] (· = own) s' := by
  obtain ⟨hstanding, hunset, hpointer, hextent, hbytes⟩ :=
    Standing.prologue hwf hunused hscope hopens
  refine ⟨hstanding, hunset, ?_, hextent⟩
  rw [heldBytes_cons, hbytes, hpointer]
  rfl

end Balanced

end StagedAsm
