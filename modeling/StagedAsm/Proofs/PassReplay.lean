import StagedAsm.Proofs.BlockTurns
import StagedAsm.Proofs.InstanceRuns
import StagedAsm.Proofs.RewoundBlocks

/-!
# Passes that make the same moves

A program whose passes make the same moves comes to the same scopes in all of them, as long as it
leaves no scope that was open before and no instance runs meanwhile.
-/

namespace StagedAsm

open List Session

/-! ## What happened -/

/-- Nothing that happened is forgotten. -/
def HistoryGrows (s s' : Session) : Prop := s.history.toList <+: s'.history.toList

namespace HistoryGrows

variable {s s' : Session}

theorem of_eq (h : s'.history = s.history) : HistoryGrows s s' := ⟨[], by rw [h, append_nil]⟩

theorem of_push {event : Event} (h : s'.history = s.history.push event) : HistoryGrows s s' :=
  ⟨[event], by rw [h, Array.toList_push]⟩

theorem of_step (h : Step s s') : HistoryGrows s s' := by
  rcases h.still_or with hstill | ⟨engine, _, rfl⟩ | ⟨s1, id, made, pass, hmake, rfl⟩
  · rcases hstill.history with hhistory | ⟨event, hhistory, -⟩
    · exact of_eq hhistory
    · exact of_push hhistory
  · exact of_eq rfl
  · exact ⟨_, (hmake.history_eq pass).symm⟩

instance : IsPreorder Session HistoryGrows where
  refl _ := List.prefix_refl _
  trans _ _ _ h h' := h.trans h'

instance : Admits HistoryGrows where
  quiet h := of_step (.quiet h)
  step := of_step

instance : AdmitsRuns HistoryGrows where
  run h := by
    cases h with
    | happened event h => exact of_push rfl
    | _ => exact of_eq rfl

end HistoryGrows

/-- No instance was asked to run between two sessions. -/
def Undisturbed (s s' : Session) : Prop :=
  ∀ new, s'.history.toList = s.history.toList ++ new → ∀ id pass, .requested id pass ∉ new

variable {s s' : Session} {e : EngineId} {depth : Nat} {program : Program} {upTo : Pass}

theorem Undisturbed.split {s1 : Session} (h : Undisturbed s s') (hfirst : HistoryGrows s s1)
    (hsecond : HistoryGrows s1 s') : Undisturbed s s1 ∧ Undisturbed s1 s' := by
  obtain ⟨first, hfirst⟩ := hfirst
  obtain ⟨second, hsecond⟩ := hsecond
  have hall := h (first ++ second) (by rw [← hsecond, ← hfirst, append_assoc])
  refine ⟨fun new hnew id pass hmem => ?_, fun new hnew id pass hmem => ?_⟩
  · rw [← hfirst, append_cancel_left_eq] at hnew
    exact hall id pass (mem_append_left _ (hnew ▸ hmem))
  · rw [← hsecond, append_cancel_left_eq] at hnew
    exact hall id pass (mem_append_right _ (hnew ▸ hmem))

def Event.isRequest : Event → Bool
  | requested _ _ => true
  | _ => false

theorem Undisturbed.of_all
    (h : (s'.history.toList.drop s.history.toList.length).all (!·.isRequest) = true) :
    Undisturbed s s' := by
  intro new hnew id pass hmem
  rw [hnew, drop_left] at h
  exact absurd (all_eq_true.mp h _ hmem) (by simp [Event.isRequest])

/-! ## An engine on its own -/

def Alone (e : EngineId) (s s' : Session) : Prop :=
  HistoryGrows s s' ∧ (s.Grounded → Undisturbed s s' → ∃ visits, Tour e s s' visits)

namespace Alone

variable {e : EngineId} {s s' : Session}

instance : IsPreorder Session (Alone e) where
  refl s := ⟨refl_of HistoryGrows s, fun hs _ => ⟨[], .refl hs⟩⟩
  trans _ _ _ h h' := by
    refine ⟨h.1.trans h'.1, fun hs hundisturbed => ?_⟩
    obtain ⟨hfirst, hsecond⟩ := hundisturbed.split h.1 h'.1
    obtain ⟨visits, htour⟩ := h.2 hs hfirst
    obtain ⟨visits', htour'⟩ := h'.2 htour.grounded hsecond
    exact ⟨visits ++ visits', htour.append htour'⟩

instance : AdmitsDeeds e (Alone e) where
  deed h := ⟨h.related, fun hs _ => h.tour hs⟩

instance : AdmitsRebinds (Alone e) where
  plain h := AdmitsDeeds.deed (e := e) (.plain h)
  rebind {s id owner name symbol} howner hname hsettled := by
    refine ⟨AdmitsRebinds.rebind howner hname hsettled, fun hs _ => ⟨[], ?_⟩⟩
    have hsteady : s.tree.Steady (s.rebind owner name symbol).tree :=
      ScopeTree.steady_modifyScope rfl rfl
    have hgrounded := (AdmitsRebinds.rebind (R := Travels) howner hname hsettled hs).1
    exact .of_engines hgrounded hsteady rfl

theorem of_pass (h : PassStep e s s')
    (hengine : e.index < s.engines.size → (s'.engine e).currentPass = (s.engine e).currentPass) :
    Alone e s s' := by
  have hgrounded : s.Grounded → s'.Grounded := fun hs => (AdmitsPasses.pass (R := Travels) h hs).1
  have hmodify : ∀ f, e.index < s.engines.size →
      ({ s with engines := s.engines.modify e.index f } : Session).engine e = f (s.engine e) :=
    fun f he => (s.engine_modify e e f).trans (if_pos ⟨rfl, he⟩)
  refine ⟨AdmitsPasses.pass h, fun hs _ => ⟨[], ?_⟩⟩
  cases h with
  | start pass => exact .of_engines (hgrounded hs) (.refl _) rfl
  | own f hf =>
    refine .of_steady (hgrounded hs) (.refl _) (by simp) fun he => ⟨hengine he, ?_⟩
    rw [hmodify f he]
    exact (hf _).1
  | openEpoch h =>
    refine .of_steady (hgrounded hs) (.refl _) (by simp) fun he => ⟨hengine he, ?_⟩
    have howns := congrArg Engine.scopes
      (hmodify (fun engine => { engine with ownsEpoch := true }) he)
    exact howns
  | finished pass => exact .of_engines (hgrounded hs) (.refl _) rfl

theorem advance (depth : Nat) (id : InstanceId) (pass : Pass) :
    Moves (Alone e) (advanceWithin depth id pass) := by
  intro s
  cases depth with
  | zero => exact refl_of (Alone e) s
  | succ depth =>
    have hleaves : leaves (compileInstance (advanceWithin depth) id pass) s =
        leaves (advanceWithin (depth + 1) id pass) s := rfl
    rcases leaves_compileInstance hleaves with hsame | ⟨-, -, s1, hrun, hrest⟩
    · rw [hsame]
      exact refl_of (Alone e) s
    -- the request is the first thing that happens
    · have hfirst : HistoryGrows (s.engage id pass) s1 := by
        rw [← hrun]
        exact Runner.moves_compile ⟨_, advanceWithin depth⟩ (moves_advanceWithin depth) _ pass _
      have hgrows :
          HistoryGrows (s.engage id pass) (leaves (advanceWithin (depth + 1) id pass) s) := by
        rcases hrest with hleft | hleft | ⟨-, hleft⟩
        · rw [hleft]
          exact hfirst
        · rw [hleft]
          exact hfirst
        · rw [hleft]
          exact hfirst.trans (HistoryGrows.of_push (s := s1) rfl)
      refine ⟨(HistoryGrows.of_push rfl).trans hgrows, fun _ hundisturbed => ?_⟩
      obtain ⟨new, hnew⟩ := hgrows
      refine absurd mem_cons_self (hundisturbed (.requested id pass :: new) ?_ id pass)
      rw [← hnew]
      simp [engage, setBusy]

end Alone

/-! ## One pass -/

/-- A part of a computation that succeeds, which may be left out. -/
theorem Moves.next_when {α : Type} {R : Session → Session → Prop} [IsPreorder Session R] {c : Prop}
    [Decidable c] {m : CompileM PUnit} {k : PUnit → CompileM α} {s0 : Session} {a : α}
    (hm : Moves R m) (hbefore : R s0 s) (h : (if c then m >>= k else k ⟨⟩) s = .ok a s') :
    ∃ s1, R s0 s1 ∧ k ⟨⟩ s1 = .ok a s' := by
  split at h
  · obtain ⟨_, s1, hbefore, h⟩ := hm.next hbefore h
    exact ⟨s1, hbefore, h⟩
  · exact ⟨s, hbefore, h⟩

def Stays (e : EngineId) (s s' : Session) : Prop :=
  Alone e s s' ∧ (s'.engine e).scopes = (s.engine e).scopes

namespace Stays

variable {e : EngineId}

instance : IsPreorder Session (Stays e) where
  refl s := ⟨refl_of (Alone e) s, rfl⟩
  trans _ _ _ h h' := ⟨trans_of (Alone e) h.1 h'.1, h'.2.trans h.2⟩

instance : AdmitsRebinds (Stays e) where
  plain h := by
    refine ⟨AdmitsPlain.plain h, ?_⟩
    rw [engine, h.engines, engine]
  rebind howner hname hsettled := ⟨AdmitsRebinds.rebind howner hname hsettled, rfl⟩

theorem modifyEngine {f : Engine → Engine} {s : Session}
    (halone : Alone e s { s with engines := s.engines.modify e.index f })
    (hf : (f (s.engine e)).scopes = (s.engine e).scopes) :
    Stays e s { s with engines := s.engines.modify e.index f } := by
  refine ⟨halone, ?_⟩
  rw [engine_modify]
  split
  · exact hf
  · rfl

instance : AdmitsOutput e (Stays e) where
  output change f hf := modifyEngine (AdmitsOutput.output change f hf) rfl

theorem settleEpoch (depth : Nat) : Moves (Stays e) (e.runner depth).settleEpoch := by
  refine .bind e.moves_state fun _ => .ite (.bind moves_closeEpoch fun _ => .modify fun s => ?_)
    (.pure _)
  refine modifyEngine (.of_pass (.own _ fun _ => ⟨rfl, fun h => (nomatch h), rfl⟩) fun he => ?_) rfl
  rw [engine_modify, if_pos ⟨rfl, he⟩]
  rfl

end Stays

theorem Alone.openEpoch (depth : Nat) : Moves (Alone e) (e.runner depth).openEpoch := by
  refine .look_bind fun s => ?_
  split
  · rename_i hnone
    have hopen : PassStep e s _ := .openEpoch (by simpa using hnone)
    refine of_pass hopen fun he => ?_
    have hengine := s.engine_modify e e fun engine => { engine with ownsEpoch := true }
    rw [if_pos ⟨rfl, he⟩] at hengine
    have hsame := congrArg Engine.currentPass hengine
    exact hsame
  · exact refl_of (Alone e) s

def Session.running (s : Session) (e : EngineId) (pass : Pass) : Session :=
  { s.start e pass with
    engines := s.engines.modify e.index fun engine => { engine with running := some pass } }

section OnePass

variable {e : EngineId} {depth length : Nat} {program : Program} {pass : Pass} {s s' : Session}

theorem Session.Grounded.running (hs : s.Grounded) : (s.running e pass).Grounded := by
  have hstart : (s.start e pass).Grounded := (AdmitsPasses.pass (R := Travels) (.start pass) hs).1
  exact hstart.own fun _ _ hid => hid

theorem Session.engine_running (he : e.index < s.engines.size) :
    (s.running e pass).engine e = { s.engine e with running := some pass } :=
  (s.engine_modify e e fun engine => { engine with running := some pass }).trans (if_pos ⟨rfl, he⟩)

theorem Runner.runPass_alone (h : (e.runner depth).runPass program length pass s = .ok () s') :
    ∃ s1 s2, Alone e (s.running e pass) s1 ∧ (s1.engine e).scopes.length = length ∧
      e.endPass s1 = .ok () s2 ∧ s' = s2.finish e pass := by
  obtain ⟨s1, s2, hperform, hleave, rfl⟩ := Runner.runPass_eq_ok h
  obtain ⟨_, s3, hrunning, h3⟩ := bind_eq_ok.mp hperform
  obtain rfl : s3 = s.running e pass := modify_eq_ok.mp hrunning
  obtain ⟨s4, halone, h4⟩ := (Alone.openEpoch depth).next_when (refl_of (Alone e) _) h3
  obtain ⟨_, s5, halone, h5⟩ := (Runner.moves_runActions ⟨e, advanceWithin depth⟩
    (Alone.advance (e := e) depth) pass program).next halone h4
  obtain ⟨engine, s6, hstate, h6⟩ := bind_eq_ok.mp h5
  cases hstate
  have hlength : (s5.engine e).scopes.length = length ∧ s1 = s5 := by
    split at h6
    · cases h6
    · rename_i hlength
      cases h6
      exact ⟨Decidable.of_not_not hlength, rfl⟩
  obtain ⟨hlength, rfl⟩ := hlength
  -- the engine stays where it is until the pass ends
  unfold Runner.leavePass at hleave
  obtain ⟨s7, hstays, h7⟩ := (Stays.settleEpoch depth).next_when (refl_of (Stays e) s1) hleave
  obtain ⟨s8, hstays, h8⟩ := e.moves_closeSections.next_when hstays h7
  refine ⟨s8, s2, trans_of (Alone e) halone hstays.1, ?_, h8, rfl⟩
  rw [hstays.2, hlength]

theorem EngineId.endPass_eq_ok (h : e.endPass s = .ok () s') :
    ∃ tree, ScopeTree.rewindBlocks (s.engine e).currentScope s.tree = .ok () tree ∧
      s' = e.going .endPass (s.engine e).currentScope { s with tree } := by
  obtain ⟨scope, s1, hscope, h1⟩ := bind_eq_ok.mp h
  cases hscope
  obtain ⟨_, s2, hrewind, h2⟩ := bind_eq_ok.mp h1
  obtain ⟨tree, htree, rfl⟩ := onTree_eq_ok.mp hrewind
  exact ⟨tree, htree, modify_eq_ok.mp h2⟩

/-- The moves of an engine in one pass. -/
structure Leg (e : EngineId) (pass : Pass) (s s' : Session) (visits : List Visit) : Prop where
  grounded : s'.Grounded
  lt : e.index < s'.engines.size
  strides : s.tree.Strides visits s'.tree
  follows : Follows e pass (s.engine e).scopes visits (s'.engine e).scopes
  length : (s'.engine e).scopes.length = (s.engine e).scopes.length
  ends : ∃ moves last, visits = moves ++ [last] ∧ last.move = .endPass

theorem Runner.runPass_leg (hs : s.Grounded) (he : e.index < s.engines.size)
    (hundisturbed : Undisturbed s s')
    (h : (e.runner depth).runPass program (s.engine e).scopes.length pass s = .ok () s') :
    ∃ visits, Leg e pass s s' visits := by
  obtain ⟨s1, s2, halone, hlength, hend, rfl⟩ := Runner.runPass_alone h
  obtain ⟨tree, hrewind, rfl⟩ := EngineId.endPass_eq_ok hend
  have hgrows : HistoryGrows s1 ((e.going .endPass (s1.engine e).currentScope
      { s1 with tree }).finish e pass) := .of_push rfl
  obtain ⟨visits, htour⟩ := halone.2 hs.running
    (Undisturbed.split (s := s.running e pass) hundisturbed halone.1 hgrows).1
  obtain ⟨last, hlast, htour'⟩ := htour.grounded.tour_endPass hrewind
  have hall := htour.append htour'
  have he' : e.index < (s.running e pass).engines.size := by simpa [running] using he
  have hpass : ((s.running e pass).engine e).currentPass = pass := by
    rw [engine_running he]
    rfl
  have hscopes : ((s.running e pass).engine e).scopes = (s.engine e).scopes := by
    rw [engine_running he]
  have hfollows := hall.follows he'
  rw [hpass, hscopes] at hfollows
  have hfinish : ∀ s : Session, ((s.finish e pass).engine e).scopes = (s.engine e).scopes := by
    intro s
    have hengine := s.engine_modify e e fun engine =>
      { engine with running := none, completed := some pass }
    have hsame : (({ s with engines := s.engines.modify e.index fun engine =>
        { engine with running := none, completed := some pass } } : Session).engine e).scopes =
          (s.engine e).scopes := by
      rw [hengine]
      split <;> rfl
    exact hsame
  have hgrounded := hall.grounded.own (e := e)
    (f := fun engine => { engine with running := none, completed := some pass }) fun _ _ hid => hid
  refine ⟨visits ++ [last], ?_, ?_, hall.strides, ?_, ?_, visits, last, rfl, hlast⟩
  · exact hgrounded.grown hgrounded.tree (le_refl _)
  · have hsize := lt_of_lt_of_le he' hall.size_engines
    simpa [finish] using hsize
  · rw [hfinish]
    exact hfollows
  · rw [hfinish]
    exact hlength

end OnePass

/-! ## Passes one after the other -/

/-- The moves of an engine in passes that it ran one after the other. -/
inductive Legs (e : EngineId) : Session → List (Pass × List Visit) → Session → Prop where
  | nil (s : Session) : Legs e s [] s
  | cons {s s1 s' : Session} {pass : Pass} {visits : List Visit} {rest : List (Pass × List Visit)}
      (hleg : Leg e pass s s1 visits) (hrest : Legs e s1 rest s') :
      Legs e s ((pass, visits) :: rest) s'

def visitsIn (pass : Pass) (visits : List Visit) : List Visit :=
  visits.filter fun v => v.pass = pass

theorem visitsIn_append (pass : Pass) (first later : List Visit) :
    visitsIn pass (first ++ later) = visitsIn pass first ++ visitsIn pass later :=
  filter_append first later

theorem Follows.visitsIn {pass : Pass} {scopes last : List ScopeId} {visits : List Visit}
    (h : Follows e pass scopes visits last) (other : Pass) :
    visitsIn other visits = if other = pass then visits else [] := by
  induction visits generalizing scopes with
  | nil => simp [StagedAsm.visitsIn]
  | cons v rest ih =>
    have hrest := ih h.2
    rw [StagedAsm.visitsIn] at hrest
    rw [StagedAsm.visitsIn, filter_cons, hrest, h.1.pass]
    by_cases hother : other = pass
    · simp [hother]
    · simp [hother, Ne.symm hother]

namespace Legs

variable {e : EngineId} {s s' : Session} {legs : List (Pass × List Visit)}

/-- Two passes come to the same scopes if they make the same moves. -/
def Agree (a b : Pass × List Visit) : Prop :=
  a.2.map Visit.move = b.2.map Visit.move → a.2.map Visit.after = b.2.map Visit.after

instance : Std.Symm Agree := ⟨fun _ _ h hmoves => (h hmoves.symm).symm⟩

theorem strides (h : Legs e s legs s') : s.tree.Strides (legs.flatMap (·.2)) s'.tree := by
  induction h with
  | nil s => exact .nil s.tree
  | cons hleg hrest ih => exact hleg.strides.append ih

variable {pass : Pass}

theorem visitsIn_of_not_mem (h : Legs e s legs s') (hpass : pass ∉ legs.map (·.1)) :
    visitsIn pass (legs.flatMap (·.2)) = [] := by
  induction h with
  | nil s => rfl
  | cons hleg hrest ih =>
    rw [map_cons, mem_cons, not_or] at hpass
    rw [flatMap_cons, visitsIn_append, hleg.follows.visitsIn, if_neg hpass.1, ih hpass.2,
      append_nil]

theorem visitsIn_of_mem (h : Legs e s legs s') (hnodup : (legs.map (·.1)).Nodup)
    {visits : List Visit} (hmem : (pass, visits) ∈ legs) :
    visitsIn pass (legs.flatMap (·.2)) = visits := by
  induction h with
  | nil s => cases hmem
  | @cons s s1 s' first found rest hleg hrest ih =>
    obtain ⟨hfresh, hnodup⟩ := nodup_cons.mp hnodup
    rw [flatMap_cons, visitsIn_append, hleg.follows.visitsIn]
    rcases mem_cons.mp hmem with heq | hlater
    · cases heq
      rw [if_pos rfl, hrest.visitsIn_of_not_mem hfresh, append_nil]
    · have hne : pass ≠ first := by
        rintro rfl
        exact hfresh (mem_map.mpr ⟨_, hlater, rfl⟩)
      rw [if_neg hne, ih hnodup hlater, nil_append]

theorem exists_leg (h : Legs e s legs s')
    (hinside : ∀ leg ∈ legs, staysInside 0 (leg.2.map Visit.move) = true) {leg : Pass × List Visit}
    (hmem : leg ∈ legs) :
    ∃ between s1 s2, s.tree.Strides between s1.tree ∧
      (s1.engine e).scopes = (s.engine e).scopes ∧ Leg e leg.1 s1 s2 leg.2 := by
  induction h with
  | nil s => cases hmem
  | @cons s s1 s' pass visits rest hleg hrest ih =>
    rcases mem_cons.mp hmem with rfl | hmem
    · exact ⟨[], s, s1, .nil _, rfl, hleg⟩
    · obtain ⟨between, s2, s3, hbetween, hscopes, hlater⟩ :=
        ih (fun leg hleg => hinside leg (mem_cons_of_mem _ hleg)) hmem
      have hback := hleg.follows.returns (hinside _ mem_cons_self) hleg.length
      exact ⟨visits ++ between, s2, s3, hleg.strides.append hbetween, hscopes.trans hback, hlater⟩

theorem replayed (h : Legs e s legs s') (hs : s.Grounded)
    (hinside : ∀ leg ∈ legs, staysInside 0 (leg.2.map Visit.move) = true) :
    legs.Pairwise Agree := by
  induction h with
  | nil s => exact .nil
  | @cons s s1 s' pass visits rest hleg hrest ih =>
    have hinside' : ∀ leg ∈ rest, staysInside 0 (leg.2.map Visit.move) = true := fun leg hleg =>
      hinside leg (mem_cons_of_mem _ hleg)
    refine pairwise_cons.mpr ⟨fun leg hmem hmoves => ?_, ih hleg.grounded hinside'⟩
    obtain ⟨between, s2, s3, hbetween, hscopes, hlater⟩ := hrest.exists_leg hinside' hmem
    have hstays := hinside _ mem_cons_self
    have hback := hleg.follows.returns hstays hleg.length
    have hstrides := hleg.strides
    have hstrides' := hlater.strides
    have hfollows := hleg.follows
    have hfollows' := hlater.follows
    rw [hscopes, hback] at hfollows'
    obtain ⟨moves, last, rfl, hlast⟩ := hleg.ends
    obtain ⟨moves', last', hmoves', hlast'⟩ := hlater.ends
    rw [hmoves'] at hstrides' hfollows' hmoves ⊢
    refine hstrides.replayed hs.tree hbetween hstrides' hfollows hfollows' hlast ?_ hstays hmoves
    rw [hback, Nat.zero_add]

theorem staysInside_root (h : Legs e s legs s') (hroot : (s.engine e).scopes = [ScopeTree.root]) :
    ∀ leg ∈ legs, staysInside 0 (leg.2.map Visit.move) = true := by
  induction h with
  | nil s => simp
  | @cons s s1 s' pass visits rest hleg hrest ih =>
    have hfollows : Follows e pass ([] ++ [ScopeTree.root]) visits (s1.engine e).scopes :=
      hroot ▸ hleg.follows
    have hinside := hfollows.staysInside_root
    -- so the next pass begins at the root as well
    have hback := hleg.follows.returns hinside hleg.length
    intro leg hmem
    rcases mem_cons.mp hmem with rfl | hlater
    · exact hinside
    · exact ih (hback.trans hroot) leg hlater

end Legs

theorem Runner.runPasses_legs {passes : List Pass} (hs : s.Grounded) (he : e.index < s.engines.size)
    (hundisturbed : Undisturbed s s')
    (h : (e.runner depth).runPasses program upTo (s.engine e).scopes.length passes s = .ok () s') :
    ∃ legs, Legs e s legs s' ∧ (legs.map (·.1)).Sublist passes := by
  induction passes generalizing s with
  | nil =>
    cases h
    exact ⟨[], .nil _, .slnil⟩
  | cons pass rest ih =>
    obtain ⟨s1, hrest, ⟨-, -, hrun⟩ | ⟨-, rfl⟩⟩ := Runner.runPasses_cons_eq_ok h
    · have hgrows : HistoryGrows s s1 := (Runner.moves_runPass ⟨e, advanceWithin depth⟩
        (moves_advanceWithin depth) program _ pass).of_ok hrun
      have hgrows' : HistoryGrows s1 s' := (Runner.moves_runPasses ⟨e, advanceWithin depth⟩
        (moves_advanceWithin depth) program upTo _ rest).of_ok hrest
      obtain ⟨hfirst, hlater⟩ := hundisturbed.split hgrows hgrows'
      obtain ⟨visits, hleg⟩ := Runner.runPass_leg hs he hfirst hrun
      have hlength : (s1.engine e).scopes.length = (s.engine e).scopes.length := hleg.length
      have hrest' : (e.runner depth).runPasses program upTo (s1.engine e).scopes.length rest s1 =
          .ok () s' := hlength ▸ hrest
      obtain ⟨legs, hlegs, hsublist⟩ := ih hleg.grounded hleg.lt hlater hrest'
      exact ⟨(pass, visits) :: legs, .cons hleg hlegs, hsublist.cons_cons _⟩
    · obtain ⟨legs, hlegs, hsublist⟩ := ih hs he hundisturbed hrest
      exact ⟨legs, hlegs, hsublist.cons _⟩

theorem Runner.compile_legs (hs : s.Grounded) (he : e.index < s.engines.size)
    (hundisturbed : Undisturbed s s') (h : (e.runner depth).compile program upTo s = .ok () s') :
    ∃ legs, Legs e s legs s' ∧ (legs.map (·.1)).Nodup := by
  obtain ⟨legs, hlegs, hsublist⟩ :=
    Runner.runPasses_legs hs he hundisturbed (Runner.compile_eq_ok h)
  exact ⟨legs, hlegs, hsublist.nodup (by decide)⟩

/-- The moves that were made in a pass. -/
def movesIn (pass : Pass) (visits : List Visit) : List ScopeMove :=
  (visitsIn pass visits).map Visit.move

/-- The scopes that the moves of a pass led to. -/
def scopesIn (pass : Pass) (visits : List Visit) : List ScopeId :=
  (visitsIn pass visits).map Visit.after

namespace Legs

variable {e : EngineId} {s s' : Session} {legs : List (Pass × List Visit)}

theorem movesIn_cases (h : Legs e s legs s') (hnodup : (legs.map (·.1)).Nodup) (pass : Pass) :
    (∃ visits, (pass, visits) ∈ legs ∧ visitsIn pass (legs.flatMap (·.2)) = visits) ∨
      visitsIn pass (legs.flatMap (·.2)) = [] := by
  by_cases hpass : pass ∈ legs.map (·.1)
  · obtain ⟨⟨_, visits⟩, hmem, rfl⟩ := mem_map.mp hpass
    exact .inl ⟨visits, hmem, h.visitsIn_of_mem hnodup hmem⟩
  · exact .inr (h.visitsIn_of_not_mem hpass)

theorem scopesIn_eq (h : Legs e s legs s') (hnodup : (legs.map (·.1)).Nodup) (hs : s.Grounded)
    (hinside : ∀ pass, staysInside 0 (movesIn pass (legs.flatMap (·.2))) = true) {p q : Pass}
    (hmoves : movesIn p (legs.flatMap (·.2)) = movesIn q (legs.flatMap (·.2))) :
    scopesIn p (legs.flatMap (·.2)) = scopesIn q (legs.flatMap (·.2)) := by
  have hlegs : ∀ leg ∈ legs, staysInside 0 (leg.2.map Visit.move) = true := by
    intro leg hmem
    have hleg := hinside leg.1
    rwa [movesIn, h.visitsIn_of_mem hnodup hmem] at hleg
  have hagree : ∀ ⦃a⦄, a ∈ legs → ∀ ⦃b⦄, b ∈ legs → Agree a b :=
    (h.replayed hs hlegs).forall_of_forall fun _ _ _ => rfl
  rw [movesIn, movesIn] at hmoves
  rw [scopesIn, scopesIn]
  rcases h.movesIn_cases hnodup p with ⟨visits, hmem, hvisits⟩ | hnone
  · rcases h.movesIn_cases hnodup q with ⟨visits', hmem', hvisits'⟩ | hnone'
    · rw [hvisits, hvisits'] at hmoves ⊢
      exact hagree hmem hmem' hmoves
    · rw [hnone'] at hmoves ⊢
      rw [map_eq_nil_iff.mp hmoves]
  · rw [hnone] at hmoves ⊢
    rw [map_eq_nil_iff.mp hmoves.symm]

end Legs

/-- Passes that make the same moves come to the same scopes, if no instance runs meanwhile and no
    scope is left that was open before; an engine that stands at the root leaves none. Whatever is
    done to a tree, the blocks of a scope are the same ever after they were rewound, and between two
    rewindings all of them are entered in the order they were made in. -/
theorem same_moves_same_scopes :
    (∀ {s s' : Session} {e : EngineId} {depth : Nat} {program : Program} {upTo : Pass},
      s.Grounded → e.index < s.engines.size →
      (e.runner depth).compile program upTo s = .ok () s' → Undisturbed s s' →
      ∃ visits, s'.tree.trail.toList = s.tree.trail.toList ++ visits ∧
        ((s.engine e).scopes = [ScopeTree.root] →
          ∀ pass, staysInside 0 (movesIn pass visits) = true) ∧
        ((∀ pass, staysInside 0 (movesIn pass visits) = true) →
          ∀ {p q : Pass}, movesIn p visits = movesIn q visits →
            scopesIn p visits = scopesIn q visits)) ∧
    (∀ {settings : Settings} {before between : List (ScopeId × TreeCommand)}
      {answers answers' : List (Except CompileError Observation × Nat)} {s s' : Session}
      {id : ScopeId} {t : ScopeTree}, staysInTree before { settings } = true →
      runTreeScript before { settings } = .ok answers s → id.index < s.tree.size →
      ScopeTree.rewindBlocks id s.tree = .ok () t →
      staysInTree between { s with tree := t } = true →
      runTreeScript between { s with tree := t } = .ok answers' s' →
      (s'.tree.scope id).blocks = (s.tree.scope id).blocks ∧
        (wasRewound id between answers' = false →
          ∀ {t' : ScopeTree}, ScopeTree.rewindBlocks id s'.tree = .ok () t' →
          enteredBlocks id between answers' = (s.tree.scope id).blocks ∧
          (enteredBlocks id between answers').Pairwise (·.index < ·.index))) := by
  constructor
  · intro s s' e depth program upTo hs he h hundisturbed
    obtain ⟨legs, hlegs, hnodup⟩ := Runner.compile_legs hs he hundisturbed h
    refine ⟨legs.flatMap (·.2), hlegs.strides.trail, fun hroot pass => ?_, fun hinside p q =>
      hlegs.scopesIn_eq hnodup hs hinside⟩
    rw [movesIn]
    rcases hlegs.movesIn_cases hnodup pass with ⟨visits, hmem, hvisits⟩ | hnone
    · rw [hvisits]
      exact hlegs.staysInside_root hroot _ hmem
    · rw [hnone]
      rfl
  · intro settings before between answers answers' s s' id t hbefore hrun hid hfirst hbetween hrest
    have hs : s.tree.Arranged := by
      have harranged := arranged_runTreeScript ScopeTree.arranged_new hbefore
      rwa [leaves_of_ok hrun] at harranged
    obtain ⟨hsame, hentered⟩ := enteredBlocks_of_rewound hs hid hfirst hbetween hrest
    exact ⟨hsame, hentered⟩

/-- An engine has begun nothing. -/
def atRoot : Session := leaves (startEngine defaultSections) {}

def entersAgain : Program :=
  let inside : Program :=
    [.enterGlobal (.ofName "N"), .enterBlock, .enterBlock, .exitBlock, .exitBlock, .exitGlobal]
  inside ++ inside ++ [.enterBlock, .exitBlock]

def enteredAgain : Session := leaves ((EngineId.runner ⟨0⟩ 0).compile entersAgain .generate) atRoot

/-- A namespace with two blocks. -/
def makesBlocks : List (ScopeId × TreeCommand) :=
  [(⟨0⟩, .addGlobal "N" none), (⟨1⟩, .nextBlock), (⟨1⟩, .nextBlock)]

def walksBlocks : List (ScopeId × TreeCommand) :=
  [(⟨1⟩, .nextBlock), (⟨1⟩, .rewindBlocks), (⟨0⟩, .nextBlock), (⟨1⟩, .nextBlock), (⟨1⟩, .nextBlock)]

def blocksMade : Session := leaves (runTreeScript makesBlocks) { settings := {} }

def rewoundOnce : Session :=
  { blocksMade with tree := leaves (ScopeTree.rewindBlocks ⟨1⟩) blocksMade.tree }

def walkAnswers : List (Except CompileError Observation × Nat) :=
  match runTreeScript walksBlocks rewoundOnce with
  | .ok answers _ => answers
  | .error _ _ => []

theorem same_moves_same_scopes_nested : (atRoot.Grounded ∧ 0 < atRoot.engines.size ∧
      (EngineId.runner ⟨0⟩ 0).compile entersAgain .generate atRoot = .ok () enteredAgain ∧
      Undisturbed atRoot enteredAgain ∧
      scopesIn .declare enteredAgain.tree.trail.toList =
        scopesIn .generate enteredAgain.tree.trail.toList) ∧
    (staysInTree makesBlocks { settings := {} } = true ∧
      staysInTree walksBlocks rewoundOnce = true ∧ wasRewound ⟨1⟩ walksBlocks walkAnswers = false ∧
      enteredBlocks ⟨1⟩ walksBlocks walkAnswers = [⟨2⟩, ⟨3⟩]) := by
  constructor
  · have hs : atRoot.Grounded :=
      (Session.Grounded.new {}).start (rfl : startEngine defaultSections {} = _)
    have hlt : 0 < atRoot.engines.size := by decide +kernel
    have hok : (EngineId.runner ⟨0⟩ 0).compile entersAgain .generate atRoot = .ok () enteredAgain :=
      eq_ok_of_succeeds (by decide +kernel)
    have hundisturbed : Undisturbed atRoot enteredAgain := .of_all (by decide +kernel)
    obtain ⟨visits, htrail, hroot, hsame⟩ :=
      same_moves_same_scopes.1 (e := ⟨0⟩) hs hlt hok hundisturbed
    have hvisits : enteredAgain.tree.trail.toList = visits := htrail
    refine ⟨hs, hlt, hok, hundisturbed, ?_⟩
    rw [← hvisits] at hroot hsame
    exact hsame (hroot (by decide +kernel)) (by decide +kernel)
  · have hbefore : staysInTree makesBlocks { settings := {} } = true := by decide +kernel
    have hinside : staysInTree walksBlocks rewoundOnce = true := by decide +kernel
    have hkept : wasRewound ⟨1⟩ walksBlocks walkAnswers = false := by decide +kernel
    refine ⟨hbefore, hinside, hkept, ?_⟩
    obtain ⟨_, s, hmakes⟩ := exists_ok_of_succeeds (m := runTreeScript makesBlocks)
      (s := { settings := {} }) (by decide +kernel)
    obtain rfl : blocksMade = s := leaves_of_ok hmakes
    have hfirst : ScopeTree.rewindBlocks ⟨1⟩ blocksMade.tree = .ok () _ :=
      eq_ok_of_succeeds (by decide +kernel)
    obtain ⟨answers, s', hwalk⟩ := exists_ok_of_succeeds (m := runTreeScript walksBlocks)
      (s := rewoundOnce) (by decide +kernel)
    obtain rfl : walkAnswers = answers := by rw [walkAnswers, hwalk]
    have hend : s' = leaves (runTreeScript walksBlocks) rewoundOnce := (leaves_of_ok hwalk).symm
    subst hend
    have hlast : ScopeTree.rewindBlocks ⟨1⟩ (leaves (runTreeScript walksBlocks) rewoundOnce).tree =
        .ok () _ := eq_ok_of_succeeds (by decide +kernel)
    obtain ⟨-, hentered⟩ :=
      same_moves_same_scopes.2 hbefore hmakes (by decide +kernel) hfirst hinside hwalk
    rw [(hentered hkept hlast).1]
    decide +kernel

def insideBlock : Session := leaves (EngineId.enterBlock ⟨0⟩) atRoot

/-- The program leaves the block it starts in and enters the next one. -/
def swapsBlocks : Program := [.exitBlock, .enterBlock]

def swappedBlocks : Session :=
  leaves ((EngineId.runner ⟨0⟩ 0).compile swapsBlocks .generate) insideBlock

/-- An engine that leaves a scope which was open before makes the same moves in all passes, but
    comes to another block each time. -/
theorem same_moves_other_scopes :
    (EngineId.runner ⟨0⟩ 0).compile swapsBlocks .generate insideBlock = .ok () swappedBlocks ∧
    Undisturbed insideBlock swappedBlocks ∧
    ∃ visits, swappedBlocks.tree.trail.toList = insideBlock.tree.trail.toList ++ visits ∧
      (∀ pass, movesIn pass visits = [.exitBlock, .enterBlock, .endPass]) ∧
      scopesIn .declare visits = [⟨0⟩, ⟨2⟩, ⟨2⟩] ∧ scopesIn .resolve visits = [⟨0⟩, ⟨3⟩, ⟨3⟩] ∧
      scopesIn .generate visits = [⟨0⟩, ⟨4⟩, ⟨4⟩] := by
  refine ⟨eq_ok_of_succeeds (by decide +kernel), .of_all (by decide +kernel),
    swappedBlocks.tree.trail.toList.drop 1, by decide +kernel, fun pass => ?_, by decide +kernel,
    by decide +kernel, by decide +kernel⟩
  cases pass <;> decide +kernel

end StagedAsm
