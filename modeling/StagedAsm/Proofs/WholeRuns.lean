import StagedAsm.Proofs.Reached

/-!
# Relations that whole runs stay in

An engine that runs a program takes its deeds and begins and ends passes around them. What holds of
every step, whoever is at work, holds of every run: of passes, programs, instances, and so of all
sessions that can be reached.
-/

namespace StagedAsm

variable {R : Session → Session → Prop}

/-! ## Passes -/

/-- What an engine does when it runs passes, besides its actions. -/
inductive PassStep (e : EngineId) : Session → Session → Prop where
  | start {s : Session} (pass : Pass) : PassStep e s (s.start e pass)
  | own {s : Session} (f : Engine → Engine)
      (hf : ∀ engine, (f engine).scopes = engine.scopes ∧
        ((f engine).ownsEpoch = true → engine.ownsEpoch = true) ∧
        (f engine).sections = engine.sections) :
      PassStep e s { s with engines := s.engines.modify e.index f }
  | openEpoch {s : Session} (h : s.epoch = none) :
      PassStep e s { s with
        epoch := some {}
        engines := s.engines.modify e.index fun engine => { engine with ownsEpoch := true }
        history := s.history.push (.opened e) }
  | finished {s : Session} (pass : Pass) :
      PassStep e s { s with history := s.history.push (.finished e pass) }

/-- A relation that an engine stays in when it runs programs. -/
class AdmitsPasses (e : EngineId) (R : Session → Session → Prop) : Prop
    extends AdmitsDeeds e R where
  pass {s s' : Session} (h : PassStep e s s') : R s s'
  close {s : Session} (h : (s.engine e).ownsEpoch = true) : R s (leaves closeEpoch s)

namespace Runner

variable (r : Runner) [AdmitsPasses r.engine R]

theorem moves_openEpoch : Moves R r.openEpoch := by
  refine .look_bind fun s => ?_
  split
  · rename_i hnone
    have hopen : R s _ := AdmitsPasses.pass (e := r.engine) (.openEpoch (by simpa using hnone))
    exact hopen
  · exact refl_of R s

theorem moves_settleEpoch : Moves R r.settleEpoch := by
  intro s
  refine Moves.leaves_bind (r.engine.moves_state s) fun engine s' hstate => ?_
  cases hstate
  split
  · rename_i howns
    refine Moves.leaves_bind (AdmitsPasses.close (e := r.engine) howns) fun _ s' _ => ?_
    exact AdmitsPasses.pass (.own _ fun _ => ⟨rfl, fun h => (nomatch h), rfl⟩)
  · exact refl_of R s

variable (hadvance : ∀ id pass, Moves R (r.advance id pass))

include hadvance

variable (program : Program) (upTo : Pass) (depth : Nat)

theorem moves_runPass (pass : Pass) : Moves R (r.runPass program depth pass) :=
  .seq (.modify fun _ => AdmitsPasses.pass (.start pass)) <|
    .seq (r.moves_performPass hadvance
      (.modify fun _ => AdmitsPasses.pass (.own _ fun _ => ⟨rfl, id, rfl⟩))
      r.moves_openEpoch) <|
      .seq (r.moves_leavePass r.moves_settleEpoch pass) <|
        .seq (.modify fun _ => AdmitsPasses.pass (.own _ fun _ => ⟨rfl, id, rfl⟩)) <|
          .modify fun _ => AdmitsPasses.pass (.finished pass)

theorem moves_runPasses (passes : List Pass) : Moves R (r.runPasses program upTo depth passes) := by
  induction passes with
  | nil => exact .pure _
  | cons pass rest ih =>
    exact .seq r.engine.moves_state <| .when (r.moves_runPass hadvance program depth pass) ih

theorem moves_compile : Moves R (r.compile program upTo) := by
  refine .bind r.engine.moves_state fun before =>
    .bind (.attempt (r.moves_runPasses hadvance program upTo _ _)) fun outcome => ?_
  split
  · exact .seq (.modify fun _ => AdmitsPasses.pass (.own _ fun _ => ⟨rfl, id, rfl⟩)) <|
      .seq r.engine.moves_state <| .fail _
  · exact .seq r.engine.moves_state <| .check (.ite (.fail _) (.pure _))

end Runner

/-! ## Instances -/

/-- What running an instance does to a session, besides what its engine does. -/
inductive InstanceStep : Session → Session → Prop where
  | requested {s : Session} (id : InstanceId) (pass : Pass) :
      InstanceStep s { s with history := s.history.push (.requested id pass) }
  | busy {s : Session} (id : InstanceId) (busy : Bool) :
      InstanceStep s { s with
        instances := s.instances.modify id.index fun i => { i with isBusy := busy } }
  | advanced {s : Session} (id : InstanceId) (pass : Pass) :
      InstanceStep s { s with history := s.history.push (.advanced id pass) }

variable {advance : InstanceId → Pass → CompileM Unit} {s : Session} {engines : List EngineId}

theorem step_compileInstance [IsPreorder Session R]
    (hinstance : ∀ {s s'}, InstanceStep s s' → R s s') {id : InstanceId} {pass : Pass}
    (hcompile : ∀ s', s'.history = s.history.push (.requested id pass) → R s' (leaves
      (Runner.compile ⟨(s.instanceAt id).engine, advance⟩ (s.instanceAt id).program pass) s')) :
    R s (leaves (compileInstance advance id pass) s) := by
  have hlook : (get : CompileM Session) s = .ok s s := rfl
  rw [compileInstance, leaves_bind_of_ok hlook]
  dsimp only
  split
  · exact refl_of R s
  · split
    · exact refl_of R s
    · refine Moves.leaves_bind (hinstance (.requested id pass)) fun _ s1 hrequest => ?_
      refine Moves.leaves_bind (hinstance (.busy id true)) fun _ s2 hbusy => ?_
      have hhistory : s2.history = s.history.push (.requested id pass) := by
        cases hrequest
        cases hbusy
        rfl
      refine Moves.leaves_bind ?_ fun outcome s3 _ => ?_
      · rw [leaves_attempt]
        exact hcompile s2 hhistory
      · refine Moves.leaves_bind (hinstance (.busy id false)) fun _ s4 _ => ?_
        exact Moves.leaves_bind (Moves.ofExcept outcome s4) fun _ _ _ =>
          hinstance (.advanced id pass)

/-- A relation that all engines and all instances stay in. -/
class AdmitsEngines (R : Session → Session → Prop) : Prop where
  passes (e : EngineId) : AdmitsPasses e R
  instances {s s' : Session} (h : InstanceStep s s') : R s s'

instance [AdmitsEngines R] (e : EngineId) : AdmitsPasses e R := AdmitsEngines.passes e

theorem moves_compileInstance [AdmitsEngines R] (hadvance : ∀ id pass, Moves R (advance id pass))
    (id : InstanceId) (pass : Pass) : Moves R (compileInstance advance id pass) :=
  have : IsPreorder Session R := (AdmitsEngines.passes (R := R) default).toIsPreorder
  fun _ => step_compileInstance AdmitsEngines.instances fun s' _ =>
    Runner.moves_compile ⟨_, advance⟩ hadvance _ pass s'

theorem moves_advanceWithin [AdmitsEngines R] (depth : Nat) (id : InstanceId) (pass : Pass) :
    Moves R (advanceWithin depth id pass) := by
  induction depth generalizing id pass with
  | zero =>
    have : IsPreorder Session R := (AdmitsEngines.passes (R := R) default).toIsPreorder
    exact .throw _
  | succ depth ih => exact moves_compileInstance ih id pass

/-! ## Steps that leave it open who is at work -/

def Event.ofRun : Event → Bool
  | .opened _ => true
  | .finished _ _ => true
  | .requested _ _ => true
  | .advanced _ _ => true
  | _ => false

inductive RunStep : Session → Session → Prop where
  | engine {s : Session} (e : EngineId) (f : Engine → Engine) :
      RunStep s { s with engines := s.engines.modify e.index f }
  | openEpoch {s : Session} : RunStep s { s with epoch := some {} }
  | start {s : Session} (e : EngineId) (pass : Pass) : RunStep s (s.start e pass)
  | busy {s : Session} (id : InstanceId) (busy : Bool) :
      RunStep s { s with
        instances := s.instances.modify id.index fun i => { i with isBusy := busy } }
  | happened {s : Session} (event : Event) (h : event.ofRun = true) :
      RunStep s { s with history := s.history.push event }

/-- A relation that whole runs stay in. -/
class AdmitsRuns (R : Session → Session → Prop) : Prop extends Admits R where
  run {s s' : Session} (h : RunStep s s') : R s s'

instance [AdmitsRuns R] (e : EngineId) : AdmitsEngine e R where
  engine f _ := AdmitsRuns.run (.engine e f)

instance [AdmitsRuns R] (e : EngineId) : AdmitsPasses e R where
  deed h := h.related
  pass {s s'} h := by
    cases h with
    | start pass => exact AdmitsRuns.run (.start e pass)
    | own f hf => exact AdmitsRuns.run (.engine e f)
    | openEpoch h =>
      have hengine := trans_of R (AdmitsRuns.run (s := s) .openEpoch)
        (AdmitsRuns.run (.engine e fun engine => { engine with ownsEpoch := true }))
      exact trans_of R hengine (AdmitsRuns.run (.happened (.opened e) rfl))
    | finished pass => exact AdmitsRuns.run (.happened _ rfl)
  close _ := moves_closeEpoch _

instance [AdmitsRuns R] : AdmitsEngines R where
  passes _ := inferInstance
  instances h := by
    cases h with
    | requested id pass => exact AdmitsRuns.run (.happened _ rfl)
    | busy id busy => exact AdmitsRuns.run (.busy id busy)
    | advanced id pass => exact AdmitsRuns.run (.happened _ rfl)

/-! ## Sessions that can be reached -/

theorem Reached.related_of [AdmitsEngines R]
    (hforked : ∀ {s s' : Session} {engine : Engine}, engine.IsNew →
      Quiet { s with engines := s.engines.push engine } s' → R s s') (hs : Reached engines s) :
    ∃ settings, R { settings } s := by
  have : AdmitsPasses default R := AdmitsEngines.passes default
  induction hs with
  | new settings => exact ⟨settings, refl_of R _⟩
  | start hs h ih =>
    obtain ⟨settings, ih⟩ := ih
    obtain ⟨-, engine, hnew, hquiet⟩ := startEngine_eq_ok h
    exact ⟨settings, trans_of R ih (hforked hnew hquiet)⟩
  | fork hs h ih =>
    obtain ⟨settings, ih⟩ := ih
    obtain ⟨-, engine, hnew, hquiet⟩ := fork_eq_ok h
    exact ⟨settings, trans_of R ih (hforked hnew hquiet)⟩
  | build statements hs ih =>
    obtain ⟨settings, ih⟩ := ih
    exact ⟨settings, trans_of R ih (moves_buildProgram statements _)⟩
  | @compile _ s e depth program upTo hs he ih =>
    obtain ⟨settings, ih⟩ := ih
    exact ⟨settings, trans_of R ih
      (Runner.moves_compile ⟨e, advanceWithin depth⟩ (moves_advanceWithin depth) program upTo s)⟩
  | @command _ s e depth c hs he ih =>
    obtain ⟨settings, ih⟩ := ih
    exact ⟨settings, trans_of R ih
      (Runner.moves_runCommand ⟨e, advanceWithin depth⟩ (moves_advanceWithin depth) c s)⟩
  | @read _ s hs ih =>
    obtain ⟨settings, ih⟩ := ih
    have hread : Calm s { s with log := [] } := .of_eq rfl rfl
    exact ⟨settings, trans_of R ih (AdmitsCalm.calm hread)⟩

theorem Reached.related [AdmitsRuns R] (hs : Reached engines s) : ∃ settings, R { settings } s :=
  hs.related_of fun hnew hquiet =>
    trans_of R (Admits.step (.fork _ hnew)) (AdmitsQuiet.quiet hquiet)

end StagedAsm
