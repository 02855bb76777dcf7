import StagedAsm.Proofs.ActionMoves
import StagedAsm.Proofs.InstanceRecords

/-!
# Instances in whole runs

What becomes of instances while an engine runs passes and programs, and the instances that it meets
run inside of it.
-/

namespace StagedAsm

open Bool List Session

/-! ## Passes and what completing them means -/

theorem Pass.le_generate (pass : Pass) : pass ≤ .generate := by
  cases pass <;> decide

variable {pass : Pass} {engine : Engine} {s s' : Session} {e : EngineId} {id : InstanceId}
  {new : List Event}

theorem Pass.generate_le : .generate ≤ pass ↔ pass = .generate := by
  cases pass <;> decide

theorem Engine.hasCompleted_of_le {pass' : Pass} (hle : pass ≤ pass')
    (h : engine.hasCompleted pass' = true) : engine.hasCompleted pass = true := by
  unfold hasCompleted at h ⊢
  split at h
  · exact decide_eq_true (Nat.le_trans hle (of_decide_eq_true h))
  · exact nomatch h

theorem Engine.not_generated (h : engine.hasCompleted pass = false) :
    engine.hasCompleted .generate = false :=
  eq_false_iff.mpr fun hgen =>
    nomatch h.symm.trans (hasCompleted_of_le pass.le_generate hgen)

theorem Session.hasCompleted_finish (he : e.index < s.engines.size) (pass pass' : Pass) :
    ((s.finish e pass).engine e).hasCompleted pass' = decide (pass' ≤ pass) := by
  have hengine : (s.finish e pass).engine e =
      { s.engine e with running := none, completed := some pass } :=
    (s.engine_modify e e _).trans (if_pos ⟨rfl, he⟩)
  rw [hengine, Engine.hasCompleted]

/-! ## Sections -/

/-- Sections that were all closed hold no text. -/
theorem Section.flushed_of_closeAll {sections closed : List (String × Section)}
    {sinks sinks' : Array String} (h : closeAll sinks sections = (closed, sinks', .ok ())) :
    ∀ entry ∈ closed, entry.2.buffer = "" ∧ entry.2.backlog = [] := by
  induction sections generalizing closed sinks with
  | nil =>
    cases h
    simp
  | cons entry rest ih =>
    unfold closeAll at h
    split at h
    · rename_i text emptied hclose
      rcases hrest : closeAll (sinks.modify emptied.sink.index (· ++ text)) rest with
        ⟨closed', sinks'', outcome⟩
      rw [hrest] at h
      cases h
      have hemptied : emptied.buffer = "" ∧ emptied.backlog = [] := by
        unfold close at hclose
        split at hclose
        · rename_i hbacklog
          cases hclose
          exact ⟨rfl, hbacklog⟩
        · exact nomatch hclose
      intro entry hentry
      rcases mem_cons.mp hentry with rfl | hentry
      · exact hemptied
      · exact ih hrest entry hentry
    · exact nomatch h

theorem EngineId.flushed_of_closeSections (he : e.index < s.engines.size)
    (h : e.closeSections s = .ok () s') : (s'.engine e).Flushed := by
  obtain ⟨_, s1, hget, h1⟩ := bind_eq_ok.mp h
  cases hget
  rcases hclose : Section.closeAll s.sinks (s.engine e).sections with ⟨closed, sinks, outcome⟩
  rw [hclose] at h1
  obtain ⟨_, s2, hsinks, h2⟩ := bind_eq_ok.mp h1
  obtain ⟨_, s3, hsections, h3⟩ := bind_eq_ok.mp h2
  cases hsinks
  cases hsections
  cases outcome with
  | error e => exact nomatch h3
  | ok _ =>
    cases h3
    rw [engine_modify, if_pos ⟨rfl, he⟩]
    exact Section.flushed_of_closeAll hclose

/-! ## Passes -/

theorem Works.of_eq (hinstances : s'.instances = s.instances) (hengines : s'.engines = s.engines)
    (htemplates : s'.templates = s.templates)
    (hhistory : s'.history = s.history ∨ ∃ event, s'.history = s.history.push event ∧
      (∀ t i pass, event ≠ .made t i pass) ∧ ∀ i, event ≠ .advanced i .generate) :
    Works e s s' := by
  have hengine : ∀ e', s'.engine e' = s.engine e' := fun e' => by
    rw [engine, hengines, engine]
  have htemplate : ∀ t, s'.template t = s.template t := fun t => by
    rw [template, htemplates, template]
  intro hs he
  obtain ⟨hs', hran⟩ := hs.of_same e hinstances (Nat.le_of_eq (congrArg Array.size hengines.symm))
    (fun e' _ => hengine e') (fun t i hi => htemplate t ▸ hi) hhistory
  exact ⟨hs', hran, congrArg Engine.completed (hengine e)⟩

theorem Works.start (s : Session) (e' : EngineId) (pass : Pass) : Works e s (s.start e' pass) :=
  .of_eq rfl rfl rfl (.inl rfl)

namespace Runner

variable (r : Runner)

theorem works_openEpoch : Moves (Works r.engine) r.openEpoch := by
  refine .look_bind fun s => ?_
  split
  · refine Moves.leaves_bind (.of_eq rfl rfl rfl (.inl rfl)) fun _ s1 h1 => ?_
    refine Moves.leaves_bind (.of_engine fun _ => rfl) fun _ s2 h2 => ?_
    exact .of_eq rfl rfl rfl (.inr ⟨.opened r.engine, rfl, by simp, by simp⟩)
  · exact refl_of _ s

theorem works_settleEpoch : Moves (Works r.engine) r.settleEpoch :=
  .seq r.engine.moves_state <|
    .ite (.seq moves_closeEpoch <| .modify fun _ => .of_engine fun _ => rfl) (.pure _)

theorem flushed_of_leavePass (hlt : r.engine.index < s.engines.size)
    (h : r.leavePass .generate s = .ok () s') : (s'.engine r.engine).Flushed := by
  obtain ⟨_, s1, hclose, h1⟩ := bind_eq_ok.mp h
  have hquiet : Quiet s1 s' := r.engine.quiet_endPass.of_ok h1
  rw [Session.engine, hquiet.engines]
  exact EngineId.flushed_of_closeSections hlt hclose

end Runner

theorem Ran.happened {event : Event} (hmade : ∀ t i pass, event ≠ .made t i pass)
    (hadvanced : ∀ i, event = .advanced i .generate → i.index < s.instances.size ∧ s.Generated i) :
    Ran e s { s with history := s.history.push event } [event] :=
  { refl e s with
    history := Array.toList_push
    fresh := fun _ hi hgen _ => .inl ⟨hi, hgen⟩
    advanced := fun i hi => hadvanced i (mem_singleton.mp hi).symm
    memo := fun _ _ hi => .inl hi
    made := fun t i pass hi => absurd (mem_singleton.mp hi).symm (hmade t i pass) }

/-- An engine runs passes, the last one only if it `ends`. -/
def Runs (e : EngineId) (ends : Prop) (s s' : Session) : Prop :=
  s.Staffed → s.Held e → s'.Staffed ∧ (∃ new, Ran e s s' new) ∧
    (∀ pass, (s.engine e).hasCompleted pass = true → (s'.engine e).hasCompleted pass = true) ∧
    ((s'.engine e).hasCompleted .generate = true →
      (s.engine e).hasCompleted .generate = true ∨ ends)

namespace Runs

variable {e : EngineId} {ends : Prop} {s s' : Session}

instance : Std.Refl (Runs e ends) := ⟨fun s hs _ => ⟨hs, ⟨[], .refl e s⟩, fun _ h => h, .inl⟩⟩

instance : IsTrans Session (Runs e ends) where
  trans _ _ _ h h' hs he := by
    obtain ⟨hs1, ⟨new, hran⟩, hcompleted, hends⟩ := h hs he
    obtain ⟨hs2, ⟨new', hran'⟩, hcompleted', hends'⟩ := h' hs1 (hran.held he)
    exact ⟨hs2, ⟨new ++ new', hran.trans hran'⟩, fun pass hpass =>
      hcompleted' pass (hcompleted pass hpass), fun hgen => (hends' hgen).elim hends .inr⟩

instance : IsPreorder Session (Runs e ends) where

theorem mono {ends' : Prop} (h : Runs e ends s s') (himp : ends → ends') : Runs e ends' s s' := by
  intro hs he
  obtain ⟨hs', hran, hcompleted, hends⟩ := h hs he
  exact ⟨hs', hran, hcompleted, fun hgen => (hends hgen).imp_right himp⟩

theorem mayRun (he : s.Held e) (hpending : (s.engine e).hasCompleted .generate = false) :
    s.MayRun e := ⟨he, fun _ _ _ => hpending⟩

theorem of_works (h : Works e s s') (hpending : (s.engine e).hasCompleted .generate = false) :
    Runs e ends s s' := by
  intro hs he
  obtain ⟨hs', hran, hcompleted⟩ := h hs (mayRun he hpending)
  refine ⟨hs', hran, fun pass hpass => ?_, fun hgen => .inl ?_⟩
  · rw [Engine.hasCompleted, hcompleted]
    exact hpass
  · rw [Engine.hasCompleted, hcompleted] at hgen
    exact hgen

theorem finish (hpending : (s.engine e).hasCompleted pass = false)
    (hflushed : pass = .generate → (s.engine e).Flushed) :
    Runs e (pass = .generate) s (s.finish e pass) := by
  intro hs he
  -- A pass that is finished comes after all that were completed.
  have hbefore : ∀ pass', (s.engine e).hasCompleted pass' = true → pass' ≤ pass := by
    intro pass' hpass'
    refine Nat.le_of_not_lt fun hlt => ?_
    rw [Engine.hasCompleted_of_le (Nat.le_of_lt hlt) hpass'] at hpending
    exact nomatch hpending
  have hstaffed := hs.modifyEngine (f := fun engine =>
      { engine with running := none, completed := some pass }) (e := e) fun _ _ _ hgen =>
    hflushed (Pass.generate_le.mp (of_decide_eq_true hgen))
  have hmodify := Ran.modifyEngine (s := s) (e := e) (f := fun engine =>
      { engine with running := none, completed := some pass }) fun hgen =>
    decide_eq_true (hbefore .generate hgen)
  refine ⟨⟨hstaffed.engine_lt, hstaffed.engine_inj, hstaffed.flushed⟩,
    ⟨_, hmodify.trans (.happened (by simp) (by simp))⟩, fun pass' hpass' => ?_, fun hgen => ?_⟩
  · rw [hasCompleted_finish he.lt]
    exact decide_eq_true (hbefore pass' hpass')
  · rw [hasCompleted_finish he.lt] at hgen
    exact .inr (Pass.generate_le.mp (of_decide_eq_true hgen))

theorem stop : Runs e ends s { s with
    engines := s.engines.modify e.index fun engine => { engine with running := none } } := by
  intro hs he
  have hcompleted : ∀ pass, (({ s with
      engines := s.engines.modify e.index fun engine => { engine with running := none } } :
      Session).engine e).hasCompleted pass = (s.engine e).hasCompleted pass := fun pass => by
    rw [engine_modify, if_pos ⟨rfl, he.lt⟩, Engine.hasCompleted, Engine.hasCompleted]
  refine ⟨hs.modifyEngine fun i hi hengine hgen => ?_, ⟨[], .modifyEngine fun hgen => hgen⟩,
    fun pass => (hcompleted pass).trans, fun hgen => .inl ((hcompleted _).symm.trans hgen)⟩
  rw [← hengine] at hgen ⊢
  exact hs.flushed i hi hgen

end Runs

namespace Runner

section Success

variable {r : Runner} {program : Program} {upTo pass : Pass} {depth : Nat} {s s' : Session}

theorem runPass_eq_ok (h : r.runPass program depth pass s = .ok () s') :
    ∃ s1 s2, r.performPass program depth pass (s.start r.engine pass) = .ok () s1 ∧
      r.leavePass pass s1 = .ok () s2 ∧ s' = s2.finish r.engine pass := by
  obtain ⟨_, _, hstart, h⟩ := bind_eq_ok.mp h
  cases hstart
  obtain ⟨_, s1, hperform, h1⟩ := bind_eq_ok.mp h
  obtain ⟨_, s2, hleave, h2⟩ := bind_eq_ok.mp h1
  cases h2
  exact ⟨s1, s2, hperform, hleave, rfl⟩

theorem runPasses_cons_eq_ok {rest : List Pass}
    (h : r.runPasses program upTo depth (pass :: rest) s = .ok () s') :
    ∃ s1, r.runPasses program upTo depth rest s1 = .ok () s' ∧
      ((pass ≤ upTo ∧ (s.engine r.engine).hasCompleted pass = false ∧
          r.runPass program depth pass s = .ok () s1) ∨
        ((pass ≤ upTo → (s.engine r.engine).hasCompleted pass = true) ∧ s1 = s)) := by
  obtain ⟨engine, s1, hstate, h⟩ := bind_eq_ok.mp h
  cases hstate
  split at h
  · rename_i hrun
    obtain ⟨_, s1, hpass, hrest⟩ := bind_eq_ok.mp h
    simp only [and_eq_true, decide_eq_true_eq, not_eq_true'] at hrun
    exact ⟨s1, hrest, .inl ⟨hrun.1, hrun.2, hpass⟩⟩
  · rename_i hskip
    refine ⟨s, h, .inr ⟨fun hle => ?_, rfl⟩⟩
    simpa [hle] using hskip

theorem runPasses_of_completed {passes : List Pass}
    (h : ∀ p ∈ passes, p ≤ upTo → (s.engine r.engine).hasCompleted p = true) :
    r.runPasses program upTo depth passes s = .ok () s := by
  induction passes with
  | nil => rfl
  | cons pass rest ih =>
    rw [runPasses, EngineId.state_bind, if_neg]
    · exact ih fun p hp => h p (mem_cons_of_mem _ hp)
    · intro hrun
      simp only [and_eq_true, decide_eq_true_eq, not_eq_true'] at hrun
      have hdone := h pass mem_cons_self hrun.1
      rw [hrun.2] at hdone
      cases hdone

theorem runPasses_of_hasCompleted (hgen : (s.engine r.engine).hasCompleted .generate = true)
    (passes : List Pass) : r.runPasses program upTo depth passes s = .ok () s :=
  runPasses_of_completed fun pass _ _ => Engine.hasCompleted_of_le pass.le_generate hgen

theorem compile_eq_ok (h : r.compile program upTo s = .ok () s') :
    r.runPasses program upTo (s.engine r.engine).scopes.length Pass.all s = .ok () s' := by
  obtain ⟨engine, s1, hstate, h1⟩ := bind_eq_ok.mp h
  cases hstate
  obtain ⟨outcome, s2, hrun, h2⟩ := bind_eq_ok.mp h1
  rcases attempt_eq_ok hrun with ⟨_, rfl, hok⟩ | ⟨e, rfl, _⟩
  · obtain ⟨after, s3, hafter, h3⟩ := bind_eq_ok.mp h2
    cases hafter
    split at h3
    · exact nomatch h3
    · split at h3
      · exact nomatch h3
      · cases h3
        exact hok
  · obtain ⟨_, _, _, h3⟩ := bind_eq_ok.mp h2
    obtain ⟨_, _, _, h4⟩ := bind_eq_ok.mp h3
    exact nomatch h4

end Success

variable (r : Runner)

variable {pass upTo : Pass} {s s' : Session} {program : Program}

theorem runs_leavePass (hpending : (s.engine r.engine).hasCompleted pass = false)
    (h : r.leavePass pass s = .ok () s') :
    Runs r.engine (pass = .generate) s (s'.finish r.engine pass) := by
  have hgenerate := Engine.not_generated hpending
  have hworks := (r.moves_leavePass r.works_settleEpoch pass).of_ok h
  intro hs he
  obtain ⟨_, _, _, hcompleted⟩ := hworks.next hs (Runs.mayRun he hgenerate)
  refine trans_of (Runs _ _) (.of_works hworks hgenerate) (Runs.finish ?_ ?_) hs he
  · rw [Engine.hasCompleted, hcompleted]
    exact hpending
  · rintro rfl
    exact r.flushed_of_leavePass he.lt h

variable (hadvance : ∀ id pass, Moves (Works r.engine) (r.advance id pass))

include hadvance

theorem works_performPass (program : Program) (depth : Nat) (pass : Pass) :
    Moves (Works r.engine) (r.performPass program depth pass) :=
  r.moves_performPass hadvance (.modify fun _ => .of_engine fun _ => rfl) r.works_openEpoch

theorem runs_runPass (program : Program) (depth : Nat)
    (hpending : (s.engine r.engine).hasCompleted pass = false) :
    Runs r.engine (pass = .generate) s (leaves (r.runPass program depth pass) s) := by
  have hgenerate := Engine.not_generated hpending
  have hperforms := r.works_performPass hadvance program depth pass
  have hstart : r.beginPass pass s = .ok () (s.start r.engine pass) := rfl
  rw [runPass, leaves_bind_of_ok hstart]
  refine trans_of (Runs _ _) (.of_works (.start s r.engine pass) hgenerate) ?_
  cases hperform : r.performPass program depth pass (s.start r.engine pass) with
  | error fault s1 =>
    rw [leaves_bind_of_error hperform]
    exact .of_works (hperforms.of_error hperform) hgenerate
  | ok _ s1 =>
    rw [leaves_bind_of_ok hperform]
    intro hs he
    obtain ⟨_, _, _, hcompleted⟩ := (hperforms.of_ok hperform).next hs (Runs.mayRun he hgenerate)
    have hpending1 : (s1.engine r.engine).hasCompleted pass = false := by
      rw [Engine.hasCompleted, hcompleted]
      exact hpending
    refine trans_of (Runs _ _) (.of_works (hperforms.of_ok hperform) hgenerate) ?_ hs he
    cases hleave : r.leavePass pass s1 with
    | error fault s2 =>
      rw [leaves_bind_of_error hleave]
      exact .of_works ((r.moves_leavePass r.works_settleEpoch pass).of_error hleave)
        (Engine.not_generated hpending1)
    | ok _ s2 =>
      rw [leaves_bind_of_ok hleave]
      exact r.runs_leavePass hpending1 hleave

theorem runs_runPasses (program : Program) (upTo : Pass) (depth : Nat) (passes : List Pass) :
    Moves (Runs r.engine (.generate ∈ passes ∧ upTo = .generate))
      (r.runPasses program upTo depth passes) := by
  induction passes with
  | nil => exact .pure _
  | cons pass rest ih =>
    refine .look_bind fun s => ?_
    have hrest : ∀ s, Runs r.engine (.generate ∈ pass :: rest ∧ upTo = .generate) s
        (leaves (r.runPasses program upTo depth rest) s) := fun s =>
      (ih s).mono fun h => ⟨mem_cons_of_mem _ h.1, h.2⟩
    split
    · rename_i h
      simp only [and_eq_true, decide_eq_true_eq, not_eq_true'] at h
      refine Moves.leaves_bind ((r.runs_runPass hadvance program depth h.2).mono ?_) fun _ s' _ =>
        hrest s'
      rintro rfl
      exact ⟨mem_cons_self, Pass.generate_le.mp h.1⟩
    · exact hrest s

theorem hasCompleted_of_runPasses {depth : Nat} {passes : List Pass} (hs : s.Staffed)
    (he : s.Held r.engine) (h : r.runPasses program upTo depth passes s = .ok () s')
    (hmem : upTo ∈ passes) : (s'.engine r.engine).hasCompleted upTo = true := by
  induction passes generalizing s with
  | nil => exact absurd hmem not_mem_nil
  | cons pass rest ih =>
    obtain ⟨s1, hrest, hpass⟩ := runPasses_cons_eq_ok h
    -- After its turn the pass is completed, whether it was run or left out, and stays so.
    have hfirst : s1.Staffed ∧ s1.Held r.engine ∧
        (pass = upTo → (s1.engine r.engine).hasCompleted upTo = true) := by
      rcases hpass with ⟨_, hpending, hrun⟩ | ⟨hdone, rfl⟩
      · have hruns := r.runs_runPass hadvance program depth hpending
        rw [leaves_of_ok hrun] at hruns
        obtain ⟨hs1, ⟨_, hran⟩, _⟩ := hruns hs he
        refine ⟨hs1, hran.held he, ?_⟩
        rintro rfl
        obtain ⟨_, s2, _, _, rfl⟩ := runPass_eq_ok hrun
        have hlt : r.engine.index < s2.engines.size := by
          simpa [finish] using (hran.held he).lt
        rw [hasCompleted_finish hlt]
        exact decide_eq_true .refl
      · refine ⟨hs, he, ?_⟩
        rintro rfl
        exact hdone .refl
    obtain ⟨hs1, he1, hcompleted⟩ := hfirst
    rcases mem_cons.mp hmem with heq | hmem
    · have hruns := (r.runs_runPasses hadvance program upTo depth rest).of_ok hrest
      exact (hruns hs1 he1).2.2.1 upTo (hcompleted heq.symm)
    · exact ih hs1 he1 hrest hmem

theorem runs_compile (program : Program) (upTo : Pass) :
    Moves (Runs r.engine (upTo = .generate)) (r.compile program upTo) := by
  have hpasses : ∀ depth, Moves (Runs r.engine (upTo = .generate))
      (r.runPasses program upTo depth Pass.all) := fun depth =>
    (r.runs_runPasses hadvance program upTo depth Pass.all).mono fun _ _ h => h.mono And.right
  refine .bind r.engine.moves_state fun before => .bind (.attempt (hpasses _)) fun outcome => ?_
  split
  · exact .seq (.modify fun _ => .stop) <| .seq r.engine.moves_state <| .fail _
  · exact .seq r.engine.moves_state <| .check (.ite (.fail _) (.pure _))

theorem hasCompleted_of_compile (hs : s.Staffed) (he : s.Held r.engine)
    (h : r.compile program upTo s = .ok () s') : (s'.engine r.engine).hasCompleted upTo = true :=
  r.hasCompleted_of_runPasses hadvance hs he (compile_eq_ok h) (by cases upTo <;> decide)

end Runner

/-! ## Instances -/

namespace Session

def setBusy (s : Session) (id : InstanceId) (busy : Bool) : Session :=
  { s with instances := s.instances.modify id.index fun i => { i with isBusy := busy } }

variable (s : Session) (id : InstanceId) (busy : Bool)

variable (i : InstanceId)

@[simp] theorem size_instances_setBusy : (s.setBusy id busy).instances.size = s.instances.size :=
  Array.size_modify ..

@[simp] theorem engine_instanceAt_setBusy :
    ((s.setBusy id busy).instanceAt i).engine = (s.instanceAt i).engine := by
  rw [setBusy, instanceAt_modify]
  split
  · rename_i h
    rw [h.1]
  · rfl

theorem isBusy_setBusy : ((s.setBusy id busy).instanceAt i).isBusy =
      if i = id ∧ id.index < s.instances.size then busy else (s.instanceAt i).isBusy := by
  rw [setBusy, instanceAt_modify]
  split <;> rfl

@[simp] theorem engineOf_setBusy : (s.setBusy id busy).engineOf i = s.engineOf i := by
  rw [engineOf, engine_instanceAt_setBusy]
  rfl

@[simp] theorem generated_setBusy : (s.setBusy id busy).Generated i ↔ s.Generated i := by
  rw [Generated, engineOf_setBusy, Generated]

variable {s}

theorem Staffed.setBusy (hs : s.Staffed) : (s.setBusy id busy).Staffed where
  engine_lt i hi := by
    rw [engine_instanceAt_setBusy]
    exact hs.engine_lt i (by simpa using hi)
  engine_inj i j hi hj heq := by
    simp only [engine_instanceAt_setBusy, size_instances_setBusy] at hi hj heq
    exact hs.engine_inj i j hi hj heq
  flushed i hi hgen := by
    simp only [engineOf_setBusy, generated_setBusy, size_instances_setBusy] at hi hgen ⊢
    exact hs.flushed i hi hgen

/-- The instance was asked to run up to a pass and is at work. -/
def engage (s : Session) (id : InstanceId) (pass : Pass) : Session :=
  setBusy { s with history := s.history.push (.requested id pass) } id true

/-- The instance has run up to a pass and is not at work any more. -/
def disengage (s : Session) (id : InstanceId) (pass : Pass) : Session :=
  { s.setBusy id false with history := s.history.push (.advanced id pass) }

variable (pass : Pass)

theorem Staffed.engage (hs : s.Staffed) : (s.engage id pass).Staffed :=
  Staffed.setBusy id true ⟨hs.engine_lt, hs.engine_inj, hs.flushed⟩

theorem Staffed.held_engage (hs : s.Staffed) {id : InstanceId} (hid : id.index < s.instances.size) :
    (s.engage id pass).Held (s.instanceAt id).engine where
  lt := hs.engine_lt id hid
  busy i hi hengine := by
    simp only [Session.engage, engine_instanceAt_setBusy, size_instances_setBusy] at hi hengine
    rw [Session.engage, isBusy_setBusy, if_pos ⟨hs.engine_inj i id hi hid hengine, hid⟩]

theorem MayRun.engage (he : s.MayRun e) : (s.engage id pass).MayRun e where
  lt := he.lt
  busy i hi hengine := by
    simp only [Session.engage, engine_instanceAt_setBusy, size_instances_setBusy] at hi hengine
    rw [Session.engage, isBusy_setBusy]
    split
    · rfl
    · exact he.busy i hi hengine
  pending i hi hengine := by
    simp only [Session.engage, engine_instanceAt_setBusy, size_instances_setBusy] at hi hengine
    exact he.pending i hi hengine

end Session

theorem Ran.nested (hid : id.index < s.instances.size) (hfree : (s.instanceAt id).isBusy = false)
    (hs' : s'.Staffed) (h : Ran (s.instanceAt id).engine (s.engage id pass) s' new)
    (hgen : s'.Generated id → s.Generated id ∨ pass = .generate) :
    Ran e s s' (.requested id pass :: new) := by
  have hsize : (s.engage id pass).instances.size = s.instances.size := by
    rw [engage, size_instances_setBusy]
  have hengine : ∀ i, ((s.engage id pass).instanceAt i).engine = (s.instanceAt i).engine :=
    fun i => engine_instanceAt_setBusy ..
  have hgenerated : ∀ i, (s.engage id pass).Generated i ↔ s.Generated i :=
    fun i => generated_setBusy ..
  constructor
  case history => simpa [engage, setBusy] using h.history
  case instances_le => exact hsize ▸ h.instances_le
  case engines_le => exact h.engines_le
  case engine_eq =>
    intro i hi
    rw [h.engine_eq i (hsize ▸ hi), hengine]
  case engine_new => exact fun i hle => h.engine_new i (hsize ▸ hle)
  case busy =>
    intro i hi hbusy
    refine h.busy i (hsize ▸ hi) ?_
    rw [engage, isBusy_setBusy]
    split
    · rfl
    · exact hbusy
  case others =>
    intro e' _ he'
    refine h.others e' ?_ (he'.engage id pass)
    rintro rfl
    exact nomatch hfree.symm.trans (he'.busy id hid rfl)
  case generated => exact fun i hi hgen => h.generated i (hsize ▸ hi) ((hgenerated i).mpr hgen)
  case fresh =>
    -- The engine of the instance may complete the last pass only if the instance was asked to.
    intro i hi hgen' _
    by_cases heq : (s'.instanceAt i).engine = (s.instanceAt id).engine
    · have hi' : i = id := by
        refine hs'.engine_inj i id hi (Nat.lt_of_lt_of_le (hsize ▸ hid) h.instances_le) ?_
        rw [heq, h.engine_eq id (hsize ▸ hid), hengine]
      subst hi'
      rcases hgen hgen' with hgen | rfl
      · exact .inl ⟨hid, hgen⟩
      · exact .inr mem_cons_self
    · rcases h.fresh i hi hgen' heq with ⟨hi', hgen⟩ | hrequested
      · exact .inl ⟨hsize ▸ hi', (hgenerated i).mp hgen⟩
      · exact .inr (mem_cons_of_mem _ hrequested)
  case advanced => exact fun i hi => h.advanced i (by simpa using hi)
  case memo =>
    intro t i hi
    exact (h.memo t i hi).imp_right fun ⟨pass, hmade⟩ => ⟨pass, mem_cons_of_mem _ hmade⟩
  case made => exact fun t i pass' hmade => hsize ▸ h.made t i pass' (by simpa using hmade)

theorem Ran.release (h : Ran e s s' new) (hfree : (s.instanceAt id).isBusy = false) :
    Ran e s (s'.setBusy id false) new :=
  { h with
    instances_le := by simpa using h.instances_le
    engine_eq := by simpa using h.engine_eq
    engine_new := by simpa using h.engine_new
    busy := fun i hi hbusy => by
      have hne : i ≠ id := by
        rintro rfl
        exact nomatch hfree.symm.trans hbusy
      rw [isBusy_setBusy, if_neg fun h => hne h.1]
      exact h.busy i hi hbusy
    generated := by simpa using h.generated
    fresh := by simpa using h.fresh
    advanced := by simpa using h.advanced
    made := by simpa using h.made }

section Compiling

variable {advance : InstanceId → Pass → CompileM Unit} {id : InstanceId} {pass : Pass}
  {s s' : Session}

theorem leaves_compileInstance (h : leaves (compileInstance advance id pass) s = s') :
    s' = s ∨ id.index < s.instances.size ∧ (s.instanceAt id).isBusy = false ∧ ∃ s1,
      leaves (Runner.compile ⟨(s.instanceAt id).engine, advance⟩ (s.instanceAt id).program pass)
        (s.engage id pass) = s1 ∧ (s' = s1 ∨ s' = s1.setBusy id false ∨
          Runner.compile ⟨(s.instanceAt id).engine, advance⟩ (s.instanceAt id).program pass
            (s.engage id pass) = .ok () s1 ∧ s' = s1.disengage id pass) := by
  rw [compileInstance, leaves_bind_of_ok (rfl : (get : CompileM Session) s = .ok s s)] at h
  dsimp only at h
  split at h
  · exact .inl h.symm
  · split at h
    · exact .inl h.symm
    · rename_i hid hbusy
      refine .inr ⟨Nat.lt_of_not_le hid, Bool.eq_false_iff.mpr hbusy, _, rfl, ?_⟩
      replace h : leaves (do
          let outcome ← attempt (Runner.compile ⟨(s.instanceAt id).engine, advance⟩
            (s.instanceAt id).program pass)
          modifyInstance id fun i => { i with isBusy := false }
          ofExcept outcome
          happened (.advanced id pass)) (s.engage id pass) = s' := h
      rw [← leaves_attempt]
      cases hrun : attempt (Runner.compile ⟨(s.instanceAt id).engine, advance⟩
          (s.instanceAt id).program pass) (s.engage id pass) with
      | error fault s1 =>
        rw [leaves_bind_of_error hrun] at h
        rw [leaves_of_error hrun]
        exact .inl h.symm
      | ok outcome s1 =>
        rw [leaves_bind_of_ok hrun] at h
        rw [leaves_of_ok hrun]
        rcases attempt_eq_ok hrun with ⟨_, rfl, hok⟩ | ⟨e, rfl, _⟩
        · exact .inr (.inr ⟨hok, h.symm⟩)
        · exact .inr (.inl h.symm)

theorem compileInstance_eq_ok (h : compileInstance advance id pass s = .ok () s') :
    id.index < s.instances.size ∧ (s.instanceAt id).isBusy = false ∧ ∃ s1,
      Runner.compile ⟨(s.instanceAt id).engine, advance⟩ (s.instanceAt id).program pass
        (s.engage id pass) = .ok () s1 ∧ s' = s1.disengage id pass := by
  obtain ⟨_, _, hget, h1⟩ := bind_eq_ok.mp h
  cases hget
  dsimp only at h1
  split at h1
  · exact nomatch h1
  · split at h1
    · exact nomatch h1
    · rename_i hid hbusy
      obtain ⟨_, _, hrequested, h2⟩ := bind_eq_ok.mp h1
      obtain ⟨_, _, hengaged, h3⟩ := bind_eq_ok.mp h2
      obtain ⟨outcome, s1, hrun, h4⟩ := bind_eq_ok.mp h3
      obtain ⟨_, _, hreleased, h5⟩ := bind_eq_ok.mp h4
      cases hrequested
      cases hengaged
      cases hreleased
      rcases attempt_eq_ok hrun with ⟨_, rfl, hok⟩ | ⟨e, rfl, _⟩
      · cases h5
        exact ⟨Nat.lt_of_not_le hid, Bool.eq_false_iff.mpr hbusy, s1, hok, rfl⟩
      · exact nomatch h5

variable (hadvance : ∀ e id pass, Moves (Works e) (advance id pass))

include hadvance

variable {program : Program}

theorem ran_compile_engaged (hs : s.Staffed) (hid : id.index < s.instances.size)
    (hfree : (s.instanceAt id).isBusy = false)
    (h : leaves (Runner.compile ⟨(s.instanceAt id).engine, advance⟩ program pass)
      (s.engage id pass) = s') :
    s'.Staffed ∧ (s'.instanceAt id).engine = (s.instanceAt id).engine ∧
      ∃ new, ∀ e, Ran e s s' new := by
  subst h
  obtain ⟨hs', ⟨new, hran⟩, _, hends⟩ := Runner.runs_compile ⟨(s.instanceAt id).engine, advance⟩
    (hadvance _) program pass (s.engage id pass) (hs.engage id pass) (hs.held_engage pass hid)
  have hengine := (hran.engine_eq id (by simpa [engage] using hid)).trans
    (engine_instanceAt_setBusy ..)
  refine ⟨hs', hengine, _, fun _ => hran.nested hid hfree hs' fun hgen => hends ?_⟩
  rw [Session.Generated, engineOf, hengine] at hgen
  exact hgen

theorem hasCompleted_of_compile_engaged (hs : s.Staffed) (hid : id.index < s.instances.size)
    (hfree : (s.instanceAt id).isBusy = false)
    (h : Runner.compile ⟨(s.instanceAt id).engine, advance⟩ program pass (s.engage id pass) =
      .ok () s') : (s'.engineOf id).hasCompleted pass = true := by
  rw [engineOf, (ran_compile_engaged hadvance hs hid hfree (leaves_of_ok h)).2.1]
  exact Runner.hasCompleted_of_compile ⟨_, advance⟩ (hadvance _) (hs.engage id pass)
    (hs.held_engage pass hid) h

theorem works_compileInstance (e : EngineId) (id : InstanceId) (pass : Pass) :
    Moves (Works e) (compileInstance advance id pass) := by
  intro s hs he
  rcases leaves_compileInstance rfl with hsame | ⟨hid, hfree, s1, hrun, hrest⟩
  · rw [hsame]
    exact refl_of (Works e) s hs he
  · obtain ⟨hs1, _, new, hran⟩ := ran_compile_engaged hadvance hs hid hfree hrun
    -- The engine that asks is not that of the instance, which would be at work then.
    have hne : e ≠ (s.instanceAt id).engine := by
      rintro rfl
      exact nomatch hfree.symm.trans (he.busy id hid rfl)
    have hkept := congrArg Engine.completed ((hran _).others e hne he)
    have hs2 := hs1.setBusy id false
    have hran2 := (hran e).release hfree
    rcases hrest with hleft | hleft | ⟨hok, hleft⟩
    · rw [hleft]
      exact ⟨hs1, ⟨new, hran e⟩, hkept⟩
    · rw [hleft]
      exact ⟨hs2, ⟨new, hran2⟩, hkept⟩
    · rw [hleft]
      have hdone := hasCompleted_of_compile_engaged hadvance hs hid hfree hok
      refine ⟨⟨hs2.engine_lt, hs2.engine_inj, hs2.flushed⟩,
        ⟨_, hran2.trans (.happened (by simp) fun i hi => ?_)⟩, hkept⟩
      cases hi
      refine ⟨Nat.lt_of_lt_of_le hid hran2.instances_le, ?_⟩
      rw [generated_setBusy]
      exact hdone

theorem hasCompleted_of_compileInstance (hs : s.Staffed)
    (h : compileInstance advance id pass s = .ok () s') :
    id.index < s'.instances.size ∧ (s'.engineOf id).hasCompleted pass = true := by
  obtain ⟨hid, hfree, s1, hok, rfl⟩ := compileInstance_eq_ok h
  obtain ⟨_, _, _, hran⟩ := ran_compile_engaged hadvance hs hid hfree (leaves_of_ok hok)
  refine ⟨Nat.lt_of_lt_of_le hid ((hran ⟨0⟩).release hfree).instances_le, ?_⟩
  have hengine : (s1.disengage id pass).engineOf id = (s1.setBusy id false).engineOf id := rfl
  rw [hengine, engineOf_setBusy]
  exact hasCompleted_of_compile_engaged hadvance hs hid hfree hok

omit hadvance

theorem works_advanceWithin (depth : Nat) (e : EngineId) (id : InstanceId) (pass : Pass) :
    Moves (Works e) (advanceWithin depth id pass) := by
  induction depth generalizing e id pass with
  | zero => exact .throw _
  | succ depth ih => exact works_compileInstance ih e id pass

theorem hasCompleted_of_advanceWithin {depth : Nat} (hs : s.Staffed)
    (h : advanceWithin depth id pass s = .ok () s') :
    id.index < s'.instances.size ∧ (s'.engineOf id).hasCompleted pass = true := by
  cases depth with
  | zero => exact nomatch h
  | succ depth => exact hasCompleted_of_compileInstance (works_advanceWithin depth) hs h

end Compiling

end StagedAsm
