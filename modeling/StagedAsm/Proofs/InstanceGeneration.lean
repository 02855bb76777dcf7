import StagedAsm.Proofs.InstanceRuns
import StagedAsm.Proofs.Reached

/-!
# Which instances are generated

A program that holds a template runs the instances that are there when its action comes up. In the
last pass an instance that is made later runs only as far as it is asked to: an engine that catches
up on an earlier pass asks for that pass, and nothing asks for more.
-/

namespace StagedAsm

/-! ## Engines without instances -/

/-- The engine is there and belongs to no instance. -/
structure Session.Free (s : Session) (e : EngineId) : Prop where
  lt : e.index < s.engines.size
  not_staff : ∀ i, i.index < s.instances.size → (s.instanceAt i).engine ≠ e

namespace Session.Free

variable {s s' : Session} {e e' : EngineId}

theorem mayRun (h : s.Free e) : s.MayRun e where
  lt := h.lt
  busy i hi hengine := absurd hengine (h.not_staff i hi)
  pending i hi hengine := absurd hengine (h.not_staff i hi)

theorem ran (h : s.Free e) {new : List Event} (hran : Ran e' s s' new) : s'.Free e where
  lt := Nat.lt_of_lt_of_le h.lt hran.engines_le
  not_staff i hi hengine := by
    have hlt := hran.lt_of_engine_lt hi (hengine ▸ h.lt)
    exact h.not_staff i hlt ((hran.engine_eq i hlt).symm.trans hengine)

end Session.Free

theorem Session.staffed_new (settings : Settings) : Staffed { settings } where
  engine_lt _ h := absurd h (Nat.not_lt_zero _)
  engine_inj _ _ h := absurd h (Nat.not_lt_zero _)
  flushed _ h := absurd h (Nat.not_lt_zero _)

variable {s : Session}

theorem Session.Staffed.fork {s' : Session} (hs : s.Staffed) {engine : Engine} (hnew : engine.IsNew)
    (hquiet : Quiet { s with engines := s.engines.push engine } s') :
    s'.Staffed ∧ s'.Free ⟨s.engines.size⟩ ∧ ∀ e, s.Free e → s'.Free e := by
  obtain ⟨hs1, new, hran⟩ := hs.step (.fork engine hnew) ⟨0⟩
  obtain ⟨hs2, new', hran'⟩ := hs1.step (.quiet hquiet) ⟨0⟩
  refine ⟨hs2, Free.ran ⟨by simp, fun i hi hengine => ?_⟩ hran', fun e he =>
    (he.ran hran).ran hran'⟩
  replace hengine : (s.instanceAt i).engine = ⟨s.engines.size⟩ := hengine
  exact absurd (hs.engine_lt i hi) (by simp [hengine])

theorem Reached.staffed {engines : List EngineId} (hs : Reached engines s) :
    s.Staffed ∧ ∀ e ∈ engines, s.Free e := by
  refine hs.invariant (Q := fun e s => s.Free e) Session.staffed_new
    (fun hs hnew hquiet => hs.fork hnew hquiet) (fun hs hquiet => ?_)
    (fun {s e} depth program upTo hs he => ?_) (fun {s e} depth c hs he => ?_)
  · obtain ⟨hs', _, hran⟩ := hs.step (.quiet hquiet) ⟨0⟩
    exact ⟨hs', fun e he => he.ran hran⟩
  · have hruns := (e.runner depth).runs_compile (works_advanceWithin depth e) program upTo s
    obtain ⟨hs', ⟨_, hran⟩, _⟩ := hruns hs he.mayRun.toHeld
    exact ⟨hs', fun e' he' => he'.ran hran⟩
  · have hworks := (e.runner depth).moves_runCommand (R := Works (e.runner depth).engine)
      (works_advanceWithin depth e) c s
    obtain ⟨hs', ⟨_, hran⟩, _⟩ := hworks hs he.mayRun
    exact ⟨hs', fun e' he' => he'.ran hran⟩

/-! ## The action of a template -/

namespace Runner

variable {r : Runner} {s s' : Session} {program : Program} {depth : Nat}

variable {first second : Program} {t : TemplateId}

theorem runActions_append_eq_ok {pass : Pass}
    (h : r.runActions pass (first ++ second) s = .ok () s') :
    ∃ s1, r.runActions pass first s = .ok () s1 ∧ r.runActions pass second s1 = .ok () s' := by
  induction first generalizing s with
  | nil => exact ⟨s, rfl, h⟩
  | cons action rest ih =>
    obtain ⟨_, s1, haction, h1⟩ := bind_eq_ok.mp h
    obtain ⟨s2, hrest, h2⟩ := ih h1
    exact ⟨s2, bind_eq_ok.mpr ⟨_, s1, haction, hrest⟩, h2⟩

variable (hadvance : ∀ id pass, Moves (Works r.engine) (r.advance id pass))
  (hgenerates : ∀ {id s s'}, Session.Staffed s → r.advance id .generate s = .ok () s' →
    id.index < s'.instances.size ∧ s'.Generated id)

include hadvance hgenerates

theorem generated_of_advanceAll {ids : List InstanceId} (hs : s.Staffed) (he : s.MayRun r.engine)
    (h : r.advanceAll .generate ids s = .ok () s') :
    ∀ i ∈ ids, i.index < s'.instances.size ∧ s'.Generated i := by
  induction ids generalizing s with
  | nil => simp
  | cons id rest ih =>
    obtain ⟨_, s1, hfirst, hrest⟩ := bind_eq_ok.mp h
    obtain ⟨hs1, he1, _⟩ := ((hadvance id .generate).of_ok hfirst).next hs he
    obtain ⟨_, ⟨_, hran'⟩, _⟩ := (r.moves_advanceAll hadvance .generate rest).of_ok hrest hs1 he1
    intro i hi
    rcases List.mem_cons.mp hi with rfl | hi
    -- The first one is generated, and the others leave it so.
    · obtain ⟨hlt, hgen⟩ := hgenerates hs hfirst
      exact ⟨Nat.lt_of_lt_of_le hlt hran'.instances_le, hran'.generated i hlt hgen⟩
    · exact ih hs1 he1 hrest i hi

theorem runTemplateAction_generate (hs : s.Staffed) (he : s.MayRun r.engine)
    (h : r.runTemplateAction .generate t s = .ok () s') :
    Works r.engine (s.replay t .generate) s' ∧
      ∀ i ∈ (s.template t).memo.instances, i.index < s'.instances.size ∧ s'.Generated i := by
  obtain ⟨_, _, hget, h1⟩ := bind_eq_ok.mp h
  cases hget
  obtain ⟨_, _, hreplayed, h2⟩ := bind_eq_ok.mp h1
  cases hreplayed
  obtain ⟨hs1, he1, _⟩ := (Works.of_step (.replay t .generate)).next hs he
  exact ⟨(r.moves_advanceAll hadvance .generate _).of_ok h2,
    generated_of_advanceAll hadvance hgenerates hs1 he1 h2⟩

/-- The last pass before and after the action of a template. -/
theorem runPass_generate_template (hs : s.Staffed) (he : s.Held r.engine)
    (hpending : (s.engine r.engine).hasCompleted .generate = false)
    (h : r.runPass (first ++ .template t :: second) depth .generate s = .ok () s') :
    ∃ s1 new new', Ran r.engine s s1 new ∧ Ran r.engine (s1.replay t .generate) s' new' ∧
      ∀ i ∈ (s1.template t).memo.instances, i.index < s'.instances.size ∧ s'.Generated i := by
  obtain ⟨s3, s4, hperform, hleave, rfl⟩ := runPass_eq_ok h
  obtain ⟨_, s0, hrunning, h0⟩ := bind_eq_ok.mp hperform
  obtain ⟨_, _, hactions, hdepth⟩ := bind_eq_ok.mp h0
  obtain ⟨s1, hfirst, h1⟩ := runActions_append_eq_ok hactions
  obtain ⟨_, s2, htemplate, hsecond⟩ := bind_eq_ok.mp h1
  have hset : Works r.engine s s0 := by
    cases hrunning
    refine trans_of (Works _) (.start s r.engine .generate) ?_
    exact .of_engine fun _ => rfl
  have hbefore : Works r.engine s s1 :=
    trans_of (Works _) hset ((r.moves_runActions hadvance .generate first).of_ok hfirst)
  have hcheck : Moves (Works r.engine) (do
      let found := (← r.engine.state).scopes.length
      if found ≠ depth then fail (.passLeftScopesOpen .generate found depth)) :=
    .bind r.engine.moves_state fun _ => .ite (.fail _) (.pure _)
  have hafter : Works r.engine s2 s3 := trans_of (Works _)
    ((r.moves_runActions hadvance .generate second).of_ok hsecond) (hcheck.of_ok hdepth)
  -- The engine does not complete the pass before it leaves it, so it can go on all the way.
  obtain ⟨hs1, he1, ⟨new, hran⟩, hcompleted1⟩ := hbefore.next hs (Runs.mayRun he hpending)
  obtain ⟨hworks, hgenerated⟩ := runTemplateAction_generate hadvance hgenerates hs1 he1 htemplate
  obtain ⟨hs1', he1', _, hcompleted1'⟩ := (Works.of_step (.replay t .generate)).next hs1 he1
  obtain ⟨hs2, he2, ⟨_, hran2⟩, hcompleted2⟩ := hworks.next hs1' he1'
  obtain ⟨hs3, he3, ⟨_, hran3⟩, hcompleted3⟩ := hafter.next hs2 he2
  have hpending3 : (s3.engine r.engine).hasCompleted .generate = false := by
    rw [Engine.hasCompleted, hcompleted3, hcompleted2, hcompleted1', hcompleted1]
    exact hpending
  obtain ⟨_, ⟨_, hran4⟩, _⟩ := r.runs_leavePass hpending3 hleave hs3 he3.toHeld
  refine ⟨s1, new, _, hran, hran2.trans (hran3.trans hran4), fun i hi => ?_⟩
  obtain ⟨hlt, hgen⟩ := hgenerated i hi
  exact ⟨Nat.lt_of_lt_of_le hlt (hran3.trans hran4).instances_le,
    (hran3.trans hran4).generated i hlt hgen⟩

omit hgenerates

theorem runPasses_append_eq_ok {upTo : Pass} (first second : List Pass)
    (h : r.runPasses program upTo depth (first ++ second) s = .ok () s') :
    ∃ s1, Runs r.engine (.generate ∈ first) s s1 ∧
      r.runPasses program upTo depth second s1 = .ok () s' := by
  induction first generalizing s with
  | nil => exact ⟨s, refl_of _ s, h⟩
  | cons pass rest ih =>
    obtain ⟨s1, hrest, hpass⟩ := runPasses_cons_eq_ok h
    obtain ⟨s2, hruns, hsecond⟩ := ih hrest
    have hfirst : Runs r.engine (pass = .generate) s s1 := by
      rcases hpass with ⟨_, hpending, hrun⟩ | ⟨_, rfl⟩
      · exact leaves_of_ok hrun ▸ r.runs_runPass hadvance program depth hpending
      · exact refl_of _ s1
    refine ⟨s2, trans_of (Runs _ _) (hfirst.mono ?_) (hruns.mono fun h => ?_), hsecond⟩
    · rintro rfl
      exact List.mem_cons_self
    · exact List.mem_cons_of_mem _ h

/-- The last pass is run, unless it was completed before. -/
theorem compile_generate_eq_ok (hs : s.Staffed) (he : s.Held r.engine)
    (h : r.compile program .generate s = .ok () s') :
    ((s.engine r.engine).hasCompleted .generate = true ∧ s' = s) ∨
      ∃ s1 depth new, Ran r.engine s s1 new ∧ s1.Staffed ∧
        (s1.engine r.engine).hasCompleted .generate = false ∧
        r.runPass program depth .generate s1 = .ok () s' := by
  have hpasses := compile_eq_ok h
  by_cases hdone : (s.engine r.engine).hasCompleted .generate = true
  · rw [runPasses_of_hasCompleted hdone] at hpasses
    cases hpasses
    exact .inl ⟨hdone, rfl⟩
  · obtain ⟨s1, hruns, hlast⟩ :=
      runPasses_append_eq_ok hadvance [.declare, .resolve] [.generate] hpasses
    obtain ⟨hs1, ⟨new, hran⟩, _, hends⟩ := hruns hs he
    have hpending : (s1.engine r.engine).hasCompleted .generate = false :=
      Bool.eq_false_iff.mpr fun hgen => (hends hgen).elim hdone (by simp)
    obtain ⟨s2, hnil, hpass⟩ := runPasses_cons_eq_ok hlast
    cases hnil
    rcases hpass with ⟨_, _, hrun⟩ | ⟨hskip, _⟩
    · exact .inr ⟨s1, _, new, hran, hs1, hpending, hrun⟩
    · exact nomatch hpending.symm.trans (hskip .refl)

end Runner

/-! ## What the last pass reaches -/

def Session.Emitted (s : Session) (i : InstanceId) : Prop :=
  s.Generated i ∧ (s.engineOf i).Flushed

theorem Session.Staffed.emitted (hs : s.Staffed) {i : InstanceId}
    (h : i.index < s.instances.size ∧ s.Generated i) : s.Emitted i :=
  ⟨h.2, hs.flushed i h.1 h.2⟩

/-- The instances that the action of a template found in the last pass have their text in the sinks.
    An instance that was made after that is there only if it was asked for the last pass, which an
    engine that catches up on an earlier pass does not do. -/
theorem generate_reaches_taken {engines : List EngineId} {s s' : Session} {e : EngineId}
    {depth : Nat} {program : Program} {t : TemplateId} (hs : Reached engines s) (he : e ∈ engines)
    (ht : .template t ∈ program)
    (h : (e.runner depth).compile program .generate s = .ok () s') :
    ((s.engine e).hasCompleted .generate = true ∧ s' = s) ∨ ∃ before taken after,
        s'.history.toList = s.history.toList ++ before ++ .replayed t .generate taken :: after ∧
        ∀ i ∈ (s'.template t).memo.instances, (i ∈ taken ∧ s'.Emitted i) ∨
          (i ∉ taken ∧ (∃ pass, .made t i pass ∈ after) ∧
            (.advanced i .generate ∈ after → s'.Emitted i) ∧
            (s'.Generated i → .requested i .generate ∈ after)) := by
  have hadvance := works_advanceWithin depth e
  obtain ⟨hstaffed, hfree⟩ := hs.staffed
  obtain ⟨hstaffed', hfree'⟩ := (hs.compile depth program .generate he).staffed
  rw [leaves_of_ok h] at hstaffed' hfree'
  have hheld := (hfree e he).mayRun.toHeld
  rcases Runner.compile_generate_eq_ok hadvance hstaffed hheld h with
    hdone | ⟨s₀, depth', earlier, hran₀, hs₀, hpending, hrun⟩
  · exact .inl hdone
  · obtain ⟨first, second, rfl⟩ := List.append_of_mem ht
    obtain ⟨s₁, new, after, hran₁, hran, htaken⟩ := Runner.runPass_generate_template hadvance
      hasCompleted_of_advanceWithin hs₀ (hran₀.held hheld) hpending hrun
    refine .inr ⟨earlier ++ new, (s₁.template t).memo.instances, after, ?_, fun i hi => ?_⟩
    · rw [hran.history, Session.replay, Array.toList_push, hran₁.history, hran₀.history]
      simp
    -- What the action did not find was made after it.
    · by_cases hmem : i ∈ (s₁.template t).memo.instances
      · exact .inl ⟨hmem, hstaffed'.emitted (htaken i hmem)⟩
      · obtain ⟨pass, hmade⟩ := (hran.memo t i hi).resolve_left hmem
        obtain ⟨hnew, hlt⟩ := hran.made t i pass hmade
        refine .inr ⟨hmem, ⟨pass, hmade⟩, fun hadvanced =>
          hstaffed'.emitted (hran.advanced i hadvanced), fun hgen => ?_⟩
        have hother := (hfree' e he).not_staff i hlt
        exact (hran.fresh i hlt hgen hother).resolve_left fun hold =>
          Nat.not_lt.mpr hnew hold.1

def lateStatements : List Statement :=
  [.template "T" ["N"] [.constant "T" "1", .instruction "inc rax"] "T", .template "S" ["M"]
      [.constant "S" "2",
        .perform (some .resolve) [.mk "" (.symbol (.find [.mk "T" [.text "1"]] none)) false]] "S"]

def lateProgram : Program :=
  [.template ⟨0⟩, .template ⟨1⟩,
    .perform (some .generate) [.mk "" (.symbol (.find [.mk "S" [.text "2"]] none)) false]]

def lateStart : Session :=
  leaves (buildProgram lateStatements) (leaves (startEngine defaultSections) {})

def lateSession : Session :=
  leaves ((EngineId.runner ⟨0⟩ 2).compile lateProgram .generate) lateStart

theorem generate_reaches_taken_late : Reached [⟨0⟩] lateStart ∧
      (EngineId.runner ⟨0⟩ 2).compile lateProgram .generate lateStart = .ok () lateSession ∧
      (lateSession.template ⟨0⟩).memo.instances = [⟨1⟩] ∧ ¬ lateSession.Generated ⟨1⟩ ∧
      ∃ before taken after,
        lateSession.history.toList = before ++ .replayed ⟨0⟩ .generate taken :: after ∧
        ⟨1⟩ ∉ taken ∧ ∃ pass, .made ⟨0⟩ ⟨1⟩ pass ∈ after := by
  have hreached : Reached [⟨0⟩] lateStart := .build lateStatements (.start (.new {}) rfl)
  have hok : (EngineId.runner ⟨0⟩ 2).compile lateProgram .generate lateStart =
      .ok () lateSession := eq_ok_of_succeeds (by decide +kernel)
  have hmemo : (lateSession.template ⟨0⟩).memo.instances = [⟨1⟩] := by decide +kernel
  have hmissed : ¬ lateSession.Generated ⟨1⟩ := by
    unfold Session.Generated
    decide +kernel
  refine ⟨hreached, hok, hmemo, hmissed, ?_⟩
  have hpending : (lateStart.engine ⟨0⟩).hasCompleted .generate = false := by decide +kernel
  rcases generate_reaches_taken (t := ⟨0⟩) hreached List.mem_cons_self List.mem_cons_self hok with
    ⟨hdone, _⟩ | ⟨before, taken, after, hhistory, hinstances⟩
  · exact nomatch hpending.symm.trans hdone
  · rcases hinstances ⟨1⟩ (by simp [hmemo]) with ⟨_, hemitted⟩ | ⟨hlate, hmade, _⟩
    · exact absurd hemitted.1 hmissed
    · exact ⟨lateStart.history.toList ++ before, taken, after, hhistory, hlate, hmade⟩

end StagedAsm
