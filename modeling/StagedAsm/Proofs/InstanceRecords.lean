import StagedAsm.Proofs.Instantiation

/-!
# What becomes of instances

Every instance has an engine of its own, which only compiling the instance runs. An instance that is
at work cannot be compiled again, so the engines it was started from stand still until it is done.
`Ran` says what a computation on one engine does to all instances.
-/

namespace StagedAsm

open Session

def Engine.Flushed (engine : Engine) : Prop :=
  ∀ entry ∈ engine.sections, entry.2.buffer = "" ∧ entry.2.backlog = []

namespace Session

def engineOf (s : Session) (i : InstanceId) : Engine := s.engine (s.instanceAt i).engine

/-- The instance has completed the last pass. -/
def Generated (s : Session) (i : InstanceId) : Prop :=
  (s.engineOf i).hasCompleted .generate = true

/-- Each instance has an engine to itself, which holds no text once the instance is generated. -/
structure Staffed (s : Session) : Prop where
  engine_lt : ∀ i, i.index < s.instances.size → (s.instanceAt i).engine.index < s.engines.size
  engine_inj : ∀ i j, i.index < s.instances.size → j.index < s.instances.size →
    (s.instanceAt i).engine = (s.instanceAt j).engine → i = j
  flushed : ∀ i, i.index < s.instances.size → s.Generated i → (s.engineOf i).Flushed

/-- If the engine belongs to an instance, then that is at work. -/
structure Held (s : Session) (e : EngineId) : Prop where
  lt : e.index < s.engines.size
  busy : ∀ i, i.index < s.instances.size → (s.instanceAt i).engine = e →
    (s.instanceAt i).isBusy = true

/-- The engine can be in the middle of a pass. -/
structure MayRun (s : Session) (e : EngineId) : Prop extends s.Held e where
  pending : ∀ i, i.index < s.instances.size → (s.instanceAt i).engine = e →
    (s.engine e).hasCompleted .generate = false

end Session

/-- What a computation of an engine does to instances and engines. -/
structure Ran (e : EngineId) (s s' : Session) (new : List Event) : Prop where
  history : s'.history.toList = s.history.toList ++ new
  instances_le : s.instances.size ≤ s'.instances.size
  engines_le : s.engines.size ≤ s'.engines.size
  engine_eq : ∀ i, i.index < s.instances.size → (s'.instanceAt i).engine = (s.instanceAt i).engine
  engine_new : ∀ i, s.instances.size ≤ i.index → i.index < s'.instances.size →
    s.engines.size ≤ (s'.instanceAt i).engine.index
  busy : ∀ i, i.index < s.instances.size → (s.instanceAt i).isBusy = true →
    (s'.instanceAt i).isBusy = true
  others : ∀ e', e' ≠ e → s.MayRun e' → s'.engine e' = s.engine e'
  generated : ∀ i, i.index < s.instances.size → s.Generated i → s'.Generated i
  fresh : ∀ i, i.index < s'.instances.size → s'.Generated i → (s'.instanceAt i).engine ≠ e →
    (i.index < s.instances.size ∧ s.Generated i) ∨ .requested i .generate ∈ new
  advanced : ∀ i, .advanced i .generate ∈ new → i.index < s'.instances.size ∧ s'.Generated i
  memo : ∀ t i, i ∈ (s'.template t).memo.instances →
    i ∈ (s.template t).memo.instances ∨ ∃ pass, .made t i pass ∈ new
  made : ∀ t i pass, .made t i pass ∈ new → s.instances.size ≤ i.index ∧ i.index < s'.instances.size

namespace Ran

variable {e e' : EngineId} {s s' s'' : Session} {new new' : List Event}

theorem lt_of_engine_lt (h : Ran e s s' new) {i : InstanceId} (hi : i.index < s'.instances.size)
    (hlt : (s'.instanceAt i).engine.index < s.engines.size) : i.index < s.instances.size := by
  refine Nat.lt_of_not_le fun hle => ?_
  exact Nat.not_lt.mpr (h.engine_new i hle hi) hlt

theorem held (h : Ran e s s' new) (he' : s.Held e') : s'.Held e' where
  lt := Nat.lt_of_lt_of_le he'.lt h.engines_le
  busy i hi hengine := by
    have hlt := h.lt_of_engine_lt hi (hengine ▸ he'.lt)
    exact h.busy i hlt (he'.busy i hlt ((h.engine_eq i hlt).symm.trans hengine))

theorem mayRun_of_eq (h : Ran e s s' new) (he' : s.MayRun e')
    (hcompleted : (s'.engine e').completed = (s.engine e').completed) : s'.MayRun e' where
  toHeld := h.held he'.toHeld
  pending i hi hengine := by
    have hlt := h.lt_of_engine_lt hi (hengine ▸ he'.lt)
    rw [Engine.hasCompleted, hcompleted]
    exact he'.pending i hlt ((h.engine_eq i hlt).symm.trans hengine)

theorem refl (e : EngineId) (s : Session) : Ran e s s [] where
  history := by simp
  instances_le := .refl
  engines_le := .refl
  engine_eq _ _ := rfl
  engine_new i hle hlt := absurd hlt (Nat.not_lt.mpr hle)
  busy _ _ hbusy := hbusy
  others _ _ _ := rfl
  generated _ _ hgenerated := hgenerated
  fresh i hi hgenerated _ := .inl ⟨hi, hgenerated⟩
  advanced _ h := by simp at h
  memo _ _ h := .inl h
  made _ _ _ h := by simp at h

theorem trans (h : Ran e s s' new) (h' : Ran e s' s'' new') : Ran e s s'' (new ++ new') where
  history := by rw [h'.history, h.history, List.append_assoc]
  instances_le := Nat.le_trans h.instances_le h'.instances_le
  engines_le := Nat.le_trans h.engines_le h'.engines_le
  engine_eq i hi := by
    rw [h'.engine_eq i (Nat.lt_of_lt_of_le hi h.instances_le), h.engine_eq i hi]
  engine_new i hle hlt := by
    by_cases hi : i.index < s'.instances.size
    · rw [h'.engine_eq i hi]
      exact h.engine_new i hle hi
    · exact Nat.le_trans h.engines_le (h'.engine_new i (Nat.le_of_not_lt hi) hlt)
  busy i hi hbusy := h'.busy i (Nat.lt_of_lt_of_le hi h.instances_le) (h.busy i hi hbusy)
  others e' hne he' := by
    -- An engine that stood still can still be in the middle of its pass.
    have heq := h.others e' hne he'
    rw [h'.others e' hne (h.mayRun_of_eq he' (by rw [heq])), heq]
  generated i hi hgenerated :=
    h'.generated i (Nat.lt_of_lt_of_le hi h.instances_le) (h.generated i hi hgenerated)
  fresh i hi hgenerated hne := by
    -- Generated by the second part, or before it and then by the first or earlier still.
    rcases h'.fresh i hi hgenerated hne with ⟨hi', hgenerated'⟩ | hrequested
    · rw [h'.engine_eq i hi'] at hne
      exact (h.fresh i hi' hgenerated' hne).imp_right fun h => List.mem_append_left _ h
    · exact .inr (List.mem_append_right _ hrequested)
  advanced i hadvanced := by
    rcases List.mem_append.mp hadvanced with hadvanced | hadvanced
    · obtain ⟨hi, hgenerated⟩ := h.advanced i hadvanced
      exact ⟨Nat.lt_of_lt_of_le hi h'.instances_le, h'.generated i hi hgenerated⟩
    · exact h'.advanced i hadvanced
  memo t i hi := by
    rcases h'.memo t i hi with hi | ⟨pass, hmade⟩
    · exact (h.memo t i hi).imp_right fun ⟨pass, hmade⟩ => ⟨pass, List.mem_append_left _ hmade⟩
    · exact .inr ⟨pass, List.mem_append_right _ hmade⟩
  made t i pass hmade := by
    rcases List.mem_append.mp hmade with hmade | hmade
    · exact (h.made t i pass hmade).imp_right fun hi => Nat.lt_of_lt_of_le hi h'.instances_le
    · exact (h'.made t i pass hmade).imp_left (Nat.le_trans h.instances_le)

end Ran

/-! ## One engine alone -/

theorem Session.engineOf_modify (s : Session) (e : EngineId) (f : Engine → Engine)
    (i : InstanceId) :
    ({ s with engines := s.engines.modify e.index f } : Session).engineOf i =
      if (s.instanceAt i).engine = e ∧ e.index < s.engines.size then f (s.engine e)
      else s.engineOf i :=
  s.engine_modify e (s.instanceAt i).engine f

section OneEngine

variable {e : EngineId} {s : Session} {f : Engine → Engine}

theorem Ran.modifyEngine (hgenerated : (s.engine e).hasCompleted .generate = true →
      (f (s.engine e)).hasCompleted .generate = true) :
    Ran e s { s with engines := s.engines.modify e.index f } [] where
  history := by simp
  instances_le := .refl
  engines_le := Nat.le_of_eq (Array.size_modify ..).symm
  engine_eq _ _ := rfl
  engine_new i hle hlt := absurd hlt (Nat.not_lt.mpr hle)
  busy _ _ hbusy := hbusy
  others e' hne _ := (s.engine_modify e e' f).trans (if_neg fun h => hne h.1)
  generated i hi hgen := by
    rw [Session.Generated, s.engineOf_modify e f i]
    split
    · rename_i h
      rw [Session.Generated, engineOf, h.1] at hgen
      exact hgenerated hgen
    · exact hgen
  fresh i hi hgen hne := by
    rw [Session.Generated, s.engineOf_modify e f i, if_neg fun h => hne h.1] at hgen
    exact .inl ⟨hi, hgen⟩
  advanced _ h := by simp at h
  memo _ _ h := .inl h
  made _ _ _ h := by simp at h

theorem Session.Staffed.modifyEngine (hs : s.Staffed)
    (hflushed : ∀ i, i.index < s.instances.size → (s.instanceAt i).engine = e →
      (f (s.engine e)).hasCompleted .generate = true → (f (s.engine e)).Flushed) :
    Session.Staffed { s with engines := s.engines.modify e.index f } where
  engine_lt i hi := by
    rw [Array.size_modify]
    exact hs.engine_lt i hi
  engine_inj := hs.engine_inj
  flushed i hi hgen := by
    rw [Session.Generated, s.engineOf_modify e f i] at hgen
    rw [s.engineOf_modify e f i]
    split at hgen
    · rename_i h
      rw [if_pos h]
      exact hflushed i hi h.1 hgen
    · rename_i h
      rw [if_neg h]
      exact hs.flushed i hi hgen

end OneEngine

/-! ## Steps -/

variable {s s' : Session}

theorem Session.Staffed.of_same (hs : s.Staffed) (e : EngineId)
    (hinstances : s'.instances = s.instances) (hengines : s.engines.size ≤ s'.engines.size)
    (hengine : ∀ e', e'.index < s.engines.size → s'.engine e' = s.engine e')
    (hmemo : ∀ t i, i ∈ (s'.template t).memo.instances → i ∈ (s.template t).memo.instances)
    (hhistory : s'.history = s.history ∨ ∃ event, s'.history = s.history.push event ∧
      (∀ t i pass, event ≠ .made t i pass) ∧ ∀ i, event ≠ .advanced i .generate) :
    s'.Staffed ∧ ∃ new, Ran e s s' new := by
  have hat : ∀ i, s'.instanceAt i = s.instanceAt i := fun i => by
    rw [instanceAt, hinstances, instanceAt]
  have hof : ∀ i, i.index < s.instances.size → s'.engineOf i = s.engineOf i := fun i hi => by
    rw [engineOf, hat, hengine _ (hs.engine_lt i hi), engineOf]
  have hgenerated : ∀ i, i.index < s.instances.size → (s'.Generated i ↔ s.Generated i) :=
    fun i hi => by rw [Session.Generated, hof i hi, Session.Generated]
  have hstaffed : s'.Staffed := by
    refine ⟨fun i hi => ?_, fun i j hi hj heq => ?_, fun i hi hgen => ?_⟩
    · rw [hat]
      exact Nat.lt_of_lt_of_le (hs.engine_lt i (hinstances ▸ hi)) hengines
    · rw [hat, hat] at heq
      exact hs.engine_inj i j (hinstances ▸ hi) (hinstances ▸ hj) heq
    · rw [hinstances] at hi
      rw [hof i hi]
      exact hs.flushed i hi ((hgenerated i hi).mp hgen)
  have hnew : ∃ new, s'.history.toList = s.history.toList ++ new ∧
      (∀ t i pass, .made t i pass ∉ new) ∧ ∀ i, .advanced i .generate ∉ new := by
    rcases hhistory with hhistory | ⟨event, hhistory, hmade, hadvanced⟩
    · exact ⟨[], by simp [hhistory], by simp, by simp⟩
    · exact ⟨[event], by simp [hhistory], fun t i pass h =>
        hmade t i pass (List.mem_singleton.mp h).symm, fun i h =>
        hadvanced i (List.mem_singleton.mp h).symm⟩
  obtain ⟨new, hhistory, hmade, hadvanced⟩ := hnew
  exact ⟨hstaffed, new,
    { history := hhistory
      instances_le := Nat.le_of_eq (congrArg Array.size hinstances.symm)
      engines_le := hengines
      engine_eq := fun i _ => by rw [hat]
      engine_new := fun i hle hlt => absurd (hinstances ▸ hlt) (Nat.not_lt.mpr hle)
      busy := fun i _ hbusy => by rw [hat, hbusy]
      others := fun e' _ he' => hengine e' he'.lt
      generated := fun i hi => (hgenerated i hi).mpr
      fresh := fun i hi hgen _ =>
        .inl ⟨hinstances ▸ hi, (hgenerated i (hinstances ▸ hi)).mp hgen⟩
      advanced := fun i h => absurd h (hadvanced i)
      memo := fun t i h => .inl (hmemo t i h)
      made := fun t i pass h => absurd h (hmade t i pass) }⟩

theorem Session.templates_enlist (s : Session) (t : TemplateId) (made : Instance) (pass : Pass) :
    (s.enlist t made pass).templates = s.templates.modify t.index fun template =>
      { template with
        memo := ({ s with instances := s.instances.push made } : Session).memoInsert template.memo
          made.arguments ⟨s.instances.size⟩ } := rfl

theorem Session.mem_memoInsert {m : Memo} {arguments : List Symbol} {new i : InstanceId}
    (h : i ∈ (s.memoInsert m arguments new).instances) : i ∈ m.instances ∨ i = new := by
  unfold memoInsert at h
  split at h
  · exact .inl h
  · simpa [Memo.instances] using h

/-! ## Making instances -/

theorem Engine.IsNew.hasCompleted {engine : Engine} (h : engine.IsNew) (pass : Pass) :
    engine.hasCompleted pass = false := by
  rw [Engine.hasCompleted, h.2.2]

namespace Prepared

variable {s s1 : Session} {t : TemplateId} {made : Instance} (h : Prepared s s1 t made)
  (pass : Pass)

include h

variable {i : InstanceId}

theorem engineOf_of_lt (hs : s.Staffed) (hi : i.index < s.instances.size) :
    (s1.enlist t made pass).engineOf i = s.engineOf i := by
  rw [engineOf, h.instanceAt_of_lt pass hi, h.engine_of_lt pass (hs.engine_lt i hi), engineOf]

theorem lt_of_generated (hi : i.index < (s1.enlist t made pass).instances.size)
    (hgen : (s1.enlist t made pass).Generated i) : i.index < s.instances.size := by
  rcases h.instance_cases pass hi with hi | ⟨_, hmade⟩
  · exact hi
  · rw [Session.Generated, engineOf, hmade, (h.isNew pass).hasCompleted] at hgen
    exact nomatch hgen

theorem staffed (hs : s.Staffed) : (s1.enlist t made pass).Staffed where
  engine_lt := h.engine_lt pass hs.engine_lt
  engine_inj i j hi hj heq := by
    -- The new engine comes after all engines that instances have.
    have hne : ∀ i : InstanceId, i.index < s.instances.size →
        ((s1.enlist t made pass).instanceAt i).engine ≠ made.engine := by
      intro i hi heq
      rw [h.instanceAt_of_lt pass hi, h.engine_eq] at heq
      exact absurd (hs.engine_lt i hi) (by simp [heq])
    rcases h.instance_cases pass hi with hi' | ⟨hi', hmade⟩ <;>
      rcases h.instance_cases pass hj with hj' | ⟨hj', hmade'⟩
    · rw [h.instanceAt_of_lt pass hi', h.instanceAt_of_lt pass hj'] at heq
      exact hs.engine_inj i j hi' hj' heq
    · exact absurd (heq.trans (congrArg Instance.engine hmade')) (hne i hi')
    · exact absurd (heq.symm.trans (congrArg Instance.engine hmade)) (hne j hj')
    · cases i
      cases j
      simp_all
  flushed i hi hgen := by
    have hlt := h.lt_of_generated pass hi hgen
    rw [Session.Generated, h.engineOf_of_lt pass hs hlt] at hgen
    rw [h.engineOf_of_lt pass hs hlt]
    exact hs.flushed i hlt hgen

theorem mem_memo {t' : TemplateId} (hi : i ∈ ((s1.enlist t made pass).template t').memo.instances) :
    i ∈ (s.template t').memo.instances ∨ (t' = t ∧ i = ⟨s1.instances.size⟩) := by
  obtain ⟨engine, _, hquiet⟩ := h.quiet
  have hmemo : ∀ {t'}, i ∈ (s1.template t').memo.instances → i ∈ (s.template t').memo.instances :=
    fun hi => hquiet.memo_eq _ ▸ hi
  rw [s1.template_of_modify t (s1.templates_enlist t made pass) t'] at hi
  split at hi
  · rename_i heq
    rcases mem_memoInsert hi with hi | hi
    · exact .inl (heq.1 ▸ hmemo hi)
    · exact .inr ⟨heq.1, hi⟩
  · exact .inl (hmemo hi)

theorem ran (hs : s.Staffed) (e : EngineId) :
    Ran e s (s1.enlist t made pass) [.building t made.arguments,
      .made t ⟨s1.instances.size⟩ pass, .used t made.arguments ⟨s1.instances.size⟩] := by
  obtain ⟨engine, _, hquiet⟩ := h.quiet
  have hsize : s1.instances.size = s.instances.size := congrArg Array.size hquiet.instances
  exact
    { history := h.history_eq pass
      instances_le := Nat.le_of_lt (h.size_instances pass ▸ Nat.lt_succ_self _)
      engines_le := Nat.le_of_lt (h.size_engines pass ▸ Nat.lt_succ_self _)
      engine_eq := fun i hi => by rw [h.instanceAt_of_lt pass hi]
      engine_new := fun i hle hlt => by
        rcases h.instance_cases pass hlt with hi | ⟨_, hmade⟩
        · exact absurd hi (Nat.not_lt.mpr hle)
        · exact Nat.le_of_eq (by rw [hmade, h.engine_eq])
      busy := fun i hi hbusy => by rw [h.instanceAt_of_lt pass hi, hbusy]
      others := fun e' _ he' => h.engine_of_lt pass he'.lt
      generated := fun i hi hgen => by
        rw [Session.Generated, h.engineOf_of_lt pass hs hi]
        exact hgen
      fresh := fun i hi hgen _ => by
        have hlt := h.lt_of_generated pass hi hgen
        rw [Session.Generated, h.engineOf_of_lt pass hs hlt] at hgen
        exact .inl ⟨hlt, hgen⟩
      advanced := fun i hi => by simp at hi
      memo := fun t' i hi => (h.mem_memo pass hi).imp_right fun ⟨ht, hnew⟩ =>
        ⟨pass, by simp [ht, hnew]⟩
      made := fun t' i pass' hmade => by
        obtain ⟨-, rfl, -⟩ : t' = t ∧ i = ⟨s1.instances.size⟩ ∧ pass' = pass := by
          simpa using hmade
        rw [h.size_instances, hsize]
        exact ⟨.refl, Nat.lt_succ_self _⟩ }

end Prepared

/-! ## All steps -/

theorem Step.engine_of_lt (h : Step s s') {e : EngineId} (he : e.index < s.engines.size) :
    s'.engine e = s.engine e := by
  rcases h.still_or with hstill | ⟨engine, _, rfl⟩ | ⟨s1, id, made, pass, hmake, rfl⟩
  · rw [engine, hstill.engines, engine]
  · exact (s.engine_push engine e).trans (if_neg (Nat.ne_of_lt he))
  · exact hmake.engine_of_lt pass he

theorem Session.Staffed.step (hs : s.Staffed) (h : Step s s') (e : EngineId) :
    s'.Staffed ∧ ∃ new, Ran e s s' new := by
  have hengine : ∀ e', e'.index < s.engines.size → s'.engine e' = s.engine e' :=
    fun _ he' => h.engine_of_lt he'
  rcases h.still_or with hstill | ⟨engine, _, rfl⟩ | ⟨s1, id, made, pass, hmake, rfl⟩
  · refine hs.of_same e hstill.instances
      (Nat.le_of_eq (congrArg Array.size hstill.engines.symm)) hengine hstill.memo
      (hstill.history.imp_right fun ⟨event, hhistory, hevent⟩ => ⟨event, hhistory, ?_, ?_⟩)
    · rintro t i pass rfl
      exact nomatch hevent
    · rintro i rfl
      exact nomatch hevent
  · exact hs.of_same e rfl (by simp) hengine (fun _ _ hi => hi) (.inl rfl)
  · exact ⟨hmake.staffed pass hs, _, hmake.ran pass hs e⟩

/-- The engine does not complete the pass. -/
def Works (e : EngineId) (s s' : Session) : Prop :=
  s.Staffed → s.MayRun e → s'.Staffed ∧ (∃ new, Ran e s s' new) ∧
    (s'.engine e).completed = (s.engine e).completed

namespace Works

variable {e : EngineId} {s s' : Session}

instance : Std.Refl (Works e) := ⟨fun s hs _ => ⟨hs, ⟨[], .refl e s⟩, rfl⟩⟩

theorem next (h : Works e s s') (hs : s.Staffed) (he : s.MayRun e) :
    s'.Staffed ∧ s'.MayRun e ∧ (∃ new, Ran e s s' new) ∧
      (s'.engine e).completed = (s.engine e).completed := by
  obtain ⟨hs', ⟨new, hran⟩, hcompleted⟩ := h hs he
  exact ⟨hs', hran.mayRun_of_eq he hcompleted, ⟨new, hran⟩, hcompleted⟩

instance : IsTrans Session (Works e) where
  trans _ _ _ h h' hs he := by
    obtain ⟨hs1, he1, ⟨new, hran⟩, hcompleted⟩ := h.next hs he
    obtain ⟨hs2, ⟨new', hran'⟩, hcompleted'⟩ := h' hs1 he1
    exact ⟨hs2, ⟨new ++ new', hran.trans hran'⟩, hcompleted'.trans hcompleted⟩

theorem of_engine {f : Engine → Engine} (hf : ∀ engine, (f engine).completed = engine.completed) :
    Works e s { s with engines := s.engines.modify e.index f } := by
  intro hs he
  have hown : ({ s with engines := s.engines.modify e.index f } : Session).engine e =
      f (s.engine e) := (s.engine_modify e e f).trans (if_pos ⟨rfl, he.lt⟩)
  have hcompleted : ∀ pass, (f (s.engine e)).hasCompleted pass = (s.engine e).hasCompleted pass :=
    fun pass => by rw [Engine.hasCompleted, hf, Engine.hasCompleted]
  refine ⟨hs.modifyEngine fun i hi hengine hgen => ?_, ⟨[], .modifyEngine fun h => ?_⟩, ?_⟩
  -- The text of an instance may change as long as the instance is not generated.
  · rw [hcompleted, he.pending i hi hengine] at hgen
    exact nomatch hgen
  · rw [hcompleted, h]
  · rw [hown, hf]

theorem of_step (h : Step s s') : Works e s s' := fun hs he =>
  ⟨(hs.step h e).1, (hs.step h e).2, by rw [h.engine_of_lt he.lt]⟩

instance : Admits (Works e) where
  quiet h := of_step (.quiet h)
  step := of_step

instance : AdmitsEngine e (Works e) where
  engine _ hf := of_engine fun engine => (hf engine).2.2

end Works

end StagedAsm
