import StagedAsm.Proofs.ActionMoves
import StagedAsm.Proofs.EpochRecords

/-!
# Epochs in whole runs

What the history tells of placeholders and epochs stays true through passes, programs and instances.
-/

namespace StagedAsm

open Array

/-! ## Consistent sessions -/

/-- What the history of a session tells of its placeholders and epochs is true. -/
structure Session.Consistent (s : Session) : Prop where
  recorded : s.Recorded
  epoch : s.EpochRecorded
  owned : s.Owned

namespace Session.Consistent

variable {s s' : Session}

theorem step (hs : s.Consistent) (h : Step s s') : s'.Consistent :=
  ⟨hs.recorded.step h, hs.epoch.step h, hs.owned.step hs.recorded h⟩

theorem modifyEngine (hs : s.Consistent) {f : Engine → Engine} (e : EngineId)
    (hf : ∀ engine, (f engine).ownsEpoch = engine.ownsEpoch) :
    Consistent { s with engines := s.engines.modify e.index f } := by
  have hmild : Mild s { s with engines := s.engines.modify e.index f } :=
    .of_eq rfl rfl fun _ => rfl
  refine ⟨hs.recorded.mild hmild, hs.epoch.of_eq rfl rfl, hs.owned.extend (fun e' he' => ?_)
    (fun i hi => ?_) (List.append_nil _).symm (by simp) (by simp) fun p _ hp =>
      hp.mild hs.recorded hmild⟩
  · rw [engine_modify]
    refine ⟨by simpa using he', fun howns => ?_⟩
    split
    · rename_i heq
      rwa [hf, ← heq.1]
    · exact howns
  · rw [size_modify]
    exact hs.owned.engine_lt i hi

theorem modifyInstance (hs : s.Consistent) {f : Instance → Instance} (id : InstanceId)
    (hf : ∀ i, (f i).engine = i.engine) :
    Consistent { s with instances := s.instances.modify id.index f } := by
  have hmild : Mild s { s with instances := s.instances.modify id.index f } :=
    .of_eq rfl rfl fun _ => rfl
  refine ⟨hs.recorded.mild hmild, hs.epoch.of_eq rfl rfl,
    hs.owned.extend (fun _ he => ⟨he, fun h => h⟩)
    (fun i hi => ?_) (List.append_nil _).symm (by simp) (by simp) fun p _ hp =>
      hp.mild hs.recorded hmild⟩
  rw [size_modify] at hi
  rw [instanceAt_modify]
  split
  · rename_i heq
    rw [hf, ← heq.1]
    exact hs.owned.engine_lt i hi
  · exact hs.owned.engine_lt i hi

/-- Events that are about instances change nothing. -/
theorem happened (hs : s.Consistent) {event : Event} (habout : event.aboutEpoch = false)
    (hsettles : event.settles = false) (hfinished : ∀ e, event ≠ .finished e .resolve) :
    Consistent { s with history := s.history.push event } := by
  have hasked : ∀ p, event ≠ .asked p := by
    rintro p rfl
    exact nomatch hsettles
  have hopened : ∀ e, event ≠ .opened e := by
    rintro e rfl
    exact nomatch habout
  have hmild : Mild s { s with history := s.history.push event } :=
    .of_eq rfl rfl fun p => by simp [asks, hasked p]
  exact ⟨hs.recorded.mild hmild, hs.epoch.push habout rfl rfl,
    hs.owned.extend (fun _ he => ⟨he, id⟩) hs.owned.engine_lt
      toList_push (fun e hmem => absurd (List.mem_singleton.mp hmem).symm (hopened e))
      (fun e hmem => absurd (List.mem_singleton.mp hmem).symm (hfinished e))
      fun p _ hp => hp.mild hs.recorded hmild⟩

end Session.Consistent

/-! ## Computations that keep sessions consistent -/

variable {s : Session} {e : EngineId}

theorem Step.size_engines_le {s' : Session} (h : Step s s') : s.engines.size ≤ s'.engines.size := by
  rcases h.still_or with hstill | ⟨engine, _, rfl⟩ | ⟨s1, id, made, pass, hmake, rfl⟩
  · exact le_of_eq (congrArg Array.size hstill.engines.symm)
  · simp
  · exact hmake.size_engines pass ▸ Nat.le_succ _

/-- Sessions stay consistent while an engine that is there runs. -/
def Sound (e : EngineId) (s s' : Session) : Prop :=
  s.Consistent → e.index < s.engines.size → s'.Consistent ∧ s.engines.size ≤ s'.engines.size

namespace Sound

variable {e : EngineId}

instance : Std.Refl (Sound e) := ⟨fun _ hs _ => ⟨hs, .refl⟩⟩

instance : IsTrans Session (Sound e) where
  trans _ _ _ h h' hs he := by
    obtain ⟨hs1, hle⟩ := h hs he
    obtain ⟨hs2, hle'⟩ := h' hs1 (Nat.lt_of_lt_of_le he hle)
    exact ⟨hs2, Nat.le_trans hle hle'⟩

variable {s : Session}

theorem of_step {s' : Session} (h : Step s s') : Sound e s s' := fun hs _ =>
  ⟨hs.step h, h.size_engines_le⟩

instance : Admits (Sound e) where
  quiet h := of_step (.quiet h)
  step := of_step

theorem modifyEngine {f : Engine → Engine} (e' : EngineId)
    (hf : ∀ engine, (f engine).ownsEpoch = engine.ownsEpoch) :
    Sound e s { s with engines := s.engines.modify e'.index f } := fun hs _ =>
  ⟨hs.modifyEngine e' hf, le_of_eq (size_modify ..).symm⟩

instance (e' : EngineId) : AdmitsEngine e' (Sound e) where
  engine _ hf := modifyEngine e' fun engine => (hf engine).1

end Sound

/-! ## Passes -/

theorem Sound.start (s : Session) (e' : EngineId) (pass : Pass) : Sound e s (s.start e' pass) := by
  intro hs _
  have hmild : Mild s (s.start e' pass) := .of_eq rfl rfl fun _ => rfl
  refine ⟨⟨hs.recorded.mild hmild, hs.epoch.of_eq rfl rfl, ?_⟩, le_refl _⟩
  exact hs.owned.extend (fun _ he => ⟨he, id⟩) hs.owned.engine_lt (List.append_nil _).symm (by simp)
    (by simp) fun p _ hp => hp.mild hs.recorded hmild

theorem Sound.finish {pass : Pass} (h : pass = .resolve → (s.engine e).ownsEpoch = false) :
    Sound e s (s.finish e pass) := by
  intro hs he
  have hs1 := hs.modifyEngine (f := fun engine =>
    { engine with running := none, completed := some pass }) e fun _ => rfl
  refine ⟨⟨hs1.recorded.mild (.of_eq rfl rfl fun p => count_push_of_ne (by simp)),
    hs1.epoch.push rfl rfl rfl, hs1.owned.finishes hs1.recorded fun hpass => ?_⟩,
    le_of_eq (size_modify ..).symm⟩
  rw [Session.engine_modify, if_pos ⟨rfl, he⟩]
  exact h hpass

namespace Runner

variable (r : Runner)

variable {s s' : Session}

variable (hadvance : ∀ id pass, Moves (Sound r.engine) (r.advance id pass))

include hadvance

variable (program : Program) (upTo : Pass) (depth : Nat)

end Runner

/-! ## Instances -/

variable (id : InstanceId)

end StagedAsm
