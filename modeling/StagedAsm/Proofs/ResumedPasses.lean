import StagedAsm.Proofs.EpochRuns
import StagedAsm.Proofs.InstanceRuns
import StagedAsm.Proofs.WholeRuns

/-!
# Compiling in several goes

After a first go that succeeded, a second one does what compiling all the way at once would have
done, down to the errors and the places they are reported at. The passes of a longer go are those of
the shorter one, and then the others (`runPasses_append`, `runPasses_congr`). The first ones are
completed (`hasCompleted_last`) and passed over, so both ways lead to the later passes in the same
session.
-/

namespace StagedAsm

/-! ## Engines are not lost -/

/-- No engine gets lost. -/
def EnginesStay (s s' : Session) : Prop := s.engines.size ≤ s'.engines.size

namespace EnginesStay

instance : IsPreorder Session EnginesStay where
  refl _ := .refl
  trans _ _ _ := Nat.le_trans

instance : AdmitsRuns EnginesStay where
  quiet h := Nat.le_of_eq (congrArg Array.size h.engines.symm)
  step h := h.size_engines_le
  run {s s'} h := by
    cases h with
    | engine e f => exact Nat.le_of_eq Array.size_modify.symm
    | _ => exact .refl

end EnginesStay

/-! ## Passes in order -/

theorem Pass.all_split (a : Pass) : ∃ before after, Pass.all = (before ++ [a]) ++ after ∧
    (∀ p ∈ before ++ [a], p ≤ a) ∧ ∀ p ∈ after, ¬p ≤ a := by
  cases a with
  | declare => exact ⟨[], [.resolve, .generate], rfl, by decide, by decide⟩
  | resolve => exact ⟨[.declare], [.generate], rfl, by decide, by decide⟩
  | generate => exact ⟨[.declare, .resolve], [], rfl, by decide, by decide⟩

namespace Runner

variable {r : Runner} {program : Program} {a b upTo : Pass} {depth : Nat} {s s' s₁ : Session}

theorem runPasses_append (first second : List Pass) :
    r.runPasses program upTo depth (first ++ second) =
      r.runPasses program upTo depth first >>= fun _ => r.runPasses program upTo depth second := by
  induction first with
  | nil => rfl
  | cons pass rest ih =>
    rw [List.cons_append, runPasses, runPasses, ih, bind_assoc]
    congr 1
    funext engine
    split
    · rw [bind_assoc]
    · rfl

theorem runPasses_congr {passes : List Pass} (h : ∀ p ∈ passes, p ≤ a ↔ p ≤ b) :
    r.runPasses program a depth passes = r.runPasses program b depth passes := by
  induction passes with
  | nil => rfl
  | cons pass rest ih =>
    have hpass : decide (pass ≤ a) = decide (pass ≤ b) := by simp [h pass List.mem_cons_self]
    rw [runPasses, runPasses, hpass, ih fun p hp => h p (List.mem_cons_of_mem _ hp)]

/-! ## Whole programs -/

theorem compile_iff_of_runPasses
    (h : r.runPasses program upTo (s.engine r.engine).scopes.length Pass.all s = .ok () s') :
    r.compile program upTo s = .ok () s' ↔
      (s'.engine r.engine).files.length = (s.engine r.engine).files.length ∧
      (s'.engine r.engine).scopes.length = (s.engine r.engine).scopes.length := by
  have hattempt : attempt (r.runPasses program upTo (s.engine r.engine).scopes.length Pass.all) s =
      .ok (.ok ()) s' := by
    rw [attempt, h]
  rw [compile, EngineId.state_bind, bind_of_ok hattempt]
  dsimp only
  rw [EngineId.state_bind, fail, check_eq_ok, Decidable.not_not]
  by_cases hscopes : (s'.engine r.engine).scopes.length = (s.engine r.engine).scopes.length
  · simp [hscopes]
  · simp [hscopes, fail]

theorem compile_congr
    (hfiles : (s'.engine r.engine).files.length = (s.engine r.engine).files.length)
    (hscopes : (s'.engine r.engine).scopes.length = (s.engine r.engine).scopes.length)
    (h : r.runPasses program upTo (s.engine r.engine).scopes.length Pass.all s' =
      r.runPasses program upTo (s.engine r.engine).scopes.length Pass.all s) :
    r.compile program upTo s' = r.compile program upTo s := by
  have hattempt : attempt (r.runPasses program upTo (s.engine r.engine).scopes.length Pass.all) s' =
      attempt (r.runPasses program upTo (s.engine r.engine).scopes.length Pass.all) s := by
    rw [attempt, attempt, h]
  unfold compile
  rw [EngineId.state_bind, EngineId.state_bind, hfiles, hscopes]
  simp only [bind, EStateM.bind, hattempt]

/-! ## Going on -/

theorem hasCompleted_last (hadvance : ∀ id pass, Moves EnginesStay (r.advance id pass))
    (he : r.engine.index < s.engines.size) {before : List Pass}
    (h : r.runPasses program a depth (before ++ [a]) s = .ok () s₁) :
    (s₁.engine r.engine).hasCompleted a = true := by
  rw [runPasses_append] at h
  obtain ⟨_, s2, hbefore, hlast⟩ := bind_eq_ok.mp h
  have hstay : s.engines.size ≤ s2.engines.size :=
    (r.moves_runPasses hadvance program a depth before).of_ok hbefore
  obtain ⟨s3, hnone, hpass⟩ := runPasses_cons_eq_ok hlast
  obtain ⟨-, rfl⟩ := pure_eq_ok.mp hnone
  cases hpass with
  | inl hrun =>
    have hstay' : s2.engines.size ≤ s₁.engines.size :=
      (r.moves_runPass hadvance program depth a).of_ok hrun.2.2
    obtain ⟨_, s4, -, -, rfl⟩ := runPass_eq_ok hrun.2.2
    have hlt : r.engine.index < s4.engines.size := by
      have hsize : (s4.finish r.engine a).engines.size = s4.engines.size := Array.size_modify
      omega
    rw [Session.hasCompleted_finish hlt]
    exact decide_eq_true .refl
  | inr hskip =>
    rw [hskip.2]
    exact hskip.1 .refl

theorem runPasses_resume (hadvance : ∀ id pass, Moves EnginesStay (r.advance id pass))
    (he : r.engine.index < s.engines.size) (hle : a ≤ b)
    (h : r.runPasses program a depth Pass.all s = .ok () s₁) :
    (s₁.engine r.engine).hasCompleted a = true ∧
      r.runPasses program b depth Pass.all s₁ = r.runPasses program b depth Pass.all s := by
  obtain ⟨before, after, hall, hearly, hlate⟩ := Pass.all_split a
  rw [hall] at h ⊢
  -- the shorter go runs the passes up to its last one, and no others
  have hfirst : r.runPasses program a depth (before ++ [a]) s = .ok () s₁ := by
    rw [runPasses_append] at h
    obtain ⟨_, s2, hearlier, hlater⟩ := bind_eq_ok.mp h
    have hnone : r.runPasses program a depth after s2 = .ok () s2 :=
      runPasses_of_completed fun p hp hple => absurd hple (hlate p hp)
    rw [hnone] at hlater
    cases hlater
    exact hearlier
  have hdone := hasCompleted_last hadvance he hfirst
  refine ⟨hdone, ?_⟩
  have hsame : r.runPasses program b depth (before ++ [a]) =
      r.runPasses program a depth (before ++ [a]) :=
    runPasses_congr fun p hp => ⟨fun _ => hearly p hp, fun hp => Nat.le_trans hp hle⟩
  -- both goes come to the later passes in the same session
  have hagain : r.runPasses program b depth (before ++ [a]) s₁ = .ok () s₁ :=
    runPasses_of_completed fun p hp _ => Engine.hasCompleted_of_le (hearly p hp) hdone
  rw [runPasses_append, bind_of_ok hagain, hsame, bind_of_ok hfirst]

theorem compile_of_completed (h : (s.engine r.engine).hasCompleted upTo = true) :
    r.compile program upTo s = .ok () s := by
  have hruns : r.runPasses program upTo (s.engine r.engine).scopes.length Pass.all s = .ok () s :=
    runPasses_of_completed fun p _ hple => Engine.hasCompleted_of_le hple h
  exact (compile_iff_of_runPasses hruns).mpr ⟨rfl, rfl⟩

end Runner

/-- A program that was compiled up to one pass is compiled up to a later one as if that were done at
    once: with the same result, be it an error and the place it is reported at, and in the same
    session at the end. Up to a pass that was completed nothing is done at all. -/
theorem compile_resumes {e : EngineId} {s s₁ : Session}
    (he : e.index < s.engines.size) (depth : Nat)
    (program : Program) {a b : Pass} (hle : a ≤ b)
    (h : (e.runner depth).compile program a s = .ok () s₁) :
    ((e.runner depth).compile program a >>= fun _ => (e.runner depth).compile program b) s =
      (e.runner depth).compile program b s ∧
    (s₁.engine e).hasCompleted a = true ∧
    ∀ (t : Session) (other : Program) (pass : Pass), (t.engine e).hasCompleted pass = true →
      (e.runner depth).compile other pass t = .ok () t := by
  have hruns := Runner.compile_eq_ok h
  obtain ⟨hfiles, hscopes⟩ := (Runner.compile_iff_of_runPasses hruns).mp h
  obtain ⟨hdone, hresume⟩ := Runner.runPasses_resume (moves_advanceWithin depth) he hle hruns
  refine ⟨?_, hdone, fun t other pass hpass => Runner.compile_of_completed hpass⟩
  rw [bind_of_ok h]
  exact Runner.compile_congr hfiles hscopes hresume

def strayProgram : Program :=
  [.enterFile "main", .constant "x" "1", .jumpToKnown "jmp" "end", .exitFile]

def strayDeclared : Session :=
  leaves ((EngineId.runner ⟨0⟩ 0).compile strayProgram .declare)
    (leaves (startEngine defaultSections) {})

theorem compile_resumes_stray : 0 < (leaves (startEngine defaultSections) {}).engines.size ∧
    (EngineId.runner ⟨0⟩ 0).compile strayProgram .declare
      (leaves (startEngine defaultSections) {}) =
      .ok () strayDeclared ∧
    succeeds ((EngineId.runner ⟨0⟩ 0).compile strayProgram .generate)
      (leaves (startEngine defaultSections) {}) = false ∧
    (EngineId.runner ⟨0⟩ 0).compile strayProgram .generate strayDeclared =
      (EngineId.runner ⟨0⟩ 0).compile strayProgram .generate
        (leaves (startEngine defaultSections) {}) ∧
    (EngineId.runner ⟨0⟩ 0).compile [] .declare strayDeclared = .ok () strayDeclared := by
  have he : 0 < (leaves (startEngine defaultSections) {}).engines.size := by decide +kernel
  have hfirst : (EngineId.runner ⟨0⟩ 0).compile strayProgram .declare
      (leaves (startEngine defaultSections) {}) = .ok () strayDeclared :=
    eq_ok_of_succeeds (by decide +kernel)
  obtain ⟨hresumed, hdone, hagain⟩ :=
    compile_resumes (e := ⟨0⟩) he 0 strayProgram (b := .generate) (by decide) hfirst
  rw [bind_of_ok hfirst] at hresumed
  exact ⟨he, hfirst, by decide +kernel, hresumed, hagain strayDeclared [] .declare hdone⟩

end StagedAsm
