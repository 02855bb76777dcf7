import StagedAsm.Proofs.ConfinedSessions

/-!
# What instances declare is their own

Making an instance and bringing it up to a pass runs its body, and perhaps those of others, on the
session that all engines share. Still nothing changes in the scopes that were there, provided that
bodies leave no scope they did not enter and take no placeholder of such a scope into the epoch.
Older instances are an exception if they are brought on meanwhile.
-/

namespace StagedAsm

variable {s₀ s s' : Session} {working : EngineId → Prop} {n : Nat}

/-! ## Engines that are not at work -/

namespace Runner

variable {r : Runner}

end Runner

namespace Confines

end Confines

/-! ## Instances -/

namespace Session

theorem Confined.refl (hs : s₀.Grounded) (hstaffed : s₀.Staffed)
    (hepoch : ∀ e, working e → (s₀.engine e).ownsEpoch = true → ∀ graph, s₀.epoch = some graph →
      ∀ p ∈ graph.nodes, s₀.Harmless working p) : s₀.Confined working s₀ := by
  have hnone : s₀.tree.trail.toList.drop s₀.tree.trail.size = [] :=
    List.drop_eq_nil_of_le (by simp)
  exact
    { grounded := hs
      tree := .refl _ _
      trail_le := le_refl _
      history_le := le_refl _
      begun_le := le_refl _
      engines_le := le_refl _
      visitors := by simp [hnone]
      indoors := fun e he hlt => by
        rw [movesSince, hnone]
        exact .start (.inr ⟨e, he, hlt, .here⟩)
      owners := fun _ _ _ h => .inl h
      epoch := hepoch
      engine_lt := hstaffed.engine_lt }

end Session

end StagedAsm
