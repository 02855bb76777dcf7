import StagedAsm.Proofs.ActionMoves
import StagedAsm.Run.Script

/-!
# The sessions that can be reached

Who uses a session makes engines, builds programs, compiles them and runs single commands, in any
order, and goes on when one of these fails. `Reached` collects the sessions that come about in this
way, each with the engines that were handed out.
-/

namespace StagedAsm

/-- The sessions a user can get to, with the engines that the user has. -/
inductive Reached : List EngineId → Session → Prop where
  | new (settings : Settings) : Reached [] { settings }
  | start {engines : List EngineId} {s s' : Session} {sections : List String} {e : EngineId}
      (hs : Reached engines s) (h : startEngine sections s = .ok e s') : Reached (e :: engines) s'
  | fork {engines : List EngineId} {s s' : Session} {snapshot : Snapshot} {e : EngineId}
      {scope : ScopeId} (hs : Reached engines s)
      (h : StagedAsm.fork snapshot s = .ok (e, scope) s') : Reached (e :: engines) s'
  | build {engines : List EngineId} {s : Session} (statements : List Statement)
      (hs : Reached engines s) : Reached engines (leaves (buildProgram statements) s)
  /-- Whether or not that succeeds. -/
  | compile {engines : List EngineId} {s : Session} {e : EngineId} (depth : Nat)
      (program : Program) (upTo : Pass) (hs : Reached engines s) (he : e ∈ engines) :
      Reached engines (leaves ((e.runner depth).compile program upTo) s)
  /-- Whether or not that succeeds. -/
  | command {engines : List EngineId} {s : Session} {e : EngineId} (depth : Nat) (c : Command)
      (hs : Reached engines s) (he : e ∈ engines) :
      Reached engines (leaves ((e.runner depth).runCommand c) s)
  | read {engines : List EngineId} {s : Session} (hs : Reached engines s) :
      Reached engines { s with log := [] }

variable {s : Session} {engines : List EngineId} {R : Session → Session → Prop}

theorem startEngine_eq_ok {sections : List String} {s' : Session} {e : EngineId}
    (h : startEngine sections s = .ok e s') :
    e = ⟨s.engines.size⟩ ∧ ∃ engine : Engine, engine.IsNew ∧
      Quiet { s with engines := s.engines.push engine } s' := by
  cases h
  exact ⟨rfl, _, ⟨rfl, rfl, rfl⟩, .of_eq rfl rfl⟩

/-! ## Invariants -/

theorem Reached.invariant {P : Session → Prop} {Q : EngineId → Session → Prop}
    (hnew : ∀ settings, P { settings }) (hfork : ∀ {s s' engine}, P s → engine.IsNew →
      Quiet { s with engines := s.engines.push engine } s' →
      P s' ∧ Q ⟨s.engines.size⟩ s' ∧ ∀ e, Q e s → Q e s')
    (hquiet : ∀ {s s'}, P s → Quiet s s' → P s' ∧ ∀ e, Q e s → Q e s')
    (hcompile : ∀ {s e} depth program upTo, P s → Q e s →
      P (leaves ((e.runner depth).compile program upTo) s) ∧
        ∀ e', Q e' s → Q e' (leaves ((e.runner depth).compile program upTo) s))
    (hcommand : ∀ {s e} depth c, P s → Q e s → P (leaves ((e.runner depth).runCommand c) s) ∧
        ∀ e', Q e' s → Q e' (leaves ((e.runner depth).runCommand c) s)) (hs : Reached engines s) :
    P s ∧ ∀ e ∈ engines, Q e s := by
  induction hs with
  | new settings => exact ⟨hnew settings, by simp⟩
  | start hs h ih =>
    obtain ⟨rfl, engine, hisNew, hquiet⟩ := startEngine_eq_ok h
    obtain ⟨hs', hown, hothers⟩ := hfork ih.1 hisNew hquiet
    exact ⟨hs', by simpa using ⟨hown, fun e he => hothers e (ih.2 e he)⟩⟩
  | fork hs h ih =>
    obtain ⟨rfl, engine, hisNew, hquiet⟩ := fork_eq_ok h
    obtain ⟨hs', hown, hothers⟩ := hfork ih.1 hisNew hquiet
    exact ⟨hs', by simpa using ⟨hown, fun e he => hothers e (ih.2 e he)⟩⟩
  | build statements hs ih =>
    obtain ⟨hs', hkeep⟩ := hquiet ih.1 (moves_buildProgram statements _)
    exact ⟨hs', fun e he => hkeep e (ih.2 e he)⟩
  | compile depth program upTo hs he ih =>
    obtain ⟨hs', hkeep⟩ := hcompile depth program upTo ih.1 (ih.2 _ he)
    exact ⟨hs', fun e he => hkeep e (ih.2 e he)⟩
  | command depth c hs he ih =>
    obtain ⟨hs', hkeep⟩ := hcommand depth c ih.1 (ih.2 _ he)
    exact ⟨hs', fun e he => hkeep e (ih.2 e he)⟩
  | @read _ s hs ih =>
    have hread : Quiet s { s with log := [] } := .of_eq rfl rfl
    obtain ⟨hs', hkeep⟩ := hquiet ih.1 hread
    exact ⟨hs', fun e he => hkeep e (ih.2 e he)⟩

end StagedAsm
