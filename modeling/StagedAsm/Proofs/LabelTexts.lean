import StagedAsm.Proofs.LaterSessions
import StagedAsm.Proofs.StructuredCode

/-!
# The texts of labels

A label is made of a number, the names of the scopes around it and a name of its own, joined with
underscores, which may stand in any of the names. Only the number tells labels apart. All engines
draw their numbers from one counter, and nothing sets it back.
-/

namespace StagedAsm

/-! ## The counter -/

def CountsUp (s s' : Session) : Prop := s.nextUid ≤ s'.nextUid

namespace CountsUp

instance : IsPreorder Session CountsUp where
  refl _ := .refl
  trans _ _ _ := Nat.le_trans

instance : AdmitsRuns CountsUp where
  quiet h := h.uid
  step {s s'} h := by
    cases h with
    | quiet h => exact h.uid
    | make id made pass hlt hfresh h =>
      -- an engine is set up before the instance is enlisted
      obtain ⟨engine, -, hquiet⟩ := h.quiet
      exact hquiet.uid
    | _ => exact .refl
  run {s s'} h := by
    cases h <;> exact .refl

end CountsUp

theorem Later.nextUid_le {s s' : Session} (h : Later s s') : s.nextUid ≤ s'.nextUid :=
  h.related (R := CountsUp)

/-! ## Runs in which labels are asked for -/

namespace EngineId

variable (e : EngineId) (name : String) (s : Session)

/-- The label that an engine gives to a name. -/
def labelNow : String :=
  labelText s.nextUid (pathNames s.tree (s.engine e).scopes).reverse name

theorem label_apply :
    e.label name s = .ok (e.labelNow name s) { s with nextUid := s.nextUid + 1 } :=
  rfl

end EngineId

/-- Labels are asked for on any engines. In between, anything may happen. -/
inductive LabelRun : Session → List String → Session → Prop where
  | done (s : Session) : LabelRun s [] s
  | call {s s1 s' : Session} {e : EngineId} {name text : String} {texts : List String}
      (h : e.label name s = .ok text s1) (hrest : LabelRun s1 texts s') :
      LabelRun s (text :: texts) s'
  | meanwhile {s s1 s' : Session} {texts : List String} (h : Later s s1)
      (hrest : LabelRun s1 texts s') : LabelRun s texts s'

/-- The text of a label with a number that is not below another. -/
def IsLabelFrom (first : Nat) (text : String) : Prop :=
  ∃ uid path name, first ≤ uid ∧ text = EngineId.labelText uid path name

theorem IsLabelFrom.mono {first first' : Nat} {text : String} (h : IsLabelFrom first text)
    (hle : first' ≤ first) : IsLabelFrom first' text := by
  obtain ⟨uid, path, name, huid, rfl⟩ := h
  exact ⟨uid, path, name, Nat.le_trans hle huid, rfl⟩

namespace LabelRun

variable {s s' : Session} {texts : List String}

theorem isLabelFrom (h : LabelRun s texts s') {text : String} (htext : text ∈ texts) :
    IsLabelFrom s.nextUid text := by
  induction h with
  | done s => simp at htext
  | call hcall hrest ih =>
    rw [EngineId.label_apply] at hcall
    cases hcall
    rcases List.mem_cons.mp htext with rfl | hmem
    · exact ⟨_, _, _, .refl, rfl⟩
    · exact (ih hmem).mono (Nat.le_succ _)
  | meanwhile h hrest ih => exact (ih htext).mono h.nextUid_le

theorem nodup (h : LabelRun s texts s') : texts.Nodup := by
  induction h with
  | done s => exact List.nodup_nil
  | call hcall hrest ih =>
    refine List.nodup_cons.mpr ⟨fun hmem => ?_, ih⟩
    obtain ⟨uid, path, name, huid, htext⟩ := hrest.isLabelFrom hmem
    rw [EngineId.label_apply] at hcall
    cases hcall
    have heq := labelText_inj htext
    simp only at huid
    omega
  | meanwhile h hrest ih => exact ih

end LabelRun

/-- Labels can be asked for at any time, and the texts of all labels that are asked for in a run
    differ, whatever engines and instances do in between. -/
theorem labels_never_repeat :
    (∀ (e : EngineId) (name : String) (s : Session), ∃ text s', e.label name s = .ok text s') ∧
    (∀ {s s' : Session} {texts : List String}, LabelRun s texts s' → texts.Nodup) ∧
    (∀ (e : EngineId) (depth : Nat) (program : Program) (upTo : Pass),
      Moves Later ((e.runner depth).compile program upTo)) ∧
    (∀ (e : EngineId) (depth : Nat) (c : Command), Moves Later ((e.runner depth).runCommand c)) ∧
    (∀ (depth : Nat) (id : InstanceId) (pass : Pass), Moves Later (advanceWithin depth id pass)) ∧
    (∀ {engines : List EngineId} {s : Session}, Reached engines s →
      ∃ settings, Later { settings } s) := by
  refine ⟨fun e name s => ⟨_, _, e.label_apply name s⟩, LabelRun.nodup, ?_, ?_, moves_advanceWithin,
    Reached.later⟩
  · intro e depth program upTo
    exact Runner.moves_compile ⟨e, advanceWithin depth⟩ (moves_advanceWithin depth) program upTo
  · intro e depth c
    exact Runner.moves_runCommand ⟨e, advanceWithin depth⟩ (moves_advanceWithin depth) c

/-- A label of an engine, and one of an engine that was made from a snapshot in between. The digits
    and underscores of the names do not matter. -/
theorem labels_never_repeat_forked :
    ∃ s s', Reached [⟨0⟩] s ∧ LabelRun s ["L0__1_", "L1__"] s' ∧ ["L0__1_", "L1__"].Nodup ∧
      ∃ settings, Later { settings } s := by
  have hstart : startEngine [programSection] {} =
    .ok ⟨0⟩ (leaves (startEngine [programSection]) {}) :=
    rfl
  have hs := (Reached.new {}).start hstart
  obtain ⟨s₂, hfirst⟩ : ∃ s₂, EngineId.label ⟨0⟩ "1_" (leaves (startEngine [programSection]) {}) =
      .ok "L0__1_" s₂ := ⟨_, rfl⟩
  have hfork : fork (s₂.engine ⟨0⟩).snapshot s₂ = .ok (⟨1⟩, ⟨1⟩)
      (leaves (fork (s₂.engine ⟨0⟩).snapshot) s₂) := by
    cases hfirst
    rfl
  obtain ⟨-, fresh, hnew, hquiet⟩ := fork_eq_ok hfork
  obtain ⟨s₄, hsecond⟩ : ∃ s₄, EngineId.label ⟨1⟩ "" (leaves (fork (s₂.engine ⟨0⟩).snapshot) s₂) =
      .ok "L1__" s₄ := by
    cases hfirst
    exact ⟨_, rfl⟩
  have hrun : LabelRun _ ["L0__1_", "L1__"] s₄ :=
    .call hfirst (.meanwhile (.of_turn (.engine fresh hnew hquiet)) (.call hsecond (.done s₄)))
  exact ⟨_, _, hs, hrun, labels_never_repeat.2.1 hrun, labels_never_repeat.2.2.2.2.2 hs⟩

end StagedAsm
