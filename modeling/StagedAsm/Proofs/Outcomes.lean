import StagedAsm.Proofs.Moves

/-!
# Outcomes of computations

`Ends m s good bad` says that a result of `m` in `s` satisfies `good`, together with the state
behind it, and a fault satisfies `bad`. With `bad` false it says that there is a result. So one
lemma for each function tells both what its success means and why it may fail.
-/

namespace StagedAsm

variable {ε σ α β : Type}

/-- A result of the computation is `good`, and a fault is `bad`. -/
def Ends (m : EStateM ε σ α) (s : σ) (good : α → σ → Prop) (bad : ε → Prop) : Prop :=
  match m s with
  | .ok a s' => good a s'
  | .error fault _ => bad fault

namespace Ends

variable {m : EStateM ε σ α} {f : α → EStateM ε σ β} {s s' : σ} {a : α} {fault : ε}
  {good : α → σ → Prop} {good' : β → σ → Prop} {bad : ε → Prop}

theorem of_ok (hm : m s = .ok a s') (h : good a s') : Ends m s good bad := by
  rw [Ends, hm]
  exact h

theorem of_error (hm : m s = .error fault s') (h : bad fault) : Ends m s good bad := by
  rw [Ends, hm]
  exact h

theorem good_of_ok (h : Ends m s good bad) (hm : m s = .ok a s') : good a s' := by
  rw [Ends, hm] at h
  exact h

theorem bad_of_error (h : Ends m s good bad) (hm : m s = .error fault s') : bad fault := by
  rw [Ends, hm] at h
  exact h

theorem exists_ok (h : Ends m s good bad) (hbad : ∀ fault, ¬ bad fault) :
    ∃ a s', m s = .ok a s' ∧ good a s' := by
  cases hm : m s with
  | ok a s' => exact ⟨a, s', rfl, h.good_of_ok hm⟩
  | error fault s' => exact absurd (h.bad_of_error hm) (hbad fault)

theorem mono {good' : α → σ → Prop} {bad' : ε → Prop} (h : Ends m s good bad)
    (hgood : ∀ a s', good a s' → good' a s')
    (hbad : ∀ fault, bad fault → bad' fault := by exact fun _ h => h) : Ends m s good' bad' := by
  cases hm : m s with
  | ok a s' => exact of_ok hm (hgood a s' (h.good_of_ok hm))
  | error fault s' => exact of_error hm (hbad fault (h.bad_of_error hm))

theorem bind (hm : Ends m s good bad) (hf : ∀ a s', good a s' → Ends (f a) s' good' bad) :
    Ends (m >>= f) s good' bad := by
  cases hrun : m s with
  | ok a s' =>
    have hrest := hf a s' (hm.good_of_ok hrun)
    rw [Ends] at hrest ⊢
    simpa only [Bind.bind, EStateM.bind, hrun] using hrest
  | error fault s' =>
    have herror : (m >>= f) s = .error fault s' := by simp only [Bind.bind, EStateM.bind, hrun]
    exact of_error herror (hm.bad_of_error hrun)

theorem after (hm : m s = .ok a s') (hf : Ends (f a) s' good' bad) :
    Ends (m >>= f) s good' bad := by
  have honly : Ends m s (fun b s1 => b = a ∧ s1 = s') bad := of_ok hm ⟨rfl, rfl⟩
  refine honly.bind ?_
  rintro b s1 ⟨rfl, rfl⟩
  exact hf

theorem pure (h : good a s) : Ends (pure a) s good bad := h

theorem throw (h : bad fault) : Ends (throw fault) s good bad := h

theorem check {c : Prop} [Decidable c] {k : PUnit → EStateM ε σ β} (hthrow : c → bad fault)
    (hk : ¬ c → Ends (k ⟨⟩) s good' bad) :
    Ends (if c then MonadExcept.throw fault >>= k else k ⟨⟩) s good' bad := by
  by_cases hc : c
  · rw [if_pos hc]
    exact of_error rfl (hthrow hc)
  · rw [if_neg hc]
    exact hk hc

theorem discard_bind {f : PUnit → EStateM ε σ β} (hm : Ends m s good bad)
    (hf : ∀ a s', good a s' → Ends (f ⟨⟩) s' good' bad) : Ends (discard m >>= f) s good' bad := by
  have hrun : (discard m >>= f) s = (m >>= fun _ => f ⟨⟩) s := by
    show EStateM.bind (EStateM.map (Function.const α ⟨⟩) m) f s = EStateM.bind m (fun _ => f ⟨⟩) s
    simp only [EStateM.bind, EStateM.map]
    cases m s with
    | ok a s' => rfl
    | error fault s' => rfl
  rw [Ends, hrun]
  exact hm.bind hf

end Ends

section Session

variable {s : Session} {good : α → Session → Prop} {bad : Fault → Prop}

theorem Ends.onTree {m : TreeM α} (h : Ends m s.tree (fun a t => good a { s with tree := t }) bad) :
    Ends (onTree m) s good bad := by
  rw [Ends] at h
  rw [Ends, StagedAsm.onTree]
  cases hm : m s.tree with
  | ok a t =>
    rw [hm] at h
    exact h
  | error fault t =>
    rw [hm] at h
    exact h

theorem Ends.onTree_bind {m : TreeM α} {f : α → CompileM β} {after : α → ScopeTree → Prop}
    {good : β → Session → Prop} (hm : Ends m s.tree after bad)
    (hf : ∀ a t, after a t → Ends (f a) { s with tree := t } good bad) :
    Ends (StagedAsm.onTree m >>= f) s good bad := by
  have hchanged : Ends (StagedAsm.onTree m) s
      (fun a s' => ∃ t, s' = { s with tree := t } ∧ after a t) bad :=
    .onTree (hm.mono fun _ t ht => ⟨t, rfl, ht⟩)
  refine hchanged.bind ?_
  rintro a s' ⟨t, rfl, ht⟩
  exact hf a t ht

theorem Ends.attempt {m : CompileM α} (h : Ends m s good bad) :
    Ends (attempt m) s (fun x s' => (∀ a, x = .ok a → good a s') ∧
      ∀ e, x = .error e → bad (.error e)) bad := by
  cases hm : m s with
  | ok a s' =>
    have hrun : StagedAsm.attempt m s = .ok (.ok a) s' := by rw [StagedAsm.attempt, hm]
    refine .of_ok hrun ⟨fun b hb => ?_, fun e he => ?_⟩
    · cases hb
      exact h.good_of_ok hm
    · cases he
  | error fault s' =>
    have hbad := h.bad_of_error hm
    cases fault with
    | error e =>
      have hrun : StagedAsm.attempt m s = .ok (.error e) s' := by rw [StagedAsm.attempt, hm]
      refine .of_ok hrun ⟨fun b hb => ?_, fun e' he => ?_⟩
      · cases hb
      · cases he
        exact hbad
    | _ => exact .of_error (by rw [StagedAsm.attempt, hm]) hbad

end Session

end StagedAsm
