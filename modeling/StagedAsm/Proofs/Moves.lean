import Mathlib.Order.Defs.Unbundled
import StagedAsm.Session.State

/-!
# Where computations lead

`Moves R m` says that `m` leads from every session to one that `R` relates it to, whether it
succeeds or not. For a reflexive and transitive `R` this is settled part by part, so one lemma for
each function covers every property that can be said as such a relation.
-/

namespace StagedAsm

variable {ε σ α β : Type}

/-- The state a computation leaves behind, with or without a result. -/
def leaves (m : EStateM ε σ α) (s : σ) : σ :=
  match m s with
  | .ok _ s' => s'
  | .error _ s' => s'

variable {m : EStateM ε σ α} {s s' : σ} {a : α} {fault : ε} {f : α → EStateM ε σ β} {b : β}
  {u : PUnit}

theorem leaves_of_ok (h : m s = .ok a s') : leaves m s = s' := by
  rw [leaves, h]

theorem leaves_of_error (h : m s = .error fault s') : leaves m s = s' := by
  rw [leaves, h]

theorem related_of_cases {R : σ → σ → Prop} [Std.Refl R] {p : Prop}
    (h : (∃ fault, m s = .error fault s) ∨ p) (hp : p → R s (leaves m s)) : R s (leaves m s) := by
  rcases h with ⟨fault, herror⟩ | hcase
  · rw [leaves_of_error herror]
    exact refl_of R s
  · exact hp hcase

/-- Whether a computation has a result. -/
def succeeds (m : EStateM ε σ α) (s : σ) : Bool :=
  match m s with
  | .ok _ _ => true
  | .error _ _ => false

theorem eq_ok_of_succeeds {m : EStateM ε σ Unit} (h : succeeds m s = true) :
    m s = .ok () (leaves m s) := by
  unfold succeeds at h
  unfold leaves
  split at h
  · rename_i hm
    rw [hm]
  · exact nomatch h

theorem exists_ok_of_succeeds (h : succeeds m s = true) : ∃ a s', m s = .ok a s' := by
  unfold succeeds at h
  split at h
  · rename_i a s' hm
    exact ⟨a, s', hm⟩
  · cases h

theorem bind_eq_ok : (m >>= f) s = .ok b s' ↔ ∃ a s1, m s = .ok a s1 ∧ f a s1 = .ok b s' := by
  simp only [bind, EStateM.bind]
  constructor
  · intro h
    cases hm : m s with
    | ok a s1 => exact ⟨a, s1, rfl, by simpa only [hm] using h⟩
    | error fault s1 => simp only [hm] at h; exact nomatch h
  · rintro ⟨a, s1, hm, hf⟩
    rw [hm]
    exact hf

theorem bind_of_ok (h : m s = .ok a s') : (m >>= f) s = f a s' := by
  simp only [bind, EStateM.bind, h]

theorem leaves_bind_of_ok (h : m s = .ok a s') : leaves (m >>= f) s = leaves (f a) s' := by
  simp only [leaves, bind, EStateM.bind, h]

theorem leaves_bind_of_error (h : m s = .error fault s') : leaves (m >>= f) s = s' := by
  simp only [leaves, bind, EStateM.bind, h]

/-! ## Success -/

theorem get_bind (f : σ → EStateM ε σ β) (s : σ) : (get >>= f) s = f s s := rfl

theorem get_bind_eq_ok {f : σ → EStateM ε σ β} :
    (get >>= f) s = .ok b s' ↔ f s s = .ok b s' := Iff.rfl

@[simp] theorem pure_eq_ok {b : α} : (pure a : EStateM ε σ α) s = .ok b s' ↔ a = b ∧ s' = s := by
  constructor
  · intro h
    cases h
    exact ⟨rfl, rfl⟩
  · rintro ⟨rfl, rfl⟩
    rfl

@[simp] theorem throw_eq_ok {b : α} : (throw fault : EStateM ε σ α) s = .ok b s' ↔ False := by
  constructor
  · intro h
    cases h
  · exact False.elim

@[simp] theorem set_eq_ok {t : σ} : (set t : EStateM ε σ PUnit) s = .ok u s' ↔ s' = t := by
  constructor
  · intro h
    cases h
    rfl
  · rintro rfl
    rfl

@[simp] theorem modify_eq_ok {f : σ → σ} :
    (modify f : EStateM ε σ PUnit) s = .ok u s' ↔ s' = f s := by
  constructor
  · intro h
    cases h
    rfl
  · rintro rfl
    rfl

theorem check_eq_ok {c : Prop} [Decidable c] {k : PUnit → EStateM ε σ α} :
    (if c then throw fault >>= k else k ⟨⟩) s = .ok a s' ↔ ¬c ∧ k ⟨⟩ s = .ok a s' := by
  by_cases hc : c
  · simp only [hc, if_true, not_true, false_and, iff_false]
    intro h
    cases h
  · simp [hc]

/-! ## Moves -/

/-- `m` leads from every state to one that `R` relates it to. -/
def Moves (R : σ → σ → Prop) (m : EStateM ε σ α) : Prop := ∀ s, R s (leaves m s)

namespace Moves

variable {R : σ → σ → Prop}

variable {m : EStateM ε σ α} {s s' : σ} {f : α → EStateM ε σ β}

theorem of_ok (h : Moves R m) {a : α} (hs : m s = .ok a s') : R s s' := leaves_of_ok hs ▸ h s

theorem of_error (h : Moves R m) {fault : ε} (hs : m s = .error fault s') :
    R s s' := leaves_of_error hs ▸ h s

theorem next [IsTrans σ R] {s0 : σ} {b : β} (hm : Moves R m) (hbefore : R s0 s)
    (h : (m >>= f) s = .ok b s') : ∃ a s1, R s0 s1 ∧ f a s1 = .ok b s' := by
  obtain ⟨a, s1, hok, hf⟩ := bind_eq_ok.mp h
  exact ⟨a, s1, trans_of R hbefore (hm.of_ok hok), hf⟩

theorem mono {R' : σ → σ → Prop} (h : Moves R m) (hR : ∀ s s', R s s' → R' s s') :
    Moves R' m := fun s => hR s _ (h s)

theorem leaves_bind [IsTrans σ R] (hm : R s (leaves m s))
    (hf : ∀ a s', m s = .ok a s' → R s' (leaves (f a) s')) : R s (leaves (m >>= f) s) := by
  simp only [leaves, bind, EStateM.bind] at hm hf ⊢
  -- If the first part fails, the second does not run and the state is what the first part left.
  cases hrun : m s with
  | ok a s' =>
    rw [hrun] at hm
    exact trans_of R hm (hf a s' hrun)
  | error fault s' =>
    rw [hrun] at hm
    exact hm

theorem bind [IsTrans σ R] (hm : Moves R m) (hf : ∀ a, Moves R (f a)) : Moves R (m >>= f) :=
  fun s => leaves_bind (hm s) fun a s' _ => hf a s'

theorem seq [IsTrans σ R] (hm : Moves R m) (hf : ∀ {a}, Moves R (f a)) : Moves R (m >>= f) :=
  .bind hm fun _ => hf

theorem pure [Std.Refl R] (a : α) : Moves R (pure a : EStateM ε σ α) := fun s => refl_of R s

theorem returns [IsTrans σ R] [Std.Refl R] (hm : Moves R m) {g : α → β} :
    Moves R (m >>= fun a => Pure.pure (g a)) := .bind hm fun _ => .pure _

theorem throw [Std.Refl R] (fault : ε) : Moves R (throw fault : EStateM ε σ α) :=
  fun s => refl_of R s

theorem look [Std.Refl R] : Moves R (get : EStateM ε σ σ) := fun s => refl_of R s

theorem look_bind {f : σ → EStateM ε σ α} (h : ∀ s, R s (leaves (f s) s)) : Moves R (get >>= f) := h

theorem modify {f : σ → σ} (h : ∀ s, R s (f s)) : Moves R (modify f : EStateM ε σ PUnit) := h

theorem modifyGet {f : σ → α × σ} (h : ∀ s, R s (f s).2) :
    Moves R (modifyGet f : EStateM ε σ α) := h

theorem ite {c : Prop} [Decidable c] {m' : EStateM ε σ α} (h : Moves R m) (h' : Moves R m') :
    Moves R (if c then m else m') := by
  split
  · exact h
  · exact h'

theorem map [IsTrans σ R] [Std.Refl R] (h : Moves R m) (f : α → β) : Moves R (f <$> m) := by
  intro s
  have hs := h s
  simp only [leaves, Functor.map, EStateM.map] at hs ⊢
  cases hrun : m s <;> simpa only [hrun] using hs

end Moves

section Session

variable {R : Session → Session → Prop}

theorem Moves.fail [Std.Refl R] (e : CompileError) : Moves R (fail e : CompileM α) :=
  fun s => refl_of R s

theorem Moves.ofExcept [Std.Refl R] (x : Except CompileError α) : Moves R (ofExcept x) := by
  cases x with
  | ok a => exact .pure a
  | error e => exact .fail e

theorem Moves.ofFault [Std.Refl R] (x : Except Fault α) : Moves R (ofFault x) := by
  cases x with
  | ok a => exact .pure a
  | error fault => exact .throw fault

variable {c : Prop} {k : PUnit → CompileM α} {m : CompileM α} {s s' : Session} {a : α}

theorem Moves.check [Std.Refl R] [Decidable c] {e : CompileError} (hk : Moves R (k ⟨⟩)) :
    Moves R (if c then StagedAsm.fail e >>= k else k ⟨⟩) :=
  .ite (fun s => refl_of R s) hk

theorem Moves.when [IsTrans Session R] [Decidable c] {m : CompileM PUnit} (hm : Moves R m)
    (hk : Moves R (k ⟨⟩)) : Moves R (if c then m >>= k else k ⟨⟩) :=
  .ite (.bind hm fun _ => hk) hk

theorem leaves_attempt (m : CompileM α) (s : Session) : leaves (attempt m) s = leaves m s := by
  simp only [leaves, attempt]
  cases m s with
  | ok a s' => rfl
  | error fault s' => cases fault <;> rfl

theorem attempt_eq_ok {outcome : Except CompileError α} (h : attempt m s = .ok outcome s') :
    (∃ a, outcome = .ok a ∧ m s = .ok a s') ∨
      ∃ e, outcome = .error e ∧ m s = .error (.error e) s' := by
  unfold attempt at h
  split at h
  · rename_i a s1 hrun
    cases h
    exact .inl ⟨a, rfl, hrun⟩
  · rename_i e s1 hrun
    cases h
    exact .inr ⟨e, rfl, hrun⟩
  · exact nomatch h

theorem Moves.attempt (h : Moves R m) : Moves R (attempt m) := fun s =>
  leaves_attempt m s ▸ h s

theorem onTree_eq_ok {m : TreeM α} :
    onTree m s = .ok a s' ↔ ∃ t, m s.tree = .ok a t ∧ s' = { s with tree := t } := by
  unfold onTree
  cases m s.tree with
  | ok b t =>
    simp only [EStateM.Result.ok.injEq]
    constructor
    · rintro ⟨rfl, rfl⟩
      exact ⟨t, ⟨rfl, rfl⟩, rfl⟩
    · rintro ⟨t', ⟨rfl, rfl⟩, rfl⟩
      exact ⟨rfl, rfl⟩
  | error fault t => simp

theorem ofFault_eq_ok {x : Except Fault α} : ofFault x s = .ok a s' ↔ x = .ok a ∧ s' = s := by
  unfold ofFault
  cases x with
  | ok b => rw [pure_eq_ok, Except.ok.injEq, eq_comm]
  | error fault => simp

theorem ofExcept_eq_ok {x : Except CompileError α} :
    ofExcept x s = .ok a s' ↔ x = .ok a ∧ s' = s := by
  unfold ofExcept
  cases x with
  | ok b => rw [pure_eq_ok, Except.ok.injEq, eq_comm]
  | error e => simp [fail]

theorem leaves_onTree (m : TreeM α) (s : Session) :
    leaves (onTree m) s = { s with tree := leaves m s.tree } := by
  simp only [leaves, onTree]
  cases m s.tree <;> rfl

end Session

end StagedAsm
