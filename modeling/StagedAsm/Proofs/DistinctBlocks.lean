import StagedAsm.Proofs.GroundedSessions

/-!
# Blocks that share a scope

Each time a block is entered, the next one of the scope around it is taken. When a scope is left its
blocks are rewound, within the same pass: if a program opens a namespace again, the blocks in it are
those it entered the first time. The moves alone tell which blocks are the same scope.
-/

namespace StagedAsm

namespace ScopeTree

variable {t t' : ScopeTree} {p : ScopeId} {v w : Visit} {first middle last : List Visit}

def walked (t : ScopeTree) (p : ScopeId) (visits : List Visit) : Nat :=
  visits.foldl (turn p) (t.scope p).cursor

variable {cursor : Nat}

theorem turn_of_enterBlock (hmove : v.move = .enterBlock) :
    turn v.before cursor v = cursor + 1 := by
  simp [turn, hmove]

theorem le_turn (h : v.before = p → v.move.rewinds = false) : cursor ≤ turn p cursor v := by
  unfold turn
  split
  · rename_i hp
    rw [h hp]
    split <;> simp
  · exact .refl

theorem le_foldl_turn (h : ∀ v ∈ middle, v.before = p → v.move.rewinds = false) :
    cursor ≤ middle.foldl (turn p) cursor := by
  induction middle generalizing cursor with
  | nil => exact .refl
  | cons v rest ih =>
    rw [List.foldl_cons]
    exact Nat.le_trans (le_turn (h v List.mem_cons_self))
      (ih fun u hu => h u (List.mem_cons_of_mem v hu))

theorem walked_lt (hmove : v.move = .enterBlock)
    (h : ∀ u ∈ middle, u.before = v.before → u.move.rewinds = false) :
    t.walked v.before first < t.walked v.before (first ++ v :: middle) := by
  rw [walked, walked, List.foldl_append, List.foldl_cons, turn_of_enterBlock hmove]
  exact le_foldl_turn h

theorem WellFormed.block_unique (h : t.WellFormed) {q block : ScopeId} {n k : Nat}
    (hp : (t.scope p).blocks[n]? = some block) (hq : (t.scope q).blocks[k]? = some block) :
    p = q ∧ n = k := by
  have horigin := (h.block_origin hp).symm.trans (h.block_origin hq)
  cases horigin
  exact ⟨rfl, rfl⟩

theorem Strides.after_eq_iff (h : t.Strides (first ++ v :: (middle ++ w :: last)) t')
    (ht : t.Grounded) (hv : v.move = .enterBlock) (hw : w.move = .enterBlock) :
    v.after = w.after ↔ v.before = w.before ∧
      t.walked v.before first = t.walked v.before (first ++ v :: middle) := by
  have hfirst := h.enteredBlock ht hv
  have hsecond : (t'.scope w.before).blocks[t.walked w.before (first ++ v :: middle)]? =
      some w.after := by
    have hsplit : t.Strides ((first ++ v :: middle) ++ w :: last) t' := by simpa using h
    exact hsplit.enteredBlock ht hw
  constructor
  · intro hsame
    rw [← hsame] at hsecond
    obtain ⟨hbefore, hwalked⟩ := (h.grounded ht).wellFormed.block_unique hfirst hsecond
    refine ⟨hbefore, ?_⟩
    rw [← hbefore] at hwalked
    exact hwalked
  · rintro ⟨hbefore, hwalked⟩
    rw [← hbefore, ← hwalked, walked, hfirst] at hsecond
    exact Option.some.inj hsecond

theorem Strides.rewound_of_after_eq (h : t.Strides (first ++ v :: (middle ++ w :: last)) t')
    (ht : t.Grounded) (hv : v.move = .enterBlock) (hw : w.move = .enterBlock)
    (hsame : v.after = w.after) : ∃ u ∈ middle, u.before = v.before ∧ u.move.rewinds = true := by
  by_cases hrewound : ∃ u ∈ middle, u.before = v.before ∧ u.move.rewinds = true
  · exact hrewound
  · have hkept : ∀ u ∈ middle, u.before = v.before → u.move.rewinds = false := by
      intro u hu hbefore
      cases hrewinds : u.move.rewinds with
      | false => rfl
      | true => exact absurd ⟨u, hu, hbefore, hrewinds⟩ hrewound
    have hlt : t.walked v.before first < t.walked v.before (first ++ v :: middle) :=
      walked_lt hv hkept
    rw [← ((h.after_eq_iff ht hv hw).mp hsame).2] at hlt
    exact absurd hlt (Nat.lt_irrefl _)

end ScopeTree

/-- Two blocks that a program enters are the same scope exactly if they are entered from the same
    scope, and as many of its blocks had been entered since it was last left. So they are different,
    unless the scope around them is left in between. -/
theorem blocks_shared_iff {s : Session} (hs : s.Grounded) (e : EngineId) (depth : Nat)
    (program : Program) (upTo : Pass) :
    ∃ visits, (leaves ((e.runner depth).compile program upTo) s).tree.trail.toList =
        s.tree.trail.toList ++ visits ∧
      ∀ first v middle w last, visits = first ++ v :: (middle ++ w :: last) →
        v.move = .enterBlock → w.move = .enterBlock →
        (v.after = w.after ↔ v.before = w.before ∧
          s.tree.walked v.before first = s.tree.walked v.before (first ++ v :: middle)) ∧
        (v.after = w.after → ∃ u ∈ middle, u.before = v.before ∧ u.move.rewinds = true) := by
  obtain ⟨-, visits, hstrides⟩ :=
    (e.runner depth).moves_compile (R := Travels) (moves_advanceWithin depth) program upTo s hs
  refine ⟨visits, hstrides.trail, fun first v middle w last hvisits hv hw => ?_⟩
  subst hvisits
  exact ⟨hstrides.after_eq_iff hs.tree hv hw, hstrides.rewound_of_after_eq hs.tree hv hw⟩

/-- A namespace that is opened twice, with a block each time. -/
def reopenedNamespace : Program :=
  [.enterGlobal (.ofName "N"), .enterBlock, .exitBlock, .exitGlobal,
    .enterGlobal (.ofName "N"), .enterBlock, .exitBlock, .exitGlobal]

def reopenedSession : Session :=
  leaves ((EngineId.runner ⟨0⟩ 0).compile reopenedNamespace .generate)
    (leaves (startEngine defaultSections) {})

theorem blocks_shared_iff_reopened : (leaves (startEngine defaultSections) {}).Grounded ∧
    (EngineId.runner ⟨0⟩ 0).compile reopenedNamespace .generate
      (leaves (startEngine defaultSections) {}) = .ok () reopenedSession ∧
    ∃ first v middle w last, reopenedSession.tree.trail.toList =
        first ++ v :: (middle ++ w :: last) ∧
      v.move = .enterBlock ∧ w.move = .enterBlock ∧ v.pass = .declare ∧ w.pass = .declare ∧
      v.after = w.after ∧ ∃ u ∈ middle, u.before = v.before ∧ u.move.rewinds = true := by
  have hstart : (leaves (startEngine defaultSections) {}).Grounded :=
    (Session.Grounded.new {}).start (rfl : startEngine defaultSections {} = _)
  obtain ⟨visits, htrail, hshared⟩ := blocks_shared_iff hstart ⟨0⟩ 0 reopenedNamespace .generate
  have hvisits : visits = visits.take 1 ++ ⟨⟨0⟩, .declare, .enterBlock, ⟨1⟩, ⟨2⟩⟩ ::
      ((visits.drop 2).take 3 ++ ⟨⟨0⟩, .declare, .enterBlock, ⟨1⟩, ⟨2⟩⟩ :: visits.drop 6) := by
    replace htrail : reopenedSession.tree.trail.toList = visits := htrail
    rw [← htrail]
    decide +kernel
  obtain ⟨-, hleft⟩ := hshared _ _ _ _ _ hvisits rfl rfl
  exact ⟨hstart, eq_ok_of_succeeds (by decide +kernel), _, _, _, _, _, htrail.trans hvisits, rfl,
    rfl, rfl, rfl, rfl, hleft rfl⟩

end StagedAsm
