import StagedAsm.Proofs.ScopeOperations

/-!
# Trails through the scope tree

Entering a block takes the next one of the scope it is entered from, and leaving a scope or ending a
pass in it rewinds its blocks. Between two visits no blocks are walked. So the visits alone tell how
far the blocks of each scope were walked.
-/

namespace StagedAsm

open List

/-- The move rewinds the blocks of the scope it starts from. -/
def ScopeMove.rewinds (move : ScopeMove) : Bool := move.isExit || move == .endPass

namespace ScopeTree

variable {t t' t'' : ScopeTree} {id p : ScopeId} {v : Visit}

theorem scope_size (t : ScopeTree) : t.scope ⟨t.size⟩ = default :=
  scope_of_size_le .refl

/-! ## Grounded trees -/

/-- Scopes hang where they should, and no walk went past the last block. -/
structure Grounded (t : ScopeTree) : Prop where
  size_pos : 0 < t.size
  root_global : t.isLocal root = false
  ordered : t.Ordered
  wellFormed : t.WellFormed
  cursor_le : ∀ id, (t.scope id).cursor ≤ (t.scope id).blocks.length

theorem grounded_new : Grounded {} where
  size_pos := by decide
  root_global := by decide
  ordered := ordered_new
  wellFormed := wellFormed_new
  cursor_le id := by
    rw [scope_new]
    exact Nat.le_refl 0

theorem isLocal_eq (h : (t'.scope id).place = (t.scope id).place) :
    t'.isLocal id = t.isLocal id := by
  simp only [Scope.place, Prod.mk.injEq] at h
  rw [isLocal, Scope.isLocal, h.2.1, isLocal, Scope.isLocal]

/-! ## Between two visits -/

/-- Scopes stay where they are, and no blocks are walked. -/
structure Steady (t t' : ScopeTree) : Prop where
  size_le : t.size ≤ t'.size
  place : ∀ {id : ScopeId}, id.index < t.size → (t'.scope id).place = (t.scope id).place
  walk : ∀ id, (t'.scope id).walk = (t.scope id).walk
  trail : t'.trail = t.trail
  ordered : t.Ordered → t'.Ordered
  wellFormed : t.WellFormed → t'.WellFormed

namespace Steady

theorem refl (t : ScopeTree) : t.Steady t :=
  ⟨.refl, fun _ => rfl, fun _ => rfl, rfl, id, id⟩

theorem trans (h : t.Steady t') (h' : t'.Steady t'') : t.Steady t'' where
  size_le := Nat.le_trans h.size_le h'.size_le
  place hid := (h'.place (Nat.lt_of_lt_of_le hid h.size_le)).trans (h.place hid)
  walk id := (h'.walk id).trans (h.walk id)
  trail := h'.trail.trans h.trail
  ordered ht := h'.ordered (h.ordered ht)
  wellFormed ht := h'.wellFormed (h.wellFormed ht)

theorem blocks (h : t.Steady t') (id : ScopeId) : (t'.scope id).blocks = (t.scope id).blocks :=
  congrArg (·.1) (h.walk id)

theorem cursor (h : t.Steady t') (id : ScopeId) : (t'.scope id).cursor = (t.scope id).cursor :=
  congrArg (·.2.1) (h.walk id)

theorem canGrow (h : t.Steady t') (id : ScopeId) : (t'.scope id).canGrow = (t.scope id).canGrow :=
  congrArg (·.2.2) (h.walk id)

end Steady

theorem Within.walk_eq (h : t.Within id t') (other : ScopeId) :
    (t'.scope other).walk = (t.scope other).walk := by
  by_cases hlt : other.index < t.size
  · exact h.walk hlt
  · have hle := Nat.le_of_not_lt hlt
    rw [h.unwalked hle, scope_of_size_le hle]
    rfl

theorem Within.steady (h : t.Within id t') (hordered : t.Ordered) (hid : id.index < t.size) :
    t.Steady t' where
  size_le := h.size_le
  place hlt := h.toKeeps.place _ hlt
  walk := h.walk_eq
  trail := h.trail
  ordered _ := (h.below hordered hid).1
  wellFormed := h.toKeeps.wellFormed

theorem steady_modifyScope {f : Scope → Scope}
    (hshape : (f (t.scope id)).shape = (t.scope id).shape)
    (hwalk : (f (t.scope id)).walk = (t.scope id).walk) : t.Steady (t.modifyScope id f) := by
  have hscope : ∀ other, ((t.modifyScope id f).scope other).place = (t.scope other).place ∧
      ((t.modifyScope id f).scope other).walk = (t.scope other).walk := by
    intro other
    rw [scope_modifyScope]
    split
    · rename_i hother
      rw [hother.1, Scope.place_eq hshape, hwalk]
      exact ⟨rfl, rfl⟩
    · exact ⟨rfl, rfl⟩
  exact
    { size_le := Nat.le_of_eq (t.size_modifyScope id f).symm
      place := fun _ => (hscope _).1
      walk := fun other => (hscope other).2
      trail := rfl
      ordered := fun h => h.modifyScope (congrArg Prod.fst hshape)
      wellFormed := fun h => h.modifyScope hshape }

theorem steady_push {scope : Scope} (horigin : scope.origin = .detached)
    (hwalk : scope.walk = ([], 0, true)) : t.Steady (t.push scope).2 where
  size_le := by
    rw [size_push]
    exact Nat.le_succ _
  place hlt := by rw [scope_push_of_lt hlt]
  walk other := by
    rw [scope_push]
    split
    · rename_i hother
      rw [hwalk, hother, scope_size]
      rfl
    · rfl
  trail := rfl
  ordered h := h.push fun parent hparent => by
    rw [horigin] at hparent
    cases hparent
  wellFormed h := h.push (congrArg Prod.fst hwalk) fun parent name hname => by
    rw [horigin] at hname
    cases hname

theorem Grounded.steady (h : t.Grounded) (hsteady : t.Steady t') : t'.Grounded where
  size_pos := Nat.lt_of_lt_of_le h.size_pos hsteady.size_le
  root_global := (isLocal_eq (hsteady.place h.size_pos)).trans h.root_global
  ordered := hsteady.ordered h.ordered
  wellFormed := hsteady.wellFormed h.wellFormed
  cursor_le other := by
    rw [hsteady.blocks, hsteady.cursor]
    exact h.cursor_le other

theorem Grounded.visited (h : t.Grounded) (v : Visit) : (t.visited v).Grounded where
  size_pos := h.size_pos
  root_global := h.root_global
  ordered := h.ordered.of_origin fun _ => rfl
  wellFormed := h.wellFormed.visited v
  cursor_le := h.cursor_le

/-! ## Walking blocks -/

variable {block : ScopeId}

theorem nextBlock_walk_of_ne (h : nextBlock id t = .ok block t') (hp : p ≠ id) :
    (t'.scope p).walk = (t.scope p).walk := by
  rcases nextBlock_eq_ok.mp h with ⟨-, rfl⟩ | ⟨-, -, -, rfl⟩
  · rw [scope_modifyScope_of_ne hp]
  · rw [withBlock, scope_modifyScope_of_ne hp, scope_push]
    split
    · rename_i hnew
      rw [hnew, scope_size]
      rfl
    · rfl

theorem nextBlock_walk (hid : id.index < t.size)
    (hle : (t.scope id).cursor ≤ (t.scope id).blocks.length) (h : nextBlock id t = .ok block t') :
    ∃ blocks, (t'.scope id).walk = (blocks, (t.scope id).cursor + 1, (t.scope id).canGrow) ∧
      (t.scope id).blocks <+: blocks ∧ blocks[(t.scope id).cursor]? = some block ∧
      ((t.scope id).canGrow = false → blocks = (t.scope id).blocks) := by
  rcases nextBlock_eq_ok.mp h with ⟨hblock, rfl⟩ | ⟨hend, hgrow, rfl, rfl⟩
  · refine ⟨(t.scope id).blocks, ?_, prefix_refl _, hblock, fun _ => rfl⟩
    rw [scope_modifyScope, if_pos ⟨rfl, hid⟩]
    rfl
  · have hlength : (t.scope id).cursor = (t.scope id).blocks.length :=
      Nat.le_antisymm hle (List.getElem?_eq_none_iff.mp hend)
    refine ⟨(t.scope id).blocks ++ [⟨t.size⟩], ?_, prefix_append _ _, ?_, fun hfixed => ?_⟩
    · rw [scope_withBlock hid, if_pos rfl]
      rfl
    · rw [hlength]
      simp
    · rw [hfixed] at hgrow
      cases hgrow

theorem rewindBlocks_walk_of_ne (h : rewindBlocks id t = .ok () t') (hp : p ≠ id) :
    (t'.scope p).walk = (t.scope p).walk := by
  obtain ⟨-, rfl⟩ := rewindBlocks_eq_ok.mp h
  rw [scope_modifyScope, if_neg fun h => hp h.1]

theorem rewindBlocks_walk (hid : id.index < t.size) (h : rewindBlocks id t = .ok () t') :
    (t.scope id).cursor = (t.scope id).blocks.length ∧
      (t'.scope id).walk = ((t.scope id).blocks, 0, false) := by
  obtain ⟨hall, rfl⟩ := rewindBlocks_eq_ok.mp h
  refine ⟨hall, ?_⟩
  rw [scope_modifyScope, if_pos ⟨rfl, hid⟩]
  rfl

theorem Grounded.nextBlock (h : t.Grounded) (hid : id.index < t.size)
    (hnext : ScopeTree.nextBlock id t = .ok block t') : t'.Grounded where
  size_pos := Nat.lt_of_lt_of_le h.size_pos ((moves_nextBlock id).of_ok hnext).size
  root_global :=
    (isLocal_eq (((moves_nextBlock id).of_ok hnext).place _ h.size_pos)).trans h.root_global
  ordered := by
    rcases nextBlock_eq_ok.mp hnext with ⟨-, rfl⟩ | ⟨-, -, -, rfl⟩
    · exact h.ordered.modifyScope rfl
    · refine Ordered.modifyScope (h.ordered.push fun parent hparent => ?_) rfl
      cases hparent
      exact hid
  wellFormed := ((moves_nextBlock id).of_ok hnext).wellFormed h.wellFormed
  cursor_le other := by
    by_cases hother : other = id
    · subst hother
      obtain ⟨blocks, hwalk, -, hblock, -⟩ := nextBlock_walk hid (h.cursor_le other) hnext
      simp only [Scope.walk, Prod.mk.injEq] at hwalk
      rw [hwalk.1, hwalk.2.1]
      exact (List.getElem?_eq_some_iff.mp hblock).1
    · have hwalk := nextBlock_walk_of_ne hnext hother
      simp only [Scope.walk, Prod.mk.injEq] at hwalk
      rw [hwalk.1, hwalk.2.1]
      exact h.cursor_le other

theorem Grounded.rewindBlocks (h : t.Grounded) (hid : id.index < t.size)
    (hrewind : ScopeTree.rewindBlocks id t = .ok () t') : t'.Grounded where
  size_pos := Nat.lt_of_lt_of_le h.size_pos ((moves_rewindBlocks id).of_ok hrewind).size
  root_global :=
    (isLocal_eq (((moves_rewindBlocks id).of_ok hrewind).place _ h.size_pos)).trans h.root_global
  ordered := by
    obtain ⟨-, rfl⟩ := rewindBlocks_eq_ok.mp hrewind
    exact h.ordered.modifyScope rfl
  wellFormed := ((moves_rewindBlocks id).of_ok hrewind).wellFormed h.wellFormed
  cursor_le other := by
    by_cases hother : other = id
    · subst hother
      have hwalk := (rewindBlocks_walk hid hrewind).2
      simp only [Scope.walk, Prod.mk.injEq] at hwalk
      rw [hwalk.2.1]
      exact Nat.zero_le _
    · have hwalk := rewindBlocks_walk_of_ne hrewind hother
      simp only [Scope.walk, Prod.mk.injEq] at hwalk
      rw [hwalk.1, hwalk.2.1]
      exact h.cursor_le other

/-! ## Visits -/

/-- What a move does to the tree. -/
inductive Stride : ScopeTree → Visit → ScopeTree → Prop where
  | enter {t : ScopeTree} {v : Visit} (hlt : v.before.index < t.size)
      (h : t.Leads v.before v.move v.after) : Stride t v (t.visited v)
  | enterBlock {t t' : ScopeTree} {v : Visit} (hlt : v.before.index < t.size)
      (hmove : v.move = .enterBlock) (h : nextBlock v.before t = .ok v.after t') :
      Stride t v (t'.visited v)
  | rewind {t t' : ScopeTree} {v : Visit} (hlt : v.before.index < t.size)
      (hmove : v.move.rewinds = true) (h : rewindBlocks v.before t = .ok () t') :
      Stride t v (t'.visited v)

/-- What moves do to the tree, one after the other. -/
inductive Strides : ScopeTree → List Visit → ScopeTree → Prop where
  | nil (t : ScopeTree) : Strides t [] t
  | steady {t t' t'' : ScopeTree} {visits : List Visit} (h : t.Steady t')
      (hrest : Strides t' visits t'') : Strides t visits t''
  | stride {t t' t'' : ScopeTree} {v : Visit} {visits : List Visit} (h : t.Stride v t')
      (hrest : Strides t' visits t'') : Strides t (v :: visits) t''

/-- How far the blocks of a scope were walked, after a move. -/
def turn (p : ScopeId) (cursor : Nat) (v : Visit) : Nat :=
  if v.before = p then
    if v.move = .enterBlock then cursor + 1 else if v.move.rewinds then 0 else cursor
  else cursor

namespace Stride

variable (h : t.Stride v t')

include h

theorem trail : t'.trail = t.trail.push v := by
  cases h with
  | enter hlt h => rfl
  | enterBlock hlt hmove h =>
    rcases nextBlock_eq_ok.mp h with ⟨-, rfl⟩ | ⟨-, -, -, rfl⟩ <;> rfl
  | rewind hlt hmove h =>
    obtain ⟨-, rfl⟩ := rewindBlocks_eq_ok.mp h
    rfl

theorem keeps : t.Keeps t' := by
  cases h with
  | enter hlt h => exact t.keeps_visited v
  | enterBlock hlt hmove h => exact ((moves_nextBlock _).of_ok h).visited v
  | rewind hlt hmove h => exact ((moves_rewindBlocks _).of_ok h).visited v

theorem grounded (ht : t.Grounded) : t'.Grounded := by
  cases h with
  | enter hlt h => exact ht.visited v
  | enterBlock hlt hmove h => exact (ht.nextBlock hlt h).visited v
  | rewind hlt hmove h => exact (ht.rewindBlocks hlt h).visited v

theorem walk_of_ne (hp : p ≠ v.before) : (t'.scope p).walk = (t.scope p).walk := by
  cases h with
  | enter hlt h => rfl
  | enterBlock hlt hmove h =>
    rw [scope_visited]
    exact nextBlock_walk_of_ne h hp
  | rewind hlt hmove h =>
    rw [scope_visited]
    exact rewindBlocks_walk_of_ne h hp

theorem walk_of_named (hblock : v.move ≠ .enterBlock) (hrewind : v.move.rewinds = false) :
    t.Leads v.before v.move v.after ∧ t' = t.visited v := by
  cases h with
  | enter hlt h => exact ⟨h, rfl⟩
  | enterBlock hlt hmove h => exact absurd hmove hblock
  | rewind hlt hmove h =>
    rw [hrewind] at hmove
    cases hmove

theorem walk_of_enterBlock (ht : t.Grounded) (hmove : v.move = .enterBlock) :
    ∃ blocks, (t'.scope v.before).walk =
        (blocks, (t.scope v.before).cursor + 1, (t.scope v.before).canGrow) ∧
      (t.scope v.before).blocks <+: blocks ∧ blocks[(t.scope v.before).cursor]? = some v.after ∧
      ((t.scope v.before).canGrow = false → blocks = (t.scope v.before).blocks) := by
  cases h with
  | enter hlt h =>
    rw [hmove] at h
    exact h.elim
  | enterBlock hlt hmove h =>
    rw [scope_visited]
    exact nextBlock_walk hlt (ht.cursor_le _) h
  | rewind hlt hrewind h =>
    rw [hmove] at hrewind
    cases hrewind

theorem walk_of_rewind (hmove : v.move.rewinds = true) :
    (t.scope v.before).cursor = (t.scope v.before).blocks.length ∧
      (t'.scope v.before).walk = ((t.scope v.before).blocks, 0, false) := by
  cases h with
  | enter hlt h =>
    cases hv : v.move <;> rw [hv] at h hmove
    all_goals first
      | exact h.elim
      | cases hmove
  | enterBlock hlt hblock h =>
    rw [hblock] at hmove
    cases hmove
  | rewind hlt hrewind h =>
    rw [scope_visited]
    exact rewindBlocks_walk hlt h

theorem cursor (ht : t.Grounded) : (t'.scope p).cursor = turn p (t.scope p).cursor v := by
  unfold turn
  split
  · rename_i hp
    subst hp
    split
    · rename_i hmove
      obtain ⟨blocks, hwalk, -⟩ := h.walk_of_enterBlock ht hmove
      exact congrArg (·.2.1) hwalk
    · split
      · rename_i hmove
        exact congrArg (·.2.1) (h.walk_of_rewind hmove).2
      · rename_i hblock hrewind
        rw [(h.walk_of_named hblock (by simpa using hrewind)).2]
        rfl
  · rename_i hp
    exact congrArg (·.2.1) (h.walk_of_ne fun heq => hp heq.symm)

theorem blocks (ht : t.Grounded) : (t.scope p).blocks <+: (t'.scope p).blocks ∧
    ((t.scope p).canGrow = false →
      (t'.scope p).canGrow = false ∧ (t'.scope p).blocks = (t.scope p).blocks) := by
  by_cases hp : p = v.before
  · subst hp
    by_cases hblock : v.move = .enterBlock
    · obtain ⟨blocks, hwalk, hgrown, -, hfixed⟩ := h.walk_of_enterBlock ht hblock
      simp only [Scope.walk, Prod.mk.injEq] at hwalk
      rw [hwalk.1, hwalk.2.2]
      exact ⟨hgrown, fun hcan => ⟨hcan, hfixed hcan⟩⟩
    · by_cases hrewind : v.move.rewinds = true
      · have hwalk := (h.walk_of_rewind hrewind).2
        simp only [Scope.walk, Prod.mk.injEq] at hwalk
        rw [hwalk.1, hwalk.2.2]
        exact ⟨prefix_refl _, fun _ => ⟨rfl, rfl⟩⟩
      · rw [(h.walk_of_named hblock (by simpa using hrewind)).2]
        exact ⟨prefix_refl _, fun hcan => ⟨hcan, rfl⟩⟩
  · have hwalk := h.walk_of_ne hp
    simp only [Scope.walk, Prod.mk.injEq] at hwalk
    rw [hwalk.1, hwalk.2.2]
    exact ⟨prefix_refl _, fun hcan => ⟨hcan, rfl⟩⟩

end Stride

namespace Strides

variable {visits visits' : List Visit}

theorem append (h : t.Strides visits t') (h' : t'.Strides visits' t'') :
    t.Strides (visits ++ visits') t'' := by
  induction h with
  | nil t => exact h'
  | steady h hrest ih => exact .steady h (ih h')
  | stride h hrest ih => exact .stride h (ih h')

theorem trail (h : t.Strides visits t') : t'.trail.toList = t.trail.toList ++ visits := by
  induction h with
  | nil t => simp
  | steady h hrest ih => rw [ih, h.trail]
  | stride h hrest ih =>
    rw [ih, h.trail]
    simp

theorem grounded (h : t.Strides visits t') (ht : t.Grounded) : t'.Grounded := by
  induction h with
  | nil t => exact ht
  | steady h hrest ih => exact ih (ht.steady h)
  | stride h hrest ih => exact ih (h.grounded ht)

theorem blocks (h : t.Strides visits t') (ht : t.Grounded) (p : ScopeId) :
    (t.scope p).blocks <+: (t'.scope p).blocks ∧ ((t.scope p).canGrow = false →
      (t'.scope p).canGrow = false ∧ (t'.scope p).blocks = (t.scope p).blocks) := by
  induction h with
  | nil t => exact ⟨prefix_refl _, fun hcan => ⟨hcan, rfl⟩⟩
  | steady h hrest ih =>
    rw [← h.blocks, ← h.canGrow]
    exact ih (ht.steady h)
  | stride h hrest ih =>
    obtain ⟨hgrown, hfixed⟩ := h.blocks ht
    obtain ⟨hgrown', hfixed'⟩ := ih (h.grounded ht)
    refine ⟨hgrown.trans hgrown', fun hcan => ?_⟩
    obtain ⟨hcan', hsame⟩ := hfixed hcan
    obtain ⟨hcan'', hsame'⟩ := hfixed' hcan'
    exact ⟨hcan'', hsame'.trans hsame⟩

theorem enteredBlock (h : t.Strides (visits ++ v :: visits') t') (ht : t.Grounded)
    (hmove : v.move = .enterBlock) :
    (t'.scope v.before).blocks[visits.foldl (turn v.before) (t.scope v.before).cursor]? =
      some v.after := by
  generalize hall : visits ++ v :: visits' = all at h
  induction h generalizing visits with
  | nil t => simp at hall
  | steady h hrest ih =>
    rw [← h.cursor]
    exact ih (ht.steady h) hall
  | stride h hrest ih =>
    cases visits with
    | nil =>
      cases hall
      obtain ⟨blocks, hwalk, -, hblock, -⟩ := h.walk_of_enterBlock ht hmove
      obtain ⟨more, hmore⟩ := (hrest.blocks (h.grounded ht) v.before).1
      have hblocks : (_ : Scope).blocks = blocks := congrArg Prod.fst hwalk
      rw [hblocks] at hmore
      rw [← hmore, List.foldl_nil, List.getElem?_append_left
        (List.getElem?_eq_some_iff.mp hblock).1]
      exact hblock
    | cons first rest =>
      cases hall
      rw [foldl_cons, ← h.cursor ht]
      exact ih (h.grounded ht) rfl

end Strides

end ScopeTree

end StagedAsm
