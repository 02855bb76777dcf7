import StagedAsm.Proofs.ScopeOperations
import StagedAsm.Run.Compile

/-!
# Blocks from pass to pass

The first pass makes the blocks of a program, and every later pass enters them again in the same
order. A program that only opens blocks and writes text runs through the first two passes, whatever
the text is.
-/

namespace StagedAsm

open EngineId ScopeTree Session

/-! ## Blocks -/

/-- The blocks that a program opens, each with the blocks inside it. -/
inductive Blocks where
  | none
  | next (inner rest : Blocks)

namespace Blocks

def append : Blocks → Blocks → Blocks
  | none, y => y
  | next inner rest, y => next inner (rest.append y)

/-- The number of all blocks. -/
def size : Blocks → Nat
  | none => 0
  | next inner rest => 1 + inner.size + rest.size

/-- The number of blocks that are in no other. -/
def length : Blocks → Nat
  | none => 0
  | next _ rest => rest.length + 1

def ids : Nat → Blocks → List ScopeId
  | _, none => []
  | n, next inner rest => ⟨n⟩ :: rest.ids (n + 1 + inner.size)

variable (x y : Blocks)

@[simp] theorem append_none : x.append none = x := by
  induction x with
  | none => rfl
  | next inner rest _ ih => rw [append, ih]

theorem append_assoc (z : Blocks) : (x.append y).append z = x.append (y.append z) := by
  induction x with
  | none => rfl
  | next inner rest _ ih => rw [append, append, append, ih]

theorem length_append : (x.append y).length = x.length + y.length := by
  induction x with
  | none => simp [append, length]
  | next inner rest _ ih => simp only [append, length, ih]; omega

theorem ids_append (n : Nat) : (x.append y).ids n = x.ids n ++ y.ids (n + x.size) := by
  induction x generalizing n with
  | none => rfl
  | next inner rest _ ih =>
    have hsize : n + 1 + inner.size + rest.size = n + (next inner rest).size := by
      simp only [size]
      omega
    rw [append, ids, ih, hsize]
    rfl

theorem length_ids (n : Nat) : (x.ids n).length = x.length := by
  induction x generalizing n with
  | none => rfl
  | next inner rest _ ih => rw [ids, List.length_cons, ih, length]

end Blocks

/-- A block outside of functions that was made in the first pass, with the blocks inside it. -/
structure Scope.IsMade (s : Scope) (blocks : List ScopeId) : Prop where
  isAnonymous : s.isAnonymous = true
  frame : s.frame = none
  blocks : s.blocks = blocks
  cursor : s.cursor = 0
  canGrow : s.canGrow = false

/-- The scopes differ in what they remember only. -/
def Scope.SameButNotes (s s' : Scope) : Prop := ∃ notes, s' = { s with notes }

namespace Scope.SameButNotes

variable {s s' s'' : Scope}

theorem refl (s : Scope) : s.SameButNotes s := ⟨s.notes, rfl⟩

theorem trans (h : s.SameButNotes s') (h' : s'.SameButNotes s'') : s.SameButNotes s'' := by
  obtain ⟨notes, rfl⟩ := h
  obtain ⟨notes', rfl⟩ := h'
  exact ⟨notes', rfl⟩

theorem isMade (h : s.SameButNotes s') {blocks : List ScopeId} (hs : s.IsMade blocks) :
    s'.IsMade blocks := by
  obtain ⟨notes, rfl⟩ := h
  exact ⟨hs.isAnonymous, hs.frame, hs.blocks, hs.cursor, hs.canGrow⟩

end Scope.SameButNotes

namespace ScopeTree

/-- The blocks were made, with numbers from `n` on. -/
def Fits (t : ScopeTree) : Nat → Blocks → Prop
  | _, .none => True
  | n, .next inner rest => (t.scope ⟨n⟩).IsMade (inner.ids (n + 1)) ∧ t.Fits (n + 1) inner ∧
      t.Fits (n + 1 + inner.size) rest

variable {t : ScopeTree} {n : Nat} {x : Blocks} {id : ScopeId}

theorem Fits.congr {t' : ScopeTree} (h : t.Fits n x)
    (hsame : ∀ other, n ≤ other.index → other.index < n + x.size →
      (t.scope other).SameButNotes (t'.scope other)) : t'.Fits n x := by
  induction x generalizing n with
  | none => trivial
  | next inner rest ihinner ihrest =>
    obtain ⟨hmade, hinner, hrest⟩ := h
    simp only [Blocks.size] at hsame
    refine ⟨(hsame ⟨n⟩ ?_ ?_).isMade hmade, ihinner hinner fun other hle hlt => ?_,
      ihrest hrest fun other hle hlt => ?_⟩
    · exact .refl
    · show n < _
      omega
    · exact hsame other (by omega) (by omega)
    · exact hsame other (by omega) (by omega)

theorem fits_append {y : Blocks} : t.Fits n (x.append y) ↔ t.Fits n x ∧ t.Fits (n + x.size) y := by
  induction x generalizing n with
  | none => simp [Blocks.append, Fits, Blocks.size]
  | next inner rest _ ih =>
    have hsize : n + 1 + inner.size + rest.size = n + (Blocks.next inner rest).size := by
      simp only [Blocks.size]
      omega
    simp only [Blocks.append, Fits, ih, hsize, and_assoc]

theorem lt_of_isMade {blocks : List ScopeId} (h : (t.scope id).IsMade blocks) :
    id.index < t.size := by
  apply Decidable.byContradiction
  intro hge
  have hanonymous := h.isAnonymous
  rw [scope_of_size_le (Nat.le_of_not_lt hge)] at hanonymous
  cases hanonymous

/-- The tree in which the blocks of a scope start again. -/
def rewound (t : ScopeTree) (id : ScopeId) : ScopeTree :=
  t.modifyScope id fun scope => { scope with cursor := 0, canGrow := false }

@[simp] theorem size_rewound (t : ScopeTree) (id : ScopeId) : (t.rewound id).size = t.size :=
  size_modifyScope _ _ _

end ScopeTree

/-! ## Programs that open blocks and write text -/

/-- Actions that only write text. -/
inductive Action.Writes : Action → Prop
  | emitText (text sectionName : String) : Writes (.emitText text sectionName)
  | jumpToNew (mnemonic key : String) : Writes (.jumpToNew mnemonic key)
  | placeNew (key : String) : Writes (.placeNew key)
  | jumpToKnown (mnemonic key : String) : Writes (.jumpToKnown mnemonic key)
  | placeKnown (key : String) : Writes (.placeKnown key)
  | startOtherwise : Writes .startOtherwise

/-- A program writes text and opens blocks. -/
inductive Opens : Program → Blocks → Prop
  | nil : Opens [] .none
  | writes {action : Action} {p : Program} {x : Blocks} (h : action.Writes) (hp : Opens p x) :
    Opens (action :: p) x
  | block {inner p : Program} {x y : Blocks} (hinner : Opens inner x) (hp : Opens p y) :
    Opens (inner.inBlock ++ p) (.next x y)

namespace Opens

variable {p q : Program} {x y : Blocks}

theorem append (hp : Opens p x) (hq : Opens q y) : Opens (p ++ q) (x.append y) := by
  induction hp with
  | nil => exact hq
  | writes h _ ih => exact .writes h ih
  | block hinner _ _ ih =>
    rw [List.append_assoc]
    exact .block hinner ih

theorem inBlock (hp : Opens p x) : Opens p.inBlock (.next x .none) := by
  have h := Opens.block hp .nil
  rwa [List.append_nil] at h

end Opens

namespace Runner

variable {r : Runner} {s s1 s' : Session} {pass : Pass}

variable {action : Action} {p : Program}

theorem runActions_cons_of_ok (h : r.runAction pass action s = .ok () s1)
    (hp : r.runActions pass p s1 = .ok () s') :
    r.runActions pass (action :: p) s = .ok () s' := bind_eq_ok.mpr ⟨(), s1, h, hp⟩

theorem runActions_singleton_of_ok (h : r.runAction pass action s = .ok () s') :
    r.runActions pass [action] s = .ok () s' :=
  runActions_cons_of_ok h rfl

theorem runActions_append_of_ok {q : Program} (hp : r.runActions pass p s = .ok () s1)
    (hq : r.runActions pass q s1 = .ok () s') : r.runActions pass (p ++ q) s = .ok () s' := by
  induction p generalizing s with
  | nil =>
    cases hp
    exact hq
  | cons action rest ih =>
    obtain ⟨⟨⟩, s2, haction, hrest⟩ := bind_eq_ok.mp hp
    exact runActions_cons_of_ok haction (ih hrest)

theorem runAction_of_writes (h : action.Writes) (pass : Pass) :
    r.runAction pass action = if pass = .generate then r.generateAction action else pure () := by
  cases h <;> rfl

theorem runAction_writes (h : action.Writes) (hpass : pass ≠ .generate) :
    r.runAction pass action s = .ok () s := by
  rw [runAction_of_writes h, if_neg hpass]
  rfl

theorem runActions_inBlock_of_ok {s2 : Session} (henter : r.engine.enterBlock s = .ok () s1)
    (hp : r.runActions pass p s1 = .ok () s2) (hexit : r.engine.exitBlock s2 = .ok () s') :
    r.runActions pass p.inBlock s = .ok () s' :=
  runActions_append_of_ok (runActions_cons_of_ok henter hp) (runActions_singleton_of_ok hexit)

end Runner

/-! ## Entering and leaving blocks -/

/-- A session with another tree. -/
def Session.withTree (s : Session) (t : ScopeTree) : Session := { s with tree := t }

variable (s : Session) (t : ScopeTree)

@[simp] theorem Session.tree_withTree : (s.withTree t).tree = t := rfl

theorem Session.withTree_withTree (t' : ScopeTree) :
    (s.withTree t).withTree t' = s.withTree t' := rfl

namespace EngineId

variable {e : EngineId} {s : Session} {id block : ScopeId} {outer : List ScopeId}

theorem currentScope_of_scopes (h : (s.engine e).scopes = id :: outer) :
    (s.engine e).currentScope = id := by
  rw [Engine.currentScope, h]
  rfl

theorem enterBlock_made (h : (s.engine e).scopes = id :: outer)
    (hblock : (s.tree.scope id).blocks[(s.tree.scope id).cursor]? = some block) :
    e.enterBlock s = .ok () (e.opening .enterBlock block (s.withTree
      (s.tree.modifyScope id fun scope => { scope with cursor := scope.cursor + 1 }))) := by
  refine enterBlock_eq_ok.mpr ⟨block, _, ?_, rfl⟩
  rw [currentScope_of_scopes h]
  exact nextBlock_eq_ok.mpr (.inl ⟨hblock, rfl⟩)

theorem enterBlock_new (h : (s.engine e).scopes = id :: outer)
    (hcursor : (s.tree.scope id).cursor = (s.tree.scope id).blocks.length)
    (hgrow : (s.tree.scope id).canGrow = true) :
    e.enterBlock s =
      .ok () (e.opening .enterBlock ⟨s.tree.size⟩ (s.withTree (s.tree.withBlock id))) := by
  refine enterBlock_eq_ok.mpr ⟨_, _, ?_, rfl⟩
  rw [currentScope_of_scopes h]
  refine nextBlock_eq_ok.mpr (.inr ⟨?_, hgrow, rfl, rfl⟩)
  rw [hcursor]
  simp

theorem exitBlock_frameless (h : (s.engine e).scopes = block :: id :: outer)
    (hanonymous : (s.tree.scope block).isAnonymous = true)
    (hframe : (s.tree.scope block).frame = none)
    (hcursor : (s.tree.scope block).cursor = (s.tree.scope block).blocks.length) :
    e.exitBlock s = .ok () (e.closing .exitBlock (s.withTree (s.tree.rewound block))) := by
  have hcurrent := currentScope_of_scopes h
  unfold exitBlock
  rw [scope_bind, state_bind, fail, check_eq_ok, hcurrent, hframe]
  refine ⟨by simp [hanonymous, h], ?_⟩
  refine leave_eq_ok.mpr ⟨_, ?_, rfl⟩
  rw [hcurrent]
  exact rewindBlocks_eq_ok.mpr ⟨hcursor, rfl⟩

theorem closing_opening (move move' : ScopeMove) (t : ScopeTree) : ∃ visit,
    e.closing move ((e.opening move' block s).withTree t) = s.withTree (t.visited visit) := by
  obtain ⟨visit, hvisit⟩ : ∃ visit, (e.closing move ((e.opening move' block s).withTree t)).tree =
      t.visited visit := ⟨_, rfl⟩
  refine ⟨visit, ?_⟩
  rw [← hvisit]
  simp only [closing, opening, going, Session.withTree, Session.mk.injEq, true_and, and_true]
  rw [modify_modify]
  exact modify_self _ _

end EngineId

/-! ## The first pass -/

/-- An engine stands behind the last block of a scope that may get more. -/
structure Session.AtEnd (e : EngineId) (id : ScopeId) (s : Session) : Prop where
  opened : ∃ outer, (s.engine e).scopes = id :: outer
  inside : id.index < s.tree.size
  cursor : (s.tree.scope id).cursor = (s.tree.scope id).blocks.length
  canGrow : (s.tree.scope id).canGrow = true
  frame : (s.tree.scope id).frame = none

/-- Blocks were added at the end of a scope, and nothing else changed. -/
structure ScopeTree.Grown (id : ScopeId) (x : Blocks) (t t' : ScopeTree) : Prop where
  size : t'.size = t.size + x.size
  others : ∀ other, other ≠ id → other.index < t.size → t'.scope other = t.scope other
  current : t'.scope id = { t.scope id with
    blocks := (t.scope id).blocks ++ x.ids t.size
    cursor := (t.scope id).cursor + x.length }
  fits : t'.Fits t.size x
  unnamed : (∀ other, (t.scope other).name = none) → ∀ other, (t'.scope other).name = none

namespace ScopeTree.Grown

theorem refl (id : ScopeId) (t : ScopeTree) : t.Grown id .none t where
  size := rfl
  others _ _ _ := rfl
  current := by simp [Blocks.ids, Blocks.length]
  fits := trivial
  unnamed h := h

variable {t t2 t3 : ScopeTree} {id : ScopeId} {x y : Blocks}

theorem of_visited {visit : Visit} (h : (t.visited visit).Grown id x t2) : t.Grown id x t2 :=
  ⟨h.size, h.others, h.current, h.fits, h.unnamed⟩

theorem next (hid : id.index < t.size) (hframe : (t.scope id).frame = none)
    (hinner : (t.withBlock id).Grown ⟨t.size⟩ x t2)
    (hrest : (t2.rewound ⟨t.size⟩).Grown id y t3) : t.Grown id (.next x y) t3 := by
  have hne := ne_size hid
  have hsize2 : t2.size = t.size + 1 + x.size := by rw [hinner.size, size_withBlock]
  have hlt2 : (⟨t.size⟩ : ScopeId).index < t2.size := by
    rw [hsize2]
    dsimp only
    omega
  have hsize3 := hrest.size
  rw [size_rewound, hsize2] at hsize3
  have hrest_others := hrest.others
  simp only [size_rewound, hsize2] at hrest_others
  have hid2 : t2.scope id = (t.withBlock id).scope id :=
    hinner.others id hne (by rw [size_withBlock]; omega)
  -- the new block, with all that was put into it
  have hmade : (t3.scope ⟨t.size⟩).IsMade (x.ids (t.size + 1)) := by
    rw [hrest_others _ (Ne.symm hne) (by dsimp only; omega), rewound, scope_modifyScope_self hlt2,
      hinner.current, scope_withBlock hid, if_neg hne.symm, if_pos rfl, size_withBlock]
    exact ⟨rfl, hframe, rfl, rfl, rfl⟩
  refine ⟨?_, fun other hother hlt => ?_, ?_, ⟨hmade, ?_, ?_⟩, fun hnames => ?_⟩
  · rw [hsize3, Blocks.size]
    omega
  · have hother' := ne_size hlt
    rw [hrest_others other hother (by omega), rewound, scope_modifyScope_of_ne hother',
      hinner.others other hother' (by rw [size_withBlock]; omega),
      scope_withBlock hid, if_neg hother, if_neg hother']
  · rw [hrest.current, size_rewound, hsize2, rewound, scope_modifyScope_of_ne hne, hid2,
      scope_withBlock hid, if_pos rfl]
    simp only [Blocks.ids, Blocks.length, List.append_assoc, List.singleton_append]
    have hcursor : (t.scope id).cursor + 1 + y.length = (t.scope id).cursor + (y.length + 1) := by
      omega
    rw [hcursor]
  · have hfits := hinner.fits
    rw [size_withBlock] at hfits
    refine hfits.congr fun other hle hlt => ?_
    have hother : other ≠ ⟨t.size⟩ := by
      rintro rfl
      exact Nat.not_succ_le_self _ hle
    have hother' : other ≠ id := by
      rintro rfl
      omega
    rw [hrest_others other hother' hlt, rewound, scope_modifyScope_of_ne hother]
    exact .refl _
  · have hfits := hrest.fits
    rwa [size_rewound, hsize2] at hfits
  · apply hrest.unnamed
    have hnames1 : ∀ other, ((t.withBlock id).scope other).name = none := by
      intro other
      rw [scope_withBlock hid]
      split
      · exact hnames id
      · split
        · rfl
        · exact hnames other
    have hnames2 := hinner.unnamed hnames1
    intro other
    rw [rewound, scope_modifyScope]
    split
    · exact hnames2 _
    · exact hnames2 _

end ScopeTree.Grown

/-- The first pass makes the blocks of a program. -/
theorem Opens.declares {r : Runner} {p : Program} {x : Blocks} (h : Opens p x) {s : Session}
    {id : ScopeId} (hs : s.AtEnd r.engine id) :
    ∃ t, r.runActions .declare p s = .ok () (s.withTree t) ∧ s.tree.Grown id x t := by
  induction h generalizing s id with
  | nil => exact ⟨s.tree, rfl, .refl id s.tree⟩
  | writes haction _ ih =>
    obtain ⟨t, hrun, hgrown⟩ := ih hs
    refine ⟨t, Runner.runActions_cons_of_ok (Runner.runAction_writes haction ?_) hrun, hgrown⟩
    intro hpass
    cases hpass
  | @block inner p x y hinner _ ihinner ih =>
    obtain ⟨outer, hscopes⟩ := hs.opened
    have henter := enterBlock_new hscopes hs.cursor hs.canGrow
    -- the new block is empty and may grow
    have hne := ne_size hs.inside
    have hnew : (s.tree.withBlock id).scope ⟨s.tree.size⟩ = (s.tree.scope id).newBlock id := by
      rw [scope_withBlock hs.inside, if_neg hne.symm, if_pos rfl]
    generalize hs1 : s.withTree (s.tree.withBlock id) = s1 at henter
    have htree1 : s1.tree = s.tree.withBlock id := by rw [← hs1]; rfl
    have hscopes1 : (s1.engine r.engine).scopes = id :: outer := by rw [← hs1]; exact hscopes
    have hopened : ((r.engine.opening .enterBlock ⟨s.tree.size⟩ s1).engine r.engine).scopes =
        ⟨s.tree.size⟩ :: id :: outer := by
      rw [scopes_opening (lt_of_scopes hscopes1), hscopes1]
    have htree2 : ∃ visit, (r.engine.opening .enterBlock ⟨s.tree.size⟩ s1).tree =
        (s.tree.withBlock id).visited visit := ⟨_, by rw [← htree1]; rfl⟩
    obtain ⟨visit, htree2⟩ := htree2
    have hatend : (r.engine.opening .enterBlock ⟨s.tree.size⟩ s1).AtEnd r.engine ⟨s.tree.size⟩ := by
      refine ⟨⟨_, hopened⟩, ?_, ?_, ?_, ?_⟩
      · rw [htree2, size_visited, size_withBlock]
        exact Nat.lt_succ_self _
      all_goals rw [htree2, scope_visited, hnew]
      · rfl
      · rfl
      · exact hs.frame
    obtain ⟨t, hrun, hgrown⟩ := ihinner hatend
    rw [htree2] at hgrown
    replace hgrown := hgrown.of_visited
    have hcurrent := hgrown.current
    rw [hnew] at hcurrent
    have hexit := exitBlock_frameless
      (s := (r.engine.opening .enterBlock ⟨s.tree.size⟩ s1).withTree t) hopened
      (by rw [tree_withTree, hcurrent]; rfl)
      (by rw [tree_withTree, hcurrent]; exact hs.frame)
      (by rw [tree_withTree, hcurrent]; simp [Scope.newBlock, Blocks.length_ids])
    obtain ⟨visit', hleft⟩ : ∃ visit', r.engine.closing .exitBlock
        ((r.engine.opening .enterBlock ⟨s.tree.size⟩ s1).withTree (t.rewound ⟨s.tree.size⟩)) =
          s1.withTree ((t.rewound ⟨s.tree.size⟩).visited visit') :=
      closing_opening _ _ _
    rw [tree_withTree, withTree_withTree, hleft, ← hs1, withTree_withTree, hs1] at hexit
    -- the scope around it ends with the new block
    have hinside : id.index < (s.tree.withBlock id).size := by
      rw [size_withBlock]
      exact Nat.lt_succ_of_lt hs.inside
    have hid : (t.rewound ⟨s.tree.size⟩).scope id = (s.tree.withBlock id).scope id := by
      rw [rewound, scope_modifyScope_of_ne hne, hgrown.others id hne hinside]
    rw [scope_withBlock hs.inside, if_pos rfl] at hid
    have hrest : (s.withTree ((t.rewound ⟨s.tree.size⟩).visited visit')).AtEnd r.engine id := by
      refine ⟨⟨outer, hscopes⟩, ?_, ?_, ?_, ?_⟩
      · rw [tree_withTree, size_visited, size_rewound, hgrown.size]
        omega
      all_goals rw [tree_withTree, scope_visited, hid]
      · simp [hs.cursor]
      · exact hs.canGrow
      · exact hs.frame
    obtain ⟨t', hrun', hgrown'⟩ := ih hrest
    refine ⟨t', ?_, hgrown.next hs.inside hs.frame hgrown'.of_visited⟩
    exact Runner.runActions_append_of_ok (Runner.runActions_inBlock_of_ok henter hrun hexit) hrun'

end StagedAsm
