import StagedAsm.Proofs.BlockRuns
import StagedAsm.Proofs.StructuredCode

/-!
# Passes that enter blocks again

In a later pass a program finds each block as the first pass made it, and leaves the tree as it was,
up to the texts that scopes remember. What it writes goes to the end of the program section.
-/

namespace StagedAsm

open EngineId List ScopeTree Session

/-! ## Sessions that write -/

namespace Section

variable (name : String) (sections : List (String × Section))

theorem modifyFirst_modifyFirst (f g : Section → Section) (sections : List (String × Section)) :
    modifyFirst name g (modifyFirst name f sections) =
      modifyFirst name (fun s => g (f s)) sections := by
  induction sections with
  | nil => rfl
  | cons entry rest ih =>
    obtain ⟨other, s⟩ := entry
    by_cases h : other = name
    · simp [modifyFirst, h]
    · simp [modifyFirst, h, ih]

theorem modifyFirst_self : modifyFirst name (fun s => s) sections = sections := by
  induction sections with
  | nil => rfl
  | cons entry rest ih =>
    obtain ⟨other, s⟩ := entry
    simp [modifyFirst, ih]

theorem any_modifyFirst (f : Section → Section) (other : String)
    (sections : List (String × Section)) :
    (modifyFirst name f sections).any (fun entry => entry.1 == other) =
      sections.any fun entry => entry.1 == other := by
  induction sections with
  | nil => rfl
  | cons entry rest ih =>
    obtain ⟨first, s⟩ := entry
    by_cases h : first = name
    · simp [modifyFirst, h]
    · simp [modifyFirst, h, ih]

theorem foldl_accept {s : Section} (h : s.backlog = []) (lines : List String) :
    lines.foldl accept s = { s with buffer := s.buffer ++ linesText lines } := by
  obtain ⟨sink, buffer, backlog⟩ := s
  obtain rfl : backlog = [] := h
  induction lines generalizing buffer with
  | nil => simp [linesText]
  | cons line rest ih =>
    have haccept : accept { sink, buffer } line = { sink, buffer := buffer ++ line ++ "\n" } := rfl
    rw [foldl_cons, haccept, ih]
    simp only [linesText, String.append_assoc]

end Section

namespace Session

def writing (e : EngineId) (lines : List String) (labels : Nat) (t : ScopeTree) (s : Session) :
    Session :=
  { s with
    tree := t
    nextUid := s.nextUid + labels
    engines := s.engines.modify e.index fun engine =>
      { engine with
        sections := Section.modifyFirst programSection
          (fun entry => lines.foldl Section.accept entry)
          engine.sections } }

variable {e : EngineId} {s : Session}

variable (lines : List String) (labels : Nat)

@[simp] theorem tree_writing (t : ScopeTree) : (s.writing e lines labels t).tree = t := rfl

theorem nextUid_writing (t : ScopeTree) :
    (s.writing e lines labels t).nextUid = s.nextUid + labels := rfl

theorem writing_writing (first second : List String) (n k : Nat) (t t' : ScopeTree) :
    (s.writing e first n t).writing e second k t' = s.writing e (first ++ second) (n + k) t' := by
  simp only [writing, modify_modify, Section.modifyFirst_modifyFirst, List.foldl_append,
    Nat.add_assoc]

theorem writing_nil : s.writing e [] 0 s.tree = s := by
  simp only [writing, List.foldl_nil, Section.modifyFirst_self, Nat.add_zero]
  rw [modify_self]

theorem engine_writing (h : e.index < s.engines.size) (lines : List String) (labels : Nat)
    (t : ScopeTree) : (s.writing e lines labels t).engine e = { s.engine e with
      sections := Section.modifyFirst programSection (fun entry => lines.foldl Section.accept entry)
        (s.engine e).sections } :=
  (s.engine_modify e e _).trans (if_pos ⟨rfl, h⟩)

theorem scopes_writing (h : e.index < s.engines.size) (lines : List String) (labels : Nat)
    (t : ScopeTree) :
    ((s.writing e lines labels t).engine e).scopes = (s.engine e).scopes := by
  rw [engine_writing h]

theorem closing_writing_opening {move move' : ScopeMove} {block : ScopeId} {t t' : ScopeTree}
    (t'' : ScopeTree) : ∃ visit,
    e.closing move
        (((e.opening move' block (s.withTree t)).writing e lines labels t').withTree t'') =
      s.writing e lines labels (t''.visited visit) := by
  obtain ⟨visit, hvisit⟩ : ∃ visit, (e.closing move (((e.opening move' block
      (s.withTree t)).writing e lines labels t').withTree t'')).tree = t''.visited visit := ⟨_, rfl⟩
  refine ⟨visit, ?_⟩
  rw [← hvisit]
  simp only [closing, opening, going, writing, withTree, modify_modify, tail_cons]

end Session

/-! ## What a pass does to blocks that were made -/

namespace ScopeTree

/-- The tree in which the next block of a scope is entered. -/
def entering (t : ScopeTree) (id : ScopeId) : ScopeTree :=
  t.modifyScope id fun scope => { scope with cursor := scope.cursor + 1 }

theorem size_entering (t : ScopeTree) (id : ScopeId) : (t.entering id).size = t.size :=
  size_modifyScope _ _ _

variable {t : ScopeTree} {id : ScopeId}

theorem scope_entering_self (h : id.index < t.size) :
    (t.entering id).scope id = { t.scope id with cursor := (t.scope id).cursor + 1 } :=
  scope_modifyScope_self h _

theorem scope_entering_of_ne {other : ScopeId} (h : other ≠ id) :
    (t.entering id).scope other = t.scope other :=
  scope_modifyScope_of_ne h _

end ScopeTree

structure ScopeTree.Visits (kept : String → Prop) (id : ScopeId) (count : Nat) (t t' : ScopeTree) :
    Prop where
  size : t'.size = t.size
  others : ∀ other, other ≠ id → (t.scope other).SameButNotes (t'.scope other)
  outside : ∀ other, other.index < id.index → t'.scope other = t.scope other
  current : ∃ notes, t'.scope id =
      { t.scope id with cursor := (t.scope id).cursor + count, notes } ∧
    ∀ key, kept key → notes.get? key = (t.scope id).notes.get? key

namespace ScopeTree.Visits

variable {kept kept' : String → Prop} {id : ScopeId} {n k : Nat} {t t' t'' : ScopeTree}

theorem refl : t.Visits kept id 0 t where
  size := rfl
  others _ _ := .refl _
  outside _ _ := rfl
  current := ⟨(t.scope id).notes, rfl, fun _ _ => rfl⟩

theorem mono (h : t.Visits kept id n t') (himp : ∀ key, kept' key → kept key) :
    t.Visits kept' id n t' where
  size := h.size
  others := h.others
  outside := h.outside
  current := by
    obtain ⟨notes, hscope, hnotes⟩ := h.current
    exact ⟨notes, hscope, fun key hkey => hnotes key (himp key hkey)⟩

theorem trans (h : t.Visits kept id n t') (h' : t'.Visits kept id k t'') :
    t.Visits kept id (n + k) t'' where
  size := h'.size.trans h.size
  others other hother := (h.others other hother).trans (h'.others other hother)
  outside other hother := (h'.outside other hother).trans (h.outside other hother)
  current := by
    obtain ⟨notes, hscope, hnotes⟩ := h.current
    obtain ⟨notes', hscope', hnotes'⟩ := h'.current
    refine ⟨notes', ?_, fun key hkey => ?_⟩
    · rw [hscope', hscope, Nat.add_assoc]
    · rw [hnotes' key hkey, hscope]
      exact hnotes key hkey

theorem notes (h : t.Visits kept id n t') {key : String} (hkey : kept key) :
    (t'.scope id).notes.get? key = (t.scope id).notes.get? key := by
  obtain ⟨notes, hscope, hnotes⟩ := h.current
  rw [hscope]
  exact hnotes key hkey

theorem unnamed (h : t.Visits kept id n t') (hnames : ∀ other, (t.scope other).name = none)
    (other : ScopeId) : (t'.scope other).name = none := by
  by_cases hother : other = id
  · obtain ⟨notes, hscope, -⟩ := h.current
    rw [hother, hscope]
    exact hnames id
  · obtain ⟨notes, hscope⟩ := h.others other hother
    rw [hscope]
    exact hnames other

theorem of_visited {visit : Visit} (h : (t.visited visit).Visits kept id n t') :
    t.Visits kept id n t' := ⟨h.size, h.others, h.outside, h.current⟩

theorem visited (h : t.Visits kept id n t') (visit : Visit) :
    t.Visits kept id n (t'.visited visit) := ⟨h.size, h.others, h.outside, h.current⟩

theorem block {inner : Nat} (hid : id.index < t.size) (hn : id.index < n) {blocks : List ScopeId}
    (hmade : (t.scope ⟨n⟩).IsMade blocks) (h : (t.entering id).Visits kept ⟨n⟩ inner t') :
    t.Visits (fun _ => True) id 1 (t'.rewound ⟨n⟩) := by
  have hne : (⟨n⟩ : ScopeId) ≠ id := by
    rintro rfl
    exact Nat.lt_irrefl _ hn
  have hblock : (⟨n⟩ : ScopeId).index < t'.size := by
    rw [h.size, size_entering]
    exact lt_of_isMade hmade
  refine ⟨?_, fun other hother => ?_, fun other hother => ?_, ?_⟩
  · rw [size_rewound, h.size, size_entering]
  · by_cases heq : other = ⟨n⟩
    -- the block is as it was, since it was at its first block before
    · obtain ⟨notes, hscope, -⟩ := h.current
      rw [scope_entering_of_ne hne] at hscope
      rw [heq, rewound, scope_modifyScope_self hblock, hscope]
      refine ⟨notes, ?_⟩
      rw [← hmade.cursor, ← hmade.canGrow]
    · rw [rewound, scope_modifyScope_of_ne heq]
      have hothers := h.others other heq
      rwa [scope_entering_of_ne hother] at hothers
  · have hlt : other.index < (⟨n⟩ : ScopeId).index := Nat.lt_trans hother hn
    have hne' : other ≠ ⟨n⟩ := by
      rintro rfl
      exact Nat.lt_irrefl _ hlt
    have hother' : other ≠ id := by
      rintro rfl
      exact Nat.lt_irrefl _ hother
    rw [rewound, scope_modifyScope_of_ne hne', h.outside other hlt, scope_entering_of_ne hother']
  · refine ⟨(t.scope id).notes, ?_, fun _ _ => rfl⟩
    rw [rewound, scope_modifyScope_of_ne (Ne.symm hne), h.outside id hn, scope_entering_self hid]

end ScopeTree.Visits

/-- The tree in which a scope remembers a text. -/
def ScopeTree.remember (t : ScopeTree) (id : ScopeId) (key text : String) : ScopeTree :=
  t.modifyScope id fun scope => { scope with notes := scope.notes.set key text }

variable {t : ScopeTree} {id : ScopeId}

theorem ScopeTree.visits_remember (h : id.index < t.size) (key text : String) :
    t.Visits (· ≠ key) id 0 (t.remember id key text) where
  size := size_modifyScope _ _ _
  others other hother := by
    rw [remember, scope_modifyScope_of_ne hother]
    exact .refl _
  outside other hother := by
    refine scope_modifyScope_of_ne ?_ _
    rintro rfl
    exact Nat.lt_irrefl _ hother
  current := by
    refine ⟨(t.scope id).notes.set key text, ?_, fun other hother => ?_⟩
    · rw [remember, scope_modifyScope_self h, Nat.add_zero]
    · exact Dictionary.get?_set_of_ne _ hother _

theorem ScopeTree.notes_remember (h : id.index < t.size) (key text : String) :
    ((t.remember id key text).scope id).notes.get? key = some text := by
  rw [remember, scope_modifyScope_self h]
  exact Dictionary.get?_set_self _ _ _

/-- An engine stands in a scope whose next blocks were made, and no scope has a name. -/
structure Session.Stands (e : EngineId) (id : ScopeId) (n : Nat) (x : Blocks) (s : Session) :
    Prop where
  opened : ∃ outer, (s.engine e).scopes = id :: outer
  inside : id.index < s.tree.size
  before : id.index < n
  blocks : ∃ more, (s.tree.scope id).blocks.drop (s.tree.scope id).cursor = x.ids n ++ more
  fits : s.tree.Fits n x
  unnamed : ∀ other, (s.tree.scope other).name = none
  output : ((s.engine e).sections.any fun entry => entry.1 == programSection) = true

namespace Session.Stands

variable {e : EngineId} {id : ScopeId} {n : Nat} {x y : Blocks} {s : Session}

theorem lt_size (h : s.Stands e id n x) : e.index < s.engines.size := by
  obtain ⟨outer, hscopes⟩ := h.opened
  exact lt_of_scopes hscopes

theorem currentScope (h : s.Stands e id n x) : (s.engine e).currentScope = id := by
  obtain ⟨outer, hscopes⟩ := h.opened
  exact currentScope_of_scopes hscopes

theorem left (h : s.Stands e id n (x.append y)) : s.Stands e id n x := by
  refine ⟨h.opened, h.inside, h.before, ?_, (fits_append.mp h.fits).1, h.unnamed, h.output⟩
  obtain ⟨more, hblocks⟩ := h.blocks
  exact ⟨y.ids (n + x.size) ++ more, by rw [hblocks, Blocks.ids_append, append_assoc]⟩

variable {kept : String → Prop} {t : ScopeTree}

theorem right (h : s.Stands e id n (x.append y)) (hvisits : s.tree.Visits kept id x.length t)
    (lines : List String) (labels : Nat) :
    (s.writing e lines labels t).Stands e id (n + x.size) y := by
  have hengine := engine_writing h.lt_size lines labels t
  refine ⟨?_, ?_, ?_, ?_, ?_, hvisits.unnamed h.unnamed, ?_⟩
  · rw [hengine]
    exact h.opened
  · rw [tree_writing, hvisits.size]
    exact h.inside
  · exact Nat.lt_of_lt_of_le h.before (Nat.le_add_right _ _)
  · obtain ⟨more, hblocks⟩ := h.blocks
    obtain ⟨notes, hscope, -⟩ := hvisits.current
    refine ⟨more, ?_⟩
    rw [tree_writing, hscope]
    dsimp only
    rw [← drop_drop, hblocks, Blocks.ids_append, append_assoc]
    exact drop_left' (Blocks.length_ids x n)
  · refine (fits_append.mp h.fits).2.congr fun other hle _ => hvisits.others other ?_
    rintro rfl
    have hbefore := h.before
    omega
  · rw [hengine, Section.any_modifyFirst]
    exact h.output

theorem next (h : s.Stands e id n x) (hvisits : s.tree.Visits kept id 0 t) (lines : List String)
    (labels : Nat) : (s.writing e lines labels t).Stands e id n x :=
  right (x := .none) h hvisits lines labels

theorem block_eq (h : s.Stands e id n (.next x y)) :
    (s.tree.scope id).blocks[(s.tree.scope id).cursor]? = some ⟨n⟩ := by
  obtain ⟨more, hblocks⟩ := h.blocks
  rw [← head?_drop, hblocks]
  rfl

theorem enter (h : s.Stands e id n (.next x y)) :
    (e.opening .enterBlock ⟨n⟩ (s.withTree (s.tree.entering id))).Stands e ⟨n⟩ (n + 1) x := by
  obtain ⟨outer, hscopes⟩ := h.opened
  have hne : (⟨n⟩ : ScopeId) ≠ id := by
    rintro rfl
    exact Nat.lt_irrefl _ h.before
  have hlt : e.index < (s.withTree (s.tree.entering id)).engines.size := h.lt_size
  obtain ⟨hmade, hfits, -⟩ := h.fits
  refine ⟨⟨_, scopes_opening hlt _⟩, ?_, Nat.lt_succ_self n, ⟨[], ?_⟩, ?_, ?_, ?_⟩
  · show n < (s.tree.entering id).size
    rw [size_entering]
    exact lt_of_isMade hmade
  · show ((s.tree.entering id).scope ⟨n⟩).blocks.drop ((s.tree.entering id).scope ⟨n⟩).cursor = _
    rw [scope_entering_of_ne hne, hmade.cursor, hmade.blocks, drop_zero, append_nil]
  · refine hfits.congr fun other hle _ => ?_
    show (s.tree.scope other).SameButNotes ((s.tree.entering id).scope other)
    rw [scope_entering_of_ne]
    · exact .refl _
    · rintro rfl
      have hbefore := h.before
      omega
  · intro other
    show ((s.tree.entering id).scope other).name = none
    by_cases hother : other = id
    · rw [hother, scope_entering_self h.inside]
      exact h.unnamed id
    · rw [scope_entering_of_ne hother]
      exact h.unnamed other
  · rw [engine_opening, if_pos ⟨rfl, hlt⟩]
    exact h.output

end Session.Stands

def Replays (r : Runner) (pass : Pass) (kept : String → Prop) (p : Program) (f : Fragment)
    (x : Blocks) : Prop :=
  ∀ (s : Session) (id : ScopeId) (n : Nat), s.Stands r.engine id n x → ∃ t,
    r.runActions pass p s = .ok () (s.writing r.engine (f.lines s.nextUid) f.labels t) ∧
      s.tree.Visits kept id x.length t

namespace Replays

variable {r : Runner} {pass : Pass} {kept kept' : String → Prop} {p q : Program} {f g : Fragment}
  {x y : Blocks}

theorem nil : Replays r pass kept [] .empty .none := by
  intro s id n _
  refine ⟨s.tree, ?_, .refl⟩
  show _ = EStateM.Result.ok () (s.writing r.engine [] 0 s.tree)
  rw [writing_nil]
  rfl

theorem mono (h : Replays r pass kept p f x) (himp : ∀ key, kept' key → kept key) :
    Replays r pass kept' p f x := by
  intro s id n hs
  obtain ⟨t, hrun, hvisits⟩ := h s id n hs
  exact ⟨t, hrun, hvisits.mono himp⟩

theorem append (hp : Replays r pass kept p f x) (hq : Replays r pass kept q g y) :
    Replays r pass kept (p ++ q) (f.append g) (x.append y) := by
  intro s id n hs
  obtain ⟨t, hrun, hvisits⟩ := hp s id n hs.left
  obtain ⟨t', hrun', hvisits'⟩ := hq _ id _ (hs.right hvisits _ _)
  refine ⟨t', ?_, ?_⟩
  · rw [writing_writing] at hrun'
    exact Runner.runActions_append_of_ok hrun hrun'
  · rw [Blocks.length_append]
    exact hvisits.trans hvisits'

theorem inBlock (h : Replays r pass kept p f x) :
    Replays r pass (fun _ => True) p.inBlock f (.next x .none) := by
  intro s id n hs
  obtain ⟨outer, hscopes⟩ := hs.opened
  have hmade := hs.fits.1
  obtain ⟨t, hrun, hvisits⟩ := h _ _ _ hs.enter
  replace hvisits : (s.tree.entering id).Visits kept ⟨n⟩ x.length t := hvisits.of_visited
  have hne : (⟨n⟩ : ScopeId) ≠ id := by
    rintro rfl
    exact Nat.lt_irrefl _ hs.before
  -- inside the block, all its blocks were entered
  obtain ⟨notes, hscope, -⟩ := hvisits.current
  have hbefore : (s.tree.entering id).scope ⟨n⟩ = s.tree.scope ⟨n⟩ := scope_entering_of_ne hne
  rw [hbefore] at hscope
  have hopened : ∀ lines labels, (((r.engine.opening .enterBlock ⟨n⟩
      (s.withTree (s.tree.entering id))).writing r.engine lines labels t).engine r.engine).scopes =
        ⟨n⟩ :: id :: outer := by
    intro lines labels
    rw [scopes_writing hs.enter.lt_size]
    refine (scopes_opening ?_ _).trans (congrArg (_ :: ·) hscopes)
    exact hs.lt_size
  have hexit := exitBlock_frameless (hopened (f.lines s.nextUid) f.labels)
    (by rw [tree_writing, hscope]; exact hmade.isAnonymous)
    (by rw [tree_writing, hscope]; exact hmade.frame)
    (by rw [tree_writing, hscope]; simp [hmade.cursor, hmade.blocks, Blocks.length_ids])
  obtain ⟨visit, hleft⟩ := closing_writing_opening (e := r.engine) (s := s)
    (f.lines s.nextUid) f.labels (t.rewound ⟨n⟩)
  rw [tree_writing, hleft] at hexit
  refine ⟨(t.rewound ⟨n⟩).visited visit, ?_, (hvisits.block hs.inside hs.before hmade).visited _⟩
  exact Runner.runActions_inBlock_of_ok (enterBlock_made hscopes hs.block_eq) hrun hexit

end Replays

theorem Opens.resolves {r : Runner} {p : Program} {x : Blocks} (h : Opens p x) :
    Replays r .resolve (fun _ => True) p .empty x := by
  induction h with
  | nil => exact .nil
  | writes haction _ ih =>
    intro s id n hs
    obtain ⟨t, hrun, hvisits⟩ := ih s id n hs
    refine ⟨t, Runner.runActions_cons_of_ok (Runner.runAction_writes haction ?_) hrun, hvisits⟩
    intro hpass
    cases hpass
  | block _ _ ihinner ih => exact ihinner.inBlock.append ih

end StagedAsm
