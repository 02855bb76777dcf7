import Mathlib.Data.List.Chain
import StagedAsm.Proofs.ScopeTrails
import StagedAsm.Run.TreeScript

/-!
# The scope tree is a forest

Whatever is done to the scopes of a tree, and whether it succeeds or not: every scope but the root
and those of template instances hangs off one scope, which is older, siblings of a kind have
different names, the blocks of a scope are numbered as they are listed, and the scopes on one frame
are those of one function.
-/

namespace StagedAsm

open List

/-- The name under which a scope hangs off another one. -/
def ScopeOrigin.name? : ScopeOrigin → Option String
  | member _ name => some name
  | function _ name => some name
  | _ => none

namespace ScopeTree

variable {t t' : ScopeTree} {id : ScopeId}

/-! ## Forests -/

def IsChild (t : ScopeTree) (parent child : ScopeId) : Prop :=
  (∃ name, t.subScope? parent name = some child) ∨
    (∃ name, t.functionScope? parent name = some child) ∨ child ∈ (t.scope parent).blocks

/-- A scope is that of a function, or is reached from it through blocks. -/
inductive InFunction (t : ScopeTree) (function : ScopeId) : ScopeId → Prop where
  | own {parent : ScopeId} {name : String}
      (h : (t.scope function).origin = .function parent name) : InFunction t function function
  | block {id outer : ScopeId} {number : Nat} (hin : InFunction t function outer)
      (h : (t.scope id).origin = .block outer number) : InFunction t function id

/-- How the scopes of a tree hang together. -/
structure Forest (t : ScopeTree) : Prop where
  no_parent : ∀ {id : ScopeId}, id.index < t.size → id = root ∨ (t.scope id).origin = .detached →
    t.parent? id = none ∧ ∀ parent, ¬t.IsChild parent id
  parent : ∀ {id : ScopeId}, id.index < t.size → id ≠ root → (t.scope id).origin ≠ .detached →
    ∃ parent, t.parent? id = some parent ∧ t.IsChild parent id ∧ parent.index < id.index ∧
      ∀ other, t.IsChild other id → other = parent
  lineage : ∀ id, (t.lineage id).head? = some id ∧
    (t.lineage id).IsChain (fun child parent => t.parent? child = some parent) ∧
    ∀ top, (t.lineage id).getLast? = some top → t.parent? top = none
  members : ∀ {a b parent : ScopeId} {name : String}, (t.scope a).origin = .member parent name →
    (t.scope b).origin = .member parent name → a = b
  /-- Functions have different names. -/
  functions : ∀ {a b parent : ScopeId} {name : String}, (t.scope a).origin = .function parent name →
    (t.scope b).origin = .function parent name → a = b
  name : ∀ id, (t.scope id).name = (t.scope id).origin.name?
  blocks : ∀ {id block : ScopeId} {number : Nat},
    (t.scope id).blocks[number]? = some block ↔ (t.scope block).origin = .block id number
  sorted : ∀ id, (t.scope id).blocks.Pairwise (·.index < ·.index)
  cursor : ∀ id, (t.scope id).cursor ≤ (t.scope id).blocks.length
  frame_iff : ∀ id, (t.scope id).frame.isSome = true ↔ t.isLocal id = true
  frame_lt : ∀ {id : ScopeId} {f : FrameId}, (t.scope id).frame = some f → f.index < t.frames.size
  shared_iff : ∀ {a b : ScopeId}, t.isLocal a = true → ((t.scope a).frame = (t.scope b).frame ↔
      ∃ function, t.InFunction function a ∧ t.InFunction function b)

/-! ## Arranged trees -/

/-- What operations keep of a tree. -/
structure Arranged (t : ScopeTree) : Prop extends t.Grounded where
  root_iff : ∀ {id : ScopeId}, id.index < t.size → ((t.scope id).origin = .root ↔ id = root)
  alone : ∀ {a b parent : ScopeId}, t.parent? a = some parent →
    (t.scope a).origin = (t.scope b).origin → a = b
  listed : ∀ {id outer : ScopeId} {number : Nat}, (t.scope id).origin = .block outer number →
    (t.scope outer).blocks[number]? = some id
  sorted : ∀ id, (t.scope id).blocks.Pairwise (·.index < ·.index)
  framed : ∀ {id parent : ScopeId} {name : String}, (t.scope id).origin = .function parent name →
    t.isLocal id = true ∧ ∃ f, (t.scope id).frame = some f ∧ f.index < t.frames.size
  own_frame : ∀ {a b parent parent' : ScopeId} {name name' : String},
    (t.scope a).origin = .function parent name → (t.scope b).origin = .function parent' name' →
    (t.scope a).frame = (t.scope b).frame → a = b
  global : ∀ {id : ScopeId}, (∀ parent name, (t.scope id).origin ≠ .function parent name) →
    (∀ outer number, (t.scope id).origin ≠ .block outer number) →
    t.isLocal id = false ∧ (t.scope id).frame = none
  name : ∀ id, (t.scope id).name = (t.scope id).origin.name?

theorem lt_of_origin (h : (t.scope id).origin ≠ .root) : id.index < t.size := by
  refine Nat.lt_of_not_le fun hle => h ?_
  rw [scope_of_size_le hle]
  rfl

theorem arranged_new : Arranged {} where
  toGrounded := grounded_new
  root_iff {id} hid := by
    have hzero : id.index = 0 := Nat.lt_one_iff.mp hid
    cases id
    simp only [scope_new, root, ScopeId.mk.injEq, true_iff]
    exact hzero
  alone h := by
    rw [parent?, scope_new] at h
    cases h
  listed h := by
    rw [scope_new] at h
    cases h
  sorted id := by
    rw [scope_new]
    exact .nil
  framed h := by
    rw [scope_new] at h
    cases h
  own_frame h := by
    rw [scope_new] at h
    cases h
  global _ _ := by
    rw [isLocal, scope_new]
    exact ⟨rfl, rfl⟩
  name id := by
    rw [scope_new]
    rfl

namespace Arranged

variable {number : Nat} {parent : ScopeId}

theorem blocks_iff (h : t.Arranged) {block : ScopeId} :
    (t.scope id).blocks[number]? = some block ↔ (t.scope block).origin = .block id number :=
  ⟨fun hblock => h.wellFormed.block_origin hblock, h.listed⟩

theorem find?_iff (h : t.Arranged) {origin : ScopeOrigin} (hparent : origin.parent? = some parent) :
    t.find? origin = some id ↔ (t.scope id).origin = origin := by
  rw [find?_eq_some_iff]
  constructor
  · exact fun hfound => hfound.2.1
  · intro horigin
    have hid : t.parent? id = some parent := by rw [parent?, horigin, hparent]
    refine ⟨lt_of_parent? hid, horigin, fun j hj hsame => ?_⟩
    have hearlier := h.alone hid (horigin.trans hsame.symm)
    rw [hearlier] at hj
    exact lt_irrefl _ hj

theorem isChild_iff (h : t.Arranged) : t.IsChild parent id ↔ t.parent? id = some parent := by
  have hparent : ∀ {origin : ScopeOrigin}, (t.scope id).origin = origin →
      t.parent? id = origin.parent? := fun horigin => by rw [parent?, horigin]
  constructor
  · rintro (⟨name, hfound⟩ | ⟨name, hfound⟩ | hblock)
    · exact hparent (find?_eq_some hfound).2
    · exact hparent (find?_eq_some hfound).2
    · obtain ⟨number, hnumber⟩ := getElem?_of_mem hblock
      exact hparent (h.blocks_iff.mp hnumber)
  · intro hid
    rw [parent?] at hid
    cases horigin : (t.scope id).origin with
    | root =>
      rw [horigin] at hid
      cases hid
    | detached =>
      rw [horigin] at hid
      cases hid
    | member outer name =>
      rw [horigin] at hid
      cases hid
      exact .inl ⟨name, (h.find?_iff rfl).mpr horigin⟩
    | function outer name =>
      rw [horigin] at hid
      cases hid
      exact .inr (.inl ⟨name, (h.find?_iff rfl).mpr horigin⟩)
    | block outer number =>
      rw [horigin] at hid
      cases hid
      exact .inr (.inr (mem_of_getElem? (h.listed horigin)))

theorem parent?_eq_none_iff (h : t.Arranged) (hid : id.index < t.size) :
    t.parent? id = none ↔ id = root ∨ (t.scope id).origin = .detached := by
  rw [← h.root_iff hid, parent?]
  cases (t.scope id).origin <;> simp [ScopeOrigin.parent?]

/-! ### Functions -/

theorem place_of_block (h : t.Arranged) {outer : ScopeId}
    (horigin : (t.scope id).origin = .block outer number) :
    t.isLocal id = t.isLocal outer ∧ (t.scope id).frame = (t.scope outer).frame := by
  have hblock := h.listed horigin
  refine ⟨?_, h.wellFormed.block_frame hblock⟩
  rw [isLocal, Scope.isLocal, h.wellFormed.block_kind hblock]
  rfl

theorem inFunction_or (h : t.Arranged) (id : ScopeId) :
    (∃ function, t.InFunction function id) ∨ t.isLocal id = false ∧ (t.scope id).frame = none := by
  induction hn : id.index using Nat.strongRecOn generalizing id with
  | ind n ih =>
    cases horigin : (t.scope id).origin with
    | function parent name => exact .inl ⟨id, .own horigin⟩
    | block outer number =>
      have hlt : outer.index < n := by
        rw [← hn]
        refine h.ordered ?_
        rw [parent?, horigin]
        rfl
      obtain ⟨hlocal, hframe⟩ := h.place_of_block horigin
      rcases ih outer.index hlt outer rfl with ⟨function, hin⟩ | houter
      · exact .inl ⟨function, .block hin horigin⟩
      · rw [hlocal, hframe]
        exact .inr houter
    | _ => exact .inr (h.global (by simp [horigin]) (by simp [horigin]))

end Arranged

namespace InFunction

variable {function other : ScopeId}

theorem origin (h : t.InFunction function id) :
    ∃ parent name, (t.scope function).origin = .function parent name := by
  induction h with
  | own h => exact ⟨_, _, h⟩
  | block _ _ ih => exact ih

theorem place (h : t.InFunction function id) (ht : t.Arranged) :
    t.isLocal id = true ∧ (t.scope id).frame = (t.scope function).frame := by
  induction h with
  | own h => exact ⟨(ht.framed h).1, rfl⟩
  | block _ h ih =>
    obtain ⟨hlocal, hframe⟩ := ht.place_of_block h
    exact ⟨hlocal.trans ih.1, hframe.trans ih.2⟩

theorem frame (h : t.InFunction function id) (ht : t.Arranged) :
    ∃ f, (t.scope id).frame = some f ∧ f.index < t.frames.size := by
  obtain ⟨parent, name, horigin⟩ := h.origin
  obtain ⟨-, f, hf, hlt⟩ := ht.framed horigin
  exact ⟨f, (h.place ht).2.trans hf, hlt⟩

end InFunction

/-! ## The way up -/

theorem ancestry_chain (t : ScopeTree) (fuel : Nat) (id : ScopeId) :
    (t.ancestry (fuel + 1) id).head? = some id ∧
      (t.ancestry (fuel + 1) id).IsChain (fun child parent => t.parent? child = some parent) := by
  induction fuel generalizing id with
  | zero =>
    rw [ancestry]
    cases t.parent? id <;> exact ⟨rfl, .singleton _⟩
  | succ fuel ih =>
    rw [ancestry]
    cases hparent : t.parent? id with
    | none => exact ⟨rfl, .singleton _⟩
    | some parent =>
      obtain ⟨hhead, hchain⟩ := ih parent
      refine ⟨rfl, isChain_cons.mpr ⟨fun next hnext => ?_, hchain⟩⟩
      rw [hhead] at hnext
      cases hnext
      exact hparent

theorem Ordered.ancestry_getLast? (h : t.Ordered) {fuel : Nat} (hfuel : id.index < fuel)
    {top : ScopeId} (htop : (t.ancestry fuel id).getLast? = some top) : t.parent? top = none := by
  induction fuel generalizing id with
  | zero => exact absurd hfuel (Nat.not_lt_zero _)
  | succ fuel ih =>
    rw [ancestry] at htop
    cases hparent : t.parent? id with
    | none =>
      rw [hparent] at htop
      cases htop
      exact hparent
    | some parent =>
      have hlt : parent.index < fuel := Nat.lt_of_lt_of_le (h hparent) (Nat.le_of_lt_succ hfuel)
      refine ih hlt ?_
      simp only [hparent] at htop
      rw [getLast?_cons] at htop
      cases hlast : (t.ancestry fuel parent).getLast? with
      | some last =>
        rw [hlast] at htop
        exact htop
      | none =>
        -- the way up from the parent has the parent on it
        cases fuel with
        | zero => exact absurd hlt (Nat.not_lt_zero _)
        | succ fuel =>
          have hhead := (t.ancestry_chain fuel parent).1
          rw [getLast?_eq_none_iff.mp hlast] at hhead
          cases hhead

/-! ## Arranged trees are forests -/

theorem Arranged.forest (h : t.Arranged) : t.Forest where
  no_parent hid hroot := by
    have hnone := (h.parent?_eq_none_iff hid).mpr hroot
    refine ⟨hnone, fun parent hchild => ?_⟩
    rw [h.isChild_iff, hnone] at hchild
    cases hchild
  parent {id} hid hroot hdetached := by
    cases hparent : t.parent? id with
    | none => exact absurd ((h.parent?_eq_none_iff hid).mp hparent) (by simp [hroot, hdetached])
    | some parent =>
      refine ⟨parent, rfl, h.isChild_iff.mpr hparent, h.ordered hparent, fun other hother => ?_⟩
      rw [h.isChild_iff, hparent] at hother
      exact (Option.some.inj hother).symm
  lineage id := by
    obtain ⟨hhead, hchain⟩ := t.ancestry_chain id.index id
    exact ⟨hhead, hchain, fun top htop => h.ordered.ancestry_getLast? (Nat.lt_succ_self _) htop⟩
  members ha hb := h.alone (by rw [parent?, ha]; rfl) (ha.trans hb.symm)
  functions ha hb := h.alone (by rw [parent?, ha]; rfl) (ha.trans hb.symm)
  name := h.name
  blocks := h.blocks_iff
  sorted := h.sorted
  cursor := h.cursor_le
  frame_iff id := by
    rcases h.inFunction_or id with ⟨function, hin⟩ | ⟨hlocal, hframe⟩
    · obtain ⟨f, hf, -⟩ := hin.frame h
      simp [hf, (hin.place h).1]
    · simp [hlocal, hframe]
  frame_lt {id f} hf := by
    rcases h.inFunction_or id with ⟨function, hin⟩ | ⟨-, hnone⟩
    · obtain ⟨f', hf', hlt⟩ := hin.frame h
      cases hf.symm.trans hf'
      exact hlt
    · rw [hnone] at hf
      cases hf
  shared_iff {a b} ha := by
    rcases h.inFunction_or a with ⟨function, hin⟩ | ⟨hlocal, -⟩
    · constructor
      · intro hsame
        obtain ⟨f, hf, -⟩ := hin.frame h
        rcases h.inFunction_or b with ⟨other, hin'⟩ | ⟨-, hnone⟩
        · -- both functions have that frame, so they are one
          obtain ⟨parent, name, horigin⟩ := hin.origin
          obtain ⟨parent', name', horigin'⟩ := hin'.origin
          have hframes := (hin.place h).2.symm.trans (hsame.trans (hin'.place h).2)
          have hone := h.own_frame horigin horigin' hframes
          exact ⟨function, hin, hone ▸ hin'⟩
        · rw [hf, hnone] at hsame
          cases hsame
      · rintro ⟨other, hina, hinb⟩
        exact (hina.place h).2.trans (hinb.place h).2.symm
    · rw [hlocal] at ha
      cases ha

/-! ## Operations that add no scope -/

/-- The scopes hang as they did, and no walk went past the last block. -/
structure SameShape (t t' : ScopeTree) : Prop where
  size : t'.size = t.size
  frames : t'.frames.size = t.frames.size
  shape : ∀ id, (t'.scope id).shape = (t.scope id).shape
  cursor : ∀ id, (t.scope id).cursor ≤ (t.scope id).blocks.length →
    (t'.scope id).cursor ≤ (t'.scope id).blocks.length
  name : ∀ id, (t'.scope id).name = (t.scope id).name

namespace SameShape

instance : Std.Refl SameShape := ⟨fun _ => ⟨rfl, rfl, fun _ => rfl, fun _ h => h, fun _ => rfl⟩⟩

instance : IsTrans ScopeTree SameShape where
  trans _ _ _ h h' :=
    { size := h'.size.trans h.size
      frames := h'.frames.trans h.frames
      shape := fun id => (h'.shape id).trans (h.shape id)
      cursor := fun id hle => h'.cursor id (h.cursor id hle)
      name := fun id => (h'.name id).trans (h.name id) }

instance : IsPreorder ScopeTree SameShape where

theorem modifyScope {f : Scope → Scope} (hshape : (f (t.scope id)).shape = (t.scope id).shape)
    (hcursor : (t.scope id).cursor ≤ (t.scope id).blocks.length →
      (f (t.scope id)).cursor ≤ (t.scope id).blocks.length)
    (hname : (f (t.scope id)).name = (t.scope id).name) : t.SameShape (t.modifyScope id f) := by
  have hblocks : (f (t.scope id)).blocks = (t.scope id).blocks := congrArg (·.2.2.2.2) hshape
  refine ⟨t.size_modifyScope id f, rfl, fun other => ?_, fun other hle => ?_, fun other => ?_⟩ <;>
    rw [scope_modifyScope] <;> split
  · rename_i hother
    rw [hother.1, hshape]
  · rfl
  · rename_i hother
    rw [hother.1] at hle
    rw [hblocks]
    exact hcursor hle
  · exact hle
  · rename_i hother
    rw [hother.1, hname]
  · rfl

theorem setFrame (t : ScopeTree) (f : FrameId) (frame : Frame) : t.SameShape (t.setFrame f frame) :=
  ⟨rfl, Array.size_setIfInBounds, fun _ => rfl, fun _ h => h, fun _ => rfl⟩

variable (h : t.SameShape t')

include h

theorem origin (id : ScopeId) : (t'.scope id).origin = (t.scope id).origin :=
  congrArg (·.1) (h.shape id)

theorem isLocal (id : ScopeId) : t'.isLocal id = t.isLocal id :=
  isLocal_eq (Scope.place_eq (h.shape id))

theorem frame (id : ScopeId) : (t'.scope id).frame = (t.scope id).frame :=
  congrArg (·.2.2.2.1) (h.shape id)

theorem blocks (id : ScopeId) : (t'.scope id).blocks = (t.scope id).blocks :=
  congrArg (·.2.2.2.2) (h.shape id)

theorem grounded (ht : t.Grounded) : t'.Grounded where
  size_pos := h.size ▸ ht.size_pos
  root_global := (h.isLocal root).trans ht.root_global
  ordered := ht.ordered.of_origin h.origin
  wellFormed := ht.wellFormed.of_shape h.size h.shape
  cursor_le id := h.cursor id (ht.cursor_le id)

theorem arranged (ht : t.Arranged) : t'.Arranged where
  toGrounded := h.grounded ht.toGrounded
  root_iff {id} hid := by
    rw [h.origin]
    exact ht.root_iff (h.size ▸ hid)
  alone {a b parent} ha hab := by
    rw [parent?, h.origin] at ha
    rw [h.origin, h.origin] at hab
    exact ht.alone ha hab
  listed {id outer number} horigin := by
    rw [h.origin] at horigin
    rw [h.blocks]
    exact ht.listed horigin
  sorted id := by
    rw [h.blocks]
    exact ht.sorted id
  framed {id parent name} horigin := by
    rw [h.origin] at horigin
    rw [h.isLocal, h.frame, h.frames]
    exact ht.framed horigin
  own_frame {a b parent parent' name name'} ha hb hab := by
    rw [h.origin] at ha hb
    rw [h.frame, h.frame] at hab
    exact ht.own_frame ha hb hab
  global {id} hfunction hblock := by
    rw [h.origin] at hfunction hblock
    rw [h.isLocal, h.frame]
    exact ht.global hfunction hblock
  name id := by
    rw [h.name, h.origin]
    exact ht.name id

end SameShape

instance : AdmitsMembers id SameShape where
  bind _ _ := .modifyScope rfl (fun h => h) rfl
  frame _ := .setFrame _ _
  count _ _ := .modifyScope rfl (fun h => h) rfl

theorem sameShape_replacePlaceholder (id : ScopeId) (name : String) (symbol : Symbol) :
    Moves SameShape (replacePlaceholder id name symbol) :=
  .look_bind fun t => by
    split
    · exact refl_of SameShape t
    · exact .modifyScope rfl (fun h => h) rfl
    · exact refl_of SameShape t

/-! ## Operations that add a scope -/

structure Added (new : Scope) (t t' : ScopeTree) : Prop where
  size : t'.size = t.size + 1
  frames : t.frames.size ≤ t'.frames.size
  new_place : (t'.scope ⟨t.size⟩).place = new.place
  new_name : (t'.scope ⟨t.size⟩).name = new.name
  place : ∀ {id : ScopeId}, id ≠ ⟨t.size⟩ → (t'.scope id).place = (t.scope id).place
  name : ∀ {id : ScopeId}, id ≠ ⟨t.size⟩ → (t'.scope id).name = (t.scope id).name
  blocks : ∀ id, (t'.scope id).blocks = (t.scope id).blocks ∨
    (t'.scope id).blocks = (t.scope id).blocks ++ [⟨t.size⟩]

/-- The scope may hang where it says. -/
structure MayHang (t t' : ScopeTree) (new : Scope) : Prop where
  no_root : new.origin ≠ .root
  free : ∀ id, (t.scope id).origin ≠ new.origin ∨ new.origin = .detached
  listed : ∀ {outer : ScopeId} {number : Nat}, new.origin = .block outer number →
    (t'.scope outer).blocks[number]? = some ⟨t.size⟩
  framed : ∀ {parent : ScopeId} {name : String}, new.origin = .function parent name →
    new.kind = .function ∧ new.frame = some ⟨t.frames.size⟩ ∧ t.frames.size < t'.frames.size
  global : (∀ parent name, new.origin ≠ .function parent name) →
    (∀ outer number, new.origin ≠ .block outer number) → new.kind = .global ∧ new.frame = none
  name : new.name = new.origin.name?

namespace Added

variable {new : Scope} (h : t.Added new t')

include h

theorem new_origin : (t'.scope ⟨t.size⟩).origin = new.origin := congrArg (·.1) h.new_place

theorem new_kind : (t'.scope ⟨t.size⟩).kind = new.kind := congrArg (·.2.1) h.new_place

theorem new_frame : (t'.scope ⟨t.size⟩).frame = new.frame := congrArg (·.2.2.2) h.new_place

theorem origin (hid : id ≠ ⟨t.size⟩) : (t'.scope id).origin = (t.scope id).origin :=
  congrArg (·.1) (h.place hid)

theorem frame (hid : id ≠ ⟨t.size⟩) : (t'.scope id).frame = (t.scope id).frame :=
  congrArg (·.2.2.2) (h.place hid)

theorem blocks_grow (id : ScopeId) : (t.scope id).blocks <+: (t'.scope id).blocks := by
  rcases h.blocks id with hsame | hmore
  · exact hsame ▸ prefix_refl _
  · rw [hmore]
    exact prefix_append _ _

theorem frame_ne (ht : t.Arranged) (hplace : t.MayHang t' new) {parent parent' : ScopeId}
    {name name' : String} (hid : id ≠ ⟨t.size⟩)
    (hold : (t'.scope id).origin = .function parent name)
    (hnew : new.origin = .function parent' name') :
    (t'.scope id).frame ≠ (t'.scope ⟨t.size⟩).frame := by
  rw [h.origin hid] at hold
  obtain ⟨-, f, hf, hlt⟩ := ht.framed hold
  rw [h.frame hid, h.new_frame, hf, (hplace.framed hnew).2.1]
  rintro ⟨⟩
  exact lt_irrefl _ hlt

theorem arranged (ht : t.Arranged) (hplace : t.MayHang t' new) (hgrounded : t'.Grounded) :
    t'.Arranged where
  toGrounded := hgrounded
  root_iff {id} hid := by
    by_cases hnew : id = ⟨t.size⟩
    · subst hnew
      rw [h.new_origin]
      refine ⟨fun hroot => absurd hroot hplace.no_root, fun hroot => ?_⟩
      have hzero : t.size = 0 := congrArg ScopeId.index hroot
      exact absurd ht.size_pos (by omega)
    · rw [h.origin hnew]
      have hsize := h.size
      refine ht.root_iff (lt_of_le_of_ne (by omega) fun heq => ?_)
      exact hnew (congrArg ScopeId.mk heq)
  alone {a b parent} ha hab := by
    -- the place of the new scope was free
    have hfree : ∀ {id}, id ≠ ⟨t.size⟩ → (t'.scope id).origin = (t'.scope ⟨t.size⟩).origin →
        ∀ parent, t'.parent? ⟨t.size⟩ ≠ some parent := by
      intro id hid hsame parent hparent
      rw [h.origin hid, h.new_origin] at hsame
      rw [parent?, h.new_origin] at hparent
      rcases hplace.free id with hne | hdetached
      · exact hne hsame
      · rw [hdetached] at hparent
        cases hparent
    by_cases hna : a = ⟨t.size⟩ <;> by_cases hnb : b = ⟨t.size⟩
    · rw [hna, hnb]
    · subst hna
      exact absurd ha (hfree hnb hab.symm parent)
    · subst hnb
      rw [parent?, hab, ← parent?] at ha
      exact absurd ha (hfree hna hab parent)
    · rw [parent?, h.origin hna] at ha
      rw [h.origin hna, h.origin hnb] at hab
      exact ht.alone ha hab
  listed {id outer number} horigin := by
    by_cases hnew : id = ⟨t.size⟩
    · subst hnew
      rw [h.new_origin] at horigin
      exact hplace.listed horigin
    · rw [h.origin hnew] at horigin
      have hlisted := ht.listed horigin
      obtain ⟨more, hmore⟩ := h.blocks_grow outer
      rw [← hmore, List.getElem?_append_left (List.getElem?_eq_some_iff.mp hlisted).1]
      exact hlisted
  sorted id := by
    rcases h.blocks id with hsame | hmore
    · rw [hsame]
      exact ht.sorted id
    · rw [hmore]
      refine pairwise_append.mpr ⟨ht.sorted id, pairwise_singleton _ _, ?_⟩
      intro old hold new hnew
      obtain ⟨number, hnumber⟩ := getElem?_of_mem hold
      rw [mem_singleton.mp hnew]
      exact ht.wellFormed.block_lt hnumber
  framed {id parent name} horigin := by
    by_cases hnew : id = ⟨t.size⟩
    · subst hnew
      rw [h.new_origin] at horigin
      obtain ⟨hkind, hframe, hlt⟩ := hplace.framed horigin
      refine ⟨?_, ⟨t.frames.size⟩, h.new_frame.trans hframe, hlt⟩
      rw [isLocal, Scope.isLocal, h.new_kind, hkind]
      rfl
    · rw [h.origin hnew] at horigin
      obtain ⟨hlocal, f, hframe, hlt⟩ := ht.framed horigin
      exact ⟨(isLocal_eq (h.place hnew)).trans hlocal, f, (h.frame hnew).trans hframe,
        lt_of_lt_of_le hlt h.frames⟩
  own_frame {a b parent parent' name name'} ha hb hab := by
    by_cases hna : a = ⟨t.size⟩ <;> by_cases hnb : b = ⟨t.size⟩
    · rw [hna, hnb]
    · subst hna
      rw [h.new_origin] at ha
      exact absurd hab.symm (h.frame_ne ht hplace hnb hb ha)
    · subst hnb
      rw [h.new_origin] at hb
      exact absurd hab (h.frame_ne ht hplace hna ha hb)
    · rw [h.origin hna] at ha
      rw [h.origin hnb] at hb
      rw [h.frame hna, h.frame hnb] at hab
      exact ht.own_frame ha hb hab
  global {id} hfunction hblock := by
    by_cases hnew : id = ⟨t.size⟩
    · subst hnew
      rw [h.new_origin] at hfunction hblock
      obtain ⟨hkind, hframe⟩ := hplace.global hfunction hblock
      refine ⟨?_, h.new_frame.trans hframe⟩
      rw [isLocal, Scope.isLocal, h.new_kind, hkind]
      rfl
    · rw [h.origin hnew] at hfunction hblock
      obtain ⟨hlocal, hframe⟩ := ht.global hfunction hblock
      exact ⟨(isLocal_eq (h.place hnew)).trans hlocal, (h.frame hnew).trans hframe⟩
  name id := by
    by_cases hnew : id = ⟨t.size⟩
    · subst hnew
      rw [h.new_name, h.new_origin, hplace.name]
    · rw [h.name hnew, h.origin hnew]
      exact ht.name id

end Added

theorem added_push {new : Scope} (hnew : new.blocks = []) {frames : Array Frame}
    (hframes : t.frames.size ≤ frames.size) : t.Added new ({ t with frames }.push new).2 := by
  have hscope : ∀ id, ({ t with frames }.push new).2.scope id =
      if id = ⟨t.size⟩ then new else t.scope id := scope_push { t with frames } new
  refine
    { size := size_push _ _, frames := hframes, new_place := by rw [hscope, if_pos rfl],
      new_name := by rw [hscope, if_pos rfl], place := ?_, name := ?_, blocks := fun id => ?_ }
  · intro id hid
    rw [hscope, if_neg hid]
  · intro id hid
    rw [hscope, if_neg hid]
  · rw [hscope]
    split
    · rename_i hid
      rw [hid, scope_size, hnew]
      exact .inl rfl
    · exact .inl rfl

theorem added_block (hid : id.index < t.size) :
    t.Added ((t.scope id).newBlock id) (t.withBlock id) := by
  have hscope := scope_withBlock hid
  have hne := (ne_size hid).symm
  refine
    { size := size_withBlock t id, frames := le_refl _,
      new_place := by rw [hscope, if_neg hne, if_pos rfl],
      new_name := by rw [hscope, if_neg hne, if_pos rfl],
      place := ?_, name := ?_, blocks := fun other => ?_ }
  · intro other hother
    rw [hscope, if_neg hother]
    split
    · rename_i heq
      rw [heq]
      rfl
    · rfl
  · intro other hother
    rw [hscope, if_neg hother]
    split
    · rename_i heq
      rw [heq]
    · rfl
  · rw [hscope]
    split
    · rename_i heq
      rw [heq]
      exact .inr rfl
    · split
      · rename_i heq
        rw [heq, scope_size]
        exact .inl rfl
      · exact .inl rfl

/-- An arranged tree stays so, and scopes stay in it. -/
def StaysArranged (id : ScopeId) (t t' : ScopeTree) : Prop :=
  t.Arranged → id.index < t.size → t'.Arranged ∧ t.size ≤ t'.size

namespace StaysArranged

instance : IsPreorder ScopeTree (StaysArranged id) where
  refl _ h _ := ⟨h, .refl⟩
  trans _ _ _ h h' ht hid := by
    obtain ⟨ht', hle⟩ := h ht hid
    obtain ⟨ht'', hle'⟩ := h' ht' (Nat.lt_of_lt_of_le hid hle)
    exact ⟨ht'', Nat.le_trans hle hle'⟩

theorem of_sameShape (h : t.SameShape t') : t.StaysArranged id t' := fun ht _ =>
  ⟨h.arranged ht, le_of_eq h.size.symm⟩

theorem of_added {new : Scope} (h : t.Added new t') (hplace : t.Arranged → t.MayHang t' new)
    (hgrounded : t.Grounded → id.index < t.size → t'.Grounded) : t.StaysArranged id t' := by
  intro ht hid
  refine ⟨h.arranged ht (hplace ht) (hgrounded ht.toGrounded hid), ?_⟩
  rw [h.size]
  exact Nat.le_succ _

end StaysArranged

theorem origin_ne_of_free {origin : ScopeOrigin} (h : t.find? origin = none)
    (hroot : origin ≠ .root) (id : ScopeId) : (t.scope id).origin ≠ origin := by
  rintro rfl
  exact origin_ne_of_find? h (lt_of_origin hroot) rfl

theorem arranged_addGlobal (id : ScopeId) (name : String) (type : Option TypeSymbol) :
    Moves (StaysArranged id) (addGlobal id name type) := by
  intro t
  refine related_of_cases (addGlobal_cases id name type t) ?_
  rintro ⟨hnone, hok⟩
  have hwithin := (within_addGlobal id name type).of_ok hok
  rw [leaves_of_ok hok]
  refine .of_added (added_push rfl (le_refl _)) (fun _ => ?_) fun ht hid =>
    ht.steady (hwithin.steady ht.ordered hid)
  exact ⟨nofun, fun other => .inl (origin_ne_of_free hnone nofun other), nofun, nofun,
    fun _ _ => ⟨rfl, rfl⟩, rfl⟩

theorem arranged_getOrAddGlobal (id : ScopeId) (name : String) :
    Moves (StaysArranged id) (getOrAddGlobal id name) :=
  .bind .look fun t => by
    split
    · exact .pure _
    · exact arranged_addGlobal id name none

theorem arranged_addDetached (id : ScopeId) (type : Option TypeSymbol) :
    Moves (StaysArranged id) (addDetached type) := by
  intro t
  refine .of_added (added_push rfl (le_refl _)) (fun _ => ?_) fun ht _ =>
    ht.steady (steady_push rfl rfl)
  exact ⟨nofun, fun _ => .inr rfl, nofun, nofun, fun _ _ => ⟨rfl, rfl⟩, rfl⟩

theorem arranged_addFunction (id : ScopeId) (name : String) :
    Moves (StaysArranged id) (addFunction id name) := by
  intro t
  refine related_of_cases (addFunction_cases id name t) ?_
  rintro ⟨hnone, hok⟩
  have hwithin := (within_addFunction id name).of_ok hok
  have hframes : t.frames.size < (t.frames.push {}).size := by
    rw [Array.size_push]
    exact Nat.lt_succ_self _
  rw [leaves_of_ok hok]
  refine .of_added (added_push rfl (le_of_lt hframes)) (fun _ => ?_) fun ht hid =>
    ht.steady (hwithin.steady ht.ordered hid)
  exact ⟨nofun, fun other => .inl (origin_ne_of_free hnone nofun other), nofun,
    fun _ => ⟨rfl, rfl, hframes⟩, fun hno _ => absurd rfl (hno id name), rfl⟩

/-! ## Blocks -/

theorem Arranged.origin_ne_newBlock (h : t.Arranged) (id other : ScopeId) :
    (t.scope other).origin ≠ .block id (t.scope id).blocks.length := by
  intro horigin
  have hlt := (List.getElem?_eq_some_iff.mp (h.listed horigin)).1
  exact Nat.lt_irrefl _ hlt

theorem arranged_nextBlock (id : ScopeId) : Moves (StaysArranged id) (nextBlock id) := by
  intro t
  refine related_of_cases (nextBlock_cases id t) ?_
  rintro ⟨block, t', hok⟩
  rw [leaves_of_ok hok]
  intro ht hid
  have hgrounded := ht.toGrounded.nextBlock hid hok
  rcases nextBlock_eq_ok.mp hok with ⟨hnext, rfl⟩ | ⟨hend, -, hnew, rfl⟩
  · have hlt := (List.getElem?_eq_some_iff.mp hnext).1
    exact StaysArranged.of_sameShape (.modifyScope rfl (fun _ => hlt) rfl) ht hid
  · -- the new block is the last one of the list
    refine StaysArranged.of_added (added_block hid) (fun ht => ?_) (fun _ _ => hgrounded) ht hid
    refine ⟨nofun, fun other => .inl (ht.origin_ne_newBlock id other), fun horigin => ?_, nofun,
      fun _ hno => absurd rfl (hno id _), rfl⟩
    cases horigin
    obtain ⟨blocks, hwalk, -, hentered, -⟩ := nextBlock_walk hid (ht.cursor_le id) hok
    have hlength : (t.scope id).cursor = (t.scope id).blocks.length :=
      le_antisymm (ht.cursor_le id) (getElem?_eq_none_iff.mp hend)
    rw [hlength, hnew] at hentered
    rw [← hentered]
    exact congrArg (·[(t.scope id).blocks.length]?) (congrArg Prod.fst hwalk)

theorem arranged_rewindBlocks (id : ScopeId) : Moves (StaysArranged id) (rewindBlocks id) := by
  intro t
  refine related_of_cases (rewindBlocks_cases id t) ?_
  rintro ⟨t', hok⟩
  obtain ⟨-, rfl⟩ := rewindBlocks_eq_ok.mp hok
  rw [leaves_of_ok hok]
  exact .of_sameShape (.modifyScope rfl (fun _ => Nat.zero_le _) rfl)

end ScopeTree

/-! ## Scripts -/

instance {Q : ScopeTree → ScopeTree → Prop} [IsPreorder ScopeTree Q] :
    AdmitsSilent (InvImage Q Session.tree) where
  refl s := refl_of Q s.tree
  trans _ _ _ h h' := trans_of Q h h'
  silent {s s'} h := by
    have htree : s'.tree = s.tree := congrArg (·.1) h.standing
    rw [InvImage, htree]
    exact refl_of Q s.tree

namespace TreeCommand

/-- The operations on the tree that a command consists of. -/
inductive Performs (id : ScopeId) : {α : Type} → TreeCommand → TreeM α → Prop where
  | addGlobal {name type found} :
      Performs id (addGlobal name type) (ScopeTree.addGlobal id name found)
  | getOrAddGlobal {name} : Performs id (getOrAddGlobal name) (ScopeTree.getOrAddGlobal id name)
  | addDetached {type found} : Performs id (addDetached type) (ScopeTree.addDetached found)
  | addFunction {name} : Performs id (addFunction name) (ScopeTree.addFunction id name)
  | nextBlock : Performs id nextBlock (ScopeTree.nextBlock id)
  | rewindBlocks : Performs id rewindBlocks (ScopeTree.rewindBlocks id)
  | declare {name symbol found} :
      Performs id (declare name symbol) (ScopeTree.declare id name found)
  | declarePlaceholder {name resolution made} :
      Performs id (declarePlaceholder name resolution) (ScopeTree.declare id name made)
  | replacePlaceholder {name symbol found} :
      Performs id (replacePlaceholder name symbol) (ScopeTree.replacePlaceholder id name found)
  | declareVariable {name type found} :
      Performs id (declareVariable name type) (ScopeTree.declareVariable id name found)
  | declareExisting {name type offset found} :
      Performs id (declareExisting name type offset)
        (ScopeTree.declareExisting id name found offset)
  | allocate {bytes} : Performs id (allocate bytes) (ScopeTree.allocate id bytes)
  | frameOf {bytes} : Performs id (setFrameSize bytes) (ScopeTree.frameOf id)
  | updateFrame {bytes f change} :
      Performs id (setFrameSize bytes) (ScopeTree.updateFrame f change)

theorem moves_run {Q : ScopeTree → ScopeTree → Prop} [IsPreorder ScopeTree Q] (id : ScopeId)
    (command : TreeCommand) (h : ∀ {α : Type} {m : TreeM α}, command.Performs id m → Moves Q m) :
    Moves (InvImage Q Session.tree) (command.run id) := by
  have hon : ∀ {α : Type} {m : TreeM α}, command.Performs id m →
      Moves (InvImage Q Session.tree) (onTree m) := by
    intro α m hm s
    rw [InvImage, leaves_onTree]
    exact h hm s.tree
  have hquietly : ∀ {m : TreeM Unit}, command.Performs id m →
      Moves (InvImage Q Session.tree) (quietly m) := fun hm => .returns (hon hm)
  cases command with
  | addGlobal name type =>
    exact .bind (moves_evalOptional (moves_evalTypeSymbol moves_findNothing) type) fun _ =>
      .returns (hon .addGlobal)
  | getOrAddGlobal name => exact .returns (hon .getOrAddGlobal)
  | addDetached type =>
    exact .bind (moves_evalOptional (moves_evalTypeSymbol moves_findNothing) type) fun _ =>
      .returns (hon .addDetached)
  | addFunction name => exact .returns (hon .addFunction)
  | nextBlock => exact .returns (hon .nextBlock)
  | rewindBlocks => exact hquietly .rewindBlocks
  | declare name symbol =>
    exact .bind (moves_evalSymbol moves_findNothing symbol) fun _ => hquietly .declare
  | declarePlaceholder name resolution =>
    exact .bind (.modifyGet fun s => refl_of Q s.tree) fun _ => hquietly .declarePlaceholder
  | replacePlaceholder name symbol =>
    exact .bind (moves_evalSymbol moves_findNothing symbol) fun _ => hquietly .replacePlaceholder
  | declareVariable name type =>
    exact .bind (moves_evalValueType moves_findNothing type) fun _ => hquietly .declareVariable
  | declareExisting name type offset =>
    exact .bind (moves_evalValueType moves_findNothing type) fun _ => hquietly .declareExisting
  | allocate bytes => exact hquietly .allocate
  | setFrameSize bytes => exact .bind (hon .frameOf) fun _ => hquietly .updateFrame
  | member name =>
    exact .bind .look fun _ => .returns (moves_evalOptional moves_viewSymbol _)
  | _ => exact .returns .look

end TreeCommand

def KeepsArranged (id : ScopeId) (s s' : Session) : Prop := s.tree.StaysArranged id s'.tree

open ScopeTree in
theorem KeepsArranged.run (id : ScopeId) (command : TreeCommand) :
    Moves (KeepsArranged id) (command.run id) := by
  have hshape : ∀ {α : Type} {m : TreeM α}, Moves SameShape m → Moves (StaysArranged id) m :=
    fun h => h.mono fun _ _ => .of_sameShape
  refine command.moves_run id fun h => ?_
  cases h with
  | addGlobal => exact arranged_addGlobal id _ _
  | getOrAddGlobal => exact arranged_getOrAddGlobal id _
  | addDetached => exact arranged_addDetached id _
  | addFunction => exact arranged_addFunction id _
  | nextBlock => exact arranged_nextBlock id
  | rewindBlocks => exact arranged_rewindBlocks id
  | declare => exact hshape (within_declare id _ _)
  | declarePlaceholder => exact hshape (within_declare id _ _)
  | replacePlaceholder => exact hshape (sameShape_replacePlaceholder id _ _)
  | declareVariable => exact hshape (within_declareVariable id _ _)
  | declareExisting => exact hshape (within_declareExisting id _ _ _)
  | allocate => exact hshape (within_allocate id _)
  | frameOf => exact hshape (within_frameOf id)
  | updateFrame => exact hshape fun t => leaves_updateFrame (.setFrame t _) _

theorem leaves_bind_pure {ε σ α β : Type} (m : EStateM ε σ α) (f : α → β) (s : σ) :
    leaves (m >>= fun a => pure (f a)) s = leaves m s := by
  simp only [leaves, bind, EStateM.bind]
  cases m s <;> rfl

/-- Each command is for a scope that is there when it is run. -/
def staysInTree : List (ScopeId × TreeCommand) → Session → Bool
  | [], _ => true
  | (id, command) :: rest, s =>
    decide (id.index < s.tree.size) && staysInTree rest (leaves (command.run id) s)

theorem arranged_runTreeScript {commands : List (ScopeId × TreeCommand)} {s : Session}
    (hs : s.tree.Arranged) (hinside : staysInTree commands s = true) :
    (leaves (runTreeScript commands) s).tree.Arranged := by
  induction commands generalizing s with
  | nil => exact hs
  | cons entry rest ih =>
    obtain ⟨id, command⟩ := entry
    simp only [staysInTree, Bool.and_eq_true, decide_eq_true_eq] at hinside
    have hs1 := (KeepsArranged.run id command s hs hinside.1).1
    rw [runTreeScript]
    cases hrun : attempt (command.run id) s with
    | error fault s1 =>
      -- an overflow ends the script
      rw [leaves_bind_of_error hrun, ← leaves_of_error hrun, leaves_attempt]
      exact hs1
    | ok outcome s1 =>
      have hleft : s1 = leaves (command.run id) s := by rw [← leaves_of_ok hrun, leaves_attempt]
      rw [leaves_bind_of_ok hrun, hleft]
      -- the answers are put together without looking at the session
      have hrest := ih hs1 hinside.2
      rw [← leaves_bind_pure _ fun answers =>
        (outcome, (leaves (command.run id) s).tree.size) :: answers]
        at hrest
      exact hrest

/-- Whatever is done to the scopes of a new tree, and whatever of it fails, the scopes hang together
    as they should. -/
theorem tree_scripts_leave_forest (settings : Settings) (commands : List (ScopeId × TreeCommand))
    (hinside : staysInTree commands { settings } = true) :
    (leaves (runTreeScript commands) { settings }).tree.Forest :=
  (arranged_runTreeScript ScopeTree.arranged_new hinside).forest

def forestScript : List (ScopeId × TreeCommand) :=
  [(⟨0⟩, .addGlobal "N" none), (⟨1⟩, .addFunction "f"), (⟨2⟩, .nextBlock), (⟨3⟩, .nextBlock),
    (⟨1⟩, .addFunction "f"), (⟨1⟩, .addFunction "g"), (⟨0⟩, .addDetached none), (⟨6⟩, .nextBlock),
    (⟨2⟩, .setFrameSize 0), (⟨3⟩, .declareVariable "x" (.sized .qword)), (⟨2⟩, .rewindBlocks),
    (⟨2⟩, .nextBlock), (⟨2⟩, .nextBlock)]

theorem tree_scripts_leave_forest_nested : staysInTree forestScript { settings := {} } = true ∧
    (leaves (runTreeScript forestScript) { settings := {} }).tree.size = 8 ∧
    (leaves (runTreeScript forestScript) { settings := {} }).tree.Forest :=
  ⟨by decide +kernel, by decide +kernel,
    tree_scripts_leave_forest {} forestScript (by decide +kernel)⟩

end StagedAsm
