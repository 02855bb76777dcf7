import Mathlib.Order.Defs.Unbundled
import StagedAsm.ScopeTree.Operations

/-!
# What operations keep of a scope tree

Scopes are only ever added. A scope keeps its members and its place: the blocks in the list of a
scope hang off that scope under their number in the list, and share its frame.
-/

namespace StagedAsm

open Array

/-! ## Tables -/

variable {α : Type}

variable (xs : Array α) (i j : Nat)

theorem getD_push (x default : α) (i : Nat) :
    (xs.push x).getD i default = if i = xs.size then x else xs.getD i default := by
  simp only [getD_eq_getD_getElem?, getElem?_push]
  split <;> simp

theorem modify_modify (f g : α → α) :
    (xs.modify i f).modify i g = xs.modify i fun x => g (f x) := by
  apply ext_getElem?
  intro j
  simp only [getElem?_modify]
  split
  · rw [Option.map_map]
    rfl
  · rfl

theorem modify_self : (xs.modify i fun x => x) = xs := by
  apply ext_getElem?
  intro j
  rw [getElem?_modify]
  split
  · exact Option.map_id'
  · rfl

theorem getD_modify (f : α → α) (default : α) :
    (xs.modify i f).getD j default =
      if j = i ∧ i < xs.size then f (xs.getD i default) else xs.getD j default := by
  simp only [getD_eq_getD_getElem?, getElem?_modify]
  by_cases hij : i = j
  -- A change outside of the table changes nothing, so the entry has to be there.
  · subst hij
    by_cases hlt : i < xs.size <;> simp [hlt]
  · simp [hij, Ne.symm hij]

theorem getD_setIfInBounds (x default : α) :
    (xs.setIfInBounds i x).getD j default =
      if j = i ∧ i < xs.size then x else xs.getD j default := by
  simp only [getD_eq_getD_getElem?, getElem?_setIfInBounds]
  by_cases hij : i = j
  · subst hij
    by_cases hlt : i < xs.size <;> simp [hlt]
  · simp [hij, Ne.symm hij]

/-- Where a scope is. -/
def Scope.place (s : Scope) : ScopeOrigin × ScopeKind × Bool × Option FrameId :=
  (s.origin, s.kind, s.isAnonymous, s.frame)

/-- What a scope has of the tree around it. -/
def Scope.shape (s : Scope) : ScopeOrigin × ScopeKind × Bool × Option FrameId × List ScopeId :=
  (s.origin, s.kind, s.isAnonymous, s.frame, s.blocks)

theorem Scope.place_eq {a b : Scope} (h : a.shape = b.shape) : a.place = b.place := by
  simp only [Scope.shape, Prod.mk.injEq] at h
  simp only [Scope.place, h]

def Scope.newBlock (id : ScopeId) (s : Scope) : Scope :=
  { origin := .block id s.blocks.length, kind := s.kind, isAnonymous := true, frame := s.frame }

namespace ScopeTree

theorem scope_modifyScope (t : ScopeTree) (id other : ScopeId) (f : Scope → Scope) :
    (t.modifyScope id f).scope other =
      if other = id ∧ id.index < t.scopes.size then f (t.scope id) else t.scope other := by
  cases id
  cases other
  simp only [scope, modifyScope, getD_modify, ScopeId.mk.injEq]

theorem scope_modifyScope_self {t : ScopeTree} {id : ScopeId} (h : id.index < t.size)
    (f : Scope → Scope) : (t.modifyScope id f).scope id = f (t.scope id) := by
  rw [scope_modifyScope, if_pos ⟨rfl, h⟩]

theorem scope_modifyScope_of_ne {t : ScopeTree} {id other : ScopeId} (h : other ≠ id)
    (f : Scope → Scope) : (t.modifyScope id f).scope other = t.scope other := by
  rw [scope_modifyScope, if_neg fun heq => h heq.1]

theorem scope_modifyScope_of_lt {t : ScopeTree} {id : ScopeId} (h : id.index < t.size)
    (f : Scope → Scope) (other : ScopeId) :
    (t.modifyScope id f).scope other = if other = id then f (t.scope id) else t.scope other := by
  split
  · rename_i heq
    rw [heq, scope_modifyScope_self h]
  · rename_i hne
    rw [scope_modifyScope_of_ne hne]

theorem modifyScope_modifyScope (t : ScopeTree) (id : ScopeId) (f g : Scope → Scope) :
    (t.modifyScope id f).modifyScope id g = t.modifyScope id fun s => g (f s) := by
  simp only [modifyScope, modify_modify]

theorem modifyScope_self (t : ScopeTree) (id : ScopeId) : (t.modifyScope id fun s => s) = t := by
  rw [modifyScope, modify_self]

theorem setFrame_modifyScope (t : ScopeTree) (id : ScopeId) (f : Scope → Scope) (k : FrameId)
    (frame : Frame) :
    (t.modifyScope id f).setFrame k frame = (t.setFrame k frame).modifyScope id f := rfl

theorem setFrame_setFrame (t : ScopeTree) (k : FrameId) (first second : Frame) :
    (t.setFrame k first).setFrame k second = t.setFrame k second := by
  simp [setFrame]

variable {t t' : ScopeTree} {f : FrameId} {id : ScopeId} {scope : Scope} {name : String}
  {symbol : Symbol}

theorem setFrame_frame (t : ScopeTree) (f : FrameId) : t.setFrame f (t.frame f) = t := by
  by_cases h : f.index < t.frames.size <;> simp [setFrame, frame, Array.setIfInBounds, h]

theorem frame_setFrame (t : ScopeTree) (k other : FrameId) (frame : Frame) :
    (t.setFrame k frame).frame other =
      if other = k ∧ k.index < t.frames.size then frame else t.frame other := by
  cases k
  cases other
  simp only [ScopeTree.frame, setFrame, getD_setIfInBounds, FrameId.mk.injEq]

theorem frame_change (h : f.index < t.frames.size) (frame : Frame) (id : ScopeId)
    (g : Scope → Scope) : ((t.setFrame f frame).modifyScope id g).frame f = frame :=
  (frame_setFrame t f f frame).trans (if_pos ⟨rfl, h⟩)

/-- One frame and one scope were changed. -/
theorem scope_change (h : id.index < t.size) (f : FrameId) (frame : Frame) (g : Scope → Scope)
    (other : ScopeId) :
    ((t.setFrame f frame).modifyScope id g).scope other =
      if other = id then g (t.scope id) else t.scope other :=
  scope_modifyScope_of_lt (t := t.setFrame f frame) h g other

theorem scope_push (t : ScopeTree) (scope : Scope) (id : ScopeId) :
    (t.push scope).2.scope id = if id = ⟨t.size⟩ then scope else t.scope id := by
  cases id
  simp only [ScopeTree.scope, push, size, getD_push, ScopeId.mk.injEq]

theorem ne_size (h : id.index < t.size) : id ≠ ⟨t.size⟩ := by
  rintro rfl
  exact Nat.lt_irrefl _ h

theorem scope_push_of_lt {scope : Scope} (h : id.index < t.size) :
    (t.push scope).2.scope id = t.scope id := by
  rw [scope_push, if_neg (ne_size h)]

def withBlock (t : ScopeTree) (id : ScopeId) : ScopeTree :=
  (t.push ((t.scope id).newBlock id)).2.modifyScope id fun scope =>
    { scope with blocks := scope.blocks ++ [⟨t.size⟩], cursor := scope.cursor + 1 }

@[simp] theorem size_withBlock (t : ScopeTree) (id : ScopeId) :
    (t.withBlock id).size = t.size + 1 := by
  simp [withBlock]

theorem scope_withBlock (h : id.index < t.size) (other : ScopeId) :
    (t.withBlock id).scope other = if other = id then { t.scope id with
        blocks := (t.scope id).blocks ++ [⟨t.size⟩]
        cursor := (t.scope id).cursor + 1 }
      else if other = ⟨t.size⟩ then (t.scope id).newBlock id else t.scope other := by
  have hlt : id.index < (t.push ((t.scope id).newBlock id)).2.size := by
    rw [size_push]
    exact Nat.lt_succ_of_lt h
  rw [withBlock, scope_modifyScope_of_lt hlt, scope_push, if_neg (ne_size h), scope_push]

theorem scope_of_size_le (h : t.size ≤ id.index) : t.scope id = default := by
  simp only [scope, getD_eq_getD_getElem?, getElem?_eq_none h, Option.getD_none]

theorem member?_of_size_le (h : t.scopes.size ≤ id.index) (name : String) :
    t.member? id name = none := by
  rw [member?, scope_of_size_le h]
  rfl

/-! ## Shape -/

/-- Where scopes hang. -/
structure WellFormed (t : ScopeTree) : Prop where
  block_lt : ∀ {id block : ScopeId} {number : Nat}, (t.scope id).blocks[number]? = some block →
    block.index < t.size
  block_origin : ∀ {id block : ScopeId} {number : Nat}, (t.scope id).blocks[number]? = some block →
    (t.scope block).origin = .block id number
  block_kind : ∀ {id block : ScopeId} {number : Nat}, (t.scope id).blocks[number]? = some block →
    (t.scope block).kind = (t.scope id).kind
  block_frame : ∀ {id block : ScopeId} {number : Nat}, (t.scope id).blocks[number]? = some block →
    (t.scope block).frame = (t.scope id).frame
  function_named : ∀ {id parent : ScopeId} {name : String},
    (t.scope id).origin = .function parent name →
    (t.scope id).isAnonymous = false

/-- The block hangs off the scope, under its number. -/
def IsBlock (t : ScopeTree) (id : ScopeId) (number : Nat) (block : ScopeId) : Prop :=
  block.index < t.size ∧ (t.scope block).origin = .block id number ∧
    (t.scope block).kind = (t.scope id).kind ∧ (t.scope block).frame = (t.scope id).frame

theorem scope_new (id : ScopeId) : ({} : ScopeTree).scope id = { origin := .root } := by
  by_cases hid : id.index < 1
  · have hzero : id.index = 0 := by omega
    simp [scope, hzero]
  · exact scope_of_size_le (Nat.le_of_not_lt hid)

theorem wellFormed_new : WellFormed {} := by
  constructor <;> intro id <;> simp [scope_new]

namespace WellFormed

variable {t t' : ScopeTree}

theorem isBlock (h : t.WellFormed) {id block : ScopeId} {number : Nat}
    (hblock : (t.scope id).blocks[number]? = some block) : t.IsBlock id number block :=
  ⟨h.block_lt hblock, h.block_origin hblock, h.block_kind hblock, h.block_frame hblock⟩

theorem of_isBlock (hblocks : ∀ {id block : ScopeId} {number : Nat},
      (t.scope id).blocks[number]? = some block → t.IsBlock id number block)
    (hnamed : ∀ {id parent : ScopeId} {name : String}, (t.scope id).origin = .function parent name →
      (t.scope id).isAnonymous = false) : t.WellFormed :=
  ⟨fun h => (hblocks h).1, fun h => (hblocks h).2.1, fun h => (hblocks h).2.2.1,
    fun h => (hblocks h).2.2.2, hnamed⟩

theorem of_shape (h : t.WellFormed) (hsize : t'.size = t.size)
    (hshape : ∀ id, (t'.scope id).shape = (t.scope id).shape) : t'.WellFormed := by
  simp only [Scope.shape, Prod.mk.injEq] at hshape
  refine .of_isBlock (fun {id block number} hblock => ?_) fun {id parent name} horigin => ?_
  · rw [(hshape id).2.2.2.2] at hblock
    simpa only [IsBlock, hsize, hshape] using h.isBlock hblock
  · rw [(hshape id).1] at horigin
    rw [(hshape id).2.2.1]
    exact h.function_named horigin

theorem visited (h : t.WellFormed) (visit : Visit) : (t.visited visit).WellFormed :=
  h.of_shape rfl fun _ => rfl

variable {id : ScopeId} {f : Scope → Scope}

theorem modifyScope (h : t.WellFormed) (hf : (f (t.scope id)).shape = (t.scope id).shape) :
    (t.modifyScope id f).WellFormed := by
  refine h.of_shape (t.size_modifyScope id f) fun other => ?_
  rw [scope_modifyScope]
  split
  · rename_i hother
    rw [hother.1, hf]
  · rfl

theorem push (h : t.WellFormed) {scope : Scope} (hblocks : scope.blocks = [])
    (hnamed : ∀ parent name, scope.origin = .function parent name → scope.isAnonymous = false) :
    (t.push scope).2.WellFormed := by
  refine .of_isBlock (fun {id block number} hblock => ?_) fun {id parent name} horigin => ?_
  · -- no list has the new scope in it, and its own list is empty
    rw [scope_push] at hblock
    split at hblock
    · simp [hblocks] at hblock
    · rename_i hid
      have hold := h.isBlock hblock
      simpa only [IsBlock, size_push, scope_push, if_neg (ne_size hold.1), if_neg hid] using
        ⟨Nat.lt_succ_of_lt hold.1, hold.2⟩
  · rw [scope_push] at horigin ⊢
    split at horigin
    · rename_i hid
      rw [if_pos hid]
      exact hnamed parent name horigin
    · rename_i hid
      rw [if_neg hid]
      exact h.function_named horigin

/-- A scope gets another block, which has to hang there already. -/
theorem appendBlock (h : t.WellFormed) {block : ScopeId}
    (hblock : t.IsBlock id (t.scope id).blocks.length block)
    (hplace : (f (t.scope id)).place = (t.scope id).place)
    (hf : (f (t.scope id)).blocks = (t.scope id).blocks ++ [block]) :
    (t.modifyScope id f).WellFormed := by
  have hsame : ∀ other, ((t.modifyScope id f).scope other).place = (t.scope other).place := by
    intro other
    rw [scope_modifyScope]
    split
    · rename_i hother
      rw [hother.1, hplace]
    · rfl
  simp only [Scope.place, Prod.mk.injEq] at hsame
  refine .of_isBlock (fun {other found number} hfound => ?_) fun {other parent name} hfunction => ?_
  · have hold : t.IsBlock other number found := by
      rw [scope_modifyScope] at hfound
      split at hfound
      · rename_i hother
        rw [hf, List.getElem?_append] at hfound
        rw [hother.1]
        split at hfound
        · exact h.isBlock hfound
        · rename_i hlen
          rw [List.getElem?_singleton] at hfound
          split at hfound
          · rename_i hnumber
            cases hfound
            rwa [show number = (t.scope id).blocks.length by omega]
          · cases hfound
      · exact h.isBlock hfound
    simpa only [IsBlock, size_modifyScope, hsame] using hold
  · rw [(hsame other).1] at hfunction
    rw [(hsame other).2.2.1]
    exact h.function_named hfunction

end WellFormed

/-! ## Bindings -/

/-- Names stay bound to what they are bound to, and scopes stay where they are. -/
structure Keeps (t t' : ScopeTree) : Prop where
  members : ∀ id name symbol, t.member? id name = some symbol → t'.member? id name = some symbol
  size : t.size ≤ t'.size
  place : ∀ id, id.index < t.size → (t'.scope id).place = (t.scope id).place
  wellFormed : t.WellFormed → t'.WellFormed

instance : Std.Refl Keeps :=
  ⟨fun _ => ⟨fun _ _ _ h => h, Nat.le_refl _, fun _ _ => rfl, fun h => h⟩⟩

instance : IsTrans ScopeTree Keeps := ⟨fun _ _ _ h h' =>
  { members := fun id name symbol hs => h'.members id name symbol (h.members id name symbol hs)
    size := Nat.le_trans h.size h'.size
    place := fun id hid =>
      (h'.place id (Nat.lt_of_lt_of_le hid h.size)).trans (h.place id hid)
    wellFormed := fun hwf => h'.wellFormed (h.wellFormed hwf) }⟩

theorem keeps_visited (t : ScopeTree) (visit : Visit) : t.Keeps (t.visited visit) :=
  ⟨fun _ _ _ h => h, .refl, fun _ _ => rfl, fun hwf => hwf.visited visit⟩

theorem Keeps.visited (h : t.Keeps t') (visit : Visit) :
    t.Keeps (t'.visited visit) := trans_of Keeps h (t'.keeps_visited visit)

theorem keeps_modifyScope {f : Scope → Scope}
    (h : ∀ name symbol, (t.scope id).members.get? name = some symbol →
      (f (t.scope id)).members.get? name = some symbol)
    (hshape : (f (t.scope id)).shape = (t.scope id).shape) : t.Keeps (t.modifyScope id f) := by
  refine ⟨fun other name symbol hs => ?_, Nat.le_of_eq (t.size_modifyScope id f).symm,
    fun other _ => ?_, fun hwf => hwf.modifyScope hshape⟩
  · rw [member?, scope_modifyScope]
    split
    · rename_i hother
      rw [hother.1] at hs
      exact h name symbol hs
    · exact hs
  · rw [scope_modifyScope]
    split
    · rename_i hother
      rw [hother.1, Scope.place_eq hshape]
    · rfl

theorem member?_push (hs : t.member? id name = some symbol) :
    (t.push scope).2.member? id name = some symbol := by
  rw [member?, scope_push]
  split
  -- A scope that is not there binds no name.
  · rename_i hid
    have hnone : t.member? ⟨t.size⟩ name = none := member?_of_size_le .refl name
    rw [hid, hnone] at hs
    cases hs
  · exact hs

theorem keeps_push (t : ScopeTree) (hblocks : scope.blocks = [])
    (hnamed : ∀ parent name, scope.origin = .function parent name → scope.isAnonymous = false) :
    t.Keeps (t.push scope).2 := by
  refine ⟨fun _ _ _ hs => member?_push hs, ?_, fun id hid => ?_, fun hwf => hwf.push hblocks hnamed⟩
  · rw [size_push]
    exact Nat.le_succ _
  · rw [scope_push_of_lt hid]

theorem keeps_setFrame (t : ScopeTree) (id : FrameId) (frame : Frame) :
    t.Keeps (t.setFrame id frame) :=
  ⟨fun _ _ _ hs => hs, .refl, fun _ _ => rfl, fun hwf => hwf.of_shape rfl fun _ => rfl⟩

theorem Keeps.origin (h : t.Keeps t') (hid : id.index < t.size) :
    (t'.scope id).origin = (t.scope id).origin := by
  have hplace := h.place id hid
  simp only [Scope.place, Prod.mk.injEq] at hplace
  exact hplace.1

theorem Keeps.frame_eq (h : t.Keeps t') (hid : id.index < t.size) :
    (t'.scope id).frame = (t.scope id).frame := by
  have hplace := h.place id hid
  simp only [Scope.place, Prod.mk.injEq] at hplace
  exact hplace.2.2.2

theorem Keeps.frame (h : t.Keeps t') (hf : (t.scope id).frame = some f) :
    (t'.scope id).frame = some f := by
  by_cases hid : id.index < t.size
  · rw [h.frame_eq hid, hf]
  · rw [scope_of_size_le (Nat.le_of_not_lt hid)] at hf
    cases hf

theorem member?_declare (h : id.index < t.scopes.size) :
    (t.modifyScope id fun s => { s with members := s.members.set name symbol }).member? id name =
      some symbol := by
  simp [member?, scope_modifyScope, h]

/-! ## Finding scopes -/

section Finding

variable {t t' : ScopeTree} {id : ScopeId} {origin : ScopeOrigin}

theorem find?_eq_some_iff : t.find? origin = some id ↔ id.index < t.size ∧
    (t.scope id).origin = origin ∧ ∀ j, j < id.index → (t.scope ⟨j⟩).origin ≠ origin := by
  have hscope : ∀ (i : Nat) (h : i < t.scopes.size), t.scope ⟨i⟩ = t.scopes[i] := by
    intro i h
    simp [scope, h]
  constructor
  · intro h
    obtain ⟨i, hi, rfl⟩ := Option.map_eq_some_iff.mp h
    obtain ⟨hlt, horigin, hfirst⟩ := findIdx?_eq_some_iff_getElem.mp hi
    refine ⟨hlt, by simpa [hscope i hlt] using horigin, fun j hj => ?_⟩
    rw [hscope j (Nat.lt_trans hj hlt)]
    simpa using hfirst j hj
  · rintro ⟨hlt, horigin, hfirst⟩
    refine Option.map_eq_some_iff.mpr ⟨id.index, ?_, rfl⟩
    refine findIdx?_eq_some_iff_getElem.mpr ⟨hlt, ?_, fun j hj => ?_⟩
    · rw [← hscope id.index hlt]
      simpa using horigin
    · rw [← hscope j (Nat.lt_trans hj hlt)]
      simpa using hfirst j hj

theorem find?_eq_some (h : t.find? origin = some id) :
    id.index < t.size ∧ (t.scope id).origin = origin :=
  ⟨(find?_eq_some_iff.mp h).1, (find?_eq_some_iff.mp h).2.1⟩

theorem find?_mono (hsize : t.size ≤ t'.size)
    (hplace : ∀ {id : ScopeId}, id.index < t.size → (t'.scope id).origin = (t.scope id).origin)
    (hfound : t.find? origin = some id) : t'.find? origin = some id := by
  obtain ⟨hlt, horigin, hfirst⟩ := find?_eq_some_iff.mp hfound
  refine find?_eq_some_iff.mpr ⟨Nat.lt_of_lt_of_le hlt hsize, ?_, fun j hj => ?_⟩
  · rw [hplace hlt, horigin]
  · rw [hplace (Nat.lt_trans hj hlt)]
    exact hfirst j hj

theorem Keeps.find? (h : t.Keeps t') (hfound : t.find? origin = some id) :
    t'.find? origin = some id :=
  find?_mono h.size h.origin hfound

theorem find?_congr (hsize : t'.size = t.size)
    (h : ∀ id, (t'.scope id).origin = (t.scope id).origin) (origin : ScopeOrigin) :
    t'.find? origin = t.find? origin := by
  apply Option.ext
  intro id
  simp only [find?_eq_some_iff, hsize, h]

theorem find?_push_of_some (h : t.find? origin = some id) (scope : Scope) :
    (t.push scope).2.find? origin = some id := by
  obtain ⟨hlt, horigin, hfirst⟩ := find?_eq_some_iff.mp h
  refine find?_eq_some_iff.mpr ⟨by rw [size_push]; omega, ?_, fun j hj => ?_⟩
  · rw [scope_push_of_lt hlt]
    exact horigin
  · rw [scope_push_of_lt]
    · exact hfirst j hj
    · exact Nat.lt_trans hj hlt

variable {scope : Scope}

theorem origin_ne_of_find? (h : t.find? origin = none) (hlt : id.index < t.size) :
    (t.scope id).origin ≠ origin := by
  have hlt' : id.index < t.scopes.size := hlt
  have hnone := Option.map_eq_none_iff.mp h
  have hall := findIdx?_eq_none_iff.mp hnone t.scopes[id.index] (getElem_mem hlt')
  simpa [ScopeTree.scope, hlt'] using hall

theorem find?_push_of_none (h : t.find? scope.origin = none) :
    (t.push scope).2.find? scope.origin = some ⟨t.size⟩ := by
  refine find?_eq_some_iff.mpr ⟨by rw [size_push]; exact Nat.lt_succ_self _, ?_, fun j hj => ?_⟩
  · rw [scope_push, if_pos rfl]
  · rw [scope_push_of_lt]
    · exact origin_ne_of_find? h hj
    · exact hj

theorem find?_push_cases (h : (t.push scope).2.find? origin = some id) :
    origin = scope.origin ∨ t.find? origin = some id := by
  obtain ⟨hlt, horigin, hfirst⟩ := find?_eq_some_iff.mp h
  rw [scope_push] at horigin
  split at horigin
  · exact .inl horigin.symm
  · rename_i hid
    have hlt' : id.index < t.size := by
      rw [size_push] at hlt
      refine Nat.lt_of_le_of_ne (Nat.le_of_lt_succ hlt) fun heq => hid ?_
      exact congrArg ScopeId.mk heq
    refine .inr (find?_eq_some_iff.mpr ⟨hlt', horigin, fun j hj => ?_⟩)
    have hj' := hfirst j hj
    rwa [scope_push_of_lt] at hj'
    exact Nat.lt_trans hj hlt'

end Finding

end ScopeTree

end StagedAsm
