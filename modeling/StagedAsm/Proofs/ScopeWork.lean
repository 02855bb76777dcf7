import StagedAsm.Proofs.Moves
import StagedAsm.Proofs.ScopeTrees

/-!
# Work in one scope

Most operations on the scope tree are about one scope: they change what that scope holds, or its
frame, and add scopes below it. `Within` says so, and that the other scopes, the blocks of every
scope and the trail are left alone. Only `nextBlock` and `rewindBlocks` walk blocks.
-/

namespace StagedAsm

variable {α : Type}

/-- The blocks of a scope, and how far they were walked. -/
def Scope.walk (s : Scope) : List ScopeId × Nat × Bool := (s.blocks, s.cursor, s.canGrow)

namespace ScopeTree

/-- A scope is made after the one it hangs off. -/
def Ordered (t : ScopeTree) : Prop :=
  ∀ ⦃id parent : ScopeId⦄, t.parent? id = some parent → parent.index < id.index

variable {t t' : ScopeTree} {id parent : ScopeId} {name : String} {f : FrameId}

theorem parent?_of_size_le (h : t.size ≤ id.index) : t.parent? id = none := by
  rw [parent?, scope_of_size_le h]
  rfl

theorem lt_of_parent? (h : t.parent? id = some parent) : id.index < t.size := by
  refine Nat.lt_of_not_le fun hle => ?_
  rw [parent?_of_size_le hle] at h
  cases h

theorem ordered_new : Ordered {} := by
  intro id parent hparent
  simp [parent?, scope_new, ScopeOrigin.parent?] at hparent

namespace Ordered

variable {t t' : ScopeTree}

theorem of_origin (h : t.Ordered)
    (horigin : ∀ id, (t'.scope id).origin = (t.scope id).origin) : t'.Ordered := by
  intro id parent hparent
  rw [parent?, horigin] at hparent
  exact h hparent

theorem modifyScope (h : t.Ordered) {f : Scope → Scope}
    (hf : (f (t.scope id)).origin = (t.scope id).origin) : (t.modifyScope id f).Ordered := by
  refine h.of_origin fun other => ?_
  rw [scope_modifyScope]
  split
  · rename_i hother
    rw [hother.1, hf]
  · rfl

theorem push (h : t.Ordered) {scope : Scope}
    (hparent : ∀ parent, scope.origin.parent? = some parent → parent.index < t.size) :
    (t.push scope).2.Ordered := by
  intro id parent hid
  rw [parent?, scope_push] at hid
  split at hid
  · rename_i hnew
    rw [hnew]
    exact hparent parent hid
  · exact h hid

theorem lt_of_subScope? (h : t.Ordered) {sub : ScopeId}
    (hfound : t.subScope? parent name = some sub) : parent.index < sub.index := by
  refine h ?_
  rw [parent?, (find?_eq_some hfound).2]
  rfl

end Ordered

/-! ## Scopes below others -/

/-- A scope is another one, or hangs off it with any number of scopes in between. -/
inductive Under (t : ScopeTree) (top : ScopeId) : ScopeId → Prop where
  | here : Under t top top
  | child {id parent : ScopeId} (h : t.parent? id = some parent) (hparent : Under t top parent) :
      Under t top id

namespace Under

variable {t t' : ScopeTree} {top id : ScopeId}

theorem lt (h : t.Under top id) (htop : top.index < t.size) : id.index < t.size := by
  cases h with
  | here => exact htop
  | child h _ => exact lt_of_parent? h

theorem keeps (h : t.Under top id) (hkeeps : t.Keeps t') : t'.Under top id := by
  induction h with
  | here => exact .here
  | child h _ ih =>
    refine .child ?_ ih
    rw [parent?, hkeeps.origin (lt_of_parent? h)]
    exact h

theorem subScope? {sub : ScopeId} (h : t.Under top id) (hfound : t.subScope? id name = some sub) :
    t.Under top sub := by
  refine .child ?_ h
  rw [parent?, (find?_eq_some hfound).2]
  rfl

end Under

/-! ## What is left alone -/

/-- What work in one scope does to a tree. -/
structure Within (id : ScopeId) (t t' : ScopeTree) : Prop extends Keeps t t' where
  trail : t'.trail = t.trail
  others : ∀ {other : ScopeId}, other.index < t.size → other ≠ id → t'.scope other = t.scope other
  walk : ∀ {other : ScopeId}, other.index < t.size → (t'.scope other).walk = (t.scope other).walk
  /-- A new scope has no blocks yet. -/
  unwalked : ∀ {other : ScopeId}, t.size ≤ other.index → (t'.scope other).walk = ([], 0, true)
  frames_size : t.frames.size ≤ t'.frames.size
  frames : ∀ {f : FrameId}, f.index < t.frames.size → (t.scope id).frame ≠ some f →
    t'.frame f = t.frame f
  new_frame : ∀ {other : ScopeId} {f : FrameId}, t.size ≤ other.index →
    (t'.scope other).frame = some f → t.frames.size ≤ f.index
  below : t.Ordered → id.index < t.size → t'.Ordered ∧ ∀ {other : ScopeId}, t.size ≤ other.index →
    other.index < t'.size → ∃ parent, t'.parent? other = some parent ∧ t'.Under id parent

namespace Within

variable {id : ScopeId} {t t' : ScopeTree}

theorem size_le (h : t.Within id t') : t.size ≤ t'.size := h.toKeeps.size

theorem refl (id : ScopeId) (t : ScopeTree) : t.Within id t where
  toKeeps := refl_of Keeps t
  trail := rfl
  others _ _ := rfl
  walk _ := rfl
  unwalked hle := by
    rw [scope_of_size_le hle]
    rfl
  frames_size := .refl
  frames _ _ := rfl
  new_frame hle hf := by
    rw [scope_of_size_le hle] at hf
    cases hf
  below hordered _ := ⟨hordered, fun hle hlt => absurd hlt (Nat.not_lt_of_le hle)⟩

instance : Std.Refl (Within id) := ⟨refl id⟩

instance : IsTrans ScopeTree (Within id) where
  trans a b c h h' :=
    { toKeeps := trans_of Keeps h.toKeeps h'.toKeeps
      trail := h'.trail.trans h.trail
      others := fun hlt hne =>
        (h'.others (Nat.lt_of_lt_of_le hlt h.size_le) hne).trans (h.others hlt hne)
      walk := fun hlt => (h'.walk (Nat.lt_of_lt_of_le hlt h.size_le)).trans (h.walk hlt)
      unwalked := by
        intro other hle
        by_cases hlt : other.index < b.size
        · rw [h'.walk hlt, h.unwalked hle]
        · exact h'.unwalked (Nat.le_of_not_lt hlt)
      frames_size := Nat.le_trans h.frames_size h'.frames_size
      frames := by
        intro f hf hne
        -- The scope worked in is old and keeps its frame, or its frame is new.
        have hne' : (b.scope id).frame ≠ some f := by
          by_cases hid : id.index < a.size
          · rwa [h.toKeeps.frame_eq hid]
          · intro hnew
            have := h.new_frame (Nat.le_of_not_lt hid) hnew
            omega
        rw [h'.frames (Nat.lt_of_lt_of_le hf h.frames_size) hne', h.frames hf hne]
      new_frame := by
        intro other f hle hf
        by_cases hlt : other.index < b.size
        · rw [h'.toKeeps.frame_eq hlt] at hf
          exact h.new_frame hle hf
        · exact Nat.le_trans h.frames_size (h'.new_frame (Nat.le_of_not_lt hlt) hf)
      below := by
        intro hordered hid
        obtain ⟨hb, hbelow⟩ := h.below hordered hid
        obtain ⟨hc, hbelow'⟩ := h'.below hb (Nat.lt_of_lt_of_le hid h.size_le)
        refine ⟨hc, fun {other} hle hlt => ?_⟩
        by_cases hold : other.index < b.size
        · obtain ⟨parent, hparent, hunder⟩ := hbelow hle hold
          refine ⟨parent, ?_, hunder.keeps h'.toKeeps⟩
          rw [parent?, h'.toKeeps.origin hold]
          exact hparent
        · exact hbelow' (Nat.le_of_not_lt hold) hlt }

theorem modifyScope {f : Scope → Scope}
    (hmembers : ∀ name symbol, (t.scope id).members.get? name = some symbol →
      (f (t.scope id)).members.get? name = some symbol)
    (hshape : (f (t.scope id)).shape = (t.scope id).shape)
    (hwalk : (f (t.scope id)).walk = (t.scope id).walk) : t.Within id (t.modifyScope id f) := by
  have hkeeps := keeps_modifyScope hmembers hshape
  have hsize := t.size_modifyScope id f
  have hscope : ∀ {other : ScopeId}, t.size ≤ other.index →
      (t.modifyScope id f).scope other = default := by
    intro other hle
    exact scope_of_size_le (hsize.symm ▸ hle)
  exact
    { toKeeps := hkeeps
      trail := rfl
      others := fun _ hne => by
        rw [scope_modifyScope, if_neg fun h => hne h.1]
      walk := by
        intro other _
        rw [scope_modifyScope]
        split
        · rename_i hother
          rw [hother.1, hwalk]
        · rfl
      unwalked := fun hle => by
        rw [hscope hle]
        rfl
      frames_size := .refl
      frames := fun _ _ => rfl
      new_frame := fun hle hf => by
        rw [hscope hle] at hf
        cases hf
      below := by
        intro hordered _
        refine ⟨hordered.modifyScope (congrArg Prod.fst hshape), fun hle hlt => ?_⟩
        rw [hsize] at hlt
        omega }

theorem setFrame (h : (t.scope id).frame = some f) (frame : Frame) :
    t.Within id (t.setFrame f frame) where
  toKeeps := t.keeps_setFrame f frame
  trail := rfl
  others _ _ := rfl
  walk _ := rfl
  unwalked hle := by
    rw [scope_setFrame, scope_of_size_le hle]
    rfl
  frames_size := by simp [ScopeTree.setFrame]
  frames _ hne := by
    rw [frame_setFrame, if_neg]
    rintro ⟨rfl, -⟩
    exact hne h
  new_frame hle hf := by
    rw [scope_setFrame, scope_of_size_le hle] at hf
    cases hf
  below hordered _ :=
    ⟨hordered.of_origin fun _ => rfl, fun hle hlt => absurd hlt (Nat.not_lt_of_le hle)⟩

theorem push {scope : Scope} {frames : Array Frame} (hsize : t.frames.size ≤ frames.size)
    (hframes : ∀ f : FrameId, f.index < t.frames.size → frames.getD f.index default = t.frame f)
    (hwalk : scope.walk = ([], 0, true))
    (hframe : ∀ f, scope.frame = some f → t.frames.size ≤ f.index)
    (hnamed : ∀ parent name, scope.origin = .function parent name → scope.isAnonymous = false)
    (hparent : scope.origin.parent? = some parent) (hunder : t.Under id parent) :
    t.Within id ({ t with frames }.push scope).2 := by
  have hkeeps : t.Keeps { t with frames } :=
    ⟨fun _ _ _ h => h, .refl, fun _ _ => rfl, fun hwf => hwf.of_shape rfl fun _ => rfl⟩
  have hscope : ∀ other, ({ t with frames }.push scope).2.scope other =
      if other = ⟨t.size⟩ then scope else t.scope other := scope_push { t with frames } scope
  have hold : ∀ {other : ScopeId}, other.index < t.size →
      ({ t with frames }.push scope).2.scope other = t.scope other :=
    scope_push_of_lt (t := { t with frames })
  have hnew : ∀ {other : ScopeId}, t.size ≤ other.index →
      ({ t with frames }.push scope).2.scope other = scope ∨
        ({ t with frames }.push scope).2.scope other = default := by
    intro other hle
    rw [hscope]
    split
    · exact .inl rfl
    · exact .inr (scope_of_size_le hle)
  have hpush : t.Keeps ({ t with frames }.push scope).2 :=
    trans_of Keeps hkeeps (keeps_push _ (congrArg Prod.fst hwalk) hnamed)
  exact
    { toKeeps := hpush
      trail := rfl
      others := fun hlt _ => hold hlt
      walk := fun hlt => by rw [hold hlt]
      unwalked := fun hle => by
        rcases hnew hle with h | h
        · rw [h, hwalk]
        · rw [h]
          rfl
      frames_size := hsize
      frames := fun hlt _ => hframes _ hlt
      new_frame := fun hle hf => by
        rcases hnew hle with h | h
        · rw [h] at hf
          exact hframe _ hf
        · rw [h] at hf
          cases hf
      below := by
        intro hordered hid
        have hordered' : ({ t with frames } : ScopeTree).Ordered :=
          hordered.of_origin fun _ => rfl
        refine ⟨hordered'.push fun other hother => ?_, fun {other} hother hother' => ?_⟩
        · rw [hparent] at hother
          cases hother
          exact hunder.lt hid
        -- There is one new scope, the one that was added.
        · have hsizes : ({ t with frames }.push scope).2.size = t.size + 1 := size_push _ _
          have hindex : other = ⟨t.size⟩ := by
            rw [hsizes] at hother'
            cases other
            exact congrArg ScopeId.mk (Nat.le_antisymm (Nat.le_of_lt_succ hother') hother)
          refine ⟨parent, ?_, hunder.keeps hpush⟩
          rw [parent?, hscope, if_pos hindex, hparent] }

end Within

/-! ## Global scopes and functions -/

theorem moves_check {R : ScopeTree → ScopeTree → Prop} [Std.Refl R] {c : Prop} [Decidable c]
    {fault : Fault} {k : PUnit → TreeM α} (hk : Moves R (k ⟨⟩)) :
    Moves R (if c then throw fault >>= k else k ⟨⟩) :=
  .ite (fun t => refl_of R t) hk

theorem addGlobal_cases (parent : ScopeId) (name : String) (type : Option TypeSymbol)
    (t : ScopeTree) : (∃ fault, addGlobal parent name type t = .error fault t) ∨
      (t.find? (.member parent name) = none ∧ addGlobal parent name type t = .ok ⟨t.size⟩ (t.push
          { origin := .member parent name, name := some name, associatedType := type }).2) := by
  have hlook : (get : TreeM ScopeTree) t = .ok t t := rfl
  simp only [addGlobal, bind, EStateM.bind, hlook]
  split
  · exact .inl ⟨_, rfl⟩
  · rename_i hfree
    exact .inr ⟨by simpa [subScope?] using hfree, rfl⟩

theorem addFunction_cases (parent : ScopeId) (name : String) (t : ScopeTree) :
    (∃ fault, addFunction parent name t = .error fault t) ∨
      (t.find? (.function parent name) = none ∧ addFunction parent name t =
        .ok ⟨t.size⟩ ({ t with frames := t.frames.push {} }.push
          { origin := .function parent name, kind := .function, name := some name,
            frame := some ⟨t.frames.size⟩ }).2) := by
  have hlook : (get : TreeM ScopeTree) t = .ok t t := rfl
  simp only [addFunction, bind, EStateM.bind, hlook]
  split
  · exact .inl ⟨_, rfl⟩
  · split
    · exact .inl ⟨_, rfl⟩
    · rename_i hfree
      exact .inr ⟨by simpa [functionScope?] using hfree, rfl⟩

theorem within_addGlobal_of (name : String) (type : Option TypeSymbol)
    (hunder : t.Under id parent) : t.Within id (leaves (addGlobal parent name type) t) := by
  refine related_of_cases (addGlobal_cases parent name type t) ?_
  rintro ⟨-, hok⟩
  rw [leaves_of_ok hok]
  exact Within.push .refl (fun _ _ => rfl) rfl nofun nofun rfl hunder

theorem within_addGlobal (id : ScopeId) (name : String) (type : Option TypeSymbol) :
    Moves (Within id) (addGlobal id name type) :=
  fun _ => within_addGlobal_of name type .here

theorem within_getOrAddGlobal_of (name : String) (hunder : t.Under id parent) :
    t.Within id (leaves (getOrAddGlobal parent name) t) := by
  refine Moves.leaves_bind (refl_of (Within id) t) fun _ _ hget => ?_
  cases hget
  split
  · exact refl_of (Within id) t
  · exact within_addGlobal_of name none hunder

theorem getOrAddGlobal_eq_ok {sub : ScopeId} (h : getOrAddGlobal parent name t = .ok sub t') :
    t'.subScope? parent name = some sub := by
  rw [getOrAddGlobal, get_bind_eq_ok] at h
  cases hfound : t.subScope? parent name with
  | some existing =>
    rw [hfound] at h
    cases h
    exact hfound
  | none =>
    rw [hfound] at h
    rcases addGlobal_cases parent name none t with ⟨fault, herror⟩ | ⟨hnone, hok⟩
    · cases herror.symm.trans h
    · cases hok.symm.trans h
      exact find?_push_of_none hnone

theorem addFunction_eq_ok (h : addFunction parent name t = .ok id t') :
    t'.functionScope? parent name = some id := by
  rcases addFunction_cases parent name t with ⟨fault, herror⟩ | ⟨hnone, hok⟩
  · cases herror.symm.trans h
  · cases hok.symm.trans h
    exact find?_push_of_none (t := { t with frames := t.frames.push {} }) hnone

theorem within_addFunction (id : ScopeId) (name : String) :
    Moves (Within id) (addFunction id name) := by
  intro t
  refine related_of_cases (addFunction_cases id name t) ?_
  rintro ⟨-, hok⟩
  rw [leaves_of_ok hok]
  refine Within.push ?_ (fun f hf => ?_) rfl (fun f hf => ?_) (fun _ _ _ => rfl) rfl .here
  · simp
  · rw [getD_push, if_neg (Nat.ne_of_lt hf)]
    rfl
  · cases hf
    exact .refl

/-! ## Blocks -/

theorem keeps_withBlock (t : ScopeTree) (id : ScopeId) : t.Keeps (t.withBlock id) := by
  have hpush : t.Keeps (t.push ((t.scope id).newBlock id)).2 := keeps_push t rfl nofun
  refine ⟨fun other name symbol hs => ?_, ?_, fun other hlt => ?_, fun hwf => ?_⟩
  · have hs := hpush.members other name symbol hs
    rw [withBlock, member?, scope_modifyScope]
    split
    · rename_i hother
      rw [hother.1] at hs
      exact hs
    · exact hs
  · rw [size_withBlock]
    exact Nat.le_succ _
  · have hplace := hpush.place other hlt
    rw [withBlock, scope_modifyScope]
    split
    · rename_i hother
      rw [hother.1] at hplace ⊢
      exact hplace
    · exact hplace
  · -- A scope that is not there cannot get blocks, unless it becomes its own.
    have hparent : ((t.push ((t.scope id).newBlock id)).2.scope id).blocks = (t.scope id).blocks ∧
        ((t.push ((t.scope id).newBlock id)).2.scope id).kind = (t.scope id).kind ∧
        ((t.push ((t.scope id).newBlock id)).2.scope id).frame = (t.scope id).frame := by
      rw [scope_push]
      split
      · rename_i hid
        have hnone : t.scope ⟨t.size⟩ = default := scope_of_size_le .refl
        rw [hid, hnone]
        exact ⟨rfl, rfl, rfl⟩
      · exact ⟨rfl, rfl, rfl⟩
    refine (hpush.wellFormed hwf).appendBlock ?_ rfl rfl
    rw [IsBlock, hparent.1, hparent.2.1, hparent.2.2, size_push, scope_push, if_pos rfl]
    exact ⟨Nat.lt_succ_self _, rfl, rfl, rfl⟩

theorem moves_nextBlock (id : ScopeId) : Moves Keeps (nextBlock id) :=
  .look_bind fun t => by
    dsimp only
    split
    · exact Moves.leaves_bind (keeps_modifyScope (fun _ _ h => h) rfl) fun _ t' _ =>
        refl_of Keeps t'
    · split
      · exact refl_of Keeps t
      · exact keeps_withBlock t id

theorem rewindBlocks_cases (id : ScopeId) (t : ScopeTree) :
    (∃ fault, rewindBlocks id t = .error fault t) ∨ ∃ t', rewindBlocks id t = .ok () t' := by
  have hlook : (get : TreeM ScopeTree) t = .ok t t := rfl
  simp only [rewindBlocks, bind, EStateM.bind, hlook]
  split
  · exact .inl ⟨_, rfl⟩
  · exact .inr ⟨_, rfl⟩

theorem nextBlock_cases (id : ScopeId) (t : ScopeTree) :
    (∃ fault, nextBlock id t = .error fault t) ∨ ∃ block t', nextBlock id t = .ok block t' := by
  have hlook : (get : TreeM ScopeTree) t = .ok t t := rfl
  simp only [nextBlock, bind, EStateM.bind, hlook]
  cases (t.scope id).blocks[(t.scope id).cursor]? with
  | some block => exact .inr ⟨_, _, rfl⟩
  | none =>
    dsimp only
    split
    · exact .inl ⟨_, rfl⟩
    · exact .inr ⟨_, _, rfl⟩

theorem moves_rewindBlocks (id : ScopeId) : Moves Keeps (rewindBlocks id) :=
  .look_bind fun t => by
    dsimp only
    split
    · exact refl_of Keeps t
    · exact keeps_modifyScope (fun _ _ h => h) rfl

/-! ## Members and variables -/

theorem within_bind (hfree : (t.scope id).members.get? name = none) (symbol : Symbol) :
    t.Within id (t.modifyScope id fun s => { s with members := s.members.set name symbol }) := by
  refine .modifyScope (fun other value hvalue => ?_) rfl rfl
  rw [Dictionary.get?_set_of_ne]
  · exact hvalue
  · rintro rfl
    rw [hfree] at hvalue
    exact nomatch hvalue

theorem declare_cases (id : ScopeId) (name : String) (symbol : Symbol) (t : ScopeTree) :
    (∃ fault, declare id name symbol t = .error fault t) ∨
      (id.index < t.size ∧ t.member? id name = none ∧ declare id name symbol t =
        .ok () (t.modifyScope id fun s => { s with members := s.members.set name symbol })) := by
  have hlook : (get : TreeM ScopeTree) t = .ok t t := rfl
  simp only [declare, bind, EStateM.bind, hlook]
  by_cases hlt : t.size ≤ id.index
  · exact .inl ⟨_, by rw [if_pos hlt]; rfl⟩
  · rw [if_neg hlt]
    by_cases hbound : (t.scope id).members.contains name = true
    · exact .inl ⟨_, by rw [if_pos hbound]; rfl⟩
    · rw [if_neg hbound]
      have hfree : (t.scope id).members.get? name = none := by
        simpa [Dictionary.contains] using hbound
      exact .inr ⟨Nat.lt_of_not_le hlt, hfree, rfl⟩

theorem declare_eq_ok {symbol : Symbol} (h : declare id name symbol t = .ok () t') :
    id.index < t.scopes.size ∧ t.member? id name = none ∧
      t' = t.modifyScope id fun s => { s with members := s.members.set name symbol } := by
  rcases declare_cases id name symbol t with ⟨fault, herror⟩ | ⟨hlt, hfree, hok⟩
  · rw [herror] at h
    cases h
  · rw [hok] at h
    cases h
    exact ⟨hlt, hfree, rfl⟩

theorem frameOf_eq_ok : frameOf id t = .ok f t' ↔ (t.scope id).frame = some f ∧ t' = t := by
  simp only [frameOf, get_bind_eq_ok]
  cases (t.scope id).frame with
  | none => simp [ScopeTree.fail]
  | some g => simp

/-- A relation that allows what operations do to the names of a scope and to its frame. -/
class AdmitsMembers (id : ScopeId) (R : ScopeTree → ScopeTree → Prop) : Prop
    extends IsPreorder ScopeTree R where
  bind : ∀ {t : ScopeTree} {name : String}, (t.scope id).members.get? name = none →
    ∀ symbol, R t (t.modifyScope id fun s => { s with members := s.members.set name symbol })
  frame : ∀ {t : ScopeTree} {f : FrameId}, (t.scope id).frame = some f →
    ∀ frame, R t (t.setFrame f frame)
  count : ∀ (t : ScopeTree) (bytes : UInt32),
    R t (t.modifyScope id fun s => { s with variableBytes := bytes })

instance : AdmitsMembers id (Within id) where
  bind := within_bind
  frame := .setFrame
  count _ _ := .modifyScope (fun _ _ h => h) rfl rfl

instance : AdmitsMembers id Keeps where
  bind hfree symbol := (within_bind hfree symbol).toKeeps
  frame _ := keeps_setFrame _ _
  count _ _ := keeps_modifyScope (fun _ _ h => h) rfl

theorem leaves_updateFrame {R : ScopeTree → ScopeTree → Prop} [IsPreorder ScopeTree R]
    (h : ∀ frame, R t (t.setFrame f frame)) (change : FrameM Fault Unit) :
    R t (leaves (updateFrame f change) t) := by
  refine Moves.leaves_bind (refl_of R t) fun _ _ hget => ?_
  cases hget
  split <;> exact h _

section Members

variable {R : ScopeTree → ScopeTree → Prop} (id : ScopeId) [AdmitsMembers id R]

theorem within_declare (name : String) (symbol : Symbol) : Moves R (declare id name symbol) := by
  intro t
  refine related_of_cases (declare_cases id name symbol t) ?_
  rintro ⟨-, hfree, hok⟩
  rw [leaves_of_ok hok]
  exact AdmitsMembers.bind hfree symbol

theorem within_frameOf : Moves R (frameOf id) :=
  .bind .look fun t => by
    split
    · exact .pure _
    · exact .throw _

theorem within_updateFrame {id : ScopeId} [AdmitsMembers id R]
    (hframe : (t.scope id).frame = some f)
    (change : FrameM Fault Unit) : R t (leaves (updateFrame f change) t) :=
  leaves_updateFrame (AdmitsMembers.frame hframe) change

theorem within_countVariableBytes (bytes : UInt32) : Moves R (countVariableBytes id bytes) :=
  .look_bind fun t => by
    split
    · exact AdmitsMembers.count t _
    · exact refl_of R t

theorem within_declareVariable (name : String) (type : ValueType) :
    Moves R (declareVariable id name type) := by
  intro t
  refine Moves.leaves_bind (within_frameOf id t) fun f t1 hf => ?_
  obtain ⟨hframe, rfl⟩ := frameOf_eq_ok.mp hf
  refine Moves.leaves_bind (refl_of R t1) fun _ _ hget => ?_
  cases hget
  split
  · exact refl_of R t1
  · refine Moves.leaves_bind (within_declare id name _ t1) fun _ t2 hdeclare => ?_
    -- The scope is still on the frame after the name was bound.
    have hbound : t1.Within id t2 := (within_declare id name _).of_ok hdeclare
    exact Moves.leaves_bind (within_updateFrame (hbound.toKeeps.frame hframe) _) fun _ t3 _ =>
      within_countVariableBytes id _ t3

theorem within_declareExisting (name : String) (type : ValueType) (offset : Int) :
    Moves R (declareExisting id name type offset) :=
  .bind (within_frameOf id) fun _ => .bind .look fun _ => by
    split
    · exact .throw _
    · exact within_declare id name _

theorem within_allocate (bytes : UInt32) : Moves R (allocate id bytes) := by
  unfold allocate
  refine moves_check fun t => ?_
  refine Moves.leaves_bind (within_frameOf id t) fun f t1 hf => ?_
  obtain ⟨hframe, rfl⟩ := frameOf_eq_ok.mp hf
  exact Moves.leaves_bind (within_updateFrame hframe _) fun _ t2 _ =>
    within_countVariableBytes id bytes t2

end Members

end ScopeTree

end StagedAsm
