import StagedAsm.Proofs.FrameSteps

/-!
# Where variables lie

Each open scope takes the bytes between the pointer at which it was entered and the pointer at which
the scope inside of it was, and everything declared in it lies there. So variables of open scopes
never overlap, and what was once below the pointer is covered by the extent of the frame.
-/

namespace StagedAsm

open List ScopeTree

/-! ## Variables -/

/-- Where it is declared, and where it lies. -/
structure StackVariable where
  scope : ScopeId
  name : String
  offset : Int
  type : ValueType

namespace StackVariable

def In (x : StackVariable) (t : ScopeTree) (f : FrameId) : Prop :=
  t.member? x.scope x.name = some (.slot f x.offset x.type)

/-- No byte belongs to both variables. -/
def Apart (x y : StackVariable) : Prop :=
  x.offset + x.type.bytes.toNat ≤ y.offset ∨ y.offset + y.type.bytes.toNat ≤ x.offset

theorem Apart.symm {x y : StackVariable} (h : x.Apart y) : y.Apart x := Or.symm h

end StackVariable

/-! ## Open scopes -/

def Stacked (t : ScopeTree) (f : FrameId) : List ScopeId → Int → Prop
  | [], pointer => pointer = -8
  | id :: rest, pointer =>
    (∀ x : StackVariable, x.scope = id → x.In t f → pointer ≤ x.offset) ∧
      Stacked t f rest (pointer + (t.scope id).variableBytes.toNat)

namespace Stacked

variable {t t' : ScopeTree} {f : FrameId} {opened : List ScopeId} {pointer : Int}

theorem le (h : Stacked t f opened pointer) : pointer ≤ -8 := by
  induction opened generalizing pointer with
  | nil =>
    unfold Stacked at h
    omega
  | cons id rest ih =>
    have hrest := ih h.2
    omega

theorem le_offset (h : Stacked t f opened pointer) {x : StackVariable} (hx : x.scope ∈ opened)
    (hin : x.In t f) : pointer ≤ x.offset := by
  induction opened generalizing pointer with
  | nil => cases hx
  | cons id rest ih =>
    rcases mem_cons.mp hx with hid | hrest
    · exact h.1 x hid hin
    · have hle := ih h.2 hrest
      omega

theorem congr (h : Stacked t f opened pointer)
    (hbytes : ∀ id ∈ opened, (t'.scope id).variableBytes = (t.scope id).variableBytes)
    (hin : ∀ x : StackVariable, x.scope ∈ opened → x.In t' f → x.In t f) :
    Stacked t' f opened pointer := by
  induction opened generalizing pointer with
  | nil => exact h
  | cons id rest ih =>
    refine ⟨fun x hx hin' => h.1 x hx (hin x (hx ▸ mem_cons_self) hin'), ?_⟩
    rw [hbytes id mem_cons_self]
    exact ih h.2 (fun other hother => hbytes other (mem_cons_of_mem id hother))
      fun x hx => hin x (mem_cons_of_mem id hx)

end Stacked

/-! ## Layouts -/

/-- How the variables of a function lie on its frame while it is open. -/
structure Layout (t : ScopeTree) (f : FrameId) (opened : List ScopeId) : Prop where
  lt : f.index < t.frames.size
  stacked : Stacked t f opened (t.frame f).pointer
  covered : -(t.frame f).pointer ≤ (t.frame f).extent.toNat
  apart : ∀ x y : StackVariable, x.scope ∈ opened → y.scope ∈ opened → x.In t f → y.In t f →
    (x.scope, x.name) ≠ (y.scope, y.name) → x.Apart y

namespace Layout

variable {t t' : ScopeTree} {f : FrameId} {id : ScopeId} {rest opened : List ScopeId}

theorem take (h : Layout t f (id :: rest)) {bytes : Nat} (new : Option String) (hnot : id ∉ rest)
    (hlt : f.index < t'.frames.size)
    (hpointer : (t'.frame f).pointer = (t.frame f).pointer - bytes)
    (hcovered : -(t'.frame f).pointer ≤ (t'.frame f).extent.toNat)
    (hother : ∀ other, other ≠ id → t'.scope other = t.scope other)
    (hbytes : (t'.scope id).variableBytes.toNat = (t.scope id).variableBytes.toNat + bytes)
    (hnew : ∀ x : StackVariable, x.scope = id → x.In t' f → x.In t f ∨ new = some x.name ∧
      (t'.frame f).pointer ≤ x.offset ∧
      ∀ y : StackVariable, y.scope ∈ id :: rest → y.In t f → y.Apart x) :
    Layout t' f (id :: rest) := by
  have hold : ∀ x : StackVariable, x.scope ∈ rest → (x.In t' f ↔ x.In t f) := by
    intro x hx
    have hne : x.scope ≠ id := by
      intro heq
      exact hnot (heq ▸ hx)
    rw [StackVariable.In, StackVariable.In, member?, member?, hother x.scope hne]
  -- A variable of an open scope was there before, or it is the new one.
  have hcases : ∀ x : StackVariable, x.scope ∈ id :: rest → x.In t' f → x.In t f ∨
      x.scope = id ∧ new = some x.name ∧
        ∀ y : StackVariable, y.scope ∈ id :: rest → y.In t f → y.Apart x := by
    intro x hx hin
    rcases mem_cons.mp hx with hid | hrest
    · exact (hnew x hid hin).imp_right fun hx => ⟨hid, hx.1, hx.2.2⟩
    · exact .inl ((hold x hrest).mp hin)
  refine ⟨hlt, ⟨fun x hx hin => ?_, ?_⟩, hcovered, ?_⟩
  · rcases hnew x hx hin with hin | ⟨-, hle, -⟩
    · have hlow := h.stacked.1 x hx hin
      omega
    · exact hle
  · have hsum : (t'.frame f).pointer + (t'.scope id).variableBytes.toNat =
        (t.frame f).pointer + (t.scope id).variableBytes.toNat := by
      rw [hpointer, hbytes]
      omega
    rw [hsum]
    refine h.stacked.2.congr (fun other hmem => ?_) fun x hx => (hold x hx).mp
    rw [hother other]
    rintro rfl
    exact hnot hmem
  · intro x y hx hy hinx hiny hne
    rcases hcases x hx hinx with hinx' | ⟨hidx, hnamex, hapartx⟩
    · rcases hcases y hy hiny with hiny' | ⟨-, -, haparty⟩
      · exact h.apart x y hx hy hinx' hiny' hne
      · exact haparty x hx hinx'
    · rcases hcases y hy hiny with hiny' | ⟨hidy, hnamey, -⟩
      · exact (hapartx y hy hiny').symm
      -- There is only one new variable.
      · rw [hnamex] at hnamey
        exact absurd (Prod.ext (hidx.trans hidy.symm) (Option.some.inj hnamey)) hne

theorem push (h : Layout t f opened) (hlt : f.index < t'.frames.size)
    (hframe : t'.frame f = t.frame f) (hbytes : (t'.scope id).variableBytes = 0)
    (hempty : ∀ name offset type, t'.member? id name ≠ some (.slot f offset type))
    (hother : ∀ other, other ≠ id → (t'.scope other).frame = (t.scope other).frame ∧
      (t'.scope other).variableBytes = (t.scope other).variableBytes ∧
      (t'.scope other).members = (t.scope other).members)
    (hnot : id ∉ opened) : Layout t' f (id :: opened) := by
  have hne : ∀ other ∈ opened, other ≠ id := by
    rintro other hmem rfl
    exact hnot hmem
  have hold : ∀ x : StackVariable, x.scope ∈ opened → (x.In t' f ↔ x.In t f) := by
    intro x hx
    rw [StackVariable.In, StackVariable.In, member?, member?, (hother x.scope (hne x.scope hx)).2.2]
  have hmem : ∀ x : StackVariable, x.scope ∈ id :: opened → x.In t' f → x.scope ∈ opened := by
    intro x hx hin
    rcases mem_cons.mp hx with hid | hopened
    · rw [StackVariable.In, hid] at hin
      exact absurd hin (hempty _ _ _)
    · exact hopened
  refine ⟨hlt, ⟨fun x hx hin => ?_, ?_⟩, by rw [hframe]; exact h.covered, ?_⟩
  · rw [StackVariable.In, hx] at hin
    exact absurd hin (hempty _ _ _)
  · rw [hframe, hbytes]
    have hzero : (t.frame f).pointer + ((0 : UInt32).toNat : Int) = (t.frame f).pointer := by
      simp
    rw [hzero]
    exact h.stacked.congr (fun other hother' => (hother other (hne other hother')).2.1)
      fun x hx => (hold x hx).mp
  · intro x y hx hy hinx hiny
    have hx' := hmem x hx hinx
    have hy' := hmem y hy hiny
    exact h.apart x y hx' hy' ((hold x hx').mp hinx) ((hold y hy').mp hiny)

theorem pop (h : Layout t f (id :: rest)) (hlt : f.index < t'.frames.size)
    (hpointer : (t'.frame f).pointer = (t.frame f).pointer + (t.scope id).variableBytes.toNat)
    (hextent : (t.frame f).extent.toNat ≤ (t'.frame f).extent.toNat)
    (hbytes : ∀ other, (t'.scope other).variableBytes = (t.scope other).variableBytes)
    (hmembers : ∀ other, (t'.scope other).members = (t.scope other).members) :
    Layout t' f rest := by
  have hin : ∀ x : StackVariable, x.In t' f ↔ x.In t f := by
    intro x
    rw [StackVariable.In, StackVariable.In, member?, member?, hmembers]
  have hcovered := h.covered
  refine ⟨hlt, ?_, by rw [hpointer]; omega, ?_⟩
  · rw [hpointer]
    exact h.stacked.2.congr (fun other _ => hbytes other) fun x _ => (hin x).mp
  · intro x y hx hy hinx hiny
    exact h.apart x y (mem_cons_of_mem id hx) (mem_cons_of_mem id hy) ((hin x).mp hinx)
      ((hin y).mp hiny)

theorem step {op : FrameOp} {opened' : List ScopeId} (h : Layout t f opened)
    (hlt : f.index < t'.frames.size) (hnodup : opened'.Nodup)
    (hextent : (t.frame f).extent.toNat ≤ (t'.frame f).extent.toNat)
    (hreached : op.reach - (t.frame f).pointer ≤ (t'.frame f).extent.toNat)
    (heffect : Effect f op t t' opened opened') : Layout t' f opened' := by
  cases heffect with
  | @take id rest bytes new hle hpointer hother hbytes hnew =>
    apply h.take new (nodup_cons.mp hnodup).1 hlt hpointer (by omega) hother hbytes
    rintro ⟨scope, name, offset, type⟩ rfl hin
    refine (hnew name offset type hin).imp_right fun hslot => ?_
    obtain ⟨hname, hoffset, hsize⟩ := hslot
    refine ⟨hname, ?_, fun y hy hiny => ?_⟩
    · show (t'.frame f).pointer ≤ offset
      omega
    · have hlow := h.stacked.le_offset hy hiny
      apply Or.inr
      show offset + (type.bytes.toNat : Int) ≤ y.offset
      omega
  | push hframe hbytes hempty hother =>
    exact h.push hlt hframe hbytes hempty hother (nodup_cons.mp hnodup).1
  | pop hpointer hbytes hmembers => exact h.pop hlt hpointer hextent hbytes hmembers

theorem leavesAlone {e : EngineId} {s s' : Session} (h : Layout s.tree f opened)
    (halone : LeavesAlone e f s s') (hframe : ∀ id ∈ opened, (s.tree.scope id).frame = some f) :
    Layout s'.tree f opened := by
  have hagrees : ∀ id ∈ opened, (s'.tree.scope id).Agrees f (s.tree.scope id) :=
    fun id hid => halone.own id (.inl (hframe id hid))
  have hin : ∀ x : StackVariable, x.scope ∈ opened → (x.In s'.tree f ↔ x.In s.tree f) :=
    fun x hx => (hagrees x.scope hx).slots x.name x.offset x.type
  have hlt := h.lt
  have hframes := halone.frames
  refine ⟨by omega, ?_, by rw [halone.frame]; exact h.covered, ?_⟩
  · rw [halone.frame]
    exact h.stacked.congr (fun id hid => (hagrees id hid).variableBytes) fun x hx => (hin x hx).mp
  · intro x y hx hy hinx hiny
    exact h.apart x y hx hy ((hin x hx).mp hinx) ((hin y hy).mp hiny)

end Layout

/-! ## Inside a function -/

/-- An engine is inside a function whose variables are laid out. -/
structure Inside (e : EngineId) (f : FrameId) (own : ScopeId) (outer opened : List ScopeId)
    (visited : ScopeId → Prop) (s : Session) : Prop
    extends Standing e f own outer opened visited s where
  layout : Layout s.tree f opened

/-- The frame gets larger, and what is declared on it stays. -/
structure Grows (f : FrameId) (s s' : Session) : Prop where
  extent : (s.tree.frame f).extent.toNat ≤ (s'.tree.frame f).extent.toNat
  frame : ∀ id, (s.tree.scope id).frame = some f → (s'.tree.scope id).frame = some f
  slots : ∀ x : StackVariable, (s.tree.scope x.scope).frame = some f → x.In s.tree f →
    x.In s'.tree f

namespace Grows

variable {e : EngineId} {f : FrameId} {s s' : Session}

instance : IsPreorder Session (Grows f) where
  refl _ := ⟨.refl, fun _ h => h, fun _ _ h => h⟩
  trans _ _ _ h h' :=
    { extent := Nat.le_trans h.extent h'.extent
      frame := fun id hid => h'.frame id (h.frame id hid)
      slots := fun x hx hin => h'.slots x (h.frame x.scope hx) (h.slots x hx hin) }

theorem of_keeps (h : s.tree.Keeps s'.tree)
    (hextent : (s.tree.frame f).extent.toNat ≤ (s'.tree.frame f).extent.toNat) : Grows f s s' :=
  ⟨hextent, fun _ => h.frame, fun x _ => h.members x.scope x.name _⟩

theorem of_leavesAlone (h : LeavesAlone e f s s') : Grows f s s' where
  extent := Nat.le_of_eq (by rw [h.frame])
  frame id hid := by
    have hshape := (h.own id (.inl hid)).shape
    simp only [Scope.shape, Prod.mk.injEq] at hshape
    exact hshape.2.2.2.1.trans hid
  slots x hx := ((h.own x.scope (.inl hx)).slots x.name x.offset x.type).mpr

end Grows

section Runs

variable {e : EngineId} {f : FrameId} {own id : ScopeId} {outer opened rest : List ScopeId}
variable {visited : ScopeId → Prop} {s s' : Session}

theorem Standing.run (h : Standing e f own outer opened visited s)
    {trace : List (Session × FrameOp)} (hrun : FrameRun e f trace s s') :
    (∃ opened' visited', Standing e f own outer opened' visited' s') ∧ Grows f s s' := by
  induction hrun generalizing opened visited with
  | done halone => exact ⟨⟨opened, visited, h.leavesAlone halone⟩, .of_leavesAlone halone⟩
  | step hbefore hop _ ih =>
    obtain ⟨opened', visited', hafter⟩ := (h.leavesAlone hbefore).step hop
    obtain ⟨hend, hrest⟩ := ih hafter.standing
    have hgrows : Grows f _ _ := .of_keeps hafter.keeps hafter.frame.extent
    exact ⟨hend, trans_of (Grows f) (.of_leavesAlone hbefore) (trans_of (Grows f) hgrows hrest)⟩

namespace Inside

theorem leavesAlone (h : Inside e f own outer opened visited s) (halone : LeavesAlone e f s s') :
    Inside e f own outer opened visited s' :=
  ⟨h.toStanding.leavesAlone halone, h.layout.leavesAlone halone h.frame_of_mem⟩

/-! ## Steps -/

structure After (e : EngineId) (f : FrameId) (own : ScopeId) (outer : List ScopeId) (op : FrameOp)
    (s s' : Session) : Prop where
  inside : ∃ opened visited, Inside e f own outer opened visited s'
  grows : Grows f s s'
  reached : op.reach - (s.tree.frame f).pointer ≤ (s'.tree.frame f).extent.toNat

theorem declared (h : Inside e f own outer (id :: rest) visited s) {name : String}
    {type : ValueType} (hop : e.declareVariable name type s = .ok () s') :
    StackVariable.In ⟨id, name, (s.tree.frame f).pointer - type.bytes.toNat, type⟩ s'.tree f ∧
      (s'.tree.scope id).frame = some f := by
  obtain ⟨-, t, ht, rfl⟩ := EngineId.declareVariable_eq_ok.mp hop
  have hkeeps := (within_declareVariable (R := Keeps) _ name type).of_ok ht
  rw [h.currentScope] at ht
  obtain ⟨f', frame, total, hf', hlt, -, -, -, rfl⟩ := declareVariable_eq_ok ht
  obtain rfl : f' = f := Option.some.inj (hf'.symm.trans h.frame_eq)
  refine ⟨?_, hkeeps.frame h.frame_eq⟩
  rw [StackVariable.In, member?, scope_modifyScope, if_pos ⟨rfl, hlt⟩]
  exact Dictionary.get?_set_self _ _ _

theorem step (h : Inside e f own outer opened visited s) {op : FrameOp}
    (hop : op.run e s = .ok () s') (hreach : -0xffffffff ≤ (s.tree.frame f).pointer - op.reach) :
    After e f own outer op s s' := by
  obtain ⟨opened', visited', hafter⟩ := h.toStanding.step hop
  have hreached := hafter.frame.reached h.layout.covered hreach
  have hlayout := h.layout.step hafter.standing.lt hafter.standing.walk.nodup hafter.frame.extent
    hreached hafter.effect
  exact ⟨⟨opened', visited', hafter.standing, hlayout⟩,
    .of_keeps hafter.keeps hafter.frame.extent, hreached⟩

/-! ## Runs -/

theorem run (h : Inside e f own outer opened visited s) {trace : List (Session × FrameOp)}
    (hrun : FrameRun e f trace s s')
    (hreach : ∀ t op, (t, op) ∈ trace → -0xffffffff ≤ (t.tree.frame f).pointer - op.reach) :
    (∃ opened' visited', Inside e f own outer opened' visited' s') ∧ Grows f s s' ∧
      ∀ t op, (t, op) ∈ trace → (∃ opened' visited', Inside e f own outer opened' visited' t) ∧
        ∃ next, op.run e t = .ok () next ∧ Grows f next s' ∧
          op.reach - (t.tree.frame f).pointer ≤ (s'.tree.frame f).extent.toNat := by
  induction hrun generalizing opened visited with
  | done halone =>
    refine ⟨⟨opened, visited, h.leavesAlone halone⟩, .of_leavesAlone halone, fun t op hmem => ?_⟩
    cases hmem
  | @step s s1 s2 s' op trace hbefore hop _ ih =>
    have hinside := h.leavesAlone hbefore
    obtain ⟨⟨opened', visited', hnext⟩, hgrows, hreached⟩ :=
      hinside.step hop (hreach s1 op mem_cons_self)
    obtain ⟨hend, hrest, htrace⟩ := ih hnext fun t op hmem => hreach t op (mem_cons_of_mem _ hmem)
    refine ⟨hend, ?_, ?_⟩
    · exact trans_of (Grows f) (.of_leavesAlone hbefore) (trans_of (Grows f) hgrows hrest)
    · intro t op' hmem
      rcases mem_cons.mp hmem with heq | hmem
      · cases heq
        have hextent := hrest.extent
        exact ⟨⟨opened, visited, hinside⟩, s2, hop, hrest, by omega⟩
      · exact htrace t op' hmem

end Inside

end Runs

end StagedAsm
