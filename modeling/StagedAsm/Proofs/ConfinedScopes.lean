import StagedAsm.Proofs.BlockTurns

/-!
# Changes that are confined to some scopes

An engine works in its innermost scope and in what hangs off it. So if it starts inside a region
that is closed under hanging off, and leaves no scope that it did not enter, it changes nothing
else.
-/

namespace StagedAsm

/-! ## Regions of a tree -/

namespace ScopeTree

/-- The scopes that are set apart: all that are not there yet, and with a scope all that hang off
    it. -/
structure Region (t : ScopeTree) (inside : ScopeId → Prop) : Prop where
  new : ∀ {id : ScopeId}, t.size ≤ id.index → inside id
  child : ∀ {id parent : ScopeId}, t.parent? id = some parent → inside parent → inside id

variable {t t' : ScopeTree} {top id : ScopeId}

theorem Region.under {t0 : ScopeTree} {inside : ScopeId → Prop} (h : t0.Region inside)
    (horigin : ∀ {id : ScopeId}, id.index < t0.size → (t.scope id).origin = (t0.scope id).origin)
    (hunder : t.Under top id) (htop : inside top) : inside id := by
  induction hunder with
  | here => exact htop
  | @child id parent hparent _ ih =>
    by_cases hid : id.index < t0.size
    · refine h.child ?_ ih
      rw [parent?, ← horigin hid]
      exact hparent
    · exact h.new (by omega)

def FrameIn (t : ScopeTree) (inside : ScopeId → Prop) (f : FrameId) : Prop :=
  ∃ id, inside id ∧ (t.scope id).frame = some f

/-- Nothing changed outside of a region: no scope, no frame, and nothing was hung there. -/
structure Confined (inside : ScopeId → Prop) (t0 t : ScopeTree) : Prop where
  size_le : t0.size ≤ t.size
  origin : ∀ {id : ScopeId}, id.index < t0.size → (t.scope id).origin = (t0.scope id).origin
  scope : ∀ {id : ScopeId}, ¬ inside id → t.scope id = t0.scope id
  parent : ∀ {id parent : ScopeId}, t0.size ≤ id.index → t.parent? id = some parent → inside parent
  frames_size : t0.frames.size ≤ t.frames.size
  frame : ∀ {f : FrameId}, f.index < t0.frames.size → ¬ t0.FrameIn inside f → t.frame f = t0.frame f
  own_frame : ∀ {id : ScopeId} {f : FrameId}, inside id → (t.scope id).frame = some f →
    f.index < t0.frames.size → t0.FrameIn inside f

namespace Confined

variable {inside : ScopeId → Prop} {t0 t t' : ScopeTree} {id : ScopeId}

theorem refl (inside : ScopeId → Prop) (t : ScopeTree) : t.Confined inside t where
  size_le := .refl
  origin _ := rfl
  scope _ := rfl
  parent hle hparent := by
    rw [parent?_of_size_le hle] at hparent
    cases hparent
  frames_size := .refl
  frame _ _ := rfl
  own_frame hid hframe _ := ⟨_, hid, hframe⟩

section

variable (h : Confined inside t0 t)
include h

theorem find? {origin : ScopeOrigin} {parent : ScopeId}
    (horigin : origin.parent? = some parent) (hparent : ¬ inside parent) :
    t.find? origin = t0.find? origin := by
  apply Option.ext
  intro id
  constructor
  · intro hfound
    obtain ⟨hlt, hid, hfirst⟩ := find?_eq_some_iff.mp hfound
    -- A new scope hangs in the region, so the one that was found was there before.
    have hold : id.index < t0.size := by
      refine Nat.lt_of_not_le fun hle => hparent (h.parent hle ?_)
      rw [parent?, hid, horigin]
    refine find?_eq_some_iff.mpr ⟨hold, (h.origin hold).symm.trans hid, fun j hj => ?_⟩
    have hj' : (⟨j⟩ : ScopeId).index < t0.size := Nat.lt_trans hj hold
    rw [← h.origin hj']
    exact hfirst j hj
  · exact find?_mono h.size_le fun hlt => h.origin hlt

theorem visited (v : Visit) : Confined inside t0 (t.visited v) :=
  ⟨h.size_le, h.origin, h.scope, h.parent, h.frames_size, h.frame, h.own_frame⟩

theorem modifyScope (hid : inside id) {f : Scope → Scope}
    (horigin : (f (t.scope id)).origin = (t.scope id).origin)
    (hframe : (f (t.scope id)).frame = (t.scope id).frame) :
    Confined inside t0 (t.modifyScope id f) := by
  have hsame : ∀ other, ((t.modifyScope id f).scope other).origin = (t.scope other).origin ∧
      ((t.modifyScope id f).scope other).frame = (t.scope other).frame := by
    intro other
    rw [scope_modifyScope]
    split
    · rename_i heq
      rw [heq.1]
      exact ⟨horigin, hframe⟩
    · exact ⟨rfl, rfl⟩
  refine ⟨by simpa using h.size_le, fun hlt => ?_, fun {other} hother => ?_, fun hle hparent => ?_,
    h.frames_size, h.frame, fun hother hf => ?_⟩
  · rw [(hsame _).1, h.origin hlt]
  · rw [scope_modifyScope, if_neg, h.scope hother]
    rintro ⟨rfl, -⟩
    exact hother hid
  · refine h.parent hle ?_
    rw [parent?, (hsame _).1] at hparent
    exact hparent
  · rw [(hsame _).2] at hf
    exact h.own_frame hother hf

/-- A scope is hung into the region, or nowhere. -/
theorem push (hregion : t0.Region inside) {new : Scope}
    (hparent : ∀ parent, new.origin.parent? = some parent → inside parent)
    (hframe : ∀ f, new.frame = some f → f.index < t0.frames.size → t0.FrameIn inside f) :
    Confined inside t0 (t.push new).2 := by
  have hsize := h.size_le
  refine ⟨?_, fun {id} hlt => ?_, fun {id} hid => ?_, fun {id parent} hle hpar => ?_, h.frames_size,
    h.frame, fun {id f} hid hf => ?_⟩
  · rw [size_push]
    omega
  · rw [scope_push, if_neg, h.origin hlt]
    rintro rfl
    exact Nat.not_lt_of_le hsize hlt
  · rw [scope_push, if_neg, h.scope hid]
    rintro rfl
    exact hid (hregion.new hsize)
  · rw [parent?, scope_push] at hpar
    split at hpar
    · exact hparent parent hpar
    · exact h.parent hle hpar
  · rw [scope_push] at hf
    split at hf
    · exact hframe f hf
    · exact h.own_frame hid hf

theorem within (hregion : t0.Region inside) (hid : inside id)
    (hordered : t.Ordered) (hlt : id.index < t.size) (hwithin : t.Within id t') :
    Confined inside t0 t' := by
  have hsize := h.size_le
  have hsize' := hwithin.size_le
  have hframes := h.frames_size
  have hframes' := hwithin.frames_size
  obtain ⟨-, hbelow⟩ := hwithin.below hordered hlt
  have horigin : ∀ {other : ScopeId}, other.index < t0.size →
      (t'.scope other).origin = (t0.scope other).origin := by
    intro other hother
    rw [hwithin.toKeeps.origin (by omega), h.origin hother]
  refine ⟨by omega, horigin, fun {other} hother => ?_, fun {other parent} hle hparent => ?_,
    by omega, fun {f} hf hout => ?_, fun {other f} hother hf hold => ?_⟩
  · have hold : other.index < t0.size := Nat.lt_of_not_le fun hle => hother (hregion.new hle)
    rw [hwithin.others (by omega), h.scope hother]
    rintro rfl
    exact hother hid
  · by_cases hold : other.index < t.size
    · refine h.parent hle ?_
      rw [parent?, ← hwithin.toKeeps.origin hold]
      exact hparent
    · obtain ⟨parent', hparent', hunder⟩ := hbelow (Nat.le_of_not_lt hold) (lt_of_parent? hparent)
      rw [hparent] at hparent'
      cases hparent'
      exact hregion.under horigin hunder hid
  · rw [hwithin.frames (by omega), h.frame hf hout]
    exact fun hown => hout (h.own_frame hid hown hf)
  · by_cases hnew : other.index < t.size
    · rw [hwithin.toKeeps.frame_eq hnew] at hf
      exact h.own_frame hother hf hold
    · have := hwithin.new_frame (Nat.le_of_not_lt hnew) hf
      omega

theorem rewindBlocks (hid : inside id)
    (hrewind : ScopeTree.rewindBlocks id t = .ok () t') : Confined inside t0 t' := by
  obtain ⟨-, rfl⟩ := rewindBlocks_eq_ok.mp hrewind
  exact h.modifyScope hid rfl rfl

theorem nextBlock (hregion : t0.Region inside) (hid : inside id)
    {block : ScopeId} (hnext : ScopeTree.nextBlock id t = .ok block t') :
    Confined inside t0 t' := by
  rcases nextBlock_eq_ok.mp hnext with ⟨-, rfl⟩ | ⟨-, -, -, rfl⟩
  · exact h.modifyScope hid rfl rfl
  · have hpush : Confined inside t0 (t.push ((t.scope id).newBlock id)).2 := by
      refine h.push hregion (fun parent hparent => ?_) fun f hf => h.own_frame hid hf
      cases hparent
      exact hid
    exact hpush.modifyScope hid rfl rfl

theorem stride (hregion : t0.Region inside) {v : Visit}
    (hstride : t.Stride v t') (hbefore : inside v.before) : Confined inside t0 t' := by
  cases hstride with
  | enter hlt hleads => exact h.visited v
  | enterBlock hlt hmove hnext => exact (h.nextBlock hregion hbefore hnext).visited v
  | rewind hlt hmove hrewind => exact (h.rewindBlocks hbefore hrewind).visited v

end

end Confined

theorem Under.subScopeAt? {last : ScopeId} {names : List String} (h : t.Under top id)
    (hfound : t.subScopeAt? id names = some last) : t.Under top last := by
  induction names generalizing id with
  | nil =>
    cases hfound
    exact h
  | cons name rest ih =>
    obtain ⟨next, hnext, hrest⟩ := Option.bind_eq_some_iff.mp hfound
    exact ih (h.subScope? hnext) hrest

theorem Leads.under {scope : ScopeId} {move : ScopeMove} (h : t.Leads id move scope) :
    t.Under id scope := by
  cases move with
  | enterGlobal names => exact Under.here.subScopeAt? h
  | enterLocal name =>
    refine .child ?_ .here
    rw [parent?, (find?_eq_some h).2]
    rfl
  | _ => exact h.elim

theorem Grounded.under_nextBlock {block : ScopeId} (h : t.Grounded) (hid : id.index < t.size)
    (hnext : ScopeTree.nextBlock id t = .ok block t') : t'.Under id block := by
  obtain ⟨blocks, hwalk, -, hblock, -⟩ := nextBlock_walk hid (h.cursor_le id) hnext
  have hblocks : (t'.scope id).blocks = blocks := congrArg (·.1) hwalk
  rw [← hblocks] at hblock
  refine .child ?_ .here
  rw [parent?, (h.nextBlock hid hnext).wellFormed.block_origin hblock]
  rfl

theorem Stride.under {v : Visit} (h : t.Stride v t') (ht : t.Grounded)
    (hmove : v.move.rewinds = false) : t'.Under v.before v.after := by
  cases h with
  | enter hlt hleads => exact hleads.under.keeps (t.keeps_visited v)
  | enterBlock hlt hblock hnext =>
    exact (ht.under_nextBlock hlt hnext).keeps (keeps_visited _ v)
  | rewind hlt hrewinds hrewind =>
    rw [hrewinds] at hmove
    cases hmove

end ScopeTree

/-! ## Engines that stay inside -/

theorem staysInside_of_append {depth : Nat} {moves more : List ScopeMove}
    (h : staysInside depth (moves ++ more) = true) : staysInside depth moves = true := by
  induction moves generalizing depth with
  | nil => rfl
  | cons move rest ih =>
    rw [List.cons_append] at h
    rcases move.cases_rewinds with hmove | rfl | hmove
    · obtain ⟨hne, h⟩ := (staysInside_exit hmove).mp h
      exact (staysInside_exit hmove).mpr ⟨hne, ih h⟩
    · rw [staysInside_endPass] at h ⊢
      exact ih h
    · rw [staysInside_opens hmove] at h ⊢
      exact ih h

def Indoors (inside : ScopeId → Prop) (moves : List ScopeMove) (scopes : List ScopeId) : Prop :=
  ∃ entered base, scopes = entered ++ base ∧ (∀ id ∈ entered, inside id) ∧
    inside (base.head?.getD ScopeTree.root) ∧
    ∀ more, staysInside 0 (moves ++ more) = true → staysInside entered.length more = true

namespace Indoors

variable {inside : ScopeId → Prop} {moves : List ScopeMove} {scopes : List ScopeId}

theorem start (h : inside (scopes.head?.getD ScopeTree.root)) : Indoors inside [] scopes :=
  ⟨[], scopes, rfl, by simp, h, fun _ hmore => hmore⟩

theorem current (h : Indoors inside moves scopes) : inside (scopes.head?.getD ScopeTree.root) := by
  obtain ⟨entered, base, rfl, hentered, hbase, -⟩ := h
  cases entered with
  | nil => exact hbase
  | cons id rest => exact hentered id List.mem_cons_self

theorem visit (h : Indoors inside moves scopes) {v : Visit}
    (hopens : v.move.rewinds = false → inside v.after)
    (hlast : staysInside 0 (moves ++ [v.move]) = true) :
    Indoors inside (moves ++ [v.move]) (v.opened scopes) := by
  obtain ⟨entered, base, rfl, hentered, hbase, hstays⟩ := h
  have hnext : ∀ more, staysInside 0 (moves ++ [v.move] ++ more) = true →
      staysInside entered.length (v.move :: more) = true := by
    intro more hmore
    exact hstays (v.move :: more) (by simpa using hmore)
  rcases v.move.cases_rewinds with hmove | hmove | hmove
  · rw [Visit.opened_of_isExit hmove]
    cases entered with
    | nil =>
      have hnone := ((staysInside_exit hmove).mp (hstays [v.move] hlast)).1
      exact absurd rfl hnone
    | cons id entered =>
      refine ⟨entered, base, rfl, fun other hother => ?_, hbase, fun more hmore => ?_⟩
      · exact hentered other (List.mem_cons_of_mem _ hother)
      · simpa using ((staysInside_exit hmove).mp (hnext more hmore)).2
  · rw [Visit.opened_of_endPass hmove]
    refine ⟨entered, base, rfl, hentered, hbase, fun more hmore => ?_⟩
    have hmore' := hnext more hmore
    rwa [hmove, staysInside_endPass] at hmore'
  · rw [Visit.opened_of_opens hmove]
    refine ⟨v.after :: entered, base, rfl, ?_, hbase, fun more hmore => ?_⟩
    · simpa using ⟨hopens hmove, hentered⟩
    · have hmore' := hnext more hmore
      rwa [staysInside_opens hmove] at hmore'

end Indoors

end StagedAsm
