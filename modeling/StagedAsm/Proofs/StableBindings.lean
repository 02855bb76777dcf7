import StagedAsm.Proofs.EpochResolution
import StagedAsm.Proofs.LaterSessions

/-!
# What names stay bound to

A scope that binds a name binds it for good. Only the name a placeholder was declared under is ever
given something else, which is what the placeholder stands for. No two placeholders are declared
under one name, so once a name has its result there is nothing left to replace it by.
-/

namespace StagedAsm

namespace Session

/-- A name that a placeholder was declared under is bound to the placeholder or to its result. -/
structure Faithful (s : Session) : Prop where
  recorded : s.Recorded
  own : ∀ {p owner name}, s.Declares p owner name →
    s.tree.member? owner name = some (.placeholder p) ∨
      ∃ symbol, (s.placeholder p).state = .settled symbol ∧ s.tree.member? owner name = some symbol

def BindsOwn (s : Session) (owner : ScopeId) (name : String) (symbol : Symbol) : Prop :=
  ∃ p, symbol = .placeholder p ∧ s.Declares p owner name

end Session

/-- Names stay bound to what they are bound to, other than to placeholders of their own. -/
structure Retains (s s' : Session) : Prop where
  faithful : s'.Faithful
  declares : ∀ {p owner name}, s.Declares p owner name → s'.Declares p owner name
  free : ∀ {p owner name}, s'.Declares p owner name →
    s.Declares p owner name ∨ s.tree.member? owner name = none
  members : ∀ {owner name symbol}, s.tree.member? owner name = some symbol →
    ¬ s.BindsOwn owner name symbol → s'.tree.member? owner name = some symbol

namespace Retains

open Session

variable {s s' : Session}

theorem refl (hs : s.Faithful) : Retains s s := ⟨hs, id, .inl, fun h _ => h⟩

theorem trans {s1 : Session} (h : Retains s s1) (h' : Retains s1 s') : Retains s s' where
  faithful := h'.faithful
  declares hp := h'.declares (h.declares hp)
  free {p owner name} hp := by
    rcases h'.free hp with hp | hnone
    · exact h.free hp
    · cases hmember : s.tree.member? owner name with
      | none => exact .inr rfl
      | some symbol =>
        -- a name that was bound in between was not given to another placeholder
        by_cases hown : s.BindsOwn owner name symbol
        · obtain ⟨q, -, hq⟩ := hown
          obtain ⟨symbol, hsymbol⟩ := h.faithful.recorded.bound q owner name (h.declares hq)
          exact nomatch hnone.symm.trans hsymbol
        · exact nomatch hnone.symm.trans (h.members hmember hown)
  members {owner name symbol} hmember hown := by
    refine h'.members (h.members hmember hown) ?_
    rintro ⟨p, rfl, hp⟩
    rcases h.free hp with hp | hnone
    · exact hown ⟨p, rfl, hp⟩
    · exact nomatch hnone.symm.trans hmember

theorem of_mild (hs : s.Faithful) (h : Mild s s') : Retains s s' where
  faithful.recorded := hs.recorded.mild h
  faithful.own {p owner name} hp := by
    have hold := h.declares_iff.mp hp
    rcases h.placeholder_cases p with ⟨-, heq⟩ | ⟨-, hnone⟩
    · rw [heq]
      exact (hs.own hold).imp (h.tree.members _ _ _) fun ⟨symbol, hstate, hmember⟩ =>
        ⟨symbol, hstate, h.tree.members _ _ _ hmember⟩
    · exact absurd hp (not_declares (.inl hnone))
  declares := h.declares_iff.mpr
  free hp := .inl (h.declares_iff.mp hp)
  members hmember _ := h.tree.members _ _ _ hmember

theorem of_state (hs : s.Faithful) (id : PlaceholderId) (hs' : s'.Recorded)
    (htree : s'.tree = s.tree) (hunsettled : ∀ symbol, (s.placeholder id).state ≠ .settled symbol)
    (hdeclares : ∀ p owner name, s'.Declares p owner name ↔ s.Declares p owner name)
    (hothers : ∀ p, p ≠ id → s'.placeholder p = s.placeholder p) : Retains s s' where
  faithful.recorded := hs'
  faithful.own {p owner name} hp := by
    rw [htree]
    by_cases hid : p = id
    · subst hid
      refine (hs.own ((hdeclares ..).mp hp)).imp id ?_
      rintro ⟨symbol, hstate, -⟩
      exact absurd hstate (hunsettled symbol)
    · rw [hothers p hid]
      exact hs.own ((hdeclares ..).mp hp)
  declares := (hdeclares ..).mpr
  free hp := .inl ((hdeclares ..).mp hp)
  members hmember _ := htree ▸ hmember

variable {name : String} {owner : ScopeId}

theorem of_bind (hs : s.Faithful) {tree : ScopeTree} {new : Placeholder}
    (howner : new.owner = some owner) (hname : new.name = some name)
    (hfree : s.tree.member? owner name = none) (hkeeps : s.tree.Keeps tree)
    (hbound : tree.member? owner name = some (.placeholder ⟨s.placeholders.size⟩)) :
    Retains s { s with tree, placeholders := s.placeholders.push new } where
  faithful.recorded := hs.recorded.bind howner hname hfree hkeeps hbound
  faithful.own {p owner' name'} hp := by
    rw [Declares, placeholder_push] at hp
    rw [placeholder_push]
    split at hp
    · rename_i hp'
      rw [howner, hname] at hp
      cases hp.1
      cases hp.2
      cases p
      cases hp'
      exact .inl hbound
    · rename_i hp'
      rw [if_neg hp']
      refine (hs.own hp).imp (hkeeps.members _ _ _) ?_
      rintro ⟨symbol, hstate, hmember⟩
      exact ⟨symbol, hstate, hkeeps.members _ _ _ hmember⟩
  declares hp := by
    rw [Declares, placeholder_push, if_neg (ne_of_lt (lt_size_of_declares hp))]
    exact hp
  free {p owner' name'} hp := by
    rw [Declares, placeholder_push] at hp
    split at hp
    · rw [howner, hname] at hp
      cases hp.1
      cases hp.2
      exact .inr hfree
    · exact .inl hp
  members hmember _ := hkeeps.members _ _ _ hmember

theorem of_rebind (hs : s.Faithful) {id : PlaceholderId} {symbol : Symbol}
    (hdeclares : s.Declares id owner name) (hsettled : (s.placeholder id).state = .settled symbol) :
    Retains s (s.rebind owner name symbol) where
  faithful.recorded := hs.recorded.rebind hdeclares symbol
  faithful.own {p owner' name'} hp := by
    rw [member?_rebind (hs.recorded.bound id owner name hdeclares)]
    split
    · rename_i heq
      obtain ⟨rfl, rfl⟩ := heq
      obtain rfl := hs.recorded.distinct _ _ _ _ hdeclares hp
      exact .inr ⟨symbol, hsettled, rfl⟩
    · exact hs.own hp
  declares hp := hp
  free hp := .inl hp
  members {owner' name' old} hmember hown := by
    rw [member?_rebind (hs.recorded.bound id owner name hdeclares)]
    split
    · -- the name is bound to the placeholder, or has the result already
      rename_i heq
      obtain ⟨rfl, rfl⟩ := heq
      rcases hs.own hdeclares with hplaceholder | ⟨result, hresult, hmember'⟩
      · cases hmember.symm.trans hplaceholder
        exact absurd ⟨id, rfl, hdeclares⟩ hown
      · cases hsettled.symm.trans hresult
        exact hmember'.symm.trans hmember
    · exact hmember

end Retains

def KeepsBindings (s s' : Session) : Prop := s.Faithful → Retains s s'

namespace KeepsBindings

open Session

theorem of_step {s s' : Session} (h : Step s s') : KeepsBindings s s' := by
  intro hs
  rcases h.mild_or with h | ⟨tree, new, owner, name, howner, hname, _, hfree, hkeeps, hbound, rfl⟩ |
    ⟨id, hpending, rfl⟩ | ⟨id, symbol, _, hspent, rfl⟩ |
    ⟨id, owner, name, symbol, hdeclares, hset, rfl⟩
  · exact .of_mild hs h
  · exact .of_bind hs howner hname hfree hkeeps hbound
  · refine .of_state hs id (hs.recorded.ask hpending) rfl (fun symbol hstate => ?_)
      (declares_ask s id) fun p hp => ?_
    · obtain ⟨resolution, hpending⟩ := hpending
      exact nomatch hpending.symm.trans hstate
    · rw [placeholder_ask, if_neg fun h => hp h.1]
  · refine .of_state hs id (hs.recorded.answer id symbol) rfl (fun _ hstate => ?_)
      (fun p => declares_answer s id p symbol) fun p hp => ?_
    · exact nomatch hspent.symm.trans hstate
    · rw [placeholder_answer, if_neg fun h => hp h.1]
  · exact .of_rebind hs hdeclares hset

instance : IsPreorder Session KeepsBindings where
  refl _ := .refl
  trans _ _ _ h h' hs := (h hs).trans (h' (h hs).faithful)

instance : Admits KeepsBindings where
  quiet h := of_step (.quiet h)
  step := of_step

instance : AdmitsRuns KeepsBindings where
  run {s s'} h hs := by
    refine .of_mild hs ?_
    cases h with
    | happened event hevent =>
      refine .of_eq rfl rfl fun p => Array.count_push_of_ne ?_
      rintro rfl
      cases hevent
    | _ => exact .of_eq rfl rfl fun _ => rfl

end KeepsBindings

end StagedAsm
