import StagedAsm.Proofs.EngineMoves

/-!
# Asking placeholders

What it does to a session to ask one placeholder, to settle one, and to close the epoch: as an
equation for the whole outcome, and as a sequence of steps.
-/

namespace StagedAsm

open Session

variable {R : Session → Session → Prop}

/-! ## Placeholders of a session -/

namespace Session

theorem lt_size_of_isPending {s : Session} {id : PlaceholderId}
    (h : (s.placeholder id).IsPending) : id.index < s.placeholders.size := by
  apply Nat.lt_of_not_le
  intro hle
  obtain ⟨resolution, hstate⟩ := h
  rw [placeholder, Array.getD_eq_getD_getElem?, Array.getElem?_eq_none hle] at hstate
  exact nomatch hstate

theorem placeholder_modify (s : Session) (id other : PlaceholderId)
    (f : Placeholder → Placeholder) (history : Array Event) :
    ({ s with placeholders := s.placeholders.modify id.index f, history } : Session).placeholder
        other =
      if other = id ∧ id.index < s.placeholders.size then f (s.placeholder id)
      else s.placeholder other := by
  cases id
  cases other
  simp only [placeholder, getD_modify, PlaceholderId.mk.injEq]

theorem placeholder_ask (s : Session) (id other : PlaceholderId) :
    (s.ask id).placeholder other =
      if other = id ∧ id.index < s.placeholders.size then
        { s.placeholder id with state := .spent }
      else s.placeholder other :=
  s.placeholder_modify id other _ _

theorem placeholder_answer (s : Session) (id other : PlaceholderId) (symbol : Symbol) :
    (s.answer id symbol).placeholder other =
      if other = id ∧ id.index < s.placeholders.size then
        { s.placeholder id with state := .settled symbol }
      else s.placeholder other :=
  s.placeholder_modify id other _ _

@[simp] theorem size_placeholders_ask (s : Session) (id : PlaceholderId) :
    (s.ask id).placeholders.size = s.placeholders.size := by
  simp [ask]

@[simp] theorem size_placeholders_answer (s : Session) (id : PlaceholderId) (symbol : Symbol) :
    (s.answer id symbol).placeholders.size = s.placeholders.size := by
  simp [answer]

end Session

variable {s s' : Session} {id : PlaceholderId}

theorem Quiet.placeholder_eq (h : Quiet s s') (hlt : id.index < s.placeholders.size) :
    s'.placeholder id = s.placeholder id := by
  obtain ⟨added, hadded, _⟩ := h.placeholders
  simp [Session.placeholder, hadded, Array.getElem?_append_left hlt]

theorem Quiet.size_placeholders_le (h : Quiet s s') :
    s.placeholders.size ≤ s'.placeholders.size := by
  obtain ⟨added, hadded, _⟩ := h.placeholders
  simp [hadded]

/-! ## Asking one placeholder -/

/-- A placeholder answers once, by its resolution. -/
theorem resolve_eq (id : PlaceholderId) (s : Session) :
    id.resolve s = match (s.placeholder id).state with
      | .pending resolution =>
        match runResolution (s.placeholder id) resolution (s.ask id) with
        | .ok symbol s1 => .ok symbol (s1.answer id symbol)
        | .error fault s1 => .error fault s1
      | _ => .error (.error (.resolvedTwice (s.placeholder id).text)) s := by
  have hrun : id.resolve s = (match (s.placeholder id).state with
      | .pending resolution => do
        modifyPlaceholder id fun p => { p with state := .spent }
        happened (.asked id)
        let symbol ← runResolution (s.placeholder id) resolution
        modifyPlaceholder id fun p => { p with state := .settled symbol }
        happened (.answered id symbol)
        pure symbol
      | _ => fail (.resolvedTwice (s.placeholder id).text) : CompileM Symbol) s := rfl
  rw [hrun]
  cases (s.placeholder id).state with
  | pending resolution =>
    have hask : ∀ k : CompileM Symbol,
        (do modifyPlaceholder id fun p => { p with state := .spent }
            happened (.asked id)
            k) s = k (s.ask id) := fun _ => rfl
    dsimp only
    rw [hask]
    simp only [bind, EStateM.bind]
    cases runResolution (s.placeholder id) resolution (s.ask id) <;> rfl
  | spent => rfl
  | settled symbol => rfl

theorem resolve_eq_ok {symbol : Symbol} (h : id.resolve s = .ok symbol s') :
    ∃ s1, (s.placeholder id).IsPending ∧ Calm (s.ask id) s1 ∧ s' = s1.answer id symbol ∧
      (s1.placeholder id).state = .spent := by
  rw [resolve_eq] at h
  split at h
  · rename_i resolution hstate
    split at h
    · rename_i symbol' s1 hrun
      cases h
      have hcalm : Calm (s.ask id) s1 := (moves_runResolution _ _).of_ok hrun
      have hpending : (s.placeholder id).IsPending := ⟨resolution, hstate⟩
      have hlt := lt_size_of_isPending hpending
      refine ⟨s1, hpending, hcalm, rfl, ?_⟩
      rw [hcalm.placeholder_eq (by simpa using hlt), placeholder_ask, if_pos ⟨rfl, hlt⟩]
    · exact nomatch h
  · exact nomatch h

theorem moves_resolve [AdmitsPlain R] (id : PlaceholderId) : Moves R id.resolve := by
  intro s
  cases hstate : (s.placeholder id).state with
  | pending resolution =>
    have hpending : (s.placeholder id).IsPending := ⟨resolution, hstate⟩
    have hlt := lt_size_of_isPending hpending
    have hask : R s (s.ask id) :=
      AdmitsPlain.plain ⟨.ask id hpending, rfl, rfl, fun h => h⟩
    cases hrun : runResolution (s.placeholder id) resolution (s.ask id) with
    | ok symbol s1 =>
      have hok : id.resolve s = .ok symbol (s1.answer id symbol) := by
        rw [resolve_eq, hstate]
        simp only [hrun]
      obtain ⟨s2, _, hcalm, hanswer, hspent⟩ := resolve_eq_ok hok
      -- the resolution ran in between, but placeholders do not go away
      have hlt2 : id.index < s2.placeholders.size :=
        Nat.lt_of_lt_of_le (by simpa using hlt) hcalm.size_placeholders_le
      rw [leaves_of_ok hok, hanswer]
      exact trans_of R (trans_of R hask (AdmitsCalm.calm hcalm))
        (AdmitsPlain.plain ⟨.answer id symbol hlt2 hspent, rfl, rfl, fun h => h⟩)
    | error fault s1 =>
      have herror : id.resolve s = .error fault s1 := by
        rw [resolve_eq, hstate]
        simp only [hrun]
      rw [leaves_of_error herror]
      exact trans_of R hask ((moves_runResolution _ _).of_error hrun)
  | spent | settled =>
    have herror : leaves id.resolve s = s := by rw [leaves, resolve_eq, hstate]
    rw [herror]
    exact refl_of R s

/-! ## Settling one placeholder -/

theorem ScopeTree.replacePlaceholder_apply (id : ScopeId) (name : String) (symbol : Symbol)
    (t : ScopeTree) :
    replacePlaceholder id name symbol t = (match t.member? id name with
      | none => fail (.nothingToReplace name (t.absoluteName id))
      | some (.placeholder _) =>
        set (t.modifyScope id fun s => { s with members := s.members.set name symbol })
      | some other => fail (.replacedSettled other.kindName name (t.absoluteName id)) :
        TreeM Unit) t := rfl

theorem ScopeTree.replacePlaceholder_cases (id : ScopeId) (name : String) (symbol : Symbol)
    (t : ScopeTree) :
    (∃ fault, replacePlaceholder id name symbol t = .error fault t) ∨
      ∃ q, t.member? id name = some (.placeholder q) ∧
        replacePlaceholder id name symbol t = .ok ()
          (t.modifyScope id fun s => { s with members := s.members.set name symbol }) := by
  rw [replacePlaceholder_apply]
  rcases t.member? id name with _ | other
  · exact Or.inl ⟨_, rfl⟩
  · cases other with
    | placeholder q => exact Or.inr ⟨q, rfl, rfl⟩
    | _ => exact Or.inl ⟨_, rfl⟩

theorem rebinding_cases (id : PlaceholderId) (symbol : Symbol) (s : Session) :
    let p := s.placeholder id
    let rebinding : CompileM Unit := match p.owner, p.name with
      | some owner, some name => do
        onTree (ScopeTree.replacePlaceholder owner name symbol)
        happened (.rebound owner name symbol)
      | _, _ => pure ()
    (∃ fault, rebinding s = .error fault s) ∨
      ((p.owner = none ∨ p.name = none) ∧ rebinding s = .ok () s) ∨
      ∃ owner name q, p.owner = some owner ∧ p.name = some name ∧
        s.tree.member? owner name = some (.placeholder q) ∧
        rebinding s = .ok () (s.rebind owner name symbol) := by
  intro p rebinding
  cases howner : p.owner with
  | none => exact Or.inr (Or.inl ⟨Or.inl rfl, by simp only [rebinding, howner]; rfl⟩)
  | some owner =>
    cases hname : p.name with
    | none => exact Or.inr (Or.inl ⟨Or.inr rfl, by simp only [rebinding, howner, hname]; rfl⟩)
    | some name =>
      rcases ScopeTree.replacePlaceholder_cases owner name symbol s.tree with
        ⟨fault, h⟩ | ⟨q, hq, h⟩
      · left
        exact ⟨fault, by simp only [rebinding, howner, hname, bind, EStateM.bind, onTree, h]⟩
      · right
        right
        refine ⟨owner, name, q, rfl, rfl, hq, ?_⟩
        simp only [rebinding, howner, hname, bind, EStateM.bind, onTree, h]
        rfl

theorem settlePlaceholder_eq (id : PlaceholderId) :
    settlePlaceholder id = id.resolve >>= fun symbol => get >>= fun s =>
      match (s.placeholder id).owner, (s.placeholder id).name with
      | some owner, some name => do
        onTree (ScopeTree.replacePlaceholder owner name symbol)
        happened (.rebound owner name symbol)
      | _, _ => pure () := rfl

theorem settlePlaceholder_eq_ok (h : settlePlaceholder id s = .ok () s') :
    ∃ symbol s1, id.resolve s = .ok symbol s1 ∧
      (((s1.placeholder id).owner = none ∨ (s1.placeholder id).name = none) ∧ s' = s1 ∨
        ∃ owner name, (s1.placeholder id).owner = some owner ∧
          (s1.placeholder id).name = some name ∧ s' = s1.rebind owner name symbol) := by
  rw [settlePlaceholder_eq] at h
  obtain ⟨symbol, s1, hresolve, h⟩ := bind_eq_ok.mp h
  obtain ⟨_, _, hget, h⟩ := bind_eq_ok.mp h
  cases hget
  refine ⟨symbol, s1, hresolve, ?_⟩
  rcases rebinding_cases id symbol s1 with ⟨fault, hrun⟩ | ⟨hnone, hrun⟩ |
    ⟨owner, name, q, howner, hname, _, hrun⟩
  · rw [hrun] at h
    exact nomatch h
  · rw [hrun] at h
    cases h
    exact Or.inl ⟨hnone, rfl⟩
  · rw [hrun] at h
    cases h
    exact Or.inr ⟨owner, name, howner, hname, rfl⟩

theorem moves_settlePlaceholder_of [AdmitsPlain R]
    (hrebind : ∀ {s : Session} {owner : ScopeId} {name : String} {symbol : Symbol},
      (s.placeholder id).owner = some owner → (s.placeholder id).name = some name →
      (s.placeholder id).state = .settled symbol → R s (s.rebind owner name symbol)) :
    Moves R (settlePlaceholder id) := by
  intro s
  rw [settlePlaceholder_eq]
  refine Moves.leaves_bind (moves_resolve id s) fun symbol s1 hresolve => ?_
  have hsettled : (s1.placeholder id).state = .settled symbol := by
    obtain ⟨s2, hpending, hcalm, rfl, _⟩ := resolve_eq_ok hresolve
    have hlt : id.index < s2.placeholders.size := Nat.lt_of_lt_of_le
      (by simpa using lt_size_of_isPending hpending) hcalm.size_placeholders_le
    rw [placeholder_answer, if_pos ⟨rfl, hlt⟩]
  refine Moves.leaves_bind (refl_of R s1) fun s2 _ hget => ?_
  cases hget
  -- the answer is kept even where the name cannot be given it
  rcases rebinding_cases id symbol s1 with ⟨fault, hrun⟩ | ⟨_, hrun⟩ |
    ⟨owner, name, _, howner, hname, _, hrun⟩
  · rw [leaves_of_error hrun]
    exact refl_of R s1
  · rw [leaves_of_ok hrun]
    exact refl_of R s1
  · rw [leaves_of_ok hrun]
    exact hrebind howner hname hsettled

/-- A relation in which names get what their placeholders stand for. -/
class AdmitsRebinds (R : Session → Session → Prop) : Prop extends AdmitsPlain R where
  rebind {s : Session} {id : PlaceholderId} {owner : ScopeId} {name : String} {symbol : Symbol}
    (howner : (s.placeholder id).owner = some owner) (hname : (s.placeholder id).name = some name)
    (hsettled : (s.placeholder id).state = .settled symbol) : R s (s.rebind owner name symbol)

instance [Admits R] : AdmitsRebinds R where
  rebind howner hname hsettled := Admits.step (.rebind _ _ _ _ howner hname hsettled)

theorem moves_settlePlaceholder [AdmitsRebinds R] (id : PlaceholderId) :
    Moves R (settlePlaceholder id) := moves_settlePlaceholder_of AdmitsRebinds.rebind

/-! ## Closing the epoch -/

theorem moves_settleDrained_of [IsPreorder Session R] {items : List (Drained PlaceholderId)}
    (h : ∀ id, .node id ∈ items → Moves R (settlePlaceholder id)) :
    Moves R (settleDrained items) := by
  induction items with
  | nil => exact .pure _
  | cons item rest ih =>
    cases item with
    | node id =>
      exact .bind (h id List.mem_cons_self) fun _ => ih fun id hid =>
        h id (List.mem_cons_of_mem _ hid)
    | cycle ids => exact .bind .look fun _ => .fail _

theorem moves_settleDrained [AdmitsRebinds R] (items : List (Drained PlaceholderId)) :
    Moves R (settleDrained items) := moves_settleDrained_of fun id _ => moves_settlePlaceholder id

theorem closeEpoch_apply (s : Session) :
    closeEpoch s = (match s.epoch with
      | none => fail .epochLost
      | some graph => do
        modify fun s => { s with epoch := none }
        happened .closing
        let (drain, _) ← ofExcept graph.sort
        settleDrained drain.toList : CompileM Unit) s := rfl

/-- The epoch is taken away before it is sorted. -/
theorem closeEpoch_eq (s : Session) :
    closeEpoch s = match s.epoch with
      | none => .error (.error .epochLost) s
      | some graph =>
        (ofExcept graph.sort >>= fun result => settleDrained result.1.toList) s.closeEpoch := by
  rw [closeEpoch_apply]
  cases s.epoch <;> rfl

theorem step_closeEpoch [AdmitsPlain R]
    (h : ∀ {graph drain closed}, s.epoch = some graph → graph.sort = .ok (drain, closed) →
      ∀ id, .node id ∈ drain.toList → Moves R (settlePlaceholder id)) :
    R s (leaves closeEpoch s) := by
  cases hopen : s.epoch with
  | none =>
    have hleaves : leaves closeEpoch s = s := by rw [leaves, closeEpoch_eq, hopen]
    rw [hleaves]
    exact refl_of R s
  | some graph =>
    have hleaves : leaves closeEpoch s = leaves (ofExcept graph.sort >>= fun result =>
        settleDrained result.1.toList) s.closeEpoch := by
      simp only [leaves, closeEpoch_eq, hopen]
    rw [hleaves]
    refine trans_of R (AdmitsPlain.plain ⟨.close hopen, rfl, rfl, id⟩) ?_
    refine Moves.leaves_bind (Moves.ofExcept _ s.closeEpoch) fun result s1 hsort => ?_
    obtain ⟨hsorted, rfl⟩ := ofExcept_eq_ok.mp hsort
    exact moves_settleDrained_of (h hopen hsorted) s.closeEpoch

theorem moves_closeEpoch [AdmitsRebinds R] : Moves R closeEpoch :=
  fun _ => step_closeEpoch fun _ _ id _ => moves_settlePlaceholder id

theorem closeEpoch_eq_ok (h : closeEpoch s = .ok () s') :
    ∃ graph drain closed, s.epoch = some graph ∧ graph.sort = .ok (drain, closed) ∧
      settleDrained drain.toList s.closeEpoch = .ok () s' := by
  rw [closeEpoch_eq] at h
  split at h
  · exact nomatch h
  · rename_i graph hopen
    obtain ⟨⟨drain, closed⟩, s1, hsort, h⟩ := bind_eq_ok.mp h
    cases hs : graph.sort with
    | error e =>
      rw [hs] at hsort
      exact nomatch hsort
    | ok result =>
      rw [hs] at hsort
      cases hsort
      exact ⟨graph, drain, closed, hopen, hs, h⟩

end StagedAsm
