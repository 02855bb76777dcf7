import StagedAsm.Proofs.Settling

/-!
# What becomes of placeholders

A placeholder is asked at most once in a run, and what it answers stays: its state, and the entry of
the scope it was declared in. The history says when both happened.
-/

namespace StagedAsm

namespace Session

/-- How often a placeholder was asked what it stands for. -/
def asks (s : Session) (p : PlaceholderId) : Nat := s.history.count (.asked p)

/-- The name a placeholder was declared under, with its scope. -/
def Declares (s : Session) (p : PlaceholderId) (owner : ScopeId) (name : String) : Prop :=
  (s.placeholder p).owner = some owner ∧ (s.placeholder p).name = some name

/-- What holds of the placeholders of a session at any time. -/
structure Recorded (s : Session) : Prop where
  unasked : ∀ p, (s.placeholder p).IsPending → s.asks p = 0
  missing : ∀ p, s.placeholders.size ≤ p.index → s.asks p = 0
  bound : ∀ p owner name, s.Declares p owner name →
    ∃ symbol, s.tree.member? owner name = some symbol
  distinct : ∀ p q owner name, s.Declares p owner name → s.Declares q owner name → p = q

/-- The placeholder was asked once, stands for a symbol, and its name is bound to that. -/
structure Settled (s : Session) (p : PlaceholderId) (symbol : Symbol) : Prop where
  state : (s.placeholder p).state = .settled symbol
  once : s.asks p = 1
  bound : ∀ owner name, s.Declares p owner name → s.tree.member? owner name = some symbol

def SettledIn (s : Session) (p : PlaceholderId) (events : List Event) : Prop :=
  ∃ symbol, s.Settled p symbol ∧ .asked p ∈ events ∧ .answered p symbol ∈ events ∧
    ∀ owner name, s.Declares p owner name → .rebound owner name symbol ∈ events

variable {s : Session} {p : PlaceholderId} {owner : ScopeId} {name : String}

theorem Settled.not_isPending {symbol : Symbol} (h : s.Settled p symbol) :
    ¬ (s.placeholder p).IsPending := by
  rintro ⟨resolution, hstate⟩
  exact nomatch h.state.symm.trans hstate

theorem not_declares (h : (s.placeholder p).owner = none ∨ (s.placeholder p).name = none) :
    ¬ s.Declares p owner name := by
  rintro ⟨howner, hname⟩
  rcases h with h | h
  · exact nomatch h.symm.trans howner
  · exact nomatch h.symm.trans hname

theorem placeholder_of_size_le (h : s.placeholders.size ≤ p.index) : s.placeholder p = default := by
  simp [placeholder, Array.getElem?_eq_none h]

theorem lt_size_of_declares (h : s.Declares p owner name) : p.index < s.placeholders.size := by
  refine Nat.lt_of_not_le fun hle => ?_
  have howner := h.1
  rw [placeholder_of_size_le hle] at howner
  exact nomatch howner

end Session

/-! ## Steps that ask nothing -/

/-- The step adds bindings and placeholders without a name, and asks no placeholder. -/
structure Mild (s s' : Session) : Prop where
  tree : s.tree.Keeps s'.tree
  placeholders : ∃ added : Array Placeholder, s'.placeholders = s.placeholders ++ added ∧
    ∀ p ∈ added, p.owner = none ∧ p.IsPending
  asks : ∀ p, s'.asks p = s.asks p

variable {s s' : Session}

theorem Mild.of_eq (tree : s'.tree = s.tree) (placeholders : s'.placeholders = s.placeholders)
    (asks : ∀ p, s'.asks p = s.asks p) : Mild s s' where
  tree := tree ▸ refl_of ScopeTree.Keeps _
  placeholders := ⟨#[], by simp [placeholders], by simp⟩
  asks := asks

theorem Quiet.mild (h : Quiet s s') : Mild s s' where
  tree := h.tree
  placeholders := h.placeholders
  asks := fun p => by rw [Session.asks, h.history, Session.asks]

theorem Step.mild_or (h : Step s s') : Mild s s' ∨
    (∃ tree p owner name, p.owner = some owner ∧ p.name = some name ∧ p.IsPending ∧
      s.tree.member? owner name = none ∧ s.tree.Keeps tree ∧
      tree.member? owner name = some (.placeholder ⟨s.placeholders.size⟩) ∧
      s' = { s with tree, placeholders := s.placeholders.push p }) ∨
    (∃ id, (s.placeholder id).IsPending ∧ s' = s.ask id) ∨
    (∃ id symbol, id.index < s.placeholders.size ∧ (s.placeholder id).state = .spent ∧
      s' = s.answer id symbol) ∨
    (∃ id owner name symbol, s.Declares id owner name ∧
      (s.placeholder id).state = .settled symbol ∧ s' = s.rebind owner name symbol) := by
  cases h with
  | quiet h => exact .inl h.mild
  | bind tree p owner name howner hname hpending hfree hkeeps hbound =>
    exact .inr (.inl ⟨tree, p, owner, name, howner, hname, hpending, hfree, hkeeps, hbound, rfl⟩)
  | close hopen => exact .inl (.of_eq rfl rfl fun p => by simp [Session.asks, Session.closeEpoch])
  | ask id hpending => exact .inr (.inr (.inl ⟨id, hpending, rfl⟩))
  | answer id symbol hlt hspent =>
    exact .inr (.inr (.inr (.inl ⟨id, symbol, hlt, hspent, rfl⟩)))
  | rebind id owner name symbol howner hname hsettled =>
    exact .inr (.inr (.inr (.inr ⟨id, owner, name, symbol, ⟨howner, hname⟩, hsettled, rfl⟩)))
  | declare | fork => exact .inl (.of_eq rfl rfl fun _ => rfl)
  | replay id pass => exact .inl (.of_eq rfl rfl fun p => by simp [Session.asks, Session.replay])
  | use id arguments i h => exact .inl (.of_eq rfl rfl fun p => by simp [Session.asks, Session.use])
  | make id made pass hlt hfresh h =>
    obtain ⟨engine, _, hquiet⟩ := h.quiet
    refine .inl { tree := hquiet.tree, placeholders := hquiet.placeholders, asks := fun p => ?_ }
    rw [Session.asks, Session.enlist]
    simp [hquiet.history, Session.asks]
  | _ => exact .inl (.of_eq rfl rfl fun p => by simp [Session.asks])

theorem Mild.placeholder_cases (h : Mild s s') (p : PlaceholderId) :
    (p.index < s.placeholders.size ∧ s'.placeholder p = s.placeholder p) ∨
      (s.placeholders.size ≤ p.index ∧ (s'.placeholder p).owner = none) := by
  obtain ⟨added, hadded, hanonymous⟩ := h.placeholders
  by_cases hlt : p.index < s.placeholders.size
  · exact .inl ⟨hlt, by simp [Session.placeholder, hadded, Array.getElem?_append_left hlt]⟩
  -- It is one of those that were added, or none at all.
  · refine .inr ⟨Nat.le_of_not_lt hlt, ?_⟩
    simp only [Session.placeholder, hadded, Array.getD_eq_getD_getElem?,
      Array.getElem?_append_right (Nat.le_of_not_lt hlt)]
    cases hp : added[p.index - s.placeholders.size]? with
    | none => rfl
    | some q => exact (hanonymous q (Array.mem_of_getElem? hp)).1

theorem Mild.declares_iff (h : Mild s s') {p : PlaceholderId} {owner : ScopeId} {name : String} :
    s'.Declares p owner name ↔ s.Declares p owner name := by
  rcases h.placeholder_cases p with ⟨_, heq⟩ | ⟨hle, hnone⟩
  · rw [Session.Declares, heq, Session.Declares]
  · rw [Session.Declares, Session.Declares, hnone, Session.placeholder_of_size_le hle]
    exact ⟨fun h => (nomatch h.1), fun h => (nomatch h.1)⟩

/-! ## What a step keeps -/

namespace Session

variable {s s' : Session}

theorem Recorded.mild (hs : s.Recorded) (h : Mild s s') : s'.Recorded where
  unasked p hp := by
    rw [h.asks]
    rcases h.placeholder_cases p with ⟨_, heq⟩ | ⟨hle, _⟩
    · exact hs.unasked p (heq ▸ hp)
    · exact hs.missing p hle
  missing p hle := by
    obtain ⟨added, hadded, _⟩ := h.placeholders
    rw [h.asks]
    refine hs.missing p (Nat.le_trans ?_ hle)
    simp [hadded]
  bound p owner name hp := by
    obtain ⟨symbol, hsymbol⟩ := hs.bound p owner name (h.declares_iff.mp hp)
    exact ⟨symbol, h.tree.members _ _ _ hsymbol⟩
  distinct p q owner name hp hq :=
    hs.distinct p q owner name (h.declares_iff.mp hp) (h.declares_iff.mp hq)

variable {p id : PlaceholderId} {symbol : Symbol} {events : List Event} {owner : ScopeId}
  {name : String}

theorem Settled.mild (hp : s.Settled p symbol) (hs : s.Recorded) (h : Mild s s') :
    s'.Settled p symbol where
  state := by
    rcases h.placeholder_cases p with ⟨_, heq⟩ | ⟨hle, _⟩
    · exact heq ▸ hp.state
    · exact absurd hp.once (by simp [hs.missing p hle])
  once := (h.asks p).trans hp.once
  bound owner name hdeclares :=
    h.tree.members _ _ _ (hp.bound owner name (h.declares_iff.mp hdeclares))

theorem SettledIn.mild (hp : s.SettledIn p events) (hs : s.Recorded) (h : Mild s s') :
    s'.SettledIn p events := by
  obtain ⟨symbol, hsettled, hasked, hanswered, hrebound⟩ := hp
  exact ⟨symbol, hsettled.mild hs h, hasked, hanswered,
    fun owner name hd => hrebound owner name (h.declares_iff.mp hd)⟩

theorem placeholder_push (s : Session) (tree : ScopeTree) (new : Placeholder) (p : PlaceholderId) :
    ({ s with tree, placeholders := s.placeholders.push new } : Session).placeholder p =
      if p.index = s.placeholders.size then new else s.placeholder p :=
  getD_push _ _ _ _

theorem asks_ask (s : Session) (id p : PlaceholderId) :
    (s.ask id).asks p = s.asks p + if id = p then 1 else 0 := by
  simp [asks, ask, Array.count_push]

theorem asks_answer (s : Session) (id p : PlaceholderId) (symbol : Symbol) :
    (s.answer id symbol).asks p = s.asks p := by
  simp [asks, answer]

theorem asks_rebind (s : Session) (owner : ScopeId) (name : String) (symbol : Symbol)
    (p : PlaceholderId) : (s.rebind owner name symbol).asks p = s.asks p := by
  simp [asks, rebind]

@[simp] theorem declares_ask (s : Session) (id p : PlaceholderId) (owner : ScopeId)
    (name : String) : (s.ask id).Declares p owner name ↔ s.Declares p owner name := by
  rw [Declares, placeholder_ask, Declares]
  split
  · rename_i h
    rw [h.1]
  · rfl

@[simp] theorem declares_answer (s : Session) (id p : PlaceholderId) (symbol : Symbol)
    (owner : ScopeId) (name : String) :
    (s.answer id symbol).Declares p owner name ↔ s.Declares p owner name := by
  rw [Declares, placeholder_answer, Declares]
  split
  · rename_i h
    rw [h.1]
  · rfl

theorem member?_rebind (hbound : ∃ old, s.tree.member? owner name = some old) (symbol : Symbol)
    (other : ScopeId) (otherName : String) :
    (s.rebind owner name symbol).tree.member? other otherName =
      if other = owner ∧ otherName = name then some symbol
      else s.tree.member? other otherName := by
  have hlt : owner.index < s.tree.scopes.size := by
    obtain ⟨old, hold⟩ := hbound
    refine Nat.lt_of_not_le fun hle => ?_
    rw [ScopeTree.member?_of_size_le hle] at hold
    exact nomatch hold
  simp only [rebind, ScopeTree.member?, ScopeTree.scope_modifyScope, hlt, and_true]
  by_cases hother : other = owner
  · subst hother
    by_cases hname : otherName = name
    · simp [hname]
    · simp [hname, Dictionary.get?_set_of_ne _ hname]
  · simp [hother]

theorem Recorded.bind (hs : s.Recorded) {tree : ScopeTree} {new : Placeholder}
    (howner : new.owner = some owner) (hname : new.name = some name)
    (hfree : s.tree.member? owner name = none) (hkeeps : s.tree.Keeps tree)
    (hbound : tree.member? owner name = some (.placeholder ⟨s.placeholders.size⟩)) :
    Recorded { s with tree, placeholders := s.placeholders.push new } := by
  have hnew : ∀ p owner' name', Declares { s with tree, placeholders := s.placeholders.push new }
      p owner' name' → (p = ⟨s.placeholders.size⟩ ∧ owner' = owner ∧ name' = name) ∨
        s.Declares p owner' name' := by
    intro p owner' name' hp
    rw [Declares, placeholder_push] at hp
    split at hp
    · rename_i hp'
      rw [howner, hname] at hp
      cases hp.1
      cases hp.2
      exact .inl ⟨by cases p; simp_all, rfl, rfl⟩
    · exact .inr hp
  -- Names of placeholders are bound, so none was declared under a name that is free.
  have hold : ∀ p, ¬ s.Declares p owner name := by
    intro p hp
    obtain ⟨symbol, hsymbol⟩ := hs.bound p owner name hp
    exact nomatch hfree.symm.trans hsymbol
  refine ⟨fun p hp => ?_, fun p hle => ?_, fun p owner' name' hp => ?_,
    fun p q owner' name' hp hq => ?_⟩
  · rw [placeholder_push] at hp
    split at hp
    · rename_i hp'
      exact hs.missing p (Nat.le_of_eq hp'.symm)
    · exact hs.unasked p hp
  · exact hs.missing p (Nat.le_of_succ_le (by simpa using hle))
  · rcases hnew p owner' name' hp with ⟨_, rfl, rfl⟩ | hp
    · exact ⟨_, hbound⟩
    · obtain ⟨symbol, hsymbol⟩ := hs.bound p owner' name' hp
      exact ⟨symbol, hkeeps.members _ _ _ hsymbol⟩
  -- Two placeholders under one name: both are new, both are old, or the name was not free.
  · rcases hnew p owner' name' hp with ⟨hp', rfl, rfl⟩ | hp' <;>
      rcases hnew q _ _ hq with ⟨hq', h⟩ | hq'
    · exact hp'.trans hq'.symm
    · exact absurd hq' (hold q)
    · obtain ⟨rfl, rfl⟩ := h
      exact absurd hp' (hold p)
    · exact hs.distinct p q owner' name' hp' hq'

theorem Recorded.ask (hs : s.Recorded) (hpending : (s.placeholder id).IsPending) :
    (s.ask id).Recorded := by
  have hlt := lt_size_of_isPending hpending
  refine ⟨fun p hp => ?_, fun p hle => ?_, fun p owner name hp => ?_,
    fun p q owner name hp hq => ?_⟩
  · rw [placeholder_ask] at hp
    split at hp
    -- The placeholder that was asked is not pending any more.
    · obtain ⟨_, hstate⟩ := hp
      exact nomatch hstate
    · rename_i hne
      have hne' : id ≠ p := fun heq => hne ⟨heq.symm, hlt⟩
      rw [asks_ask, if_neg hne', hs.unasked p hp]
  · have hle' : s.placeholders.size ≤ p.index := by simpa using hle
    have hne : id ≠ p := fun heq => absurd (heq ▸ hlt) (Nat.not_lt.mpr hle')
    rw [asks_ask, if_neg hne, hs.missing p hle']
  · exact hs.bound p owner name ((declares_ask s id p owner name).mp hp)
  · exact hs.distinct p q owner name ((declares_ask s id p owner name).mp hp)
      ((declares_ask s id q owner name).mp hq)

theorem Recorded.answer (hs : s.Recorded) (id : PlaceholderId) (symbol : Symbol) :
    (s.answer id symbol).Recorded := by
  refine ⟨fun p hp => ?_, fun p hle => ?_, fun p owner name hp => ?_,
    fun p q owner name hp hq => ?_⟩
  · rw [placeholder_answer] at hp
    split at hp
    · obtain ⟨_, hstate⟩ := hp
      exact nomatch hstate
    · exact (asks_answer s id p symbol).trans (hs.unasked p hp)
  · exact (asks_answer s id p symbol).trans (hs.missing p (by simpa using hle))
  · exact hs.bound p owner name ((declares_answer s id p symbol owner name).mp hp)
  · exact hs.distinct p q owner name ((declares_answer s id p symbol owner name).mp hp)
      ((declares_answer s id q symbol owner name).mp hq)

theorem Recorded.rebind (hs : s.Recorded) (hdeclares : s.Declares id owner name) (symbol : Symbol) :
    (s.rebind owner name symbol).Recorded := by
  refine ⟨fun p hp => (asks_rebind ..).trans (hs.unasked p hp),
    fun p hle => (asks_rebind ..).trans (hs.missing p hle), fun p owner' name' hp => ?_,
    fun p q owner' name' hp hq => hs.distinct p q owner' name' hp hq⟩
  rw [member?_rebind (hs.bound id owner name hdeclares)]
  split
  · exact ⟨symbol, rfl⟩
  · exact hs.bound p owner' name' hp

theorem Recorded.step (hs : s.Recorded) (h : Step s s') : s'.Recorded := by
  rcases h.mild_or with h | ⟨tree, new, owner, name, howner, hname, _, hfree, hkeeps, hbound, rfl⟩ |
    ⟨id, hpending, rfl⟩ | ⟨id, symbol, _, _, rfl⟩ | ⟨id, owner, name, symbol, hdeclares, _, rfl⟩
  · exact hs.mild h
  · exact hs.bind howner hname hfree hkeeps hbound
  · exact hs.ask hpending
  · exact hs.answer id symbol
  · exact hs.rebind hdeclares symbol

theorem Settled.step (hp : s.Settled p symbol) (hs : s.Recorded) (h : Step s s') :
    s'.Settled p symbol := by
  rcases h.mild_or with h | ⟨tree, new, owner, name, howner, hname, hpending, hfree, hkeeps, hbound,
    rfl⟩ | ⟨id, hpending, rfl⟩ | ⟨id, symbol', hlt, hspent, rfl⟩ |
    ⟨id, owner, name, symbol', hdeclares, hsettled, rfl⟩
  · exact hp.mild hs h
  · have hold : p.index ≠ s.placeholders.size := fun heq =>
      absurd hp.once (by simp [hs.missing p (Nat.le_of_eq heq.symm)])
    have hplaceholder := (placeholder_push s tree new p).trans (if_neg hold)
    refine ⟨hplaceholder ▸ hp.state, hp.once, fun owner' name' hdeclares => ?_⟩
    rw [Declares, hplaceholder] at hdeclares
    exact hkeeps.members _ _ _ (hp.bound owner' name' hdeclares)
  -- Only pending placeholders are asked, and only asked ones answer.
  · have hne : id ≠ p := fun heq => hp.not_isPending (heq ▸ hpending)
    refine ⟨?_, by rw [asks_ask, if_neg hne, hp.once], fun owner name hdeclares => ?_⟩
    · rw [placeholder_ask, if_neg fun h => hne h.1.symm]
      exact hp.state
    · exact hp.bound owner name ((declares_ask s id p owner name).mp hdeclares)
  · have hne : id ≠ p := by
      rintro rfl
      exact nomatch hspent.symm.trans hp.state
    refine ⟨?_, (asks_answer ..).trans hp.once, fun owner name hdeclares => ?_⟩
    · rw [placeholder_answer, if_neg fun h => hne h.1.symm]
      exact hp.state
    · exact hp.bound owner name ((declares_answer s id p symbol' owner name).mp hdeclares)
  · refine ⟨hp.state, (asks_rebind ..).trans hp.once, fun owner' name' hp' => ?_⟩
    rw [member?_rebind (hs.bound id owner name hdeclares)]
    split
    · -- Only the placeholder itself is declared under the name.
      rename_i heq
      have hid : id = p := hs.distinct id p owner name hdeclares (heq.1 ▸ heq.2 ▸ hp')
      subst hid
      have hstate := hsettled.symm.trans hp.state
      cases hstate
      rfl
    · exact hp.bound owner' name' hp'

theorem Settled.declares_of_step (hp : s.Settled p symbol) (hs : s.Recorded) (h : Step s s')
    (hd : s'.Declares p owner name) : s.Declares p owner name := by
  rcases h.mild_or with h | ⟨tree, new, _, _, _, _, _, _, _, _, rfl⟩ | ⟨id, _, rfl⟩ |
    ⟨id, symbol', _, _, rfl⟩ | ⟨_, _, _, _, _, _, rfl⟩
  · exact h.declares_iff.mp hd
  · have hold : p.index ≠ s.placeholders.size := fun heq =>
      absurd hp.once (by simp [hs.missing p (Nat.le_of_eq heq.symm)])
    rw [Declares, placeholder_push, if_neg hold] at hd
    exact hd
  · exact (declares_ask s id p owner name).mp hd
  · exact (declares_answer s id p symbol' owner name).mp hd
  · exact hd

theorem SettledIn.step (hp : s.SettledIn p events) (hs : s.Recorded) (h : Step s s') :
    s'.SettledIn p events := by
  obtain ⟨symbol, hsettled, hasked, hanswered, hrebound⟩ := hp
  exact ⟨symbol, hsettled.step hs h, hasked, hanswered,
    fun owner name hd => hrebound owner name (hsettled.declares_of_step hs h hd)⟩

theorem SettledIn.mono {events' : List Event} (hp : s.SettledIn p events) (h : events ⊆ events') :
    s.SettledIn p events' := by
  obtain ⟨symbol, hsettled, hasked, hanswered, hrebound⟩ := hp
  exact ⟨symbol, hsettled, h hasked, h hanswered, fun owner name hd => h (hrebound owner name hd)⟩

end Session

/-! ## Settling what is drained -/

/-- The event belongs to settling placeholders. -/
def Event.settles : Event → Bool
  | .asked _ => true
  | .answered _ _ => true
  | .rebound _ _ _ => true
  | _ => false

/-- Records stay true, and placeholders that are settled stay so. -/
def Remembers (s s' : Session) : Prop :=
  s.Recorded → s'.Recorded ∧ ∀ p events, s.SettledIn p events → s'.SettledIn p events

namespace Remembers

instance : Std.Refl Remembers := ⟨fun _ hs => ⟨hs, fun _ _ hp => hp⟩⟩

instance : IsTrans Session Remembers := ⟨fun _ _ _ h h' hs =>
  ⟨(h' (h hs).1).1, fun p events hp => (h' (h hs).1).2 p events ((h hs).2 p events hp)⟩⟩

theorem of_step {s s' : Session} (h : Step s s') : Remembers s s' := fun hs =>
  ⟨hs.step h, fun _ _ hp => hp.step hs h⟩

instance : Admits Remembers where
  quiet h := of_step (.quiet h)
  step := of_step

end Remembers

open Session

theorem settlePlaceholder_spec {id : PlaceholderId} (hs : s.Recorded)
    (h : settlePlaceholder id s = .ok () s') :
    ∃ symbol rest, s'.history.toList =
        s.history.toList ++ .asked id :: .answered id symbol :: rest ∧
      (∀ event ∈ rest, event.settles = true) ∧
      s'.SettledIn id (.asked id :: .answered id symbol :: rest) := by
  obtain ⟨symbol, s1, hresolve, hrest⟩ := settlePlaceholder_eq_ok h
  obtain ⟨s2, hpending, hquiet, rfl, hspent⟩ := resolve_eq_ok hresolve
  have hlt : id.index < s2.placeholders.size := Nat.lt_of_lt_of_le
    (by simpa using lt_size_of_isPending hpending) hquiet.size_placeholders_le
  have hrecorded : (s2.answer id symbol).Recorded :=
    ((hs.ask hpending).mild hquiet.mild).answer id symbol
  have hstate : ((s2.answer id symbol).placeholder id).state = .settled symbol := by
    rw [placeholder_answer, if_pos ⟨rfl, hlt⟩]
  have honce : (s2.answer id symbol).asks id = 1 := by
    rw [asks_answer, hquiet.mild.asks, asks_ask, if_pos rfl, hs.unasked id hpending]
  have hhistory : (s2.answer id symbol).history.toList =
      s.history.toList ++ [.asked id, .answered id symbol] := by
    simp [answer, hquiet.history, ask]
  rcases hrest with ⟨hnone, rfl⟩ | ⟨owner, name, howner, hname, rfl⟩
  -- Without a name there is nothing to bind.
  · refine ⟨symbol, [], hhistory, by simp, symbol, ⟨hstate, honce, ?_⟩, by simp, by simp, ?_⟩
    · exact fun _ _ hd => absurd hd (not_declares hnone)
    · exact fun _ _ hd => absurd hd (not_declares hnone)
  · have hbound := hrecorded.bound id owner name ⟨howner, hname⟩
    have heq : ∀ owner' name', ((s2.answer id symbol).rebind owner name symbol).Declares id owner'
        name' → owner' = owner ∧ name' = name := by
      rintro owner' name' ⟨howner', hname'⟩
      exact ⟨Option.some.inj (howner'.symm.trans howner), Option.some.inj (hname'.symm.trans hname)⟩
    refine ⟨symbol, [.rebound owner name symbol], ?_, by simp [Event.settles], symbol,
      ⟨hstate, (asks_rebind ..).trans honce, fun owner' name' hd => ?_⟩, by simp, by simp,
      fun owner' name' hd => ?_⟩
    · rw [Session.rebind, Array.toList_push, hhistory, List.append_assoc]
      rfl
    · rw [member?_rebind hbound, if_pos (heq owner' name' hd)]
    · obtain ⟨rfl, rfl⟩ := heq owner' name' hd
      simp

theorem settleDrained_spec {ids : List PlaceholderId} (hs : s.Recorded)
    (h : settleDrained (ids.map .node) s = .ok () s') :
    ∃ events, s'.history.toList = s.history.toList ++ events ∧
      (∀ event ∈ events, event.settles = true) ∧ (∀ p ∈ ids, s'.SettledIn p events) ∧
      ∀ before b after, ids = before ++ b :: after → ∃ first last,
        events = first ++ .asked b :: last ∧
          ∀ a ∈ before, ∃ symbol, .answered a symbol ∈ first := by
  induction ids generalizing s with
  | nil =>
    cases h
    exact ⟨[], by simp, by simp, by simp, by simp⟩
  | cons id rest ih =>
    obtain ⟨_, s1, hid, hrest⟩ := bind_eq_ok.mp h
    -- What the first one settled stays settled while the others are.
    have hs1 : s1.Recorded := ((moves_settlePlaceholder id).of_ok (R := Remembers) hid hs).1
    have hkeep := ((moves_settleDrained (rest.map .node)).of_ok (R := Remembers) hrest hs1).2
    obtain ⟨symbol, bound, hhistory, hsettles, hsettled⟩ := settlePlaceholder_spec hs hid
    obtain ⟨events, hhistory', hsettles', hall, horder⟩ := ih hs1 hrest
    refine ⟨(.asked id :: .answered id symbol :: bound) ++ events, ?_, ?_, ?_, ?_⟩
    · simp [hhistory', hhistory]
    · simp only [List.mem_cons, List.cons_append, List.mem_append]
      rintro event (rfl | rfl | hevent | hevent)
      · rfl
      · rfl
      · exact hsettles event hevent
      · exact hsettles' event hevent
    · intro p hp
      rcases List.mem_cons.mp hp with rfl | hp
      · exact (hkeep _ _ hsettled).mono (List.subset_append_left _ _)
      · exact (hall p hp).mono (List.subset_append_right _ _)
    · intro before b after hids
      cases before with
      | nil =>
        cases hids
        exact ⟨[], _, rfl, by simp⟩
      | cons a before =>
        -- The first one has answered before any of the others is asked.
        cases hids
        obtain ⟨first, last, rfl, hfirst⟩ := horder before b after rfl
        refine ⟨.asked id :: .answered id symbol :: (bound ++ first), last, by simp, fun c hc => ?_⟩
        rcases List.mem_cons.mp hc with rfl | hc
        · exact ⟨symbol, by simp⟩
        · obtain ⟨symbol', hanswered⟩ := hfirst c hc
          exact ⟨symbol', by simp [hanswered]⟩

theorem settleDrained_cycle (ids nodes : List PlaceholderId) (s s' : Session) :
    settleDrained (ids.map .node ++ [.cycle nodes]) s ≠ .ok () s' := by
  induction ids generalizing s with
  | nil => exact fun h => nomatch h
  | cons id rest ih =>
    intro h
    obtain ⟨_, s1, _, hrest⟩ := bind_eq_ok.mp h
    exact ih s1 hrest

end StagedAsm
