import StagedAsm.Proofs.StructLinking
import StagedAsm.Run.Script

/-!
# Type references settle to one type

A type reference is settled when its path is looked up, when what it waited for is known, or when
its type is needed at last. Whichever comes first, it gets the type that its form makes of what the
path names, and keeps it, unless it was settled inside a call that was looking its path up.
-/

namespace StagedAsm

/-! ## What a form comes to -/

/-- The type whose values a form stands for, if its path names `T`. -/
def TypeForm.target? (T : TypeSymbol) : TypeForm → Option TypeSymbol
  | .named _ => some T
  | .value _ => T.target?
  | .reference _ => some (.reference T)
  | _ => none

theorem TypeForm.base_of_target? {T T' : TypeSymbol} {form : TypeForm}
    (h : form.target? T = some T') : T'.base = T.base := by
  cases form with
  | value path =>
    cases T with
    | reference target =>
      cases h
      rfl
    | _ => cases h
  | _ => cases h <;> rfl

namespace Session

variable {s t : Session} {T T' : TypeSymbol} {type : ValueType} {form : TypeForm}

def KeepsSize (T : TypeSymbol) (s t : Session) : Prop :=
  ∀ size, (s.typeInfo T).instanceSize = some size → (t.typeInfo T).instanceSize = some size

theorem KeepsSize.valueTypeOf (hsize : KeepsSize T s t) (h : s.valueTypeOf T = .ok type) :
    t.valueTypeOf T = .ok type := by
  unfold Session.valueTypeOf valueSize instanceSize at *
  cases hdefined : T.size.isDefined with
  | true => simpa [hdefined] using h
  | false =>
    cases hknown : (s.typeInfo T).instanceSize with
    | none => simp [hdefined, hknown, Except.map] at h
    | some size => simpa [hdefined, hknown, hsize size hknown] using h

theorem outcome_eq : applyTypeForm.outcome s T =
    match s.valueTypeOf T with
    | .ok type => .ok (.known type)
    | .error _ => .ok (.awaitingLayout T) := by
  unfold applyTypeForm.outcome valueTypeOf valueSize instanceSize
  cases hdefined : T.size.isDefined with
  | true => simp [Except.map]
  | false => cases hknown : (s.typeInfo T).instanceSize <;> simp [Except.map]

theorem applyTypeForm_eq_ok {x : TypeOutcome} : s.applyTypeForm form (.type T) = .ok x ↔
    ∃ T', form.target? T = some T' ∧ applyTypeForm.outcome s T' = .ok x := by
  cases form with
  | named path => simp [applyTypeForm, TypeForm.target?]
  | value path => cases T <;> simp [applyTypeForm, TypeForm.target?, TypeSymbol.target?]
  | reference path =>
    simp [applyTypeForm, TypeForm.target?, applyTypeForm.outcome, TypeSymbol.size, Size.isDefined]
  | _ => simp [applyTypeForm, TypeForm.target?]

theorem KeepsSize.applyTypeForm (hsize : KeepsSize T s t)
    (h : s.applyTypeForm form (.type T) = .ok (.known type)) :
    t.applyTypeForm form (.type T) = .ok (.known type) := by
  obtain ⟨T', htarget, h⟩ := applyTypeForm_eq_ok.mp h
  have hsize' : KeepsSize T' s t := by
    intro size hknown
    rw [typeInfo, TypeForm.base_of_target? htarget] at hknown ⊢
    exact hsize size hknown
  refine applyTypeForm_eq_ok.mpr ⟨T', htarget, ?_⟩
  rw [outcome_eq] at h ⊢
  cases htype : s.valueTypeOf T' with
  | error e => simp [htype] at h
  | ok found =>
    rw [htype] at h
    rw [hsize'.valueTypeOf htype]
    exact h

theorem applyTypeForm_of_awaitingLayout
    (h : s.applyTypeForm form (.type T) = .ok (.awaitingLayout T'))
    (htype : t.valueTypeOf T' = .ok type) :
    t.applyTypeForm form (.type T) = .ok (.known type) := by
  obtain ⟨T1, htarget, h⟩ := applyTypeForm_eq_ok.mp h
  rw [outcome_eq] at h
  split at h
  · cases h
  · cases h
    exact applyTypeForm_eq_ok.mpr ⟨T', htarget, by rw [outcome_eq, htype]⟩

end Session

/-! ## The three calls -/

/-- The reference is as before. -/
def Untouched (id : TypeRefId) (s s' : Session) : Prop :=
  s'.typeRefs[id.index]? = s.typeRefs[id.index]?

namespace Untouched

variable {id : TypeRefId} {s s' : Session} (h : Untouched id s s')

include h

theorem typeRef : s'.typeRef id = s.typeRef id := by
  simp only [Session.typeRef, Array.getD_eq_getD_getElem?]
  rw [h]

theorem lt (hlt : id.index < s.typeRefs.size) : id.index < s'.typeRefs.size := by
  refine Nat.lt_of_not_le fun hle => ?_
  have hnone := h.symm.trans (Array.getElem?_eq_none hle)
  exact absurd hlt (Nat.not_lt.mpr (Array.getElem?_eq_none_iff.mp hnone))

end Untouched

namespace TypeRefId

variable {id : TypeRefId} {find : Finder} {link : PlaceholderId → CompileM Unit}
  {s s1 s' t t' : Session} {symbol : Symbol} {type : ValueType} {T : TypeSymbol}

theorem settle_of_known (h : (s.typeRef id).known = some type) : id.settle s = .ok () s := by
  show (if (s.typeRef id).known.isSome then _ else _ : CompileM Unit) s = _
  rw [h]
  rfl

theorem await_of_known (h : (s.typeRef id).known = some type) :
    id.await find link s = .ok () s := by
  show (if (s.typeRef id).known.isSome then _ else _ : CompileM Unit) s = _
  rw [h]
  rfl

theorem solve_of_known (h : (s.typeRef id).known = some type) :
    id.solve find s = .ok type s := by
  unfold solve
  rw [get_bind]
  simp only [h]
  rfl

theorem solve_of_apply (hopen : (s.typeRef id).known = none)
    (hfound : find (s.typeRef id).form.path s = .ok symbol s1)
    (happly : s1.applyTypeForm (s.typeRef id).form (s1.settled symbol) = .ok (.known type)) :
    ∃ s', id.solve find s = .ok type s' := by
  unfold solve
  rw [get_bind]
  simp only [hopen]
  rw [bind_of_ok hfound, get_bind, happly]
  exact ⟨_, rfl⟩

theorem typeRef_modify_self (hlt : id.index < s.typeRefs.size) (f : TypeRef → TypeRef) :
    ({ s with typeRefs := s.typeRefs.modify id.index f } : Session).typeRef id =
      f (s.typeRef id) := by
  rw [s.typeRef_modify, if_pos ⟨rfl, hlt⟩]

theorem result_eq_ok {p : PlaceholderId} (h : p.result s = .ok symbol s') :
    (s.placeholder p).result? = some symbol ∧ s' = s := by
  unfold PlaceholderId.result at h
  rw [get_bind] at h
  cases hp : (s.placeholder p).result? with
  | none =>
    simp only [hp] at h
    cases h
  | some found =>
    simp only [hp] at h
    obtain ⟨rfl, rfl⟩ := pure_eq_ok.mp h
    exact ⟨rfl, rfl⟩

theorem settle_eq_ok (hopen : (t.typeRef id).known = none) (hlt : id.index < t.typeRefs.size)
    (h : id.settle t = .ok () t') : ∃ type, (t'.typeRef id).known = some type ∧
      ((∃ T, (t.typeRef id).awaited = some (.layout T) ∧ t.valueTypeOf T = .ok type) ∨
        ∃ p symbol, (t.typeRef id).awaited = some (.symbol p) ∧
          (t.placeholder p).result? = some symbol ∧
          t.applyTypeForm (t.typeRef id).form symbol = .ok (.known type)) := by
  unfold settle at h
  rw [get_bind, hopen] at h
  cases hawaited : (t.typeRef id).awaited with
  | none =>
    simp only [hawaited] at h
    cases h
  | some awaited =>
    simp only [hawaited] at h
    obtain ⟨_, t1, hforget, h⟩ := bind_eq_ok.mp h
    have hset : ∀ type, id.setKnown type t1 = .ok () t' → (t'.typeRef id).known = some type := by
      intro type hset
      obtain rfl := modify_eq_ok.mp hforget
      obtain rfl := modify_eq_ok.mp hset
      rw [typeRef_modify_self (by simpa using hlt)]
    obtain rfl := modify_eq_ok.mp hforget
    cases awaited with
    | layout T =>
      obtain ⟨type, _, hrun, h⟩ := bind_eq_ok.mp h
      obtain ⟨hvalue, rfl⟩ := ofExcept_eq_ok.mp hrun
      exact ⟨type, hset type h, .inl ⟨T, rfl, hvalue⟩⟩
    | symbol p =>
      obtain ⟨symbol, _, hrun, h⟩ := bind_eq_ok.mp h
      obtain ⟨hresult, rfl⟩ := result_eq_ok hrun
      obtain ⟨outcome, _, hrun, h⟩ := bind_eq_ok.mp h
      obtain ⟨happly, rfl⟩ := ofExcept_eq_ok.mp hrun
      cases outcome with
      | known type => exact ⟨type, hset type h, .inr ⟨p, symbol, rfl, hresult, happly⟩⟩
      | awaitingLayout T => cases h

theorem await_eq_ok (hopen : (s.typeRef id).known = none)
    (hfound : find (s.typeRef id).form.path s = .ok symbol s1)
    (h : id.await find link s = .ok () s') :
    (∃ p, symbol = .placeholder p ∧ (s1.placeholder p).result? = none ∧
      await.waitFor id link (.symbol p) s1 = .ok () s') ∨
    await.settleFrom id link s1 (s.typeRef id) (s1.settled symbol) s1 = .ok () s' := by
  unfold await at h
  rw [get_bind, hopen] at h
  simp only [Option.isSome_none, Bool.false_eq_true, ↓reduceIte] at h
  rw [bind_of_ok hfound, get_bind] at h
  cases symbol with
  | placeholder p =>
    dsimp only at h
    split at h
    · exact .inr h
    · rename_i hsettled
      exact .inl ⟨p, rfl, by simpa [Placeholder.isSettled] using hsettled, h⟩
  | _ => exact .inr h

theorem waitFor_eq_ok {awaited : Awaited}
    (hlink : ∀ p s', link p s = .ok () s' → Untouched id s s') (hlt : id.index < s.typeRefs.size)
    (h : await.waitFor id link awaited s = .ok () s') :
    s'.typeRef id = { s.typeRef id with awaited := some awaited } ∧
      id.index < s'.typeRefs.size := by
  obtain ⟨p, s2, hp, h⟩ := bind_eq_ok.mp h
  obtain rfl : s = s2 := Moves.of_ok (moves_awaitedPlaceholder awaited) hp
  obtain ⟨_, s3, hlinked, h⟩ := bind_eq_ok.mp h
  have huntouched := hlink p s3 hlinked
  obtain rfl := modify_eq_ok.mp h
  refine ⟨?_, by simpa using huntouched.lt hlt⟩
  rw [typeRef_modify_self (huntouched.lt hlt), huntouched.typeRef]

def Names (s t : Session) (symbol : Symbol) (T : TypeSymbol) : Prop :=
  s.settled symbol = .type T ∨ ∃ p, symbol = .placeholder p ∧ (s.placeholder p).result? = none ∧
    (t.placeholder p).result? = some (.type T)

structure Settles (id : TypeRefId) (find : Finder) (link : PlaceholderId → CompileM Unit)
    (T : TypeSymbol) (s s1 s' t t' : Session) (symbol : Symbol) : Prop where
  lt : id.index < s.typeRefs.size
  opened : (s.typeRef id).known = none
  found : find (s.typeRef id).form.path s = .ok symbol s1
  sought : Untouched id s s1
  linked : ∀ p u, link p s1 = .ok () u → Untouched id s1 u
  awaits : id.await find link s = .ok () s'
  kept : Untouched id s' t
  names : Names s1 t symbol T
  settles : id.settle t = .ok () t'

theorem Settles.known (h : Settles id find link T s s1 s' t t' symbol) :
    ∃ type, (t'.typeRef id).known = some type ∧
      (s1.applyTypeForm (s.typeRef id).form (.type T) = .ok (.known type) ∨
        t.applyTypeForm (s.typeRef id).form (.type T) = .ok (.known type)) := by
  have hlt := h.sought.lt h.lt
  -- What settling does if the reference was left waiting.
  have hwaited : ∀ awaited, await.waitFor id link awaited s1 = .ok () s' →
      ∃ type, (t'.typeRef id).known = some type ∧
        ((∃ T, awaited = .layout T ∧ t.valueTypeOf T = .ok type) ∨
          ∃ p symbol, awaited = .symbol p ∧ (t.placeholder p).result? = some symbol ∧
            t.applyTypeForm (s.typeRef id).form symbol = .ok (.known type)) := by
    intro awaited hwait
    obtain ⟨href, hlt'⟩ := waitFor_eq_ok h.linked hlt hwait
    rw [← h.kept.typeRef, h.sought.typeRef] at href
    have hsettled := settle_eq_ok (by rw [href]; exact h.opened) (h.kept.lt hlt') h.settles
    rw [href] at hsettled
    simpa using hsettled
  rcases await_eq_ok h.opened h.found h.awaits with ⟨p, hp, hpending, hwait⟩ | hfrom
  · obtain ⟨type, hknown, ⟨_, hlayout, -⟩ | ⟨p', result, hsame, hresult, happly⟩⟩ := hwaited _ hwait
    · cases hlayout
    · cases hsame
      rcases h.names with hdirect | ⟨_, hp', -, hlater⟩
      · simp [Session.settled, hp, hpending] at hdirect
      · cases hp.symm.trans hp'
        cases hresult.symm.trans hlater
        exact ⟨type, hknown, .inr happly⟩
  · obtain ⟨outcome, s2, hrun, hrest⟩ := bind_eq_ok.mp hfrom
    obtain ⟨happly, rfl⟩ := ofExcept_eq_ok.mp hrun
    rcases h.names with hdirect | ⟨p, hp, hpending, -⟩
    · rw [hdirect] at happly
      cases outcome with
      | known type =>
        obtain rfl := modify_eq_ok.mp hrest
        have hknown : (t.typeRef id).known = some type := by
          rw [h.kept.typeRef, typeRef_modify_self hlt]
        have hsame := h.settles
        rw [settle_of_known hknown] at hsame
        cases hsame
        exact ⟨type, hknown, .inl happly⟩
      | awaitingLayout T' =>
        obtain ⟨type, hknown, ⟨_, hlayout, hvalue⟩ | ⟨_, _, hsame, -⟩⟩ := hwaited _ hrest
        · cases hlayout
          exact ⟨type, hknown, .inr (Session.applyTypeForm_of_awaitingLayout happly hvalue)⟩
        · cases hsame
    · simp [Session.settled, hp, hpending, Session.applyTypeForm] at happly

end TypeRefId

/-! ## Settled for good -/

def KeepsKnown (busy : TypeRefId → Prop) (s s' : Session) : Prop :=
  ∀ id, ¬ busy id → ∀ type, (s.typeRef id).known = some type → (s'.typeRef id).known = some type

instance (busy : TypeRefId → Prop) : IsPreorder Session (KeepsKnown busy) where
  refl _ _ _ _ h := h
  trans _ _ _ h h' id hid type hknown := h' id hid type (h id hid type hknown)

theorem moves_modifyTypeRef_busy (id : TypeRefId) (f : TypeRef → TypeRef) :
    Moves (KeepsKnown (· = id)) (modifyTypeRef id f) := by
  intro s other hother type hknown
  refine (congrArg TypeRef.known (s.typeRef_modify id other f)).trans ?_
  rw [if_neg fun h => hother h.1]
  exact hknown

theorem keepsKnown_of_busy {α : Type} {m : CompileM α} {id : TypeRefId}
    (hself : ∀ s type, (s.typeRef id).known = some type → leaves m s = s)
    (hothers : Moves (KeepsKnown (· = id)) m) : Moves (KeepsKnown fun _ => False) m := by
  intro s other _ type hknown
  by_cases hother : other = id
  · subst hother
    rw [hself s type hknown]
    exact hknown
  · exact hothers s other hother type hknown

open TypeRefId Session

/-- A type reference gets the same type whichever way it is settled, and the calls that settle
    references change no type that was known when they began. -/
theorem type_references_settle_consistently (id : TypeRefId) (find : Finder)
    (link : PlaceholderId → CompileM Unit) :
    (∀ s type, (s.typeRef id).known = some type → id.await find link s = .ok () s ∧
      id.settle s = .ok () s ∧ id.solve find s = .ok type s) ∧
    Moves (KeepsKnown fun _ => False) id.settle ∧
    ((∀ path, Moves (KeepsKnown (· = id)) (find path)) →
      (∀ p, Moves (KeepsKnown (· = id)) (link p)) →
      Moves (KeepsKnown fun _ => False) (id.await find link) ∧
      Moves (KeepsKnown fun _ => False) (id.solve find)) ∧
    ∀ {T : TypeSymbol} {s s1 s' t t' : Session} {symbol : Symbol},
      Settles id find link T s s1 s' t t' symbol → ∃ type, (t'.typeRef id).known = some type ∧
        -- A reference of the same form is solved where its path leads to the same type.
        ∀ {other : TypeRefId} {find' : Finder} {u u1 : Session} {symbol' : Symbol},
          (u.typeRef other).known = none → (u.typeRef other).form = (s.typeRef id).form →
          find' (u.typeRef other).form.path u = .ok symbol' u1 →
          u1.settled symbol' = .type T → KeepsSize T s1 u1 → KeepsSize T t u1 →
          ∃ u', other.solve find' u = .ok type u' := by
  have hset := moves_modifyTypeRef_busy id
  refine ⟨fun s type h => ⟨await_of_known h, settle_of_known h, solve_of_known h⟩,
    keepsKnown_of_busy (fun _ _ h => leaves_of_ok (settle_of_known h)) (moves_settle hset),
    fun hfind hlink => ⟨?_, ?_⟩, ?_⟩
  · exact keepsKnown_of_busy (fun _ _ h => leaves_of_ok (await_of_known h))
      (moves_await hset hfind hlink)
  · exact keepsKnown_of_busy (fun _ _ h => leaves_of_ok (solve_of_known h))
      (moves_solve hset hfind)
  · intro T s s1 s' t t' symbol h
    obtain ⟨type, hknown, happly⟩ := h.known
    refine ⟨type, hknown, ?_⟩
    intro other find' u u1 symbol' hopen hform hfound hsame hearly hlate
    refine solve_of_apply hopen hfound ?_
    rw [hform, hsame]
    exact happly.elim hearly.applyTypeForm hlate.applyTypeForm

def layoutStatements : List Statement :=
  [.struct "U" [(.sized .dword, "x")] [], .struct "T" [(.value [.mk "U" []], "u")] []]

def layoutProgram : Program :=
  match buildProgram layoutStatements (leaves (startEngine []) {}) with
  | .ok program _ => program
  | .error _ _ => []

/-- Two references to the values of the structure. -/
def layoutStart : Session :=
  let s := leaves (buildProgram layoutStatements) (leaves (startEngine []) {})
  { s with typeRefs := s.typeRefs ++
      #[.ofForm (.value (.ofName "T")), .ofForm (.value (.ofName "T"))] }

def layoutDeclared : Session :=
  leaves ((EngineId.runner ⟨0⟩ 0).compile layoutProgram .declare) layoutStart

/-- The first reference waits for the layout. -/
def layoutAwaited : Session :=
  leaves (await ⟨2⟩ (EngineId.runner ⟨0⟩ 0).find fun _ => pure ()) layoutDeclared

/-- The size of the structure is known. -/
def layoutPublished : Session :=
  leaves ((EngineId.runner ⟨0⟩ 0).compile layoutProgram .resolve) layoutAwaited

theorem find_layout {s : Session} (hlt : 0 < s.engines.size) (hfiles : (s.engine ⟨0⟩).files = [])
    (hpass : (s.engine ⟨0⟩).currentPass ≠ .declare)
    (hmember : ((s.engine ⟨0⟩).scopes.findSome? fun scope => s.tree.member? scope "T") =
      some (.type (.reference (.struct ⟨1⟩ "T" (some ⟨1⟩))))) :
    (EngineId.runner ⟨0⟩ 0).find (.ofName "T") s =
      .ok (.type (.reference (.struct ⟨1⟩ "T" (some ⟨1⟩)))) s := by
  have hends : Ends ((EngineId.runner ⟨0⟩ 0).find (.ofName "T")) s _ fun _ => False :=
    Runner.find_ofName_ends ⟨hlt, rfl⟩ hfiles hpass fun hnone => by
      cases hnone.symm.trans hmember
  obtain ⟨_, _, hfind, rfl, member, hmember', rfl⟩ := hends.exists_ok fun _ h => h
  cases hmember.symm.trans hmember'
  exact hfind

theorem type_references_settle_consistently_layout :
    ∃ type u, ((leaves (settle ⟨2⟩) layoutPublished).typeRef ⟨2⟩).known = some type ∧
      solve ⟨3⟩ (EngineId.runner ⟨0⟩ 0).find layoutPublished = .ok type u := by
  have hform : (layoutDeclared.typeRef ⟨2⟩).form = .value (.ofName "T") := by decide +kernel
  have hform' : (layoutPublished.typeRef ⟨3⟩).form = .value (.ofName "T") := by decide +kernel
  have hfound : (EngineId.runner ⟨0⟩ 0).find (.ofName "T") layoutDeclared = _ :=
    find_layout (by decide +kernel) (by decide +kernel) (by decide +kernel) (by decide +kernel)
  have hfound' : (EngineId.runner ⟨0⟩ 0).find (.ofName "T") layoutPublished = _ :=
    find_layout (by decide +kernel) (by decide +kernel) (by decide +kernel) (by decide +kernel)
  have hpath : (layoutDeclared.typeRef ⟨2⟩).form.path = .ofName "T" := by rw [hform]; rfl
  have hunknown : (layoutDeclared.typeInfo (.reference (.struct ⟨1⟩ "T" (some ⟨1⟩)))).instanceSize =
      none := by decide +kernel
  obtain ⟨type, hknown, hsolve⟩ := (type_references_settle_consistently ⟨2⟩
    (EngineId.runner ⟨0⟩ 0).find fun _ => pure ()).2.2.2
      (T := .reference (.struct ⟨1⟩ "T" (some ⟨1⟩))) (s := layoutDeclared) (t := layoutPublished)
      { lt := by decide +kernel
        opened := by decide +kernel
        found := hpath ▸ hfound
        sought := rfl
        linked := fun _ _ h => by
          cases h
          rfl
        awaits := eq_ok_of_succeeds (by decide +kernel)
        kept := by
          unfold Untouched
          decide +kernel
        names := .inl rfl
        settles := eq_ok_of_succeeds (by decide +kernel) }
  have hearly : KeepsSize (.reference (.struct ⟨1⟩ "T" (some ⟨1⟩))) layoutDeclared
      layoutPublished := by
    intro _ h
    rw [hunknown] at h
    cases h
  have hpath' : (layoutPublished.typeRef ⟨3⟩).form.path = .ofName "T" := by rw [hform']; rfl
  obtain ⟨u, hu⟩ := @hsolve ⟨3⟩ _ _ _ _ (by decide +kernel) (hform'.trans hform.symm)
    (hpath' ▸ hfound') rfl hearly fun _ h => h
  exact ⟨type, u, hknown, hu⟩

end StagedAsm
