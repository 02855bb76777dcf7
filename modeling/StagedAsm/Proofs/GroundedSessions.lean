import StagedAsm.Proofs.InstanceRecords
import StagedAsm.Proofs.ScopeTrails
import StagedAsm.Proofs.WholeRuns

/-!
# Where engines were

In a grounded session all scopes that engines and templates name are there, and a scope is younger
than the one it hangs off. Whatever engines do keeps sessions grounded, and leaves a trail that
tells what happened to the blocks of all scopes and which scopes the engine has open.
-/

namespace StagedAsm

open EngineId ScopeTree Session

/-! ## Scopes entered by name -/

namespace ScopeTree

variable {t : ScopeTree} {id : ScopeId}

theorem subScopeAt?_lt {names : List String} {last : ScopeId}
    (h : t.subScopeAt? id names = some last) (hid : id.index < t.size) : last.index < t.size := by
  induction names generalizing id with
  | nil =>
    cases h
    exact hid
  | cons name rest ih =>
    obtain ⟨next, hnext, hrest⟩ := Option.bind_eq_some_iff.mp h
    exact ih hrest (find?_eq_some hnext).1

theorem Leads.lt {move : ScopeMove} {scope : ScopeId} (h : t.Leads id move scope)
    (hid : id.index < t.size) : scope.index < t.size := by
  cases move with
  | enterGlobal names => exact subScopeAt?_lt h hid
  | enterLocal name => exact (find?_eq_some h).1
  | _ => exact h.elim

theorem Leads.rewinds_eq_false {move : ScopeMove} {scope : ScopeId} (h : t.Leads id move scope) :
    move.rewinds = false := by
  cases move with
  | enterGlobal names => rfl
  | enterLocal name => rfl
  | _ => exact h.elim

theorem nextBlock_lt {t' : ScopeTree} {block : ScopeId} (h : t.Grounded) (hid : id.index < t.size)
    (hnext : nextBlock id t = .ok block t') : block.index < t'.size := by
  obtain ⟨blocks, hwalk, -, hblock, -⟩ := nextBlock_walk hid (h.cursor_le id) hnext
  have hblocks : (t'.scope id).blocks = blocks := congrArg (·.1) hwalk
  rw [← hblocks] at hblock
  exact (h.nextBlock hid hnext).wellFormed.block_lt hblock

end ScopeTree

/-! ## Grounded sessions -/

/-- All scopes that engines and templates name are there. -/
structure Session.Grounded (s : Session) : Prop where
  tree : s.tree.Grounded
  open_lt : ∀ {e : EngineId} {id : ScopeId}, id ∈ (s.engine e).scopes → id.index < s.tree.size
  snapshot_lt : ∀ {t : TemplateId} {snapshot : Snapshot} {id : ScopeId},
    (s.template t).declaration = some snapshot → id ∈ snapshot.scopes → id.index < s.tree.size

namespace Session.Grounded

variable {s s' : Session} {e : EngineId}

theorem current_lt (hs : s.Grounded) (e : EngineId) :
    (s.engine e).currentScope.index < s.tree.size := by
  rw [Engine.currentScope]
  cases hscopes : (s.engine e).scopes with
  | nil => exact hs.tree.size_pos
  | cons id rest =>
    have hopen : id ∈ (s.engine e).scopes := by
      rw [hscopes]
      exact List.mem_cons_self
    exact hs.open_lt hopen

theorem new (settings : Settings) : ({ settings } : Session).Grounded where
  tree := grounded_new
  open_lt := by
    intro e id hid
    simp [engine, default] at hid
  snapshot_lt := by
    intro t snapshot id h
    simp [template, default] at h

theorem grown (hs : s.Grounded) (htree : s'.tree.Grounded) (hsize : s.tree.size ≤ s'.tree.size)
    (hopen : ∀ {e id}, id ∈ (s'.engine e).scopes → id ∈ (s.engine e).scopes := by exact fun h => h)
    (hdeclared : ∀ {t snapshot}, (s'.template t).declaration = some snapshot →
      (s.template t).declaration = some snapshot := by exact fun h => h) : s'.Grounded where
  tree := htree
  open_lt hid := Nat.lt_of_lt_of_le (hs.open_lt (hopen hid)) hsize
  snapshot_lt h hid := Nat.lt_of_lt_of_le (hs.snapshot_lt (hdeclared h) hid) hsize

theorem own (hs : s.Grounded) {f : Engine → Engine}
    (hf : ∀ engine, ∀ id ∈ (f engine).scopes, id ∈ engine.scopes) :
    ({ s with engines := s.engines.modify e.index f } : Session).Grounded := by
  refine hs.grown hs.tree .refl (fun {other id} hid => ?_)
  rw [engine_modify] at hid
  split at hid
  · rename_i hother
    rw [hother.1]
    exact hf _ _ hid
  · exact hid

theorem going (hs : s.Grounded) (move : ScopeMove) (scope : ScopeId) :
    (e.going move scope s).Grounded :=
  hs.grown (hs.tree.visited _) .refl

variable {id : ScopeId}

theorem opening (hs : s.Grounded) (move : ScopeMove) (hid : id.index < s.tree.size) :
    (e.opening move id s).Grounded where
  tree := hs.tree.visited _
  open_lt {other scope} hscope := by
    rw [engine_opening] at hscope
    split at hscope
    · rcases List.mem_cons.mp hscope with rfl | hscope
      · exact hid
      · exact hs.open_lt hscope
    · exact hs.open_lt hscope
  snapshot_lt := hs.snapshot_lt

theorem closing (hs : s.Grounded) (move : ScopeMove) : (e.closing move s).Grounded := by
  refine hs.grown (hs.tree.visited _) .refl (fun {other id} hid => ?_)
  rw [engine_closing] at hid
  split at hid
  · rename_i hother
    rw [hother.1]
    exact List.mem_of_mem_tail hid
  · exact hid

theorem forked (hs : s.Grounded) {snapshot : Snapshot}
    (hsnapshot : ∀ id ∈ snapshot.scopes, id.index < s.tree.size) :
    (s.forked snapshot).Grounded := by
  have hsteady : s.tree.Steady (s.forked snapshot).tree := steady_push rfl rfl
  have hsize : (s.forked snapshot).tree.size = s.tree.size + 1 := size_push _ _
  refine ⟨hs.tree.steady hsteady, fun {e id} hid => ?_, fun h hid => ?_⟩
  · have hengine : (s.forked snapshot).engine e =
        if e.index = s.engines.size then .ofSnapshot snapshot ⟨s.tree.size⟩ else s.engine e :=
      engine_push s _ e
    rw [hsize]
    rw [hengine] at hid
    split at hid
    · rcases List.mem_cons.mp hid with rfl | hid
      · exact Nat.lt_succ_self _
      · exact Nat.lt_succ_of_lt (hsnapshot id hid)
    · exact Nat.lt_succ_of_lt (hs.open_lt hid)
  · rw [hsize]
    exact Nat.lt_succ_of_lt (hs.snapshot_lt h hid)

theorem work (hs : s.Grounded) (hid : id.index < s.tree.size) (h : ScopeWork id s s') :
    s'.Grounded := by
  have hsteady := h.tree.steady hs.tree.ordered hid
  refine hs.grown (hs.tree.steady hsteady) hsteady.size_le (fun hid => ?_) fun hd => ?_
  · rwa [engine, h.calm.engines] at hid
  · exact h.calm.declared hd

end Session.Grounded

/-! ## Open scopes -/

/-- The open scopes of an engine after a move. -/
def Visit.opened (v : Visit) (scopes : List ScopeId) : List ScopeId :=
  match v.move with
  | .exitGlobal => scopes.tail
  | .exitLocal => scopes.tail
  | .exitBlock => scopes.tail
  | .endPass => scopes
  | _ => v.after :: scopes

theorem ScopeMove.rewinds_of_isExit {move : ScopeMove} (h : move.isExit = true) :
    move.rewinds = true := by
  rw [rewinds, h]
  rfl

namespace Visit

variable {v : Visit}

theorem opened_of_isExit (h : v.move.isExit = true) (scopes : List ScopeId) :
    v.opened scopes = scopes.tail := by
  rw [opened]
  cases hmove : v.move with
  | exitGlobal => rfl
  | exitLocal => rfl
  | exitBlock => rfl
  | _ =>
    rw [hmove] at h
    cases h

theorem opened_of_opens (h : v.move.rewinds = false) (scopes : List ScopeId) :
    v.opened scopes = v.after :: scopes := by
  rw [opened]
  cases hmove : v.move with
  | enterGlobal names => rfl
  | enterLocal name => rfl
  | enterBlock => rfl
  | _ =>
    rw [hmove] at h
    cases h

end Visit

/-- An engine with some open scopes makes a move. The root is not left. -/
structure Visit.Follows (v : Visit) (e : EngineId) (pass : Pass)
    (scopes : List ScopeId) : Prop where
  engine : v.engine = e
  pass : v.pass = pass
  before : v.before = scopes.head?.getD root
  after : v.after = (v.opened scopes).head?.getD root
  left : v.move.isExit = true → scopes ≠ [root]

/-- The moves of one engine in one pass, from some open scopes to others. -/
def Follows (e : EngineId) (pass : Pass) : List ScopeId → List Visit → List ScopeId → Prop
  | scopes, [], last => last = scopes
  | scopes, v :: rest, last =>
    v.Follows e pass scopes ∧ Follows e pass (v.opened scopes) rest last

variable {e : EngineId}

theorem Follows.append {pass : Pass} {first middle last : List ScopeId}
    {visits visits' : List Visit} (h : Follows e pass first visits middle)
    (h' : Follows e pass middle visits' last) : Follows e pass first (visits ++ visits') last := by
  induction visits generalizing first with
  | nil =>
    cases h
    exact h'
  | cons v rest ih => exact ⟨h.1, ih h.2⟩

/-- An engine got from one session to another, leaving a trail. -/
structure Tour (e : EngineId) (s s' : Session) (visits : List Visit) : Prop where
  grounded : s'.Grounded
  strides : s.tree.Strides visits s'.tree
  own : ∀ v ∈ visits, v.engine = e
  size_engines : s.engines.size ≤ s'.engines.size
  pass : e.index < s.engines.size → (s'.engine e).currentPass = (s.engine e).currentPass
  follows : e.index < s.engines.size →
    Follows e (s.engine e).currentPass (s.engine e).scopes visits (s'.engine e).scopes

namespace Tour

variable {e : EngineId} {s s' s'' : Session} {visits visits' : List Visit}

theorem refl (hs : s.Grounded) : Tour e s s [] where
  grounded := hs
  strides := .nil s.tree
  own := by simp
  size_engines := .refl
  pass _ := rfl
  follows _ := rfl

theorem append (h : Tour e s s' visits) (h' : Tour e s' s'' visits') :
    Tour e s s'' (visits ++ visits') where
  grounded := h'.grounded
  strides := h.strides.append h'.strides
  own v hv := (List.mem_append.mp hv).elim (h.own v) (h'.own v)
  size_engines := Nat.le_trans h.size_engines h'.size_engines
  pass he := (h'.pass (Nat.lt_of_lt_of_le he h.size_engines)).trans (h.pass he)
  follows he := by
    have hfollows := h'.follows (Nat.lt_of_lt_of_le he h.size_engines)
    rw [h.pass he] at hfollows
    exact (h.follows he).append hfollows

theorem of_steady (hs' : s'.Grounded) (htree : s.tree.Steady s'.tree)
    (hsize : s.engines.size ≤ s'.engines.size)
    (hengine : e.index < s.engines.size → (s'.engine e).currentPass = (s.engine e).currentPass ∧
      (s'.engine e).scopes = (s.engine e).scopes) : Tour e s s' [] where
  grounded := hs'
  strides := .steady htree (.nil _)
  own := by simp
  size_engines := hsize
  pass he := (hengine he).1
  follows he := (hengine he).2

theorem of_engines (hs' : s'.Grounded) (htree : s.tree.Steady s'.tree)
    (hengines : s'.engines = s.engines) : Tour e s s' [] :=
  of_steady hs' htree (Nat.le_of_eq (by rw [hengines])) fun _ => by
    rw [engine, hengines, engine]
    exact ⟨rfl, rfl⟩

end Tour

/-! ## Deeds leave a trail -/

namespace Session.Grounded

variable {s s' : Session} {e : EngineId}

theorem tour_own (hs : s.Grounded) {f : Engine → Engine}
    (hf : ∀ engine, (f engine).currentPass = engine.currentPass ∧
      (f engine).scopes = engine.scopes) :
    Tour e s { s with engines := s.engines.modify e.index f } [] := by
  refine .of_steady (hs.own fun engine id hid => (hf engine).2 ▸ hid) (.refl _) (by simp) fun he =>
    ?_
  rw [engine_modify, if_pos ⟨rfl, he⟩]
  exact hf _

variable {move : ScopeMove} {tree : ScopeTree}

theorem tour_opening (hs : s.Grounded) {id : ScopeId} (hmove : move.rewinds = false)
    (htree : tree.Grounded) (hsize : s.tree.size ≤ tree.size) (hid : id.index < tree.size)
    (hstride : s.tree.Stride ⟨e, (s.engine e).currentPass, move, (s.engine e).currentScope, id⟩
      (e.opening move id { s with tree }).tree) :
    Tour e s (e.opening move id { s with tree }) [⟨e, (s.engine e).currentPass, move,
      (s.engine e).currentScope, id⟩] := by
  have hs1 : ({ s with tree } : Session).Grounded := hs.grown htree hsize
  refine ⟨hs1.opening move hid, .stride hstride (.nil _), by simp, by simp [EngineId.opening],
    fun he => ?_, fun he => ⟨⟨rfl, rfl, rfl, ?_, fun hexit => ?_⟩, ?_⟩⟩
  · rw [engine_opening, if_pos ⟨rfl, he⟩]
    rfl
  · rw [Visit.opened_of_opens hmove]
    rfl
  · rw [ScopeMove.rewinds, hexit] at hmove
    cases hmove
  · rw [Visit.opened_of_opens hmove]
    have hscopes : ((e.opening move id { s with tree }).engine e).scopes =
        id :: (s.engine e).scopes := scopes_opening (s := { s with tree }) he id
    exact hscopes

theorem tour_closing (hs : s.Grounded) (hmove : move.isExit = true)
    (hopen : 1 < (s.engine e).scopes.length ∨ s.tree.isLocal (s.engine e).currentScope = true)
    (h : rewindBlocks (s.engine e).currentScope s.tree = .ok () tree) :
    ∃ v, Tour e s (e.closing move { s with tree }) [v] := by
  have htree := hs.tree.rewindBlocks (hs.current_lt e) h
  have hsize := ((moves_rewindBlocks _).of_ok h).size
  have hs1 : ({ s with tree } : Session).Grounded := hs.grown htree hsize
  let v : Visit := ⟨e, (s.engine e).currentPass, move, (s.engine e).currentScope,
    (s.engine e).scopes.tail.head?.getD root⟩
  have hstride := Stride.rewind (v := v) (hs.current_lt e) (ScopeMove.rewinds_of_isExit hmove) h
  refine ⟨v, hs1.closing move, .stride hstride (.nil _), by simp [v], by simp [EngineId.closing],
    fun he => ?_, fun he => ⟨⟨rfl, rfl, rfl, ?_, fun _ hroot => ?_⟩, ?_⟩⟩
  · rw [engine_closing, if_pos ⟨rfl, he⟩]
    rfl
  · rw [Visit.opened_of_isExit hmove]
  -- The root is the outermost scope, and no function.
  · rw [Engine.currentScope, hroot] at hopen
    rcases hopen with hlength | hlocal
    · exact absurd hlength (by decide)
    · exact absurd (hs.tree.root_global.symm.trans hlocal) (by decide)
  · rw [Visit.opened_of_isExit hmove]
    exact scopes_closing

theorem tour_endPass (hs : s.Grounded)
    (h : rewindBlocks (s.engine e).currentScope s.tree = .ok () tree) :
    ∃ v, v.move = .endPass ∧
      Tour e s (e.going .endPass (s.engine e).currentScope { s with tree }) [v] := by
  have htree := hs.tree.rewindBlocks (hs.current_lt e) h
  have hsize := ((moves_rewindBlocks _).of_ok h).size
  have hs1 : ({ s with tree } : Session).Grounded := hs.grown htree hsize
  exact ⟨⟨e, (s.engine e).currentPass, .endPass, (s.engine e).currentScope,
    (s.engine e).currentScope⟩, rfl, hs1.going .endPass _,
    .stride (.rewind (hs.current_lt e) rfl h) (.nil _), by simp, .refl, fun _ => rfl,
    fun _ => ⟨⟨rfl, rfl, rfl, rfl, nofun⟩, rfl⟩⟩

theorem tour_fork (hs : s.Grounded) {snapshot : Snapshot}
    (hsnapshot : ∀ id ∈ snapshot.scopes, id.index < s.tree.size)
    (h : ScopeWork ⟨s.tree.size⟩ (s.forked snapshot) s') : Tour e s s' [] := by
  have hforked := hs.forked hsnapshot
  have hlt : s.tree.size < (s.forked snapshot).tree.size :=
    (size_push s.tree _).symm ▸ Nat.lt_succ_self _
  have hpush : s.tree.Steady (s.forked snapshot).tree := steady_push rfl rfl
  have hsteady := hpush.trans (h.tree.steady hforked.tree.ordered hlt)
  have hengines : s'.engines = s.engines.push (.ofSnapshot snapshot ⟨s.tree.size⟩) := h.calm.engines
  refine .of_steady (hforked.work hlt h) hsteady ?_ fun he => ?_
  · rw [hengines, Array.size_push]
    exact Nat.le_succ _
  · rw [engine, hengines, getD_push, if_neg (Nat.ne_of_lt he)]
    exact ⟨rfl, rfl⟩

end Session.Grounded

theorem Deed.tour {s s' : Session} (h : Deed e s s') (hs : s.Grounded) :
    ∃ visits, Tour e s s' visits := by
  have hcurrent := hs.current_lt e
  cases h with
  | plain h =>
    have htree : s.tree.Steady s'.tree := h.tree ▸ .refl _
    refine ⟨[], .of_engines (hs.grown (hs.tree.steady htree) htree.size_le (fun hid => ?_)
      h.declared)
      htree h.engines⟩
    rwa [engine, h.engines] at hid
  | own f hf =>
    refine ⟨[], hs.tour_own fun engine => ⟨?_, (hf engine).2.2.2.1⟩⟩
    rw [Engine.currentPass, (hf engine).2.1, (hf engine).2.2.1, Engine.currentPass]
  | write change f hf => exact ⟨[], hs.tour_own fun _ => ⟨rfl, rfl⟩⟩
  | work h =>
    have hsteady := h.steady hs.tree.ordered hcurrent
    exact ⟨[], .of_engines (hs.work hcurrent (.of_tree h)) hsteady rfl⟩
  | bind p name howner hname hpending hlt hfree =>
    have hsteady := (within_bind hfree
      (.placeholder ⟨s.placeholders.size⟩)).steady hs.tree.ordered hcurrent
    exact ⟨[], .of_engines (hs.grown (hs.tree.steady hsteady) hsteady.size_le)
      hsteady rfl⟩
  | enter move id h =>
    exact ⟨_, hs.tour_opening h.rewinds_eq_false hs.tree (Nat.le_refl _) (h.lt hcurrent)
      (.enter hcurrent h)⟩
  | enterBlock h =>
    exact ⟨_, hs.tour_opening rfl (hs.tree.nextBlock hcurrent h)
      ((moves_nextBlock _).of_ok h).size (nextBlock_lt hs.tree hcurrent h)
      (.enterBlock hcurrent rfl h)⟩
  | leave hmove hopen h =>
    obtain ⟨v, hv⟩ := hs.tour_closing hmove hopen h
    exact ⟨[v], hv⟩
  | endPass h =>
    obtain ⟨v, -, hv⟩ := hs.tour_endPass h
    exact ⟨[v], hv⟩
  | declare id =>
    refine ⟨[], .of_engines ⟨hs.tree, hs.open_lt, fun {t snapshot scope} h hid => ?_⟩ (.refl _) rfl⟩
    rw [s.template_of_modify id (f := fun template =>
      { template with declaration := some (s.engine e).snapshot }) rfl t] at h
    split at h
    · cases h
      exact hs.open_lt (e := e) hid
    · exact hs.snapshot_lt h hid
  | fork id hdeclared h => exact ⟨[], hs.tour_fork (fun _ hid => hs.snapshot_lt hdeclared hid) h⟩
  | @make s1 id made pass snapshot hlt hfresh hdeclared hengine hbusy h =>
    have hrecorded : ({ s with
        history := s.history.push (.building id made.arguments) } : Session).Grounded :=
      hs.grown hs.tree (Nat.le_refl _)
    have hrecord : Tour e s _ [] := .of_engines hrecorded (.refl s.tree) rfl
    have hforked : Tour e s s1 [] :=
      hrecord.append (hrecorded.tour_fork (fun _ hid => hs.snapshot_lt hdeclared hid) h)
    refine ⟨[], hforked.append (.of_engines ?_ (.refl _) rfl)⟩
    refine hforked.grounded.grown hforked.grounded.tree (Nat.le_refl _) (fun h => h)
      fun {t snapshot} h => ?_
    -- The template gets an instance, but no other snapshot.
    rw [s1.template_of_modify id (s1.templates_enlist id made pass) t] at h
    split at h
    · rename_i ht
      rw [ht.1]
      exact h
    · exact h

/-! ## Runs leave a trail -/

/-- A grounded session stays grounded, and every move leaves its visit. -/
def Travels (s s' : Session) : Prop :=
  s.Grounded → s'.Grounded ∧ ∃ visits, s.tree.Strides visits s'.tree

namespace Travels

variable {s s' : Session}

instance : IsPreorder Session Travels where
  refl s hs := ⟨hs, [], .nil s.tree⟩
  trans a b c h h' hs := by
    obtain ⟨hb, visits, hvisits⟩ := h hs
    obtain ⟨hc, visits', hvisits'⟩ := h' hb
    exact ⟨hc, visits ++ visits', hvisits.append hvisits'⟩

theorem of_tree (htree : s'.tree = s.tree)
    (hopen : ∀ {e id}, id ∈ (s'.engine e).scopes → id ∈ (s.engine e).scopes)
    (hdeclared : ∀ {t snapshot}, (s'.template t).declaration = some snapshot →
      (s.template t).declaration = some snapshot) : Travels s s' := fun hs =>
  ⟨hs.grown (htree ▸ hs.tree) (Nat.le_of_eq (by rw [htree])) hopen hdeclared,
    [], htree ▸ .nil s.tree⟩

instance (e : EngineId) : AdmitsDeeds e Travels where
  deed h hs := by
    obtain ⟨visits, htour⟩ := h.tour hs
    exact ⟨htour.grounded, visits, htour.strides⟩

instance : AdmitsRebinds Travels where
  plain h := AdmitsDeeds.deed (e := default) (.plain h)
  rebind {s id owner name symbol} _ _ _ hs := by
    have hsteady : s.tree.Steady (s.rebind owner name symbol).tree :=
      steady_modifyScope rfl rfl
    exact ⟨hs.grown (hs.tree.steady hsteady) hsteady.size_le, [],
      .steady hsteady (.nil _)⟩

instance (e : EngineId) : AdmitsPasses e Travels where
  deed h := AdmitsDeeds.deed h
  pass h hs := by
    cases h with
    | start pass => exact of_tree rfl id id hs
    | own f hf => exact ⟨hs.own fun engine id hid => (hf engine).1 ▸ hid, [], .nil _⟩
    | openEpoch h =>
      have hown := hs.own (e := e) (f := fun engine => { engine with ownsEpoch := true })
        fun _ _ hid => hid
      exact ⟨hown.grown hown.tree .refl, [], .nil _⟩
    | finished pass => exact of_tree rfl id id hs
  close _ := moves_closeEpoch _

instance : AdmitsEngines Travels where
  passes _ := inferInstance
  instances h := by
    cases h <;> exact of_tree rfl id fun h => h

end Travels

/-! ## Sessions stay grounded -/

namespace Session.Grounded

variable {s : Session}

theorem start (hs : s.Grounded) {sections : List String} {e : EngineId} {s' : Session}
    (h : startEngine sections s = .ok e s') : s'.Grounded := by
  cases h
  refine ⟨hs.tree, fun {e id} hid => ?_, hs.snapshot_lt⟩
  rw [engine, getD_push] at hid
  split at hid
  · rw [List.mem_singleton.mp hid]
    exact hs.tree.size_pos
  · exact hs.open_lt (e := e) hid

theorem build (hs : s.Grounded) (statements : List Statement) :
    (leaves (buildProgram statements) s).Grounded :=
  (moves_buildProgram (R := Travels) statements s hs).1

theorem compile (hs : s.Grounded) (e : EngineId) (depth : Nat) (program : Program) (upTo : Pass) :
    (leaves ((e.runner depth).compile program upTo) s).Grounded :=
  ((e.runner depth).moves_compile (R := Travels) (moves_advanceWithin depth) program upTo s hs).1

end Session.Grounded

end StagedAsm
