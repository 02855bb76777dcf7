import StagedAsm.Engine.Declarations
import StagedAsm.Proofs.ScopeWork
import StagedAsm.Proofs.Steps

/-!
# What one engine does

A step says what can happen to a session, whoever is at work. A deed is a step of one engine, and
says where: an engine works in its innermost scope, enters scopes that hang off it and leaves it for
the one below on its stack.
-/

namespace StagedAsm

open EngineId ScopeTree

/-! ## Computations that leave the tree alone -/

/-- What evaluating expressions and building programs does to a session. -/
structure Calm (s s' : Session) : Prop extends Quiet s s' where
  same_tree : s'.tree = s.tree

namespace Calm

theorem of_eq {s s' : Session} (htree : s'.tree = s.tree) (h : s'.records = s.records) :
    Calm s s' := ⟨.of_eq htree h, htree⟩

instance : Std.Refl Calm := ⟨fun _ => of_eq rfl rfl⟩

instance : IsTrans Session Calm where
  trans _ _ _ h h' := ⟨trans_of Quiet h.toQuiet h'.toQuiet, h'.same_tree.trans h.same_tree⟩

theorem with_tree {s s' : Session} (h : Calm s s') (tree : ScopeTree) :
    Calm { s with tree } { s' with tree } where
  tree := refl_of ScopeTree.Keeps tree
  placeholders := h.placeholders
  templates := h.templates
  declared := h.declared
  instances := h.instances
  engines := h.engines
  epoch := h.epoch
  history := h.history
  begun := h.begun
  uid := h.uid
  same_tree := rfl

end Calm

class AdmitsCalm (R : Session → Session → Prop) : Prop extends IsPreorder Session R where
  calm {s s' : Session} (h : Calm s s') : R s s'

section Calm

variable {R : Session → Session → Prop}

theorem Silent.calm {s s' : Session} (h : Silent s s') : Calm s s' :=
  ⟨h.quiet, congrArg Prod.fst h.standing⟩

instance [AdmitsCalm R] : AdmitsSilent R where
  silent h := AdmitsCalm.calm h.calm

instance [AdmitsQuiet R] : AdmitsCalm R where
  calm h := AdmitsQuiet.quiet h.toQuiet

instance : AdmitsCalm Calm where
  calm h := h

end Calm

/-! ## Steps that leave the tree and the engines alone -/

/-- A step that leaves the tree, the engines and the snapshots of templates alone. -/
structure PlainStep (s s' : Session) : Prop where
  step : Step s s'
  tree : s'.tree = s.tree
  engines : s'.engines = s.engines
  declared : ∀ {t : TemplateId} {snapshot : Snapshot},
    (s'.template t).declaration = some snapshot → (s.template t).declaration = some snapshot

theorem Calm.plain {s s' : Session} (h : Calm s s') : PlainStep s s' :=
  ⟨.quiet h.toQuiet, h.same_tree, h.engines, h.declared⟩

class AdmitsPlain (R : Session → Session → Prop) : Prop extends IsPreorder Session R where
  plain {s s' : Session} (h : PlainStep s s') : R s s'

section Plain

variable {R : Session → Session → Prop}

instance [AdmitsPlain R] : AdmitsCalm R where
  calm h := AdmitsPlain.plain h.plain

instance [Admits R] : AdmitsPlain R where
  plain h := Admits.step h.step

end Plain

/-! ## Work in a scope -/

/-- What work in one scope does to a session. -/
structure ScopeWork (id : ScopeId) (s s' : Session) : Prop where
  tree : s.tree.Within id s'.tree
  calm : Calm { s with tree := s'.tree } s'

namespace ScopeWork

variable {id : ScopeId}

instance : Std.Refl (ScopeWork id) := ⟨fun s => ⟨.refl id s.tree, refl_of Calm s⟩⟩

instance : IsTrans Session (ScopeWork id) where
  trans _ _ c h h' :=
    ⟨trans_of (ScopeTree.Within id) h.tree h'.tree, trans_of Calm (h.calm.with_tree c.tree) h'.calm⟩

theorem of_tree {s : Session} {tree : ScopeTree} (h : s.tree.Within id tree) :
    ScopeWork id s { s with tree } := ⟨h, refl_of Calm _⟩

instance : AdmitsCalm (ScopeWork id) where
  calm {s s'} h := by
    have htree : { s with tree := s'.tree } = s := by rw [h.same_tree]
    exact ⟨h.same_tree ▸ .refl id s.tree, htree.symm ▸ h⟩

theorem moves_onTree {α : Type} {m : TreeM α} (h : Moves (ScopeTree.Within id) m) :
    Moves (ScopeWork id) (onTree m) := fun s => leaves_onTree m s ▸ of_tree (h s.tree)

end ScopeWork

/-- A relation that an engine stays in when it works in its innermost scope. -/
class AdmitsWork (e : EngineId) (R : Session → Session → Prop) : Prop extends AdmitsCalm R where
  work {s : Session} {tree : ScopeTree} (h : s.tree.Within (s.engine e).currentScope tree) :
    R s { s with tree }

section Work

variable {R : Session → Session → Prop} {α : Type}

instance [AdmitsQuiet R] (e : EngineId) : AdmitsWork e R where
  work h := AdmitsQuiet.quiet (.of_tree h.toKeeps rfl)

theorem AdmitsWork.works {e : EngineId} [AdmitsWork e R] {s s' : Session}
    (h : ScopeWork (s.engine e).currentScope s s') : R s s' :=
  trans_of R (AdmitsWork.work h.tree) (AdmitsCalm.calm h.calm)

theorem EngineId.moves_inside (e : EngineId) [AdmitsWork e R] {k : ScopeId → CompileM α}
    (h : ∀ id, Moves (ScopeWork id) (k id)) : Moves R (e.currentScope >>= k) :=
  fun s => AdmitsWork.works (h (s.engine e).currentScope s)

end Work

/-! ## Deeds -/

/-- It knows the type whose members the scope of the snapshot holds. -/
def Snapshot.privateScope (snapshot : Snapshot) (t : ScopeTree) : Scope :=
  { origin := .detached, isAnonymous := true,
    associatedType := (t.scope (snapshot.scopes.head?.getD root)).associatedType }

/-- An engine was made from a snapshot, in a scope of its own. -/
def Session.forked (s : Session) (snapshot : Snapshot) : Session :=
  { s with
    tree := (s.tree.push (snapshot.privateScope s.tree)).2
    engines := s.engines.push (.ofSnapshot snapshot ⟨s.tree.size⟩) }

/-- Where the scopes are that are entered by name. -/
def ScopeTree.Leads (t : ScopeTree) (id : ScopeId) : ScopeMove → ScopeId → Prop
  | .enterGlobal names, scope => t.subScopeAt? id names = some scope
  | .enterLocal name, scope => t.functionScope? id name = some scope
  | _, _ => False

def ScopeMove.isExit : ScopeMove → Bool
  | .exitGlobal => true
  | .exitLocal => true
  | .exitBlock => true
  | _ => false

/-- What an engine can do to a session at a time. -/
inductive Deed (e : EngineId) : Session → Session → Prop where
  | plain {s s' : Session} (h : PlainStep s s') : Deed e s s'
  | own {s : Session} (f : Engine → Engine)
      (hf : ∀ engine, (f engine).ownsEpoch = engine.ownsEpoch ∧
        (f engine).running = engine.running ∧ (f engine).completed = engine.completed ∧
        (f engine).scopes = engine.scopes ∧ (f engine).sections = engine.sections) :
      Deed e s { s with engines := s.engines.modify e.index f }
  | write {s : Session} (change : SectionChange)
      (f : List (String × Section) → List (String × Section))
      (hf : f (s.engine e).sections = change.apply s (s.engine e).sections) :
      Deed e s { s with engines := s.engines.modify e.index fun engine =>
        { engine with sections := f engine.sections } }
  | work {s : Session} {tree : ScopeTree}
      (h : s.tree.Within (s.engine e).currentScope tree) : Deed e s { s with tree }
  | bind {s : Session} (p : Placeholder) (name : String)
      (howner : p.owner = some (s.engine e).currentScope) (hname : p.name = some name)
      (hpending : p.IsPending) (hlt : (s.engine e).currentScope.index < s.tree.size)
      (hfree : s.tree.member? (s.engine e).currentScope name = none) :
      Deed e s { s with
        tree := s.tree.modifyScope (s.engine e).currentScope fun scope =>
          { scope with members := scope.members.set name (.placeholder ⟨s.placeholders.size⟩) }
        placeholders := s.placeholders.push p }
  | enter {s : Session} (move : ScopeMove) (id : ScopeId)
      (h : s.tree.Leads (s.engine e).currentScope move id) : Deed e s (e.opening move id s)
  | enterBlock {s : Session} {block : ScopeId} {tree : ScopeTree}
      (h : nextBlock (s.engine e).currentScope s.tree = .ok block tree) :
      Deed e s (e.opening .enterBlock block { s with tree })
  | leave {s : Session} {move : ScopeMove} {tree : ScopeTree} (hmove : move.isExit = true)
      (hopen : 1 < (s.engine e).scopes.length ∨ s.tree.isLocal (s.engine e).currentScope = true)
      (h : rewindBlocks (s.engine e).currentScope s.tree = .ok () tree) :
      Deed e s (e.closing move { s with tree })
  | endPass {s : Session} {tree : ScopeTree}
      (h : rewindBlocks (s.engine e).currentScope s.tree = .ok () tree) :
      Deed e s (e.going .endPass (s.engine e).currentScope { s with tree })
  | declare {s : Session} (id : TemplateId) :
      Deed e s { s with
        templates := s.templates.modify id.index fun t =>
          { t with declaration := some (s.engine e).snapshot } }
  | fork {s s' : Session} (id : TemplateId) {snapshot : Snapshot}
      (hdeclared : (s.template id).declaration = some snapshot)
      (h : ScopeWork ⟨s.tree.size⟩ (s.forked snapshot) s') : Deed e s s'
  | make {s s1 : Session} (id : TemplateId) (made : Instance) (pass : Pass) {snapshot : Snapshot}
      (hlt : id.index < s.templates.size)
      (hfresh : s.findInstance? (s.template id).memo made.arguments = none)
      (hdeclared : (s.template id).declaration = some snapshot)
      (hengine : made.engine = ⟨s.engines.size⟩) (hbusy : made.isBusy = false)
      (h : ScopeWork ⟨s.tree.size⟩ ({ s with
        history := s.history.push (.building id made.arguments) }.forked snapshot) s1) :
      Deed e s (s1.enlist id made pass)

/-- A relation that an engine stays in, whatever it does. -/
class AdmitsDeeds (e : EngineId) (R : Session → Session → Prop) : Prop extends AdmitsPlain R where
  deed {s s' : Session} (h : Deed e s s') : R s s'
  plain h := deed (.plain h)

section Deeds

variable {R : Session → Session → Prop} {e : EngineId}

instance [AdmitsDeeds e R] : AdmitsWork e R where
  work h := AdmitsDeeds.deed (.work h)

instance [AdmitsDeeds e R] : AdmitsOutput e R where
  output change f hf := AdmitsDeeds.deed (.write change f hf)

end Deeds

/-- A relation that making instances stays in, whichever engine asks for them. -/
class AdmitsForks (R : Session → Session → Prop) : Prop extends AdmitsPlain R where
  fork {s s' : Session} {id : TemplateId} {snapshot : Snapshot}
    (hdeclared : (s.template id).declaration = some snapshot)
    (h : ScopeWork ⟨s.tree.size⟩ (s.forked snapshot) s') : R s s'
  make {s s1 : Session} {id : TemplateId} {made : Instance} {pass : Pass} {snapshot : Snapshot}
    (hlt : id.index < s.templates.size)
    (hfresh : s.findInstance? (s.template id).memo made.arguments = none)
    (hdeclared : (s.template id).declaration = some snapshot)
    (hengine : made.engine = ⟨s.engines.size⟩) (hbusy : made.isBusy = false)
    (h : ScopeWork ⟨s.tree.size⟩ ({ s with
      history := s.history.push (.building id made.arguments) }.forked snapshot) s1) :
    R s (s1.enlist id made pass)

theorem AdmitsDeeds.forks (e : EngineId) {R : Session → Session → Prop} [AdmitsDeeds e R] :
    AdmitsForks R where
  fork hdeclared h := AdmitsDeeds.deed (e := e) (.fork _ hdeclared h)
  make hlt hfresh hdeclared hengine hbusy h :=
    AdmitsDeeds.deed (e := e) (.make _ _ _ hlt hfresh hdeclared hengine hbusy h)

/-! ## Deeds are made of steps -/

theorem ScopeWork.quiet {id : ScopeId} {s s' : Session} (h : ScopeWork id s s') : Quiet s s' := by
  have htree : Quiet s { s with tree := s'.tree } := .of_tree h.tree.toKeeps rfl
  exact trans_of Quiet htree h.calm.toQuiet

theorem Session.quiet_forked (s : Session) (snapshot : Snapshot) :
    Quiet { s with engines := s.engines.push (.ofSnapshot snapshot ⟨s.tree.size⟩) }
      (s.forked snapshot) :=
  .of_tree (keeps_push s.tree rfl nofun) rfl

theorem Engine.isNew_ofSnapshot (snapshot : Snapshot) (scope : ScopeId) :
    (Engine.ofSnapshot snapshot scope).IsNew := ⟨rfl, rfl, rfl⟩

section Steps

variable {R : Session → Session → Prop}

theorem step_keeps [AdmitsQuiet R] {s : Session} {tree : ScopeTree} (h : s.tree.Keeps tree) :
    R s { s with tree } := AdmitsQuiet.quiet (.of_tree h rfl)

variable {e : EngineId} [AdmitsEngine e R]

theorem EngineId.step_going (move : ScopeMove) (scope : ScopeId) (s : Session) :
    R s (e.going move scope s) := step_keeps (s.tree.keeps_visited _)

theorem EngineId.step_opening (move : ScopeMove) (id : ScopeId) (s : Session) :
    R s (e.opening move id s) :=
  trans_of R (step_going move id s) (AdmitsEngine.engine (s := e.going move id s) (e := e)
      (fun engine => { engine with scopes := id :: engine.scopes }) fun _ => ⟨rfl, rfl, rfl⟩)

theorem EngineId.step_closing (move : ScopeMove) (s : Session) : R s (e.closing move s) :=
  trans_of R (step_going move _ s) (AdmitsEngine.engine (s := e.going move _ s) (e := e)
      (fun engine => { engine with scopes := engine.scopes.tail }) fun _ => ⟨rfl, rfl, rfl⟩)

theorem Deed.related {s s' : Session} (h : Deed e s s') : R s s' := by
  cases h with
  | plain h => exact Admits.step h.step
  | own f hf =>
    exact AdmitsEngine.engine f fun engine =>
      ⟨(hf engine).1, (hf engine).2.1, (hf engine).2.2.1⟩
  | write change f hf => exact AdmitsOutput.output change f hf
  | work h => exact AdmitsWork.work h
  | bind p name howner hname hpending hlt hfree =>
    exact Admits.step (.bind _ p _ name howner hname hpending hfree
      (within_bind hfree _).toKeeps (member?_declare hlt))
  | enter move id h => exact step_opening move id s
  | enterBlock h =>
    have hkeeps := (moves_nextBlock _).of_ok h
    exact trans_of R (step_keeps hkeeps) (step_opening _ _ _)
  | leave hmove hopen h =>
    have hkeeps := (moves_rewindBlocks _).of_ok h
    exact trans_of R (step_keeps hkeeps) (step_closing _ _)
  | endPass h =>
    have hkeeps := (moves_rewindBlocks _).of_ok h
    exact trans_of R (step_keeps hkeeps) (step_going _ _ _)
  | declare id => exact Admits.step (.declare id _)
  | fork id hdeclared h =>
    exact trans_of R (Admits.step (.fork _ (Engine.isNew_ofSnapshot _ _)))
      (AdmitsQuiet.quiet (trans_of Quiet (s.quiet_forked _) h.quiet))
  | make id made pass hlt hfresh hdeclared hengine hbusy h =>
    have hquiet := trans_of Quiet (Session.quiet_forked _ _) h.quiet
    exact Admits.step (.make id made pass hlt hfresh
      ⟨⟨_, Engine.isNew_ofSnapshot _ _, hquiet⟩, hengine, hbusy⟩)

instance : AdmitsDeeds e R where
  deed h := h.related

end Steps

end StagedAsm
