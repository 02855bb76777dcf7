import Mathlib.Data.List.Infix
import StagedAsm.Proofs.ConfinedScopes
import StagedAsm.Proofs.DependencyOrder
import StagedAsm.Proofs.PassOrder
import StagedAsm.Proofs.PassReplay
import StagedAsm.Proofs.PlaceholderRecords
import StagedAsm.Proofs.ScopeStacks

/-!
# Engines that work in scopes of their own

What new engines do is confined to scopes that are made meanwhile and to what hangs off the scopes
they start in, as long as they leave no scope that they did not enter and take no placeholder of
another scope into the epoch: when the epoch is closed, the names of all placeholders in it get
something else.
-/

namespace StagedAsm

open AdmitsDeeds AdmitsEngines AdmitsPasses AdmitsRebinds Array DependencyGraph List

/-! ## What the epoch takes in -/

/-- The placeholders that an event takes into the epoch. -/
def Event.endpoints : Event → List PlaceholderId
  | .registered p => [p]
  | .linked a b => [a, b]
  | _ => []

namespace DependencyGraph

variable {α : Type} [DecidableEq α] {g g' : DependencyGraph α} {a b c : α}

theorem mem_nodes_of_register (h : c ∈ (g.register a).2.nodes) : c ∈ g.nodes ∨ c = a := by
  unfold register at h
  split at h
  · exact .inl h
  · simpa using h

theorem mem_nodes_of_addNode (hadd : g.addNode a = .ok g') (h : c ∈ g'.nodes) :
    c ∈ g.nodes ∨ c = a := by
  rw [addNode_eq] at hadd
  split at hadd
  · cases hadd
  · cases hadd
    exact mem_nodes_of_register h

theorem mem_nodes_of_addEdge (hadd : g.addEdge a b = .ok g') (h : c ∈ g'.nodes) :
    c ∈ g.nodes ∨ c = a ∨ c = b := by
  rw [addEdge_eq] at hadd
  split at hadd
  · cases hadd
  · cases hadd
    rcases mem_nodes_of_register h with h | h
    · rcases mem_nodes_of_register h with h | h
      · exact .inl h
      · exact .inr (.inl h)
    · exact .inr (.inr h)

end DependencyGraph

theorem Step.nodes_cases {s s' : Session} (h : Step s s') {graph' : DependencyGraph PlaceholderId}
    (hopen' : s'.epoch = some graph') {p : PlaceholderId} (hp : p ∈ graph'.nodes) :
    (∃ graph, s.epoch = some graph ∧ p ∈ graph.nodes) ∨
      ∃ event, s'.history = s.history.push event ∧ p ∈ event.endpoints := by
  cases h with
  | quiet h =>
    rw [h.epoch] at hopen'
    exact .inl ⟨graph', hopen', hp⟩
  | register id hopen h =>
    cases hopen'
    rcases mem_nodes_of_addNode h hp with hold | rfl
    · exact .inl ⟨_, hopen, hold⟩
    · exact .inr ⟨_, rfl, by simp [Event.endpoints]⟩
  | link a b hopen h =>
    cases hopen'
    rcases mem_nodes_of_addEdge h hp with hold | rfl | rfl
    · exact .inl ⟨_, hopen, hold⟩
    · exact .inr ⟨_, rfl, by simp [Event.endpoints]⟩
    · exact .inr ⟨_, rfl, by simp [Event.endpoints]⟩
  | close hopen => cases hopen'
  | make id made pass hlt hfresh h =>
    obtain ⟨engine, _, hquiet⟩ := h.quiet
    have hepoch : s.epoch = some graph' := hquiet.epoch.symm.trans hopen'
    exact .inl ⟨graph', hepoch, hp⟩
  | _ => exact .inl ⟨graph', hopen', hp⟩

/-- No pass that was begun is forgotten. -/
def BegunGrows (s s' : Session) : Prop := s.begun.toList <+: s'.begun.toList

namespace BegunGrows

theorem of_eq {s s' : Session} (h : s'.begun = s.begun) : BegunGrows s s' :=
  ⟨[], by rw [h, append_nil]⟩

instance : IsPreorder Session BegunGrows where
  refl _ := List.prefix_refl _
  trans _ _ _ h h' := h.trans h'

instance : Admits BegunGrows where
  quiet h := of_eq h.begun
  step h := of_eq h.begun_eq

instance : AdmitsRuns BegunGrows where
  run {s s'} h := by
    cases h with
    | start e pass => exact ⟨[⟨e, pass, (s.engine e).completed⟩], by simp [Session.start]⟩
    | _ => exact of_eq rfl

end BegunGrows

/-! ## Engines at work -/

namespace Session

def OpenTo (s0 : Session) (working : EngineId → Prop) (id : ScopeId) : Prop :=
  s0.tree.size ≤ id.index ∨ ∃ e : EngineId, working e ∧ e.index < s0.engines.size ∧
    s0.tree.Under (s0.engine e).currentScope id

/-- The moves that an engine made since some session. -/
def movesSince (s0 s : Session) (e : EngineId) : List ScopeMove :=
  (visitsOf e (s.tree.trail.toList.drop s0.tree.trail.size)).map Visit.move

def Harmless (s0 : Session) (working : EngineId → Prop) (p : PlaceholderId) : Prop :=
  ∀ owner name, s0.Declares p owner name → s0.OpenTo working owner

structure Behaved (s0 : Session) (working : EngineId → Prop) (s : Session) : Prop where
  stays : ∀ e, working e → staysInside 0 (s0.movesSince s e) = true
  endpoints : ∀ event ∈ s.history.toList.drop s0.history.size, ∀ p ∈ event.endpoints,
    s0.Harmless working p
  begun : ∀ run ∈ s.begun.toList.drop s0.begun.size, working run.engine

structure Confined (s0 : Session) (working : EngineId → Prop) (s : Session) : Prop where
  grounded : s.Grounded
  tree : s0.tree.Confined (s0.OpenTo working) s.tree
  trail_le : s0.tree.trail.size ≤ s.tree.trail.size
  history_le : s0.history.size ≤ s.history.size
  begun_le : s0.begun.size ≤ s.begun.size
  engines_le : s0.engines.size ≤ s.engines.size
  visitors : ∀ v ∈ s.tree.trail.toList.drop s0.tree.trail.size, v.engine.index < s.engines.size
  indoors : ∀ e, working e → e.index < s.engines.size →
    Indoors (s0.OpenTo working) (s0.movesSince s e) (s.engine e).scopes
  owners : ∀ p owner name, s.Declares p owner name →
    s0.Declares p owner name ∨ s0.OpenTo working owner
  epoch : ∀ e, working e → (s.engine e).ownsEpoch = true → ∀ graph, s.epoch = some graph →
    ∀ p ∈ graph.nodes, s0.Harmless working p
  engine_lt : ∀ i : InstanceId, i.index < s.instances.size →
    (s.instanceAt i).engine.index < s.engines.size

theorem engine_modify_opened (s : Session) {x : EngineId} {v : Visit} {f : Engine → Engine}
    (hf : ∀ engine, f engine = { engine with scopes := v.opened engine.scopes }) (e : EngineId)
    (hlt : x.index < s.engines.size) : (s.engines.modify x.index f).getD e.index default =
      if e = x then { s.engine x with scopes := v.opened (s.engine x).scopes } else s.engine e := by
  rw [← hf]
  refine (s.engine_modify x e f).trans ?_
  by_cases heq : e = x
  · rw [if_pos ⟨heq, hlt⟩, if_pos heq]
  · rw [if_neg fun h => heq h.1, if_neg heq]

end Session

section Since

variable {s0 s s' : Session} {working : EngineId → Prop}

theorem Session.region_openTo (hs : s0.tree.Ordered) (working : EngineId → Prop) :
    s0.tree.Region (s0.OpenTo working) where
  new hle := .inl hle
  child {id parent} hparent hopen := by
    rcases hopen with hle | ⟨e, hworking, he, hunder⟩
    · have hlt := hs hparent
      exact .inl (by omega)
    · exact .inr ⟨e, hworking, he, .child hparent hunder⟩

theorem Session.movesSince_of_eq (h : s'.tree.trail = s.tree.trail) (e : EngineId) :
    s0.movesSince s' e = s0.movesSince s e := by
  rw [movesSince, h, movesSince]

theorem Session.movesSince_push (hle : s0.tree.trail.size ≤ s.tree.trail.size) {v : Visit}
    (h : s'.tree.trail = s.tree.trail.push v) (e : EngineId) :
    s0.movesSince s' e = s0.movesSince s e ++ if v.engine = e then [v.move] else [] := by
  have hdrop : s'.tree.trail.toList.drop s0.tree.trail.size =
      s.tree.trail.toList.drop s0.tree.trail.size ++ [v] := by
    rw [h, Array.toList_push, List.drop_append_of_le_length (by simpa using hle)]
  rw [movesSince, hdrop, visitsOf, List.filter_append, List.map_append, ← visitsOf, ← movesSince]
  congr 1
  by_cases heq : v.engine = e
  · simp [heq]
  · simp [heq]

theorem Session.Behaved.before (h : s0.Behaved working s')
    (htrail : s.tree.trail.toList <+: s'.tree.trail.toList) (hhistory : HistoryGrows s s')
    (hbegun : BegunGrows s s') : s0.Behaved working s where
  stays e he := by
    obtain ⟨more, hmore⟩ : s0.movesSince s e <+: s0.movesSince s' e :=
      ((htrail.drop _).filter _).map _
    have hstays := h.stays e he
    rw [← hmore] at hstays
    exact staysInside_of_append hstays
  endpoints event hevent := h.endpoints event ((List.IsPrefix.drop hhistory _).subset hevent)
  begun run hrun := h.begun run ((List.IsPrefix.drop hbegun _).subset hrun)

theorem Session.Behaved.endpoints_push (h : s0.Behaved working s')
    (hle : s0.history.size ≤ s.history.size) {event : Event}
    (hpush : s'.history = s.history.push event) {p : PlaceholderId} (hp : p ∈ event.endpoints) :
    s0.Harmless working p := by
  refine h.endpoints event ?_ p hp
  rw [hpush, toList_push, drop_append_of_le_length (by simpa using hle)]
  exact mem_append_right _ mem_cons_self

end Since

/-! ## What keeps a session confined -/

namespace Session.Confined

variable {s0 s s' : Session} {working : EngineId → Prop} {x : EngineId}

variable (hs : s0.Confined working s)

include hs

theorem current (hx : working x) (hlt : x.index < s.engines.size) :
    s0.OpenTo working (s.engine x).currentScope := (hs.indoors x hx hlt).current

theorem of_tree (hgrounded : s'.Grounded) (htree : s0.tree.Confined (s0.OpenTo working) s'.tree)
    (htrail : s'.tree.trail = s.tree.trail) (hsize : s'.engines.size = s.engines.size)
    (hscopes : ∀ e, (s'.engine e).scopes = (s.engine e).scopes)
    (hhistory : s.history.size ≤ s'.history.size) (hbegun : s.begun.size ≤ s'.begun.size)
    (hdeclares : ∀ {p owner name}, s'.Declares p owner name → s.Declares p owner name)
    (hepoch : ∀ e, working e → (s'.engine e).ownsEpoch = true → ∀ graph, s'.epoch = some graph →
      ∀ p ∈ graph.nodes, s0.Harmless working p)
    (hinstances : ∀ i : InstanceId, i.index < s'.instances.size → i.index < s.instances.size ∧
      (s'.instanceAt i).engine = (s.instanceAt i).engine) : s0.Confined working s' where
  grounded := hgrounded
  tree := htree
  trail_le := htrail ▸ hs.trail_le
  history_le := le_trans hs.history_le hhistory
  begun_le := le_trans hs.begun_le hbegun
  engines_le := hsize ▸ hs.engines_le
  visitors := by
    rw [htrail, hsize]
    exact hs.visitors
  indoors e he hlt := by
    rw [hscopes, movesSince_of_eq htrail]
    exact hs.indoors e he (hsize ▸ hlt)
  owners p owner name h := hs.owners p owner name (hdeclares h)
  epoch := hepoch
  engine_lt i hi := by
    obtain ⟨hold, hsame⟩ := hinstances i hi
    rw [hsame, hsize]
    exact hs.engine_lt i hold

theorem own {f : Engine → Engine} (hf : ∀ engine, (f engine).scopes = engine.scopes ∧
      ((f engine).ownsEpoch = true → engine.ownsEpoch = true)) :
    s0.Confined working { s with engines := s.engines.modify x.index f } := by
  refine hs.of_tree (hs.grounded.own fun engine id hid => (hf engine).1 ▸ hid) hs.tree rfl
    (by simp) (s.scopes_modify x fun engine => (hf engine).1) (le_refl _) (le_refl _) id
    (fun e he howns => ?_) fun i hi => ⟨hi, rfl⟩
  rw [engine_modify] at howns
  split at howns
  · rename_i heq
    rw [heq.1] at he
    exact hs.epoch x he ((hf _).2 howns)
  · exact hs.epoch e he howns

theorem happened (event : Event) :
    s0.Confined working { s with history := s.history.push event } := by
  have hgrounded : ({ s with history := s.history.push event } : Session).Grounded :=
    hs.grounded.grown hs.grounded.tree (le_refl _)
  refine hs.of_tree hgrounded hs.tree rfl rfl (fun _ => rfl) ?_ (le_refl _) id hs.epoch
    fun i hi => ⟨hi, rfl⟩
  simp

variable {p : PlaceholderId} {name : String} {snapshot : Snapshot}

theorem harmless_of_step (h : Step s s') (hbehaved : s0.Behaved working s') (hx : working x)
    (howns : (s.engine x).ownsEpoch = true) {graph : DependencyGraph PlaceholderId}
    (hopen : s'.epoch = some graph) (hp : p ∈ graph.nodes) : s0.Harmless working p := by
  rcases h.nodes_cases hopen hp with ⟨graph', hopen', hp'⟩ | ⟨event, hpush, hp'⟩
  · exact hs.epoch x hx howns graph' hopen' p hp'
  · exact hbehaved.endpoints_push hs.history_le hpush hp'

theorem plain (h : PlainStep s s') (hgrounded : s'.Grounded)
    (hbehaved : s0.Behaved working s') : s0.Confined working s' := by
  have hengine : ∀ e, s'.engine e = s.engine e := by
    intro e
    rw [Session.engine, h.engines, Session.engine]
  have hsize : s'.engines.size = s.engines.size := by rw [h.engines]
  have hhistory : HistoryGrows s s' := .of_step h.step
  refine hs.of_tree hgrounded (h.tree ▸ hs.tree) (congrArg ScopeTree.trail h.tree) hsize
    (fun e => by rw [hengine e]) ?_
    (le_of_eq (by rw [h.step.begun_eq])) ?_ (fun e he howns graph hopen p hp => ?_) ?_
  · simpa using hhistory.length_le
  · -- A name is bound only where the tree changes.
    intro p owner name hp
    rcases h.step.mild_or with hmild | ⟨tree, q, o, n, _, _, _, hfree, _, hbound, rfl⟩ |
      ⟨id, _, rfl⟩ | ⟨id, symbol, _, _, rfl⟩ | ⟨id, o, n, symbol, _, _, rfl⟩
    · exact hmild.declares_iff.mp hp
    · have htree : tree = s.tree := h.tree
      rw [htree, hfree] at hbound
      cases hbound
    · exact (declares_ask s id p owner name).mp hp
    · exact (declares_answer s id p symbol owner name).mp hp
    · exact hp
  · rw [hengine e] at howns
    exact hs.harmless_of_step h.step hbehaved he howns hopen hp
  · intro i hi
    rcases h.step.still_or with hstill | ⟨engine, _, rfl⟩ | ⟨s1, id, made, pass, hmake, rfl⟩
    · rw [hstill.instances] at hi
      exact ⟨hi, by rw [instanceAt, hstill.instances, instanceAt]⟩
    · exact ⟨hi, rfl⟩
    · rw [hmake.size_engines] at hsize
      omega

theorem work (hs0 : s0.tree.Ordered) {id : ScopeId} (hid : s0.OpenTo working id)
    (hlt : id.index < s.tree.size) (h : ScopeWork id s s') : s0.Confined working s' := by
  have hengine : ∀ e, s'.engine e = s.engine e := fun e => by
    rw [Session.engine, h.calm.engines, Session.engine]
  have htree := hs.tree.within (region_openTo hs0 working) hid hs.grounded.tree.ordered hlt h.tree
  refine hs.of_tree (hs.grounded.work hlt h) htree h.tree.trail (by rw [h.calm.engines])
    (fun e => by rw [hengine]) (by rw [h.calm.history]) (by rw [h.calm.begun])
    h.calm.toQuiet.mild.declares_iff.mp (fun e he howns => ?_) fun i hi => ?_
  · rw [hengine] at howns
    rw [h.calm.epoch]
    exact hs.epoch e he howns
  · rw [h.calm.instances] at hi
    exact ⟨hi, by rw [instanceAt, h.calm.instances, instanceAt]⟩

theorem rebind (hp : s0.Harmless working p) {owner : ScopeId} (h : s.Declares p owner name)
    (symbol : Symbol) (hgrounded : (s.rebind owner name symbol).Grounded) : s0.Confined working
    (s.rebind owner name symbol) := by
  have howner : s0.OpenTo working owner := by
    rcases hs.owners p owner name h with hdeclares | hopen
    · exact hp owner name hdeclares
    · exact hopen
  have hhistory := hs.history_le
  exact { hs with
      grounded := hgrounded
      tree := hs.tree.modifyScope howner rfl rfl
      history_le := by
        simp only [Session.rebind, size_push]
        omega }

theorem bind (hs0 : s0.tree.Ordered) (hx : working x)
    (hlt : x.index < s.engines.size) {p : Placeholder}
    (howner : p.owner = some (s.engine x).currentScope)
    (hfree : s.tree.member? (s.engine x).currentScope name = none) {symbol : Symbol} :
    s0.Confined working { s with
      tree := s.tree.modifyScope (s.engine x).currentScope fun scope =>
        { scope with members := scope.members.set name symbol }
      placeholders := s.placeholders.push p } := by
  have hwork : s0.Confined working { s with
      tree := s.tree.modifyScope (s.engine x).currentScope fun scope =>
        { scope with members := scope.members.set name symbol } } :=
    hs.work hs0 (hs.current hx hlt) (hs.grounded.current_lt x)
      (.of_tree (ScopeTree.within_bind hfree symbol))
  refine { hwork with
    grounded := hwork.grounded.grown hwork.grounded.tree (le_refl _)
    owners := fun q owner other hq => ?_ }
  rw [Declares, placeholder_push] at hq
  split at hq
  · -- The new placeholder is owned by the innermost scope.
    rw [howner] at hq
    cases hq.1
    exact .inr (hs.current hx hlt)
  · exact hs.owners q owner other hq

theorem visit (hs0 : s0.tree.Ordered) (hx : working x)
    (hlt : x.index < s.engines.size) {v : Visit} {tree : ScopeTree} {engines : Array Engine}
    (hv : v.engine = x) (hbefore : v.before = (s.engine x).currentScope)
    (hstride : s.tree.Stride v tree) (hsize : engines.size = s.engines.size)
    (hothers : ∀ e, e ≠ x → engines.getD e.index default = s.engine e)
    (hscopes : (engines.getD x.index default).scopes = v.opened (s.engine x).scopes)
    (howns : (engines.getD x.index default).ownsEpoch = (s.engine x).ownsEpoch)
    (hgrounded : ({ s with tree, engines } : Session).Grounded)
    (hbehaved : s0.Behaved working { s with tree, engines }) :
    s0.Confined working { s with tree, engines } := by
  have hregion := region_openTo hs0 working
  have hle := hs.trail_le
  have hmoves : ∀ e, s0.movesSince { s with tree, engines } e =
      s0.movesSince s e ++ if v.engine = e then [v.move] else [] :=
    movesSince_push hle hstride.trail
  have htree : s0.tree.Confined (s0.OpenTo working) tree := by
    refine hs.tree.stride hregion hstride ?_
    rw [hbefore]
    exact hs.current hx hlt
  refine { hs with
      grounded := hgrounded
      tree := htree
      trail_le := by
        simp only [hstride.trail, size_push]
        omega
      engines_le := hsize ▸ hs.engines_le
      visitors := fun w hw => ?_
      indoors := fun e he he' => ?_
      epoch := fun e he howns' => ?_
      engine_lt := fun i hi => hsize ▸ hs.engine_lt i hi }
  · simp only [hstride.trail, toList_push] at hw
    rw [drop_append_of_le_length (by simpa using hle)] at hw
    show w.engine.index < engines.size
    rw [hsize]
    rcases mem_append.mp hw with hold | hnew
    · exact hs.visitors w hold
    · rw [mem_singleton.mp hnew, hv]
      exact hlt
  · show Indoors (s0.OpenTo working) _ (engines.getD e.index default).scopes
    by_cases hown : e = x
    · subst hown
      have hstays := hbehaved.stays e he
      rw [hmoves, if_pos hv] at hstays ⊢
      rw [hscopes]
      refine (hs.indoors e he hlt).visit (fun hopens => ?_) hstays
      refine hregion.under htree.origin (hstride.under hs.grounded.tree hopens) ?_
      rw [hbefore]
      exact hs.current he hlt
    · rw [hmoves, hv, if_neg (Ne.symm hown), append_nil, hothers e hown]
      exact hs.indoors e he (hsize ▸ he')
  · replace howns' : (engines.getD e.index default).ownsEpoch = true := howns'
    refine hs.epoch e he ?_
    by_cases hown : e = x
    · rw [hown, ← howns, ← hown]
      exact howns'
    · rwa [hothers e hown] at howns'

theorem movesSince_new {e : EngineId}
    (hnew : e.index = s.engines.size) : s0.movesSince s e = [] := by
  rw [movesSince, map_eq_nil_iff, visitsOf, filter_eq_nil_iff]
  intro v hv
  have hlt := hs.visitors v hv
  rw [decide_eq_true_eq]
  rintro rfl
  omega

theorem forked (hs0 : s0.tree.Ordered)
    (hsnapshot : ∀ id ∈ snapshot.scopes, id.index < s.tree.size) :
    s0.Confined working (s.forked snapshot) := by
  have hregion := region_openTo hs0 working
  have hsize := hs.tree.size_le
  have hengine : ∀ e, (s.forked snapshot).engine e =
      if e.index = s.engines.size then .ofSnapshot snapshot ⟨s.tree.size⟩ else s.engine e :=
    s.engine_push _
  have hlt : ∀ {n}, n < s.engines.size → n < (s.forked snapshot).engines.size := by
    intro n hn
    simp only [Session.forked, size_push]
    omega
  exact { hs with
      grounded := hs.grounded.forked hsnapshot
      tree := hs.tree.push hregion (by simp [Snapshot.privateScope, ScopeOrigin.parent?])
        (by simp [Snapshot.privateScope])
      engines_le := by
        have hle := hs.engines_le
        simp only [Session.forked, size_push]
        omega
      visitors := fun v hv => hlt (hs.visitors v hv)
      indoors := fun e he he' => by
        rw [hengine]
        split
        · rename_i hnew
          have hnone : s0.movesSince (s.forked snapshot) e = [] := hs.movesSince_new hnew
          rw [hnone]
          exact .start (hregion.new hsize)
        · rename_i hold
          refine hs.indoors e he ?_
          simp only [Session.forked, size_push] at he'
          omega
      epoch := fun e he howns => by
        rw [hengine] at howns
        split at howns
        · cases howns
        · exact hs.epoch e he howns
      engine_lt := fun i hi => hlt (hs.engine_lt i hi) }

theorem fork (hs0 : s0.tree.Ordered) (hsnapshot : ∀ id ∈ snapshot.scopes, id.index < s.tree.size)
    (h : ScopeWork ⟨s.tree.size⟩ (s.forked snapshot) s') : s0.Confined working s' := by
  refine (hs.forked hs0 hsnapshot).work hs0 (.inl hs.tree.size_le) ?_ h
  simp only [Session.forked, ScopeTree.size_push]
  exact Nat.lt_succ_self _

theorem enlist {id : TemplateId} {made : Instance} {pass : Pass}
    (hgrounded : (s.enlist id made pass).Grounded) (hmade : made.engine.index < s.engines.size) :
    s0.Confined working (s.enlist id made pass) := by
  have hhistory := hs.history_le
  refine { hs with
      grounded := hgrounded
      history_le := by
        simp only [Session.enlist, size_push]
        omega
      engine_lt := fun i hi => ?_ }
  rw [instanceAt_enlist]
  simp only [Session.enlist, size_push] at hi
  split
  · exact hmade
  · exact hs.engine_lt i (by omega)

end Session.Confined

/-! ## What engines at work do -/

/-- As long as some engines behave, the session stays confined. -/
structure Confines (s0 : Session) (working : EngineId → Prop) (n : Nat) (s s' : Session) :
    Prop where
  roams : Roams s s'
  history : HistoryGrows s s'
  begun : BegunGrows s s'
  confined : s0.Confined working s → n ≤ s.engines.size → s0.Behaved working s' →
    s0.Confined working s'

namespace Confines

variable {s0 s s' : Session} {working : EngineId → Prop} {n : Nat} {x : EngineId}

instance : IsPreorder Session (Confines s0 working n) where
  refl s := ⟨refl_of Roams s, refl_of HistoryGrows s, refl_of BegunGrows s, fun hs _ _ => hs⟩
  trans a b c h h' :=
    { roams := trans_of Roams h.roams h'.roams
      history := trans_of HistoryGrows h.history h'.history
      begun := trans_of BegunGrows h.begun h'.begun
      confined := fun hs hn hbehaved => by
        obtain ⟨hgrounded, visits, hroamed⟩ := h.roams hs.grounded
        obtain ⟨-, visits', hroamed'⟩ := h'.roams hgrounded
        -- What happens later does not change how the engines behaved until now.
        have hbefore := hbehaved.before ⟨visits', hroamed'.trail.symm⟩ h'.history h'.begun
        exact h'.confined (h.confined hs hn hbefore) (Nat.le_trans hn hroamed.size_engines)
          hbehaved }

theorem mono {m : Nat} (h : Confines s0 working m s s') (hle : m ≤ n) :
    Confines s0 working n s s' :=
  ⟨h.roams, h.history, h.begun, fun hs hn => h.confined hs (le_trans hle hn)⟩

theorem of_deed (h : Deed x s s')
    (hconfined : s0.Confined working s → s'.Grounded → n ≤ s.engines.size →
      s0.Behaved working s' → s0.Confined working s') : Confines s0 working n s s' where
  roams := deed h
  history := deed h
  begun := deed h
  confined hs := hconfined hs (deed (R := Roams) h hs.grounded).1

instance : AdmitsPlain (Confines s0 working n) where
  plain h := of_deed (x := default) (.plain h) fun hs hgrounded _ hbehaved =>
    hs.plain h hgrounded hbehaved

theorem forks (hs0 : s0.tree.Ordered) : AdmitsForks (Confines s0 working n) where
  fork {s s' id snapshot} hdeclared h :=
    of_deed (x := default) (.fork id hdeclared h) fun hs _ _ _ =>
      hs.fork hs0 (fun _ hid => hs.grounded.snapshot_lt hdeclared hid) h
  make {s s1 id made pass snapshot} hlt hfresh hdeclared hengine hbusy h :=
    of_deed (x := default) (.make id made pass hlt hfresh hdeclared hengine hbusy h)
      fun hs hgrounded _ _ => by
        refine ((hs.happened _).fork hs0 (fun _ hid => ?_) h).enlist hgrounded ?_
        · exact hs.grounded.snapshot_lt hdeclared hid
        · have hengines : s1.engines = s.engines.push (.ofSnapshot snapshot ⟨s.tree.size⟩) :=
            h.calm.engines
          rw [hengine, hengines, size_push]
          exact Nat.lt_succ_self _

theorem of_visit (hs0 : s0.tree.Ordered) (hx : working x) {v : Visit} {tree : ScopeTree}
    {engines : Array Engine} (h : Deed x s { s with tree, engines }) (hv : v.engine = x)
    (hbefore : v.before = (s.engine x).currentScope)
    (hstride : (s.engine x).currentScope.index < s.tree.size → s.tree.Stride v tree)
    (hsize : engines.size = s.engines.size)
    (hengine : ∀ e, x.index < s.engines.size → engines.getD e.index default =
      if e = x then { s.engine x with scopes := v.opened (s.engine x).scopes } else s.engine e) :
    Confines s0 working (x.index + 1) s { s with tree, engines } := by
  refine of_deed h fun hs hgrounded hn hbehaved => ?_
  refine hs.visit hs0 hx hn hv hbefore (hstride (hs.grounded.current_lt x)) hsize
    (fun e hne => ?_) ?_ ?_ hgrounded hbehaved
  · rw [hengine e hn, if_neg hne]
  · rw [hengine x hn, if_pos rfl]
  · rw [hengine x hn, if_pos rfl]

theorem deeds (hs0 : s0.tree.Ordered) (hx : working x) :
    AdmitsDeeds x (Confines s0 working (x.index + 1)) where
  deed {s s'} h := by
    have : AdmitsForks (Confines s0 working (x.index + 1)) := forks hs0
    cases h with
    | plain h => exact AdmitsPlain.plain h
    | own f hf =>
      exact of_deed (.own f hf) fun hs _ _ _ =>
        hs.own fun engine => ⟨(hf engine).2.2.2.1, fun howns => (hf engine).1 ▸ howns⟩
    | write change f hf =>
      exact of_deed (.write change f hf) fun hs _ _ _ => hs.own fun _ => ⟨rfl, id⟩
    | work h =>
      exact of_deed (.work h) fun hs _ hn _ =>
        hs.work hs0 (hs.current hx hn) (hs.grounded.current_lt x) (.of_tree h)
    | bind p name howner hname hpending hlt hfree =>
      exact of_deed (.bind p name howner hname hpending hlt hfree) fun hs _ hn _ =>
        hs.bind hs0 hx hn howner hfree
    | enter move id h =>
      refine of_visit hs0 hx (.enter move id h) rfl rfl (fun hlt => .enter hlt h) (by simp)
        (s.engine_modify_opened fun engine => ?_)
      rw [Visit.opened_of_opens h.rewinds_eq_false]
    | enterBlock h =>
      exact of_visit hs0 hx (.enterBlock h) rfl rfl (fun hlt => .enterBlock hlt rfl h) (by simp)
        (s.engine_modify_opened fun _ => rfl)
    | leave hmove hopen h =>
      refine of_visit hs0 hx (.leave hmove hopen h) rfl rfl
        (fun hlt => .rewind hlt (ScopeMove.rewinds_of_isExit hmove) h) (by simp)
        (s.engine_modify_opened fun engine => ?_)
      rw [Visit.opened_of_isExit hmove]
    | endPass h =>
      refine of_visit hs0 hx (.endPass h) rfl rfl (fun hlt => .rewind hlt rfl h) rfl fun e hlt => ?_
      split
      · rename_i heq
        rw [heq]
        rfl
      · rfl
    | declare id =>
      exact of_deed (.declare id) fun hs hgrounded _ _ =>
        hs.of_tree hgrounded hs.tree rfl rfl (fun _ => rfl) (le_refl _) (le_refl _) (fun h => h)
          hs.epoch fun i hi => ⟨hi, rfl⟩
    | fork id hdeclared h => exact AdmitsForks.fork hdeclared h
    | make id made pass hlt hfresh hdeclared hengine hbusy h =>
      exact AdmitsForks.make hlt hfresh hdeclared hengine hbusy h

theorem of_passStep (h : PassStep x s s') : Confines s0 working n s s' where
  roams := pass h
  history := pass h
  begun := pass h
  confined hs _ _ := by
    have hgrounded := (pass (R := Roams) h hs.grounded).1
    cases h with
    | start pass =>
      refine hs.of_tree hgrounded hs.tree rfl rfl (fun _ => rfl) (le_refl _) ?_ id hs.epoch
        fun i hi => ⟨hi, rfl⟩
      simp [Session.start]
    | own f hf => exact hs.own fun engine => ⟨(hf engine).1, (hf engine).2.1⟩
    | openEpoch h =>
      refine hs.of_tree hgrounded hs.tree rfl (by simp) (s.scopes_modify x fun _ => rfl) (by simp)
        (le_refl _) id (fun e he howns graph hopen p hp => ?_) fun i hi => ⟨hi, rfl⟩
      -- The epoch is new, and nothing is in it.
      cases hopen
      cases hp
    | finished pass => exact hs.happened _

theorem close (hx : working x) (howns : (s.engine x).ownsEpoch = true) :
    Confines s0 working n s (leaves closeEpoch s) where
  roams := moves_closeEpoch s
  history := moves_closeEpoch s
  begun := moves_closeEpoch s
  confined hs := by
    refine (step_closeEpoch (R := Confines s0 working n)
      fun {graph drain closed} hopen hsort p hp => ?_).confined hs
    have hharmless : s0.Harmless working p :=
      hs.epoch x hx howns graph hopen p (mem_nodes_of_mem_sort hsort hp)
    refine moves_settlePlaceholder_of fun {s1 owner name symbol} howner hname hsettled => ?_
    exact
      { roams := rebind howner hname hsettled
        history := rebind howner hname hsettled
        begun := rebind howner hname hsettled
        confined := fun hs1 _ _ => hs1.rebind hharmless ⟨howner, hname⟩ symbol
          (rebind (R := Roams) howner hname hsettled hs1.grounded).1 }

theorem passes (hs0 : s0.tree.Ordered) (hx : working x) :
    AdmitsPasses x (Confines s0 working (x.index + 1)) :=
  have := deeds hs0 hx
  { pass := of_passStep
    close := close hx }

end Confines

end StagedAsm
