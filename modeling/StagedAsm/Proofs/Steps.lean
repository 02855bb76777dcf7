import StagedAsm.Engine.Output
import StagedAsm.Proofs.Moves
import StagedAsm.Proofs.ScopeTrees
import StagedAsm.Session.Building
import StagedAsm.Session.Equality

/-!
# The steps of a session

What engines can do to a session, one kind of step after the other. A relation that admits all steps
relates a session to whatever a computation makes of it. Evaluating expressions is `Silent`: it adds
symbols that no name is bound to. Building programs and declaring names is `Quiet`: it leaves
engines, instances and the epoch alone.
-/

namespace StagedAsm

open Array Session

/-! ## Quiet computations -/

/-- The placeholder was not asked yet. -/
def Placeholder.IsPending (p : Placeholder) : Prop := ∃ resolution, p.state = .pending resolution

/-- What a session keeps track of besides its scopes. -/
def Session.records (s : Session) : Array Placeholder × Array Template × Array Instance ×
    Array Engine × Option (DependencyGraph PlaceholderId) × Array Event × Array PassRun × Nat :=
  (s.placeholders, s.templates, s.instances, s.engines, s.epoch, s.history, s.begun, s.nextUid)

/-- What evaluating expressions, building programs and declaring names does to a session. -/
structure Quiet (s s' : Session) : Prop where
  tree : s.tree.Keeps s'.tree
  placeholders : ∃ added : Array Placeholder, s'.placeholders = s.placeholders ++ added ∧
    ∀ p ∈ added, p.owner = none ∧ p.IsPending
  templates : ∃ added : Array Template, s'.templates = s.templates ++ added ∧
    ∀ t ∈ added, t.memo = {}
  /-- No template gets a snapshot. -/
  declared : ∀ {t : TemplateId} {snapshot : Snapshot},
    (s'.template t).declaration = some snapshot → (s.template t).declaration = some snapshot
  instances : s'.instances = s.instances
  engines : s'.engines = s.engines
  epoch : s'.epoch = s.epoch
  history : s'.history = s.history
  begun : s'.begun = s.begun
  uid : s.nextUid ≤ s'.nextUid

/-- What a session holds besides symbols, types and what was stored. -/
def Session.standing (s : Session) : ScopeTree × Array Template × Array Instance × Array Engine ×
    Option (DependencyGraph PlaceholderId) × Nat × Settings × Array String × Array Event ×
    Array PassRun :=
  (s.tree, s.templates, s.instances, s.engines, s.epoch, s.nextUid, s.settings, s.sinks, s.history,
    s.begun)

/-- What evaluating expressions does to a session. -/
structure Silent (s s' : Session) : Prop where
  standing : s'.standing = s.standing
  placeholders : ∃ added : Array Placeholder, s'.placeholders = s.placeholders ++ added ∧
    ∀ p ∈ added, p.owner = none ∧ p.IsPending

namespace Silent

variable {s s' : Session}

theorem of_eq (hstanding : s'.standing = s.standing) (h : s'.placeholders = s.placeholders) :
    Silent s s' := ⟨hstanding, #[], by simp [h], by simp⟩

instance : Std.Refl Silent := ⟨fun _ => of_eq rfl rfl⟩

instance : IsTrans Session Silent where
  trans a b c h h' := by
    obtain ⟨p, hp, hpending⟩ := h.placeholders
    obtain ⟨p', hp', hpending'⟩ := h'.placeholders
    refine ⟨h'.standing.trans h.standing, p ++ p', by rw [hp', hp, Array.append_assoc],
      fun q hq => ?_⟩
    exact (Array.mem_append.mp hq).elim (hpending q) (hpending' q)

theorem sinks (h : Silent s s') : s'.sinks = s.sinks :=
  congrArg (·.2.2.2.2.2.2.2.1) h.standing

theorem quiet (h : Silent s s') : Quiet s s' := by
  have hstanding := h.standing
  simp only [Session.standing, Prod.mk.injEq] at hstanding
  obtain ⟨htree, htemplates, hinstances, hengines, hepoch, huid, -, -, hhistory, hbegun⟩ :=
    hstanding
  exact
    { tree := htree ▸ refl_of ScopeTree.Keeps _
      placeholders := h.placeholders
      templates := ⟨#[], by simp [htemplates], by simp⟩
      declared := fun h => by rwa [Session.template, htemplates] at h
      instances := hinstances
      engines := hengines
      epoch := hepoch
      history := hhistory
      begun := hbegun
      uid := Nat.le_of_eq huid.symm }

end Silent

namespace Quiet

variable {s s' : Session}

theorem of_tree (hkeeps : s.tree.Keeps s'.tree) (h : s'.records = s.records) : Quiet s s' := by
  simp only [records, Prod.mk.injEq] at h
  obtain ⟨hplaceholders, htemplates, hinstances, hengines, hepoch, hhistory, hbegun, huid⟩ := h
  exact
    { tree := hkeeps
      placeholders := ⟨#[], by simp [hplaceholders], by simp⟩
      templates := ⟨#[], by simp [htemplates], by simp⟩
      declared := fun h => by rwa [template, htemplates] at h
      instances := hinstances
      engines := hengines
      epoch := hepoch
      history := hhistory
      begun := hbegun
      uid := Nat.le_of_eq huid.symm }

theorem of_eq (htree : s'.tree = s.tree) (h : s'.records = s.records) :
    Quiet s s' := of_tree (htree ▸ refl_of ScopeTree.Keeps _) h

instance : Std.Refl Quiet := ⟨fun _ => of_eq rfl rfl⟩

instance : IsTrans Session Quiet where
  trans a b c h h' := by
    obtain ⟨p, hp, hpending⟩ := h.placeholders
    obtain ⟨p', hp', hpending'⟩ := h'.placeholders
    obtain ⟨t, ht, hmemo⟩ := h.templates
    obtain ⟨t', ht', hmemo'⟩ := h'.templates
    exact
      { tree := trans_of ScopeTree.Keeps h.tree h'.tree
        placeholders := by
          refine ⟨p ++ p', by rw [hp', hp, Array.append_assoc], fun q hq => ?_⟩
          exact (Array.mem_append.mp hq).elim (hpending q) (hpending' q)
        templates := by
          refine ⟨t ++ t', by rw [ht', ht, Array.append_assoc], fun q hq => ?_⟩
          exact (Array.mem_append.mp hq).elim (hmemo q) (hmemo' q)
        declared := fun hc => h.declared (h'.declared hc)
        instances := h'.instances.trans h.instances
        engines := h'.engines.trans h.engines
        epoch := h'.epoch.trans h.epoch
        history := h'.history.trans h.history
        begun := h'.begun.trans h.begun
        uid := Nat.le_trans h.uid h'.uid }

theorem happened (h : Quiet s s') (event : Event) :
    Quiet { s with history := s.history.push event } { s' with history := s'.history.push event } :=
  { h with history := by rw [h.history] }

end Quiet

/-! ## Steps -/

/-- The engine did not run yet. -/
def Engine.IsNew (engine : Engine) : Prop :=
  engine.ownsEpoch = false ∧ engine.running = none ∧ engine.completed = none

/-- The body of the template can be built in every session. -/
def Template.Builds (t : Template) : Prop :=
  ∀ s, ∃ program s', buildProgram t.body s = .ok program s'

/-- What setting an engine up for an instance of a template does. -/
structure Prepared (s s' : Session) (id : TemplateId) (made : Instance) : Prop where
  quiet : ∃ engine : Engine, engine.IsNew ∧
    Quiet { s with
      engines := s.engines.push engine
      history := s.history.push (.building id made.arguments) } s'
  engine_eq : made.engine = ⟨s.engines.size⟩
  not_busy : made.isBusy = false

namespace Session

/-- A placeholder was asked what it stands for. -/
def ask (s : Session) (id : PlaceholderId) : Session :=
  { s with
    placeholders := s.placeholders.modify id.index fun p => { p with state := .spent }
    history := s.history.push (.asked id) }

/-- A placeholder told what it stands for. -/
def answer (s : Session) (id : PlaceholderId) (symbol : Symbol) : Session :=
  { s with
    placeholders := s.placeholders.modify id.index fun p => { p with state := .settled symbol }
    history := s.history.push (.answered id symbol) }

/-- A name got what its placeholder stands for. -/
def rebind (s : Session) (owner : ScopeId) (name : String) (symbol : Symbol) : Session :=
  { s with
    tree := s.tree.modifyScope owner fun scope =>
      { scope with members := scope.members.set name symbol }
    history := s.history.push (.rebound owner name symbol) }

def closeEpoch (s : Session) : Session :=
  { s with epoch := none, history := s.history.push .closing }

def enlist (s : Session) (id : TemplateId) (made : Instance) (pass : Pass) : Session :=
  let new : InstanceId := ⟨s.instances.size⟩
  let s := { s with instances := s.instances.push made }
  { s with
    templates := s.templates.modify id.index fun t =>
      { t with memo := s.memoInsert t.memo made.arguments new }
    history := (s.history.push (.made id new pass)).push (.used id made.arguments new) }

/-- Arguments led to an instance that is there. -/
def use (s : Session) (id : TemplateId) (arguments : List Symbol) (i : InstanceId) : Session :=
  { s with history := s.history.push (.used id arguments i) }

/-- The action of a template took the instances that are there. -/
def replay (s : Session) (id : TemplateId) (pass : Pass) : Session :=
  { s with history := s.history.push (.replayed id pass (s.template id).memo.instances) }

/-- An engine began to run a pass. -/
def start (s : Session) (e : EngineId) (pass : Pass) : Session :=
  { s with begun := s.begun.push ⟨e, pass, (s.engine e).completed⟩ }

def finish (s : Session) (e : EngineId) (pass : Pass) : Session :=
  { s with
    engines := s.engines.modify e.index fun engine =>
      { engine with running := none, completed := some pass }
    history := s.history.push (.finished e pass) }

theorem engine_of_size_le {s : Session} {e : EngineId} (h : s.engines.size ≤ e.index) :
    s.engine e = default := by
  simp [engine, getElem?_eq_none h]

theorem engine_push (s : Session) (new : Engine) (e : EngineId) :
    ({ s with engines := s.engines.push new } : Session).engine e =
      if e.index = s.engines.size then new else s.engine e :=
  getD_push _ _ _ _

theorem engine_modify (s : Session) (e other : EngineId) (f : Engine → Engine) :
    ({ s with engines := s.engines.modify e.index f } : Session).engine other =
      if other = e ∧ e.index < s.engines.size then f (s.engine e) else s.engine other := by
  cases e
  cases other
  simp only [engine, getD_modify, EngineId.mk.injEq]

theorem instanceAt_modify (s : Session) (i other : InstanceId) (f : Instance → Instance) :
    ({ s with instances := s.instances.modify i.index f } : Session).instanceAt other =
      if other = i ∧ i.index < s.instances.size then f (s.instanceAt i)
      else s.instanceAt other := by
  cases i
  cases other
  simp only [instanceAt, getD_modify, InstanceId.mk.injEq]

theorem instanceAt_enlist (s : Session) (id : TemplateId) (made : Instance) (pass : Pass)
    (i : InstanceId) : (s.enlist id made pass).instanceAt i =
      if i.index = s.instances.size then made else s.instanceAt i :=
  getD_push _ _ _ _

end Session

/-- What a computation can do to a session at a time, apart from the engine's own state. -/
inductive Step : Session → Session → Prop where
  | quiet {s s' : Session} (h : Quiet s s') : Step s s'
  | bind {s : Session} (tree : ScopeTree) (p : Placeholder) (owner : ScopeId) (name : String)
      (howner : p.owner = some owner) (hname : p.name = some name) (hpending : p.IsPending)
      (hfree : s.tree.member? owner name = none) (hkeeps : s.tree.Keeps tree)
      (hbound : tree.member? owner name = some (.placeholder ⟨s.placeholders.size⟩)) :
      Step s { s with tree, placeholders := s.placeholders.push p }
  | register {s : Session} {graph graph' : DependencyGraph PlaceholderId} (id : PlaceholderId)
      (hopen : s.epoch = some graph) (h : graph.addNode id = .ok graph') :
      Step s { s with epoch := some graph', history := s.history.push (.registered id) }
  | link {s : Session} {graph graph' : DependencyGraph PlaceholderId} (a b : PlaceholderId)
      (hopen : s.epoch = some graph) (h : graph.addEdge a b = .ok graph') :
      Step s { s with epoch := some graph', history := s.history.push (.linked a b) }
  | close {s : Session} {graph : DependencyGraph PlaceholderId} (hopen : s.epoch = some graph) :
      Step s s.closeEpoch
  | ask {s : Session} (id : PlaceholderId) (hpending : (s.placeholder id).IsPending) :
      Step s (s.ask id)
  | answer {s : Session} (id : PlaceholderId) (symbol : Symbol)
      (hlt : id.index < s.placeholders.size) (hspent : (s.placeholder id).state = .spent) :
      Step s (s.answer id symbol)
  | rebind {s : Session} (id : PlaceholderId) (owner : ScopeId) (name : String) (symbol : Symbol)
      (howner : (s.placeholder id).owner = some owner) (hname : (s.placeholder id).name = some name)
      (hsettled : (s.placeholder id).state = .settled symbol) :
      Step s (s.rebind owner name symbol)
  | declare {s : Session} (id : TemplateId) (snapshot : Snapshot) :
      Step s { s with
        templates := s.templates.modify id.index fun t =>
          { t with declaration := some snapshot } }
  | replay {s : Session} (id : TemplateId) (pass : Pass) : Step s (s.replay id pass)
  | fork {s : Session} (engine : Engine) (h : engine.IsNew) :
      Step s { s with engines := s.engines.push engine }
  | reject {s : Session} (id : TemplateId) (arguments : List Symbol)
      (h : ¬ (s.template id).Builds) :
      Step s { s with history := s.history.push (.building id arguments) }
  | make {s s1 : Session} (id : TemplateId) (made : Instance) (pass : Pass)
      (hlt : id.index < s.templates.size)
      (hfresh : s.findInstance? (s.template id).memo made.arguments = none)
      (h : Prepared s s1 id made) : Step s (s1.enlist id made pass)
  | use {s : Session} (id : TemplateId) (arguments : List Symbol) (i : InstanceId)
      (h : s.findInstance? (s.template id).memo arguments = some i) :
      Step s (s.use id arguments i)

/-! ## Making instances -/

namespace Prepared

variable {s s1 : Session} {t : TemplateId} {made : Instance} (h : Prepared s s1 t made)
  (pass : Pass)

include h

theorem size_instances : (s1.enlist t made pass).instances.size = s.instances.size + 1 := by
  obtain ⟨engine, _, hquiet⟩ := h.quiet
  simp [enlist, hquiet.instances]

theorem size_engines : (s1.enlist t made pass).engines.size = s.engines.size + 1 := by
  obtain ⟨engine, _, hquiet⟩ := h.quiet
  simp [enlist, hquiet.engines]

theorem engine_of_lt {e : EngineId} (he : e.index < s.engines.size) :
    (s1.enlist t made pass).engine e = s.engine e := by
  obtain ⟨engine, _, hquiet⟩ := h.quiet
  have hengines : (s1.enlist t made pass).engines = s.engines.push engine := hquiet.engines
  rw [Session.engine, hengines, getD_push, if_neg (Nat.ne_of_lt he), Session.engine]

theorem isNew : ((s1.enlist t made pass).engine made.engine).IsNew := by
  obtain ⟨engine, hnew, hquiet⟩ := h.quiet
  have hengines : (s1.enlist t made pass).engines = s.engines.push engine := hquiet.engines
  rw [Session.engine, hengines, getD_push, h.engine_eq, if_pos rfl]
  exact hnew

variable {i : InstanceId}

theorem instanceAt_of_lt (hi : i.index < s.instances.size) :
    (s1.enlist t made pass).instanceAt i = s.instanceAt i := by
  obtain ⟨engine, _, hquiet⟩ := h.quiet
  have hinstances : s1.instances = s.instances := hquiet.instances
  rw [instanceAt_enlist, hinstances, if_neg (Nat.ne_of_lt hi), instanceAt, hinstances, instanceAt]

theorem instance_cases (hi : i.index < (s1.enlist t made pass).instances.size) :
    i.index < s.instances.size ∨
      (i.index = s.instances.size ∧ (s1.enlist t made pass).instanceAt i = made) := by
  obtain ⟨engine, _, hquiet⟩ := h.quiet
  have hinstances : s1.instances = s.instances := hquiet.instances
  rw [h.size_instances] at hi
  rcases Nat.lt_succ_iff_lt_or_eq.mp hi with hi | hi
  · exact .inl hi
  · refine .inr ⟨hi, ?_⟩
    rw [instanceAt_enlist, hinstances, if_pos hi]

/-- Instances have engines that are there. -/
theorem engine_lt (hlt : ∀ i, i.index < s.instances.size →
      (s.instanceAt i).engine.index < s.engines.size) (i : InstanceId)
    (hi : i.index < (s1.enlist t made pass).instances.size) :
    ((s1.enlist t made pass).instanceAt i).engine.index < (s1.enlist t made pass).engines.size := by
  rw [h.size_engines]
  rcases h.instance_cases pass hi with hi | ⟨_, hmade⟩
  · rw [h.instanceAt_of_lt pass hi]
    exact Nat.lt_succ_of_lt (hlt i hi)
  · rw [hmade, h.engine_eq]
    exact Nat.lt_succ_self _

theorem history_eq : (s1.enlist t made pass).history.toList =
    s.history.toList ++ [.building t made.arguments, .made t ⟨s1.instances.size⟩ pass,
      .used t made.arguments ⟨s1.instances.size⟩] := by
  obtain ⟨engine, _, hquiet⟩ := h.quiet
  simp [enlist, hquiet.history]

end Prepared

/-! ## Steps that leave engines and instances alone -/

variable {s s' : Session} {t : TemplateId}

theorem Session.template_of_size_le (h : s.templates.size ≤ t.index) : s.template t = default := by
  simp [template, getElem?_eq_none h]

theorem Quiet.template_of_lt (h : Quiet s s') (hlt : t.index < s.templates.size) :
    s'.template t = s.template t := by
  obtain ⟨added, hadded, -⟩ := h.templates
  simp [template, hadded, getElem?_append_left hlt]

theorem Quiet.memo_eq (h : Quiet s s') (t : TemplateId) :
    (s'.template t).memo = (s.template t).memo := by
  by_cases hlt : t.index < s.templates.size
  · rw [h.template_of_lt hlt]
  -- A template that was not there is new and has no instances yet.
  · have hle := Nat.le_of_not_lt hlt
    obtain ⟨added, hadded, hmemo⟩ := h.templates
    rw [template_of_size_le hle]
    simp only [template, hadded, getD_eq_getD_getElem?, getElem?_append_right hle]
    cases ht : added[t.index - s.templates.size]? with
    | none => rfl
    | some other => exact hmemo other (mem_of_getElem? ht)

theorem Session.template_of_modify (s : Session) {s' : Session} (id : TemplateId)
    {f : Template → Template} (h : s'.templates = s.templates.modify id.index f) (t : TemplateId) :
    s'.template t =
      if t = id ∧ id.index < s.templates.size then f (s.template id) else s.template t := by
  cases id
  cases t
  simp only [template, h, getD_modify, TemplateId.mk.injEq]

def Event.aboutRun : Event → Bool
  | .opened _ => true
  | .finished _ _ => true
  | .made _ _ _ => true
  | .requested _ _ => true
  | .advanced _ _ => true
  | _ => false

/-- The step leaves engines and instances alone. -/
structure Still (s s' : Session) : Prop where
  engines : s'.engines = s.engines
  instances : s'.instances = s.instances
  memo : ∀ t i, i ∈ (s'.template t).memo.instances → i ∈ (s.template t).memo.instances
  history : s'.history = s.history ∨
    ∃ event, s'.history = s.history.push event ∧ event.aboutRun = false

theorem Step.still_or (h : Step s s') : Still s s' ∨
    (∃ engine : Engine, engine.IsNew ∧ s' = { s with engines := s.engines.push engine }) ∨
    (∃ s1 id made pass, Prepared s s1 id made ∧ s' = s1.enlist id made pass) := by
  have hmemo : ∀ t i, i ∈ (s.template t).memo.instances → i ∈ (s.template t).memo.instances :=
    fun _ _ hi => hi
  cases h with
  | quiet h =>
    exact .inl ⟨h.engines, h.instances, fun t _ hi => h.memo_eq t ▸ hi, .inl h.history⟩
  | bind tree p owner name howner hname hpending hfree hkeeps hbound =>
    exact .inl ⟨rfl, rfl, hmemo, .inl rfl⟩
  | declare id snapshot =>
    -- The template changes, but not its instances.
    refine .inl ⟨rfl, rfl, fun t i hi => ?_, .inl rfl⟩
    rw [s.template_of_modify id (f := fun template =>
      { template with declaration := some snapshot }) rfl t] at hi
    split at hi
    · rename_i heq
      rw [heq.1]
      exact hi
    · exact hi
  | fork engine h => exact .inr (.inl ⟨engine, h, rfl⟩)
  | make id made pass hlt hfresh h => exact .inr (.inr ⟨_, id, made, pass, h, rfl⟩)
  | _ => exact .inl ⟨rfl, rfl, hmemo, .inr ⟨_, rfl, rfl⟩⟩

/-! ## Relations that steps stay in -/

/-- A relation that silent computations stay in. -/
class AdmitsSilent (R : Session → Session → Prop) : Prop extends IsPreorder Session R where
  silent {s s' : Session} (h : Silent s s') : R s s'

/-- What an engine can do to its sections at a time. -/
inductive SectionChange where
  | accept (name text : String)
  | defer (name : String) (line : Line)
  | announce
  | close (sinks : Array String)

/-- Lines are rendered as the session tells. -/
def SectionChange.apply (s : Session) (sections : List (String × Section)) :
    SectionChange → List (String × Section)
  | accept name text => Section.modifyFirst name (·.accept text) sections
  | defer name line => Section.modifyFirst name (·.defer line) sections
  | announce => (Section.fireAll s.renderLine sections).1
  | close sinks => (Section.closeAll sinks sections).1

/-- A relation that an engine stays in when it writes to its sections. -/
class AdmitsOutput (e : EngineId) (R : Session → Session → Prop) : Prop extends AdmitsSilent R where
  output {s : Session} (change : SectionChange)
    (f : List (String × Section) → List (String × Section))
    (hf : f (s.engine e).sections = change.apply s (s.engine e).sections) :
    R s { s with engines := s.engines.modify e.index fun engine =>
      { engine with sections := f engine.sections } }

/-- A relation that quiet computations stay in. -/
class AdmitsQuiet (R : Session → Session → Prop) : Prop extends IsPreorder Session R where
  quiet {s s' : Session} (h : Quiet s s') : R s s'

instance {R : Session → Session → Prop} [AdmitsQuiet R] : AdmitsSilent R where
  silent h := AdmitsQuiet.quiet h.quiet

/-- A relation that all steps stay in. -/
class Admits (R : Session → Session → Prop) : Prop extends AdmitsQuiet R where
  step {s s' : Session} (h : Step s s') : R s s'

/-- A relation that an engine stays in when it changes what only it looks at. -/
class AdmitsEngine (e : EngineId) (R : Session → Session → Prop) : Prop extends Admits R where
  engine {s : Session} (f : Engine → Engine)
    (hf : ∀ engine, (f engine).ownsEpoch = engine.ownsEpoch ∧
      (f engine).running = engine.running ∧ (f engine).completed = engine.completed) :
    R s { s with engines := s.engines.modify e.index f }

instance {e : EngineId} {R : Session → Session → Prop} [AdmitsEngine e R] : AdmitsOutput e R where
  output _ f _ := AdmitsEngine.engine (fun engine => { engine with sections := f engine.sections })
    fun _ => ⟨rfl, rfl, rfl⟩

instance : AdmitsSilent Silent where
  silent h := h

instance : AdmitsQuiet Quiet where
  quiet h := h

end StagedAsm
