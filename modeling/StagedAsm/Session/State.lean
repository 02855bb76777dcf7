import StagedAsm.DependencyGraph
import StagedAsm.ScopeTree.Operations
import StagedAsm.View

/-!
# Sessions

Everything a compilation holds: the scope tree, the tables of things that change, what the engines
share, and the engines themselves. `CompileM` is a computation on a session that can stop; the
session it leaves behind is the one that later computations see.
-/

namespace StagedAsm

/-- What is known of a primitive type or a structure, besides its name. -/
structure TypeInfo where
  instanceSize : Option UInt32 := none
  running : UInt32 := 0
  members : Option ScopeId := none
  deriving DecidableEq, Repr, Inhabited

structure Bindings where
  symbols : Dictionary Symbol := ∅
  lines : Dictionary Line := ∅
  typeRefs : Dictionary TypeRefId := ∅
  templates : Dictionary TemplateId := ∅
  instances : Dictionary InstanceId := ∅
  snapshots : Dictionary Snapshot := ∅
  deriving Inhabited

inductive Event where
  | opened (engine : EngineId)
  | registered (placeholder : PlaceholderId)
  | linked (dependency dependent : PlaceholderId)
  | closing
  | asked (placeholder : PlaceholderId)
  | answered (placeholder : PlaceholderId) (symbol : Symbol)
  | rebound (owner : ScopeId) (name : String) (symbol : Symbol)
  | finished (engine : EngineId) (pass : Pass)
  | replayed (template : TemplateId) (pass : Pass) (taken : List InstanceId)
  | building (template : TemplateId) (arguments : List Symbol)
  | made (template : TemplateId) (id : InstanceId) (pass : Pass)
  | used (template : TemplateId) (arguments : List Symbol) (id : InstanceId)
  | requested (id : InstanceId) (pass : Pass)
  | advanced (id : InstanceId) (pass : Pass)
  deriving DecidableEq, Repr

/-- A pass that an engine began to run. -/
structure PassRun where
  engine : EngineId
  pass : Pass
  completed : Option Pass
  deriving DecidableEq, Repr

/-- Everything a compilation holds. -/
structure Session where
  tree : ScopeTree := {}
  aliases : Array Register := #[]
  placeholders : Array Placeholder := #[]
  types : Array TypeInfo := #[]
  typeRefs : Array TypeRef := #[]
  templates : Array Template := #[]
  instances : Array Instance := #[]
  engines : Array Engine := #[]
  imports : Dictionary (List ScopeId) := ∅
  epoch : Option (DependencyGraph PlaceholderId) := none
  nextUid : Nat := 0
  nextDeferred : Nat := 0
  settings : Settings := {}
  sinks : Array String := #[]
  cells : Dictionary (Option String) := ∅
  stored : Bindings := {}
  memo : Memo := {}
  /-- What happened, latest first. -/
  log : List LogEntry := []
  history : Array Event := #[]
  begun : Array PassRun := #[]
  deriving Inhabited

abbrev CompileM := EStateM Fault Session

def fail {α : Type} (e : CompileError) : CompileM α := throw (.error e)

def ofExcept {α : Type} (x : Except CompileError α) : CompileM α :=
  match x with
  | .ok a => pure a
  | .error e => fail e

def ofFault {α : Type} (x : Except Fault α) : CompileM α :=
  match x with
  | .ok a => pure a
  | .error fault => throw fault

def onTree {α : Type} (m : TreeM α) : CompileM α := fun s =>
  match m s.tree with
  | .ok a tree => .ok a { s with tree }
  | .error fault tree => .error fault { s with tree }

/-- Keeps an error as a value. What is no error still stops the run. -/
def attempt {α : Type} (m : CompileM α) : CompileM (Except CompileError α) := fun s =>
  match m s with
  | .ok a s => .ok (.ok a) s
  | .error (.error e) s => .ok (.error e) s
  | .error fault s => .error fault s

def record (entry : LogEntry) : CompileM Unit :=
  modify fun s => { s with log := entry :: s.log }

def happened (event : Event) : CompileM Unit :=
  modify fun s => { s with history := s.history.push event }

namespace Session

def aliasRegister (s : Session) (id : AliasId) : Register := s.aliases.getD id.index default

def placeholder (s : Session) (id : PlaceholderId) : Placeholder :=
  s.placeholders.getD id.index default

def typeInfo (s : Session) (t : TypeSymbol) : TypeInfo := s.types.getD t.base.index default

def typeRef (s : Session) (id : TypeRefId) : TypeRef := s.typeRefs.getD id.index default

def template (s : Session) (id : TemplateId) : Template := s.templates.getD id.index default

def instanceAt (s : Session) (id : InstanceId) : Instance := s.instances.getD id.index default

def engine (s : Session) (id : EngineId) : Engine := s.engines.getD id.index default

end Session

/-! ## Tables -/

def newAlias (register : Register) : CompileM AliasId :=
  modifyGet fun s => (⟨s.aliases.size⟩, { s with aliases := s.aliases.push register })

def newPlaceholder (p : Placeholder) : CompileM PlaceholderId :=
  modifyGet fun s =>
    (⟨s.placeholders.size⟩, { s with placeholders := s.placeholders.push p })

def newType (info : TypeInfo) : CompileM TypeId :=
  modifyGet fun s => (⟨s.types.size⟩, { s with types := s.types.push info })

def newTypeRef (r : TypeRef) : CompileM TypeRefId :=
  modifyGet fun s => (⟨s.typeRefs.size⟩, { s with typeRefs := s.typeRefs.push r })

def newTemplate (t : Template) : CompileM TemplateId :=
  modifyGet fun s => (⟨s.templates.size⟩, { s with templates := s.templates.push t })

def newInstance (i : Instance) : CompileM InstanceId :=
  modifyGet fun s => (⟨s.instances.size⟩, { s with instances := s.instances.push i })

def newEngine (e : Engine) : CompileM EngineId :=
  modifyGet fun s => (⟨s.engines.size⟩, { s with engines := s.engines.push e })

def newDeferred (text : DeferredText) : CompileM Symbol :=
  modifyGet fun s =>
    (.deferred s.nextDeferred text, { s with nextDeferred := s.nextDeferred + 1 })

def modifyPlaceholder (id : PlaceholderId) (f : Placeholder → Placeholder) : CompileM Unit :=
  modify fun s => { s with placeholders := s.placeholders.modify id.index f }

def modifyType (id : TypeId) (f : TypeInfo → TypeInfo) : CompileM Unit :=
  modify fun s => { s with types := s.types.modify id.index f }

def modifyTypeRef (id : TypeRefId) (f : TypeRef → TypeRef) : CompileM Unit :=
  modify fun s => { s with typeRefs := s.typeRefs.modify id.index f }

def modifyTemplate (id : TemplateId) (f : Template → Template) : CompileM Unit :=
  modify fun s => { s with templates := s.templates.modify id.index f }

def modifyInstance (id : InstanceId) (f : Instance → Instance) : CompileM Unit :=
  modify fun s => { s with instances := s.instances.modify id.index f }

def modifyEngine (id : EngineId) (f : Engine → Engine) : CompileM Unit :=
  modify fun s => { s with engines := s.engines.modify id.index f }

end StagedAsm
