import StagedAsm.Digest.XXH64
import StagedAsm.Engine.Declarations
import StagedAsm.Session.Building
import StagedAsm.Session.Equality

/-!
# Looking names up

A path is searched in the open scopes, innermost first, and then in those imported into the current
file. A segment with template arguments names an instance, which is made the first time it is named
and compiled as far as the engine has come. How that is done is a parameter (`Runner.advance`).
-/

namespace StagedAsm

/-- An engine at work, with the way it compiles the instances it meets. -/
structure Runner where
  engine : EngineId
  advance : InstanceId → Pass → CompileM Unit

/-- A placeholder without a name is told by its identity, which messages leave out. -/
def Session.nameText (s : Session) : Symbol → String
  | .placeholder id =>
    match (s.placeholder id).name with
    | some _ => (s.placeholder id).text
    | none => s!"<anonymous@{id.index}>"
  | symbol => s.symbolText symbol

def mangledName (s : Session) (template : String) (arguments : List Symbol) : String :=
  template ++ "_" ++ Digest.XXH64.hexOfText (String.intercalate "," (arguments.map s.nameText))

namespace Runner

/-- The parameters are bound to the arguments and the body is built. -/
def prepareInstance (id : TemplateId) (template : Template) (snapshot : Snapshot)
    (arguments : List Symbol) : CompileM Instance := do
  let (engine, scope) ← fork snapshot
  engine.declareAll (template.parameters.zip arguments)
  record (.building template.name)
  happened (.building id arguments)
  let program ← buildProgram template.body
  let mangled := mangledName (← get) template.name arguments
  return { template := template.name, arguments, scope, engine, program, mangled }

def enlistInstance (id : TemplateId) (made : Instance) (pass : Pass) : CompileM InstanceId := do
  let new ← newInstance made
  let s ← get
  modifyTemplate id fun t => { t with memo := s.memoInsert t.memo made.arguments new }
  happened (.made id new pass)
  happened (.used id made.arguments new)
  return new

/-- Makes the instance for arguments that the template was not used with before. -/
def createInstance (r : Runner) (id : TemplateId) (arguments : List Symbol) :
    CompileM InstanceId := do
  let template := (← get).template id
  match template.declaration with
  | none => fail (.templateUndeclared template.name)
  | some snapshot =>
    let prepared ← prepareInstance id template snapshot arguments
    let pass ← r.engine.currentPass
    let made ← enlistInstance id prepared pass
    r.advance made pass
    return made

def instantiate (r : Runner) (id : TemplateId) (arguments : List Symbol) :
    CompileM InstanceId := do
  let s ← get
  let template := s.template id
  if arguments.length ≠ template.parameters.length then
    fail (.templateArity template.name template.parameters.length arguments.length)
  match s.findInstance? template.memo arguments with
  | some existing =>
    happened (.used id arguments existing)
    return existing
  | none => r.createInstance id arguments

/-- The member of a scope, or what it stands for if it is a settled placeholder. -/
def member? (id : ScopeId) (name : String) : CompileM (Option Symbol) := do
  let s ← get
  return (s.tree.member? id name).map s.settled

/-- The instance a segment with arguments names inside a scope. -/
def segmentInstance? (r : Runner) (scope : ScopeId) (segment : Segment) :
    CompileM (Option ScopeId) := do
  match ← member? scope segment.name with
  | none => pure none
  | some (.template id) =>
    let made ← r.instantiate id segment.arguments
    return some ((← get).instanceAt made).scope
  | some other => fail (.notATemplate segment.name other.kindName)

def findFrom? (r : Runner) : ScopeId → Path → CompileM (Option Symbol)
  | _, [] => pure none
  | scope, first :: rest => do
    if (← get).tree.isLocal scope then
      if rest.isEmpty && !first.isTemplated then member? scope first.name else pure none
    else if first.isTemplated then
      match ← r.segmentInstance? scope first with
      | none => pure none
      | some inner =>
        if rest.isEmpty then member? inner first.name
        else findFrom? r (((← get).tree.subScope? inner first.name).getD inner) rest
    else if rest.isEmpty then member? scope first.name
    else
      match (← get).tree.subScope? scope first.name with
      | some next => findFrom? r next rest
      | none => pure none

/-- What a path leads to from the first scope from which it leads anywhere. -/
def findFirst? (r : Runner) (path : Path) : List ScopeId → CompileM (Option Symbol)
  | [] => pure none
  | scope :: rest => do
    match ← r.findFrom? scope path with
    | some symbol => return some symbol
    | none => findFirst? r path rest

def imported (r : Runner) : CompileM (List ScopeId) := do
  let s ← get
  return ((s.engine r.engine).files.head?.bind s.imports.get?).getD []

def find? (r : Runner) (path : Path) : CompileM (Option Symbol) := do
  match ← r.findFirst? path (← r.engine.state).scopes with
  | some symbol => return some symbol
  | none => r.findFirst? path (← r.imported)

def find (r : Runner) : Finder := fun path => do
  r.engine.forbidPass .declare s!"resolve '{(← get).pathText path}'"
  match ← r.find? path with
  | some symbol => pure symbol
  | none => fail (.undefinedSymbol ((← get).pathText path))

end Runner

end StagedAsm
