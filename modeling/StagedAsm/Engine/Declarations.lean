import StagedAsm.Engine.Scopes

/-!
# Declarations of an engine

Binding names in the current scope, each kind of symbol under its own conditions, and recording
placeholders and what they wait for in the open epoch.
-/

namespace StagedAsm

def onEpoch (f : DependencyGraph PlaceholderId →
    Except CompileError (DependencyGraph PlaceholderId)) : CompileM Unit := do
  match (← get).epoch with
  | none => fail .noEpoch
  | some graph =>
    let graph ← ofExcept (f graph)
    modify fun s => { s with epoch := some graph }

namespace EngineId

def declare (e : EngineId) (name : String) (symbol : Symbol) : CompileM Unit := do
  onTree (ScopeTree.declare (← e.currentScope) name symbol)

def declareAll (e : EngineId) : List (String × Symbol) → CompileM Unit
  | [] => pure ()
  | (name, symbol) :: rest => do
    e.declare name symbol
    declareAll e rest

def declareConstant (e : EngineId) (name text : String) (type : Option ValueType) :
    CompileM Unit :=
  e.declare name (.constant text type)

/-! ## Variables -/

def declareVariable (e : EngineId) (name : String) (type : ValueType) : CompileM Unit := do
  e.requireLocal "declare a local variable"
  onTree (ScopeTree.declareVariable (← e.currentScope) name type)

/-- Names a value that lies on the frame already. -/
def declareExisting (e : EngineId) (name : String) (type : ValueType) (offset : Int) :
    CompileM Unit := do
  e.requireLocal "declare a local variable"
  onTree (ScopeTree.declareExisting (← e.currentScope) name type offset)

/-- Reserves bytes of the frame without a name. -/
def allocate (e : EngineId) (bytes : UInt32) : CompileM Unit := do
  e.requireLocal "allocate stack space"
  onTree (ScopeTree.allocate (← e.currentScope) bytes)

/-- Points an alias at a register, declaring it if the scope does not have it. -/
def setAlias (e : EngineId) (name register : String) : CompileM Register := do
  e.requireLocal "set a register alias"
  e.requirePass .generate "set a register alias"
  let register ← ofExcept (Register.parse register)
  match (← get).tree.member? (← e.currentScope) name with
  | some (.registerAlias id) =>
    modify fun s => { s with aliases := s.aliases.setIfInBounds id.index register }
  | _ => e.declare name (.registerAlias (← newAlias register))
  return register

/-- Whether the current function scope binds a name. -/
def isStackVariable (e : EngineId) (name : String) : CompileM Bool := do
  return (← e.isLocal) && (← e.scope).members.contains name

/-! ## Functions, types and templates -/

def declareFunction (e : EngineId) (name label : String) (parameters : List Parameter) :
    CompileM Unit := do
  e.requireGlobal "declare a function"
  let current ← e.currentScope
  onTree (ScopeTree.declare current name (.function label (some parameters)))
  discard <| onTree (ScopeTree.addFunction current name)

def declareType (e : EngineId) (name : String) (type : TypeSymbol) : CompileM ScopeId := do
  e.requirePass .declare "declare a type"
  e.requireGlobal "declare a type"
  let current ← e.currentScope
  let members ← onTree (ScopeTree.addGlobal current name (some type))
  onTree (ScopeTree.declare current name (.type type))
  modifyType type.base fun info => { info with members := some members }
  return members

def declareTemplate (e : EngineId) (name : String) (template : TemplateId) :
    CompileM Unit := do
  e.requirePass .declare "declare a template"
  e.requireGlobal "declare a template"
  e.declare name (.template template)

/-! ## Placeholders -/

/-- Refuses placeholders where none may be declared. -/
def checkPlaceholderSite (e : EngineId) : CompileM Unit := do
  if ← e.isLocal then fail .placeholderInLocal
  e.requirePass .declare "declare a placeholder"

def bindPlaceholder (owner : ScopeId) (name : String)
    (parameters : Option (List (TypeRefId × String))) (resolution : Resolution) :
    CompileM PlaceholderId := do
  onTree (ScopeTree.declare owner name (.placeholder ⟨(← get).placeholders.size⟩))
  newPlaceholder
    { name := some name, owner := some owner, parameters, state := .pending resolution }

def register (id : PlaceholderId) : CompileM Unit := do
  onEpoch (·.addNode id)
  happened (.registered id)

def declarePlaceholder (e : EngineId) (name : String) (resolution : Resolution) :
    CompileM PlaceholderId := do
  e.checkPlaceholderSite
  let id ← bindPlaceholder (← e.currentScope) name none resolution
  register id
  return id

/-- A function whose parameter types are not known yet. -/
def declareFunctionPlaceholder (e : EngineId) (name : String)
    (parameters : List (TypeRefId × String)) (resolution : Resolution) :
    CompileM PlaceholderId := do
  e.checkPlaceholderSite
  let current ← e.currentScope
  let id ← bindPlaceholder current name (some parameters) resolution
  discard <| onTree (ScopeTree.addFunction current name)
  register id
  return id

/-- Takes a placeholder without a name into the epoch. -/
def addPlaceholder (e : EngineId) (id : PlaceholderId) : CompileM Unit := do
  e.requirePass .declare "declare a placeholder"
  register id

/-- Makes `dependent` settle after `dependency`. -/
def addDependency (e : EngineId) (dependency dependent : PlaceholderId) : CompileM Unit := do
  e.requirePass .resolve "declare a symbol dependency"
  onEpoch (·.addEdge dependency dependent)
  happened (.linked dependency dependent)

end EngineId

end StagedAsm
