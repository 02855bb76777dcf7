import StagedAsm.Session.Text

/-!
# Files and scopes of an engine

Entering and leaving files, global scopes, functions and blocks. An engine keeps a stack of open
scopes and one of open files; the scopes themselves belong to the tree that all engines share.
-/

namespace StagedAsm

def nextUid : CompileM Nat :=
  modifyGet fun s => (s.nextUid, { s with nextUid := s.nextUid + 1 })

namespace EngineId

def state (e : EngineId) : CompileM Engine := return (← get).engine e

def currentPass (e : EngineId) : CompileM Pass := return (← e.state).currentPass

def currentScope (e : EngineId) : CompileM ScopeId := return (← e.state).currentScope

def scope (e : EngineId) : CompileM Scope := do
  let s ← get
  return s.tree.scope (s.engine e).currentScope

def isLocal (e : EngineId) : CompileM Bool := return (← e.scope).isLocal

def requirePass (e : EngineId) (pass : Pass) (operation : String) : CompileM Unit := do
  let current ← e.currentPass
  if current ≠ pass then fail (.passOrdering operation current)

def forbidPass (e : EngineId) (pass : Pass) (operation : String) : CompileM Unit := do
  let current ← e.currentPass
  if current = pass then fail (.passOrdering operation current)

def requireGlobal (e : EngineId) (operation : String) : CompileM Unit := do
  if ← e.isLocal then fail (.inLocalScope operation)

def requireLocal (e : EngineId) (operation : String) : CompileM Unit := do
  if !(← e.isLocal) then fail (.inGlobalScope operation)

/-- It is taken down that an engine gets from its innermost scope to another one. -/
def going (e : EngineId) (move : ScopeMove) (scope : ScopeId) (s : Session) : Session :=
  { s with
    tree := s.tree.visited
      { engine := e, pass := (s.engine e).currentPass, move, before := (s.engine e).currentScope,
        after := scope } }

/-- The session in which an engine has opened a scope. -/
def opening (e : EngineId) (move : ScopeMove) (id : ScopeId) (s : Session) : Session :=
  { e.going move id s with
    engines := s.engines.modify e.index fun engine =>
      { engine with scopes := id :: engine.scopes } }

/-- The session in which an engine has closed its innermost scope. -/
def closing (e : EngineId) (move : ScopeMove) (s : Session) : Session :=
  { e.going move ((s.engine e).scopes.tail.head?.getD ScopeTree.root) s with
    engines := s.engines.modify e.index fun engine =>
      { engine with scopes := engine.scopes.tail } }

def pushScope (e : EngineId) (move : ScopeMove) (id : ScopeId) : CompileM Unit :=
  modify (e.opening move id)

def popScope (e : EngineId) (move : ScopeMove) : CompileM Unit := modify (e.closing move)

/-- The blocks of the innermost scope are rewound for the next pass. -/
def endPass (e : EngineId) : CompileM Unit := do
  let scope ← e.currentScope
  onTree (ScopeTree.rewindBlocks scope)
  modify (e.going .endPass scope)

/-! ## Files -/

/-- Records the position that errors are attributed to. -/
def setPosition (e : EngineId) (line column : UInt32) : CompileM Unit :=
  modifyEngine e fun engine => { engine with position := { line, column } }

/-- The first pass meets each file once; the others enter known files. -/
def enterFile (e : EngineId) (file : String) : CompileM Unit := do
  let known := (← get).imports.contains file
  if (← e.currentPass) = .declare then
    if known then fail (.fileEnteredTwice file)
    modify fun s => { s with imports := s.imports.set file [] }
  else if !known then fail (.fileUnknown file)
  modifyEngine e fun engine => { engine with files := file :: engine.files }

def exitFile (e : EngineId) : CompileM Unit := do
  match (← e.state).files with
  | [] => fail .notInFile
  | _ :: rest => modifyEngine e fun engine => { engine with files := rest }

def importScope (e : EngineId) (path : Path) : CompileM Unit := do
  e.forbidPass .declare "import a scope"
  match (← e.state).files with
  | [] => fail .importOutsideFile
  | file :: _ =>
    let s ← get
    match s.tree.subScopeAt? ScopeTree.root (path.map Segment.name) with
    | none => fail (.undefinedSymbol (s.pathText path))
    | some scope =>
      let imported := (s.imports.get? file).getD []
      if !imported.contains scope then
        modify fun s => { s with imports := s.imports.set file (imported ++ [scope]) }

/-! ## Global scopes -/

/-- Walks down a path from a scope, making the scopes that are missing. -/
def descend : ScopeId → Path → CompileM ScopeId
  | scope, [] => pure scope
  | scope, segment :: rest => do
    if segment.isTemplated then fail (.templatedScope ((← get).segmentText segment))
    descend (← onTree (ScopeTree.getOrAddGlobal scope segment.name)) rest

def enterGlobal (e : EngineId) (path : Path) : CompileM Unit := do
  if ← e.isLocal then fail .globalInsideLocal
  e.pushScope (.enterGlobal (path.map Segment.name)) (← descend (← e.currentScope) path)

/-- The outermost scope is never left. -/
def exitGlobal (e : EngineId) : CompileM Unit := do
  if (← e.isLocal) || (← e.state).scopes.length ≤ 1 then fail .notInGlobal
  onTree (ScopeTree.rewindBlocks (← e.currentScope))
  e.popScope .exitGlobal

def pathNames (t : ScopeTree) : List ScopeId → List String
  | [] => []
  | scope :: rest =>
    t.lineageNames scope ++
      if (t.lineage scope).getLast? = some ScopeTree.root then [] else pathNames t rest

/-- Names of the scopes around the current one, outermost first. -/
def currentPath (e : EngineId) : CompileM (List String) := do
  let s ← get
  return (pathNames s.tree (s.engine e).scopes).reverse

def associatedType (e : EngineId) : CompileM (Option TypeSymbol) := do
  if ← e.isLocal then fail .associatedTypeOfLocal
  return (← e.scope).associatedType

/-! ## Functions -/

/-- The first pass makes the scope if it is missing. -/
def enterLocal (e : EngineId) (name : String) : CompileM Unit := do
  if ← e.isLocal then
    fail (.alreadyInLocal name (String.intercalate "." (← e.currentPath)))
  let parent ← e.currentScope
  match (← get).tree.functionScope? parent name with
  | some scope => e.pushScope (.enterLocal name) scope
  | none =>
    let pass ← e.currentPass
    if pass ≠ .declare then fail (.unknownLocal name pass)
    e.pushScope (.enterLocal name) (← onTree (ScopeTree.addFunction parent name))

/-- The pointer has to be where the function's variables end. -/
def exitLocal (e : EngineId) : CompileM Unit := do
  let scope ← e.scope
  if !scope.isLocal || scope.isAnonymous then fail .notInLocal
  if let some frame := scope.frame then
    let pointer := ((← get).tree.frame frame).pointer
    let expected := -(offsetOfBytes scope.variableBytes)
    if pointer ≠ expected then fail (.pointerAwayFromVariables pointer expected)
  onTree (ScopeTree.rewindBlocks (← e.currentScope))
  e.popScope .exitLocal

/-! ## Blocks -/

def enterBlock (e : EngineId) : CompileM Unit := do
  e.pushScope .enterBlock (← onTree (ScopeTree.nextBlock (← e.currentScope)))

/-- Leaves a block and releases its variables. -/
def exitBlock (e : EngineId) : CompileM Unit := do
  let scope ← e.scope
  if !scope.isAnonymous || (← e.state).scopes.length ≤ 1 then fail .notInBlock
  if let some frame := scope.frame then
    if scope.variableBytes > 0 then
      onTree (ScopeTree.updateFrame frame (FrameM.move (offsetOfBytes scope.variableBytes)))
  onTree (ScopeTree.rewindBlocks (← e.currentScope))
  e.popScope .exitBlock

/-! ## Notes and labels -/

def note? (e : EngineId) (key : String) : CompileM (Option String) :=
  return (← e.scope).notes.get? key

def setNote (e : EngineId) (key value : String) : CompileM Unit := do
  let id ← e.currentScope
  modify fun s =>
    { s with tree := s.tree.modifyScope id fun scope =>
        { scope with notes := scope.notes.set key value } }

/-- Its number keeps a label apart from every other. -/
def labelText (uid : Nat) (path : List String) (name : String) : String :=
  s!"L{uid}_" ++ String.intercalate "_" path ++ "_" ++ name

def label (e : EngineId) (name : String) : CompileM String := do
  let uid ← nextUid
  return labelText uid (← e.currentPath) name

def snapshot (e : EngineId) : CompileM Snapshot := do
  if ← e.isLocal then fail .snapshotInLocal
  return (← e.state).snapshot

def place (e : EngineId) : CompileM Place := do
  let engine ← e.state
  let scope ← e.scope
  return { pass := engine.currentPass, scope := engine.currentScope, path := ← e.currentPath,
           file := engine.files.head?, isLocal := scope.isLocal,
           isAnonymous := scope.isAnonymous }

end EngineId

/-- A new engine that starts from a snapshot, inside a scope of its own. -/
def fork (snapshot : Snapshot) : CompileM (EngineId × ScopeId) := do
  let declared := snapshot.scopes.head?.getD ScopeTree.root
  let type := ((← get).tree.scope declared).associatedType
  let scope ← onTree (ScopeTree.addDetached type)
  let e ← newEngine (.ofSnapshot snapshot scope)
  return (e, scope)

end StagedAsm
