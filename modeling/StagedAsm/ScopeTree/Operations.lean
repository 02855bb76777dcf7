import StagedAsm.ScopeTree.Basic

/-!
# Operations on the scope tree

An operation that fails leaves the tree as it stood, with one exception: a variable whose frame has
its final size already stays declared.
-/

namespace StagedAsm

abbrev TreeM := EStateM Fault ScopeTree

namespace ScopeTree

def fail {α : Type} (e : CompileError) : TreeM α := throw (.error e)

def add (scope : Scope) : TreeM ScopeId := modifyGet fun t => t.push scope

/-! ## Global scopes -/

def addGlobal (parent : ScopeId) (name : String) (type : Option TypeSymbol) :
    TreeM ScopeId := do
  let t ← get
  if (t.subScope? parent name).isSome then fail (.duplicateSymbol name (t.absoluteName parent))
  add { origin := .member parent name, name := some name, associatedType := type }

def getOrAddGlobal (parent : ScopeId) (name : String) : TreeM ScopeId := do
  match (← get).subScope? parent name with
  | some existing => pure existing
  | none => addGlobal parent name none

def addDetached (type : Option TypeSymbol) : TreeM ScopeId :=
  add { origin := .detached, isAnonymous := true, associatedType := type }

/-! ## Functions -/

def addFunction (parent : ScopeId) (name : String) : TreeM ScopeId := do
  let t ← get
  if t.isLocal parent then fail (.nestedLocal name)
  if (t.functionScope? parent name).isSome then
    fail (.duplicateSymbol name (t.absoluteName parent))
  let frame : FrameId := ⟨t.frames.size⟩
  set { t with frames := t.frames.push {} }
  add { origin := .function parent name, kind := .function, name := some name,
        frame := some frame }

/-! ## Blocks -/

/-- At the end of the list a new block is made, unless the scope was rewound before. -/
def nextBlock (id : ScopeId) : TreeM ScopeId := do
  let t ← get
  let scope := t.scope id
  match scope.blocks[scope.cursor]? with
  | some block =>
    set (t.modifyScope id fun s => { s with cursor := s.cursor + 1 })
    pure block
  | none =>
    if !scope.canGrow then fail (.blocksFixed (t.absoluteName id))
    let block ← add
      { origin := .block id scope.blocks.length, kind := scope.kind, isAnonymous := true,
        frame := scope.frame }
    modify fun t => t.modifyScope id fun s =>
      { s with blocks := s.blocks ++ [block], cursor := s.cursor + 1 }
    pure block

/-- Only possible when all blocks were entered; from then on none is added. -/
def rewindBlocks (id : ScopeId) : TreeM Unit := do
  let t ← get
  let scope := t.scope id
  if scope.cursor != scope.blocks.length then
    fail (.resetMidway (t.absoluteName id) scope.cursor scope.blocks.length)
  set (t.modifyScope id fun s => { s with cursor := 0, canGrow := false })

/-! ## Members -/

def declare (id : ScopeId) (name : String) (symbol : Symbol) : TreeM Unit := do
  let t ← get
  if t.size ≤ id.index then throw (.meaningless ("scope " ++ id.text))
  if (t.scope id).members.contains name then fail (.duplicateSymbol name (t.absoluteName id))
  set (t.modifyScope id fun s => { s with members := s.members.set name symbol })

def replacePlaceholder (id : ScopeId) (name : String) (symbol : Symbol) : TreeM Unit := do
  let t ← get
  match t.member? id name with
  | none => fail (.nothingToReplace name (t.absoluteName id))
  | some (.placeholder _) =>
    set (t.modifyScope id fun s => { s with members := s.members.set name symbol })
  | some other => fail (.replacedSettled other.kindName name (t.absoluteName id))

/-! ## Variables -/

def frameOf (id : ScopeId) : TreeM FrameId := do
  let t ← get
  match (t.scope id).frame with
  | some frame => pure frame
  | none => fail (.noFrame (t.absoluteName id))

/-- What an operation leaves of the frame is kept if it fails. -/
def updateFrame (id : FrameId) (m : FrameM Fault Unit) : TreeM Unit := do
  let t ← get
  match m (t.frame id) with
  | .ok _ frame => set (t.setFrame id frame)
  | .error fault frame =>
    set (t.setFrame id frame)
    throw fault

def countVariableBytes (id : ScopeId) (bytes : UInt32) : TreeM Unit := do
  let t ← get
  match addBytes (t.scope id).variableBytes bytes with
  | .ok total => set (t.modifyScope id fun s => { s with variableBytes := total })
  | .error fault => throw fault

/-- The name is bound before the pointer moves. -/
def declareVariable (id : ScopeId) (name : String) (type : ValueType) : TreeM Unit := do
  let frame ← frameOf id
  match subOffset ((← get).frame frame).pointer (offsetOfBytes type.bytes) with
  | .error fault => throw fault
  | .ok offset =>
    declare id name (.slot frame offset type)
    updateFrame frame ((FrameM.setPointer offset).adaptExcept .error)
    countVariableBytes id type.bytes

/-- Names a value on the frame, `offset` bytes from the pointer. -/
def declareExisting (id : ScopeId) (name : String) (type : ValueType) (offset : Int) :
    TreeM Unit := do
  let frame ← frameOf id
  match addOffset ((← get).frame frame).pointer offset with
  | .error fault => throw fault
  | .ok offset => declare id name (.slot frame offset type)

def allocate (id : ScopeId) (bytes : UInt32) : TreeM Unit := do
  if bytes == 0 then fail .emptyAllocation
  let frame ← frameOf id
  updateFrame frame (FrameM.move (-(offsetOfBytes bytes)))
  countVariableBytes id bytes

end ScopeTree

end StagedAsm
