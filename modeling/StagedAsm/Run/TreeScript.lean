import StagedAsm.Session.Building
import StagedAsm.Session.Inspection

/-!
# Scripts on a scope tree

Commands that work on the scope tree alone, without an engine.
-/

namespace StagedAsm

/-- A command on the scope tree, for one of its scopes. -/
inductive TreeCommand where
  | addGlobal (name : String) (type : Option TypeSymbolExpr)
  | getOrAddGlobal (name : String)
  | addDetached (type : Option TypeSymbolExpr)
  | addFunction (name : String)
  | nextBlock
  | rewindBlocks
  | functionScope (name : String)
  | subScopeAt (names : List String)
  | parent
  | declare (name : String) (symbol : SymbolExpr)
  | declarePlaceholder (name : String) (resolution : ResolutionExpr)
  | replacePlaceholder (name : String) (symbol : SymbolExpr)
  | declareVariable (name : String) (type : ValueTypeExpr)
  | declareExisting (name : String) (type : ValueTypeExpr) (offset : Int)
  | allocate (bytes : UInt32)
  | setFrameSize (bytes : UInt32)
  | contains (name : String)
  | member (name : String)
  | inspect

namespace TreeCommand

def quietly (m : TreeM Unit) : CompileM Observation := do
  onTree m
  return .nothing

def run (id : ScopeId) : TreeCommand → CompileM Observation
  | addGlobal name type => do
    let type ← evalOptional (evalTypeSymbol findNothing) type
    return .scope (← onTree (ScopeTree.addGlobal id name type))
  | getOrAddGlobal name => return .scope (← onTree (ScopeTree.getOrAddGlobal id name))
  | addDetached type => do
    let type ← evalOptional (evalTypeSymbol findNothing) type
    return .scope (← onTree (ScopeTree.addDetached type))
  | addFunction name => return .scope (← onTree (ScopeTree.addFunction id name))
  | nextBlock => return .scope (← onTree (ScopeTree.nextBlock id))
  | rewindBlocks => quietly (ScopeTree.rewindBlocks id)
  | functionScope name => return .optionalScope ((← get).tree.functionScope? id name)
  | subScopeAt names => return .optionalScope ((← get).tree.subScopeAt? id names)
  | parent => return .optionalScope ((← get).tree.parent? id)
  | declare name symbol => do
    let symbol ← evalSymbol findNothing symbol
    quietly (ScopeTree.declare id name symbol)
  | declarePlaceholder name resolution => do
    let placeholder ← newPlaceholder
      { name := some name, owner := some id, state := .pending (.scripted resolution) }
    quietly (ScopeTree.declare id name (.placeholder placeholder))
  | replacePlaceholder name symbol => do
    let symbol ← evalSymbol findNothing symbol
    quietly (ScopeTree.replacePlaceholder id name symbol)
  | declareVariable name type => do
    let type ← evalValueType findNothing type
    quietly (ScopeTree.declareVariable id name type)
  | declareExisting name type offset => do
    let type ← evalValueType findNothing type
    quietly (ScopeTree.declareExisting id name type offset)
  | allocate bytes => quietly (ScopeTree.allocate id bytes)
  | setFrameSize bytes => do
    let frame ← onTree (ScopeTree.frameOf id)
    quietly (ScopeTree.updateFrame frame ((FrameM.setSize bytes).adaptExcept .error))
  | contains name => return .flag ((← get).tree.member? id name).isSome
  | member name => return .optionalSymbol (← evalOptional viewSymbol ((← get).tree.member? id name))
  | inspect => return .scopeView ((← get).viewScope id)

end TreeCommand

/-- Each answer comes with the number of scopes after it. -/
def runTreeScript :
    List (ScopeId × TreeCommand) → CompileM (List (Except CompileError Observation × Nat))
  | [] => pure []
  | (id, command) :: rest => do
    let outcome ← attempt (command.run id)
    let count := (← get).tree.size
    return (outcome, count) :: (← runTreeScript rest)

end StagedAsm
