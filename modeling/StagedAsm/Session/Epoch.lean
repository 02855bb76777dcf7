import StagedAsm.Session.TypeRefs

/-!
# Settling placeholders

A placeholder is asked once. When an epoch closes, all placeholders in it are asked, each after
those it waits for, and the scopes that bind them get what they stand for.
-/

namespace StagedAsm

/-- Empty if the symbol drops the line. -/
def renderedText (symbol : Symbol) : CompileM String := do
  return (← ofFault ((← get).render symbol)).getD ""

def joinStored : List String → CompileM String
  | [] => pure ""
  | handle :: rest => do
    let symbol ← fetch Bindings.symbols handle
    let symbol ← match symbol with
      | .placeholder id => id.result
      | other => pure other
    let text ← renderedText symbol
    return text ++ ";" ++ (← joinStored rest)

def settleParameters : List (TypeRefId × String) → CompileM (List Parameter)
  | [] => pure []
  | (reference, name) :: rest => do
    reference.settle
    let type ← reference.known
    return { name, type } :: (← settleParameters rest)

def runScripted (p : Placeholder) : ResolutionExpr → CompileM Symbol
  | .constant text => pure (.ofText text)
  | .failing e => fail e
  | .joined handles => return .ofText (← joinStored handles)
  | .signature label =>
    return .function label (some (← settleParameters (p.parameters.getD [])))
  | .symbol symbol => evalSymbol findNothing symbol

def publishSize (owner : TypeId) (size : UInt32) : CompileM Symbol := do
  modifyType owner fun info => { info with instanceSize := some size }
  return .ofText (toString size)

def runResolution (p : Placeholder) : Resolution → CompileM Symbol
  | .scripted r => do
    record (.resolving p.name)
    runScripted p r
  | .signature label => do
    match p.parameters with
    | some parameters => return .function label (some (← settleParameters parameters))
    | none => fail (.placeholderWithoutParameters p.text)
  | .field owner reference => do
    reference.settle
    let type ← reference.known
    let offset := ((← get).types.getD owner.index default).running
    let next ← ofFault (addBytes offset type.bytes)
    modifyType owner fun info => { info with running := next }
    return .constant (toString offset) (some type)
  | .layout owner => do
    publishSize owner ((← get).types.getD owner.index default).running
  | .givenLayout owner size => do publishSize owner (← ofExcept size)

/-- A placeholder can be asked once. -/
def PlaceholderId.resolve (id : PlaceholderId) : CompileM Symbol := do
  let p := (← get).placeholder id
  match p.state with
  | .pending resolution =>
    modifyPlaceholder id fun p => { p with state := .spent }
    happened (.asked id)
    let symbol ← runResolution p resolution
    modifyPlaceholder id fun p => { p with state := .settled symbol }
    happened (.answered id symbol)
    pure symbol
  | _ => fail (.resolvedTwice p.text)

/-- The scope that binds a placeholder gets what it stands for. -/
def settlePlaceholder (id : PlaceholderId) : CompileM Unit := do
  let symbol ← id.resolve
  let p := (← get).placeholder id
  match p.owner, p.name with
  | some owner, some name =>
    onTree (ScopeTree.replacePlaceholder owner name symbol)
    happened (.rebound owner name symbol)
  | _, _ => pure ()

def settleDrained : List (Drained PlaceholderId) → CompileM Unit
  | [] => pure ()
  | .node id :: rest => do
    settlePlaceholder id
    settleDrained rest
  | .cycle ids :: _ => do
    let s ← get
    fail (.cyclicDependency (ids.map fun id => (s.placeholder id).text))

def closeEpoch : CompileM Unit := do
  match (← get).epoch with
  | none => fail .epochLost
  | some graph =>
    modify fun s => { s with epoch := none }
    happened .closing
    let (drain, _) ← ofExcept graph.sort
    settleDrained drain.toList

end StagedAsm
