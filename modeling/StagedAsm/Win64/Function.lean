import StagedAsm.Session.TypeRefs
import StagedAsm.Win64.Call

/-!
# Functions

A function allocates its frame once, when it is entered, and every return releases it. The frame is
as large as it ever was, and padded to the alignment of the stack if the function calls others.
-/

namespace StagedAsm.Win64

/-- Makes a function's placeholder wait for the types of its parameters. -/
def awaitParameters (r : Runner) (id : PlaceholderId) :
    List (TypeRefId × String) → CompileM Unit
  | [] => pure ()
  | (type, _) :: rest => do
    type.await r.find fun awaited => r.engine.addDependency awaited id
    awaitParameters r id rest

/-- The parameters that come in registers are put into the places the caller left for them. -/
def placeParameters (e : EngineId) : List (Parameter × Nat) → CompileM Unit
  | [] => pure ()
  | (parameter, number) :: rest => do
    let offset := Frame.returnAddress + 8 * number
    e.declareExisting parameter.name parameter.type offset
    match parameterRegisters[number]? with
    | some register => e.emitText s!"mov [rsp + {offset}], {register.name}" programSection
    | none => pure ()
    placeParameters e rest

def prologue (r : Runner) (pass : Pass) (name : String)
    (parameters : List (TypeRefId × String)) : CompileM Unit := do
  let e := r.engine
  match pass with
  | .declare =>
    let label ← e.label name
    if parameters.isEmpty then e.declareFunction name label []
    else discard <| e.declareFunctionPlaceholder name parameters (.signature label)
    e.enterLocal name
  | .resolve =>
    match ← r.find (Path.ofName name) with
    | .placeholder id =>
      awaitParameters r id (((← get).placeholder id).parameters.getD [])
    | _ => pure ()
    e.enterLocal name
  | .generate =>
    let symbol ← r.find (Path.ofName name)
    let parameters ← match symbol with
      | .function _ parameters => pure (parameters.getD [])
      | other => fail (.functionUnsettled name other.kindName)
    e.emit [symbol, .ofText ":"] programSection
    e.enterLocal name
    e.movePointer (-Frame.returnAddress)
    placeParameters e parameters.zipIdx
    let frame ← e.currentFrame
    e.emitDeferred (← frameAdjustment frame "sub" true) programSection

/-- What is missing to the next multiple of an alignment. -/
def padding (size alignment : UInt32) : UInt32 :=
  if alignment == 0 || size % alignment == 0 then 0 else alignment - size % alignment

def epilogue (e : EngineId) (pass : Pass) : CompileM Unit := do
  if pass = .generate then
    let size ← e.maxStackSize
    let isLeaf ← e.isLeaf
    let missing := padding size (← get).settings.stackAlignment
    let size ←
      if isLeaf || missing == 0 then pure size
      else do
        e.allocate missing
        ofFault (addBytes size missing)
    e.movePointer Frame.returnAddress
    e.setStackSize size
  e.exitLocal

end StagedAsm.Win64
