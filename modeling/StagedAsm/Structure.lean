import StagedAsm.Run.Lookup
import StagedAsm.Session.TypeRefs

/-!
# Structures

The name of a structure denotes a pointer to it. The offsets of its fields are constants in its
scope. Leading fields of known size get their offsets at once. The others are placeholders, each of
which waits for its type and for the field before it, and the layout waits for the last one.
-/

namespace StagedAsm.Structure

/-- Declares the leading fields, whose offsets are known. -/
def declareKnown (e : EngineId) : List (Field × UInt32) → CompileM Unit
  | [] => pure ()
  | (field, offset) :: rest => do
    e.declareConstant field.name (toString offset) (some (← field.type.known))
    declareKnown e rest

def declarePending (e : EngineId) (owner : TypeId) : List Field → CompileM Unit
  | [] => pure ()
  | field :: rest => do
    discard <| e.declarePlaceholder field.name (.field owner field.type)
    declarePending e owner rest

def declare (e : EngineId) (name : String) (fields : List Field) (offsets : List UInt32)
    (knownSize : UInt32) : CompileM Unit := do
  let target ← laidOutStruct name knownSize .layout
  discard <| e.declareType name (.reference target)
  if let some layout := target.layout? then e.addPlaceholder layout
  e.enterGlobal (Path.ofName name)
  declareKnown e (fields.zip offsets)
  declarePending e target.base (fields.drop offsets.length)

/-- Makes each field wait for its type and for the field before it, and answers the last field. -/
def chain (r : Runner) (name : String) :
    Option PlaceholderId → List Field → CompileM (Option PlaceholderId)
  | previous, [] => pure previous
  | previous, field :: rest => do
    match ← r.find (Path.ofName field.name) with
    | .placeholder id =>
      field.type.await r.find fun awaited => r.engine.addDependency awaited id
      if let some previous := previous then r.engine.addDependency previous id
      chain r name (some id) rest
    | _ => fail (.fieldSettled field.name name)

/-- Makes the fields wait for each other, and the layout for the last of them. -/
def link (r : Runner) (name : String) (fields : List Field) : CompileM Unit := do
  let type ← r.engine.associatedType
  match (type.bind TypeSymbol.target?).bind TypeSymbol.layout? with
  | none => fail (.layoutLost name)
  | some layout =>
    if let some last := ← chain r name none fields then
      r.engine.addDependency last layout

def enter (r : Runner) (pass : Pass) (name : String) (fields : List Field)
    (offsets : List UInt32) (knownSize : UInt32) : CompileM Unit := do
  match pass with
  | .declare => declare r.engine name fields offsets knownSize
  | .resolve =>
    r.engine.enterGlobal (Path.ofName name)
    link r name (fields.drop offsets.length)
  | .generate => r.engine.enterGlobal (Path.ofName name)

end StagedAsm.Structure
