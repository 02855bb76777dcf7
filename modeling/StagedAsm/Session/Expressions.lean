import StagedAsm.Session.Text

/-!
# Evaluating expressions

Looking a path up is left to the caller: inside an engine it searches the open scopes, and where a
program is only being built it is refused.
-/

namespace StagedAsm

abbrev Finder := Path → CompileM Symbol

/-- Refuses to look anything up. -/
def findNothing : Finder := fun _ => throw (.meaningless "path outside an engine")

/-! ## Handles -/

def fetch {α : Type} (select : Bindings → Dictionary α) (handle : String) : CompileM α := do
  match (select (← get).stored).get? handle with
  | some value => pure value
  | none => throw (.meaningless ("handle " ++ handle))

def fetchPlaceholder (handle : String) : CompileM PlaceholderId := do
  match ← fetch Bindings.symbols handle with
  | .placeholder id => pure id
  | _ => throw (.meaningless ("placeholder " ++ handle))

def storeSymbol (handle : Option String) (symbol : Symbol) : CompileM Unit :=
  match handle with
  | none => pure ()
  | some handle => modify fun s =>
      { s with stored := { s.stored with symbols := s.stored.symbols.set handle symbol } }

def storeLine (handle : Option String) (line : Line) : CompileM Unit :=
  match handle with
  | none => pure ()
  | some handle => modify fun s =>
      { s with stored := { s.stored with lines := s.stored.lines.set handle line } }

def storeTypeRef (handle : Option String) (id : TypeRefId) : CompileM Unit :=
  match handle with
  | none => pure ()
  | some handle => modify fun s =>
      { s with stored := { s.stored with typeRefs := s.stored.typeRefs.set handle id } }

def storeTemplate (handle : String) (id : TemplateId) : CompileM Unit :=
  modify fun s =>
    { s with stored := { s.stored with templates := s.stored.templates.set handle id } }

def storeInstance (handle : Option String) (id : InstanceId) : CompileM Unit :=
  match handle with
  | none => pure ()
  | some handle => modify fun s =>
      { s with stored := { s.stored with instances := s.stored.instances.set handle id } }

def storeSnapshot (handle : Option String) (snapshot : Snapshot) : CompileM Unit :=
  match handle with
  | none => pure ()
  | some handle => modify fun s =>
      { s with stored := { s.stored with snapshots := s.stored.snapshots.set handle snapshot } }

/-! ## Types -/

def primitiveType (size : Size) : CompileM TypeSymbol := do
  return .primitive (← newType { instanceSize := some size.bytes }) size

def sizedStruct (name : String) (size : UInt32) : CompileM TypeSymbol := do
  return .struct (← newType { instanceSize := some size }) name none

/-- A new structure whose size is found by a placeholder. -/
def laidOutStruct (name : String) (knownSize : UInt32) (resolution : TypeId → Resolution) :
    CompileM TypeSymbol := do
  let id ← newType { running := knownSize }
  let layout ← newPlaceholder { state := .pending (resolution id) }
  return .struct id name (some layout)

def asType : Symbol → CompileM TypeSymbol
  | .type t => pure t
  | _ => throw (.meaningless "symbol that is no type")

/-! ## Symbols -/

mutual

def evalSymbol (find : Finder) : SymbolExpr → CompileM Symbol
  | .text s => pure (.ofText s)
  | .typed s type => return .constant s (some (← evalValueType find type))
  | .register name => return .register (← ofExcept (Register.parse name))
  | .registerAlias name => do
    let register ← ofExcept (Register.parse name)
    return .registerAlias (← newAlias register)
  | .imported label => pure (.function label none)
  | .function label parameters =>
    return .function label (some (← evalParameters find parameters))
  | .type t => return .type (← evalTypeSymbol find t)
  | .deferred text => newDeferred text
  | .stored handle => fetch Bindings.symbols handle
  | .found path => do find (← evalPath find path)
  | .template handle => return .template (← fetch Bindings.templates handle)

def evalTypeSymbol (find : Finder) : TypeSymbolExpr → CompileM TypeSymbol
  | .primitive size => primitiveType size
  | .sizedStruct name size => StagedAsm.sizedStruct name size
  | .laidOutStruct name size => StagedAsm.laidOutStruct name 0 (.givenLayout · size)
  | .referenceTo t levels => return (← evalTypeSymbol find t).referenced levels
  | .targetOf t => do
    match (← evalTypeSymbol find t).target? with
    | some target => pure target
    | none => throw (.meaningless "target of a type that is no reference")
  | .stored handle => do asType (← fetch Bindings.symbols handle)
  | .found path => do asType (← find (← evalPath find path))

def evalValueType (find : Finder) : ValueTypeExpr → CompileM ValueType
  | .sized size => pure (.sized size)
  | .block bytes => pure (.block bytes)
  | .ofType t => do
    let t ← evalTypeSymbol find t
    ofExcept ((← get).valueTypeOf t)

def evalParameters (find : Finder) : List ParameterExpr → CompileM (List Parameter)
  | [] => pure []
  | .mk name type :: rest => do
    let type ← evalValueType find type
    return { name, type } :: (← evalParameters find rest)

def evalPath (find : Finder) : List SegmentExpr → CompileM Path
  | [] => pure []
  | .mk name arguments :: rest => do
    let arguments ← evalSymbols find arguments
    return { name, arguments } :: (← evalPath find rest)

def evalSymbols (find : Finder) : List SymbolExpr → CompileM (List Symbol)
  | [] => pure []
  | symbol :: rest => do
    let symbol ← evalSymbol find symbol
    return symbol :: (← evalSymbols find rest)

end

def evalLine (find : Finder) : LineExpr → CompileM Line
  | .symbols symbols => evalSymbols find symbols
  | .stored handle => fetch Bindings.lines handle

def evalArgument (find : Finder) : ArgumentExpr → CompileM Argument
  | .register name => pure (.register name)
  | .immediate text => pure (.immediate text)
  | .memory path size => return .memory (← evalPath find path) size
  | .address path => return .address (← evalPath find path)

def evalTypeRef (find : Finder) : TypeRefExpr → CompileM TypeRefId
  | .sized size => newTypeRef (.ofForm (.sized size))
  | .block bytes => newTypeRef (.ofForm (.block bytes))
  | .named path => do newTypeRef (.ofForm (.named (← evalPath find path)))
  | .value path => do newTypeRef (.ofForm (.value (← evalPath find path)))
  | .reference path => do newTypeRef (.ofForm (.reference (← evalPath find path)))
  | .stored handle => fetch Bindings.typeRefs handle

end StagedAsm
