import StagedAsm.Session.Text

/-!
# Taking views

How the views of symbols, lines, operands, types and instances are taken from a session.
-/

namespace StagedAsm

/-- Keeps an error as a value; everything else stops the run. -/
def keepError {α : Type} (x : Except Fault α) : CompileM (Except CompileError α) :=
  match x with
  | .ok a => pure (.ok a)
  | .error (.error e) => pure (.error e)
  | .error fault => throw fault

def Session.viewType (s : Session) (t : TypeSymbol) : TypeView :=
  { type := t
    instanceSize := s.instanceSize t
    valueSize := s.valueSize t
    members := (s.typeInfo t).members
    layoutSettled := t.layout?.map fun id => (s.placeholder id).isSettled }

def Session.symbolDetail (s : Session) : Symbol → SymbolDetail
  | .slot frame _ _ => .slot (s.tree.frame frame).pointer
  | .register r => .register false r
  | .registerAlias id => .register true (s.aliasRegister id)
  | .type t => .type (s.viewType t)
  | .placeholder id =>
    let p := s.placeholder id
    .placeholder p.name p.owner p.isSettled
      (p.parameters.map fun ps => ps.map fun entry => (s.typeRefText entry.1, entry.2))
  | .template id =>
    let t := s.template id
    .template t.name t.parameters t.memo.size
  | _ => .plain

def viewSymbol (symbol : Symbol) : CompileM SymbolView := do
  let s ← get
  return { symbol, text := s.symbolText symbol, rendered := ← keepError (s.render symbol),
           size := s.symbolSize symbol, type := s.symbolType symbol,
           detail := s.symbolDetail symbol }

def viewLine (line : Line) : CompileM LineView := do
  let s ← get
  return { rendered := ← keepError (s.renderLine line), text := ← ofFault (s.lineText line),
           addressesFrame := line.addressesFrame, symbolCount := line.length }

def viewOperand (operand : Operand) : CompileM OperandView := do
  let text ← viewLine operand.text
  let form ← match operand.form? with
    | .error e => pure (some (.error e))
    | .ok none => pure none
    | .ok (some line) => pure (some (← keepError ((← get).renderLine line)))
  return { operand, text, form }

def viewOperands : List Operand → CompileM (List OperandView)
  | [] => pure []
  | operand :: rest => do
    let view ← viewOperand operand
    return view :: (← viewOperands rest)

def Session.instanceText (s : Session) (id : InstanceId) : String :=
  let i := s.instanceAt id
  s.applicationText i.template i.arguments

def Session.viewInstance (s : Session) (id : InstanceId) : InstanceView :=
  let i := s.instanceAt id
  let placeholders := (i.arguments.filterMap Symbol.placeholder?).map s.placeholder
  { text := s.instanceText id
    template := i.template
    arguments := i.arguments.map s.symbolText
    scope := i.scope
    mangled := if placeholders.all fun p => p.name.isSome then some i.mangled else none
    isReady := placeholders.all Placeholder.isSettled
    completed := Pass.all.map fun pass => !i.isBusy && (s.engine i.engine).hasCompleted pass }

def Session.viewScope (s : Session) (id : ScopeId) : ScopeView :=
  let scope := s.tree.scope id
  { name := scope.name
    absoluteName := s.tree.absoluteName id
    kind := scope.kind
    isAnonymous := scope.isAnonymous
    variableBytes := scope.variableBytes
    pointer := scope.frame.map fun frame => (s.tree.frame frame).pointer
    associatedType := scope.associatedType.map s.viewType }

def Session.viewTypeRef (s : Session) (id : TypeRefId) : TypeRefView :=
  let r := s.typeRef id
  { text := s.typeRefText id
    form := r.form
    known := match r.known with
      | some type => .ok type
      | none => .error (.typeUnresolved (s.typeRefText id)) }

end StagedAsm
