import StagedAsm.Builtins
import StagedAsm.Session.Inspection
import StagedAsm.Win64.Call

/-!
# Running commands

What each command does on the engine that runs it, and what it answers. Expressions are evaluated
first, in the order in which the command names them.
-/

namespace StagedAsm

def silently (m : CompileM Unit) : CompileM Observation := do
  m
  return .nothing

namespace Runner

def runScope (r : Runner) : ScopeCommand → CompileM Observation
  | .setPosition line column => silently (r.engine.setPosition line column)
  | .location => return .text (← r.engine.state).location.text
  | .enterFile name => silently (r.engine.enterFile name)
  | .exitFile => silently r.engine.exitFile
  | .currentFile => return .optionalText (← r.engine.state).files.head?
  | .importScope path => do
    let path ← evalPath r.find path
    silently (r.engine.importScope path)
  | .enterGlobal path => do
    let path ← evalPath r.find path
    silently (r.engine.enterGlobal path)
  | .exitGlobal => silently r.engine.exitGlobal
  | .currentPath => return .texts (← r.engine.currentPath)
  | .associatedType => do
    let type ← r.engine.associatedType
    return .optionalType (type.map (← get).viewType)
  | .enterLocal name => silently (r.engine.enterLocal name)
  | .exitLocal => silently r.engine.exitLocal
  | .enterBlock => silently r.engine.enterBlock
  | .exitBlock => silently r.engine.exitBlock
  | .note key => return .optionalText (← r.engine.note? key)
  | .setNote key value => silently (r.engine.setNote key value)
  | .place => return .place (← r.engine.place)
  | .completed => do
    let engine ← r.engine.state
    return .flags (Pass.all.map engine.hasCompleted)
  | .uid => return .number (← nextUid)
  | .label name => return .text (← r.engine.label name)
  | .settings => return .settings (← get).settings
  | .scopeCount => return .number (← get).tree.size
  | .output name => return .optionalText (← r.engine.output? name)

def runDeclaration (r : Runner) : DeclarationCommand → CompileM Observation
  | .declare name symbol store => do
    let symbol ← evalSymbol r.find symbol
    storeSymbol store symbol
    silently (r.engine.declare name symbol)
  | .declareVariable name type => do
    let type ← evalValueType r.find type
    silently (r.engine.declareVariable name type)
  | .declareVariableOf name type => do
    let reference ← evalTypeRef r.find type
    let type ← reference.solve r.find
    silently (r.engine.declareVariable name type)
  | .allocate bytes => silently (r.engine.allocate bytes)
  | .declareExisting name type offset => do
    let type ← evalValueType r.find type
    silently (r.engine.declareExisting name type offset)
  | .declareConstant name text type => do
    let type ← evalOptional (evalValueType r.find) type
    silently (r.engine.declareConstant name text type)
  | .declareFunction name label parameters => do
    let parameters ← evalParameters r.find parameters
    silently (r.engine.declareFunction name label parameters)
  | .declarePlaceholder name resolution store => do
    let id ← r.engine.declarePlaceholder name (.scripted resolution)
    silently (storeSymbol store (.placeholder id))
  | .declareFunctionPlaceholder name parameters resolution store => do
    let parameters ← evalTypedNames r.find parameters
    let id ← r.engine.declareFunctionPlaceholder name parameters (.scripted resolution)
    silently (storeSymbol store (.placeholder id))
  | .newPlaceholder resolution store => do
    let id ← StagedAsm.newPlaceholder { state := .pending (.scripted resolution) }
    silently (storeSymbol (some store) (.placeholder id))
  | .layoutOf type store => do
    let type ← evalTypeSymbol r.find type
    match type.layout? with
    | some id => silently (storeSymbol (some store) (.placeholder id))
    | none => throw (.meaningless "layout of a type that has none")
  | .addPlaceholder handle => do
    let id ← fetchPlaceholder handle
    silently (r.engine.addPlaceholder id)
  | .addDependency first second => do
    let first ← fetchPlaceholder first
    let second ← fetchPlaceholder second
    silently (r.engine.addDependency first second)
  | .resolvePlaceholder handle => do
    let id ← fetchPlaceholder handle
    return .symbol (← viewSymbol (← id.resolve))
  | .placeholderResult handle => do
    let id ← fetchPlaceholder handle
    return .symbol (← viewSymbol (← id.result))
  | .declareType name type store => do
    let type ← evalTypeSymbol r.find type
    storeSymbol store (.type type)
    return .scope (← r.engine.declareType name type)
  | .declareTemplate name handle => do
    let id ← fetch Bindings.templates handle
    silently (r.engine.declareTemplate name id)
  | .setAlias name register => return .register (← r.engine.setAlias name register)
  | .isStackVariable name => return .flag (← r.engine.isStackVariable name)

/-- Points an alias at another register. Fixed registers refuse. -/
def assignRegister (symbol : Symbol) (register : Register) : CompileM Unit :=
  match symbol with
  | .registerAlias id =>
    modify fun s => { s with aliases := s.aliases.setIfInBounds id.index register }
  | .register r => fail (.fixedRegister r.name)
  | _ => throw (.meaningless "assignment to something that is no register")

def runSymbol (r : Runner) : SymbolCommand → CompileM Observation
  | .find path store => do
    let path ← evalPath r.find path
    let symbol ← r.find path
    storeSymbol store symbol
    return .symbol (← viewSymbol symbol)
  | .inspect symbol store => do
    let symbol ← evalSymbol r.find symbol
    storeSymbol store symbol
    return .symbol (← viewSymbol symbol)
  | .settled symbol => do
    let symbol ← evalSymbol r.find symbol
    return .symbol (← viewSymbol ((← get).settled symbol))
  | .summary symbol => do
    let symbol ← evalSymbol r.find symbol
    return .summary (← viewSymbol symbol)
  | .rendered symbol => do
    let symbol ← evalSymbol r.find symbol
    return .text (← renderedText symbol)
  | .equal first second => do
    let first ← evalSymbol r.find first
    let second ← evalSymbol r.find second
    return .flag ((← get).sameSymbol first second)
  | .assign symbol register => do
    let register ← ofExcept (Register.parse register)
    let symbol ← evalSymbol r.find symbol
    silently (assignRegister symbol register)
  | .inspectLine line store => do
    let line ← evalLine r.find line
    storeLine store line
    return .line (← viewLine line)
  | .pinned line => do
    let line ← evalLine r.find line
    return .line (← viewLine ((← get).pinAliases line))
  | .setCell name value =>
    silently (modify fun s => { s with cells := s.cells.set name value })
  | .operand operand => do
    let operand ← evalOperand r operand
    return .operand (← viewOperand operand)
  | .valueType type => return .valueType (← evalValueType r.find type)
  | .sameValueType first second => do
    let first ← evalValueType r.find first
    let second ← evalValueType r.find second
    return .flag (first.same second)
  | .raise e => fail e

def runTypeRef (r : Runner) : TypeRefCommand → CompileM Observation
  | .inspect type store => do
    let id ← evalTypeRef r.find type
    storeTypeRef store id
    return .typeRef ((← get).viewTypeRef id)
  | .await type handle => do
    let id ← evalTypeRef r.find type
    let dependent ← fetchPlaceholder handle
    id.await r.find fun awaited => r.engine.addDependency awaited dependent
    return .flag ((← get).typeRef id).known.isSome
  | .settle type => do
    let id ← evalTypeRef r.find type
    id.settle
    return .valueType (← id.known)
  | .solve type => do
    let id ← evalTypeRef r.find type
    return .valueType (← id.solve r.find)

def runFrame (r : Runner) : FrameCommand → CompileM Observation
  | .size => return .number (← r.engine.stackSize).toNat
  | .setSize bytes => silently (r.engine.setStackSize bytes)
  | .extent => return .number (← r.engine.maxStackSize).toNat
  | .pointer => return .number (← r.engine.stackPointer)
  | .move delta => silently (r.engine.movePointer delta)
  | .declareCall => silently r.engine.declareCall
  | .isLeaf => return .flag (← r.engine.isLeaf)
  | .inspect => return .frame (← r.engine.frameState "obtain the current stack frame")

def runOutput (r : Runner) : OutputCommand → CompileM Observation
  | .emit line name => do
    let line ← evalLine r.find line
    silently (r.engine.emit line name)
  | .emitDeferred line name => do
    let line ← evalLine r.find line
    silently (r.engine.emitDeferred line name)
  | .builtinTypes => silently r.engine.declareBuiltinTypes
  | .arrayFields elementSize => silently (r.engine.declareArrayFields elementSize)
  | .resolveCall target arguments targets => do
    let target ← evalPath r.find target
    let arguments ← evalArguments r.find arguments
    let targets ← evalArguments r.find targets
    let site ← CallSite.resolve r target arguments targets
    let callee ← viewOperand site.callee
    let arguments ← viewOperands site.arguments
    return .callSite callee site.parameters arguments (← viewOperands site.targets)
  | .call callee arguments targets parameters => do
    let callee ← evalOperand r callee
    let arguments ← evalOperands r arguments
    let targets ← evalOperands r targets
    let parameters ← evalOptional (evalParameters r.find) parameters
    let site ← CallSite.make callee parameters arguments targets
    silently (Win64.call r.engine site)
  | .ret value => do
    let value ← evalOptional (evalOperand r) value
    silently (Win64.ret r.engine value)

def runTemplate (r : Runner) : TemplateCommand → CompileM Observation
  | .instantiate handle arguments store => do
    let id ← fetch Bindings.templates handle
    let arguments ← evalSymbols r.find arguments
    let made ← r.instantiate id arguments
    storeInstance store made
    return .templateInstance ((← get).viewInstance made)
  | .inspectInstance handle => do
    let id ← fetch Bindings.instances handle
    return .templateInstance ((← get).viewInstance id)
  | .advanceInstance handle pass => do
    let id ← fetch Bindings.instances handle
    silently (r.advance id pass)
  | .inspect handle => do
    let template := (← get).template (← fetch Bindings.templates handle)
    return .template template.name template.parameters template.memo.size
  | .memoInsert arguments handle => do
    let arguments ← evalSymbols r.find arguments
    let id ← fetch Bindings.instances handle
    modify fun s => { s with memo := s.memoInsert s.memo arguments id }
    let s ← get
    return .memo (s.memo.instances.map s.instanceText)
  | .memoFind arguments => do
    let arguments ← evalSymbols r.find arguments
    let s ← get
    let found := s.findInstance? s.memo arguments
    return .memoEntry found.isSome (found.map s.instanceText)
  | .snapshot store => do
    let snapshot ← r.engine.snapshot
    storeSnapshot store snapshot
    return .snapshot (snapshot.scopes.head?.getD ScopeTree.root) snapshot (← get).nextUid

def runCommand (r : Runner) : Command → CompileM Observation
  | .scope c => r.runScope c
  | .declaration c => r.runDeclaration c
  | .symbol c => r.runSymbol c
  | .typeRef c => r.runTypeRef c
  | .frame c => r.runFrame c
  | .output c => r.runOutput c
  | .template c => r.runTemplate c
  | .newTemplate name parameters body handle => do
    discard <| buildTemplate name parameters body handle
    return .nothing

/-- Runs a command of a program and logs its answer, if it has one. -/
def runCall (r : Runner) : Call → CompileM Unit
  | .mk label command attempted => do
    let pass ← r.engine.currentPass
    match ← attempt (r.runCommand command) with
    | .ok .nothing => pure ()
    | .ok answer => record (.command pass label (.ok answer))
    | .error e =>
      if attempted then record (.command pass label (.error e)) else fail e

def runCalls (r : Runner) : List Call → CompileM Unit
  | [] => pure ()
  | call :: rest => do
    r.runCall call
    runCalls r rest

end Runner

end StagedAsm
