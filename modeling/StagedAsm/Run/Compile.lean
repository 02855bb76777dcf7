import StagedAsm.Run.Commands
import StagedAsm.Structure
import StagedAsm.Win64.Function

/-!
# Running programs

An engine runs a program pass by pass, from the first pass it did not complete to the one asked for.
The engine that opened an epoch closes it at the end of its second pass; at the end of the third its
text goes to the sinks. Compiling an instance may meet others, so the depth of nesting is given.
-/

namespace StagedAsm

namespace EngineId

def rememberLabel (e : EngineId) (key : String) : CompileM String := do
  let label ← e.label key
  e.setNote key label
  return label

def recallLabel (e : EngineId) (key : String) : CompileM String := do
  match ← e.note? key with
  | some label => pure label
  | none => fail (.noLabel key)

end EngineId

namespace Runner

/-- Runs the instances of a template up to a pass, in the order in which they were made. -/
def advanceAll (r : Runner) (pass : Pass) : List InstanceId → CompileM Unit
  | [] => pure ()
  | id :: rest => do
    r.advance id pass
    advanceAll r pass rest

/-- The first pass declares the template, and every pass brings its instances up to it. -/
def runTemplateAction (r : Runner) (pass : Pass) (id : TemplateId) : CompileM Unit := do
  if pass = .declare then
    r.engine.declareTemplate ((← get).template id).name id
    let snapshot ← r.engine.snapshot
    modifyTemplate id fun t => { t with declaration := some snapshot }
  let taken := ((← get).template id).memo.instances
  happened (.replayed id pass taken)
  r.advanceAll pass taken

def generateAction (r : Runner) : Action → CompileM Unit
  | .emitText text name => r.engine.emitText text name
  | .emit line => do r.engine.emit (← evalLine r.find line) programSection
  | .jumpToNew mnemonic key => do
    let label ← r.engine.rememberLabel key
    r.engine.emitText s!"{mnemonic} {label}" programSection
  | .placeNew key => do
    let label ← r.engine.rememberLabel key
    r.engine.emitText s!"{label}:" programSection
  | .jumpToKnown mnemonic key => do
    let label ← r.engine.recallLabel key
    r.engine.emitText s!"{mnemonic} {label}" programSection
  | .placeKnown key => do
    let label ← r.engine.recallLabel key
    r.engine.emitText s!"{label}:" programSection
  | .startOtherwise => do
    let finish ← r.engine.rememberLabel "end_of_else"
    r.engine.emitText s!"jmp {finish}" programSection
    let label ← r.engine.recallLabel "end_of_if"
    r.engine.emitText s!"{label}:" programSection
  | .call target arguments targets => do
    Win64.call r.engine (← CallSite.resolve r target arguments targets)
    r.engine.declareCall
  | .ret value => do
    let value ← evalOptional (fun v : Argument => v.toOperand r "return value" none) value
    Win64.ret r.engine value
  | .entryPoint start => r.emitEntryPoint start
  | _ => pure ()

def runAction (r : Runner) (pass : Pass) (action : Action) : CompileM Unit := do
  match action with
  | .perform only calls => if only.all (· == pass) then r.runCalls calls
  | .enterFile name => r.engine.enterFile name
  | .exitFile => r.engine.exitFile
  | .importScope path => if pass ≠ .declare then r.engine.importScope path
  | .enterGlobal path => r.engine.enterGlobal path
  | .exitGlobal => r.engine.exitGlobal
  | .constant name value =>
    if pass = .declare then r.engine.declareConstant name value none
  | .enterBlock => r.engine.enterBlock
  | .exitBlock => r.engine.exitBlock
  | .prologue name parameters => Win64.prologue r pass name parameters
  | .epilogue => Win64.epilogue r.engine pass
  | .enterStruct name fields offsets knownSize =>
    Structure.enter r pass name fields offsets knownSize
  | .template id => r.runTemplateAction pass id
  | .builtins => if pass = .declare then r.engine.declareBuiltinTypes
  | .kernel32 => if pass = .declare then r.engine.declareKernel32
  | .ret _ =>
    if !(← r.engine.isLocal) then fail .returnOutsideFunction
    if pass = .generate then r.generateAction action
  | _ => if pass = .generate then r.generateAction action

def runActions (r : Runner) (pass : Pass) : Program → CompileM Unit
  | [] => pure ()
  | action :: rest => do
    r.runAction pass action
    runActions r pass rest

/-- An epoch is opened unless one is open, and the engine then has to close it. -/
def openEpoch (r : Runner) : CompileM Unit := do
  if (← get).epoch.isNone then
    modify fun s => { s with epoch := some {} }
    modifyEngine r.engine fun engine => { engine with ownsEpoch := true }
    happened (.opened r.engine)

def settleEpoch (r : Runner) : CompileM Unit := do
  if (← r.engine.state).ownsEpoch then
    closeEpoch
    modifyEngine r.engine fun engine => { engine with ownsEpoch := false }

def beginPass (r : Runner) (pass : Pass) : CompileM Unit :=
  modify fun s =>
    { s with begun := s.begun.push ⟨r.engine, pass, (s.engine r.engine).completed⟩ }

/-- Scopes have to be as deep as before. -/
def performPass (r : Runner) (program : Program) (depth : Nat) (pass : Pass) : CompileM Unit := do
  modifyEngine r.engine fun engine => { engine with running := some pass }
  if pass = .declare then r.openEpoch
  r.runActions pass program
  let found := (← r.engine.state).scopes.length
  if found ≠ depth then fail (.passLeftScopesOpen pass found depth)

def leavePass (r : Runner) (pass : Pass) : CompileM Unit := do
  if pass = .resolve then r.settleEpoch
  if pass = .generate then r.engine.closeSections
  r.engine.endPass

def runPass (r : Runner) (program : Program) (depth : Nat) (pass : Pass) : CompileM Unit := do
  r.beginPass pass
  r.performPass program depth pass
  r.leavePass pass
  modifyEngine r.engine fun engine => { engine with running := none, completed := some pass }
  happened (.finished r.engine pass)

/-- Runs those of some passes that are not completed and not after `upTo`. -/
def runPasses (r : Runner) (program : Program) (upTo : Pass) (depth : Nat) :
    List Pass → CompileM Unit
  | [] => pure ()
  | pass :: rest => do
    if pass ≤ upTo && !(← r.engine.state).hasCompleted pass then r.runPass program depth pass
    runPasses r program upTo depth rest

/-- An error gets the position it was raised at. Scopes and files have to be as deep as before. -/
def compile (r : Runner) (program : Program) (upTo : Pass) : CompileM Unit := do
  let before ← r.engine.state
  match ← attempt (r.runPasses program upTo before.scopes.length Pass.all) with
  | .error e =>
    modifyEngine r.engine fun engine => { engine with running := none }
    fail (e.locate (← r.engine.state).location)
  | .ok () =>
    let after ← r.engine.state
    if after.files.length ≠ before.files.length then
      fail (.filesLeftOpen after.files.length before.files.length)
    if after.scopes.length ≠ before.scopes.length then
      fail (.scopesLeftOpen after.scopes.length before.scopes.length)

end Runner

/-- An instance that is at work cannot be compiled again. -/
def compileInstance (advance : InstanceId → Pass → CompileM Unit) (id : InstanceId)
    (pass : Pass) : CompileM Unit := do
  let s ← get
  if s.instances.size ≤ id.index then throw (.meaningless "instance that was not made")
  let i := s.instanceAt id
  if i.isBusy then fail (.instanceBusy (s.applicationText i.template i.arguments))
  happened (.requested id pass)
  modifyInstance id fun i => { i with isBusy := true }
  let outcome ← attempt (Runner.compile ⟨i.engine, advance⟩ i.program pass)
  modifyInstance id fun i => { i with isBusy := false }
  ofExcept outcome
  happened (.advanced id pass)

/-- Compiles an instance, with at most `depth` instances inside each other. -/
def advanceWithin : Nat → InstanceId → Pass → CompileM Unit
  | 0, _, _ => throw .nestingTooDeep
  | depth + 1, id, pass => compileInstance (advanceWithin depth) id pass

def EngineId.runner (e : EngineId) (depth : Nat) : Runner := ⟨e, advanceWithin depth⟩

end StagedAsm
