import StagedAsm.Session.Expressions

/-!
# Building programs

Turns statements into actions. Building makes what all passes share: templates, type references
and the symbols in paths.
-/

namespace StagedAsm

def evalTypedNames (find : Finder) :
    List (TypeRefExpr × String) → CompileM (List (TypeRefId × String))
  | [] => pure []
  | (type, name) :: rest => do
    let type ← evalTypeRef find type
    return (type, name) :: (← evalTypedNames find rest)

def evalArguments (find : Finder) : List ArgumentExpr → CompileM (List Argument)
  | [] => pure []
  | argument :: rest => do
    let argument ← evalArgument find argument
    return argument :: (← evalArguments find rest)

def evalOptional {α β : Type} (eval : α → CompileM β) : Option α → CompileM (Option β)
  | none => pure none
  | some a => return some (← eval a)

/-- Offsets of the leading fields whose types are known, and what they take together. -/
def leadingOffsets (s : Session) (total : UInt32) :
    List Field → Except Fault (List UInt32 × UInt32)
  | [] => .ok ([], total)
  | field :: rest =>
    match (s.typeRef field.type).known with
    | none => .ok ([], total)
    | some type => do
      let next ← addBytes total type.bytes
      let (offsets, size) ← leadingOffsets s next rest
      return (total :: offsets, size)

def openStruct (name : String) (fields : List (TypeRefId × String)) : CompileM Action := do
  let fields := fields.map fun field => { name := field.2, type := field.1 }
  let (offsets, knownSize) ← ofFault (leadingOffsets (← get) 0 fields)
  return .enterStruct name fields offsets knownSize

def buildTemplate (name : String) (parameters : List String) (body : List Statement)
    (handle : String) : CompileM TemplateId := do
  let id ← newTemplate { name, parameters, body }
  storeTemplate handle id
  return id

mutual

def buildStatement : Statement → CompileM Program
  | .perform pass calls => pure [.perform pass calls]
  | .file name body =>
    return (← buildProgram body).wrapped (.enterFile name) .exitFile
  | .importScope path => return [.importScope (← evalPath findNothing path)]
  | .within path body => do
    let path ← evalPath findNothing path
    return (← buildProgram body).wrapped (.enterGlobal path) .exitGlobal
  | .constant name value => pure [.constant name value]
  | .instruction line => pure [.emitText line programSection]
  | .data line => pure [.emitText line dataSection]
  | .emit line => pure [.emit line]
  | .ifThen code condition body => do
    let condition ← buildProgram condition
    return .ifThen code condition (← buildProgram body)
  | .ifElse code condition body otherwise => do
    let condition ← buildProgram condition
    let body ← buildProgram body
    return .ifElse code condition body (← buildProgram otherwise)
  | .whileLoop code condition body => do
    let condition ← buildProgram condition
    return .whileLoop code condition (← buildProgram body)
  | .forLoop start code condition advance body => do
    let start ← buildProgram start
    let condition ← buildProgram condition
    let advance ← buildProgram advance
    return .forLoop start code condition advance (← buildProgram body)
  | .doLoop start body advance code condition => do
    let start ← buildProgram start
    let body ← buildProgram body
    let advance ← buildProgram advance
    return .doLoop start body advance code (← buildProgram condition)
  | .function name parameters body => do
    let parameters ← evalTypedNames findNothing parameters
    return (← buildProgram body).wrapped (.prologue name parameters) .epilogue
  | .call target arguments targets => do
    let target ← evalPath findNothing target
    let arguments ← evalArguments findNothing arguments
    return [.call target arguments (← evalArguments findNothing targets)]
  | .ret value => return [.ret (← evalOptional (evalArgument findNothing) value)]
  | .struct name fields members => do
    let fields ← evalTypedNames findNothing fields
    let members ← buildProgram members
    return members.wrapped (← openStruct name fields) .exitGlobal
  | .template name parameters body handle =>
    return [.template (← buildTemplate name parameters body handle)]
  | .existingTemplate handle => return [.template (← fetch Bindings.templates handle)]
  | .builtins => pure [.builtins]
  | .kernel32 => pure [.kernel32]
  | .entryPoint start => return [.entryPoint (← evalOptional (evalPath findNothing) start)]

def buildProgram : List Statement → CompileM Program
  | [] => pure []
  | statement :: rest => do
    let actions ← buildStatement statement
    return actions ++ (← buildProgram rest)

end

end StagedAsm
