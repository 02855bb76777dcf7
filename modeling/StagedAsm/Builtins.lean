import StagedAsm.Engine.Output
import StagedAsm.Run.Lookup
import StagedAsm.Session.Epoch

/-!
# Declarations that come with the language

The `String` type, the members of arrays, the functions imported from Kernel32 and the code that
starts a program.
-/

namespace StagedAsm

namespace EngineId

/-- `String` names a pointer to a structure that starts with a length field; the characters follow
    it. -/
def declareBuiltinTypes (e : EngineId) : CompileM Unit := do
  let length := (← get).settings.stringLength
  let target ← sizedStruct "String" length.bytes
  discard <| e.declareType "String" (.reference target)
  e.enterGlobal (Path.ofName "String")
  e.declareConstant "length" "0" (some (.sized length))
  e.declareConstant "c_str" (toString length.bytes) none
  e.exitGlobal

def declareArrayFields (e : EngineId) (elementSize : UInt32) : CompileM Unit := do
  let settings := (← get).settings
  match settings.arrayDataOffset? elementSize with
  | none => throw .endlessSearch
  | some offset =>
    e.declareConstant "count" "0" (some (.sized settings.arrayLength))
    e.declareConstant "data" (toString offset) none

end EngineId

structure ImportedFunction where
  name : String
  label : String
  parameters : List (Size × String)
  deriving Repr

def kernel32Functions : List ImportedFunction :=
  [ ⟨"ExitProcess", "ExitProcess", [(.dword, "exitCode")]⟩,
    ⟨"GetStdHandle", "GetStdHandle", [(.dword, "stdHandle")]⟩,
    ⟨"WriteFile", "WriteFile",
      [(.dword, "file"), (.qword, "buffer"), (.dword, "numberOfBytesToWrite"),
        (.qword, "numberOfBytesWritten"), (.qword, "overlapped")]⟩,
    ⟨"ReadFile", "ReadFile",
      [(.dword, "file"), (.qword, "buffer"), (.dword, "numberOfBytesToRead"),
        (.qword, "numberOfBytesRead"), (.qword, "overlapped")]⟩,
    ⟨"WriteConsole", "WriteConsoleA",
      [(.dword, "console"), (.qword, "buffer"), (.dword, "numberOfBytesToWrite"),
        (.qword, "numberOfBytesWritten"), (.qword, "reserved")]⟩,
    ⟨"ReadConsole", "ReadConsoleA",
      [(.dword, "console"), (.qword, "buffer"), (.dword, "numberOfBytesToRead"),
        (.qword, "numberOfBytesRead"), (.qword, "inputControl")]⟩,
    ⟨"SetConsoleOutputCP", "SetConsoleOutputCP", [(.dword, "codepage")]⟩ ]

namespace EngineId

def declareImports (e : EngineId) : List ImportedFunction → CompileM Unit
  | [] => pure ()
  | function :: rest => do
    e.declareFunction function.name function.label
      (function.parameters.map fun entry => { name := entry.2, type := .sized entry.1 })
    declareImports e rest

/-- Declares the functions imported from Kernel32. -/
def declareKernel32 (e : EngineId) : CompileM Unit := do
  e.enterFile "Kernel32.dll"
  e.enterGlobal (Path.ofName "Kernel32")
  e.declareImports kernel32Functions
  e.exitGlobal
  e.exitFile

end EngineId

/-- The code that starts a program: it calls `start`, if there is one, and `main`. -/
def Runner.emitEntryPoint (r : Runner) (start : Option Path) : CompileM Unit := do
  let e := r.engine
  let entry ← renderedText (← r.find (Path.ofName "main"))
  e.emitText "main:" programSection
  e.emitText "sub rsp, 40" programSection
  if let some path := start then
    let start ← renderedText (← r.find path)
    e.emitText s!"call {start}" programSection
  e.emitText s!"call {entry}" programSection
  e.emitText "xor ecx, ecx" programSection
  e.emitText "jmp ExitProcess" programSection

end StagedAsm
