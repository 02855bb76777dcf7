import StagedAsm.Action

/-!
# Templates, instances and engines

A template is a list of statements with parameters. It is compiled once for every tuple of
arguments; each instance runs on an engine of its own, which starts from the snapshot that was taken
where the template was declared.
-/

namespace StagedAsm

/-- One of the values that a symbol is hashed as. -/
inductive KeyPart where
  | kind (n : Nat)
  | text (s : String)
  | identity (n : Nat)
  | offset (x : Int)
  | size (s : Size)
  deriving DecidableEq, Repr

/-- Arguments stay in the slot where they were placed, whatever they would be hashed as later. -/
structure MemoSlot where
  arguments : List Symbol
  key : List KeyPart
  made : InstanceId
  deriving DecidableEq, Repr, Inhabited

/-- Instances by their arguments. -/
structure Memo where
  entries : List (List Symbol × InstanceId) := []
  slots : List MemoSlot := []
  capacity : Nat := 0
  deriving DecidableEq, Repr, Inhabited

namespace Memo

def instances (m : Memo) : List InstanceId := m.entries.map Prod.snd

def size (m : Memo) : Nat := m.entries.length

/-- Seven eighths of a power of two, or one less than a small one. -/
def grownCapacity (m : Memo) : Nat :=
  if m.capacity = 0 then 3 else if m.capacity = 3 then 7 else 2 * m.capacity

end Memo

/-- Where an engine stood when a template was declared. -/
structure Snapshot where
  scopes : List ScopeId
  files : List String
  sinks : List (String × SinkId)
  deriving DecidableEq, Repr, Inhabited

/-- A list of statements with parameters. -/
structure Template where
  name : String
  parameters : List String
  body : List Statement
  declaration : Option Snapshot := none
  memo : Memo := {}

instance : Inhabited Template := ⟨{ name := "", parameters := [], body := [] }⟩

structure Instance where
  template : String
  arguments : List Symbol
  scope : ScopeId
  engine : EngineId
  program : Program
  mangled : String
  isBusy : Bool := false

instance : Inhabited Instance :=
  ⟨{ template := "", arguments := [], scope := ⟨0⟩, engine := ⟨0⟩, program := [], mangled := "" }⟩

end StagedAsm
