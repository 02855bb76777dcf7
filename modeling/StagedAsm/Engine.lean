import StagedAsm.Section
import StagedAsm.Template

/-!
# Engines

The part of the state of an engine that it shares with no other engine.
-/

namespace StagedAsm

/-- Where a program stands. -/
structure Engine where
  sections : List (String × Section)
  /-- Open scopes, innermost first. -/
  scopes : List ScopeId
  /-- Open files, innermost first. -/
  files : List String := []
  ownsEpoch : Bool := false
  running : Option Pass := none
  completed : Option Pass := none
  position : Span := {}
  deriving Repr

instance : Inhabited Engine := ⟨{ sections := [], scopes := [] }⟩

namespace Engine

/-- The pass that runs, or runs next. -/
def currentPass (e : Engine) : Pass :=
  match e.running, e.completed with
  | some pass, _ => pass
  | none, none => .declare
  | none, some done => done.next?.getD .generate

def hasCompleted (e : Engine) (pass : Pass) : Bool :=
  match e.completed with
  | some done => decide (pass ≤ done)
  | none => false

def currentScope (e : Engine) : ScopeId := e.scopes.head?.getD ⟨0⟩

def location (e : Engine) : Location := { file := e.files.head?, span := e.position }

def ofSnapshot (s : Snapshot) (scope : ScopeId) : Engine :=
  { sections := s.sinks.map fun entry => (entry.1, { sink := entry.2 })
    scopes := scope :: s.scopes
    files := s.files }

/-- What a template declared here needs to know. -/
def snapshot (e : Engine) : Snapshot :=
  { scopes := e.scopes
    files := e.files
    sinks := e.sections.map fun entry => (entry.1, entry.2.sink) }

end Engine

end StagedAsm
