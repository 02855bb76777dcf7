import StagedAsm.Dictionary
import StagedAsm.Frame
import StagedAsm.Symbol.Basic

/-!
# Scopes

A global scope has named sub-scopes and the scopes of functions, and every scope has a list of
anonymous blocks that is walked in the same order in every pass. The scope of a template instance
hangs nowhere. A function's scope has a frame, which the blocks inside it share.
-/

namespace StagedAsm

/-- A scope holds members for everyone, or the variables of one function. -/
inductive ScopeKind where
  | global
  | function
  deriving DecidableEq, Repr, Inhabited

/-- Where a scope hangs in the tree. -/
inductive ScopeOrigin where
  | root
  | detached
  | member (parent : ScopeId) (name : String)
  | function (parent : ScopeId) (name : String)
  | block (parent : ScopeId) (number : Nat)
  deriving DecidableEq, Repr, Inhabited

def ScopeOrigin.parent? : ScopeOrigin → Option ScopeId
  | root => none
  | detached => none
  | member parent _ => some parent
  | function parent _ => some parent
  | block parent _ => some parent

structure Scope where
  origin : ScopeOrigin
  kind : ScopeKind := .global
  name : Option String := none
  isAnonymous : Bool := false
  members : Dictionary Symbol := ∅
  associatedType : Option TypeSymbol := none
  frame : Option FrameId := none
  variableBytes : UInt32 := 0
  blocks : List ScopeId := []
  cursor : Nat := 0
  canGrow : Bool := true
  notes : Dictionary String := ∅
  deriving Repr

instance : Inhabited Scope := ⟨{ origin := .root }⟩

def Scope.isLocal (s : Scope) : Bool := s.kind == .function

/-- How an engine gets from its innermost scope to another one. -/
inductive ScopeMove where
  | enterGlobal (names : List String)
  | exitGlobal
  | enterLocal (name : String)
  | exitLocal
  | enterBlock
  | exitBlock
  | endPass
  deriving DecidableEq, Repr

structure Visit where
  engine : EngineId
  pass : Pass
  move : ScopeMove
  before : ScopeId
  after : ScopeId
  deriving DecidableEq, Repr

/-- All scopes and frames. -/
structure ScopeTree where
  scopes : Array Scope := #[{ origin := .root }]
  frames : Array Frame := #[]
  trail : Array Visit := #[]
  deriving Repr, Inhabited

namespace ScopeTree

def root : ScopeId := ⟨0⟩

def size (t : ScopeTree) : Nat := t.scopes.size

def scope (t : ScopeTree) (id : ScopeId) : Scope := t.scopes.getD id.index default

def frame (t : ScopeTree) (id : FrameId) : Frame := t.frames.getD id.index default

def isLocal (t : ScopeTree) (id : ScopeId) : Bool := (t.scope id).isLocal

def parent? (t : ScopeTree) (id : ScopeId) : Option ScopeId := (t.scope id).origin.parent?

/-- A scope and those around it, innermost first, at most `fuel` of them. -/
def ancestry (t : ScopeTree) : Nat → ScopeId → List ScopeId
  | 0, _ => []
  | fuel + 1, id =>
    match t.parent? id with
    | some parent => id :: ancestry t fuel parent
    | none => [id]

/-- A scope is created after the one it hangs off, so its number bounds how many there are around
    it. -/
def lineage (t : ScopeTree) (id : ScopeId) : List ScopeId := t.ancestry (id.index + 1) id

/-- Blocks have no names. -/
def lineageNames (t : ScopeTree) (id : ScopeId) : List String :=
  (t.lineage id).filterMap fun id => (t.scope id).name

def absoluteName (t : ScopeTree) (id : ScopeId) : String :=
  match t.lineageNames id with
  | [] => "the root scope"
  | names => String.intercalate "." names.reverse

/-- The scope that hangs at `origin`. -/
def find? (t : ScopeTree) (origin : ScopeOrigin) : Option ScopeId :=
  (t.scopes.findIdx? fun s => s.origin == origin).map ScopeId.mk

def subScope? (t : ScopeTree) (parent : ScopeId) (name : String) : Option ScopeId :=
  t.find? (.member parent name)

def subScopeAt? (t : ScopeTree) : ScopeId → List String → Option ScopeId
  | id, [] => some id
  | id, name :: rest => (t.subScope? id name).bind fun next => subScopeAt? t next rest

def functionScope? (t : ScopeTree) (parent : ScopeId) (name : String) : Option ScopeId :=
  t.find? (.function parent name)

/-- The member with a name, in this very scope. -/
def member? (t : ScopeTree) (id : ScopeId) (name : String) : Option Symbol :=
  (t.scope id).members.get? name

def modifyScope (t : ScopeTree) (id : ScopeId) (f : Scope → Scope) : ScopeTree :=
  { t with scopes := t.scopes.modify id.index f }

def setFrame (t : ScopeTree) (id : FrameId) (frame : Frame) : ScopeTree :=
  { t with frames := t.frames.setIfInBounds id.index frame }

def push (t : ScopeTree) (scope : Scope) : ScopeId × ScopeTree :=
  (⟨t.scopes.size⟩, { t with scopes := t.scopes.push scope })

def visited (t : ScopeTree) (visit : Visit) : ScopeTree :=
  { t with trail := t.trail.push visit }

@[simp] theorem size_push (t : ScopeTree) (s : Scope) : (t.push s).2.size = t.size + 1 := by
  simp [push, size]

@[simp] theorem size_modifyScope (t : ScopeTree) (id : ScopeId) (f : Scope → Scope) :
    (t.modifyScope id f).size = t.size := by
  simp [modifyScope, size]

@[simp] theorem size_setFrame (t : ScopeTree) (id : FrameId) (f : Frame) :
    (t.setFrame id f).size = t.size := rfl

@[simp] theorem scope_setFrame (t : ScopeTree) (id : FrameId) (f : Frame) (s : ScopeId) :
    (t.setFrame id f).scope s = t.scope s := rfl

@[simp] theorem size_visited (t : ScopeTree) (v : Visit) : (t.visited v).size = t.size := rfl

@[simp] theorem scope_visited (t : ScopeTree) (v : Visit) (s : ScopeId) :
    (t.visited v).scope s = t.scope s := rfl

@[simp] theorem frame_visited (t : ScopeTree) (v : Visit) (f : FrameId) :
    (t.visited v).frame f = t.frame f := rfl

end ScopeTree

end StagedAsm
