import StagedAsm.Script.Expression

/-!
# Placeholders and type references

A placeholder stands for a symbol that is not known yet. It is asked once, whether that succeeds or
fails. A type reference is a type as the source writes it. It may have to wait for a placeholder:
the one its name is bound to, or the layout of a structure.
-/

namespace StagedAsm

/-- How a placeholder finds out what it stands for. -/
inductive Resolution where
  /-- As the program says. -/
  | scripted (r : ResolutionExpr)
  | signature (label : String)
  | field (owner : TypeId) (type : TypeRefId)
  | layout (owner : TypeId)
  | givenLayout (owner : TypeId) (size : Except CompileError UInt32)

/-- How far a placeholder is. -/
inductive PlaceholderState where
  /-- It was not asked yet. -/
  | pending (resolution : Resolution)
  /-- It was asked and has no answer. -/
  | spent
  | settled (symbol : Symbol)

/-- Something that is not known yet. -/
structure Placeholder where
  name : Option String := none
  owner : Option ScopeId := none
  parameters : Option (List (TypeRefId × String)) := none
  state : PlaceholderState := .spent

instance : Inhabited Placeholder := ⟨{}⟩

namespace Placeholder

def text (p : Placeholder) : String :=
  match p.name with
  | some name => s!"'{name}'"
  | none => "<anonymous>"

def result? (p : Placeholder) : Option Symbol :=
  match p.state with
  | .settled symbol => some symbol
  | _ => none

def isSettled (p : Placeholder) : Bool := p.result?.isSome

end Placeholder

/-- How a type is written. -/
inductive TypeForm where
  | sized (size : Size)
  | block (bytes : UInt32)
  | named (path : Path)
  | value (path : Path)
  | reference (path : Path)
  deriving DecidableEq, Repr, Inhabited

def TypeForm.path : TypeForm → Path
  | sized _ => []
  | block _ => []
  | named path => path
  | value path => path
  | reference path => path

inductive Awaited where
  | symbol (placeholder : PlaceholderId)
  | layout (type : TypeSymbol)
  deriving DecidableEq, Repr

structure TypeRef where
  form : TypeForm
  known : Option ValueType := none
  awaited : Option Awaited := none
  deriving DecidableEq, Repr, Inhabited

/-- One that gives its size is settled from the start. -/
def TypeRef.ofForm (form : TypeForm) : TypeRef :=
  match form with
  | .sized size => { form, known := some (.sized size) }
  | .block bytes => { form, known := some (.block bytes) }
  | _ => { form }

end StagedAsm
