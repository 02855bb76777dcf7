/-!
# Source positions

Where in the source a statement stands, for messages. Line 0 means that no position is known.
-/

namespace StagedAsm

structure Span where
  line : UInt32 := 0
  column : UInt32 := 0
  deriving DecidableEq, Repr, Inhabited

namespace Span

def isKnown (s : Span) : Bool := s.line != 0

def text (s : Span) : String := s!"{s.line}:{s.column}"

end Span

/-- A span inside a file, if one was open. -/
structure Location where
  file : Option String := none
  span : Span := {}
  deriving DecidableEq, Repr, Inhabited

def Location.text (l : Location) : String :=
  let place := s!"({l.span.line}, {l.span.column})"
  match l.file with
  | some file => s!"'{file}' at {place}"
  | none => place

end StagedAsm
