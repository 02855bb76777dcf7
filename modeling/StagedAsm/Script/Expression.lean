import StagedAsm.Symbol.Basic

/-!
# Expressions

How a program writes down symbols, types, paths, lines and operands. An expression may make
something new, name something stored under a handle, or look a path up.
-/

namespace StagedAsm

mutual

inductive SymbolExpr where
  | text (s : String)
  | typed (s : String) (type : ValueTypeExpr)
  | register (name : String)
  | registerAlias (name : String)
  | imported (label : String)
  | function (label : String) (parameters : List ParameterExpr)
  | type (t : TypeSymbolExpr)
  | deferred (text : DeferredText)
  | stored (handle : String)
  | found (path : List SegmentExpr)
  | template (handle : String)

inductive TypeSymbolExpr where
  | primitive (size : Size)
  | sizedStruct (name : String) (size : UInt32)
  | laidOutStruct (name : String) (size : Except CompileError UInt32)
  | referenceTo (t : TypeSymbolExpr) (levels : Nat)
  | targetOf (t : TypeSymbolExpr)
  | stored (handle : String)
  | found (path : List SegmentExpr)

inductive ValueTypeExpr where
  | sized (size : Size)
  | block (bytes : UInt32)
  | ofType (t : TypeSymbolExpr)

inductive ParameterExpr where
  | mk (name : String) (type : ValueTypeExpr)

inductive SegmentExpr where
  | mk (name : String) (arguments : List SymbolExpr)

end

instance : Inhabited SymbolExpr := ⟨.text ""⟩
instance : Inhabited TypeSymbolExpr := ⟨.primitive .none⟩
instance : Inhabited ValueTypeExpr := ⟨.sized .none⟩
instance : Inhabited SegmentExpr := ⟨.mk "" []⟩

abbrev PathExpr := List SegmentExpr

namespace PathExpr

def splitDots : List Char → List (List Char)
  | [] => [[]]
  | c :: rest =>
    match splitDots rest with
    | [] => [[c]]
    | first :: others => if c = '.' then [] :: first :: others else (c :: first) :: others

/-- The plain names between the dots of a text; the empty text is one empty name. -/
def ofDotted (text : String) : PathExpr :=
  (splitDots text.toList).map fun name => .mk (String.ofList name) []

end PathExpr

/-- The type of a field, parameter or variable as a program writes it. -/
inductive TypeRefExpr where
  | sized (size : Size)
  | block (bytes : UInt32)
  | named (path : PathExpr)
  | value (path : PathExpr)
  | reference (path : PathExpr)
  | stored (handle : String)

inductive LineExpr where
  | symbols (symbols : List SymbolExpr)
  | stored (handle : String)

inductive ArgumentExpr where
  | register (name : String)
  | immediate (text : String)
  /-- The value stored at a symbol. -/
  | memory (path : PathExpr) (size : Option Size)
  | address (path : PathExpr)

inductive OperandExpr where
  | register (name : String)
  | registerPart (base : String) (size : Size) (upgrade : Bool)
  | immediate (text : LineExpr) (size : Size)
  | memory (address : LineExpr) (size : Size)
  | reference (address : LineExpr)
  | argument (argument : ArgumentExpr) (expected : Option ValueTypeExpr) (name : String)
  | stringLiteral (contents : String)
  | cStringLiteral (contents : String)
  | resized (operand : OperandExpr) (size : Size)

/-- How a placeholder of a program settles. -/
inductive ResolutionExpr where
  | constant (text : String)
  | failing (e : CompileError)
  | joined (handles : List String)
  | signature (label : String)
  | symbol (s : SymbolExpr)

end StagedAsm
