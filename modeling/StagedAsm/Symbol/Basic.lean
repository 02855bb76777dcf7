import StagedAsm.Register
import StagedAsm.Symbol.ValueType

/-!
# Symbols

Symbols are plain data; what changes over time (the register of an alias, the result of a
placeholder, the size of a frame) is looked up through identities. A line is a list of symbols, and
a path is a list of segments that may carry template arguments.
-/

namespace StagedAsm

/-- Text that is computed when a line is written. -/
inductive DeferredText where
  | absent
  | text (s : String)
  | cell (name : String)
  | failing (e : CompileError)
  | frameAdjustment (frame : FrameId) (instruction : String) (inPrologue : Bool)
  deriving DecidableEq, Repr, Inhabited

structure Parameter where
  name : String
  type : ValueType
  deriving DecidableEq, Repr, Inhabited

/-- What a name can be bound to. -/
inductive Symbol where
  | constant (text : String) (type : Option ValueType)
  | slot (frame : FrameId) (offset : Int) (type : ValueType)
  | register (r : Register)
  | registerAlias (id : AliasId)
  | function (label : String) (parameters : Option (List Parameter))
  | type (t : TypeSymbol)
  | placeholder (id : PlaceholderId)
  | template (id : TemplateId)
  /-- `id` tells two of them apart. -/
  | deferred (id : Nat) (text : DeferredText)
  deriving DecidableEq, Repr, Inhabited

namespace Symbol

def ofText (text : String) : Symbol := constant text none

def kindName : Symbol → String
  | constant _ _ => "constant"
  | slot _ _ _ => "variable"
  | register _ => "register"
  | registerAlias _ => "register"
  | function _ _ => "function"
  | type _ => "type"
  | placeholder _ => "placeholder"
  | template _ => "template"
  | deferred _ _ => "deferred text"

def isSlot : Symbol → Bool
  | slot _ _ _ => true
  | _ => false

def placeholder? : Symbol → Option PlaceholderId
  | placeholder id => some id
  | _ => none

def template? : Symbol → Option TemplateId
  | template id => some id
  | _ => none

end Symbol

/-- One line of output before it is written. -/
abbrev Line := List Symbol

namespace Line

def ofText (text : String) : Line := [Symbol.ofText text]

/-- The line can be written only once the size of a frame is known. -/
def addressesFrame (line : Line) : Bool := line.any Symbol.isSlot

end Line

structure Segment where
  name : String
  arguments : List Symbol := []
  deriving DecidableEq, Repr, Inhabited

def Segment.isTemplated (s : Segment) : Bool := !s.arguments.isEmpty

abbrev Path := List Segment

def Path.ofName (name : String) : Path := [{ name }]

end StagedAsm
