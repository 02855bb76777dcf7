import StagedAsm.Size
import StagedAsm.Symbol.Identity

/-!
# Types

A type symbol is a primitive, a structure, or a reference to another type. A value type is what is
known of a value: its operand size, its size in bytes and perhaps its type symbol. The instance size
of a structure and the member scopes of types are kept in a table under the type's identity, which a
reference shares with the type it points to.
-/

namespace StagedAsm

inductive TypeSymbol where
  | primitive (id : TypeId) (size : Size)
  | struct (id : TypeId) (name : String) (layout : Option PlaceholderId)
  | reference (target : TypeSymbol)
  deriving DecidableEq, Repr, Inhabited

namespace TypeSymbol

/-- Each level of reference adds a dollar sign in front. -/
def name : TypeSymbol → String
  | primitive _ size => size.text
  | struct _ name _ => name
  | reference target => "$" ++ target.name

def size : TypeSymbol → Size
  | primitive _ size => size
  | struct _ _ _ => .none
  | reference _ => .qword

/-- The type at the end of all references. -/
def base : TypeSymbol → TypeId
  | primitive id _ => id
  | struct id _ _ => id
  | reference target => target.base

def levels : TypeSymbol → Nat
  | reference target => target.levels + 1
  | _ => 0

def isReference : TypeSymbol → Bool
  | reference _ => true
  | _ => false

def target? : TypeSymbol → Option TypeSymbol
  | reference target => some target
  | _ => none

def layout? : TypeSymbol → Option PlaceholderId
  | struct _ _ layout => layout
  | _ => none

def referenced (t : TypeSymbol) : Nat → TypeSymbol
  | 0 => t
  | n + 1 => reference (t.referenced n)

/-- Primitives by size, references by target, structures by identity. -/
def same : TypeSymbol → TypeSymbol → Bool
  | primitive _ s, primitive _ s' => s == s'
  | struct id _ _, struct id' _ _ => id == id'
  | reference t, reference t' => t.same t'
  | _, _ => false

end TypeSymbol

structure ValueType where
  size : Size
  bytes : UInt32
  type : Option TypeSymbol := none
  deriving DecidableEq, Repr, Inhabited

namespace ValueType

def sized (size : Size) : ValueType := { size, bytes := size.bytes }

def block (bytes : UInt32) : ValueType :=
  { size := (Size.ofBytes? bytes).getD .none, bytes }

def isReference (v : ValueType) : Bool := v.type.any TypeSymbol.isReference

def text (v : ValueType) : String :=
  match v.type with
  | some t => t.name
  | none => if v.size.isDefined then v.size.text else s!"{v.bytes} bytes"

def same (v w : ValueType) : Bool :=
  v.size == w.size && v.bytes == w.bytes &&
    match v.type, w.type with
    | some t, some t' => t.same t'
    | none, none => true
    | _, _ => false

end ValueType

end StagedAsm
