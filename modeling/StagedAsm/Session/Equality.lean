import StagedAsm.Session.State

/-!
# Equality of symbols

When two symbols count as the same argument of a template: constants by text and type, values on a
frame by place, registers by name, functions by label, types by what they are, and everything else
by identity. Instances are found in a hash table; equal arguments are hashed alike.
-/

namespace StagedAsm

def TypeSymbol.key : TypeSymbol → List KeyPart
  | primitive _ size => [.kind 0, .size size]
  | reference target => .kind 1 :: target.key
  | struct id _ _ => [.kind 2, .identity id.index]

namespace Session

def sameSymbol (s : Session) : Symbol → Symbol → Bool
  | .constant text type, .constant text' type' =>
    text == text' &&
      match type, type' with
      | some v, some v' => v.same v'
      | none, none => true
      | _, _ => false
  | .slot frame offset _, .slot frame' offset' _ => frame == frame' && offset == offset'
  | .register r, .register r' => r.name == r'.name
  | .register r, .registerAlias id => r.name == (s.aliasRegister id).name
  | .registerAlias id, .register r => (s.aliasRegister id).name == r.name
  | .registerAlias id, .registerAlias id' =>
    (s.aliasRegister id).name == (s.aliasRegister id').name
  | .function label _, .function label' _ => label == label'
  | .type t, .type t' => t.same t'
  | .placeholder id, .placeholder id' => id == id'
  | .template id, .template id' => id == id'
  | .deferred id _, .deferred id' _ => id == id'
  | _, _ => false

def sameArguments (s : Session) : List Symbol → List Symbol → Bool
  | [], [] => true
  | a :: as, b :: bs => s.sameSymbol a b && s.sameArguments as bs
  | _, _ => false

def symbolKey (s : Session) : Symbol → List KeyPart
  | .constant text _ => [.kind 0, .text text]
  | .slot frame offset _ => [.kind 1, .identity frame.index, .offset offset]
  | .register r => [.kind 2, .text r.name]
  | .registerAlias id => [.kind 2, .text (s.aliasRegister id).name]
  | .function label _ => [.kind 3, .text label]
  | .type t => .kind 4 :: t.key
  | .placeholder id => [.kind 5, .identity id.index]
  | .template id => [.kind 6, .identity id.index]
  | .deferred id _ => [.kind 7, .identity id]

def argumentsKey (s : Session) (arguments : List Symbol) : List KeyPart :=
  .identity arguments.length :: arguments.flatMap s.symbolKey

/-- The arguments are looked for where the slot is, and are the same as those in it. -/
def hits (s : Session) (arguments : List Symbol) (slot : MemoSlot) : Bool :=
  slot.key == s.argumentsKey arguments && s.sameArguments slot.arguments arguments

def findInstance? (s : Session) (m : Memo) (arguments : List Symbol) : Option InstanceId :=
  (m.slots.find? (s.hits arguments)).map MemoSlot.made

/-- A table that is full grows, and all that is in it is placed again. -/
def makeRoom (s : Session) (m : Memo) : Memo :=
  if m.slots.length < m.capacity then m
  else
    { m with
      capacity := m.grownCapacity
      slots := m.slots.map fun slot => { slot with key := s.argumentsKey slot.arguments } }

/-- If the same arguments turn up where the new ones are placed, they lead to the instance from now
    on. -/
def takeSlot (s : Session) (slots : List MemoSlot) (arguments : List Symbol) (id : InstanceId) :
    List MemoSlot :=
  match slots.findIdx? (s.hits arguments) with
  | some n => slots.modify n fun slot => { slot with made := id }
  | none => slots ++ [{ arguments, key := s.argumentsKey arguments, made := id }]

/-- An instance is added unless one is found for the same arguments. -/
def memoInsert (s : Session) (m : Memo) (arguments : List Symbol) (id : InstanceId) : Memo :=
  if (s.findInstance? m arguments).isSome then m
  else
    let room := s.makeRoom m
    { entries := m.entries ++ [(arguments, id)]
      slots := s.takeSlot room.slots arguments id
      capacity := room.capacity }

end Session

end StagedAsm
