/-!
# Compilation passes

A program is run three times from its first statement to its last: names are declared, then
dependencies are recorded, then text is generated.
-/

namespace StagedAsm

/-- One run over a program. -/
inductive Pass where
  | declare
  | resolve
  | generate
  deriving DecidableEq, Repr, Inhabited

namespace Pass

def text : Pass → String
  | declare => "declare"
  | resolve => "resolve-dependencies"
  | generate => "generate"

def rank : Pass → Nat
  | declare => 0
  | resolve => 1
  | generate => 2

instance : LE Pass := ⟨fun a b => a.rank ≤ b.rank⟩
instance : LT Pass := ⟨fun a b => a.rank < b.rank⟩
instance (a b : Pass) : Decidable (a ≤ b) := inferInstanceAs (Decidable (a.rank ≤ b.rank))
instance (a b : Pass) : Decidable (a < b) := inferInstanceAs (Decidable (a.rank < b.rank))

def next? : Pass → Option Pass
  | declare => some resolve
  | resolve => some generate
  | generate => none

def all : List Pass := [declare, resolve, generate]

end Pass

end StagedAsm
