/-!
# Dictionaries

Finite maps from names, as association lists in the order in which the names were first set.
-/

namespace StagedAsm

structure Dictionary (α : Type) where
  entries : List (String × α) := []
  deriving Repr, Inhabited

namespace Dictionary

variable {α : Type}

instance : EmptyCollection (Dictionary α) := ⟨{}⟩

def find? (name : String) : List (String × α) → Option α
  | [] => none
  | (key, value) :: rest => if key = name then some value else find? name rest

/-- Replaces the value of `name`, or adds it at the end. -/
def insert (name : String) (value : α) : List (String × α) → List (String × α)
  | [] => [(name, value)]
  | (key, old) :: rest =>
    if key = name then (key, value) :: rest else (key, old) :: insert name value rest

def get? (d : Dictionary α) (name : String) : Option α := find? name d.entries

def contains (d : Dictionary α) (name : String) : Bool := (d.get? name).isSome

def set (d : Dictionary α) (name : String) (value : α) : Dictionary α :=
  ⟨insert name value d.entries⟩

@[simp] theorem get?_empty (name : String) : (∅ : Dictionary α).get? name = none := rfl

theorem find?_insert_self (name : String) (value : α) (l : List (String × α)) :
    find? name (insert name value l) = some value := by
  induction l with
  | nil => simp [insert, find?]
  | cons entry rest ih =>
    obtain ⟨key, old⟩ := entry
    by_cases h : key = name <;> simp [insert, find?, h, ih]

theorem find?_insert_of_ne {name other : String} (h : other ≠ name) (value : α)
    (l : List (String × α)) : find? other (insert name value l) = find? other l := by
  induction l with
  | nil => simp [insert, find?, Ne.symm h]
  | cons entry rest ih =>
    obtain ⟨key, old⟩ := entry
    by_cases hk : key = name
    · subst hk
      simp [insert, find?, Ne.symm h]
    · simp only [insert, hk, if_false, find?, ih]

@[simp] theorem get?_set_self (d : Dictionary α) (name : String) (value : α) :
    (d.set name value).get? name = some value :=
  find?_insert_self name value d.entries

theorem get?_set_of_ne (d : Dictionary α) {name other : String} (h : other ≠ name) (value : α) :
    (d.set name value).get? other = d.get? other :=
  find?_insert_of_ne h value d.entries

end Dictionary

end StagedAsm
