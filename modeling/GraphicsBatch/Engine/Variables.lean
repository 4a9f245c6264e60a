import GraphicsBatch.Text.Case

/-! # Variables

All variables are global integers. Names do not depend on case, and a variable that was never set
is 0.
-/

namespace GraphicsBatch

/-- Replaces the value of a key where it stands, or adds the key at the end. -/
def upsert {α β : Type} [BEq α] (key : α) (value : β) : List (α × β) → List (α × β)
  | [] => [(key, value)]
  | (k, v) :: rest => if k == key then (k, value) :: rest else (k, v) :: upsert key value rest

/-- Upper-case names with what they stand for, in the order in which they were first set. -/
structure NameTable (α : Type) where
  entries : List (String × α) := []
deriving DecidableEq, Inhabited

namespace NameTable

variable {α : Type}

def find? (t : NameTable α) (name : String) : Option α := t.entries.lookup (Text.upper name)

def set (t : NameTable α) (name : String) (value : α) : NameTable α :=
  ⟨upsert (Text.upper name) value t.entries⟩

def contains (t : NameTable α) (name : String) : Bool := (t.find? name).isSome

def size (t : NameTable α) : Nat := t.entries.length

end NameTable

abbrev Variables := NameTable Int

/-- The value of a variable. -/
def NameTable.get (vs : Variables) (name : String) : Int := (vs.find? name).getD 0

end GraphicsBatch
