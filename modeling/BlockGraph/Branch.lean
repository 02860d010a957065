/-!
Branches: the slots of a block that hold a sequence of statements instead of a value.
-/

set_option autoImplicit false

namespace BlockGraph

inductive Branch where
  | first
  | second
deriving DecidableEq, Repr

namespace Branch

def all : List Branch := [.first, .second]

/-- Name of the slot in documents and listings. -/
def name : Branch → String
  | .first => "SUBSTACK"
  | .second => "SUBSTACK2"

def ofName? (name : String) : Option Branch :=
  all.find? fun branch => branch.name = name

/-- Position among the branches of a block. -/
def position : Branch → Nat
  | .first => 0
  | .second => 1

theorem ofName?_eq_some_iff {text : String} {branch : Branch} :
    ofName? text = some branch ↔ branch.name = text := by
  constructor
  · intro found
    simpa using List.find?_some found
  · rintro rfl
    cases branch <;> decide

end Branch

end BlockGraph
