/-!
Generated identifiers: a stem, an underscore and a number. A counter makes sure that no number is
handed out twice, and numbers whose identifier is already taken are passed over.
-/

set_option autoImplicit false

namespace BlockGraph.Identifier

def make (stem : String) (number : Nat) : String :=
  stem ++ "_" ++ number.repr

/-- The least number above `counter` whose identifier is not taken. Among one more candidates than
there are taken identifiers one is free, so the search may stop at the last of them. -/
def freshNumber (taken : List String) (stem : String) (counter : Nat) : Nat :=
  let offset := (List.range taken.length).find? fun k => make stem (counter + 1 + k) ∉ taken
  counter + 1 + offset.getD taken.length

end BlockGraph.Identifier
