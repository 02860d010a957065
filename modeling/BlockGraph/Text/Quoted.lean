/-!
Quoted text literals. Inside the quotes a backslash stands before each backslash and each quote,
so the closing quote is the first one without a backslash of its own.
-/

set_option autoImplicit false

namespace BlockGraph.Text

/-- A backslash goes before each backslash and each quote. -/
def escapeQuotes : List Char → List Char
  | [] => []
  | c :: rest =>
    if c = '\\' ∨ c = '"' then '\\' :: c :: escapeQuotes rest else c :: escapeQuotes rest

/-- The literal for `text`, quotes included. -/
def quote (text : String) : String :=
  String.ofList ('"' :: escapeQuotes text.toList ++ ['"'])

end BlockGraph.Text
