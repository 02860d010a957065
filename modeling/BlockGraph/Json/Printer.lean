import BlockGraph.Json.Value
import BlockGraph.Decimal.Layout

/-!
Text of JSON values, compact on one line or indented by two blanks a level.
-/

set_option autoImplicit false

namespace BlockGraph.Json

/-- Numbers from a hundred-thousandth up to below ten to the sixteenth have no exponent. -/
def realLayout : Decimal.Layout := ⟨-5, 15⟩

def Number.render : Number → String
  | .whole n => toString n
  | .real x => realLayout.number x

def hexDigit (n : Nat) : Char :=
  if n < 10 then Char.ofNat (48 + n) else Char.ofNat (87 + n)

/-- Quotes, backslashes and control characters are escaped, all else stands for itself. -/
def escapeChar (c : Char) : String :=
  match c with
  | '"' => "\\\""
  | '\\' => "\\\\"
  | '\x08' => "\\b"
  | '\x0c' => "\\f"
  | '\n' => "\\n"
  | '\r' => "\\r"
  | '\t' => "\\t"
  | c =>
    if c.toNat < 32 then
      "\\u00" ++ String.ofList [hexDigit (c.toNat / 16), hexDigit (c.toNat % 16)]
    else c.toString

def renderText (text : String) : String :=
  "\"" ++ text.foldl (fun done c => done ++ escapeChar c) "" ++ "\""

mutual

def render : Json → String
  | .null => "null"
  | .bool true => "true"
  | .bool false => "false"
  | .number value => value.render
  | .text value => renderText value
  | .array items => "[" ++ ",".intercalate (renderItems items) ++ "]"
  | .object members => "\x7b" ++ ",".intercalate (renderMembers members) ++ "\x7d"

def renderItems : List Json → List String
  | [] => []
  | item :: rest => item.render :: renderItems rest

def renderMembers : List (String × Json) → List String
  | [] => []
  | (key, value) :: rest => (renderText key ++ ":" ++ value.render) :: renderMembers rest

end

def indentation (level : Nat) : String :=
  String.ofList (List.replicate (2 * level) ' ')

/-- Parts on lines of their own between two brackets. -/
def spread (opening closing : String) (level : Nat) (parts : List String) : String :=
  if parts.isEmpty then opening ++ closing
  else
    let line := "\n" ++ indentation (level + 1)
    opening ++ line ++ ("," ++ line).intercalate parts ++ "\n" ++ indentation level ++ closing

mutual

/-- Indented text of a value that stands at `level`. -/
def renderAt (level : Nat) : Json → String
  | .null => "null"
  | .bool true => "true"
  | .bool false => "false"
  | .number value => value.render
  | .text value => renderText value
  | .array items => spread "[" "]" level (renderItemsAt (level + 1) items)
  | .object members => spread "\x7b" "\x7d" level (renderMembersAt (level + 1) members)

def renderItemsAt (level : Nat) : List Json → List String
  | [] => []
  | item :: rest => item.renderAt level :: renderItemsAt level rest

def renderMembersAt (level : Nat) : List (String × Json) → List String
  | [] => []
  | (key, value) :: rest =>
    (renderText key ++ ": " ++ value.renderAt level) :: renderMembersAt level rest

end

def pretty (value : Json) : String :=
  value.renderAt 0

end BlockGraph.Json
