import BlockGraph.Outline.Listing
import Mathlib.Data.List.Basic

/-!
Text literals are read back. A literal ends at the first quote without a backslash of its own, so a
reader finds its end, takes the backslashes away, and knows what stands behind it, whatever quotes and
backslashes the text has. On the line of an input, behind the name, that gives the text of the shadow
and the rest of the line.
-/

set_option autoImplicit false

namespace BlockGraph

namespace Text

/-- Puts `replacement` in the place of each `c`. -/
def replaceChar (c : Char) (replacement text : List Char) : List Char :=
  text.flatMap fun other => if other = c then replacement else [other]

/-- One pass does what two replacements do, that of backslashes before that of quotes. In the other
order the backslashes in front of the quotes would be doubled. -/
theorem escapeQuotes_eq_replaceChar (text : List Char) :
    escapeQuotes text = replaceChar '"' ['\\', '"'] (replaceChar '\\' ['\\', '\\'] text) := by
  unfold replaceChar
  induction text with
  | nil => rfl
  | cons c rest ih =>
    rw [escapeQuotes, List.flatMap_cons, List.flatMap_append, ← ih]
    by_cases isSlash : c = '\\'
    · subst isSlash
      rfl
    · by_cases isQuote : c = '"'
      · subst isQuote
        rfl
      · simp [isSlash, isQuote]

/-- What stands before and behind the closing quote. Behind a backslash any character stands for
itself. -/
def unescape? : List Char → Option (List Char × List Char)
  | [] => none
  | '"' :: rest => some ([], rest)
  | '\\' :: c :: rest => (unescape? rest).map fun (text, later) => (c :: text, later)
  | c :: rest => (unescape? rest).map fun (text, later) => (c :: text, later)

/-- A literal at the start of a text, without its quotes, and what follows it. -/
def unquote? (text : String) : Option (String × String) :=
  match text.toList with
  | '"' :: rest =>
    (unescape? rest).map fun (literal, later) => (String.ofList literal, String.ofList later)
  | _ => none

theorem unescape?_escapeQuotes (text later : List Char) :
    unescape? (escapeQuotes text ++ '"' :: later) = some (text, later) := by
  induction text with
  | nil => rfl
  | cons c rest ih =>
    rw [escapeQuotes]
    split
    · rw [List.cons_append, List.cons_append, unescape?, ih]
      rfl
    · -- Neither a quote nor a backslash: the character stands for itself.
      rename_i plain
      rw [not_or] at plain
      rw [List.cons_append, unescape?, ih]
      · rfl
      · exact plain.2
      · intro _ _ isSlash
        exact absurd isSlash plain.1

theorem unquote?_quote (text later : String) : unquote? (quote text ++ later) = some (text, later) := by
  have opened : (quote text ++ later).toList =
      '"' :: (escapeQuotes text.toList ++ '"' :: later.toList) := by
    simp [quote]
  simp [unquote?, opened, unescape?_escapeQuotes]

end Text

namespace Outline

/-- What stands on the line of an input before its value. -/
def inputLead (name : String) (depth : Nat) : String :=
  propertyIndent depth ++ s!"- input {name}: "

/-- The text literal on the line of an input, and what follows it there. -/
def literalOn? (name : String) (depth : Nat) (line : String) : Option (String × String) :=
  ((inputLead name depth).toList.isPrefixOf? line.toList).bind fun value =>
    Text.unquote? (String.ofList value)

theorem literalOn?_inputLead (name : String) (depth : Nat) (value : String) :
    literalOn? name depth (inputLead name depth ++ value) = Text.unquote? value := by
  have split : (inputLead name depth).toList.isPrefixOf? (inputLead name depth ++ value).toList =
      some value.toList := by
    rw [List.isPrefixOf?_eq_some_iff_append_eq, String.toList_append]
  rw [literalOn?, split, Option.bind_some, String.ofList_toList]

variable {shadow : Block} {field : Field}

/-- The line of a text shadow: the literal, the type of the shadow, and the choices if there are any. -/
theorem line_text (isText : Catalog.LiteralType.ofOpcode? shadow.opcode = some .text)
    (held : shadow.fields.get? "TEXT" = some field) (context : ChoiceContext)
    (options : ListingOptions) (name id : String) (depth : Nat) :
    line context options (.literal name id shadow depth) = inputLead name depth ++
      (Text.quote field.value ++ (" (" ++ shadow.opcode ++ ")" ++
        choiceSuffix context options (.literal name id shadow depth))) := by
  have shown : shadowText shadow = Text.quote field.value ++ " (" ++ shadow.opcode ++ ")" := by
    simp [shadowText, shadowValue?, isText, held, toString]
  simp [line, plainLine, idSuffix, inputLead, shown, String.append_assoc]

/-- Quoting escapes backslashes and then quotes, and a quoted text can be told from all that follows it:
two texts that start with literals are equal only if the literals and what follows them are. On the
line of a text shadow the value and the rest of the line are read back. -/
theorem literals_read_back :
    (∀ text, Text.quote text = "\"" ++ String.ofList (Text.replaceChar '"' ['\\', '"']
      (Text.replaceChar '\\' ['\\', '\\'] text.toList)) ++ "\"") ∧
    (∀ first second firstRest secondRest : String,
      Text.quote first ++ firstRest = Text.quote second ++ secondRest ↔
        first = second ∧ firstRest = secondRest) ∧
    ∀ (shadow : Block) (field : Field),
      Catalog.LiteralType.ofOpcode? shadow.opcode = some .text →
      shadow.fields.get? "TEXT" = some field →
      ∀ (context : ChoiceContext) (options : ListingOptions) (name id : String) (depth : Nat),
        literalOn? name depth (line context options (.literal name id shadow depth)) =
          some (field.value, " (" ++ shadow.opcode ++ ")" ++
            choiceSuffix context options (.literal name id shadow depth)) := by
  refine ⟨?_, ?_, ?_⟩
  · intro text
    rw [← Text.escapeQuotes_eq_replaceChar]
    apply String.toList_inj.mp
    simp [Text.quote]
  · intro first second firstRest secondRest
    constructor
    · intro same
      have readings := congrArg Text.unquote? same
      rw [Text.unquote?_quote, Text.unquote?_quote] at readings
      cases readings
      exact ⟨rfl, rfl⟩
    · rintro ⟨rfl, rfl⟩
      rfl
  · intro shadow field isText held context options name id depth
    rw [line_text isText held, literalOn?_inputLead, Text.unquote?_quote]

-- A text that ends with a backslash does not swallow its closing quote.
example : literalOn? "MESSAGE" 0 "  - input MESSAGE: \"say \\\"hi\\\" \\\\\" (text)" =
    some ("say \"hi\" \\", " (text)") := by
  decide +kernel

end Outline

end BlockGraph
