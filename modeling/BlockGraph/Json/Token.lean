import BlockGraph.Json.Value
import BlockGraph.Decimal.Reading

/-!
Tokens of JSON text. A scan takes one character after the other and remembers which token it is in,
so a text is scanned by folding over its characters.
-/

set_option autoImplicit false

namespace BlockGraph.Json

inductive Token where
  | openArray
  | closeArray
  | openObject
  | closeObject
  | colon
  | comma
  | text (value : String)
  | scalar (value : Json)

namespace Number

/-- Digits taken into a significand until the next one would pass the limit; the rest is left. -/
def takeDigits (significand : Nat) : List Char → Nat × List Char
  | [] => (significand, [])
  | c :: rest =>
    let next := significand * 10 + (c.toNat - 48)
    if next ≤ Decimal.significandLimit then takeDigits next rest else (significand, c :: rest)

/-- Exponent written after the mark: an optional sign and at least one digit. -/
def exponent? (chars : List Char) : Option Int :=
  let (negative, digits) :=
    match chars with
    | '-' :: rest => (true, rest)
    | '+' :: rest => (false, rest)
    | rest => (false, rest)
  if digits.isEmpty || !digits.all Char.isDigit then none
  else
    let magnitude : Int := digits.foldl (fun sum c => sum * 10 + (c.toNat - 48)) (0 : Nat)
    some (if negative then -magnitude else magnitude)

/-- A number without its sign: the whole part, the fraction behind a point, and the exponent. -/
structure Lexeme where
  whole : List Char
  fraction : Option (List Char)
  exponent : Option Int

/-- The whole part has no leading zero, and a point is followed by a digit. -/
def Lexeme.of? (chars : List Char) : Option Lexeme := do
  let whole := chars.takeWhile Char.isDigit
  guard (!whole.isEmpty && (whole.head? ≠ some '0' || whole.length == 1))
  let afterWhole := chars.dropWhile Char.isDigit
  let (fraction, afterFraction) ←
    match afterWhole with
    | '.' :: rest =>
      let digits := rest.takeWhile Char.isDigit
      if digits.isEmpty then none else some (some digits, rest.dropWhile Char.isDigit)
    | rest => some (none, rest)
  match afterFraction with
  | [] => return ⟨whole, fraction, none⟩
  | mark :: rest =>
    guard (mark = 'e' || mark = 'E')
    let exponent ← exponent? rest
    return ⟨whole, fraction, some exponent⟩

/-- Whole numbers within the range of a word stay whole; negative zero and all others are real. -/
def Lexeme.number? (lexeme : Lexeme) (negative : Bool) : Option Number := do
  -- Digits beyond the word are dropped; those of the whole part still count as powers of ten.
  let (significand, dropped) := takeDigits 0 lexeme.whole
  let integral := lexeme.fraction.isNone && lexeme.exponent.isNone && dropped.isEmpty
  if integral && !negative then return .whole significand
  if integral && significand ≠ 0 && significand ≤ signedBound then return .whole (-significand)
  let fraction := lexeme.fraction.getD []
  let (significand, ignored) := takeDigits significand fraction
  let shift : Int := (dropped.length : Int) - (fraction.length - ignored.length : Nat)
  let magnitude ← Decimal.toBinary64? significand (shift + lexeme.exponent.getD 0)
  return .real (if negative then magnitude.neg else magnitude)

def ofChars? : List Char → Option Number
  | '-' :: rest => (Lexeme.of? rest).bind (Lexeme.number? · true)
  | chars => (Lexeme.of? chars).bind (Lexeme.number? · false)

end Number

/-- Place of a scan inside a token. Characters read so far are in reverse order. -/
inductive Place where
  | between
  | number (read : List Char)
  | word (read : List Char)
  | text (read : List Char)
  | escape (read : List Char)
  | code (read : List Char) (lead : Option Nat) (missing value : Nat)
  | pair (read : List Char) (lead : Nat)
  | pairMark (read : List Char) (lead : Nat)

structure Scan where
  place : Place
  /-- Finished tokens, the last one first. -/
  tokens : List Token

namespace Scan

def start : Scan := ⟨.between, []⟩

/-- The four characters that may stand between tokens. -/
def isGap (c : Char) : Bool :=
  c == ' ' || c == '\t' || c == '\n' || c == '\r'

def isNumberChar (c : Char) : Bool :=
  c.isDigit || c == '-' || c == '+' || c == '.' || c == 'e' || c == 'E'

/-- A character outside of any token. -/
def begin (tokens : List Token) (c : Char) : Option Scan :=
  match c with
  | '[' => some ⟨.between, .openArray :: tokens⟩
  | ']' => some ⟨.between, .closeArray :: tokens⟩
  | '\x7b' => some ⟨.between, .openObject :: tokens⟩
  | '\x7d' => some ⟨.between, .closeObject :: tokens⟩
  | ':' => some ⟨.between, .colon :: tokens⟩
  | ',' => some ⟨.between, .comma :: tokens⟩
  | '"' => some ⟨.text [], tokens⟩
  | c =>
    if isGap c then some ⟨.between, tokens⟩
    else if c.isDigit || c == '-' then some ⟨.number [c], tokens⟩
    else if c.isLower then some ⟨.word [c], tokens⟩
    else none

def wordToken? (read : List Char) : Option Token :=
  match String.ofList read.reverse with
  | "null" => some (.scalar .null)
  | "true" => some (.scalar (.bool true))
  | "false" => some (.scalar (.bool false))
  | _ => none

def numberToken? (read : List Char) : Option Token :=
  (Number.ofChars? read.reverse).map fun value => .scalar (.number value)

def hexValue? (c : Char) : Option Nat :=
  if c.isDigit then some (c.toNat - 48)
  else if 'a' ≤ c && c ≤ 'f' then some (c.toNat - 87)
  else if 'A' ≤ c && c ≤ 'F' then some (c.toNat - 55)
  else none

def escaped? (c : Char) : Option Char :=
  match c with
  | '"' => some '"'
  | '\\' => some '\\'
  | '/' => some '/'
  | 'b' => some '\x08'
  | 'f' => some '\x0c'
  | 'n' => some '\n'
  | 'r' => some '\r'
  | 't' => some '\t'
  | _ => none

/-- End of a four-digit code. Codes of surrogates count only as a leading and a trailing one. -/
def finishCode (read : List Char) (lead : Option Nat) (value : Nat) : Option Place :=
  let trailing := 0xdc00 ≤ value && value < 0xe000
  match lead with
  | none =>
    if 0xd800 ≤ value && value < 0xdc00 then some (.pair read value)
    else if trailing then none
    else some (.text (Char.ofNat value :: read))
  | some high =>
    if trailing then
      some (.text (Char.ofNat (0x10000 + (high - 0xd800) * 0x400 + (value - 0xdc00)) :: read))
    else none

/-- Takes one character; `none` when no JSON text goes on like this. -/
def feed (scan : Scan) (c : Char) : Option Scan :=
  match scan.place with
  | .between => begin scan.tokens c
  | .number read =>
    if isNumberChar c then some ⟨.number (c :: read), scan.tokens⟩
    -- A number ends only at the first character behind it, which begins the next token.
    else (numberToken? read).bind fun token => begin (token :: scan.tokens) c
  | .word read =>
    if c.isLower then some ⟨.word (c :: read), scan.tokens⟩
    else (wordToken? read).bind fun token => begin (token :: scan.tokens) c
  | .text read =>
    if c = '"' then some ⟨.between, .text (String.ofList read.reverse) :: scan.tokens⟩
    else if c = '\\' then some ⟨.escape read, scan.tokens⟩
    else if c.toNat < 32 then none
    else some ⟨.text (c :: read), scan.tokens⟩
  | .escape read =>
    if c = 'u' then some ⟨.code read none 4 0, scan.tokens⟩
    else (escaped? c).map fun plain => ⟨.text (plain :: read), scan.tokens⟩
  | .code read lead missing value => do
    let digit ← hexValue? c
    let value := value * 16 + digit
    if missing ≤ 1 then
      let place ← finishCode read lead value
      return ⟨place, scan.tokens⟩
    else return ⟨.code read lead (missing - 1) value, scan.tokens⟩
  | .pair read lead => if c = '\\' then some ⟨.pairMark read lead, scan.tokens⟩ else none
  | .pairMark read lead =>
    if c = 'u' then some ⟨.code read (some lead) 4 0, scan.tokens⟩ else none

/-- Tokens in order, at the end of the text. -/
def finish (scan : Scan) : Option (List Token) :=
  match scan.place with
  | .between => some scan.tokens.reverse
  | .number read => (numberToken? read).map fun token => (token :: scan.tokens).reverse
  | .word read => (wordToken? read).map fun token => (token :: scan.tokens).reverse
  | _ => none

end Scan

def tokens? (text : String) : Option (List Token) :=
  (text.toList.foldlM Scan.feed Scan.start).bind Scan.finish

end BlockGraph.Json
