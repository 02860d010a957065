import BlockGraph.Json.Token

/-!
Values from tokens. Containers that are still open form a stack, the innermost on top, and each
token is accepted or refused by what may come next.
-/

set_option autoImplicit false

namespace BlockGraph.Json

/-- An open container with what it holds so far, the last part first. -/
inductive Frame where
  | array (items : List Json)
  | object (members : List (String × Json)) (key : String)

/-- What the next token may be. -/
inductive Expected where
  | value
  | itemOrClose
  | keyOrClose
  | key
  | colon
  | commaOrClose
  | nothing (result : Json)

structure Reader where
  frames : List Frame
  expected : Expected

namespace Reader

/-- Containers that may be open at once. -/
def depthLimit : Nat := 127

def start : Reader := ⟨[], .value⟩

/-- Hands a finished value to the innermost open container. -/
def accept (value : Json) : List Frame → Reader
  | [] => ⟨[], .nothing value⟩
  | .array items :: rest => ⟨.array (value :: items) :: rest, .commaOrClose⟩
  | .object members key :: rest => ⟨.object ((key, value) :: members) key :: rest, .commaOrClose⟩

def openFrame (frames : List Frame) (frame : Frame) (expected : Expected) : Option Reader :=
  if depthLimit ≤ frames.length then none else some ⟨frame :: frames, expected⟩

def beginValue (frames : List Frame) : Token → Option Reader
  | .openArray => openFrame frames (.array []) .itemOrClose
  | .openObject => openFrame frames (.object [] "") .keyOrClose
  | .text value => some (accept (.text value) frames)
  | .scalar value => some (accept value frames)
  | _ => none

def nameMember (key : String) : List Frame → Option Reader
  | .object members _ :: rest => some ⟨.object members key :: rest, .colon⟩
  | _ => none

def closeArray : List Frame → Option Reader
  | .array items :: rest => some (accept (.array items.reverse) rest)
  | _ => none

def closeObject : List Frame → Option Reader
  | .object members _ :: rest => some (accept (ofMembers members.reverse) rest)
  | _ => none

def afterComma : List Frame → Option Reader
  | .array items :: rest => some ⟨.array items :: rest, .value⟩
  | .object members key :: rest => some ⟨.object members key :: rest, .key⟩
  | [] => none

/-- Takes one token; `none` when no value goes on like this. -/
def feed (reader : Reader) (token : Token) : Option Reader :=
  match reader.expected, token with
  | .value, token => beginValue reader.frames token
  | .itemOrClose, .closeArray => closeArray reader.frames
  | .itemOrClose, token => beginValue reader.frames token
  | .keyOrClose, .closeObject => closeObject reader.frames
  | .keyOrClose, .text key => nameMember key reader.frames
  | .key, .text key => nameMember key reader.frames
  | .colon, .colon => some ⟨reader.frames, .value⟩
  | .commaOrClose, .comma => afterComma reader.frames
  | .commaOrClose, .closeArray => closeArray reader.frames
  | .commaOrClose, .closeObject => closeObject reader.frames
  | _, _ => none

def result? (reader : Reader) : Option Json :=
  match reader.expected with
  | .nothing result => some result
  | _ => none

end Reader

/-- The value that a text spells, nothing but gaps around it. -/
def parse? (text : String) : Option Json := do
  let tokens ← tokens? text
  let reader ← tokens.foldlM Reader.feed Reader.start
  reader.result?

end BlockGraph.Json
