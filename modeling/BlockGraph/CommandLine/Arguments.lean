/-!
Arguments of the command line. They are read from left to right; the value of an option is checked
when the next option or input is read, or at the end.
-/

set_option autoImplicit false

namespace BlockGraph.CommandLine

structure Arguments where
  /-- Project to load. -/
  input : String
  /-- File with requests that are answered before the listing. -/
  commands : Option String := none
  /-- Target to edit and list. -/
  target : Option String := none
  withIds : Bool := false
  noChoices : Bool := false
  /-- Print the whole answer instead of the listing. -/
  json : Bool := false
  /-- File to save the project to. -/
  save : Option String := none
  verbose : Bool := false
deriving DecidableEq, Repr

inductive UsageFault where
  | missingInput
  | unknownArgument
  | invalidValue
  | conflict
  | unneededValue
  | help
deriving DecidableEq, Repr

namespace UsageFault

/-- What the user is told; help is no mistake, so nothing is said about it. -/
def message? : UsageFault → Option String
  | missingInput => some "the project to load is missing"
  | unknownArgument => some "an argument is unknown"
  | invalidValue => some "a value is missing or empty"
  | conflict => some "an option is given twice"
  | unneededValue => some "an option takes no value"
  | help => none

end UsageFault

def helpText : String :=
  "Inspect and edit block graphs: numbered pseudocode out, edits of fields and blocks in.\n" ++
  "\n" ++
  "Usage: blockgraph [OPTIONS] <INPUT>\n" ++
  "\n" ++
  "  <INPUT>            Project to load, an archive or a .json document\n" ++
  "  --commands <FILE>  Requests in JSON that are answered in order before printing\n" ++
  "  --target <NAME>    Sprite or stage to edit and print\n" ++
  "  --with-ids         Append block ids to the lines of blocks\n" ++
  "  --no-choices       Leave the choices out of the lines of fields\n" ++
  "  --json             Print the whole answer as JSON instead of pseudocode\n" ++
  "  --save <PATH>      Write the edited project, as an archive or a .json document\n" ++
  "  -v, --verbose      Log more\n" ++
  "  -h, --help         Print this help"

/-- Options that stand for themselves. -/
inductive Switch where
  | withIds
  | noChoices
  | json
  | verbose
  | help
deriving DecidableEq, Repr

/-- What takes a value: the input itself, or an option. -/
inductive Valued where
  | input
  | commands
  | target
  | save
deriving DecidableEq, Repr

def switchNames : List (String × Switch) :=
  [("with-ids", .withIds), ("no-choices", .noChoices), ("json", .json), ("verbose", .verbose),
    ("help", .help)]

def switchLetters : List (Char × Switch) :=
  [('v', .verbose), ('h', .help)]

def valuedNames : List (String × Valued) :=
  [("commands", .commands), ("target", .target), ("save", .save)]

/-- What has been read so far. -/
structure Progress where
  switches : List Switch := []
  values : List (Valued × String) := []
  /-- The last thing that takes a value, with the value if it has come. -/
  pending : Option (Valued × Option String) := none
  /-- Everything that follows is an input. -/
  onlyInputs : Bool := false
  inputSeen : Bool := false

namespace Progress

def value? (progress : Progress) (valued : Valued) : Option String :=
  (progress.values.find? fun entry => entry.1 = valued).map Prod.snd

/-- Accepts a value. Only the name of a target may be empty. -/
def store (progress : Progress) (valued : Valued) (value : Option String) :
    Except UsageFault Progress :=
  match value with
  | none => .error .invalidValue
  | some value =>
    if (progress.value? valued).isSome then .error .conflict
    else if value = "" ∧ valued ≠ .target then .error .invalidValue
    else .ok { progress with values := (valued, value) :: progress.values }

def settle (progress : Progress) : Except UsageFault Progress :=
  match progress.pending with
  | none => .ok progress
  | some (valued, value) => { progress with pending := none }.store valued value

def flip (progress : Progress) (switch : Switch) : Except UsageFault Progress := do
  let progress ← progress.settle
  if switch = .help then throw .help
  if progress.switches.contains switch then throw .conflict
  return { progress with switches := switch :: progress.switches }

/-- An input; there is only one. -/
def input (progress : Progress) (value : String) : Except UsageFault Progress := do
  if progress.inputSeen then throw .unknownArgument
  let progress ← progress.settle
  return { progress with pending := some (.input, some value), inputSeen := true }

/-- An option by its name, with the value behind an equals sign if there is one. -/
def long (progress : Progress) (name : String) (attached : Option String) :
    Except UsageFault Progress := do
  match switchNames.find? fun entry => entry.1 = name with
  | some (_, switch) =>
    if attached.isSome then throw .unneededValue
    progress.flip switch
  | none =>
    match valuedNames.find? fun entry => entry.1 = name with
    | none => throw .unknownArgument
    | some (_, valued) =>
      let progress ← progress.settle
      match attached with
      | some value => progress.store valued (some value)
      | none => return { progress with pending := some (valued, none) }

def letter (progress : Progress) (c : Char) : Except UsageFault Progress :=
  match switchLetters.find? fun entry => entry.1 = c with
  | none => .error .unknownArgument
  | some (_, switch) => progress.flip switch

def feed (progress : Progress) (argument : String) : Except UsageFault Progress :=
  if progress.onlyInputs then progress.input argument
  else
    match argument.toList with
    | ['-', '-'] => .ok { progress with onlyInputs := true }
    | '-' :: '-' :: rest =>
      let name := rest.takeWhile fun c => c ≠ '='
      let attached :=
        if name.length < rest.length then some (String.ofList (rest.drop (name.length + 1)))
        else none
      progress.long (String.ofList name) attached
    | '-' :: c :: rest => (c :: rest).foldlM letter progress
    | _ =>
      match progress.pending with
      -- An option that still waits for its value comes before the input.
      | some (valued, none) => .ok { progress with pending := some (valued, some argument) }
      | _ => progress.input argument

def finish (progress : Progress) : Except UsageFault Arguments := do
  let progress ← progress.settle
  match progress.value? .input with
  | none => throw .missingInput
  | some input =>
    return {
      input := input
      commands := progress.value? .commands
      target := progress.value? .target
      withIds := progress.switches.contains .withIds
      noChoices := progress.switches.contains .noChoices
      json := progress.switches.contains .json
      save := progress.value? .save
      verbose := progress.switches.contains .verbose }

end Progress

/-- Reads the arguments after the name of the program. -/
def parse (arguments : List String) : Except UsageFault Arguments := do
  let progress ← arguments.foldlM Progress.feed {}
  progress.finish

end BlockGraph.CommandLine
