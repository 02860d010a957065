import BlockGraph.CommandLine.Arguments
import BlockGraph.Session.Batch
import BlockGraph.Storage.ProjectFile

/-!
A run of the command line: load a project, answer the requests of a file, list the target, save the
project. Each stage announces itself with a bar that shows how far the run has come.
-/

set_option autoImplicit false

namespace BlockGraph.CommandLine

/-- What a run prints, and the files it leaves. -/
structure Console where
  output : String := ""
  notices : String := ""
  storage : Storage

abbrev Run := EStateM Failure Console

namespace Run

variable {α : Type}

def check (outcome : Except Failure α) : Run α :=
  match outcome with
  | .ok value => pure value
  | .error failure => throw failure

def printLine (line : String) : Run Unit :=
  modify fun console => { console with output := console.output ++ line ++ "\n" }

def notice (line : String) : Run Unit :=
  modify fun console => { console with notices := console.notices ++ line ++ "\n" }

def barWidth : Nat := 14

/-- A bar of which the share `step / total` is filled, rounded to the nearest cell. -/
def bar (step total : Nat) : String :=
  let filled := min ((step * barWidth + total / 2) / total) barWidth
  "[" ++ String.ofList (List.replicate filled '=' ++ List.replicate (barWidth - filled) '-') ++ "]"

def announce (total step : Nat) (label : String) : Run Unit :=
  notice (s!"[Inspect] {label}... ({step}/{total}) " ++ bar step total)

end Run

/-- Chooses the target called `name`: the first stage if any stage has the name, else a sprite. -/
def selectTarget (session : Session) (name : String) : Except Failure Session :=
  let isStage := session.project.targets.any fun target => target.isStage && target.name = name
  let request : Request :=
    if isStage then ⟨"select_stage", .null⟩
    else ⟨"select_sprite", .ofMembers [("name", .text name)]⟩
  let (answer, session) := session.execute request
  if Envelope.isSuccess answer then .ok session
  else .error (.ofMessage s!"Target '{name}' not found in project.")

def readCommands (storage : Storage) (path : String) : Except Failure (List Request) :=
  match storage.readText? path with
  | none => .error { contexts := [s!"Failed to open '{path}'."], cause := .storage }
  | some text => (Batch.readRequests text).mapError (.within s!"Invalid commands file '{path}'.")

/-- Prints the listing of a session, as text or as the answer to a request. -/
def printListing (asJson : Bool) (session : Session) : Run Session := do
  if asJson then
    let (answer, session) := session.execute ⟨"get_blocks_pseudocode", .null⟩
    Run.printLine answer.pretty
    return session
  else
    match session.project.listing session.editor session.options with
    | .error fault => throw (.ofMessage fault.report.display)
    | .ok listing =>
      Run.printLine listing.pseudocode
      return session

def run (arguments : Arguments) : Run Unit := do
  let extra := arguments.commands.toList.length + arguments.save.toList.length
  let announce := Run.announce (3 + extra)
  announce 1 "Resolving input path"
  let input ← Run.check (ProjectFile.resolve (← get).storage arguments.input)
  announce 2 "Loading project"
  let loaded ← Run.check (ProjectFile.load (← get).storage input)
  let start : Session :=
    { project := loaded.project
      options := { withIds := arguments.withIds, withChoices := !arguments.noChoices } }
  let selected ← Run.check (arguments.target.elim (.ok start) (selectTarget start))
  let edited ←
    match arguments.commands with
    | none => pure selected
    | some path =>
      announce 3 "Applying commands"
      let requests ← Run.check (readCommands (← get).storage path)
      let (answers, session) := selected.executeAll requests
      answers.forM fun answer => Run.printLine answer.render
      pure session
  announce (3 + arguments.commands.toList.length) "Serializing blocks"
  let listed ← printListing arguments.json edited
  if let some path := arguments.save then
    announce (3 + extra) "Writing project"
    let storage ← Run.check
      (ProjectFile.save (← get).storage { loaded with project := listed.project } path)
    modify fun console => { console with storage := storage }

end BlockGraph.CommandLine
