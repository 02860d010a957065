import BlockGraph.Document.Writer
import BlockGraph.Session.Batch
import BlockGraph.Storage

/-!
Project files. A document is the JSON text of a project; an archive holds that text under a fixed
name, and beside it the assets of the project.
-/

set_option autoImplicit false

namespace BlockGraph.ProjectFile

/-- Entry of an archive that holds the document. -/
def documentName : String := "project.json"

structure Loaded where
  project : Project
  assets : Dict ByteArray

def isDirectoryName (name : String) : Bool :=
  name.toList.getLast? = some '/'

def loadDocument (storage : Storage) (path : String) : Except Failure Loaded := do
  let some text := storage.readText? path
    | throw { contexts := [s!"Failed to open '{path}'."], cause := .storage }
  let some document := Json.parse? text
    | throw { contexts := [s!"'{path}' is not valid JSON."], cause := .json }
  return ⟨← Batch.readProject document, ∅⟩

/-- The document of an archive; one that cannot be opened counts as missing. -/
def archiveDocument (entries : List Archive.Entry) (path : String) : Except Failure Json := do
  let named := entries.filter fun entry => entry.name = documentName
  let data ←
    match named.getLast?.map Archive.Entry.contents with
    | some (.ok data) => pure data
    | some (.error .damaged) => throw { cause := .storage }
    | some (.error .unsupported) | none =>
      throw (.ofMessage s!"project.json not found in '{path}'.")
  let some text := String.fromUTF8? data | throw { cause := .storage }
  let some document := Json.parse? text
    | throw { contexts := [s!"Invalid project.json in '{path}'."], cause := .json }
  return document

/-- An asset by its name. -/
def readAsset (entry : Archive.Entry) : Except Failure (String × ByteArray) :=
  match entry.contents with
  | .ok data => .ok (entry.name, data)
  | .error .damaged => .error { cause := .storage }
  | .error .unsupported => .error { cause := .archive }

/-- Entries beside the document, directories left out; of two with one name the last counts. -/
def archiveAssets (entries : List Archive.Entry) : Except Failure (Dict ByteArray) := do
  let assets := entries.filter fun entry =>
    entry.name ≠ documentName && !isDirectoryName entry.name
  return Dict.ofList (← assets.mapM readAsset)

def loadArchive (storage : Storage) (path : String) : Except Failure Loaded := do
  if (storage.lookup? path).isNone then
    throw { contexts := [s!"Failed to open '{path}'."], cause := .storage }
  let some entries := (storage.contents? path).bind Contents.entries?
    | throw { contexts := [s!"'{path}' is not a valid zip/.sb3 file."], cause := .archive }
  let document ← archiveDocument entries path
  let assets ← archiveAssets entries
  return ⟨← Batch.readProject document, assets⟩

def load (storage : Storage) (path : String) : Except Failure Loaded :=
  if Path.isDocument path then loadDocument storage path else loadArchive storage path

/-- Contents of the file for a project. In an archive the document comes first and the assets
follow by name; no asset may have the name of the document. -/
def contents (loaded : Loaded) (path : String) : Except Failure Contents :=
  let document := Document.writeProject loaded.project
  if Path.isDocument path then .ok (.bytes document.pretty.toUTF8)
  else if loaded.assets.contains documentName then .error { cause := .archive }
  else .ok (.archive ((documentName, document.render.toUTF8) :: loaded.assets.entries))

def save (storage : Storage) (loaded : Loaded) (path : String) : Except Failure Storage := do
  let some storage := storage.makeParents? path | throw { cause := .storage }
  let contents ← contents loaded path
  let some storage := storage.write? path contents
    | throw { contexts := [s!"Failed to write '{path}'."], cause := .storage }
  return storage

/-- The absolute path of a file that has to be there. -/
def resolve (storage : Storage) (path : String) : Except Failure String :=
  match storage.canonical? path with
  | some absolute => .ok absolute
  | none => .error (.ofMessage s!"Input file not found: '{path}'.")

end BlockGraph.ProjectFile
