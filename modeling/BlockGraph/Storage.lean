import BlockGraph.Archive.Reader
import BlockGraph.Archive.Writer
import BlockGraph.Dict
import BlockGraph.Storage.Path

/-!
Storage: a tree of files and directories, and the directory from which relative paths start. A file
holds bytes, or the entries of an archive that was built here.
-/

set_option autoImplicit false

namespace BlockGraph

inductive Contents where
  | bytes (data : ByteArray)
  | archive (entries : List (String × ByteArray))

namespace Contents

def toBytes : Contents → ByteArray
  | .bytes data => data
  | .archive entries => Archive.encode entries

/-- Entries of a file that is an archive. -/
def entries? : Contents → Option (List Archive.Entry)
  | .archive entries => some (entries.map fun (name, data) => ⟨name, .ok data⟩)
  | .bytes data => Archive.decode? data

/-- Text of a file that holds some. -/
def text? (contents : Contents) : Option String :=
  String.fromUTF8? contents.toBytes

end Contents

inductive Node where
  | file (contents : Contents)
  | directory

/-- A place in the tree: names from the top down. -/
abbrev Place := List String

structure Storage where
  /-- The working directory. -/
  home : Place
  /-- Nodes below the top, by the names of their places joined with slashes. -/
  nodes : Dict Node

namespace Storage

def key (place : Place) : String :=
  "/".intercalate place

def insert (storage : Storage) (place : Place) (node : Node) : Storage :=
  { storage with nodes := storage.nodes.insert (key place) node }

/-- Storage that has nothing but the working directory. -/
def ofHome (home : Place) : Storage :=
  (List.range home.length).foldl
    (fun storage depth => storage.insert (home.take (depth + 1)) .directory) ⟨home, ∅⟩

def node? (storage : Storage) (place : Place) : Option Node :=
  if place.isEmpty then some .directory else storage.nodes.get? (key place)

def isDirectory (storage : Storage) (place : Place) : Bool :=
  match storage.node? place with
  | some .directory => true
  | _ => false

/-- The place that a path starts from. -/
def start (storage : Storage) (path : String) : Place :=
  if Path.isAbsolute path then [] else storage.home

/-- One step from a directory. -/
def enter? (storage : Storage) (place : Place) (part : String) : Option Place :=
  if !storage.isDirectory place then none
  else if Path.isIdle part then some place
  else if part = ".." then some place.dropLast
  else if Path.isName part then some (place ++ [part])
  else none

/-- The place that a path leads to, whether or not there is anything. -/
def locate? (storage : Storage) (path : String) : Option Place :=
  if path = "" || Path.isTooLong path then none
  else (Path.parts path).foldlM storage.enter? (storage.start path)

def lookup? (storage : Storage) (path : String) : Option Node := do
  storage.node? (← storage.locate? path)

def contents? (storage : Storage) (path : String) : Option Contents :=
  match storage.lookup? path with
  | some (.file contents) => some contents
  | _ => none

def canonical? (storage : Storage) (path : String) : Option String := do
  let place ← storage.locate? path
  match storage.node? place with
  | some (.file _) => some ("/" ++ key place)
  | _ => none

def readText? (storage : Storage) (path : String) : Option String :=
  (storage.contents? path).bind Contents.text?

/-- One step that makes a missing directory. -/
def enterNew? (state : Storage × Place) (part : String) : Option (Storage × Place) := do
  let (storage, place) := state
  let next ← storage.enter? place part
  match storage.node? next with
  | some .directory => return (storage, next)
  | some (.file _) => none
  | none => return (storage.insert next .directory, next)

/-- Makes the directories that a file at `path` needs. -/
def makeParents? (storage : Storage) (path : String) : Option Storage := do
  let parts := Path.directoryParts path
  guard (!Path.isTooLong ("/".intercalate parts))
  let (storage, _) ← parts.foldlM enterNew? (storage, storage.start path)
  return storage

/-- Writes a file into a directory that is there. -/
def write? (storage : Storage) (path : String) (contents : Contents) : Option Storage := do
  let place ← storage.locate? path
  if storage.isDirectory place then none
  else return storage.insert place (.file contents)

end Storage

end BlockGraph
