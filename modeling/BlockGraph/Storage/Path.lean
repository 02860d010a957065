/-!
Paths as text: parts divided by slashes, where empty parts and single dots mean nothing.
-/

set_option autoImplicit false

namespace BlockGraph.Path

def parts (path : String) : List String :=
  path.splitOn "/"

/-- A part that stays where it is. -/
def isIdle (part : String) : Bool :=
  part = "" || part = "."

def isAbsolute (path : String) : Bool :=
  path.toList.head? = some '/'

/-- Longest name of a file, in bytes. -/
def longestName : Nat := 255

/-- Longest path, in bytes. -/
def longestPath : Nat := 4095

def isTooLong (path : String) : Bool :=
  longestPath < path.utf8ByteSize

/-- A part that can be the name of a file or directory. -/
def isName (part : String) : Bool :=
  part.utf8ByteSize ≤ longestName && !part.toList.contains '\x00'

/-- Parts without those that mean nothing. -/
def steps (path : String) : List String :=
  (parts path).filter fun part => !isIdle part

def dropIdleEnd (parts : List String) : List String :=
  (parts.reverse.dropWhile isIdle).reverse

/-- Parts of the directory that the last step of a path is taken from. -/
def directoryParts (path : String) : List String :=
  dropIdleEnd (dropIdleEnd (parts path)).dropLast

/-- The last part, unless it leads upwards. -/
def fileName? (path : String) : Option String :=
  (steps path).getLast?.filter fun name => name ≠ ".."

/-- What stands behind the last dot of a file name; a dot in front makes no extension. -/
def extension? (path : String) : Option String := do
  let name ← fileName? path
  let reversed := name.toList.reverse
  let behind := reversed.takeWhile fun c => c ≠ '.'
  let before := (reversed.dropWhile fun c => c ≠ '.').drop 1
  if before.isEmpty then none else some (String.ofList behind.reverse)

/-- Whether a path names a document; any other path names an archive. -/
def isDocument (path : String) : Bool :=
  (extension? path).any fun extension => extension.toLower = "json"

end BlockGraph.Path
