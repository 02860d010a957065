import BlockGraph.Archive.Bytes
import BlockGraph.Archive.Checksum
import BlockGraph.Archive.Inflate

/-!
Archives from bytes. An archive ends with a record that says where its directory stands, and the
directory says where each entry stands. Other bytes may come before the archive and after it: the
end record is searched from the end of the file, and what it says is refused unless the whole
directory can be read. Archives that need wider numbers than the end record has are not read.
-/

set_option autoImplicit false

namespace BlockGraph.Archive

/-- Why the bytes of an entry cannot be had. -/
inductive EntryFault where
  /-- It is encrypted, or compressed in an unknown way. -/
  | unsupported
  /-- The bytes are not the ones that were stored. -/
  | damaged
deriving DecidableEq, Repr

structure Entry where
  name : String
  contents : Except EntryFault ByteArray

/-- The record at the end. -/
structure EndRecord where
  position : Nat
  disk : Nat
  directoryDisk : Nat
  /-- Number of entries on this disk. -/
  entriesHere : Nat
  entries : Nat
  /-- Where the directory starts, counted from the start of the archive. -/
  offset : Nat

/-- Size of the end record without its comment. -/
def endSize : Nat := 22

/-- The end record at a position; its comment has to be complete. -/
def EndRecord.at? (data : ByteArray) (position : Nat) : Option EndRecord := do
  guard (number? data position 4 = some endSignature)
  let comment ← number? data (position + 20) 2
  guard (position + endSize + comment ≤ data.size)
  return {
    position := position
    disk := ← number? data (position + 4) 2
    directoryDisk := ← number? data (position + 6) 2
    entriesHere := ← number? data (position + 8) 2
    entries := ← number? data (position + 10) 2
    offset := ← number? data (position + 16) 4 }

def pointerSize : Nat := 20

/-- Whether a second end record counts instead of this one. -/
def EndRecord.isWide (data : ByteArray) (record : EndRecord) : Bool :=
  (record.entries = 0xffff || record.offset = 0xffffffff) && pointerSize ≤ record.position &&
    number? data (record.position - pointerSize) 4 = some wideSignature

/-- Where the directory stands in the file: at its first line from the offset on, or for an archive
without entries right before the end record. -/
def EndRecord.directory? (data : ByteArray) (record : EndRecord) : Option Nat :=
  if record.entries = 0 then some (max record.offset record.position)
  else
    searchUp
      (fun position =>
        position + 4 ≤ record.position && number? data position 4 = some lineSignature)
      record.offset (record.position - record.offset)

def decompress (method : Nat) (stored : ByteArray) : Except EntryFault ByteArray :=
  match method with
  | 0 => .ok stored
  | 8 => (inflate? stored).elim (.error .damaged) .ok
  | _ => .error .unsupported

/-- The bytes of an entry, checked against its checksum. -/
def entryContents (flags method sum : Nat) (stored : ByteArray) : Except EntryFault ByteArray := do
  if flags % 2 = 1 then throw .unsupported
  let contents ← decompress method stored
  if checksum contents = sum then return contents else throw .damaged

/-- Where the bytes of an entry start. The entry stands before the directory. -/
def entryStart? (data : ByteArray) (directory head : Nat) : Option Nat := do
  guard (head < directory ∧ number? data head 4 = some entrySignature)
  let nameSize ← number? data (head + 26) 2
  let extraSize ← number? data (head + 28) 2
  let start := head + 30 + nameSize + extraSize
  guard (start ≤ directory)
  return start

/-- The entry of a line of the directory, with the position after the line. `shift` is the number
of bytes before the archive. -/
def entryAt? (data : ByteArray) (directory shift position : Nat) : Option (Entry × Nat) := do
  guard (number? data position 4 = some lineSignature)
  let flags ← number? data (position + 8) 2
  let method ← number? data (position + 10) 2
  let sum ← number? data (position + 16) 4
  let size ← number? data (position + 20) 4
  let nameSize ← number? data (position + 28) 2
  let extraSize ← number? data (position + 30) 2
  let commentSize ← number? data (position + 32) 2
  let head ← number? data (position + 42) 4
  let nameStart := position + 46
  let next := nameStart + nameSize + extraSize + commentSize
  guard (next ≤ data.size)
  let name ← String.fromUTF8? (data.extract nameStart (nameStart + nameSize))
  let start ← entryStart? data directory (head + shift)
  let stored := data.extract start (start + size)
  return (⟨name, entryContents flags method sum stored⟩, next)

/-- Entries of the lines from a position on, `count` of them. -/
def entriesFrom? (data : ByteArray) (directory shift : Nat) :
    Nat → Nat → Option (List Entry)
  | _, 0 => some []
  | position, count + 1 => do
    let (entry, next) ← entryAt? data directory shift position
    let rest ← entriesFrom? data directory shift next count
    return entry :: rest

/-- Entries of the archive whose end record stands at a position. -/
def entriesEndingAt? (data : ByteArray) (position : Nat) : Option (List Entry) := do
  let record ← EndRecord.at? data position
  guard (!record.isWide data)
  let directory ← record.directory? data
  guard (record.disk = record.directoryDisk)
  entriesFrom? data directory (directory - record.offset) directory record.entriesHere

/-- Entries of an archive; `none` if the bytes are none. -/
def decode? (data : ByteArray) : Option (List Entry) :=
  searchDown (entriesEndingAt? data) data.size

end BlockGraph.Archive
