import BlockGraph.Archive.Bytes
import BlockGraph.Archive.Checksum

/-!
Archives as bytes: the entries, each behind its head, a directory with a line for each of them, and
the record at the end. Entries are written without compression.
-/

set_option autoImplicit false

namespace BlockGraph.Archive

/-- The fields that the head of an entry and its line of the directory have in common: format
version, names as UTF-8, no compression, the first day of the calendar, checksum and sizes. -/
def commonFields (name data : ByteArray) : List UInt8 :=
  bytes 20 2 ++ bytes 0x800 2 ++ bytes 0 2 ++ bytes 0 2 ++ bytes 0x21 2 ++
    bytes (checksum data) 4 ++ bytes data.size 4 ++ bytes data.size 4 ++ bytes name.size 2 ++
    bytes 0 2

/-- Attributes of a plain file that its owner may write and all may read. -/
def plainFile : Nat := 0x81a40000

/-- Writes one entry, and adds its line to the directory. -/
def writeEntry (state : ByteArray × ByteArray) (entry : String × ByteArray) :
    ByteArray × ByteArray :=
  let (output, directory) := state
  let name := entry.1.toUTF8
  let common := commonFields name entry.2
  let line := bytes lineSignature 4 ++ bytes 0x314 2 ++ common ++ bytes 0 2 ++ bytes 0 2 ++
    bytes 0 2 ++ bytes plainFile 4 ++ bytes output.size 4
  (append output (bytes entrySignature 4 ++ common) ++ name ++ entry.2,
    append directory line ++ name)

def encode (entries : List (String × ByteArray)) : ByteArray :=
  let (output, directory) := entries.foldl writeEntry (ByteArray.empty, ByteArray.empty)
  let ending := bytes endSignature 4 ++ bytes 0 2 ++ bytes 0 2 ++ bytes entries.length 2 ++
    bytes entries.length 2 ++ bytes directory.size 4 ++ bytes output.size 4 ++ bytes 0 2
  append (output ++ directory) ending

end BlockGraph.Archive
