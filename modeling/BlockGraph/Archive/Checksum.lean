/-!
The cyclic redundancy check of the bytes of an entry.
-/

set_option autoImplicit false

namespace BlockGraph.Archive

def checksumBit (sum : UInt32) : UInt32 :=
  if sum % 2 = 1 then (sum >>> 1) ^^^ 0xedb88320 else sum >>> 1

/-- Eight bits of the check, for each byte that they may start from. -/
def checksumTable : Array UInt32 :=
  Array.ofFn fun byte : Fin 256 =>
    (List.range 8).foldl (fun sum _ => checksumBit sum) byte.val.toUInt32

def checksumByte (sum : UInt32) (byte : UInt8) : UInt32 :=
  checksumTable.getD (sum.toUInt8 ^^^ byte).toNat 0 ^^^ (sum >>> 8)

def checksum (data : ByteArray) : Nat :=
  (data.foldl checksumByte 0xffffffff ^^^ 0xffffffff).toNat

end BlockGraph.Archive
