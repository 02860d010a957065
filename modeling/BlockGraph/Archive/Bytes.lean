/-!
Numbers in bytes, the lowest byte first, and searches through positions.
-/

set_option autoImplicit false

namespace BlockGraph.Archive

/-- The number of `width` bytes at `offset`. -/
def number? (data : ByteArray) (offset : Nat) : Nat → Option Nat
  | 0 => some 0
  | width + 1 => do
    let low ← data[offset]?
    let high ← number? data (offset + 1) width
    return low.toNat + 256 * high

/-- A number as `width` bytes. -/
def bytes (number : Nat) : Nat → List UInt8
  | 0 => []
  | width + 1 => (number % 256).toUInt8 :: bytes (number / 256) width

def append (output : ByteArray) (more : List UInt8) : ByteArray :=
  more.foldl ByteArray.push output

/-- What the greatest position below a bound gives that gives anything. -/
def searchDown {α : Type} (attempt : Nat → Option α) : Nat → Option α
  | 0 => none
  | position + 1 =>
    match attempt position with
    | some found => some found
    | none => searchDown attempt position

/-- The first of `count` positions from `start` on that passes a test. -/
def searchUp (test : Nat → Bool) (start : Nat) : Nat → Option Nat
  | 0 => none
  | count + 1 => if test start then some start else searchUp test (start + 1) count

/-- Starts the head of an entry. -/
def entrySignature : Nat := 0x04034b50

/-- Starts a line of the directory. -/
def lineSignature : Nat := 0x02014b50

/-- Starts the record at the end. -/
def endSignature : Nat := 0x06054b50

/-- Starts the pointer to a second end record with wider numbers. -/
def wideSignature : Nat := 0x07064b50

end BlockGraph.Archive
