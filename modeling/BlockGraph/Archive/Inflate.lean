/-!
Decompression of a deflated stream: blocks of literal bytes and of copies from what came before,
written with prefix-free codes that either are fixed or stand at the head of the block.
-/

set_option autoImplicit false

namespace BlockGraph.Archive

/-- A stream of bits, each byte from its lowest bit up. -/
structure Bits where
  data : ByteArray
  position : Nat

namespace Bits

def bit? (bits : Bits) : Option (Nat × Bits) := do
  let byte ← bits.data[bits.position / 8]?
  return ((byte.toNat >>> (bits.position % 8)) % 2, { bits with position := bits.position + 1 })

/-- A number of `count` bits, the lowest first. -/
def take? (bits : Bits) : Nat → Option (Nat × Bits)
  | 0 => some (0, bits)
  | count + 1 => do
    let (low, bits) ← bits.bit?
    let (high, bits) ← bits.take? count
    return (low + 2 * high, bits)

def alignByte (bits : Bits) : Bits :=
  { bits with position := (bits.position + 7) / 8 * 8 }

end Bits

/-- A code whose words of one length are consecutive numbers, shorter words before longer ones. -/
structure Code where
  /-- Number of words of each length, from length one on. -/
  counts : List Nat
  /-- Symbols in the order of their words. -/
  symbols : Array Nat

namespace Code

def longest : Nat := 15

/-- The code in which symbol `i` has the `i`-th length; a length of zero means no word. -/
def ofLengths (lengths : List Nat) : Code where
  counts := (List.range longest).map fun length => lengths.count (length + 1)
  symbols :=
    ((List.range longest).flatMap fun length =>
      (lengths.zipIdx.filter fun entry => entry.1 = length + 1).map Prod.snd).toArray

def decodeFrom (symbols : Array Nat) (word first index : Nat) :
    List Nat → Bits → Option (Nat × Bits)
  | [], _ => none
  | count :: rest, bits => do
    let (bit, bits) ← bits.bit?
    let word := 2 * word + bit
    let first := 2 * first
    if word < first + count then
      let symbol ← symbols[index + (word - first)]?
      return (symbol, bits)
    else decodeFrom symbols word (first + count) (index + count) rest bits

/-- The symbol whose word comes next. -/
def decode? (code : Code) (bits : Bits) : Option (Nat × Bits) :=
  decodeFrom code.symbols 0 0 0 code.counts bits

end Code

def fixedLengths : List Nat :=
  List.replicate 144 8 ++ List.replicate 112 9 ++ List.replicate 24 7 ++ List.replicate 8 8

def fixedDistances : List Nat := List.replicate 30 5

/-- Base value and number of extra bits of each copy length. -/
def copyLengths : Array (Nat × Nat) :=
  #[(3, 0), (4, 0), (5, 0), (6, 0), (7, 0), (8, 0), (9, 0), (10, 0), (11, 1), (13, 1), (15, 1),
    (17, 1), (19, 2), (23, 2), (27, 2), (31, 2), (35, 3), (43, 3), (51, 3), (59, 3), (67, 4),
    (83, 4), (99, 4), (115, 4), (131, 5), (163, 5), (195, 5), (227, 5), (258, 0)]

/-- Base value and number of extra bits of each copy distance. -/
def copyDistances : Array (Nat × Nat) :=
  #[(1, 0), (2, 0), (3, 0), (4, 0), (5, 1), (7, 1), (9, 2), (13, 2), (17, 3), (25, 3), (33, 4),
    (49, 4), (65, 5), (97, 5), (129, 6), (193, 6), (257, 7), (385, 7), (513, 8), (769, 8),
    (1025, 9), (1537, 9), (2049, 10), (3073, 10), (4097, 11), (6145, 11), (8193, 12), (12289, 12),
    (16385, 13), (24577, 13)]

/-- Order in which the lengths of the code of code lengths are listed. -/
def lengthOrder : List Nat :=
  [16, 17, 18, 0, 8, 7, 9, 6, 10, 5, 11, 4, 12, 3, 13, 2, 14, 1, 15]

/-- Appends `count` bytes, each a copy of the one `distance` before it. -/
def copyBack (output : ByteArray) (distance : Nat) : Nat → Option ByteArray
  | 0 => some output
  | count + 1 =>
    if distance ≤ output.size then do
      -- A copy may be longer than its distance and then repeats what it has just appended.
      let byte ← output[output.size - distance]?
      copyBack (output.push byte) distance count
    else none

def copyBytes (output : ByteArray) (bits : Bits) : Nat → Option (ByteArray × Bits)
  | 0 => some (output, bits)
  | count + 1 => do
    let (byte, bits) ← bits.take? 8
    copyBytes (output.push byte.toUInt8) bits count

/-- Symbols up to the end of a block, at most `fuel` of them. -/
def readSymbols (literals distances : Code) :
    Nat → ByteArray → Bits → Option (ByteArray × Bits)
  | 0, _, _ => none
  | fuel + 1, output, bits => do
    let (symbol, bits) ← literals.decode? bits
    if symbol < 256 then readSymbols literals distances fuel (output.push symbol.toUInt8) bits
    else if symbol = 256 then return (output, bits)
    else
      let (base, extra) ← copyLengths[symbol - 257]?
      let (more, bits) ← bits.take? extra
      let (symbol, bits) ← distances.decode? bits
      let (baseDistance, extraDistance) ← copyDistances[symbol]?
      let (moreDistance, bits) ← bits.take? extraDistance
      let output ← copyBack output (baseDistance + moreDistance) (base + more)
      readSymbols literals distances fuel output bits

def readNumbers (bits : Bits) (width : Nat) : Nat → Option (List Nat × Bits)
  | 0 => some ([], bits)
  | count + 1 => do
    let (number, bits) ← bits.take? width
    let (numbers, bits) ← readNumbers bits width count
    return (number :: numbers, bits)

/-- Code lengths in reverse order until `total` of them are read, in at most `fuel` steps. -/
def readLengths (code : Code) (total : Nat) :
    Nat → List Nat → Bits → Option (List Nat × Bits)
  | 0, read, bits => if read.length = total then some (read, bits) else none
  | fuel + 1, read, bits =>
    if total ≤ read.length then if read.length = total then some (read, bits) else none
    else do
      let (symbol, bits) ← code.decode? bits
      if symbol < 16 then readLengths code total fuel (symbol :: read) bits
      else
        let (length, width, least) ←
          match symbol, read with
          -- Symbols 17 and 18 stand for runs of zeros, 16 for a run of the length read last.
          | 16, last :: _ => some (last, 2, 3)
          | 17, _ => some (0, 3, 3)
          | 18, _ => some (0, 7, 11)
          | _, _ => none
        let (more, bits) ← bits.take? width
        readLengths code total fuel (List.replicate (least + more) length ++ read) bits

/-- The two codes at the head of a block. -/
def readCodes (bits : Bits) : Option (Code × Code × Bits) := do
  let (literalCount, bits) ← bits.take? 5
  let (distanceCount, bits) ← bits.take? 5
  let (lengthCount, bits) ← bits.take? 4
  let (numbers, bits) ← readNumbers bits 3 (lengthCount + 4)
  let lengthOf (symbol : Nat) : Nat :=
    (((lengthOrder.zip numbers).find? fun entry => entry.1 = symbol).map Prod.snd).getD 0
  let lengthCode := Code.ofLengths ((List.range 19).map lengthOf)
  let total := literalCount + 257 + (distanceCount + 1)
  let (reversed, bits) ← readLengths lengthCode total total [] bits
  let lengths := reversed.reverse
  return (.ofLengths (lengths.take (literalCount + 257)),
    .ofLengths (lengths.drop (literalCount + 257)), bits)

/-- Blocks up to the last one, at most `fuel` of them. -/
def readBlocks (symbolFuel : Nat) : Nat → ByteArray → Bits → Option ByteArray
  | 0, _, _ => none
  | fuel + 1, output, bits => do
    let (last, bits) ← bits.take? 1
    let (kind, bits) ← bits.take? 2
    let (output, bits) ←
      match kind with
      | 0 => do
        let (size, bits) ← bits.alignByte.take? 16
        -- The complement of the size follows it and is not compared.
        let (_, bits) ← bits.take? 16
        copyBytes output bits size
      | 1 =>
        readSymbols (.ofLengths fixedLengths) (.ofLengths fixedDistances) symbolFuel output bits
      | 2 => do
        let (literals, distances, bits) ← readCodes bits
        readSymbols literals distances symbolFuel output bits
      | _ => none
    if last = 1 then return output else readBlocks symbolFuel fuel output bits

/-- The bytes of a deflated stream. Each symbol and each block takes at least one bit. -/
def inflate? (data : ByteArray) : Option ByteArray :=
  let bound := 8 * data.size + 1
  readBlocks bound bound ByteArray.empty ⟨data, 0⟩

end BlockGraph.Archive
