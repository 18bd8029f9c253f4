import Formulary.Text.CharSet

/-!
# Ranges of characters as ranges of bytes

The UTF-8 forms of a range of characters are described by few sequences of byte ranges: all
combinations of the bytes of a sequence are forms of characters in the range. For that the range is
cut where the length of the form changes, around the surrogates, and at blocks of 64, 64² and 64³
code points, within which the last bytes run through all their values.

## Main definitions

* `utf8Bytes` — the bytes of a character
* `ByteRange` — bytes between two, both included
* `byteSequences` — the sequences for a range of code points
* `CharSet.byteSequences` — the sequences for a set
-/

namespace Formulary.Text

/-- The bytes of the UTF-8 form of a character. -/
def utf8Bytes (c : Char) : List Nat := (String.utf8EncodeChar c).map UInt8.toNat

/-- All bytes between two, both included. -/
structure ByteRange where
  /-- The least byte. -/
  low : Nat
  /-- The greatest byte. -/
  high : Nat
  deriving DecidableEq, Repr

/-- The ranges of code points whose UTF-8 forms are of one length and hold no surrogate. -/
def formZones : List (Nat × Nat) :=
  [(0, 0x7F), (0x80, 0x7FF), (0x800, 0xD7FF), (0xE000, 0xFFFF), (0x10000, 0x10FFFF)]

/-- The part of a range that lies in a zone. -/
def clip? (low high : Nat) (zone : Nat × Nat) : Option (Nat × Nat) :=
  let low := max low zone.1
  let high := min high zone.2
  if low ≤ high then some (low, high) else none

/-- The sizes of the blocks in which one, two and three bytes run through all their values. -/
def blockSizes : List Nat := [64, 64 * 64, 64 * 64 * 64]

/-- A range cut at blocks: what stands before the first whole block and after the last is cut off,
and the rest is cut at larger blocks. -/
def cutAtBlocks : (sizes : List Nat) → (low high : Nat) → List (Nat × Nat)
  | [], low, high => [(low, high)]
  | size :: sizes, low, high =>
    if low / size = high / size then [(low, high)]
    else
      let first := if low % size = 0 then low else (low / size + 1) * size
      let last := if high % size = size - 1 then high else high / size * size - 1
      (if low < first then [(low, first - 1)] else []) ++
        (if first ≤ last then cutAtBlocks sizes first last else []) ++
        if last < high then [(last + 1, high)] else []

/-- The byte ranges between the forms of two characters, byte by byte. -/
def rangesBetween (low high : Nat) : List ByteRange :=
  List.zipWith .mk (utf8Bytes (Char.ofNat low)) (utf8Bytes (Char.ofNat high))

/-- The sequences of byte ranges for a range of code points. -/
def byteSequences (low high : Nat) : List (List ByteRange) :=
  (formZones.filterMap (clip? low high)).flatMap fun (low, high) =>
    if high < 0x80 then [rangesBetween low high]
    else (cutAtBlocks blockSizes low high).map fun (low, high) => rangesBetween low high

namespace CharSet

/-- The sequences of byte ranges for a set, in ascending order. -/
def byteSequences (s : CharSet) : List (List ByteRange) :=
  s.ranges.flatMap fun (low, high) => Text.byteSequences low high

end CharSet

end Formulary.Text
