import EasyDds.Lib.Bits
import Mathlib.Data.Vector.Basic

/-!
`BitmapRange<T, Diff, 256>`: a set of items at distances 0 to 255 from a base, one bit each in
eight words, the most significant bit first.
-/

namespace EasyDds.Rtps

/-- What the range asks of its items: the order, `T + uint32_t` and the `Diff` functor. A sum that
`inRange` rejects is one whose assertion fails. -/
class RangeItem (T : Type) where
  le : T → T → Bool
  plus : T → Nat → T
  inRange : T → Nat → Bool
  diff : T → T → Nat

open RangeItem

/-- `SequenceNumber_t` by value, with the assertion that the upper half does not overflow;
`SequenceNumberDiff` keeps the low half of a difference. -/
instance : RangeItem Int where
  le a b := decide (a ≤ b)
  plus a n := a + n
  inRange a n := decide (a + n < 2 ^ 63)
  diff a b := ((a - b) % 2 ^ 32).toNat

/-- `FragmentNumber_t`, a `uint32_t`. -/
instance : RangeItem Nat where
  le a b := decide (a ≤ b)
  plus a n := (a + n) % 2 ^ 32
  inRange _ _ := true
  diff a b := (a + 2 ^ 32 - b) % 2 ^ 32

def checkedPlus {T : Type} [RangeItem T] (a : T) (n : Nat) : Option T :=
  if inRange a n then some (plus a n) else none

lemma checkedPlus_eq_some_iff {a b : Int} {n : Nat} :
    checkedPlus a n = some b ↔ a + n < 2 ^ 63 ∧ b = a + n := by
  simp [checkedPlus, inRange, plus, eq_comm]

section Bind

variable {α : Type} {a : Int} {n : Nat} {f : Int → Option α} {x : α}

lemma checkedPlus_bind_eq_some_iff :
    (checkedPlus a n).bind f = some x ↔ a + n < 2 ^ 63 ∧ f (a + n) = some x := by
  simp only [Option.bind_eq_some_iff, checkedPlus_eq_some_iff]
  constructor
  · rintro ⟨_, ⟨hroom, rfl⟩, h⟩
    exact ⟨hroom, h⟩
  · exact fun ⟨hroom, h⟩ => ⟨_, ⟨hroom, rfl⟩, h⟩

lemma checkedPlus_one_bind_eq_some_iff :
    (checkedPlus a 1).bind f = some x ↔ a + 1 < 2 ^ 63 ∧ f (a + 1) = some x :=
  checkedPlus_bind_eq_some_iff

lemma checkedPlus_one_bind (h : a + 1 < 2 ^ 63) : (checkedPlus a 1 >>= f) = f (a + 1) := by
  have hsum : checkedPlus a 1 = some (a + 1) := checkedPlus_eq_some_iff.2 ⟨h, rfl⟩
  rw [hsum, Option.bind_eq_bind, Option.bind_some]

end Bind

abbrev Bitmap := Vector (BitVec 32) 8

namespace Bitmap

def zero : Bitmap := Vector.replicate 8 0

/-- `bitmap_[i]`. -/
def word (m : Bitmap) (i : Nat) : BitVec 32 := m[i]?.getD 0

/-- `bitmap_[i] = w`. -/
def setWord (m : Bitmap) (i : Nat) (w : BitVec 32) : Bitmap := m.setIfInBounds i w

/-- `1u << (31u - d)`. -/
def mask (d : Nat) : BitVec 32 := 1#32 <<< (31 - d)

/-- The copy loops of `shift_map_left`. Word `i` is written after the words from `i` on have been
read, so all of them are taken from the old bitmap. -/
def shiftLeft (m : Bitmap) (nBits : Nat) : Bitmap :=
  let nItems := nBits / 32
  let rest := nBits % 32
  Vector.ofFn fun i =>
    if rest = 0 then
      if i.val + nItems ≤ 7 then m.word (i + nItems) else 0
    else if i.val + nItems < 7 then
      m.word (i + nItems) <<< rest ||| m.word (i + nItems + 1) >>> (32 - rest)
    else if i.val + nItems = 7 then m.word 7 <<< rest
    else 0

/-- The copy loops of `shift_map_right`, which run from the last word down. -/
def shiftRight (m : Bitmap) (nBits : Nat) : Bitmap :=
  let nItems := nBits / 32
  let rest := nBits % 32
  Vector.ofFn fun i =>
    if i.val < nItems then 0
    else if rest = 0 then m.word (i - nItems)
    else if i.val = nItems then m.word 0 >>> rest
    else m.word (i - nItems) >>> rest ||| m.word (i - nItems - 1) <<< (32 - rest)

/-- `calc_maximum_bit_set`: the place after the last set bit in the words below `starting` and
from `minIndex` on. -/
def calcMaximumBitSet (m : Bitmap) (minIndex : Nat) : Nat → Nat
  | 0 => 0
  | i + 1 =>
    if minIndex < i + 1 then
      let bits := m.word i
      if bits ≠ 0 then 32 * i + (leadingZeros (bits &&& ~~~(bits - 1#32)) + 1)
      else calcMaximumBitSet m minIndex i
    else 0

/-- The loop of `add_range` that sets whole masks, with the bits left for the last word. -/
def addMasks (m : Bitmap) (pos nBits : Nat) (mask : BitVec 32) (bitsInMask : Nat) : Nat → Bitmap
  | 0 => m
  | fuel + 1 =>
    if bitsInMask ≤ nBits then
      addMasks (m.setWord pos (m.word pos ||| mask)) (pos + 1) (nBits - bitsInMask)
        (BitVec.allOnes 32) 32 fuel
    else if 0 < nBits then
      m.setWord pos (m.word pos ||| mask &&& (BitVec.allOnes 32 <<< (bitsInMask - nBits)))
    else m

end Bitmap

structure BitmapRange (T : Type) where
  base : T
  rangeMax : T
  bitmap : Bitmap
  numBits : Nat
deriving DecidableEq

namespace BitmapRange

variable {T : Type} [RangeItem T]

variable (r : BitmapRange T)

def ofBase (base : T) (maxBits : Nat) : BitmapRange T :=
  ⟨base, plus base (min maxBits 255), Bitmap.zero, 0⟩

def setBase (base : T) : BitmapRange T := ⟨base, plus base 255, Bitmap.zero, 0⟩

def empty : Bool := decide (r.numBits = 0) 
def max : T := plus r.base ((r.numBits + 2 ^ 32 - 1) % 2 ^ 32) 
def nLongs : Nat := (r.numBits + 31) / 32 
def minFrom (r : BitmapRange T) (item : T) (i : Nat) : Nat → T
  | 0 => r.base
  | n + 1 =>
    let bits := r.bitmap.word i
    if bits ≠ 0 then plus item (leadingZeros bits)
    else minFrom r (plus item 32) (i + 1) n

def min : T := minFrom r r.base 0 r.nLongs 
def isSet (item : T) : Bool :=
  if le r.base item && le item r.rangeMax then
    let d := diff item r.base
    if d < r.numBits then decide (r.bitmap.word (d / 32) &&& Bitmap.mask (d % 32) ≠ 0)
    else false
  else false

def add (item : T) : BitmapRange T :=
  if le r.base item && le item r.rangeMax then
    let d := diff item r.base
    { r with
      numBits := Max.max (d + 1) r.numBits
      bitmap := r.bitmap.setWord (d / 32) (r.bitmap.word (d / 32) ||| Bitmap.mask (d % 32)) }
  else r

/-- `add_range`: the items from `first` up to `last`, the latter excluded. -/
def addRange (first last : T) : BitmapRange T :=
  let lo := if le first r.base then r.base else first
  let hi := if le (plus r.base 256) last then plus r.base 256 else last
  if le hi lo then r
  else
    let offset := diff lo r.base
    let nBits := diff hi lo
    { r with
      numBits := Max.max r.numBits (offset + nBits)
      bitmap := r.bitmap.addMasks (offset / 32) nBits (BitVec.allOnes 32 >>> (offset % 32))
        (32 - offset % 32) 9 }

def remove [DecidableEq T] (r : BitmapRange T) (item : T) : BitmapRange T :=
  if le r.base item && le item r.max then
    let d := diff item r.base
    let cleared :=
      r.bitmap.setWord (d / 32) (r.bitmap.word (d / 32) &&& ~~~(Bitmap.mask (d % 32)))
    { r with
      bitmap := cleared
      numBits := if item = r.max then cleared.calcMaximumBitSet 0 (d / 32 + 1) else r.numBits }
  else r

def shiftMapLeft (nBits : Nat) : BitmapRange T :=
  if r.numBits ≤ nBits then { r with numBits := 0, bitmap := Bitmap.zero }
  else { r with numBits := r.numBits - nBits, bitmap := r.bitmap.shiftLeft nBits }

/-- `shift_map_right`. The highest bit is looked for only if the shift may drop it. -/
def shiftMapRight (nBits : Nat) : BitmapRange T :=
  if 256 ≤ nBits then { r with numBits := 0, bitmap := Bitmap.zero }
  else
    let shifted := r.bitmap.shiftRight nBits
    { r with
      bitmap := shifted
      numBits :=
        if 256 < r.numBits + nBits then shifted.calcMaximumBitSet (nBits / 32) 8
        else r.numBits + nBits }

/-- `base_update`: the items that stay inside the window of the new base are kept. -/
def baseUpdate [DecidableEq T] (r : BitmapRange T) (base : T) : BitmapRange T :=
  if base = r.base then r
  else
    let shifted :=
      if le base r.base then r.shiftMapRight (diff r.base base)
      else r.shiftMapLeft (diff base r.base)
    { shifted with base := base, rangeMax := plus base 255 }

def bitmapGet : Nat × List (BitVec 32) := (r.numBits, (List.range r.nLongs).map r.bitmap.word)

def bitmapSet (numBits : Nat) (words : List (BitVec 32)) : BitmapRange T :=
  let bits := Min.min numBits 256
  let numItems := (bits + 31) / 32
  let copied : Bitmap := Vector.ofFn fun i => if i.val < numItems then words[i.val]?.getD 0 else 0
  let trimmed :=
    if 0 < numBits ∧ numBits % 32 ≠ 0 then
      copied.setWord (numItems - 1)
        (copied.word (numItems - 1) &&& ~~~(BitVec.allOnes 32 >>> (numBits % 32)))
    else copied
  { r with bitmap := trimmed, numBits := trimmed.calcMaximumBitSet 0 numItems }

def itemsFrom (r : BitmapRange T) (item : T) (i : Nat) : Nat → List T
  | 0 => []
  | n + 1 =>
    (drainBits 32 (r.bitmap.word i)).map (plus item) ++ itemsFrom r (plus item 32) (i + 1) n

def forEach : List T := itemsFrom r r.base 0 r.nLongs 
def sumsFrom (r : BitmapRange T) (item : T) (i : Nat) : Nat → Bool
  | 0 => true
  | n + 1 =>
    (drainBits 32 (r.bitmap.word i)).all (inRange item) && inRange item 32 &&
      sumsFrom r (plus item 32) (i + 1) n

/-- The assertions of `for_each`: all its sums are in range, also the one that leads behind the last
word. -/
def forEachAsserts : Bool := sumsFrom r r.base 0 r.nLongs 
end BitmapRange

end EasyDds.Rtps
