import EasyDds.Lib.Linked
import EasyDds.Rtps.Bitmap.Range
import EasyDds.Rtps.Common

/-!
Reassembly of a fragmented change. The list of missing fragments is kept in the payload itself: the
region of each missing fragment holds the index of the one that follows it. Loops that follow this
list take a bound on their rounds and give `none` if it is reached.
-/

namespace EasyDds.Rtps

namespace CacheChange

/-- `next_fragment_pointer`; the mask `~3u` keeps 32 bits of the offset. -/
def nextFragmentPointer (fragmentSize fragmentIndex : Nat) : Nat :=
  (fragmentSize * fragmentIndex + 3) % 2 ^ 32 / 4 * 4

/-- `get_next_missing_fragment`, as a little-endian host reads it. -/
def getNextMissingFragment (c : CacheChange) (fragmentIndex : Nat) : Nat :=
  ofLittleEndian
    (c.serializedPayload.data.slice (nextFragmentPointer c.fragmentSize fragmentIndex) 4)

def setNextMissingFragment (c : CacheChange) (fragmentIndex nextFragmentIndex : Nat) :
    CacheChange :=
  { c with
    serializedPayload := { c.serializedPayload with
      data := c.serializedPayload.data.write (nextFragmentPointer c.fragmentSize fragmentIndex)
        (littleEndian 4 nextFragmentIndex) } }

def countFragments (length fragmentSize : Nat) : Nat :=
  (length + fragmentSize - 1) % 2 ^ 32 / fragmentSize

def setFragmentSize (c : CacheChange) (fragmentSize : Nat) (createFragmentList : Bool) :
    CacheChange :=
  let count :=
    if 0 < fragmentSize then countFragments c.serializedPayload.length fragmentSize else 0
  let sized : CacheChange :=
    { c with fragmentSize := fragmentSize, fragmentCount := count, firstMissingFragment := 0 }
  if createFragmentList then
    (List.range count).foldl (fun d i => d.setNextMissingFragment i (i + 1)) sized
  else { sized with firstMissingFragment := count }

def FragmentsCounted (c : CacheChange) : Prop :=
  c.fragmentCount =
    if 0 < c.fragmentSize then countFragments c.serializedPayload.length c.fragmentSize else 0

/-- The second branch of `received_fragments`: unlinks the fragments from `initial` on and below
`last` behind the last missing fragment before them. -/
def unlinkFragments (fuel : Nat) (c : CacheChange) (initial last : Nat) :
    Option (Bool × CacheChange) :=
  match findBefore c.getNextMissingFragment initial fuel c.firstMissingFragment with
  | none => none
  | some none => some (false, c)
  | some (some current) =>
    let nextFrag := c.getNextMissingFragment current
    match skipBelow c.getNextMissingFragment last fuel nextFrag with
    | none => none
    | some nextMissing =>
      -- `at_least_one_changed` is set in every round, so it says that the loop was entered.
      if nextFrag < last then some (true, c.setNextMissingFragment current nextMissing)
      else some (false, c)

def receivedFragments (fuel : Nat) (c : CacheChange) (initial num : Nat) :
    Option (Bool × CacheChange) :=
  if 0 < c.fragmentSize ∧ initial < c.fragmentCount then
    let last := min ((initial + num) % 2 ^ 32) c.fragmentCount
    if initial ≤ c.firstMissingFragment then
      match skipBelow c.getNextMissingFragment last fuel c.firstMissingFragment with
      | none => none
      | some first =>
        some (decide (c.firstMissingFragment < last), { c with firstMissingFragment := first })
    else unlinkFragments fuel c initial last
  else some (false, c)

structure Copy where
  offset : Nat
  length : Nat

structure Added where
  result : Bool
  change : CacheChange
  copied : Option Copy

def fill (d : CacheChange) (offset : Nat) (bytes : List UInt8) : CacheChange :=
  { d with
    serializedPayload := { d.serializedPayload with
      data := d.serializedPayload.data.write offset bytes } }

def storeFragments (fuel : Nat) (c : CacheChange) (incoming : SerializedPayload)
    (offset length initial num : Nat) : Option Added :=
  match receivedFragments fuel c initial num with
  | none => none
  | some (false, d) => some ⟨d.isFullyAssembled, d, none⟩
  | some (true, d) =>
    let filled := d.fill offset (incoming.data.slice 0 length)
    some ⟨filled.isFullyAssembled, filled, some ⟨offset, length⟩⟩

def addFragments (fuel : Nat) (c : CacheChange) (incoming : SerializedPayload)
    (fragmentStartingNum fragmentsInSubmessage : Nat) : Option Added :=
  let initial := (fragmentStartingNum + 2 ^ 32 - 1) % 2 ^ 32
  let originalOffset := initial * c.fragmentSize % 2 ^ 32
  let lastFragmentIndex := (fragmentStartingNum + fragmentsInSubmessage + 2 ^ 32 - 1) % 2 ^ 32
  if c.fragmentCount < lastFragmentIndex then some ⟨false, c, none⟩
  else
    let wholeLength := c.fragmentSize * fragmentsInSubmessage % 2 ^ 32
    if lastFragmentIndex < c.fragmentCount ∧ incoming.length < wholeLength then
      some ⟨false, c, none⟩
    else
      let incomingLength :=
        if lastFragmentIndex < c.fragmentCount then wholeLength
        else (c.serializedPayload.length + 2 ^ 32 - originalOffset) % 2 ^ 32
      if c.serializedPayload.length < (originalOffset + incomingLength) % 2 ^ 32 then
        some ⟨false, c, none⟩
      else
        storeFragments fuel c incoming originalOffset incomingLength initial fragmentsInSubmessage

def getMissingFragments (fuel : Nat) (c : CacheChange) : Option (BitmapRange Nat) :=
  (visitBelow c.getNextMissingFragment c.fragmentCount fuel c.firstMissingFragment).map
    (List.foldl (fun set fragment => set.add (fragment + 1))
      (BitmapRange.setBase ((c.firstMissingFragment + 1) % 2 ^ 32)))

end CacheChange

end EasyDds.Rtps
