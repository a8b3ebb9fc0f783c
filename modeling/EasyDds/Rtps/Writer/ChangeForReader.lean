import EasyDds.Rtps.Fragment.Assembly

/-!
The state of a change with respect to one matched reader.
-/

namespace EasyDds.Rtps

inductive ChangeForReaderStatus
  | unsent
  | requested
  | unacknowledged
  | acknowledged
  | underway
deriving DecidableEq, Repr

structure ChangeForReader where
  status : ChangeForReaderStatus
  change : CacheChange
  unsentFragments : BitmapRange Nat
  delivered : Bool

namespace ChangeForReader

def sequenceNumber (c : ChangeForReader) : Int := c.change.sequenceNumber

/-- All fragments, as far as the window reaches; a change that is not fragmented keeps the set it
has. -/
def allFragments (change : CacheChange) (fragments : BitmapRange Nat) : BitmapRange Nat :=
  if change.fragmentSize ≠ 0 then
    (BitmapRange.setBase 1).addRange 1 (wrap32 (change.fragmentCount + 1))
  else fragments

def ofChange (change : CacheChange) : ChangeForReader where
  status := .unsent
  change := change
  unsentFragments := allFragments change (BitmapRange.setBase 0)
  delivered := false

def setStatus (c : ChangeForReader) (status : ChangeForReaderStatus) : ChangeForReader :=
  { c with status := status }

def getNextUnsentFragment (c : ChangeForReader) : Nat :=
  if c.unsentFragments.empty then wrap32 (c.change.fragmentCount + 1) else c.unsentFragments.min

def markAllFragmentsAsUnsent (c : ChangeForReader) : ChangeForReader :=
  { c with unsentFragments := allFragments c.change c.unsentFragments }

def slide (fragments : BitmapRange Nat) (fragmentCount : Nat) : BitmapRange Nat :=
  (fragments.baseUpdate fragments.min).addRange (wrap32 (fragments.max + 1))
    (wrap32 (fragmentCount + 1))

/-- `markFragmentsAsSent`. The window runs on until all fragments have been delivered once. -/
def markFragmentsAsSent (c : ChangeForReader) (sentFragment : Nat) : ChangeForReader :=
  let rest := c.unsentFragments.remove sentFragment
  if !c.delivered && !rest.empty && decide (rest.max < c.change.fragmentCount) then
    { c with unsentFragments := slide rest c.change.fragmentCount }
  else { c with unsentFragments := rest }

/-- `markFragmentsAsUnsent`. Nothing is requested again before all of it has been delivered once. -/
def markFragmentsAsUnsent (c : ChangeForReader) (unsentFragments : BitmapRange Nat) :
    ChangeForReader :=
  if c.delivered then
    if c.unsentFragments.empty then { c with unsentFragments := unsentFragments }
    else
      let window :=
        if unsentFragments.base < c.unsentFragments.base then
          c.unsentFragments.baseUpdate unsentFragments.base
        else c.unsentFragments
      { c with unsentFragments := unsentFragments.forEach.foldl BitmapRange.add window }
  else c

def setDelivered (c : ChangeForReader) : ChangeForReader := { c with delivered := true }

end ChangeForReader

end EasyDds.Rtps
