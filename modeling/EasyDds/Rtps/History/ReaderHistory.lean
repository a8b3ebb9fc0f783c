import EasyDds.Lib.LowerBound
import EasyDds.Rtps.Common

/-!
The history of a reader: changes of any number of writers in one vector, inserted by a comparison
that looks at sequence numbers inside a writer and at source timestamps across writers.
-/

namespace EasyDds.Rtps

inductive MemoryPolicy
  | preallocated
  | preallocatedWithRealloc
  | dynamicReserve
  | dynamicReusable
deriving DecidableEq

/-- `ReaderHistory`; it is attached once a reader has set `mp_reader` and `mp_mutex`. -/
structure ReaderHistory where
  attached : Bool
  memoryPolicy : MemoryPolicy
  payloadMaxSize : Nat
  changes : List CacheChange

def historyOrderCmp (lhs rhs : CacheChange) : Bool :=
  if lhs.writerGUID = rhs.writerGUID then decide (lhs.sequenceNumber < rhs.sequenceNumber)
  else lhs.sourceTimestamp.lt rhs.sourceTimestamp

/-- `sorted_vector_insert`: at the end unless the item goes before the last entry. -/
def sortedVectorInsert {α : Type} (pred : α → α → Bool) (collection : List α) (item : α) : List α :=
  let position :=
    if collection.getLast?.any (pred item) then
      lowerBound (fun entry => pred entry item) collection
    else collection.length
  collection.insertIdx position item

namespace ReaderHistory

/-- `add_change`. A change of the unknown writer is reported and added all the same. -/
def addChange (h : ReaderHistory) (c : CacheChange) : Bool × ReaderHistory :=
  if !h.attached then (false, h)
  else if h.memoryPolicy = .preallocated ∧ h.payloadMaxSize < c.serializedPayload.length then
    (false, h)
  else (true, { h with changes := sortedVectorInsert historyOrderCmp h.changes c })

def matchesChange (inner outer : CacheChange) : Bool :=
  decide (inner.sequenceNumber = outer.sequenceNumber) &&
    decide (inner.writerGUID = outer.writerGUID)

def findChangeNts (h : ReaderHistory) (c : CacheChange) : Nat :=
  h.changes.findIdx fun inner => matchesChange inner c

/-- `remove_change_nts`, with the index of the entry that follows the removed one. -/
def removeChangeNts (h : ReaderHistory) (removal : Nat) : Nat × ReaderHistory :=
  if !h.attached then (removal, h)
  else if removal = h.changes.length then (h.changes.length, h)
  else (removal, { h with changes := h.changes.eraseIdx removal })

def removeChange (h : ReaderHistory) (c : CacheChange) : Bool × ReaderHistory :=
  let found := h.findChangeNts c
  match h.changes[found]? with
  | none => (false, h)
  | some dummy =>
    let removed := h.removeChangeNts found
    -- An equal entry at the returned position means that nothing was removed.
    if (removed.2.changes[removed.1]?).any fun next => matchesChange dummy next then
      (false, removed.2)
    else (true, removed.2)

def getChangeFrom (seq : Int) (guid : Guid) : Nat → List CacheChange → Nat × Option CacheChange
  | position, [] => (position, none)
  | position, c :: rest =>
    if c.writerGUID = guid then
      if c.sequenceNumber = seq then (position, some c)
      else if seq < c.sequenceNumber then (position, none)
      else getChangeFrom seq guid (position + 1) rest
    else getChangeFrom seq guid (position + 1) rest

/-- `get_change_nts`: the position where the search ended and the change found there. -/
def getChangeNts (h : ReaderHistory) (seq : Int) (guid : Guid) (hint : Nat) :
    Nat × Option CacheChange :=
  getChangeFrom seq guid hint (h.changes.drop hint)

def getChange (h : ReaderHistory) (seq : Int) (guid : Guid) : Option CacheChange :=
  if !h.attached then none else (h.getChangeNts seq guid 0).2

end ReaderHistory

end EasyDds.Rtps
