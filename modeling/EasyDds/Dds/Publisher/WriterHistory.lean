import EasyDds.Lib.OrderedMap
import EasyDds.Rtps.Common

/-!
`DataWriterHistory`: the changes a writer keeps, and which of them it gives up for a new one. The
RTPS writer is taken to let go of a change when it is asked to; for a history that keeps all
changes, `acknowledged` says whether a change is acknowledged before the blocking time is over.
-/

namespace EasyDds.Dds

open Rtps (SerializedPayload TopicKind)

inductive HistoryKind
  | keepLast
  | keepAll
deriving DecidableEq, Repr

structure WriterSample (H : Type) where
  instanceHandle : H
  sequenceNumber : Int
  serializedPayload : SerializedPayload

structure WriterHistoryConfig where
  kind : HistoryKind
  depth : Nat
  topicKind : TopicKind
  maxSamples : Int
  maxInstances : Int
  maxSamplesPerInstance : Int
  isPreallocated : Bool
  payloadMaxSize : Nat
  acknowledged : Int → Bool

namespace WriterHistoryConfig

/-- A limit as the constructor keeps it: one that is not positive stands for no limit. -/
def limit (n : Int) : Int := if n ≤ 0 then 2 ^ 31 - 1 else n

/-- `to_history_attributes`: the number of changes at which the history is full. The source
multiplies in `int32_t`, where a product of 2^31 or more is undefined. -/
def maximumReservedCaches (cfg : WriterHistoryConfig) : Int :=
  match cfg.kind with
  | .keepAll => cfg.maxSamples
  | .keepLast =>
    match cfg.topicKind with
    | .noKey => cfg.depth
    | .withKey => cfg.depth * cfg.maxInstances

def instanceLimit (cfg : WriterHistoryConfig) : Int :=
  match cfg.kind with
  | .keepLast => cfg.depth
  | .keepAll => limit cfg.maxSamplesPerInstance

end WriterHistoryConfig

structure DataWriterHistory (H : Type) [LinearOrder H] where
  changes : List (WriterSample H)
  isHistoryFull : Bool
  keyedChanges : OrderedMap (id : H → H) (List (WriterSample H))
  lastCacheChangeSeqNum : Int

namespace DataWriterHistory

variable {H : Type} [LinearOrder H] (cfg : WriterHistoryConfig)

variable (w : DataWriterHistory H)

def new : DataWriterHistory H := ⟨[], false, .empty, 0⟩

def instanceChanges (handle : H) : List (WriterSample H) := (w.keyedChanges.find? handle).getD []

/-- `matches_change`. -/
def isNumber (sequenceNumber : Int) (c : WriterSample H) : Bool :=
  decide (c.sequenceNumber = sequenceNumber)

def removeChange (sequenceNumber : Int) : Bool × DataWriterHistory H :=
  if w.changes.any (isNumber sequenceNumber) then
    (true, { w with changes := w.changes.eraseP (isNumber sequenceNumber), isHistoryFull := false })
  else (false, w)

def removeChangePub (change : WriterSample H) : Bool × DataWriterHistory H :=
  match cfg.topicKind with
  | .noKey => w.removeChange change.sequenceNumber
  | .withKey =>
    if (w.instanceChanges change.instanceHandle).any (isNumber change.sequenceNumber) then
      let removed := w.removeChange change.sequenceNumber
      if removed.1 then
        (true, { removed.2 with
          keyedChanges := w.keyedChanges.modify change.instanceHandle
            fun cached => cached.eraseP (isNumber change.sequenceNumber) })
      else (false, w)
    else (false, w)

def findOrAddKey (handle : H) : Option (DataWriterHistory H) :=
  if (w.keyedChanges.find? handle).isSome then some w
  else if (w.keyedChanges.entries.length : Int) < WriterHistoryConfig.limit cfg.maxInstances then
    some { w with keyedChanges := w.keyedChanges.emplace (handle, []) }
  else none

/-- An old change makes room, unless all changes are kept and it is not acknowledged in time. -/
def giveUp (oldest : Option (WriterSample H)) : Option (DataWriterHistory H) :=
  match oldest with
  | none => none
  | some change =>
    if cfg.kind = .keepLast ∨ cfg.acknowledged change.sequenceNumber then
      let removed := w.removeChangePub cfg change
      if removed.1 then some removed.2 else none
    else none

/-- The first part of `prepare_change`: in a full history the oldest change of all is given up. -/
def makeRoom : Option (DataWriterHistory H) :=
  if w.isHistoryFull then w.giveUp cfg w.changes.head? else some w

def makeRoomInInstance (handle : H) : Option (DataWriterHistory H) :=
  if ((w.instanceChanges handle).length : Int) < cfg.instanceLimit then some w
  else w.giveUp cfg (w.instanceChanges handle).head?

def prepareChange (change : WriterSample H) : Bool × DataWriterHistory H :=
  match w.makeRoom cfg with
  | none => (false, w)
  | some roomy =>
    match cfg.topicKind with
    | .noKey => (true, roomy)
    | .withKey =>
      match roomy.findOrAddKey cfg change.instanceHandle with
      | none => (false, roomy)
      | some known =>
        match known.makeRoomInInstance cfg change.instanceHandle with
        | none => (false, known)
        | some free =>
          (true, { free with
            keyedChanges := free.keyedChanges.modify change.instanceHandle (· ++ [change]) })

def prepareAndAddChange (change : WriterSample H) : Bool × DataWriterHistory H :=
  if cfg.isPreallocated ∧ cfg.payloadMaxSize < change.serializedPayload.length then (false, w)
  else if w.isHistoryFull then (false, w)
  else
    (true, { w with
      changes := w.changes ++ [change]
      isHistoryFull := decide (((w.changes ++ [change]).length : Int) = cfg.maximumReservedCaches)
      lastCacheChangeSeqNum := change.sequenceNumber })

/-- `add_pub_change`. The instance points to the change before the change has got its number, and
still does when the change is refused after that. -/
def addPubChange (handle : H) (payload : SerializedPayload) : Bool × DataWriterHistory H :=
  let change : WriterSample H := ⟨handle, w.lastCacheChangeSeqNum + 1, payload⟩
  let prepared := w.prepareChange cfg change
  if prepared.1 then prepared.2.prepareAndAddChange cfg change else prepared

def step (write : H × SerializedPayload) : DataWriterHistory H :=
  (w.addPubChange cfg write.1 write.2).2

def run (writes : List (H × SerializedPayload)) : DataWriterHistory H :=
  writes.foldl (step cfg) new

end DataWriterHistory

end EasyDds.Dds
