import EasyDds.Lib.Versioned
import EasyDds.Rtps.DataSharing.Exclusive
import EasyDds.Rtps.Message.Parameters

/-!
The metadata of the payload nodes, one field access at a time: the stores of a writer, and the loads
of readers in `read_from_shared_history`, in any order.
-/

namespace EasyDds.Rtps.DataSharing

structure Content where
  status : ChangeKind
  dataLength : Nat
  sourceTimestamp : Time
  writerGUID : Guid
  instanceHandle : InstanceHandle
  relatedSampleIdentity : SampleIdentity
deriving DecidableEq

structure Metadata where
  content : Content
  hasBeenRemoved : Bool
  sequenceNumber : Option Nat
deriving DecidableEq

def Metadata.initial : Metadata where
  content := ⟨.alive, 0, ⟨0, 0⟩, .unknown, .unknown, .unknown⟩
  hasBeenRemoved := false
  sequenceNumber := none

structure SharedChange where
  sequenceNumber : Nat
  kind : ChangeKind
  length : Nat
  sourceTimestamp : Time
  writerGUID : Guid
  instanceHandle : InstanceHandle
  relatedSampleIdentity : SampleIdentity
deriving DecidableEq

/-- A store to one field of the metadata. The one of a known sequence number is the last for a
change. -/
inductive Store
  | invalidate
  | publish (change : SharedChange)
  | status (kind : ChangeKind)
  | hasBeenRemoved (removed : Bool)
  | dataLength (length : Nat)
  | sourceTimestamp (timestamp : Time)
  | writerGUID (guid : Guid)
  | instanceHandle (handle : InstanceHandle)
  | relatedSampleIdentity (identity : SampleIdentity)
deriving DecidableEq

namespace Store

def apply (m : Metadata) : Store → Metadata
  | .invalidate => { m with sequenceNumber := none }
  | .publish change => { m with sequenceNumber := some change.sequenceNumber }
  | .status kind => { m with content := { m.content with status := kind } }
  | .hasBeenRemoved removed => { m with hasBeenRemoved := removed }
  | .dataLength length => { m with content := { m.content with dataLength := length } }
  | .sourceTimestamp timestamp =>
    { m with content := { m.content with sourceTimestamp := timestamp } }
  | .writerGUID guid => { m with content := { m.content with writerGUID := guid } }
  | .instanceHandle handle => { m with content := { m.content with instanceHandle := handle } }
  | .relatedSampleIdentity identity =>
    { m with content := { m.content with relatedSampleIdentity := identity } }

end Store

/-- `PayloadNode::reset`; the timestamp stays. -/
def resetStores : List Store :=
  [.invalidate, .status .alive, .hasBeenRemoved false, .dataLength 0, .writerGUID .unknown,
    .instanceHandle .unknown, .relatedSampleIdentity .unknown]

/-- The stores of `add_to_shared_history`. The status is that of an alive change, whatever its
kind. -/
def fillStores (change : SharedChange) : List Store :=
  [.status .alive, .dataLength change.length, .sourceTimestamp change.sourceTimestamp,
    .writerGUID change.writerGUID, .instanceHandle change.instanceHandle] ++
  (if change.relatedSampleIdentity ≠ .unknown then
    [.relatedSampleIdentity change.relatedSampleIdentity]
  else []) ++
  [.publish change]

/-- What `read_from_shared_history` loads between its two looks at the sequence number, and the
first of them. -/
inductive Load
  | sequenceNumber
  | maxSize
  | length
  | kind
  | writerGUID
  | instanceHandle
  | sourceTimestamp
  | sampleIdentity
deriving DecidableEq

def loads : List Load :=
  [.sequenceNumber, .maxSize, .length, .kind, .writerGUID, .instanceHandle, .sourceTimestamp,
    .sampleIdentity]

structure Copied where
  sequenceNumber : Option Nat
  maxSize : Nat
  length : Nat
  kind : ChangeKind
  writerGUID : Guid
  instanceHandle : InstanceHandle
  sourceTimestamp : Time
  sampleIdentity : SampleIdentity
deriving DecidableEq

def Load.copy (m : Metadata) (c : Copied) : Load → Copied
  | .sequenceNumber => { c with sequenceNumber := m.sequenceNumber }
  | .maxSize => { c with maxSize := m.content.dataLength }
  | .length => { c with length := m.content.dataLength }
  | .kind => { c with kind := m.content.status }
  | .writerGUID => { c with writerGUID := m.content.writerGUID }
  | .instanceHandle => { c with instanceHandle := m.content.instanceHandle }
  | .sourceTimestamp => { c with sourceTimestamp := m.content.sourceTimestamp }
  | .sampleIdentity => { c with sampleIdentity := m.content.relatedSampleIdentity }

/-- A reader: not in `read_from_shared_history`, in it with the loads to come, or back from it. -/
inductive Reader
  | idle
  | reading (node : Nat) (rest : List Load) (copied : Copied)
  | returned (result : Bool) (copied : Copied)
deriving DecidableEq

inductive WriterCall
  | getPayload
  | addToSharedHistory (i : Nat) (change : SharedChange)
  | removeFromSharedHistory (i : Nat)
  | releasePayload (i : Nat)

def WriterCall.use : WriterCall → Use
  | .getPayload => .getPayload
  | .addToSharedHistory i change => .addToSharedHistory i change.sequenceNumber
  | .removeFromSharedHistory i => .removeFromSharedHistory i
  | .releasePayload i => .releasePayload i

def Holders.givenBack (s : Holders) (u : Use) : List Nat :=
  (s.step u).pool.freePayloads.drop s.pool.freePayloads.length

def WriterCall.stores (s : Holders) : WriterCall → List (Nat × Store)
  | .getPayload =>
    match s.pool.freePayloads with
    | [] => []
    | node :: _ => resetStores.map (node, ·)
  | .addToSharedHistory i change =>
    match s.payload i with
    | some ⟨node, .loan⟩ => (fillStores change).map (node, ·)
    | _ => []
  | .removeFromSharedHistory i =>
    match s.payload i with
    | some ⟨node, .listed⟩ =>
      (node, .hasBeenRemoved true) ::
        (s.givenBack (.removeFromSharedHistory i)).map (·, .hasBeenRemoved false)
    | _ => []
  | .releasePayload _ => []

/-- The writer in a call, with the stores to come, and the readers. `published` are the changes
whose sequence numbers have been stored. -/
structure Sharers where
  holders : Holders
  nodes : Nat → Metadata
  pending : List (Nat × Store)
  readers : Nat → Reader
  published : List SharedChange

inductive Access
  | call (c : WriterCall)
  | store
  | read (reader node : Nat) (copied : Copied)
  | load (reader : Nat)

namespace Sharers

def initial (poolSize : Nat) : Sharers :=
  ⟨.initial poolSize, fun _ => .initial, [], fun _ => .idle, []⟩

def storeTo (nodes : Nat → Metadata) (a : Nat × Store) : Nat → Metadata :=
  Function.update nodes a.1 (a.2.apply (nodes a.1))

def loadNext (nodes : Nat → Metadata) : Reader → Reader
  | .reading node (l :: rest) copied => .reading node rest (l.copy (nodes node) copied)
  | .reading node [] copied =>
    let check := (nodes node).sequenceNumber
    .returned (decide (check ≠ none ∧ check = copied.sequenceNumber)) copied
  | r => r

/-- One access: the writer enters a call once it is through with the one before, or makes its next
store; a reader enters `read_from_shared_history` with any node, or makes its next load. -/
def step (s : Sharers) : Access → Sharers
  | .call c =>
    match s.pending with
    | [] => { s with holders := s.holders.step c.use, pending := c.stores s.holders }
    | _ :: _ => s
  | .store =>
    match s.pending with
    | [] => s
    | a :: rest =>
      { s with
        nodes := storeTo s.nodes a
        pending := rest
        published :=
          match a.2 with
          | .publish change => change :: s.published
          | _ => s.published }
  | .read reader node copied =>
    match s.readers reader with
    | .reading _ _ _ => s
    | _ => { s with readers := Function.update s.readers reader (.reading node loads copied) }
  | .load reader =>
    { s with readers := Function.update s.readers reader (loadNext s.nodes (s.readers reader)) }

def run (s : Sharers) (accesses : List Access) : Sharers := accesses.foldl step s

def Fresh (s : Sharers) : Access → Prop
  | .call (.addToSharedHistory _ change) =>
    ∀ old ∈ s.published, old.sequenceNumber ≠ change.sequenceNumber
  | _ => True

instance (s : Sharers) : (access : Access) → Decidable (s.Fresh access)
  | .call (.addToSharedHistory _ change) => inferInstanceAs
    (Decidable (∀ old ∈ s.published, old.sequenceNumber ≠ change.sequenceNumber))
  | .call .getPayload | .call (.removeFromSharedHistory _) | .call (.releasePayload _) => isTrue ⟨⟩
  | .store | .read _ _ _ | .load _ => isTrue ⟨⟩

end Sharers

end EasyDds.Rtps.DataSharing
