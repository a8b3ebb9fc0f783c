import EasyDds.Rtps.Message.Parameters

/-!
The DATA submessage: `RTPSMessageCreator::addSubmessageData` for a payload that is copied, and
`MessageReceiver::readSubmessageHeader` with `MessageReceiver::proc_Submsg_Data`.
-/

namespace EasyDds.Rtps

open Prog

structure DataChange extends CacheChange where
  instanceHandle : InstanceHandle
  relatedSampleIdentity : SampleIdentity

def Guid.isBuiltin (guid : Guid) : Bool := decide (0xC0 ≤ guid.entityId[3].toNat)

def entityIdUnknown : EntityId := Vector.replicate 4 0

namespace DataChange

def keyInline (change : DataChange) (topicKind : TopicKind) (expectsInlineQos : Bool) : Bool :=
  decide (topicKind = .withKey) &&
    (!change.writerGUID.isBuiltin || expectsInlineQos || decide (change.kind ≠ .alive))

def isRelated (change : DataChange) : Bool :=
  decide (change.relatedSampleIdentity ≠ SampleIdentity.unknown)

/-- The flags of `prepare_submessage_flags`; `inlineQos` are the bytes of the change's own
inline QoS, where it has some. -/
def inlineQosFlag (change : DataChange) (topicKind : TopicKind) (expectsInlineQos : Bool)
    (inlineQos : Option (List UInt8)) : Bool :=
  inlineQos.isSome || change.keyInline topicKind expectsInlineQos || change.isRelated

def dataFlag (change : DataChange) : Bool :=
  decide (change.kind = .alive) && decide (0 < change.serializedPayload.length)

def keyFlag (change : DataChange) (topicKind : TopicKind) (expectsInlineQos : Bool)
    (inlineQos : Option (List UInt8)) : Bool :=
  !change.dataFlag && !change.inlineQosFlag topicKind expectsInlineQos inlineQos &&
    decide (topicKind = .withKey)

lemma not_keyFlag_of_dataFlag {change : DataChange} {topicKind : TopicKind} {expects : Bool}
    {inlineQos : Option (List UInt8)} (h : change.dataFlag = true) :
    change.keyFlag topicKind expects inlineQos = false := by
  simp [keyFlag, h]

/-- `status`: bit 0 for disposed, bit 1 for unregistered. -/
def status (change : DataChange) : Nat :=
  match change.kind with
  | .alive => 0
  | .notAliveDisposed => 1
  | .notAliveUnregistered => 2
  | .notAliveDisposedUnregistered => 3

end DataChange

namespace CdrMessage

variable (change : DataChange) (topicKind : TopicKind) (readerId : EntityId)
  (expectsInlineQos : Bool)

def dataFlags (endianness inlineQos data key : Bool) : Nat :=
  (if endianness then 1 else 0) ||| (if inlineQos then 2 else 0) |||
    (if data then 4 else 0) ||| (if key then 8 else 0)

def addIf (c : Bool) (m : Reader Bool) : Reader Bool := if c then m else pure true

def addFragmentFields (fragmentNumber : Nat) (change : DataChange) : Reader Bool := do
  let start ← addUInt32 fragmentNumber
  let fragments ← addUInt16 1
  let size ← addUInt16 change.fragmentSize
  let sample ← addUInt32 change.serializedPayload.length
  pure (start && fragments && size && sample)

/-- `serialize_header`; the positions of the length field and of the first byte it counts. -/
def serializeHeader (fragmentNumber : Nat) (change : DataChange) (readerId : EntityId)
    (flags : Nat) : Reader (Bool × Nat × Nat) := do
  let isFragment := decide (0 < fragmentNumber)
  let _ ← addOctet (if isFragment then 0x16 else 0x15)
  let _ ← addOctet flags
  let atSize ← read
  let _ ← addUInt16 0
  let atCount ← read
  let extraFlags ← addUInt16 0
  let octets ← addUInt16 (if isFragment then 28 else 16)
  let reader ← addEntityId readerId
  let writer ← addEntityId change.writerGUID.entityId
  let number ← addSequenceNumber change.sequenceNumber
  let fragment ← addIf isFragment (addFragmentFields fragmentNumber change)
  pure (extraFlags && octets && reader && writer && number && fragment, atSize.pos, atCount.pos)

def addRelatedIdentity : Reader Bool := do
  let a ← addParameterSampleIdentity change.relatedSampleIdentity
  let b ← addParameterCustomRelatedSampleIdentity change.relatedSampleIdentity
  pure (a && b)

def addKeyAndStatus : Reader Bool := do
  let key ← addParameterKey change.instanceHandle
  let status ← addIf (decide (change.kind ≠ .alive)) (addParameterStatus change.status)
  pure (key && status)

def serializeInlineQos (inlineQos : Option (List UInt8)) : Reader Bool := do
  let _ ← addIf change.isRelated (addRelatedIdentity change)
  let _ ← addIf (change.keyInline topicKind expectsInlineQos) (addKeyAndStatus change)
  let _ ← addIf inlineQos.isSome (addData (inlineQos.getD []))
  let _ ← addParameterSentinel
  pure true

def addKeyPayload : Reader Bool := do
  let msg ← read
  let a ← addOctet 0
  let b ← addOctet (if msg.msgEndian = .bigend then 2 else 3)
  let c ← addUInt16 0
  let key ← addParameterKey change.instanceHandle
  let status ← addParameterStatus change.status
  let sentinel ← addParameterSentinel
  pure (a && b && c && key && status && sentinel)

def putLength (sizePos size : Nat) : Reader Unit :=
  modify fun msg =>
    { msg with buffer := msg.buffer.write sizePos (wordImage msg.msgEndian 2 size) }

/-- The length field, written once the submessage is complete; a submessage above 64 KB keeps the
zero and is reported as big. -/
def patchLength (sizePos countPos : Nat) : Reader Bool := do
  let msg ← read
  let size32 := sub32 msg.pos countPos
  if size32 ≤ 65535 then do
    putLength sizePos size32
    pure false
  else pure true

/-- `addSubmessageData` with `copy_data`: whether everything fitted, and `is_big_submessage`. -/
def addSubmessageData (inlineQos : Option (List UInt8)) : Reader (Bool × Bool) := do
  let old ← read
  modify fun msg => { msg with msgEndian := msg.defaultEndian }
  let inlineQosFlag := change.inlineQosFlag topicKind expectsInlineQos inlineQos
  let keyFlag := change.keyFlag topicKind expectsInlineQos inlineQos
  let flags := dataFlags (decide (old.defaultEndian = .littleend)) inlineQosFlag
    change.dataFlag keyFlag
  let (header, sizePos, countPos) ← serializeHeader 0 change readerId flags
  let _ ← addIf inlineQosFlag (serializeInlineQos change topicKind expectsInlineQos inlineQos)
  let data ← addIf change.dataFlag (addData change.serializedPayload.bytes)
  let key ← addIf keyFlag (addKeyPayload change)
  let msg ← read
  let padding ← addPadding ((4 - msg.pos % 4) % 4)
  let isBig ← patchLength sizePos countPos
  modify fun msg => { msg with msgEndian := old.msgEndian }
  pure (header && data && key && padding, isBig)

structure SubmessageHeader where
  submessageId : UInt8
  flags : UInt8
  submessageLength : Nat
  isLast : Bool
deriving DecidableEq

/-- `readSubmessageHeader`. The first check is made on an unsigned difference, and the two octets
are read without another. -/
def readSubmessageHeader : Reader SubmessageHeader := do
  let msg ← Prog.read
  if sub32 msg.length msg.pos < 4 then Prog.raise ()
  else do
    let submessageId := msg.buffer msg.pos
    let flags := msg.buffer (wrap32 (msg.pos + 1))
    advance 2
    Prog.modify fun msg =>
      { msg with msgEndian := if flags &&& 1 ≠ 0 then .littleend else .bigend }
    let read ← Prog.attempt readUInt16
    let length := read.getD 0
    let msg ← Prog.read
    if msg.length < wrap32 (msg.pos + length) then Prog.raise ()
    else if length = 0 ∧ submessageId ≠ 0x09 ∧ submessageId ≠ 0x01 then
      pure ⟨submessageId, flags, sub32 msg.length msg.pos, true⟩
    else pure ⟨submessageId, flags, length, false⟩

structure Region where
  start : Nat
  length : Nat
deriving DecidableEq, Repr

def Region.bytes (buffer : Mem) (r : Region) : List UInt8 := buffer.slice r.start r.length

/-- What a message receiver knows besides the submessage: `source_guid_prefix_`,
`source_vendor_id_`, the ids of the associated readers and the time of the last INFO_TS. -/
structure Receiver where
  sourceGuidPrefix : GuidPrefix
  sourceVendorId : VendorId
  associatedReaders : List EntityId
  timestamp : Option Time

def Receiver.willAReaderAcceptMsgDirectedTo (r : Receiver) (readerId : EntityId) : Bool :=
  if readerId = entityIdUnknown then !r.associatedReaders.isEmpty
  else decide (readerId ∈ r.associatedReaders)

/-- The change handed to the readers. The payload and the inline QoS are parts of the message. -/
structure ReceivedChange where
  kind : ChangeKind
  writerGUID : Guid
  sequenceNumber : Int
  instanceHandle : InstanceHandle
  sampleIdentity : SampleIdentity
  serializedPayload : Option Region
  inlineQos : Option Region
  sourceTimestamp : Option Time
deriving DecidableEq

/-- The inline QoS of a DATA or DATA_FRAG submessage: what it says, its size and where it stands. -/
def readInlineQos (vendor : VendorId) (inlineQosFlag : Bool) :
    Reader (InlineQos × Nat × Option Region) := do
  if inlineQosFlag then do
    let (inlineQosSize, qos) ← updateCacheChangeFromInlineQos vendor
    let msg ← read
    pure (qos, inlineQosSize, some ⟨sub32 msg.pos inlineQosSize, inlineQosSize⟩)
  else pure (InlineQos.initial, 0, none)

def jump (octetsToInlineQos expected : Int) : Reader Unit := do
  if expected < octetsToInlineQos then do
    advance (octetsToInlineQos - expected).toNat
    let msg ← read
    if msg.length < msg.pos then raise () else pure ()
  else pure ()

/-- `RTPSMESSAGE_DATA_EXTRA_INLINEQOS_SIZE + octetsToInlineQos + inlineQosSize`, unsigned. -/
def noPayloadSize (octetsToInlineQos : Int) (inlineQosSize : Nat) : Nat :=
  ((4 + octetsToInlineQos + inlineQosSize) % 2 ^ 32).toNat

def takePayload (payloadSize : Nat) : Reader Region := do
  let msg ← read
  let nextPos := wrap32 (msg.pos + payloadSize)
  if nextPos ≤ msg.length ∧ 0 < payloadSize then do
    modify fun msg => { msg with pos := nextPos }
    pure ⟨msg.pos, payloadSize⟩
  else raise ()

def takeData (smh : SubmessageHeader) (dataFlag : Bool) (overhead : Nat)
    (change : ReceivedChange) : Reader ReceivedChange := do
  if smh.submessageLength < overhead then raise ()
  else do
    let payload ← takePayload (smh.submessageLength - overhead)
    if dataFlag then pure { change with serializedPayload := some payload }
    else if payload.length ≤ 16 ∧ ¬ change.instanceHandle.hasBeenSet then do
      let bytes ← fetch (span payload.start payload.length)
      pure { change with instanceHandle := ⟨ofBytes 16 bytes, true⟩ }
    else pure change

/-- The part of `proc_Submsg_Data` behind the sequence number. -/
def takeChange (r : Receiver) (smh : SubmessageHeader) (octetsToInlineQos : Int)
    (writerId : EntityId) (sequenceNumber : Int) : Reader ReceivedChange := do
  let inlineQosFlag := decide (smh.flags &&& 2 ≠ 0)
  let dataFlag := decide (smh.flags &&& 4 ≠ 0)
  let keyFlag := decide (smh.flags &&& 8 ≠ 0)
  jump octetsToInlineQos 16
  let (qos, inlineQosSize, inlineQos) ← readInlineQos r.sourceVendorId inlineQosFlag
  let change : ReceivedChange :=
    { kind := qos.kind
      writerGUID := ⟨r.sourceGuidPrefix, writerId⟩
      sequenceNumber := sequenceNumber
      instanceHandle := qos.instanceHandle
      sampleIdentity := qos.sampleIdentity
      serializedPayload := none
      inlineQos := inlineQos
      sourceTimestamp := r.timestamp }
  if dataFlag || keyFlag then
    takeData smh dataFlag (noPayloadSize octetsToInlineQos inlineQosSize) change
  else pure change

def procSubmsgData (r : Receiver) (smh : SubmessageHeader) :
    Reader (EntityId × ReceivedChange) := do
  if smh.submessageLength < 24 then raise ()
  else if smh.flags &&& 8 ≠ 0 ∧ smh.flags &&& 4 ≠ 0 then raise ()
  else do
    modify fun msg =>
      { msg with msgEndian := if smh.flags &&& 1 ≠ 0 then .littleend else .bigend }
    advance 2
    let octetsToInlineQos ← attempt readInt16
    let readerBytes ← attempt readEntityId
    let readerId : EntityId := ofBytes 4 (readerBytes.getD [])
    if r.willAReaderAcceptMsgDirectedTo readerId then do
      let writerBytes ← attempt readEntityId
      let sequenceNumber ← attempt readSequenceNumber
      match octetsToInlineQos, readerBytes, writerBytes, sequenceNumber with
      | some octetsToInlineQos, some _, some writerBytes, some sequenceNumber =>
        if sequenceNumber ≤ 0 then raise ()
        else do
          let change ← takeChange r smh octetsToInlineQos (ofBytes 4 writerBytes) sequenceNumber
          pure (readerId, change)
      | _, _, _, _ => raise ()
    else raise ()

end CdrMessage

end EasyDds.Rtps
