import EasyDds.Rtps.Message.DataSubmessage
import EasyDds.Rtps.Message.NumberSet

/-!
`RTPSMessageCreator`: the submessages that a message group adds. The payload of a DATA or DATA_FRAG
is copied into the message, or left for a gather-send.
-/

namespace EasyDds.Rtps

open Prog

/-- `pending_buffer` by its size, `none` if it has no data, and `pending_padding`. -/
structure Pending where
  buffer : Option Nat
  padding : Nat
deriving DecidableEq, Repr

def Pending.none : Pending := ⟨.none, 0⟩

def Pending.size (p : Pending) : Nat := p.buffer.getD 0

namespace CdrMessage

variable (change : DataChange) (topicKind : TopicKind) (readerId : EntityId)
  (expectsInlineQos : Bool)

def initCdrMsg (msg : CdrMessage) : CdrMessage :=
  { msg with pos := 0, length := 0, msgEndian := msg.defaultEndian }

def useDefaultEndian : Reader Unit :=
  modify fun msg => { msg with msgEndian := msg.defaultEndian }

def withEndianFlag (msg : CdrMessage) (flags : Nat) : Nat :=
  flags ||| if msg.defaultEndian = .littleend then 1 else 0

def addSubmessageInfoTS (time : Time) : Reader Bool := do
  useDefaultEndian
  let msg ← read
  let _ ← addOctet 0x09
  let _ ← addOctet (msg.withEndianFlag 0)
  let _ ← addUInt16 8
  let _ ← addInt32 time.seconds
  let _ ← addUInt32 time.fraction
  pure true

def addSubmessageInfoDST (guidP : GuidPrefix) : Reader Bool := do
  useDefaultEndian
  let msg ← read
  let _ ← addOctet 0x0e
  let _ ← addOctet (msg.withEndianFlag 0)
  let _ ← addUInt16 12
  let _ ← addData guidP.toList
  pure true

/-- A submessage without payload: the header, the fields, and the length that they have. -/
def addControl (id flags : Nat) (fields : Reader Unit) : Reader Bool := do
  let old ← read
  useDefaultEndian
  let _ ← addOctet id
  let _ ← addOctet (old.withEndianFlag flags)
  let atSize ← read
  let _ ← addUInt16 0
  let atCount ← read
  fields
  let msg ← read
  putLength atSize.pos (sub32 msg.pos atCount.pos % 2 ^ 16)
  modify fun msg => { msg with msgEndian := old.msgEndian }
  pure true

def addSubmessageHeartbeat (readerId writerId : EntityId) (firstSN lastSN count : Int)
    (isFinal livelinessFlag : Bool) : Reader Bool :=
  addControl 0x07 ((if isFinal then 2 else 0) ||| if livelinessFlag then 4 else 0) do
    let _ ← addEntityId readerId
    let _ ← addEntityId writerId
    let _ ← addSequenceNumber firstSN
    let _ ← addSequenceNumber lastSN
    let _ ← addInt32 count
    pure ()

def addSubmessageGap (seqNumFirst : Int) (seqNumList : BitmapRange Int)
    (readerId writerId : EntityId) : Reader Bool :=
  addControl 0x08 0 do
    let _ ← addEntityId readerId
    let _ ← addEntityId writerId
    let _ ← addSequenceNumber seqNumFirst
    let _ ← addSequenceNumberSet seqNumList
    pure ()

def addSubmessageAcknack (readerId writerId : EntityId) (snSet : BitmapRange Int) (count : Int)
    (finalFlag : Bool) : Reader Bool :=
  addControl 0x06 (if finalFlag then 2 else 0) do
    let _ ← addEntityId readerId
    let _ ← addEntityId writerId
    let _ ← addSequenceNumberSet snSet
    let _ ← addInt32 count
    pure ()

def addSubmessageNackFrag (readerId writerId : EntityId) (writerSN : Int)
    (fnState : BitmapRange Nat) (count : Int) : Reader Bool :=
  addControl 0x12 0 do
    let _ ← addEntityId readerId
    let _ ← addEntityId writerId
    let _ ← addSequenceNumber writerSN
    let _ ← addFragmentNumberSet fnState
    let _ ← addInt32 count
    pure ()

/-- The payload is copied, or the cursor moves over the place it would have. `none` if there is no
such place. -/
def addPayload (copyData : Bool) (payload : List UInt8) : Reader (Option (Bool × Option Nat)) := do
  if copyData then do
    let ok ← addData payload
    pure (some (ok, none))
  else do
    let msg ← read
    if msg.maxSize < wrap32 (msg.pos + payload.length) then pure none
    else do
      advance payload.length
      pure (some (true, some payload.length))

/-- `pos -= n`. -/
def rewind (n : Nat) : Reader Unit :=
  modify fun msg => { msg with pos := sub32 msg.pos n }

def gatherPayload : Reader (Option (Bool × Option Nat)) :=
  if change.dataFlag then addPayload false change.serializedPayload.bytes
  else pure (some (true, none))

/-- `addSubmessageData` without `copy_data`: whether everything fitted, `is_big_submessage`, and
what is pending. Without room for the payload `msg_endian` stays as it is. -/
def gatherSubmessageData (inlineQos : Option (List UInt8)) : Reader (Bool × Bool × Pending) := do
  let old ← read
  useDefaultEndian
  let inlineQosFlag := change.inlineQosFlag topicKind expectsInlineQos inlineQos
  let keyFlag := change.keyFlag topicKind expectsInlineQos inlineQos
  let flags := dataFlags (decide (old.defaultEndian = .littleend)) inlineQosFlag
    change.dataFlag keyFlag
  let (header, sizePos, countPos) ← serializeHeader 0 change readerId flags
  let _ ← addIf inlineQosFlag (serializeInlineQos change topicKind expectsInlineQos inlineQos)
  match ← gatherPayload change with
  | none => pure (false, false, .none)
  | some (_, buffer) => do
    let key ← addIf keyFlag (addKeyPayload change)
    let msg ← read
    let padding := (4 - msg.pos % 4) % 4
    advance padding
    let isBig ← patchLength sizePos countPos
    rewind padding
    rewind (buffer.getD 0)
    modify fun msg => { msg with msgEndian := old.msgEndian }
    pure (header && key, isBig, ⟨buffer, padding⟩)

def addSubmessageDataFor (copyData : Bool) (change : DataChange) (topicKind : TopicKind)
    (readerId : EntityId) (expectsInlineQos : Bool) (inlineQos : Option (List UInt8)) :
    Reader (Bool × Bool × Pending) := do
  if copyData then do
    let (ok, isBig) ← addSubmessageData change topicKind readerId expectsInlineQos inlineQos
    pure (ok, isBig, .none)
  else gatherSubmessageData change topicKind readerId expectsInlineQos inlineQos

def fragmentFlags (endianness inlineQos key : Bool) : Nat :=
  (if endianness then 1 else 0) ||| (if inlineQos then 2 else 0) ||| (if key then 4 else 0)

/-- The end of a DATA_FRAG: the length is a `uint16_t` that is counted up to a multiple of 4, with
the padding on the way. -/
def finishFragment (copyData : Bool) (buffer : Option Nat) (sizePos countPos : Nat) :
    Reader (Bool × Pending) := do
  let msg ← read
  let size := sub32 msg.pos countPos % 2 ^ 16
  let padding := (4 - size % 4) % 4
  let ok ← addIf copyData (addPadding padding)
  rewind (buffer.getD 0)
  putLength sizePos ((size + padding) % 2 ^ 16)
  pure (ok, ⟨buffer, if copyData then 0 else padding⟩)

/-- `addSubmessageDataFrag`: whether everything fitted, and what is pending. Without room for the
payload `msg_endian` stays as it is. -/
def addSubmessageDataFrag (fragmentNumber : Nat) (payload : List UInt8)
    (topicKind : TopicKind) (readerId : EntityId) (expectsInlineQos : Bool)
    (inlineQos : Option (List UInt8)) (copyData : Bool) : Reader (Bool × Pending) := do
  let old ← read
  useDefaultEndian
  let inlineQosFlag := change.inlineQosFlag topicKind expectsInlineQos inlineQos
  let keyFlag := change.keyFlag topicKind expectsInlineQos inlineQos
  let flags := fragmentFlags (decide (old.defaultEndian = .littleend)) inlineQosFlag keyFlag
  let (header, sizePos, countPos) ← serializeHeader fragmentNumber change readerId flags
  let _ ← addIf inlineQosFlag (serializeInlineQos change topicKind expectsInlineQos inlineQos)
  if keyFlag then do
    modify fun msg => { msg with msgEndian := old.msgEndian }
    pure (false, .none)
  else do
    match ← addPayload copyData payload with
    | none => pure (false, .none)
    | some (data, buffer) => do
      let (padding, pending) ← finishFragment copyData buffer sizePos countPos
      modify fun msg => { msg with msgEndian := old.msgEndian }
      pure (header && data && padding, pending)

end CdrMessage

end EasyDds.Rtps
