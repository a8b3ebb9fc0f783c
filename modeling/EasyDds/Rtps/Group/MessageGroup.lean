import EasyDds.Rtps.Message.FragmentLength

/-!
`RTPSMessageGroup` without security: submessages are built one at a time and gathered into
messages, which are handed to the sender when they are full. In a build with `FASTDDS_STATISTICS`
every message ends with a statistics submessage, for which room is kept.
-/

namespace EasyDds.Rtps

open CdrMessage

open Prog

def guidPrefixUnknown : GuidPrefix := Vector.replicate 12 0

/-- What a message consists of behind its header. A submessage is there with the destination that
was requested for it. -/
inductive Piece
  | infoDst (guidPrefix : GuidPrefix)
  | submessage (destination : GuidPrefix)
  | statistics
deriving DecidableEq

structure SentMessage where
  pieces : List Piece
  totalBytes : Nat

structure Sender where
  guid : Guid
  topicKind : TopicKind
  destinationsHaveChanged : Bool
  destinationGuidPrefix : GuidPrefix
  remoteGuids : List Guid

inductive GroupError
  | timeout
  | limitExceeded
deriving DecidableEq

/-- `RTPSMessageGroup`. `statistics` is the option of the build; `headerPieces`,
`submessagePieces` and `sent` are no part of the source: they say what the two buffers contain and
what was handed to the sender. -/
structure MessageGroup where
  statistics : Bool
  headerMsg : CdrMessage
  submessageMsg : CdrMessage
  headerPieces : List Piece
  submessagePieces : List Piece
  buffersBytes : Nat
  pending : Pending
  currentDst : GuidPrefix
  currentSentBytes : Nat
  sentBytesLimitation : Nat
  sent : List SentMessage

def getEntityId : List Guid → EntityId
  | [] => entityIdUnknown
  | guid :: rest => if rest.all (·.entityId = guid.entityId) then guid.entityId else entityIdUnknown

def dataExceedsLimitation (sizeToAdd limitation totalSent pendingToSend : Nat) : Bool :=
  decide (0 < limitation) && (decide (limitation ≤ wrap32 (totalSent + pendingToSend)) ||
      decide (sub32 limitation (wrap32 (totalSent + pendingToSend)) < sizeToAdd))

/-- `sizeof(StatisticsSubmessageData)`: a locator, a time, two `uint64_t` and a `uint16_t` with its
padding. -/
def statisticsSubmessageDataLength : Nat := 24 + 8 + 24

def statisticsSubmessageLength : Nat := 4 + statisticsSubmessageDataLength

/-- `add_statistics_submessage`, which only asserts that there is room for the zeroes. -/
def addStatisticsSubmessage : Reader Unit := do
  useDefaultEndian
  let msg ← read
  let _ ← addOctet 0x80
  let _ ← addOctet (msg.withEndianFlag 0)
  let _ ← addUInt16 statisticsSubmessageDataLength
  modify fun msg => { msg with length := msg.pos }
  copyToBuffer (List.replicate statisticsSubmessageDataLength 0)

abbrev GroupProg := Prog MessageGroup GroupError

namespace MessageGroup

def resetToHeader (s : MessageGroup) : MessageGroup :=
  { s with
    headerMsg := { s.headerMsg.initCdrMsg with pos := 20, length := 20 }
    headerPieces := []
    buffersBytes := 0 }

def create (statistics : Bool) (header submessage : CdrMessage) (limitation : Nat) :
    MessageGroup :=
  resetToHeader {
    statistics
    headerMsg := header
    submessageMsg := submessage.initCdrMsg
    headerPieces := []
    submessagePieces := []
    buffersBytes := 0
    pending := .none
    currentDst := guidPrefixUnknown
    currentSentBytes := 0
    sentBytesLimitation := limitation
    sent := [] }

def currentBytesProcessed (s : MessageGroup) : Nat := wrap32 (s.currentSentBytes + s.buffersBytes)

def addStatsSubmsg (s : MessageGroup) : MessageGroup :=
  if s.statistics then
    { s with
      headerMsg := (addStatisticsSubmessage.run s.headerMsg).2
      headerPieces := s.headerPieces ++ [.statistics]
      buffersBytes := wrap32 (s.buffersBytes + statisticsSubmessageLength) }
  else s

def reserved (s : MessageGroup) : CdrMessage :=
  if s.statistics then
    { s.headerMsg with maxSize := sub32 s.headerMsg.maxSize statisticsSubmessageLength }
  else s.headerMsg

section Calls

-- `accepts i` is what the sender answers to the message number `i`.
variable (accepts : Nat → Bool)

variable (sender : Sender) (dst : GuidPrefix)

def send : GroupProg Unit := do
  let s ← read
  if 20 < s.headerMsg.length then do
    modify addStatsSubmsg
    modify fun s => { s with sent := s.sent ++ [⟨s.headerPieces, s.buffersBytes⟩] }
    if accepts s.sent.length then
      modify fun s =>
        { s with currentSentBytes := wrap32 (s.currentSentBytes + s.buffersBytes) }
    else raise .timeout
  else pure ()

def flush : GroupProg Unit := do
  send accepts
  modify resetToHeader

def flushAndReset : GroupProg Unit := do
  flush accepts
  modify fun s => { s with currentDst := guidPrefixUnknown }

def addInfoDstInSubmessage : GroupProg Unit :=
  modify fun s =>
    if s.currentDst ≠ dst then
      { s with
        currentDst := dst
        submessageMsg := ((addSubmessageInfoDST dst).run s.submessageMsg).2
        submessagePieces := s.submessagePieces ++ [.infoDst dst] }
    else s

def addInfoDstInHeader : GroupProg Unit :=
  modify fun s =>
    if s.currentDst ≠ dst then
      { s with
        currentDst := dst
        headerMsg := ((addSubmessageInfoDST dst).run s.headerMsg).2
        headerPieces := s.headerPieces ++ [.infoDst dst] }
    else s

def initSubmessage (s : MessageGroup) : MessageGroup :=
  { s with submessageMsg := s.submessageMsg.initCdrMsg, submessagePieces := [] }

def checkAndMaybeFlush : GroupProg Unit := do
  modify initSubmessage
  if sender.destinationsHaveChanged then flushAndReset accepts else pure ()
  addInfoDstInSubmessage dst

def pendingBytes (p : Pending) : Nat := if p.buffer.isSome then p.size + p.padding else 0

def appendSubmessage : GroupProg Bool := ⟨fun s =>
  let isFirst := s.headerMsg.pos = 20 ∧ s.headerMsg.length = 20
  let bytes := s.submessageMsg.buffer.slice 0 s.submessageMsg.length
  match (addData bytes).run s.reserved with
  | (.ok true, header) =>
    (.ok true, { s with
      headerMsg := { header with maxSize := s.headerMsg.maxSize }
      headerPieces := s.headerPieces ++ s.submessagePieces
      buffersBytes := wrap32 (s.buffersBytes + s.submessageMsg.length +
        (if isFirst then 20 else 0) +
        pendingBytes s.pending)
      pending := if s.pending.buffer.isSome then .none else s.pending })
  | _ => (.ok false, s)⟩

def totalSize (s : MessageGroup) : Nat :=
  wrap32 (s.submessageMsg.length + s.pending.size + s.buffersBytes + s.pending.padding)

def makeRoom : GroupProg Unit := do
  let s ← read
  if s.reserved.hasSpace s.totalSize then pure ()
  else do
    flush accepts
    addInfoDstInHeader dst

def insertSubmessage (isBig : Bool) : GroupProg Bool := do
  makeRoom accepts dst
  let ok ← appendSubmessage
  if ok && isBig then flush accepts else pure ()
  pure ok

/-- What a creator leaves: whether everything fitted, `is_big_submessage`, and the pending payload
where the creator sets it. -/
structure Built where
  ok : Bool
  isBig : Bool
  pending : Option Pending

def createSubmessage (build : Reader Built) : GroupProg Built :=
  ⟨fun s =>
    match build.run s.submessageMsg with
    | (.ok built, msg) =>
      (.ok built, { s with
        submessageMsg := msg
        submessagePieces := s.submessagePieces ++ [.submessage dst]
        pending := built.pending.getD s.pending })
    | (.error _, msg) => (.ok ⟨false, false, none⟩, { s with submessageMsg := msg })⟩

def addSubmessage (build : Reader Built) : GroupProg Bool := do
  checkAndMaybeFlush accepts sender dst
  let built ← createSubmessage dst build
  if built.ok then insertSubmessage accepts dst built.isBig else pure false

def checkLimitation (size : Nat) : GroupProg Unit := do
  let s ← read
  if dataExceedsLimitation size s.sentBytesLimitation s.currentSentBytes s.buffersBytes then do
    flushAndReset accepts
    raise .limitExceeded
  else pure ()

def buildData (change : DataChange) (own : List UInt8)
    (copyData expectsInlineQos : Bool) : Reader Built := do
  let _ ← addSubmessageInfoTS change.sourceTimestamp
  let (ok, isBig, pending) ← addSubmessageDataFor copyData { change with writerGUID := sender.guid }
    sender.topicKind (getEntityId sender.remoteGuids) expectsInlineQos (inlineQosWriter own)
  pure ⟨ok, isBig, some pending⟩

/-- `add_data` of a change whose own inline QoS is `own`; `copyData` if it has no payload owner. -/
def addData (change : DataChange) (own : List UInt8)
    (copyData expectsInlineQos : Bool) : GroupProg Bool := do
  checkLimitation accepts change.serializedPayload.length
  addSubmessage accepts sender sender.destinationGuidPrefix
    (buildData sender change own copyData expectsInlineQos)

def buildDataFrag (change : DataChange) (fragmentNumber : Nat) (own : List UInt8)
    (copyData expectsInlineQos : Bool) : Reader Built := do
  let _ ← addSubmessageInfoTS change.sourceTimestamp
  let (ok, pending) ← addSubmessageDataFrag change fragmentNumber
    (change.fragment fragmentNumber) sender.topicKind (getEntityId sender.remoteGuids)
    expectsInlineQos (inlineQosWriter own) copyData
  pure ⟨ok, false, some pending⟩

def addDataFrag (change : DataChange) (fragmentNumber : Nat) (own : List UInt8)
    (copyData expectsInlineQos : Bool) : GroupProg Bool := do
  checkLimitation accepts (change.fragmentLength fragmentNumber)
  addSubmessage accepts sender sender.destinationGuidPrefix
    (buildDataFrag sender change fragmentNumber own copyData expectsInlineQos)

def buildControl (create : Reader Bool) : Reader Built := do
  let ok ← create
  pure ⟨ok, false, none⟩

def buildHeartbeat (firstSN lastSN count : Int) (isFinal livelinessFlag : Bool) : Reader Built :=
  buildControl (addSubmessageHeartbeat (getEntityId sender.remoteGuids)
    sender.guid.entityId firstSN lastSN count isFinal livelinessFlag)

def addHeartbeat (firstSN lastSN count : Int) (isFinal livelinessFlag : Bool) : GroupProg Bool :=
  addSubmessage accepts sender sender.destinationGuidPrefix
    (buildHeartbeat sender firstSN lastSN count isFinal livelinessFlag)

/-- `create_gap_submessage`. -/
def buildGap (initialSequence : Int) (bitmap : BitmapRange Int)
    (readerId : EntityId) : Reader Built :=
  buildControl (addSubmessageGap initialSequence bitmap readerId sender.guid.entityId)

def addGap (initialSequence : Int) (bitmap : BitmapRange Int) : GroupProg Bool :=
  addSubmessage accepts sender sender.destinationGuidPrefix
    (buildGap sender initialSequence bitmap (getEntityId sender.remoteGuids))

def addGapFor (initialSequence : Int) (bitmap : BitmapRange Int)
    (readerGuid : Guid) : GroupProg Bool :=
  addSubmessage accepts sender readerGuid.guidPrefix
    (buildGap sender initialSequence bitmap readerGuid.entityId)

def remoteEntityId : EntityId := (sender.remoteGuids.headD Guid.unknown).entityId 
def buildAcknack (snSet : BitmapRange Int) (count : Int) (finalFlag : Bool) : Reader Built :=
  buildControl (addSubmessageAcknack sender.guid.entityId (remoteEntityId sender) snSet
    count finalFlag)

def addAcknack (snSet : BitmapRange Int) (count : Int) (finalFlag : Bool) : GroupProg Bool :=
  if sender.remoteGuids.length = 0 then pure false
  else addSubmessage accepts sender sender.destinationGuidPrefix
    (buildAcknack sender snSet count finalFlag)

def buildNackfrag (writerSN : Int) (fnState : BitmapRange Nat) (count : Int) : Reader Built :=
  buildControl (addSubmessageNackFrag sender.guid.entityId (remoteEntityId sender)
    writerSN fnState count)

def addNackfrag (writerSN : Int) (fnState : BitmapRange Nat) (count : Int) : GroupProg Bool :=
  addSubmessage accepts sender sender.destinationGuidPrefix
    (buildNackfrag sender writerSN fnState count)

end Calls

end MessageGroup

open MessageGroup

inductive GroupCall
  | data (change : DataChange) (own : List UInt8) (copyData expectsInlineQos : Bool)
  | dataFrag (change : DataChange) (fragmentNumber : Nat) (own : List UInt8)
      (copyData expectsInlineQos : Bool)
  | heartbeat (firstSN lastSN count : Int) (isFinal livelinessFlag : Bool)
  | gap (initialSequence : Int) (bitmap : BitmapRange Int)
  | gapFor (initialSequence : Int) (bitmap : BitmapRange Int) (readerGuid : Guid)
  | acknack (snSet : BitmapRange Int) (count : Int) (finalFlag : Bool)
  | nackfrag (writerSN : Int) (fnState : BitmapRange Nat) (count : Int)

namespace GroupCall

def run (accepts : Nat → Bool) (sender : Sender) : GroupCall → GroupProg Bool
  | data change own copyData expectsInlineQos =>
    addData accepts sender change own copyData expectsInlineQos
  | dataFrag change fragmentNumber own copyData expectsInlineQos =>
    addDataFrag accepts sender change fragmentNumber own copyData expectsInlineQos
  | heartbeat firstSN lastSN count isFinal livelinessFlag =>
    addHeartbeat accepts sender firstSN lastSN count isFinal livelinessFlag
  | gap initialSequence bitmap => addGap accepts sender initialSequence bitmap
  | gapFor initialSequence bitmap readerGuid =>
    addGapFor accepts sender initialSequence bitmap readerGuid
  | acknack snSet count finalFlag => addAcknack accepts sender snSet count finalFlag
  | nackfrag writerSN fnState count => addNackfrag accepts sender writerSN fnState count

def build (sender : Sender) : GroupCall → Reader Built
  | data change own copyData expectsInlineQos =>
    buildData sender change own copyData expectsInlineQos
  | dataFrag change fragmentNumber own copyData expectsInlineQos =>
    buildDataFrag sender change fragmentNumber own copyData expectsInlineQos
  | heartbeat firstSN lastSN count isFinal livelinessFlag =>
    buildHeartbeat sender firstSN lastSN count isFinal livelinessFlag
  | gap initialSequence bitmap =>
    buildGap sender initialSequence bitmap (getEntityId sender.remoteGuids)
  | gapFor initialSequence bitmap readerGuid =>
    buildGap sender initialSequence bitmap readerGuid.entityId
  | acknack snSet count finalFlag => buildAcknack sender snSet count finalFlag
  | nackfrag writerSN fnState count => buildNackfrag sender writerSN fnState count

def destination (sender : Sender) : GroupCall → GuidPrefix
  | gapFor _ _ readerGuid => readerGuid.guidPrefix
  | _ => sender.destinationGuidPrefix

end GroupCall

def MessageGroup.step (accepts : Nat → Bool) (s : MessageGroup) (call : Sender × GroupCall) :
    MessageGroup :=
  ((call.2.run accepts call.1).run s).2

end EasyDds.Rtps
