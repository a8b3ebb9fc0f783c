import EasyDds.Rtps.Message.Wire

/-!
Inline QoS: the parameters that `DataMsgUtils::serialize_inline_qos` writes and the list that
`ParameterList::updateCacheChangeFromInlineQos` reads.
-/

namespace EasyDds.Rtps

open Prog

structure InstanceHandle where
  value : Vector UInt8 16
  hasBeenSet : Bool
deriving DecidableEq

def InstanceHandle.unknown : InstanceHandle := ⟨Vector.replicate 16 0, false⟩

structure SampleIdentity where
  writerGuid : Guid
  sequenceNumber : Int
deriving DecidableEq

/-- `SampleIdentity::unknown()`; the unknown sequence number is `{-1, 0}`. -/
def SampleIdentity.unknown : SampleIdentity := ⟨Guid.unknown, -2 ^ 32⟩

def pidSentinel : Nat := 0x0001
def pidKeyHash : Nat := 0x0070
def pidStatusInfo : Nat := 0x0071
def pidRelatedSampleIdentity : Nat := 0x0083
def pidCustomRelatedSampleIdentity : Nat := 0x800f

namespace CdrMessage

/-- `if (pos + n >= max_size) return false`, or `>` where `strict` is off. -/
def roomFor (strict : Bool) (n : Nat) : Reader Bool := do
  let msg ← read
  let next := wrap32 (msg.pos + n)
  pure (if strict then decide (next < msg.maxSize) else decide (next ≤ msg.maxSize))

def addParameterStatus (status : Nat) : Reader Bool := do
  if ← roomFor true 8 then do
    let _ ← addUInt16 pidStatusInfo
    let _ ← addUInt16 4
    let _ ← addOctet 0
    let _ ← addOctet 0
    let _ ← addOctet 0
    let _ ← addOctet status
    pure true
  else pure false

def addParameterKey (handle : InstanceHandle) : Reader Bool := do
  if ← roomFor true 20 then do
    let _ ← addUInt16 pidKeyHash
    let _ ← addUInt16 16
    let _ ← addData handle.value.toList
    pure true
  else pure false

def addParameterSentinel : Reader Bool := do
  if ← roomFor false 4 then do
    let _ ← addUInt16 pidSentinel
    let _ ← addUInt16 0
    pure true
  else pure false

def addIdentityParameter (pid : Nat) (sampleId : SampleIdentity) : Reader Bool := do
  if ← roomFor false 28 then do
    let _ ← addUInt16 pid
    let _ ← addUInt16 24
    let _ ← addData sampleId.writerGuid.guidPrefix.toList
    let _ ← addData sampleId.writerGuid.entityId.toList
    let _ ← addInt32 (sampleId.sequenceNumber / 2 ^ 32)
    let _ ← addUInt32 (sampleId.sequenceNumber % 2 ^ 32).toNat
    pure true
  else pure false

def addParameterSampleIdentity (sampleId : SampleIdentity) : Reader Bool :=
  addIdentityParameter pidRelatedSampleIdentity sampleId

def addParameterCustomRelatedSampleIdentity (sampleId : SampleIdentity) : Reader Bool :=
  addIdentityParameter pidCustomRelatedSampleIdentity sampleId

abbrev VendorId := UInt8 × UInt8

structure InlineQos where
  kind : ChangeKind
  instanceHandle : InstanceHandle
  sampleIdentity : SampleIdentity
deriving DecidableEq

def InlineQos.initial : InlineQos := ⟨.alive, .unknown, .unknown⟩

/-- The kind after a status parameter; other values leave it alone. -/
def statusKind (kind : ChangeKind) (status : Nat) : ChangeKind :=
  if status = 1 then .notAliveDisposed
  else if status = 2 then .notAliveUnregistered
  else if status = 3 then .notAliveDisposedUnregistered
  else kind

def readOctet : Reader Nat := do
  fits 1
  let msg ← read
  let bytes ← fetch (span msg.pos 1)
  advance 1
  pure (ofLittleEndian bytes)

/-- `ParameterSerializer<ParameterSampleIdentity_t>::read_content_from_cdr_message`. -/
def readSampleIdentity : Reader SampleIdentity := do
  let guidPrefix ← attempt (readData true 12)
  let entityId ← attempt (readData true 4)
  let high ← attempt readInt32
  let low ← attempt readUInt32
  match guidPrefix, entityId, high, low with
  | some guidPrefix, some entityId, some high, some low =>
    pure ⟨⟨ofBytes 12 guidPrefix, ofBytes 4 entityId⟩, high * 2 ^ 32 + low⟩
  | _, _, _, _ => raise ()

/-- `ParameterSerializer<ParameterStatusInfo_t>::read_content_from_cdr_message`: the last of four
octets. -/
def readStatus : Reader Nat := do
  let a ← attempt readOctet
  let b ← attempt readOctet
  let c ← attempt readOctet
  let status ← attempt readOctet
  match a, b, c, status with
  | some _, some _, some _, some status => pure status
  | _, _, _, _ => raise ()

/-- The lambda `parameter_process` of `updateCacheChangeFromInlineQos`. -/
def processParameter (vendor : VendorId) (pid plength : Nat) (qos : InlineQos) :
    Reader InlineQos := do
  if pid = pidKeyHash then
    if plength < 16 then raise ()
    else do
      let key ← readData true 16
      pure { qos with instanceHandle := ⟨ofBytes 16 key, true⟩ }
  else if pid = pidCustomRelatedSampleIdentity ∨ pid = pidRelatedSampleIdentity then
    -- The custom parameter is taken from two vendors only.
    if pid = pidCustomRelatedSampleIdentity ∧ vendor ≠ (1, 15) ∧ vendor ≠ (1, 1) then pure qos
    else if 24 ≤ plength then do
      let sampleIdentity ← readSampleIdentity
      pure { qos with sampleIdentity := sampleIdentity }
    else pure qos
  else if pid = pidStatusInfo then
    if plength < 4 then raise ()
    else do
      let status ← readStatus
      pure { qos with kind := statusKind qos.kind status }
  else pure qos

def readParameter (vendor : VendorId) (originalPos : Nat) (state : Nat × InlineQos) :
    Reader ((Nat × InlineQos) ⊕ (Nat × InlineQos)) := do
  modify fun msg => msg.rewound (wrap32 (originalPos + state.1))
  let pid ← attempt readUInt16
  let plength ← attempt readUInt16
  let isSentinel := decide (pid.getD pidSentinel = pidSentinel)
  let size := if isSentinel then 0 else plength.getD 0
  let qosSize := wrap32 (wrap32 (state.1 + (4 + size)) + 3) / 4 * 4
  let msg ← read
  if pid.isNone ∨ plength.isNone ∨ msg.length < wrap32 (msg.pos + size) then raise ()
  else if isSentinel then pure (.inr (qosSize, state.2))
  else do
    let qos ← processParameter vendor (pid.getD pidSentinel) size state.2
    pure (.inl (qosSize, qos))

/-- `updateCacheChangeFromInlineQos`: the size of the list and what it says. Every round but the
last reads four bytes of the message. -/
def updateCacheChangeFromInlineQos (vendor : VendorId) : Reader (Nat × InlineQos) := do
  let msg ← read
  loop () (readParameter vendor msg.pos) (msg.length + 1) (0, InlineQos.initial)

end CdrMessage

end EasyDds.Rtps
