import EasyDds.Rtps.Message.CdrMessage

/-!
The readers and writers of `CDRMessage` for property sequences, data holders and participant generic
messages.
-/

namespace EasyDds.Rtps

open Prog

structure Property where
  name : List UInt8
  value : List UInt8
  propagate : Bool
deriving DecidableEq

structure BinaryProperty where
  name : List UInt8
  value : List UInt8
  propagate : Bool
deriving DecidableEq

structure DataHolder where
  classId : List UInt8
  properties : List Property
  binaryProperties : List BinaryProperty
deriving DecidableEq

structure MessageIdentity where
  sourceGuid : Guid
  sequenceNumber : Int64
deriving DecidableEq

structure ParticipantGenericMessage where
  messageIdentity : MessageIdentity
  relatedMessageIdentity : MessageIdentity
  destinationParticipantKey : Guid
  destinationEndpointKey : Guid
  sourceEndpointKey : Guid
  messageClassId : List UInt8
  messageData : List DataHolder
deriving DecidableEq

namespace CdrMessage

def readProperty : Reader Property := do
  let name ← readString
  let value ← readString
  pure ⟨name, value, false⟩

def readBinaryProperty : Reader BinaryProperty := do
  let name ← readString
  let value ← readOctetVector
  pure ⟨name, value, true⟩

/-- `readPropertySeq`: every element is taken to need 16 bytes. -/
def readPropertySeq (parameterLength : Nat) : Reader (List Property) := do
  let length ← readUInt32
  countFits length 0 16 parameterLength
  times readProperty length

/-- `readBinaryPropertySeq`: every element is taken to need 12 bytes. -/
def readBinaryPropertySeq (parameterLength : Nat) : Reader (List BinaryProperty) := do
  let length ← readUInt32
  countFits length 0 12 parameterLength
  times readBinaryProperty length

/-- `readDataHolder`; both sequences are checked against the same length. -/
def readDataHolder (parameterLength : Nat) : Reader DataHolder := do
  let classId ← readString
  let properties ← readPropertySeq parameterLength
  let binaryProperties ← readBinaryPropertySeq parameterLength
  pure ⟨classId, properties, binaryProperties⟩

/-- The loop body of `readDataHolderSeq`. The rest of the message is what is left before the
holder; the subtraction is unsigned. -/
def readNextDataHolder : Reader DataHolder := do
  let msg ← read
  readDataHolder (sub32 msg.length msg.pos)

def readDataHolderSeq : Reader (List DataHolder) := do
  let length ← readUInt32
  let msg ← read
  countFits length msg.pos 16 msg.length
  times readNextDataHolder length

def readKey : Reader Guid := do
  let guidPrefix ← readData true 12
  let entityId ← readData true 4
  pure ⟨ofBytes 12 guidPrefix, ofBytes 4 entityId⟩

def readMessageIdentity : Reader MessageIdentity := do
  let sourceGuid ← readKey
  let sequenceNumber ← readInt64
  pure ⟨sourceGuid, .ofInt sequenceNumber⟩

def readParticipantGenericMessage : Reader ParticipantGenericMessage := do
  let messageIdentity ← readMessageIdentity
  let relatedMessageIdentity ← readMessageIdentity
  let destinationParticipantKey ← readKey
  let destinationEndpointKey ← readKey
  let sourceEndpointKey ← readKey
  let messageClassId ← readString
  let messageData ← readDataHolderSeq
  pure ⟨messageIdentity, relatedMessageIdentity, destinationParticipantKey,
    destinationEndpointKey, sourceEndpointKey, messageClassId, messageData⟩

/-- `if (!first) return false;` in front of `second`. -/
def andThen (first second : Reader Bool) : Reader Bool := do
  let ok ← first
  if ok then second else pure false

def cString (s : List UInt8) : List UInt8 := s.takeWhile (· ≠ 0)

def addString (s : List UInt8) : Reader Bool := do
  let strSiz := wrap32 ((cString s).length + 1)
  let size ← addUInt32 strSiz
  let data ← addData ((cString s ++ [0]).take strSiz)
  let padding ← addPadding ((4 - strSiz % 4) % 4)
  pure (size && data && padding)

/-- `addOctetVector`, whose check is made before the length is written. -/
def addOctetVector (ocvec : List UInt8) (addFinalPadding : Bool) : Reader Bool := do
  let msg ← read
  if msg.maxSize ≤ msg.pos + ocvec.length + (if addFinalPadding then 4 else 0) then pure false
  else do
    let size ← addUInt32 (wrap32 ocvec.length)
    let data ← addData (ocvec.take (wrap32 ocvec.length))
    let padding ← addPadding (if addFinalPadding then (4 - ocvec.length % 4) % 4 else 0)
    pure (size && data && padding)

def addProperty (property : Property) : Reader Bool :=
  if property.propagate then andThen (addString property.name) (addString property.value)
  else pure true

def addBinaryProperty (binaryProperty : BinaryProperty) (addFinalPadding : Bool) : Reader Bool :=
  if binaryProperty.propagate then
    andThen (addString binaryProperty.name) (addOctetVector binaryProperty.value addFinalPadding)
  else pure true

/-- The frame of the sequences: a check, the number of elements, and the loop over them. -/
def addSeq (length : Nat) (elements : Reader Bool) : Reader Bool := do
  let msg ← read
  if wrap32 (msg.pos + 4) ≤ msg.maxSize then andThen (addUInt32 (wrap32 length)) elements
  else pure false

def addProperties : List Property → Reader Bool
  | [] => pure true
  | property :: rest =>
    if property.propagate then andThen (addProperty property) (addProperties rest)
    else addProperties rest

def addPropertySeq (properties : List Property) : Reader Bool :=
  addSeq (properties.countP (·.propagate)) (addProperties properties)

/-- The loop of `addBinaryPropertySeq`; only the last one may go without padding. -/
def addBinaryProperties (addFinalPadding : Bool) : Nat → List BinaryProperty → Reader Bool
  | _, [] => pure true
  | numberToSerialize, property :: rest =>
    if property.propagate then
      let left := sub32 numberToSerialize 1
      andThen (addBinaryProperty property (addFinalPadding || decide (left ≠ 0)))
        (addBinaryProperties addFinalPadding left rest)
    else addBinaryProperties addFinalPadding numberToSerialize rest

def addBinaryPropertySeq (properties : List BinaryProperty) (addFinalPadding : Bool) :
    Reader Bool :=
  addSeq (properties.countP (·.propagate))
    (addBinaryProperties addFinalPadding (wrap32 (properties.countP (·.propagate))) properties)

def addDataHolder (dataHolder : DataHolder) : Reader Bool :=
  andThen (addString dataHolder.classId) (andThen (addPropertySeq dataHolder.properties)
      (addBinaryPropertySeq dataHolder.binaryProperties true))

def addDataHolders : List DataHolder → Reader Bool
  | [] => pure true
  | dataHolder :: rest => andThen (addDataHolder dataHolder) (addDataHolders rest)

def addDataHolderSeq (dataHolders : List DataHolder) : Reader Bool :=
  addSeq dataHolders.length (addDataHolders dataHolders)

def addKey (key : Guid) : Reader Bool :=
  andThen (addData key.guidPrefix.toList) (addData key.entityId.toList)

def addMessageIdentity (identity : MessageIdentity) : Reader Bool :=
  andThen (addKey identity.sourceGuid) (addInt64 identity.sequenceNumber.toInt)

def addParticipantGenericMessage (message : ParticipantGenericMessage) : Reader Bool :=
  andThen (addMessageIdentity message.messageIdentity)
    (andThen (addMessageIdentity message.relatedMessageIdentity)
      (andThen (addKey message.destinationParticipantKey)
        (andThen (addKey message.destinationEndpointKey)
          (andThen (addKey message.sourceEndpointKey) (andThen (addString message.messageClassId)
              (addDataHolderSeq message.messageData))))))

end CdrMessage

end EasyDds.Rtps
