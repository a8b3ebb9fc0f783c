import Mathlib.Data.List.TakeWhile
import EasyDds.Rtps.Message.Aligned

/-!
A participant generic message written and read back. Only what is marked for propagation travels,
and strings travel up to their first null.
-/

namespace EasyDds.Rtps

open List hiding Vector

open Prog

def Property.received (property : Property) : Property :=
  ⟨CdrMessage.cString property.name, CdrMessage.cString property.value, false⟩

def BinaryProperty.received (property : BinaryProperty) : BinaryProperty :=
  ⟨CdrMessage.cString property.name, property.value, true⟩

def DataHolder.received (dataHolder : DataHolder) : DataHolder where
  classId := CdrMessage.cString dataHolder.classId
  properties := (dataHolder.properties.filter (·.propagate)).map Property.received
  binaryProperties := (dataHolder.binaryProperties.filter (·.propagate)).map BinaryProperty.received

def ParticipantGenericMessage.received (message : ParticipantGenericMessage) :
    ParticipantGenericMessage :=
  { message with
    messageClassId := CdrMessage.cString message.messageClassId
    messageData := message.messageData.map DataHolder.received }

/-- A data holder with nothing but what is marked for propagation; the mark of a property does not
travel. -/
def DataHolder.propagated (dataHolder : DataHolder) : DataHolder where
  classId := dataHolder.classId
  properties := (dataHolder.properties.filter (·.propagate)).map ({ · with propagate := false })
  binaryProperties := dataHolder.binaryProperties.filter (·.propagate)

def ParticipantGenericMessage.propagated (message : ParticipantGenericMessage) :
    ParticipantGenericMessage :=
  { message with messageData := message.messageData.map DataHolder.propagated }

def DataHolder.strings (dataHolder : DataHolder) : List (List UInt8) :=
  dataHolder.classId :: (dataHolder.properties.flatMap (fun p => [p.name, p.value]) ++
    dataHolder.binaryProperties.map (·.name))

def ParticipantGenericMessage.strings (message : ParticipantGenericMessage) : List (List UInt8) :=
  message.messageClassId :: message.messageData.flatMap DataHolder.strings

lemma CdrMessage.cString_eq_self {s : List UInt8} (h : (0 : UInt8) ∉ s) :
    CdrMessage.cString s = s :=
  takeWhile_eq_self_iff.mpr fun _ hb => decide_eq_true fun hzero => h (hzero ▸ hb)

/-- A holder without nulls in its strings arrives as it is. -/
theorem DataHolder.received_eq {dataHolder : DataHolder}
    (h : ∀ s ∈ dataHolder.strings, (0 : UInt8) ∉ s) :
    dataHolder.received = dataHolder.propagated := by
  simp only [DataHolder.strings, mem_cons, mem_append, mem_flatMap, mem_map]
    at h
  have hclass := CdrMessage.cString_eq_self (h _ (.inl rfl))
  have hproperties : (dataHolder.properties.filter (·.propagate)).map Property.received =
      (dataHolder.properties.filter (·.propagate)).map ({ · with propagate := false }) := by
    refine map_congr_left fun p hp => ?_
    have hmem := (mem_filter.mp hp).1
    rw [Property.received, CdrMessage.cString_eq_self (h _ (.inr (.inl ⟨p, hmem, by simp⟩))),
      CdrMessage.cString_eq_self (h _ (.inr (.inl ⟨p, hmem, by simp⟩)))]
  have hbinary : (dataHolder.binaryProperties.filter (·.propagate)).map BinaryProperty.received =
      dataHolder.binaryProperties.filter (·.propagate) := by
    refine (map_congr_left fun p hp => ?_).trans (map_id _)
    obtain ⟨hmem, hpropagate⟩ := mem_filter.mp hp
    rw [BinaryProperty.received, CdrMessage.cString_eq_self (h _ (.inr (.inr ⟨p, hmem, rfl⟩))),
      ← hpropagate]
    rfl
  rw [DataHolder.received, DataHolder.propagated, hclass, hproperties, hbinary]

lemma ParticipantGenericMessage.received_eq {message : ParticipantGenericMessage}
    (h : ∀ s ∈ message.strings, (0 : UInt8) ∉ s) : message.received = message.propagated := by
  have hclass := CdrMessage.cString_eq_self (h _ (mem_cons_self ..))
  have hdata : message.messageData.map DataHolder.received =
      message.messageData.map DataHolder.propagated :=
    map_congr_left fun dataHolder hmem => DataHolder.received_eq fun s hs =>
      h s (mem_cons_of_mem _ (mem_flatMap.mpr ⟨dataHolder, hmem, hs⟩))
  rw [ParticipantGenericMessage.received, ParticipantGenericMessage.propagated, hclass, hdata]

namespace CdrMessage

variable {α β : Type} {e : Endianness} {slack : Nat} {image : α → List UInt8} {k : Nat}

section Images

variable (e : Endianness)

def propertyImage (property : Property) : List UInt8 :=
  stringImage e property.name ++ stringImage e property.value

def binaryPropertyImage (property : BinaryProperty) : List UInt8 :=
  stringImage e property.name ++ octetsImage e property.value

def seqImage (image : α → List UInt8) (elements : List α) : List UInt8 :=
  wordImage e 4 elements.length ++ elements.flatMap image

def dataHolderImage (dataHolder : DataHolder) : List UInt8 :=
  stringImage e dataHolder.classId ++
    (seqImage e (propertyImage e) (dataHolder.properties.filter (·.propagate)) ++
      seqImage e (binaryPropertyImage e) (dataHolder.binaryProperties.filter (·.propagate)))

def guidImage (key : Guid) : List UInt8 := key.guidPrefix.toList ++ key.entityId.toList

def identityImage (identity : MessageIdentity) : List UInt8 :=
  guidImage identity.sourceGuid ++ wordImage e 8 (identity.sequenceNumber.toInt % 2 ^ 64).toNat

def genericMessageImage (message : ParticipantGenericMessage) : List UInt8 :=
  identityImage e message.messageIdentity ++ (identityImage e message.relatedMessageIdentity ++
    (guidImage message.destinationParticipantKey ++ (guidImage message.destinationEndpointKey ++
      (guidImage message.sourceEndpointKey ++ (stringImage e message.messageClassId ++
        seqImage e (dataHolderImage e) message.messageData)))))

variable {e}

lemma sixteen_le_propertyImage (property : Property) : 16 ≤ (propertyImage e property).length := by
  have hname := eight_le_stringImage e property.name
  have hvalue := eight_le_stringImage e property.value
  rw [propertyImage, length_append]
  omega

lemma twelve_le_binaryPropertyImage (property : BinaryProperty) :
    12 ≤ (binaryPropertyImage e property).length := by
  have hname := eight_le_stringImage e property.name
  have hvalue := four_le_octetsImage e property.value
  rw [binaryPropertyImage, length_append]
  omega

lemma sixteen_le_dataHolderImage (dataHolder : DataHolder) :
    16 ≤ (dataHolderImage e dataHolder).length := by
  have hclass := eight_le_stringImage e dataHolder.classId
  simp only [dataHolderImage, seqImage, length_append, length_wordImage]
  omega

lemma mul_le_length_flatMap (hk : ∀ x, k ≤ (image x).length)
    (elements : List α) : k * elements.length ≤ (elements.flatMap image).length := by
  induction elements with
  | nil => exact Nat.zero_le _
  | cons x elements ih =>
    have hx := hk x
    rw [flatMap_cons, length_append, length_cons, Nat.mul_succ]
    omega

lemma seqImage_whole (image : α → List UInt8) (h : ∀ x, (image x).length % 4 = 0)
    (elements : List α) : (seqImage e image elements).length % 4 = 0 := by
  rw [seqImage, length_append, length_wordImage]
  induction elements with
  | nil => simp
  | cons x elements ih =>
    have hx := h x
    rw [flatMap_cons, length_append]
    omega

lemma dataHolderImage_whole (dataHolder : DataHolder) :
    (dataHolderImage e dataHolder).length % 4 = 0 := by
  have hclass := stringImage_whole e dataHolder.classId
  have hproperties := seqImage_whole (e := e) (propertyImage e) (fun property => by
    rw [propertyImage, length_append, Nat.add_mod, stringImage_whole, stringImage_whole])
    (dataHolder.properties.filter (·.propagate))
  have hbinary := seqImage_whole (e := e) (binaryPropertyImage e) (fun property => by
    rw [binaryPropertyImage, length_append, Nat.add_mod, stringImage_whole, octetsImage_whole])
    (dataHolder.binaryProperties.filter (·.propagate))
  simp only [dataHolderImage, length_append]
  omega

end Images

section Writing

lemma emits_addSeq (hk : ∀ x, k + 1 ≤ (image x).length)
    {elements : List α} {m : Reader Bool} (hm : Emits slack e m true (elements.flatMap image)) :
    Emits slack e (addSeq elements.length m) true (seqImage e image elements) := by
  intro msg hend hroom
  have hfits := hroom.fits
  have hmax := hroom.maxSize_lt
  have hcount := mul_le_length_flatMap hk elements
  rw [Nat.add_one_mul] at hcount
  simp only [seqImage, length_append, length_wordImage] at hfits
  have hspace : wrap32 (msg.pos + 4) ≤ msg.maxSize := by
    rw [wrap32, Nat.mod_eq_of_lt (by omega)]
    omega
  have hwrap : wrap32 elements.length = elements.length := Nat.mod_eq_of_lt (by omega)
  rw [addSeq, run_read_bind, if_pos hspace, hwrap]
  exact (emits_addUInt32 _).andThen hm msg hend hroom

lemma emits_addProperties (properties : List Property) : Emits 1 e (addProperties properties) true
      ((properties.filter (·.propagate)).flatMap (propertyImage e)) := by
  induction properties with
  | nil => exact Emits.pure true
  | cons property rest ih =>
    rw [addProperties]
    by_cases hpropagate : property.propagate
    · rw [if_pos hpropagate, filter_cons_of_pos hpropagate, flatMap_cons]
      refine .andThen ?_ ih
      rw [addProperty, if_pos hpropagate]
      exact (emits_addString _).andThen (emits_addString _)
    · rw [if_neg hpropagate, filter_cons_of_neg hpropagate]
      exact ih

lemma emits_addBinaryProperties (n : Nat) (properties : List BinaryProperty) :
    Emits 1 e (addBinaryProperties true n properties) true
      ((properties.filter (·.propagate)).flatMap (binaryPropertyImage e)) := by
  induction properties generalizing n with
  | nil => exact Emits.pure true
  | cons property rest ih =>
    rw [addBinaryProperties]
    by_cases hpropagate : property.propagate
    · rw [if_pos hpropagate, filter_cons_of_pos hpropagate, flatMap_cons]
      refine .andThen ?_ (ih _)
      rw [addBinaryProperty, if_pos hpropagate]
      exact (emits_addString _).andThen (emits_addOctetVector _)
    · rw [if_neg hpropagate, filter_cons_of_neg hpropagate]
      exact ih n

lemma emits_addDataHolder (dataHolder : DataHolder) :
    Emits 1 e (addDataHolder dataHolder) true (dataHolderImage e dataHolder) := by
  refine (emits_addString _).andThen (.andThen ?_ ?_)
  · rw [addPropertySeq, countP_eq_length_filter]
    exact emits_addSeq sixteen_le_propertyImage (emits_addProperties _)
  · rw [addBinaryPropertySeq, countP_eq_length_filter]
    exact emits_addSeq twelve_le_binaryPropertyImage (emits_addBinaryProperties _ _)

lemma emits_addDataHolders (dataHolders : List DataHolder) :
    Emits 1 e (addDataHolders dataHolders) true (dataHolders.flatMap (dataHolderImage e)) := by
  induction dataHolders with
  | nil => exact Emits.pure true
  | cons dataHolder rest ih =>
    exact (emits_addDataHolder dataHolder).andThen ih

lemma emits_addKey (key : Guid) : Emits slack e (addKey key) true (guidImage key) :=
  (emits_addData _).andThen (emits_addData _)

lemma emits_addMessageIdentity (identity : MessageIdentity) :
    Emits slack e (addMessageIdentity identity) true (identityImage e identity) :=
  (emits_addKey _).andThen (emits_addPrimitive 8 _)

lemma emits_addParticipantGenericMessage (message : ParticipantGenericMessage) :
    Emits 1 e (addParticipantGenericMessage message) true (genericMessageImage e message) :=
  (emits_addMessageIdentity _).andThen <| (emits_addMessageIdentity _).andThen <|
    (emits_addKey _).andThen <| (emits_addKey _).andThen <| (emits_addKey _).andThen <|
      (emits_addString _).andThen (emits_addSeq sixteen_le_dataHolderImage (emits_addDataHolders _))

end Writing

section Reading

variable {limit : Nat}

lemma run_countFits {msg : CdrMessage} {amount start factor : Nat}
    (hfits : start + factor * amount ≤ limit) (hlt : limit < 2 ^ 32) :
    ∃ accesses, (countFits amount start factor limit).run msg =
      (.ok (), { msg with accesses := accesses }) := by
  have hwrap : wrap32 (start + factor * amount) = start + factor * amount :=
    Nat.mod_eq_of_lt (by omega)
  refine ⟨msg.accesses ++ [.accepted msg.pos amount], ?_⟩
  simp only [countFits, record, run_read_bind, hwrap, if_neg (Nat.not_lt.mpr hfits), run_modify]

/-- The sequences of a data holder, read with a limit they keep. -/
theorem readSeq_readsAligned {m : Reader β} {f : α → β}
    (hk : ∀ x, k + 1 ≤ (image x).length) (hm : ∀ x, ReadsAligned e m (f x) (image x))
    (elements : List α) (hlimit : (seqImage e image elements).length ≤ limit)
    (hlt : limit < 2 ^ 32) :
    ReadsAligned e (readUInt32 >>= fun n => countFits n 0 (k + 1) limit >>= fun _ => times m n)
      (elements.map f) (seqImage e image elements) := by
  have hcount := mul_le_length_flatMap hk elements
  simp only [seqImage, length_append, length_wordImage] at hlimit
  have hnumber : elements.length < 2 ^ 32 := by
    rw [Nat.add_one_mul] at hcount
    omega
  have hfits : Reads e (countFits elements.length 0 (k + 1) limit) () [] := fun msg _ _ =>
    run_countFits (by omega) hlt
  refine ((reads_readUInt32 hnumber).aligned (by simp)).bind ?_
  exact (hfits.aligned rfl).bind (.times image f elements fun x _ => hm x)

lemma readProperty_readsAligned (property : Property) :
    ReadsAligned e readProperty property.received (propertyImage e property) :=
  (readString_readsAligned e _).bind (readString_readsAligned e _).map

lemma readBinaryProperty_readsAligned (property : BinaryProperty) :
    ReadsAligned e readBinaryProperty property.received (binaryPropertyImage e property) :=
  (readString_readsAligned e _).bind (readOctetVector_readsAligned e _).map

lemma readDataHolder_readsAligned (dataHolder : DataHolder)
    (hlimit : (dataHolderImage e dataHolder).length ≤ limit) (hlt : limit < 2 ^ 32) :
    ReadsAligned e (readDataHolder limit) dataHolder.received (dataHolderImage e dataHolder) := by
  simp only [dataHolderImage, length_append] at hlimit
  refine (readString_readsAligned e _).bind (.bind ?_ (.map ?_))
  · exact readSeq_readsAligned sixteen_le_propertyImage readProperty_readsAligned _ (by omega) hlt
  · exact readSeq_readsAligned twelve_le_binaryPropertyImage readBinaryProperty_readsAligned _
      (by omega) hlt

/-- Before a holder the rest of the message is long enough for it. -/
theorem readNextDataHolder_readsAligned (dataHolder : DataHolder) :
    ReadsAligned e readNextDataHolder dataHolder.received (dataHolderImage e dataHolder) := by
  refine ⟨dataHolderImage_whole dataHolder, fun msg hend hpos hahead => ?_⟩
  have hinside := hahead.inside
  have hlt := hahead.length_lt
  rw [readNextDataHolder, run_read_bind, sub32_of_le (by omega)]
  exact (readDataHolder_readsAligned dataHolder (by omega) (by omega)).run msg hend hpos hahead

lemma readDataHolderSeq_readsAligned (dataHolders : List DataHolder) :
    ReadsAligned e readDataHolderSeq (dataHolders.map DataHolder.received)
      (seqImage e (dataHolderImage e) dataHolders) := by
  refine ⟨seqImage_whole _ dataHolderImage_whole dataHolders, fun msg hend hpos hahead => ?_⟩
  have hcount := mul_le_length_flatMap (sixteen_le_dataHolderImage (e := e)) dataHolders
  have hinside := hahead.inside
  have hlt := hahead.length_lt
  simp only [seqImage, length_append, length_wordImage] at hinside
  have hnumber : dataHolders.length < 2 ^ 32 := by omega
  obtain ⟨accesses, hword⟩ := reads_readUInt32 hnumber msg hend hahead.left
  have hbehind : (msg.moved 4 accesses).pos % 4 = 0 := by
    change (msg.pos + 4) % 4 = 0
    omega
  rw [length_wordImage] at hword
  obtain ⟨accesses', hfits⟩ : ∃ accesses', (countFits dataHolders.length
      (msg.moved 4 accesses).pos 16 (msg.moved 4 accesses).length).run (msg.moved 4 accesses) =
      (.ok (), msg.moved 4 accesses') :=
    run_countFits (by change msg.pos + 4 + 16 * dataHolders.length ≤ msg.length; omega) hlt
  have hrest := hahead.right accesses'
  rw [length_wordImage] at hrest
  have hholders := ReadsAligned.times (dataHolderImage e) DataHolder.received dataHolders
    fun dataHolder _ => readNextDataHolder_readsAligned dataHolder
  obtain ⟨accesses'', hrun⟩ := hholders.run (msg.moved 4 accesses') hend hbehind hrest
  refine ⟨accesses'', ?_⟩
  rw [readDataHolderSeq, bind_of_ok hword, run_read_bind, bind_of_ok hfits]
  rw [seqImage, length_append, length_wordImage]
  simp only [moved, Nat.add_assoc] at hrun ⊢
  exact hrun

lemma readKey_readsAligned (key : Guid) : ReadsAligned e readKey key (guidImage key) := by
  have hlead : Reads e (readData true 12) key.guidPrefix.toList key.guidPrefix.toList := by
    simpa using reads_readOctets (e := e) key.guidPrefix.toList
  have hentity : Reads e (readData true 4) key.entityId.toList key.entityId.toList := by
    simpa using reads_readOctets (e := e) key.entityId.toList
  have hread : Reads e readKey ⟨ofBytes 12 key.guidPrefix.toList, ofBytes 4 key.entityId.toList⟩
      (guidImage key) := hlead.bind hentity.map
  rw [ofBytes_toList, ofBytes_toList] at hread
  exact hread.aligned (by simp [guidImage])

lemma signed_toNat {x : Int} (hlow : -2 ^ 63 ≤ x) (hhigh : x < 2 ^ 63) :
    signed 8 (x % 2 ^ 64).toNat = x := by
  rw [signed]
  split <;> omega

lemma readInt64_readsAligned (x : Int64) :
    ReadsAligned e readInt64 x.toInt (wordImage e 8 (x.toInt % 2 ^ 64).toNat) := by
  have hread := (reads_readWord (e := e) 8 (x.toInt % 2 ^ 64).toNat).map (f := signed 8)
  rw [Nat.mod_eq_of_lt (by omega), signed_toNat (Int64.le_toInt x) (Int64.toInt_lt x)] at hread
  exact hread.aligned (by simp)

lemma readMessageIdentity_readsAligned (identity : MessageIdentity) :
    ReadsAligned e readMessageIdentity identity (identityImage e identity) := by
  have hread : ReadsAligned e readMessageIdentity
      ⟨identity.sourceGuid, .ofInt identity.sequenceNumber.toInt⟩ (identityImage e identity) :=
    (readKey_readsAligned _).bind (readInt64_readsAligned _).map
  rw [Int64.ofInt_toInt] at hread
  exact hread

lemma readParticipantGenericMessage_readsAligned (message : ParticipantGenericMessage) :
    ReadsAligned e readParticipantGenericMessage message.received (genericMessageImage e message) :=
  (readMessageIdentity_readsAligned _).bind <| (readMessageIdentity_readsAligned _).bind <|
    (readKey_readsAligned _).bind <| (readKey_readsAligned _).bind <|
      (readKey_readsAligned _).bind <| (readString_readsAligned e _).bind
        (readDataHolderSeq_readsAligned _).map

end Reading

section RoundTrip

lemma genericMessage_runs (message : ParticipantGenericMessage) (msg : CdrMessage)
    (haligned : msg.pos % 4 = 0) (hpos : msg.pos ≤ msg.length)
    (hroom : msg.Room ((genericMessageImage msg.msgEndian message).length + 1)) :
    ∃ written, (addParticipantGenericMessage message).run msg = (.ok true, written) ∧
      ∃ read, readParticipantGenericMessage.run (written.rewound msg.pos) =
        (.ok message.received, read) ∧ read.pos = written.pos := by
  refine ⟨_, emits_addParticipantGenericMessage message msg rfl hroom, ?_⟩
  obtain ⟨accesses, hread⟩ := (readParticipantGenericMessage_readsAligned message).run
    ((msg.append (genericMessageImage msg.msgEndian message)).rewound msg.pos) rfl haligned
    (ahead_append (hroom.mono (Nat.le_add_right _ 1)) hpos)
  exact ⟨_, hread, rfl⟩

/-- A participant generic message that is written at a multiple of four, and read back from there,
arrives with exactly its properties that are marked for propagation and its strings up to their
first null, and the reader stops where the writer did. Without nulls that is the message itself. -/
theorem genericMessage_roundTrip (message : ParticipantGenericMessage) (msg : CdrMessage)
    (haligned : msg.pos % 4 = 0) (hpos : msg.pos ≤ msg.length)
    (hroom : msg.Room ((genericMessageImage msg.msgEndian message).length + 1)) :
    (∃ written, (addParticipantGenericMessage message).run msg = (.ok true, written) ∧
      ∃ read, readParticipantGenericMessage.run (written.rewound msg.pos) =
        (.ok message.received, read) ∧ read.pos = written.pos) ∧
      ((∀ s ∈ message.strings, (0 : UInt8) ∉ s) → message.received = message.propagated) :=
  ⟨genericMessage_runs message msg haligned hpos hroom, ParticipantGenericMessage.received_eq⟩

def sampleMessage (properties : List Property) (binaryProperties : List BinaryProperty) :
    ParticipantGenericMessage where
  messageIdentity := ⟨.unknown, 1⟩
  relatedMessageIdentity := ⟨.unknown, -1⟩
  destinationParticipantKey := .unknown
  destinationEndpointKey := .unknown
  sourceEndpointKey := .unknown
  messageClassId := [100]
  messageData := [⟨[104], properties, binaryProperties⟩]

def sampleFiltered : ParticipantGenericMessage :=
  sampleMessage [⟨[97], [98, 99], true⟩, ⟨[97], [], false⟩] [⟨[120], [1, 2, 3, 4, 5], true⟩]

theorem genericMessage_roundTrip_filtered :
    sampleFiltered.propagated = sampleMessage [⟨[97], [98, 99], false⟩]
      [⟨[120], [1, 2, 3, 4, 5], true⟩] ∧
      ∃ written, (addParticipantGenericMessage sampleFiltered).run (emptyMessage 300) =
        (.ok true, written) ∧ ∃ read, readParticipantGenericMessage.run (written.rewound 0) =
          (.ok sampleFiltered.propagated, read) ∧ read.pos = written.pos := by
  have h := genericMessage_roundTrip sampleFiltered (emptyMessage 300) rfl (Nat.le_refl 0)
    ⟨by decide +kernel, by decide, by decide +kernel⟩
  exact ⟨by decide, h.1⟩

def shiftedMessage : CdrMessage := { emptyMessage 300 with pos := 1, length := 1 }

/-- A null in a value cuts it, and at another place than a multiple of four the reader takes the
padding for the number of holders and stops before the writer did. -/
theorem genericMessage_roundTrip_cut :
    (∃ written, (addParticipantGenericMessage (sampleMessage [⟨[97], [98, 0, 99], true⟩] [])).run
      (emptyMessage 300) = (.ok true, written) ∧
      ∃ read, readParticipantGenericMessage.run (written.rewound 0) =
        (.ok (sampleMessage [⟨[97], [98], false⟩] []), read)) ∧
    ∃ written, (addParticipantGenericMessage (sampleMessage [] [])).run shiftedMessage =
      (.ok true, written) ∧ written.pos = 125 ∧
      (readParticipantGenericMessage.run (written.rewound 1)).2.pos = 108 := by
  refine ⟨?_, _, rfl, by decide, by decide⟩
  obtain ⟨written, hwrite, read, hread, -⟩ := genericMessage_runs
    (sampleMessage [⟨[97], [98, 0, 99], true⟩] []) (emptyMessage 300) rfl (Nat.le_refl 0)
    ⟨by decide +kernel, by decide, by decide +kernel⟩
  exact ⟨written, hwrite, read, hread⟩

end RoundTrip

end CdrMessage

end EasyDds.Rtps
