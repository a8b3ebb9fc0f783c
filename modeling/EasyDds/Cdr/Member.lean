import EasyDds.Cdr.Scalar

/-!
DHEADERs, member headers and the begin/end pairs around members and types, for the three
families of callbacks that `reset_callbacks` selects from. Member headers are written before
the content with a provisional form and patched afterwards, which may move the content.
-/

namespace EasyDds.Cdr

open Prog

variable (m : MemberId) (memberSerializedSize : Nat) (currentState : State)

def pidExtended : Nat := 0x3F01
def pidExtendedLength : Nat := 0x8
def pidSentinel : Nat := 0x3F02
def pidSentinelLength : Nat := 0x0

def getLongLc : SerializedMemberSizeForNextInt → Nat
  | .serializedMemberSize8 => 0x70000000
  | .serializedMemberSize4 => 0x60000000
  | .serializedMemberSize => 0x50000000
  | .noSerializedMemberSize => 0x40000000

def getShortLc : Nat :=
  match memberSerializedSize with
  | 1 => 0x00000000
  | 2 => 0x10000000
  | 4 => 0x20000000
  | 8 => 0x30000000
  | _ => 0xFFFFFFFF

def getSerializedMemberSize (p : Prim) : SerializedMemberSizeForNextInt :=
  if p.sizeof = 1 then .serializedMemberSize
  else if p.sizeof = 4 then .serializedMemberSize4
  else if p.sizeof = 8 then .serializedMemberSize8
  else .noSerializedMemberSize

def allocateXcdrv2Dheader : CdrM State := do
  let s ← read
  if s.cdrVersion = .xcdrV2 then serializeU32 0
  pure s.getState

def setXcdrv2Dheader (dheaderState : State) : CdrM Unit := do
  let s ← read
  if s.cdrVersion = .xcdrV2 then
    modify (setState dheaderState)
    let t ← read
    serializeU32 (iteratorDiff (iteratorDiff s.offset t.offset) (4 + t.alignment 4))
    modify (setState s.getState)
    setSerializedMemberSize .serializedMemberSize

/-- The first word of an XCDRv1 header: the flag and the low 16 bits of a PID. -/
def flagsAndPid (pid : Nat) : Nat := (if m.mustUnderstand then 0x4000 else 0x0) ||| pid % 2 ^ 16

def xcdr1SerializeShortMemberHeader : CdrM Unit := do
  alignHeader
  serializeU16 (flagsAndPid m m.id)
  serializeU16 0
  modify resetAlignment

def xcdr1EndShortMemberHeader : CdrM Unit := do
  modify fun s => s.makeAlignment (s.alignment 4)
  let _ ← jump 2
  serializeU16 memberSerializedSize

def xcdr1SerializeLongMemberHeader : CdrM Unit := do
  alignHeader
  serializeU16 (flagsAndPid m pidExtended)
  serializeU16 pidExtendedLength
  serializeU32 m.id
  serializeU32 0
  modify resetAlignment

def xcdr1EndLongMemberHeader : CdrM Unit := do
  let _ ← jump 8
  serializeU32 memberSerializedSize

def xcdr1ChangeToShortMemberHeader : CdrM Unit := do
  serializeU16 (flagsAndPid m m.id)
  serializeU16 memberSerializedSize
  modify fun s => s.memmove s.offset (s.offset + 8) memberSerializedSize

/-- The test of the source is on an unsigned difference: only a difference of exactly zero
is refused. -/
def xcdr1ChangeToLongMemberHeader : CdrM Unit := do
  modify fun s => s.note (.grow 12 memberSerializedSize s.room)
  if 0 < iteratorDiff (← read).room (memberSerializedSize + 11) then
    modify fun s => s.memmove (s.offset + 12) (s.offset + 4) memberSerializedSize
  else raise .notEnoughMemory
  serializeU16 (flagsAndPid m pidExtended)
  serializeU16 pidExtendedLength
  serializeU32 m.id
  serializeU32 memberSerializedSize

/-- The member id in `MemberId` form; identifiers are `uint32_t`. -/
def MemberId.ofNat (id : Nat) (mustUnderstand : Bool) : MemberId :=
  ⟨id % 2 ^ 32, mustUnderstand, Nat.mod_lt _ (by decide)⟩

def xcdr1DeserializeMemberHeader (memberId : MemberId) (currentState : State) :
    CdrM (Bool × MemberId × State) := do
  alignHeader
  let flagsAndMemberId ← deserializeU16
  let mustUnderstand : Bool := flagsAndMemberId &&& 0x4000 != 0
  let id := flagsAndMemberId &&& 0x3FFF
  if id < pidExtended then
    let size ← deserializeU16
    modify resetAlignment
    pure (true, .ofNat id mustUnderstand,
      { currentState with memberSize := size, headerSerialized := .shortHeader })
  else if id = pidExtended then
    let size ← deserializeU16
    if size ≠ pidExtendedLength then
      raise (.badParam "PID_EXTENDED comes with a size different than 8")
    else
      let mid ← deserializeU32
      let memberSize ← deserializeU32
      modify resetAlignment
      pure (true, .ofNat mid mustUnderstand,
        { currentState with memberSize, headerSerialized := .longHeader })
  else if id = pidSentinel then
    let size ← deserializeU16
    if size ≠ pidSentinelLength then
      raise (.badParam "PID_SENTINEL comes with a size different than 0")
    else pure (false, { memberId with mustUnderstand }, { currentState with memberSize := size })
  else pure (true, { memberId with mustUnderstand }, currentState)

def flagsAndMemberId (lc : Nat) : Nat :=
  (if m.mustUnderstand then 0x80000000 else 0x0) ||| lc ||| m.id

def xcdr2SerializeShortMemberHeader : CdrM Unit := serializeU32 (flagsAndMemberId m 0)

def xcdr2EndShortMemberHeader : CdrM Unit :=
  serializeU32 (flagsAndMemberId m (getShortLc memberSerializedSize))

def xcdr2SerializeLongMemberHeader : CdrM Unit := do
  serializeU32 (flagsAndMemberId m 0)
  serializeU32 0

def xcdr2EndLongMemberHeader : CdrM Unit := do
  let s ← read
  let lc := if memberSerializedSize = 0 then getLongLc s.serializedMemberSize else 0x40000000
  serializeU32 (flagsAndMemberId m lc)
  if 0 < memberSerializedSize then serializeU32 memberSerializedSize

def xcdr2ChangeToShortMemberHeader : CdrM Unit := do
  serializeU32 (flagsAndMemberId m (getShortLc memberSerializedSize))
  modify fun s => s.memmove s.offset (s.offset + 4) memberSerializedSize

def xcdr2ChangeToLongMemberHeader : CdrM Unit := do
  modify fun s => s.note (.grow 8 memberSerializedSize s.room)
  if 0 < iteratorDiff (← read).room (memberSerializedSize + 7) then
    modify fun s => s.memmove (s.offset + 8) (s.offset + 4) memberSerializedSize
  else raise .notEnoughMemory
  serializeU32 (flagsAndMemberId m (getLongLc (← read).serializedMemberSize))
  serializeU32 memberSerializedSize

def xcdr2ShrinkToLongMemberHeader (lastOffset : Nat) : CdrM Unit := do
  modify fun s => s.memmove (s.offset + 4) (s.offset + 8)
    (iteratorDiff (iteratorDiff lastOffset s.offset) 8)
  serializeU32 (flagsAndMemberId m (getLongLc (← read).serializedMemberSize))

def xcdr2DeserializeMemberHeader : CdrM (MemberId × State) := do
  let word ← deserializeU32
  let memberId : MemberId := .ofNat (word &&& 0x0FFFFFFF) (word &&& 0x80000000 != 0)
  let lc := (word &&& 0x70000000) >>> 28
  if lc < 4 then
    pure (memberId, { currentState with memberSize := 2 ^ lc, headerSerialized := .shortHeader })
  else if lc = 4 then
    let size ← deserializeU32
    pure (memberId, { currentState with memberSize := size, headerSerialized := .longHeader })
  else
    let size ← deserializeU32
    modify fun s => s.moveTo (s.offset - 4)
    pure (memberId, { currentState with
      memberSize := (4 + size * (if lc = 5 then 1 else if lc = 6 then 4 else 8)) % 2 ^ 32
      headerSerialized := .shortHeader })

def xcdr1SerializeMemberHeader (headerSelection : XCdrHeaderSelection) : CdrM State := do
  if m.id ≤ 0x3F00 then
    match headerSelection with
    | .autoWithShortHeaderByDefault | .shortHeader =>
      xcdr1SerializeShortMemberHeader m
      pure { currentState with headerSerialized := .shortHeader, headerSelection }
    | .autoWithLongHeaderByDefault | .longHeader =>
      xcdr1SerializeLongMemberHeader m
      pure { currentState with headerSerialized := .longHeader, headerSelection }
  else
    match headerSelection with
    | .autoWithShortHeaderByDefault | .autoWithLongHeaderByDefault | .longHeader =>
      xcdr1SerializeLongMemberHeader m
      pure { currentState with headerSerialized := .longHeader, headerSelection }
    | .shortHeader =>
      raise (.badParam
        "Cannot encode XCDRv1 ShortMemberHeader when member_id is bigger than 0x3F00")

def xcdr1BeginSerializeMember (headerSelection : XCdrHeaderSelection) : CdrM State := do
  let st ← if (← read).currentEncoding = .plCdr
    then xcdr1SerializeMemberHeader m currentState headerSelection
    else pure currentState
  setNextMemberId memberIdInvalid
  pure { st with nextMemberId := m }

def xcdr1BeginSerializeOptMember (isPresent : Bool) (currentState : State)
    (headerSelection : XCdrHeaderSelection) : CdrM State := do
  let st ← if isPresent ∨ (← read).currentEncoding ≠ .plCdr
    then xcdr1SerializeMemberHeader m currentState headerSelection
    else pure currentState
  setNextMemberId memberIdInvalid
  pure { st with memberSize := if isPresent then 1 else 0, nextMemberId := m }

def xcdr1RewriteMemberHeader (memberSerializedSize origin : Nat) : CdrM Nat := do
  let m := currentState.nextMemberId
  if memberSerializedSize > 0xFFFF then
    if currentState.headerSerialized = .shortHeader then
      if currentState.headerSelection = .autoWithShortHeaderByDefault then
        xcdr1ChangeToLongMemberHeader m memberSerializedSize
        pure (origin + 8)
      else raise (.badParam
        "Cannot encode XCDRv1 ShortMemberHeader when serialized member size is greater than 0xFFFF")
    else
      xcdr1EndLongMemberHeader memberSerializedSize
      pure origin
  else
    if currentState.headerSerialized = .shortHeader then
      xcdr1EndShortMemberHeader memberSerializedSize
      pure origin
    else if currentState.headerSelection = .longHeader ∨ 0x3F00 < m.id then
      xcdr1EndLongMemberHeader memberSerializedSize
      pure origin
    else if currentState.headerSelection = .autoWithLongHeaderByDefault then
      xcdr1ChangeToShortMemberHeader m memberSerializedSize
      pure (origin - 8)
    else pure origin

def xcdr1PatchMemberHeader : CdrM Unit := do
  let last ← read
  modify (setState currentState)
  modify fun s => s.makeAlignment (s.alignment 4)
  let s ← read
  let memberSerializedSize := iteratorDiff (iteratorDiff last.offset s.offset)
    (if currentState.headerSerialized = .shortHeader then 4 else 12)
  let memberOrigin ← xcdr1RewriteMemberHeader currentState memberSerializedSize last.origin
  modify fun s => { s with origin := memberOrigin }
  let _ ← jump memberSerializedSize

def xcdr1EndSerializeMember : CdrM Unit := do
  if (← read).currentEncoding = .plCdr then xcdr1PatchMemberHeader currentState
  setNextMemberId memberIdInvalid

def xcdr1EndSerializeOptMember : CdrM Unit := do
  if 0 < currentState.memberSize then xcdr1PatchMemberHeader currentState
  setNextMemberId memberIdInvalid

def xcdr2BeginSerializeMember (isPresent : Bool) (currentState : State)
    (headerSelection : XCdrHeaderSelection) : CdrM State := do
  let st ←
    if isPresent ∧ (← read).currentEncoding = .plCdr2 then
      if 0x10000000 ≤ m.id then
        raise (.badParam
          "Cannot serialize a member identifier equal or greater than 0x10000000")
      else
        match headerSelection with
        | .shortHeader | .autoWithShortHeaderByDefault => do
          xcdr2SerializeShortMemberHeader m
          pure { currentState with headerSerialized := .shortHeader, headerSelection }
        | .longHeader | .autoWithLongHeaderByDefault => do
          xcdr2SerializeLongMemberHeader m
          pure { currentState with headerSerialized := .longHeader, headerSelection }
    else pure currentState
  setNextMemberId memberIdInvalid
  pure { st with memberSize := if isPresent then 1 else 0, nextMemberId := m }

/-- The patch of an XCDRv2 member header once the content is written. When the content
starts with its own length word, that word doubles as the NEXTINT of the header. -/
def xcdr2PatchMemberHeader : CdrM Unit := do
  let lastOffset := (← read).offset
  modify (setState currentState)
  modify fun s => s.makeAlignment (s.alignment 4)
  let s ← read
  let m := currentState.nextMemberId
  if s.serializedMemberSize = .noSerializedMemberSize then
    let memberSerializedSize := iteratorDiff (iteratorDiff lastOffset s.offset)
      (if currentState.headerSerialized = .shortHeader then 4 else 8)
    if 8 < memberSerializedSize ∨ getShortLc memberSerializedSize = 0xFFFFFFFF then
      if currentState.headerSerialized = .shortHeader then
        if currentState.headerSelection = .autoWithShortHeaderByDefault then
          xcdr2ChangeToLongMemberHeader m memberSerializedSize
        else raise (.badParam "Cannot encode XCDRv2 LongMemberHeader")
      else xcdr2EndLongMemberHeader m memberSerializedSize
    else
      if currentState.headerSerialized = .shortHeader then
        xcdr2EndShortMemberHeader m memberSerializedSize
      else if currentState.headerSelection = .autoWithLongHeaderByDefault then
        xcdr2ChangeToShortMemberHeader m memberSerializedSize
      else xcdr2EndLongMemberHeader m memberSerializedSize
    let _ ← jump memberSerializedSize
  else
    if currentState.headerSerialized = .shortHeader then
      if currentState.headerSelection = .autoWithShortHeaderByDefault then
        xcdr2EndLongMemberHeader m 0
        modify fun s => s.moveTo lastOffset
      else raise (.badParam "Cannot encode XCDRv2 LongMemberHeader")
    else
      xcdr2ShrinkToLongMemberHeader m lastOffset
      modify fun s => s.moveTo (lastOffset - 4)
    modify fun s => { s with lastDataSize := 0 }

def xcdr2EndSerializeMember : CdrM Unit := do
  if 0 < currentState.memberSize ∧ (← read).currentEncoding = .plCdr2 then
    xcdr2PatchMemberHeader currentState
  setNextMemberId memberIdInvalid
  setSerializedMemberSize .noSerializedMemberSize

end EasyDds.Cdr
