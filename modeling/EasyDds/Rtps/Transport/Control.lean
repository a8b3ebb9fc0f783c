import Mathlib.Tactic.NormNum
import EasyDds.Rtps.Message.CdrMessage

/-!
`RTCPMessageManager::processRTCPMessage`: how a control message is taken out of the receive buffer.
-/

namespace EasyDds.Rtps

open Option

/-- A computation that reads the receive buffer, with the places and sizes it reads. -/
structure Reading (α : Type) where
  result : α
  reads : List (Nat × Nat)

namespace Reading

instance : Monad Reading where
  pure a := ⟨a, []⟩
  bind m f := ⟨(f m.result).result, m.reads ++ (f m.result).reads⟩

variable {α β : Type}

@[simp] lemma result_pure (a : α) : (pure a : Reading α).result = a := rfl

@[simp] lemma reads_pure (a : α) : (pure a : Reading α).reads = [] := rfl

@[simp] lemma result_bind (m : Reading α) (f : α → Reading β) :
    (m >>= f).result = (f m.result).result := rfl

@[simp] lemma reads_bind (m : Reading α) (f : α → Reading β) :
    (m >>= f).reads = m.reads ++ (f m.result).reads := rfl

def fetch (buffer : Mem) (offset size : Nat) : Reading (List UInt8) :=
  ⟨buffer.slice offset size, [(offset, size)]⟩

@[simp] lemma result_fetch (buffer : Mem) (offset size : Nat) :
    (fetch buffer offset size).result = buffer.slice offset size := rfl

@[simp] lemma reads_fetch (buffer : Mem) (offset size : Nat) :
    (fetch buffer offset size).reads = [(offset, size)] := rfl

end Reading

open Reading

inductive TCPCPMKind
  | bindConnectionRequest
  | bindConnectionResponse
  | openLogicalPortRequest
  | openLogicalPortResponse
  | checkLogicalPortRequest
  | checkLogicalPortResponse
  | keepAliveRequest
  | keepAliveResponse
  | logicalPortIsClosedRequest
  | unbindConnectionRequest
deriving DecidableEq, Repr

def TCPCPMKind.ofOctet : UInt8 → Option TCPCPMKind
  | 0xD1 => some .bindConnectionRequest
  | 0xE1 => some .bindConnectionResponse
  | 0xD2 => some .openLogicalPortRequest
  | 0xE2 => some .openLogicalPortResponse
  | 0xD3 => some .checkLogicalPortRequest
  | 0xE3 => some .checkLogicalPortResponse
  | 0xD4 => some .keepAliveRequest
  | 0xE4 => some .keepAliveResponse
  | 0xD5 => some .logicalPortIsClosedRequest
  | 0xD6 => some .unbindConnectionRequest
  | _ => none

structure ControlHeader where
  kind : UInt8
  flags : UInt8
  length : Nat
  transactionId : Nat × Nat × Nat

/-- The sixteen bytes of a header after `valid_endianness`, which swaps the numbers only if the
flags agree with the byte order of the message. -/
def ControlHeader.ofBytes (msgEndian : Endianness) (bytes : List UInt8) : ControlHeader :=
  let flags := bytes.getD 1 0
  let internal : Endianness := if flags &&& 2 ≠ 0 then .littleend else .bigend
  let swap := decide (internal = msgEndian ∧ msgEndian ≠ .littleend)
  { kind := bytes.getD 0 0
    flags
    length := ofWordBytes swap ((bytes.drop 2).take 2)
    transactionId := (ofWordBytes swap ((bytes.drop 4).take 4),
      ofWordBytes swap ((bytes.drop 8).take 4), ofWordBytes swap ((bytes.drop 12).take 4)) }

/-- A `SerializedPayload_t` taken from a message: `copied` is the front of its data. -/
structure ControlPayload where
  encapsulation : List UInt8
  length : Nat
  copied : List UInt8

def ControlPayload.decodedSize (p : ControlPayload) : Nat := (p.length + 4) % 2 ^ 32

def readSerializedPayload (buffer : Mem) (data size : Nat) : Reading ControlPayload := do
  let encapsulation ← fetch buffer data 2
  let length ← fetch buffer (data + 2) 4
  let copied ← fetch buffer (data + 6) size
  pure { encapsulation, length := ofLittleEndian length, copied }

inductive Handling
  | badRequest
  | request (payload : ControlPayload)
  | response (respCode : Nat) (payload : ControlPayload)
  | code (respCode : Nat)
  | unbind

def Handling.payload : Handling → Option ControlPayload
  | .request payload => some payload
  | .response _ payload => some payload
  | _ => none

def readRequest (buffer : Mem) (dataSize : Nat) : Reading Handling := do
  let payload ← readSerializedPayload buffer 16 dataSize
  pure (.request payload)

def readResponse (buffer : Mem) (dataSize : Nat) : Reading Handling := do
  let respCode ← fetch buffer 16 4
  let payload ← readSerializedPayload buffer 20 dataSize
  pure (.response (ofLittleEndian respCode) payload)

def readCode (buffer : Mem) : Reading Handling := do
  let respCode ← fetch buffer 16 4
  pure (.code (ofLittleEndian respCode))

def readKind (buffer : Mem) (dataSize : Nat) : Option TCPCPMKind → Reading Handling
  | some .bindConnectionRequest => readRequest buffer dataSize
  | some .bindConnectionResponse => readResponse buffer dataSize
  | some .openLogicalPortRequest => readRequest buffer dataSize
  | some .checkLogicalPortRequest => readRequest buffer dataSize
  | some .checkLogicalPortResponse => readResponse buffer dataSize
  | some .keepAliveRequest => readRequest buffer dataSize
  | some .logicalPortIsClosedRequest => readRequest buffer dataSize
  | some .unbindConnectionRequest => pure .unbind
  | some .openLogicalPortResponse => readCode buffer
  | some .keepAliveResponse => readCode buffer
  | none => pure .badRequest

def wrap64 (n : Int) : Nat := (n % 2 ^ 64).toNat

def dataSizeOf (length : Nat) : Nat := wrap64 (length - 16)

def processBody (buffer : Mem) (receivedSize : Nat) (controlHeader : ControlHeader) :
    Reading (ControlHeader × Handling) :=
  let dataSize := dataSizeOf controlHeader.length
  if wrap64 (dataSize + 16) ≠ receivedSize then pure (controlHeader, .badRequest)
  else do
    let handling ← readKind buffer dataSize (TCPCPMKind.ofOctet controlHeader.kind)
    pure (controlHeader, handling)

def processRTCPMessage (buffer : Mem) (receivedSize : Nat) (msgEndian : Endianness) :
    Reading (ControlHeader × Handling) := do
  let bytes ← fetch buffer 0 16
  processBody buffer receivedSize (ControlHeader.ofBytes msgEndian bytes)

def ReadsInside {α : Type} (m : Reading α) (receivedSize : Nat) : Prop :=
  ∀ r ∈ m.reads, ∀ i, r.1 ≤ i → i < r.1 + r.2 → i < receivedSize

def DecodesCopied (handling : Handling) : Prop :=
  ∀ p, handling.payload = some p → p.decodedSize ≤ p.copied.length

def TCPCPMKind.payloadOffset : TCPCPMKind → Option Nat
  | .bindConnectionRequest | .openLogicalPortRequest | .checkLogicalPortRequest
  | .keepAliveRequest | .logicalPortIsClosedRequest => some 16
  | .bindConnectionResponse | .checkLogicalPortResponse => some 20
  | .openLogicalPortResponse | .keepAliveResponse | .unbindConnectionRequest => none

/-- The bytes behind the header that a kind without a payload needs. -/
def TCPCPMKind.codeSize : TCPCPMKind → Nat
  | .openLogicalPortResponse | .keepAliveResponse => 4
  | _ => 0

lemma controlLength_lt (msgEndian : Endianness) (buffer : Mem) :
    (ControlHeader.ofBytes msgEndian (buffer.slice 0 16)).length < 2 ^ 16 := by
  refine (ofWordBytes_lt _ _).trans_le ?_
  simp

section Kinds

variable {kind : TCPCPMKind} {buffer : Mem} {dataSize offset : Nat}

variable (buffer dataSize) in
lemma readKind_of_payload (h : kind.payloadOffset = some offset) :
    16 ≤ offset ∧ (offset, 2) ∈ (readKind buffer dataSize (some kind)).reads ∧
      (offset + 6, dataSize) ∈ (readKind buffer dataSize (some kind)).reads ∧
      ∃ p, (readKind buffer dataSize (some kind)).result.payload = some p ∧
        p.length = ofLittleEndian (buffer.slice (offset + 2) 4) ∧ p.copied.length = dataSize := by
  cases kind <;> cases h <;>
    simp [readKind, readRequest, readResponse, readSerializedPayload, Handling.payload]

variable (buffer dataSize) in
lemma readKind_of_none (h : kind.payloadOffset = none) :
    (∀ r ∈ (readKind buffer dataSize (some kind)).reads, r = (16, kind.codeSize)) ∧
      (kind.codeSize ≠ 0 → (16, kind.codeSize) ∈ (readKind buffer dataSize (some kind)).reads) ∧
      (readKind buffer dataSize (some kind)).result.payload = none := by
  cases kind <;> cases h <;> simp [readKind, readCode, TCPCPMKind.codeSize, Handling.payload]

/-- The copy of a payload begins six bytes behind the place it is counted from, so it ends behind
the message. -/
theorem not_readsInside_of_payload {receivedSize : Nat} (h : kind.payloadOffset = some offset)
    (hsize : receivedSize ≤ dataSize + 16) :
    ¬ ReadsInside (readKind buffer dataSize (some kind)) receivedSize := by
  obtain ⟨hoffset, hfirst, hlast, -⟩ := readKind_of_payload buffer dataSize h
  intro hinside
  have hbegin := hinside _ hfirst offset le_rfl (by simp)
  have hend := hinside _ hlast (offset + 6 + dataSize - 1)
  omega

lemma readsInside_iff_of_none {receivedSize : Nat} (h : kind.payloadOffset = none)
    (hsize : 16 ≤ receivedSize) :
    ReadsInside (readKind buffer dataSize (some kind)) receivedSize ↔
      16 + kind.codeSize ≤ receivedSize := by
  obtain ⟨hall, hcode, -⟩ := readKind_of_none buffer dataSize h
  constructor
  · intro hinside
    by_cases hzero : kind.codeSize = 0
    · omega
    · have hlast := hinside _ (hcode hzero) (16 + kind.codeSize - 1)
      omega
  · intro hle r hr i hlow hhigh
    rw [hall r hr] at hhigh
    omega

lemma decodesCopied_readKind_iff :
    DecodesCopied (readKind buffer dataSize (some kind)).result ↔ ∀ offset,
      kind.payloadOffset = some offset →
        (ofLittleEndian (buffer.slice (offset + 2) 4) + 4) % 2 ^ 32 ≤ dataSize := by
  cases hpayload : kind.payloadOffset with
  | none =>
    have hnone := (readKind_of_none buffer dataSize hpayload).2.2
    simp [DecodesCopied, hnone]
  | some offset =>
    obtain ⟨-, -, -, p, hp, hlength, hcopied⟩ :=
      readKind_of_payload buffer dataSize hpayload
    simp only [DecodesCopied, hp, some.injEq, forall_eq', ControlPayload.decodedSize,
      hlength, hcopied]

end Kinds

section Process

lemma le_dataSizeOf (length : Nat) (h : length < 2 ^ 64) : length ≤ dataSizeOf length + 16 := by
  rw [dataSizeOf, wrap64]
  omega

lemma dataSizeOf_add {length : Nat} (h : length < 2 ^ 64) :
    wrap64 (dataSizeOf length + 16) = length := by
  rw [dataSizeOf, wrap64, wrap64]
  omega

variable {buffer : Mem} {receivedSize : Nat} {header : ControlHeader} (hlt : header.length < 2 ^ 16)
include hlt

lemma processBody_of_ne (hne : header.length ≠ receivedSize) :
    processBody buffer receivedSize header = pure (header, .badRequest) := by
  rw [processBody, dataSizeOf_add (by omega)]
  exact if_pos hne

lemma processBody_of_eq (heq : header.length = receivedSize) :
    processBody buffer receivedSize header =
      (readKind buffer (dataSizeOf receivedSize) (TCPCPMKind.ofOctet header.kind) >>=
        fun handling =>
        pure (header, handling)) := by
  rw [processBody, dataSizeOf_add (by omega), heq]
  exact if_neg (not_not.2 rfl)

/-- A message that passes the size check is read inside its bounds only if it has no payload. -/
theorem processBody_readsInside_iff (hsize : 16 ≤ receivedSize) :
    ReadsInside (processBody buffer receivedSize header) receivedSize ↔
      (header.length = receivedSize → ∀ kind, TCPCPMKind.ofOctet header.kind = some kind →
        kind.payloadOffset = none ∧ 16 + kind.codeSize ≤ receivedSize) := by
  by_cases heq : header.length = receivedSize
  · have hreads : ReadsInside (processBody buffer receivedSize header) receivedSize ↔
        ReadsInside (readKind buffer (dataSizeOf receivedSize) (TCPCPMKind.ofOctet header.kind))
          receivedSize := by
      simp only [ReadsInside, processBody_of_eq hlt heq, reads_bind, reads_pure, List.append_nil]
    have hle := le_dataSizeOf receivedSize (by omega)
    rw [hreads]
    generalize dataSizeOf receivedSize = n at hle ⊢
    cases hkind : TCPCPMKind.ofOctet header.kind with
    | none => simp [ReadsInside, readKind]
    | some kind =>
      simp only [some.injEq, forall_eq', heq, forall_const]
      cases hpayload : kind.payloadOffset with
      | none => simp [readsInside_iff_of_none hpayload hsize]
      | some offset => simp [not_readsInside_of_payload hpayload hle]
  · simp [processBody_of_ne hlt heq, ReadsInside, heq]

variable (buffer receivedSize) in
/-- The length in the payload decides what is decoded. -/
theorem processBody_decodesCopied_iff :
    DecodesCopied (processBody buffer receivedSize header).result.2 ↔
      (header.length = receivedSize → ∀ kind, TCPCPMKind.ofOctet header.kind = some kind →
        ∀ offset, kind.payloadOffset = some offset →
          (ofLittleEndian (buffer.slice (offset + 2) 4) + 4) % 2 ^ 32 ≤
            dataSizeOf receivedSize) := by
  by_cases heq : header.length = receivedSize
  · rw [processBody_of_eq hlt heq, result_bind, result_pure]
    generalize dataSizeOf receivedSize = n
    cases TCPCPMKind.ofOctet header.kind with
    | none => simp [DecodesCopied, readKind, Handling.payload]
    | some kind =>
      simp only [some.injEq, forall_eq', heq, forall_const, decodesCopied_readKind_iff]
  · rw [processBody_of_ne hlt heq, result_pure]
    exact iff_of_true (fun p hp => absurd hp (by simp [Handling.payload])) fun h => absurd h heq

end Process

lemma reads_process (buffer : Mem) (receivedSize : Nat) (msgEndian : Endianness) :
    (processRTCPMessage buffer receivedSize msgEndian).reads = (0, 16) ::
      (processBody buffer receivedSize
        (ControlHeader.ofBytes msgEndian (buffer.slice 0 16))).reads := by
  rw [processRTCPMessage, reads_bind, reads_fetch, result_fetch, List.singleton_append]

/-- The header is read whatever the size, and a payload is always copied from behind the message;
what is decoded lies inside the copy exactly if the length in the payload says so. -/
theorem control_message_bounds (buffer : Mem) (receivedSize : Nat) (msgEndian : Endianness) :
    let header := ControlHeader.ofBytes msgEndian (buffer.slice 0 16)
    let message := processRTCPMessage buffer receivedSize msgEndian
    (ReadsInside message receivedSize ↔
      16 ≤ receivedSize ∧ (header.length = receivedSize →
        ∀ kind, TCPCPMKind.ofOctet header.kind = some kind →
          kind.payloadOffset = none ∧ 16 + kind.codeSize ≤ receivedSize)) ∧
      (DecodesCopied message.result.2 ↔ (header.length = receivedSize →
        ∀ kind, TCPCPMKind.ofOctet header.kind = some kind →
          ∀ offset, kind.payloadOffset = some offset →
          (ofLittleEndian (buffer.slice (offset + 2) 4) + 4) % 2 ^ 32 ≤
            dataSizeOf receivedSize)) := by
  intro header message
  have hlt : header.length < 2 ^ 16 := controlLength_lt msgEndian buffer
  have hdecoded := processBody_decodesCopied_iff buffer receivedSize hlt
  refine ⟨?_, hdecoded⟩
  have hinside : ReadsInside message receivedSize ↔
      16 ≤ receivedSize ∧ ReadsInside (processBody buffer receivedSize header) receivedSize := by
    simp only [ReadsInside, message, reads_process, List.forall_mem_cons]
    refine and_congr ⟨fun h => ?_, fun h i _ hi => ?_⟩ Iff.rfl
    · have := h 15 (by omega) (by omega)
      omega
    · omega
  rw [hinside]
  exact and_congr_right fun hsize => processBody_readsInside_iff hlt hsize

/-- A request to open a logical port, of 28 bytes, whose payload says that it has `length` bytes. -/
def openPortMessage (length : UInt8) : Mem := fun i =>
  [0xD2, 0x0E, 28, 0, 1, 0, 0, 0, 0, 0, 0, 0, 0, 0, 0, 0, 0, 1, length, 0, 0, 0, 0, 1, 0, 0, 7,
    0].getD i 0

/-- The copy of a well-formed request ends six bytes behind it, and the length of a payload is not
checked. -/
theorem open_port_overread :
    ¬ ReadsInside (processRTCPMessage (openPortMessage 6) 28 .littleend) 28 ∧
      ¬ DecodesCopied (processRTCPMessage (openPortMessage 100) 28 .littleend).result.2 := by
  constructor
  · intro h
    have hread : (22, 12) ∈ (processRTCPMessage (openPortMessage 6) 28 .littleend).reads := by
      decide
    have := h _ hread 33 (by decide) (by decide)
    omega
  · intro h
    have hpayload : (processRTCPMessage (openPortMessage 100) 28 .littleend).result.2.payload.map
        (fun p => (p.decodedSize, p.copied.length)) = some (104, 12) := by
      decide
    obtain ⟨p, hp, hsizes⟩ := map_eq_some_iff.1 hpayload
    have hle := h p hp
    rw [Prod.mk.injEq] at hsizes
    omega

end EasyDds.Rtps
