import EasyDds.Cdr.Decode.Value
import EasyDds.Cdr.RoundTrip.Clean

/-!
An encoder and a decoder back to back. The decoder is an object of its own that was given the
encoded bytes, at the position and with the alignment the encoder started from.
-/

namespace EasyDds.Cdr

variable {P : Profile} {fuel : Nat}

/-- `d` is about to decode the bytes that the step from `s` to `s'` encoded. -/
structure Receives (s s' d : Cdr) : Prop where
  version : d.cdrVersion = s.cdrVersion
  swap : d.swapBytes = s.swapBytes
  align64 : d.align64 = s.align64
  offset : d.offset = s.offset
  origin : d.origin = s.origin
  last : d.lastDataSize ≤ 1
  size : s'.offset ≤ d.size
  bytes : ∀ i, s.offset ≤ i → i < s'.offset → d.mem i = s'.mem i

def imageSize (P : Profile) (x : Extensibility) (ms : Members) (v : ms.denote) (s : Cdr) : Nat :=
  (Layout.type P x (membersLayout P ms (x.encoding P.version) v) (phase P s)).cells.length

def spareRoom (P : Profile) (x : Extensibility) (ms : Members) (v : ms.denote) (s : Cdr) : Nat :=
  (Layout.type P x (membersLayout P ms (x.encoding P.version) v) (phase P s)).peak

/-- `begin`, `serialize_member` for every member, `end`. -/
def encodeStruct (x : Extensibility) (ms : Members) (v : ms.denote) : CdrM Unit :=
  serializeType x (serializeMembers ms v)

/-- `deserialize_type` with the functor of the structure, into a new object. -/
def decodeStruct (fuel : Nat) (x : Extensibility) (ms : Members) : CdrM ms.denote :=
  (deserialize fuel (.struct x ms)).one ms.init

/-- What one object encodes another decodes, as the same value and up to the same position. -/
def RoundTrips (fuel : Nat) (x : Extensibility) (ms : Members) (v : ms.denote) (s : Cdr) : Prop :=
  ∃ s', (encodeStruct x ms v).run s = (.ok (), s') ∧ ∀ d, Receives s s' d →
    ∃ d', (decodeStruct fuel x ms).run d = (.ok v, d') ∧ d'.offset = s'.offset

/-- In addition both insert the same padding before every primitive. -/
def RoundTripsAligned (fuel : Nat) (x : Extensibility) (ms : Members) (v : ms.denote)
    (s : Cdr) : Prop :=
  ∃ s', (encodeStruct x ms v).run s = (.ok (), s') ∧ ∀ d, Receives s s' d →
    ∃ d' pads, (decodeStruct fuel x ms).run d = (.ok v, d') ∧ d'.offset = s'.offset ∧
      notedPads s' = pads ++ notedPads s ∧ notedPads d' = pads ++ notedPads d

variable {s : Cdr} {x : Extensibility} {ms : Members} {v : ms.denote}

lemma Receives.facing {p : Piece} {s' d : Cdr} (h : Receives s s' d) (hs : Ready P s)
    (hw : Wrote P p s s') (hsmall : p.cells.length < 2 ^ 32) :
    Facing P d.currentEncoding (phase P s) p d where
  ready := by
    refine ⟨h.version.trans hs.version, h.swap.trans hs.swap, h.align64.trans hs.align64, ?_, ?_,
      h.last⟩
    · rw [h.origin, h.offset]
      exact hs.origin_le
    · have := hw.offset
      have := h.size
      have := h.offset
      omega
  encoding := rfl
  pos := by simp only [phase, h.offset, h.origin]
  cells := by
    rw [h.offset]
    refine hw.cells.congr fun k hk => h.bytes _ (by omega) ?_
    rw [hw.offset]
    omega
  fits := by
    have := hw.offset
    have := h.size
    rw [h.offset]
    omega
  small := hsmall

/-- Encoding with room to spare, then decoding: the decoder accepts every sound value, stops
where the encoder stopped and returns the value as the encoding carries it. -/
theorem decodeStruct_encodeStruct (hver : P.IsXcdr)
    (hheaders : ms.HeadersOk P x) (hdistinct : (Ty.struct x ms).Distinct)
    (hfuel : (Ty.struct x ms).rounds ≤ fuel) (hsound : ms.Sound P x v) (hs : Ready P s)
    (hroom : s.offset + spareRoom P x ms v s ≤ s.size) (hsmall : imageSize P x ms v s < 2 ^ 32) :
    ∃ s', (encodeStruct x ms v).run s = (.ok (), s') ∧
      s'.offset = s.offset + imageSize P x ms v s ∧ s'.offset ≤ s.size ∧
      ∀ d, Receives s s' d → ∃ d', (decodeStruct fuel x ms).run d = (.ok (ms.normal v), d') ∧
        d'.offset = s'.offset ∧ (P.version = .xcdrV1 → ∃ pads, notedPads s' = pads ++ notedPads s ∧
          notedPads d' = pads ++ notedPads d) := by
  have hemit := (serialize_emits (.struct x ms) hheaders s.currentEncoding).1 v
  simp only [serialize, layout, SerializeOverloads.generic, LayoutOverloads.generic] at hemit
  obtain ⟨s', hrun, hw⟩ := hemit s hs rfl hroom
  refine ⟨s', hrun, hw.offset, hw.size ▸ hw.ready.offset_le, fun d hd => ?_⟩
  have hread := (deserialize_reads hver (.struct x ms) hheaders hdistinct hfuel
    d.currentEncoding).one v hsound (.inl rfl) ms.init (phase P s) ms.fresh_init
  simp only [layout, LayoutOverloads.generic] at hread
  obtain ⟨d', hdecode, ht⟩ := hread d (hd.facing hs hw hsmall)
  refine ⟨d', hdecode, ?_, fun hv => ⟨_, hw.pads, ht.pads hv⟩⟩
  rw [ht.offset, hw.offset, hd.offset]

lemma ready_ofFastBuffer (P : Profile) (mem : Mem) (size : Nat) (h : size < 2 ^ 63) :
    Ready P (ofFastBuffer mem size h P.version P.swap) :=
  ⟨rfl, rfl, rfl, le_rfl, Nat.zero_le _, Nat.zero_le _⟩

/-- The decoder of the user who constructs it on the buffer that was written. -/
theorem receives_ofFastBuffer {mem : Mem} {size : Nat} (h : size < 2 ^ 63)
    (version : CdrVersion) (swap : Bool) {s' : Cdr} (hle : s'.offset ≤ size) :
    Receives (ofFastBuffer mem size h version swap) s'
      (ofFastBuffer s'.mem size h version swap) :=
  ⟨rfl, rfl, rfl, rfl, rfl, Nat.zero_le _, hle, fun _ _ _ => rfl⟩

def firstMember : MemberInfo := ⟨⟨1, false, by decide⟩, .autoWithShortHeaderByDefault⟩

def decodeEncoded (fuel : Nat) (x : Extensibility) (ms : Members) (v : ms.denote) (size : Nat)
    (h : size < 2 ^ 63) (version : CdrVersion) : Except CdrError ms.denote :=
  ((decodeStruct fuel x ms).run (ofFastBuffer
    ((encodeStruct x ms v).run (ofFastBuffer (fun _ => 0) size h version false)).2.mem size h
    version false)).1

lemma decodeEncoded_of_roundTrips {size : Nat} {h : size < 2 ^ 63} {version : CdrVersion}
    (hfits : ((encodeStruct x ms v).run (ofFastBuffer (fun _ => 0) size h version false)).2.offset
      ≤ size)
    (hround : RoundTrips fuel x ms v (ofFastBuffer (fun _ => 0) size h version false)) :
    decodeEncoded fuel x ms v size h version = .ok v := by
  obtain ⟨s', hrun, hdecode⟩ := hround
  rw [hrun] at hfits
  obtain ⟨d', hdone, -⟩ := hdecode _ (receives_ofFastBuffer h version false hfits)
  rw [decodeEncoded, hrun, hdone]

lemma RoundTripsAligned.roundTrips (h : RoundTripsAligned fuel x ms v s) :
    RoundTrips fuel x ms v s := by
  obtain ⟨s', hrun, hdecode⟩ := h
  refine ⟨s', hrun, fun d hd => ?_⟩
  obtain ⟨d', _, hdone, hoffset, -⟩ := hdecode d hd
  exact ⟨d', hdone, hoffset⟩

end EasyDds.Cdr
