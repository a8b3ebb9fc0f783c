import EasyDds.Rtps.Fragment.Assembly
import EasyDds.Rtps.Message.DataSubmessage

/-!
How large the fragments of a change are: `BaseWriter::get_max_allowed_payload_size` and
`WriterHistory::set_fragments`.
-/

namespace EasyDds.Rtps

def calculateMaxDataSize (length : Nat) : Nat := sub32 length 20

/-- `BaseWriter::calculate_max_payload_size`: without an INFO_DST, an INFO_TS, the header of a
DATA_FRAG and a HEARTBEAT. A build with statistics, which takes off 60 more, is left out here. -/
def calculateMaxPayloadSize (datagramLength : Nat) : Nat :=
  sub32 (calculateMaxDataSize datagramLength) (16 + 12 + 36 + 32)

/-- What bounds the messages of a writer: `get_max_payload` of its flow controller, the maximum
message size of the participant, and its own. -/
structure MessageLimits where
  flowMax : Nat
  partMax : Nat
  maxOutputMessageSize : Nat

def MessageLimits.maxSize (limits : MessageLimits) : Nat :=
  let maxSize := if limits.partMax < limits.flowMax then limits.partMax else limits.flowMax
  if limits.maxOutputMessageSize < maxSize then limits.maxOutputMessageSize else maxSize

def MessageLimits.getMaxAllowedPayloadSize (limits : MessageLimits) : Nat :=
  calculateMaxPayloadSize limits.maxSize / 4 * 4

def maxFragmentPayloadSize : Nat := 65535 - 28 - 32 - 3

namespace DataChange

def setFragmentSize (change : DataChange) (fragmentSize : Nat) : DataChange :=
  { change with toCacheChange := change.toCacheChange.setFragmentSize fragmentSize false }

lemma fragmentCount_setFragmentSize (change : DataChange) {size : Nat} (hsize : 0 < size) :
    (change.setFragmentSize size).fragmentCount =
      wrap32 (change.serializedPayload.length + size - 1) / size :=
  if_pos hsize

/-- The inline QoS that `set_fragments` expects, `own` bytes of it being those of the change. -/
def inlineQosSize (change : DataChange) (topicKind : TopicKind) (own : Nat) : Nat :=
  own + (if change.isRelated then 2 * 28 else 0) +
    (if change.kind ≠ .alive ∧ topicKind = .withKey then 20 + 8 else 0)

def finalHighMark (change : DataChange) (highMark : Nat) (topicKind : TopicKind) (own : Nat) :
    Nat :=
  if 0 < change.inlineQosSize topicKind own then
    sub32 highMark (4 + change.inlineQosSize topicKind own)
  else highMark

def setFragments (change : DataChange) (limits : MessageLimits) (topicKind : TopicKind)
    (own : Nat) : DataChange :=
  let final := change.finalHighMark limits.getMaxAllowedPayloadSize topicKind own
  if final < change.serializedPayload.length then
    change.setFragmentSize (min final maxFragmentPayloadSize % 2 ^ 16)
  else change

def fragmentStart (change : DataChange) (fragmentNumber : Nat) : Nat :=
  wrap32 (change.fragmentSize * sub32 fragmentNumber 1)

def fragmentLength (change : DataChange) (fragmentNumber : Nat) : Nat :=
  if fragmentNumber < change.fragmentCount then change.fragmentSize
  else sub32 change.serializedPayload.length (change.fragmentStart fragmentNumber)

def fragment (change : DataChange) (fragmentNumber : Nat) : List UInt8 :=
  change.serializedPayload.data.slice (change.fragmentStart fragmentNumber)
    (change.fragmentLength fragmentNumber)

section Sizes

variable {change : DataChange} {limits : MessageLimits} {topicKind : TopicKind} {own : Nat}

lemma length_fragment (change : DataChange) (n : Nat) :
    (change.fragment n).length = change.fragmentLength n := by
  simp [fragment]

lemma maxSize_le (limits : MessageLimits) : limits.maxSize ≤ limits.partMax := by
  simp only [MessageLimits.maxSize]
  split <;> split <;> omega

lemma inlineQosSize_le (change : DataChange) (topicKind : TopicKind) (own : Nat) :
    change.inlineQosSize topicKind own ≤ own + 84 := by
  simp only [inlineQosSize]
  split <;> split <;> omega

lemma setFragments_of_lt (h : change.finalHighMark limits.getMaxAllowedPayloadSize topicKind own <
      change.serializedPayload.length) :
    change.setFragments limits topicKind own =
      change.setFragmentSize
        (min (change.finalHighMark limits.getMaxAllowedPayloadSize topicKind own)
        maxFragmentPayloadSize) := by
  have hmod : ∀ n, min n maxFragmentPayloadSize % 2 ^ 16 = min n maxFragmentPayloadSize := by
    intro n
    refine Nat.mod_eq_of_lt (Nat.lt_of_le_of_lt (Nat.min_le_right _ _) (by decide))
  simp only [setFragments, if_pos h, hmod]

lemma calculateMaxPayloadSize_eq {n : Nat} (hn : n < 2 ^ 32) :
    calculateMaxPayloadSize n = if 116 ≤ n then n - 116 else 2 ^ 32 + n - 116 := by
  simp only [calculateMaxPayloadSize, calculateMaxDataSize, sub32]
  split <;> split <;> split <;> omega

/-- The mark wraps, or the payload and the inline QoS are within the largest message. -/
theorem finalHighMark_cases (change : DataChange) (limits : MessageLimits) (topicKind : TopicKind)
    (hown : own ≤ 1000) (hpart : limits.partMax < 2 ^ 32) :
    2 ^ 32 - 2000 ≤ change.finalHighMark limits.getMaxAllowedPayloadSize topicKind own ∨
      change.finalHighMark limits.getMaxAllowedPayloadSize topicKind own +
        (if 0 < change.inlineQosSize topicKind own then 4 + change.inlineQosSize topicKind own
          else 0) + 116 ≤ limits.maxSize := by
  have hqos := inlineQosSize_le change topicKind own
  have hmax := maxSize_le limits
  rw [finalHighMark, MessageLimits.getMaxAllowedPayloadSize,
    calculateMaxPayloadSize_eq (by omega), sub32]
  split <;> split <;> (try split) <;> omega

/-- A change that has fragments: their size and their number. -/
theorem setFragments_spec (hlength : change.serializedPayload.length < 2 ^ 32)
    (hnone : change.fragmentCount = 0)
    (hsome : 0 < (change.setFragments limits topicKind own).fragmentCount) :
    let final := change.finalHighMark limits.getMaxAllowedPayloadSize topicKind own
    let size := min final maxFragmentPayloadSize
    final < change.serializedPayload.length ∧ 0 < size ∧
      change.serializedPayload.length + size ≤ 2 ^ 32 ∧
      change.setFragments limits topicKind own = change.setFragmentSize size := by
  intro final size
  have hlt : final < change.serializedPayload.length := by
    by_contra hge
    rw [setFragments, if_neg hge, hnone] at hsome
    exact Nat.lt_irrefl 0 hsome
  have heq := setFragments_of_lt hlt
  rw [heq] at hsome
  by_cases hpos : 0 < size
  · refine ⟨hlt, hpos, ?_, heq⟩
    by_contra hwrap
    rw [fragmentCount_setFragmentSize change hpos] at hsome
    have hmod : wrap32 (change.serializedPayload.length + size - 1) < size := by
      rw [wrap32]
      omega
    rw [Nat.div_eq_of_lt hmod] at hsome
    exact Nat.lt_irrefl 0 hsome
  · exact absurd (hsome.trans_eq (if_neg hpos)) (Nat.lt_irrefl 0)

/-- A fragment has at least one byte and at most as many as its size says. -/
theorem fragmentLength_bounds {size n : Nat} (hsize : 0 < size)
    (hfit : change.serializedPayload.length + size ≤ 2 ^ 32) (hn : 1 ≤ n)
    (hle : n ≤ (change.setFragmentSize size).fragmentCount) :
    0 < (change.setFragmentSize size).fragmentLength n ∧
      (change.setFragmentSize size).fragmentLength n ≤ size := by
  obtain ⟨k, rfl⟩ := Nat.exists_eq_add_of_le hn
  have hcount : (change.setFragmentSize size).fragmentCount =
      (change.serializedPayload.length + size - 1) / size := by
    rw [fragmentCount_setFragmentSize change hsize, wrap32, Nat.mod_eq_of_lt (by omega)]
  have hlt : size * k < change.serializedPayload.length := by
    have hmul := Nat.le_div_iff_mul_le hsize |>.1 (hcount ▸ hle)
    rw [Nat.mul_comm, Nat.mul_add] at hmul
    omega
  have hstart : (change.setFragmentSize size).fragmentStart (1 + k) = size * k := by
    have hprevious : sub32 (1 + k) 1 = k := by rw [sub32_of_le (by omega), Nat.add_sub_cancel_left]
    have hwrap : wrap32 (size * k) = size * k := Nat.mod_eq_of_lt (by omega)
    rw [fragmentStart, hprevious]
    exact hwrap
  have hlength : (change.setFragmentSize size).fragmentLength (1 + k) =
      if 1 + k < (change.serializedPayload.length + size - 1) / size then size
      else change.serializedPayload.length - size * k := by
    rw [fragmentLength, hstart, hcount, ← sub32_of_le hlt.le]
    rfl
  rw [hlength]
  split
  case isTrue => exact ⟨hsize, le_rfl⟩
  case isFalse hlast =>
    -- The last one is what is left.
    have hmul := (Nat.div_lt_iff_lt_mul hsize).1 (Nat.lt_succ_of_le (Nat.not_lt.1 hlast))
    have hexpand : (1 + k).succ * size = size * k + 2 * size := by
      rw [Nat.succ_eq_add_one, Nat.add_mul, Nat.add_mul, Nat.mul_comm k]
      omega
    omega

end Sizes

end DataChange

end EasyDds.Rtps
