import EasyDds.Rtps.Message.Sizes
import EasyDds.Rtps.Writer.Fragmentation

/-!
The length that a DATA_FRAG declares, for the fragments that `set_fragments` makes.
-/

namespace EasyDds.Rtps.CdrMessage

def inlineQosWriter (own : List UInt8) : Option (List UInt8) := if own = [] then none else some own

def declaredLength (msg msg' : CdrMessage) : Nat :=
  word msg.defaultEndian (msg'.buffer.slice (msg.pos + 2) 2)

def bodyLength (msg msg' : CdrMessage) (pending : Pending) : Nat :=
  msg'.length - (msg.length + 4) + pending.size + pending.padding

section Fragment

variable (change : DataChange) (limits : MessageLimits) (topic : TopicKind)
  (expects : Bool) (own : List UInt8)

/-- The key hash is the only part of the inline QoS that `set_fragments` may not expect. -/
theorem qosLength_le : qosLength change topic expects (inlineQosWriter own) ≤
      (if 0 < change.inlineQosSize topic own.length then
        4 + change.inlineQosSize topic own.length else 0) + 24 := by
  have hown : (if (inlineQosWriter own).isSome then ((inlineQosWriter own).getD []).length
      else 0) = own.length := by
    rw [inlineQosWriter]
    split
    case isTrue hnil => simp [hnil]
    case isFalse => rfl
  have hkey : (if change.keyInline topic expects then
      (if change.kind ≠ .alive then 28 else 20) else 0) ≤
      (if change.kind ≠ .alive ∧ topic = .withKey then 20 + 8 else 0) + 20 := by
    rw [DataChange.keyInline]
    by_cases halive : change.kind = .alive <;> cases topic <;> simp [halive]
    split <;> decide
  rw [qosLength, hown, DataChange.inlineQosSize]
  generalize (if change.kind ≠ .alive ∧ topic = .withKey then 20 + 8 else 0) = expected at *
  generalize (if change.keyInline topic expects then
    (if change.kind ≠ .alive then 28 else 20) else 0) = key at *
  split_ifs <;> omega

lemma qosLength_setFragments (inlineQos : Option (List UInt8)) :
    qosLength (change.setFragments limits topic own.length) topic expects inlineQos =
      qosLength change topic expects inlineQos := by
  rw [DataChange.setFragments]
  split <;> rfl

/-- A DATA_FRAG never carries the key as its payload. -/
theorem keyFlag_of_payload (inlineQos : Option (List UInt8))
    (h : 0 < change.serializedPayload.length) :
    change.keyFlag topic expects inlineQos = false := by
  cases hkind : change.kind <;> cases topic <;>
    simp [DataChange.keyFlag, DataChange.dataFlag, DataChange.inlineQosFlag, DataChange.keyInline,
      hkind, h]

variable (hpart : limits.partMax < 2 ^ 31) (hown : own.length ≤ 1000)
  (hlength : change.serializedPayload.length < 2 ^ 32) (hfresh : change.fragmentCount = 0) {n : Nat}
  (hn : 1 ≤ n) (hle : n ≤ (change.setFragments limits topic own.length).fragmentCount)
include hpart hown hlength hfresh hn hle

/-- The fragments and the inline QoS are within the largest message. -/
theorem fragment_fits : 0 < (change.setFragments limits topic own.length).serializedPayload.length ∧
      qosLength change topic expects (inlineQosWriter own) +
        (change.setFragments limits topic own.length).fragmentLength n + 92 ≤
          limits.partMax := by
  obtain ⟨hlt, hsize, hfit, heq⟩ := DataChange.setFragments_spec hlength hfresh
    (Nat.lt_of_lt_of_le hn hle)
  have hqos := qosLength_le change topic expects own
  have hmax := DataChange.maxSize_le limits
  have hcases := DataChange.finalHighMark_cases change limits topic hown (by omega)
  rw [heq] at hle ⊢
  have hbounds := DataChange.fragmentLength_bounds hsize hfit hn hle
  rw [maxFragmentPayloadSize] at *
  refine ⟨Nat.zero_lt_of_lt hlt, ?_⟩
  omega

variable (readerId : EntityId) (copyData : Bool) {msg : CdrMessage} (hnative : msg.Native)
  (hstart : msg.length = msg.pos) (hbegin : msg.pos ≤ 28) (hmin : limits.partMax ≤ msg.maxSize)
  (hmax : msg.maxSize < 2 ^ 32)
include hnative hstart hbegin hmin hmax

/-- The submessage of a fragment: its length is declared modulo 2^16. -/
theorem addFragment_run :
    let sent := change.setFragments limits topic own.length
    let body := 32 + qosLength change topic expects (inlineQosWriter own) + sent.fragmentLength n
    ∃ msg' pending, (addSubmessageDataFrag sent n (sent.fragment n) topic readerId
        expects (inlineQosWriter own) copyData).run msg = (.ok (true, pending), msg') ∧
      bodyLength msg msg' pending = body + paddingOf body ∧
      declaredLength msg msg' = (body + paddingOf body) % 2 ^ 16 := by
  intro sent body
  obtain ⟨hpos, hfits : _ + sent.fragmentLength n + 92 ≤ _⟩ :=
    fragment_fits change limits topic expects own hpart hown
    hlength hfresh hn hle
  have hqos : qosLength sent topic expects (inlineQosWriter own) = _ :=
    qosLength_setFragments change limits topic expects own (inlineQosWriter own)
  have hroom : msg.Room (36 + qosLength sent topic expects (inlineQosWriter own) +
      (sent.fragment n).length + 4) := by
    rw [hqos, DataChange.length_fragment]
    exact ⟨by omega, hmax, by omega⟩
  obtain ⟨msg', pending, hrun, hfragmented⟩ := addSubmessageDataFrag_run hnative sent topic
    readerId expects (inlineQosWriter own) hn (sent.fragment n) copyData
    (keyFlag_of_payload sent topic expects _ hpos) hroom
  rw [hqos, DataChange.length_fragment] at hfragmented
  obtain ⟨k, hext, hk⟩ := hfragmented.extended
  refine ⟨msg', pending, hrun, ?_, hfragmented.declared⟩
  rw [bodyLength, hext.length, ← Nat.add_assoc, Nat.add_sub_cancel_left]
  exact hk

/-- The length that is declared is that of the body if and only if it is less than 2^16: the field
is a `uint16_t`, and nothing keeps a message below that. -/
theorem dataFrag_length_iff :
    ∃ msg' pending, (addSubmessageDataFrag (change.setFragments limits topic own.length) n
        ((change.setFragments limits topic own.length).fragment n) topic readerId expects
        (inlineQosWriter own) copyData).run msg = (.ok (true, pending), msg') ∧
      (declaredLength msg msg' = bodyLength msg msg' pending ↔
        32 + qosLength change topic expects (inlineQosWriter own) +
          (change.setFragments limits topic own.length).fragmentLength n ≤ 65532) := by
  obtain ⟨msg', pending, hrun, hbody, hdeclared⟩ := addFragment_run change limits topic expects own
    hpart hown hlength hfresh hn hle readerId copyData hnative hstart hbegin hmin hmax
  refine ⟨msg', pending, hrun, ?_⟩
  rw [hbody, hdeclared]
  generalize 32 + qosLength change topic expects (inlineQosWriter own) +
    (change.setFragments limits topic own.length).fragmentLength n = body
  rw [paddingOf]
  omega

end Fragment

/-- A participant with this maximum message size, and nothing else that bounds a message. -/
def participantOnly (partMax : Nat) : MessageLimits := ⟨2 ^ 32 - 1, partMax, 2 ^ 32 - 1⟩

theorem dataFrag_length_iff_keyed :
    let change := sampleChange .alive 5000 .unknown
    let sent := change.setFragments (participantOnly 2000) .withKey 0
    1 ≤ sent.fragmentCount ∧
      ∃ msg' pending, (addSubmessageDataFrag sent 1 (sent.fragment 1) .withKey #v[0, 0, 1, 7] false
          none true).run (emptyMessage 2000).initCdrMsg = (.ok (true, pending), msg') ∧
        (declaredLength (emptyMessage 2000).initCdrMsg msg' =
            bodyLength (emptyMessage 2000).initCdrMsg msg' pending ↔
          32 + qosLength change .withKey false none + sent.fragmentLength 1 ≤ 65532) := by
  have hnative : (emptyMessage 2000).initCdrMsg.Native := rfl
  have hwriter : inlineQosWriter [] = none := rfl
  have h := dataFrag_length_iff (sampleChange .alive 5000 .unknown) (participantOnly 2000) .withKey
    false [] (by decide) (by decide) (by decide) rfl (Nat.le_refl 1) (by decide)
    #v[0, 0, 1, 7] true hnative rfl (by decide) (by decide) (by decide)
  rw [hwriter, List.length_nil] at h
  exact ⟨by decide, h⟩

/-- A reply with a related sample identity to be sent in messages of up to 70000 bytes. -/
theorem dataFrag_length_truncated :
    let sent := (sampleChange .alive 70000 ⟨Guid.unknown, 1⟩).setFragments (participantOnly 70000)
      .noKey 0
    1 ≤ sent.fragmentCount ∧
      ∀ copyData, ∃ msg' pending, (addSubmessageDataFrag sent 1 (sent.fragment 1) .noKey
          #v[0, 0, 1, 7] false none copyData).run (emptyMessage 70000).initCdrMsg =
            (.ok (true, pending), msg') ∧
        bodyLength (emptyMessage 70000).initCdrMsg msg' pending = 65564 ∧
        declaredLength (emptyMessage 70000).initCdrMsg msg' = 28 := by
  have hnative : (emptyMessage 70000).initCdrMsg.Native := rfl
  refine ⟨by decide, fun copyData => ?_⟩
  exact addFragment_run (sampleChange .alive 70000 ⟨Guid.unknown, 1⟩) (participantOnly 70000)
    .noKey false [] (by decide) (by decide) (by decide) rfl (by decide) (by decide)
    #v[0, 0, 1, 7] copyData hnative rfl (by decide) (by decide) (by decide)

end EasyDds.Rtps.CdrMessage
