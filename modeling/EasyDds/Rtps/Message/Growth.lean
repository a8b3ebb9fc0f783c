import EasyDds.Rtps.Message.Sizes

/-!
How many bytes the writers of a message add at most, whether there is room for them or not.
-/

namespace EasyDds.Rtps.CdrMessage

open Prog

variable {α β : Type} {n k : Nat}

lemma grows_putLength (sizePos size : Nat) : Grows 0 (putLength sizePos size) :=
  .modify fun _ => rfl

lemma grows_useDefaultEndian : Grows 0 useDefaultEndian := .modify fun _ => rfl

lemma grows_advance (size : Nat) : Grows 0 (advance size) := .modify fun _ => rfl

lemma grows_rewind (size : Nat) : Grows 0 (rewind size) := .modify fun _ => rfl

/-! Sets of numbers, and the submessages without payload. -/

lemma grows_addWords : ∀ words, Grows (4 * words.length) (addWords words)
  | [] => .pure ()
  | w :: words => ((puts_addUInt32 w.toNat).grows.bind fun _ => grows_addWords words).mono
      (by rw [List.length_cons]; omega)

lemma grows_addSet {T : Type} [RangeItem T] (s : BitmapRange T) :
    Grows (4 + 4 * s.nLongs) (addSet s) := by
  have hwords : s.bitmapGet.2.length = s.nLongs := by simp [BitmapRange.bitmapGet]
  refine .ite ((puts_addUInt32 0).grows.map.mono (by omega)) ?_
  rw [← hwords]
  exact (puts_addUInt32 _).grows.bind fun _ => (grows_addWords _).map

lemma grows_addSequenceNumberSet (s : BitmapRange Int) :
    Grows (8 + (4 + 4 * s.nLongs)) (addSequenceNumberSet s) :=
  (puts_addSequenceNumber _).grows.bind fun _ => grows_addSet s

lemma grows_addFragmentNumberSet (s : BitmapRange Nat) :
    Grows (4 + (4 + 4 * s.nLongs)) (addFragmentNumberSet s) :=
  .ite ((Grows.pure false).mono (Nat.zero_le _))
    ((puts_addUInt32 _).grows.bind fun _ => grows_addSet s)

lemma grows_restoreEndian (old : CdrMessage) :
    Grows 0 (modify fun msg => { msg with msgEndian := old.msgEndian }) :=
  .modify fun _ => rfl

lemma grows_addControl (id flags : Nat) {fields : Reader Unit} (h : Grows n fields) :
    Grows (4 + n) (addControl id flags fields) := by
  refine .mono (.after .read fun _ => .after grows_useDefaultEndian fun _ =>
    (puts_addOctet _).grows.bind fun _ => (puts_addOctet _).grows.bind fun _ =>
    .after .read fun _ => (puts_addUInt16 0).grows.bind fun _ => .after .read fun _ =>
    h.bind fun _ => .after .read fun _ => .after (grows_putLength _ _) fun _ =>
      (grows_restoreEndian _).map) ?_
  omega

lemma grows_addSubmessageHeartbeat (readerId writerId : EntityId) (firstSN lastSN count : Int)
    (isFinal livelinessFlag : Bool) :
    Grows 32 (addSubmessageHeartbeat readerId writerId firstSN lastSN count isFinal
      livelinessFlag) :=
  grows_addControl (n := 28) _ _ <| (puts_addEntityId _).grows.bind fun _ =>
    (puts_addEntityId _).grows.bind fun _ => (puts_addSequenceNumber _).grows.bind fun _ =>
    (puts_addSequenceNumber _).grows.bind fun _ => (puts_addInt32 _).grows.map

lemma grows_addSubmessageGap (seqNumFirst : Int) (seqNumList : BitmapRange Int)
    (readerId writerId : EntityId) : Grows (32 + 4 * seqNumList.nLongs)
      (addSubmessageGap seqNumFirst seqNumList readerId writerId) := by
  refine (grows_addControl _ _ <| (puts_addEntityId _).grows.bind fun _ =>
    (puts_addEntityId _).grows.bind fun _ => (puts_addSequenceNumber _).grows.bind fun _ =>
    (grows_addSequenceNumberSet _).map).mono ?_
  omega

lemma grows_addSubmessageAcknack (readerId writerId : EntityId) (snSet : BitmapRange Int)
    (count : Int) (finalFlag : Bool) : Grows (28 + 4 * snSet.nLongs)
      (addSubmessageAcknack readerId writerId snSet count finalFlag) := by
  refine (grows_addControl _ _ <| (puts_addEntityId _).grows.bind fun _ =>
    (puts_addEntityId _).grows.bind fun _ => (grows_addSequenceNumberSet _).bind fun _ =>
    (puts_addInt32 _).grows.map).mono ?_
  omega

lemma grows_addSubmessageNackFrag (readerId writerId : EntityId) (writerSN : Int)
    (fnState : BitmapRange Nat) (count : Int) : Grows (32 + 4 * fnState.nLongs)
      (addSubmessageNackFrag readerId writerId writerSN fnState count) := by
  refine (grows_addControl _ _ <| (puts_addEntityId _).grows.bind fun _ =>
    (puts_addEntityId _).grows.bind fun _ => (puts_addSequenceNumber _).grows.bind fun _ =>
    (grows_addFragmentNumberSet _).bind fun _ => (puts_addInt32 _).grows.map).mono ?_
  omega

section Data

variable (change : DataChange) (topic : TopicKind) (readerId : EntityId) (expects : Bool)
  (inlineQos : Option (List UInt8)) (fragmentNumber : Nat) (copyData : Bool) (payload : List UInt8)

lemma grows_serializeHeader (flags : Nat) : Grows (24 + if 0 < fragmentNumber then 12 else 0)
      (serializeHeader fragmentNumber change readerId flags) := by
  refine ((puts_addOctet _).grows.bind fun _ => (puts_addOctet _).grows.bind fun _ =>
    .after .read fun _ => (puts_addUInt16 _).grows.bind fun _ => .after .read fun _ =>
    (puts_addUInt16 _).grows.bind fun _ => (puts_addUInt16 _).grows.bind fun _ =>
    (puts_addEntityId _).grows.bind fun _ => (puts_addEntityId _).grows.bind fun _ =>
    (puts_addSequenceNumber _).grows.bind fun _ =>
    (puts_addFragmentFields fragmentNumber change).addIf.grows.map).mono ?_
  simp only [decide_eq_true_eq]
  omega

lemma grows_patchLength (sizePos countPos : Nat) : Grows 0 (patchLength sizePos countPos) := by
  refine .after .read fun msg => .ite ?_ (.pure true)
  exact .after (grows_putLength _ _) fun _ => .pure false

/-- The program adds at most `n` bytes, counting the payload it leaves pending. -/
def Spends (n : Nat) (pending : α → Pending) (m : Reader α) : Prop :=
  ∀ msg a msg', m.run msg = (.ok a, msg') →
    msg'.length + ((pending a).size + (pending a).padding) ≤ msg.length + n

variable {pending : α → Pending} {m : Reader α} {f : α → Reader β}

lemma Spends.mono (h : Spends n pending m) (hle : n ≤ k) : Spends k pending m :=
  fun msg a msg' hrun => (h msg a msg' hrun).trans (by omega)

lemma Spends.pure (a : α) (h : (pending a).size + (pending a).padding ≤ n) :
    Spends n pending (Pure.pure a) := by
  intro msg b msg' hrun
  obtain ⟨rfl, rfl⟩ := ok_inj.1 hrun
  omega

lemma Grows.bind_spends {P : α → Prop} {pending : β → Pending} (hm : Grows n m) (hP : Yields P m)
    (hf : ∀ a, P a → Spends k pending (f a)) : Spends (n + k) pending (m >>= f) := by
  intro msg b msg'' hrun
  obtain ⟨a, msg', hfirst, hrest⟩ := bind_eq_ok.1 hrun
  have hgrows := hm msg
  have hspends := hf a (hP msg a msg' hfirst) msg' b msg'' hrest
  rw [hfirst] at hgrows
  dsimp only at hgrows
  omega

/-- As `Grows.bind_spends`, whatever the first part returns. -/
theorem Grows.then_spends {pending : β → Pending} (hm : Grows n m)
    (hf : ∀ a, Spends k pending (f a)) : Spends (n + k) pending (m >>= f) :=
  hm.bind_spends (P := fun _ => True) (fun _ _ _ _ => trivial) fun a _ => hf a

/-- As `Grows.then_spends`, for a first part that adds nothing. -/
theorem Grows.skip_spends {pending : β → Pending} (hm : Grows 0 m)
    (hf : ∀ a, Spends n pending (f a)) : Spends n pending (m >>= f) :=
  (hm.then_spends hf).mono (by omega)

lemma Spends.keep {pending' : β → Pending} (hm : Spends n pending m) (hf : ∀ a, Grows 0 (f a))
    (hpending : ∀ a, Yields (fun b => pending' b = pending a) (f a)) :
    Spends n pending' (m >>= f) := by
  intro msg b msg'' hrun
  obtain ⟨a, msg', hfirst, hrest⟩ := bind_eq_ok.1 hrun
  have hspends := hm msg a msg' hfirst
  have hgrows := hf a msg'
  rw [hrest] at hgrows
  rw [hpending a msg' b msg'' hrest]
  dsimp only at hgrows
  omega

lemma grows_addSubmessageData : Grows (dataLength change topic expects inlineQos + 3)
      (addSubmessageData change topic readerId expects inlineQos) := by
  have hdata := (puts_addData change.serializedPayload.bytes).addIf (c := change.dataFlag)
  rw [SerializedPayload.length_bytes] at hdata
  have hpadding : ∀ msg : CdrMessage, Grows 3 (addPadding ((4 - msg.pos % 4) % 4)) :=
    fun msg => (puts_addPadding _).grows.mono (by omega)
  refine .mono (.after .read fun _ => .after grows_useDefaultEndian fun _ =>
    (grows_serializeHeader change readerId 0 _).bind fun _ =>
    (puts_serializeInlineQos change topic expects inlineQos).grows.bind fun _ =>
    hdata.grows.bind fun _ => (puts_addKeyPayload change).addIf.grows.bind fun _ =>
    .after .read fun _ => (hpadding _).bind fun _ => .after (grows_patchLength _ _) fun _ =>
    (grows_restoreEndian _).map) ?_
  simp only [dataLength, Nat.lt_irrefl, if_false]
  omega

lemma grows_addPayload_gather : Grows 0 (addPayload false payload) :=
  .after .read fun _ => .ite (.pure none) (grows_advance _).map

lemma yields_addPayload_gather :
    Yields (fun r => ∀ b ∈ r, b.2.getD 0 ≤ payload.length) (addPayload false payload) := by
  refine .bind fun msg => ?_
  split
  · exact .pure (by simp)
  · exact .bind fun _ => .pure (by simp)

/-- What comes behind the place of a pending payload of at most `n` bytes. -/
theorem spends_gatherRest (old : CdrMessage) (header : Bool × Nat × Nat)
    {r : Option (Bool × Option Nat)} : (∀ b ∈ r, b.2.getD 0 ≤ n) →
    Spends ((if change.keyFlag topic expects inlineQos then 36 else 0) + (n + 3))
      (·.2.2) (match r with
        | none => pure (false, false, Pending.none)
        | some (_, buffer) => do
          let key ← addIf (change.keyFlag topic expects inlineQos) (addKeyPayload change)
          let msg ← read
          let padding := (4 - msg.pos % 4) % 4
          advance padding
          let isBig ← patchLength header.2.1 header.2.2
          rewind padding
          rewind (buffer.getD 0)
          modify fun msg => { msg with msgEndian := old.msgEndian }
          pure (header.1 && key, isBig, ⟨buffer, padding⟩) : Reader (Bool × Bool × Pending)) := by
  intro hr
  rcases r with _ | ⟨ok, buffer⟩
  · exact .pure _ (Nat.zero_le _)
  · have hsize : buffer.getD 0 ≤ n := hr _ rfl
    refine (puts_addKeyPayload change).addIf.grows.then_spends fun _ =>
      Grows.read.skip_spends fun msg => (grows_advance _).skip_spends fun _ =>
      (grows_patchLength _ _).skip_spends fun _ => (grows_rewind _).skip_spends fun _ =>
      (grows_rewind _).skip_spends fun _ => (grows_restoreEndian old).skip_spends fun _ =>
        .pure _ ?_
    simp only [Pending.size]
    omega

lemma spends_gatherSubmessageData : Spends (dataLength change topic expects inlineQos + 3) (·.2.2)
      (gatherSubmessageData change topic readerId expects inlineQos) := by
  have hgrows : Grows 0 (gatherPayload change) :=
    .ite (grows_addPayload_gather _) (.pure _)
  have hyields : Yields (fun r => ∀ b ∈ r, b.2.getD 0 ≤
      if change.dataFlag then change.serializedPayload.length else 0) (gatherPayload change) := by
    rw [gatherPayload]
    split
    · simpa using yields_addPayload_gather change.serializedPayload.bytes
    · exact .pure (by simp)
  refine (Grows.read.skip_spends fun old => grows_useDefaultEndian.skip_spends fun _ =>
    (grows_serializeHeader change readerId 0 _).then_spends fun header =>
    (puts_serializeInlineQos change topic expects inlineQos).grows.then_spends fun _ =>
    hgrows.bind_spends hyields fun r hr => spends_gatherRest change topic expects
      inlineQos old header hr).mono ?_
  simp only [dataLength, Nat.lt_irrefl, if_false]
  omega

/-- A DATA has at most its length and three bytes of padding. -/
theorem spends_addSubmessageDataFor : Spends (dataLength change topic expects inlineQos + 3) (·.2.2)
      (addSubmessageDataFor copyData change topic readerId expects inlineQos) := by
  cases copyData with
  | true =>
    exact (grows_addSubmessageData change topic readerId expects
      inlineQos).then_spends (k := 0) fun _ => .pure _ le_rfl
  | false => exact spends_gatherSubmessageData change topic readerId expects inlineQos

lemma spends_finishFragment (buffer : Option Nat) (sizePos countPos : Nat) :
    Spends (buffer.getD 0 + 3) (·.2) (finishFragment copyData buffer sizePos countPos) := by
  refine Grows.read.skip_spends fun msg => ?_
  have hpadding : (4 - sub32 msg.pos countPos % 2 ^ 16 % 4) % 4 ≤ 3 := by omega
  dsimp only
  generalize (4 - sub32 msg.pos countPos % 2 ^ 16 % 4) % 4 = padding at *
  refine ((puts_addPadding padding).addIf.grows.then_spends
    (k := buffer.getD 0 + if copyData then 0 else padding)
    fun _ => (grows_rewind _).skip_spends fun _ => (grows_putLength _ _).skip_spends
    fun _ => .pure _ ?_).mono ?_
  · simp only [Pending.size, le_refl]
  · split <;> omega

lemma grows_addPayload :
    Grows (if copyData then payload.length else 0) (addPayload copyData payload) := by
  cases copyData with
  | true => exact (puts_addData payload).grows.map
  | false => exact grows_addPayload_gather payload

lemma yields_addPayload :
    Yields (fun r => ∀ b ∈ r, b.2.getD 0 ≤ if copyData then 0 else payload.length)
      (addPayload copyData payload) := by
  cases copyData with
  | true => exact .bind fun _ => .pure (by simp)
  | false => exact yields_addPayload_gather payload

lemma spends_fragmentPayload (copyData : Bool) (old : CdrMessage) (header : Bool × Nat × Nat) :
    Spends (payload.length + 3) (·.2) (do
      match ← addPayload copyData payload with
      | none => pure (false, .none)
      | some (data, buffer) => do
        let (padding, pending) ← finishFragment copyData buffer header.2.1 header.2.2
        modify fun msg => { msg with msgEndian := old.msgEndian }
        pure (header.1 && data && padding, pending) : Reader (Bool × Pending)) := by
  refine ((grows_addPayload copyData payload).bind_spends
    (k := (if copyData then 0 else payload.length) + 3) (yields_addPayload copyData payload)
    fun r hr => ?_).mono ?_
  · rcases r with _ | ⟨data, buffer⟩
    · exact .pure _ (Nat.zero_le _)
    · have hsize := hr _ rfl
      have hfinish := spends_finishFragment copyData buffer header.2.1 header.2.2
      refine (hfinish.keep (fun r => ?_) fun r => ?_).mono (Nat.add_le_add_right hsize 3)
      · exact (grows_restoreEndian old).map
      · exact .bind fun _ => .pure rfl
  · split <;> omega

/-- A DATA_FRAG has at most its length and three bytes of padding. -/
theorem spends_addSubmessageDataFrag (copyData : Bool) :
    Spends (36 + qosLength change topic expects inlineQos + payload.length + 3) (·.2)
      (addSubmessageDataFrag change fragmentNumber payload topic readerId expects
        inlineQos copyData) := by
  have hheader := grows_serializeHeader change readerId fragmentNumber
  refine (Grows.read.skip_spends fun old => grows_useDefaultEndian.skip_spends fun _ =>
    (hheader _).then_spends fun header =>
    (puts_serializeInlineQos change topic expects inlineQos).grows.then_spends fun _ =>
    (?_ : Spends (payload.length + 3) _ _)).mono ?_
  · split
    · exact (grows_restoreEndian old).skip_spends fun _ => .pure _ (Nat.zero_le _)
    · exact spends_fragmentPayload payload copyData old header
  · split <;> omega

end Data

end EasyDds.Rtps.CdrMessage
