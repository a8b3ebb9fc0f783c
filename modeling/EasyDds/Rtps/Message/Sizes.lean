import EasyDds.Rtps.Message.Creator
import EasyDds.Rtps.Message.DataRoundTrip

/-!
How many bytes the writers of a message add, whatever the bytes are.
-/

namespace EasyDds.Rtps.CdrMessage

open Prog Option

variable {α β : Type} {n : Nat} {msg msg' : CdrMessage}

structure Extended (msg msg' : CdrMessage) (n : Nat) : Prop where
  pos : msg'.pos = msg.pos + n
  length : msg'.length = msg.length + n
  maxSize : msg'.maxSize = msg.maxSize
  msgEndian : msg'.msgEndian = msg.msgEndian
  defaultEndian : msg'.defaultEndian = msg.defaultEndian

namespace Extended

variable {msg msg' msg'' : CdrMessage} {n m : Nat}

lemma refl (msg : CdrMessage) : Extended msg msg 0 := ⟨rfl, rfl, rfl, rfl, rfl⟩

lemma trans (h : Extended msg msg' n) (h' : Extended msg' msg'' m) :
    Extended msg msg'' (n + m) where
  pos := by rw [h'.pos, h.pos, Nat.add_assoc]
  length := by rw [h'.length, h.length, Nat.add_assoc]
  maxSize := h'.maxSize.trans h.maxSize
  msgEndian := h'.msgEndian.trans h.msgEndian
  defaultEndian := h'.defaultEndian.trans h.defaultEndian

lemma append (msg : CdrMessage) (bytes : List UInt8) :
    Extended msg (msg.append bytes) bytes.length := ⟨rfl, rfl, rfl, rfl, rfl⟩

lemma room (h : Extended msg msg' n) (hroom : msg.Room (n + m)) : msg'.Room m where
  fits := by
    have := hroom.fits
    rw [h.pos, h.maxSize]
    omega
  maxSize_lt := h.maxSize ▸ hroom.maxSize_lt
  length_lt := by
    have := hroom.length_lt
    rw [h.length]
    omega

end Extended

def Native (msg : CdrMessage) : Prop := msg.msgEndian = msg.defaultEndian

lemma Native.withDefault (h : msg.Native) : { msg with msgEndian := msg.defaultEndian } = msg := by
  cases msg
  cases h
  rfl

lemma Extended.withEndian (h : Extended msg msg' n) :
    { msg' with msgEndian := msg.msgEndian } = msg' := by
  rw [← h.msgEndian]

lemma Extended.native (h : Extended msg msg' n) (hnative : msg.Native) : msg'.Native := by
  rw [Native, h.msgEndian, h.defaultEndian]
  exact hnative

/-- The program adds `n` bytes and returns `a` wherever there is room for them and one more. -/
def Adds (n : Nat) (m : Reader α) (a : α) : Prop :=
  ∀ msg : CdrMessage, msg.Native → msg.Room (n + 1) →
    ∃ msg', m.run msg = (.ok a, msg') ∧ Extended msg msg' n

variable {a : α} {k : Nat} {f : α → Reader β}

lemma Adds.of_emits {m : Reader α}
    (h : ∀ e, ∃ bytes : List UInt8, bytes.length = n ∧ Emits 1 e m a bytes) : Adds n m a := by
  intro msg _ hroom
  obtain ⟨bytes, rfl, hm⟩ := h msg.msgEndian
  exact ⟨_, hm msg rfl hroom, .append msg bytes⟩

lemma Adds.pure (a : α) : Adds 0 (pure a) a := fun msg _ _ => ⟨msg, rfl, .refl msg⟩

lemma Adds.bind {m : Reader α} {b : β} (hm : Adds n m a)
    (hf : Adds k (f a) b) : Adds (n + k) (m >>= f) b := by
  intro msg hnative hroom
  obtain ⟨msg', hrun, hext⟩ := hm msg hnative (hroom.mono (by omega))
  obtain ⟨msg'', hrun', hext'⟩ := hf msg' (hext.native hnative) (hext.room (hroom.mono (by omega)))
  exact ⟨msg'', (bind_of_ok hrun).trans hrun', hext.trans hext'⟩

lemma Adds.read {f : CdrMessage → Reader α} (hf : ∀ msg, Adds n (f msg) a) :
    Adds n (read >>= f) a := by
  intro msg hnative hroom
  exact hf msg msg hnative hroom

lemma Adds.useDefaultEndian {f : Unit → Reader α} (hf : Adds n (f ()) a) :
    Adds n (useDefaultEndian >>= f) a := by
  intro msg hnative hroom
  rw [CdrMessage.useDefaultEndian, run_modify_bind, hnative.withDefault]
  exact hf msg hnative hroom

def Grows (n : Nat) (m : Reader α) : Prop := ∀ msg : CdrMessage, (m.run msg).2.length ≤
    msg.length + n

namespace Grows

variable {m : Reader α}

lemma mono (h : Grows n m) (hle : n ≤ k) : Grows k m :=
  fun msg => (h msg).trans (Nat.add_le_add_left hle _)

lemma pure (a : α) : Grows 0 (Pure.pure a) := fun _ => le_rfl

lemma modify {f : CdrMessage → CdrMessage} (h : ∀ msg, (f msg).length = msg.length) :
    Grows 0 (modify f) := fun msg => (h msg).le

lemma bind (hm : Grows n m) (hf : ∀ a, Grows k (f a)) : Grows (n + k) (m >>= f) := by
  intro msg
  have hfirst := hm msg
  rw [run_bind]
  rcases h : m.run msg with ⟨e | a, msg'⟩ <;> rw [h] at hfirst
  · exact hfirst.trans (by omega)
  · have hsecond := hf a msg'
    dsimp only at hfirst hsecond ⊢
    omega

lemma after (hm : Grows 0 m) (hf : ∀ a, Grows n (f a)) : Grows n (m >>= f) :=
  (hm.bind hf).mono (by omega)

lemma map {f : α → β} (hm : Grows n m) : Grows n (do let a ← m; Pure.pure (f a)) :=
  hm.bind fun a => pure (f a)

lemma read : Grows 0 (read : Reader CdrMessage) := fun _ => le_rfl

lemma ite {p : Prop} [Decidable p] {m' : Reader α} (hm : Grows n m) (hm' : Grows n m') :
    Grows n (if p then m else m') := by
  split
  · exact hm
  · exact hm'

end Grows

lemma grows_copyToBuffer (bytes : List UInt8) : Grows bytes.length (copyToBuffer bytes) :=
  fun _ => Nat.mod_le _ _

/-- The program adds `n` bytes where there is room for them, and never more. -/
structure Puts (n : Nat) (m : Reader α) (a : α) : Prop where
  adds : Adds n m a
  grows : Grows n m

namespace Puts

variable {n : Nat} {m : Reader α}

lemma pure (a : α) : Puts 0 (Pure.pure a) a := ⟨.pure a, .pure a⟩

lemma bind {b : α → β} (hm : Puts n m a) (hf : ∀ x, Puts k (f x) (b x)) :
    Puts (n + k) (m >>= f) (b a) :=
  ⟨hm.adds.bind (hf a).adds, hm.grows.bind fun x => (hf x).grows⟩

lemma map {f : α → β} (hm : Puts n m a) : Puts n (do let x ← m; Pure.pure (f x)) (f a) :=
  hm.bind fun x => pure (f x)

lemma of_eq (hm : Puts n m a) (h : n = k) : Puts k m a := h ▸ hm

lemma read {f : CdrMessage → Reader α} (hf : ∀ msg, Puts n (f msg) a) : Puts n (read >>= f) a :=
  ⟨.read fun msg => (hf msg).adds, .after .read fun msg => (hf msg).grows⟩

lemma useDefaultEndian {f : Unit → Reader α} (hf : Puts n (f ()) a) :
    Puts n (useDefaultEndian >>= f) a :=
  ⟨.useDefaultEndian hf.adds, .after (.modify fun _ => rfl) fun _ => hf.grows⟩

lemma addIf {c : Bool} {m : Reader Bool} (hm : Puts n m true) :
    Puts (if c then n else 0) (addIf c m) true := by
  cases c
  · exact pure true
  · exact hm

lemma ifRoom {strict : Bool} {m : Reader Bool} (hm : Puts n m true) :
    Puts n (do if ← roomFor strict n then m else Pure.pure false) true where
  adds msg hnative hroom := by
    have hfits := hroom.fits
    have hnext : wrap32 (msg.pos + n) = msg.pos + n := Nat.mod_eq_of_lt (by
      have := hroom.maxSize_lt
      omega)
    have htrue : (roomFor strict n).run msg = (.ok true, msg) := by
      rw [roomFor, run_read_bind, hnext]
      cases strict <;> simp <;> omega
    rw [bind_of_ok htrue]
    exact hm.adds msg hnative hroom
  grows := .after (.after .read fun _ => .pure _) fun _ =>
    .ite hm.grows ((Grows.pure false).mono (Nat.zero_le _))

end Puts

lemma puts_addData (bytes : List UInt8) : Puts bytes.length (addData bytes) true where
  adds := .of_emits fun _ => ⟨bytes, rfl, emits_addData bytes⟩
  grows := .after .read fun _ =>
    .ite (grows_copyToBuffer bytes).map ((Grows.pure false).mono (Nat.zero_le _))

lemma puts_addVector (v : Vector UInt8 n) : Puts n (addData v.toList) true := by
  simpa using puts_addData v.toList

lemma puts_addPrimitive (n x : Nat) : Puts n (addPrimitive n x) true := by
  refine .read fun msg => ?_
  have h := puts_addData (wordImage msg.msgEndian n x)
  rwa [length_wordImage] at h

lemma puts_addOctet (x : Nat) : Puts 1 (addOctet x) true := puts_addPrimitive 1 x

lemma puts_addUInt16 (x : Nat) : Puts 2 (addUInt16 x) true := puts_addPrimitive 2 x

lemma puts_addUInt32 (x : Nat) : Puts 4 (addUInt32 x) true := puts_addPrimitive 4 x

lemma puts_addInt32 (x : Int) : Puts 4 (addInt32 x) true := puts_addPrimitive 4 _

lemma puts_addEntityId (id : EntityId) : Puts 4 (addEntityId id) true where
  adds := .of_emits fun _ => ⟨id.toList, by simp, emits_addEntityId id⟩
  grows := by
    have h := grows_copyToBuffer id.toList
    rw [Vector.length_toList] at h
    exact .after .read fun _ => .ite ((Grows.pure false).mono (Nat.zero_le _)) h.map

lemma puts_addSequenceNumber (sn : Int) : Puts 8 (addSequenceNumber sn) true :=
  (puts_addInt32 _).bind fun _ => (puts_addUInt32 _).map

lemma puts_addPadding : ∀ n, Puts n (addPadding n) true
  | 0 => .pure true
  | n + 1 => ((puts_addOctet 0).bind fun _ => (puts_addPadding n).map).of_eq (Nat.add_comm 1 n)

lemma puts_addParameterStatus (status : Nat) : Puts 8 (addParameterStatus status) true :=
  .ifRoom <| (puts_addUInt16 _).bind fun _ => (puts_addUInt16 _).bind fun _ =>
    (puts_addOctet _).bind fun _ => (puts_addOctet _).bind fun _ =>
    (puts_addOctet _).bind fun _ => (puts_addOctet _).map

lemma puts_addParameterKey (handle : InstanceHandle) : Puts 20 (addParameterKey handle) true :=
  .ifRoom <| (puts_addUInt16 _).bind fun _ => (puts_addUInt16 _).bind fun _ =>
    (puts_addVector handle.value).map

lemma puts_addParameterSentinel : Puts 4 addParameterSentinel true :=
  .ifRoom <| (puts_addUInt16 _).bind fun _ => (puts_addUInt16 _).map

lemma puts_addIdentityParameter (pid : Nat) (sampleId : SampleIdentity) :
    Puts 28 (addIdentityParameter pid sampleId) true :=
  .ifRoom <| (puts_addUInt16 _).bind fun _ => (puts_addUInt16 _).bind fun _ =>
    (puts_addVector sampleId.writerGuid.guidPrefix).bind fun _ =>
    (puts_addVector sampleId.writerGuid.entityId).bind fun _ =>
    (puts_addInt32 _).bind fun _ => (puts_addUInt32 _).map

lemma puts_addRelatedIdentity (change : DataChange) : Puts 56 (addRelatedIdentity change) true :=
  (puts_addIdentityParameter _ _).bind fun _ => (puts_addIdentityParameter _ _).map

lemma puts_addKeyAndStatus (change : DataChange) :
    Puts (if change.kind ≠ .alive then 28 else 20) (addKeyAndStatus change) true := by
  refine ((puts_addParameterKey _).bind fun _ => (puts_addParameterStatus _).addIf.map).of_eq ?_
  by_cases halive : change.kind ≠ .alive <;> simp [halive]

lemma puts_addKeyPayload (change : DataChange) : Puts 36 (addKeyPayload change) true :=
  .read fun _ => (puts_addOctet _).bind fun _ => (puts_addOctet _).bind fun _ =>
    (puts_addUInt16 _).bind fun _ => (puts_addParameterKey _).bind fun _ =>
    (puts_addParameterStatus _).bind fun _ => puts_addParameterSentinel.map

def qosLength (change : DataChange) (topic : TopicKind) (expects : Bool)
    (inlineQos : Option (List UInt8)) : Nat :=
  if change.inlineQosFlag topic expects inlineQos then
    (if change.isRelated then 56 else 0) + ((if change.keyInline topic expects then
        (if change.kind ≠ .alive then 28 else 20) else 0) +
        ((if inlineQos.isSome then (inlineQos.getD []).length else 0) + 4))
  else 0

lemma puts_serializeInlineQos (change : DataChange) (topic : TopicKind) (expects : Bool)
    (inlineQos : Option (List UInt8)) : Puts (qosLength change topic expects inlineQos)
      (addIf (change.inlineQosFlag topic expects inlineQos)
        (serializeInlineQos change topic expects inlineQos)) true :=
  .addIf <| (puts_addRelatedIdentity change).addIf.bind fun _ =>
    (puts_addKeyAndStatus change).addIf.bind fun _ => (puts_addData _).addIf.bind fun _ =>
    puts_addParameterSentinel.map

lemma puts_addSubmessageInfoTS (time : Time) : Puts 12 (addSubmessageInfoTS time) true :=
  .useDefaultEndian <| .read fun _ => (puts_addOctet _).bind fun _ =>
    (puts_addOctet _).bind fun _ => (puts_addUInt16 _).bind fun _ =>
    (puts_addInt32 _).bind fun _ => (puts_addUInt32 _).map

lemma puts_addSubmessageInfoDST (guidP : GuidPrefix) :
    Puts 16 (addSubmessageInfoDST guidP) true :=
  .useDefaultEndian <| .read fun _ => (puts_addOctet _).bind fun _ =>
    (puts_addOctet _).bind fun _ => (puts_addUInt16 _).bind fun _ => (puts_addVector guidP).map

lemma puts_addFragmentFields (n : Nat) (change : DataChange) :
    Puts 12 (addFragmentFields n change) true :=
  (puts_addUInt32 _).bind fun _ => (puts_addUInt16 _).bind fun _ =>
    (puts_addUInt16 _).bind fun _ => (puts_addUInt32 _).map

lemma serializeHeader_adds (n : Nat) (change : DataChange) (readerId : EntityId) (flags : Nat)
    (hnative : msg.Native) (hroom : msg.Room (24 + (if 0 < n then 12 else 0) + 1)) :
    ∃ msg', (serializeHeader n change readerId flags).run msg =
        (.ok (true, msg.pos + 2, msg.pos + 4), msg') ∧
      Extended msg msg' (24 + if 0 < n then 12 else 0) := by
  obtain ⟨msg1, hrun1, hext1⟩ := (puts_addOctet
    (if decide (0 < n) then 0x16 else 0x15)).adds msg hnative
    (hroom.mono (by omega))
  obtain ⟨msg2, hrun2, hext2⟩ := (puts_addOctet flags).adds msg1 (hext1.native hnative)
    (hext1.room (hroom.mono (by omega)))
  have hpos := (hext1.trans hext2).pos
  have hnative2 := (hext1.trans hext2).native hnative
  obtain ⟨msg3, hrun3, hext3⟩ := (puts_addUInt16 0).adds msg2 hnative2
    ((hext1.trans hext2).room (hroom.mono (by omega)))
  have hext := (hext1.trans hext2).trans hext3
  have hfields : Puts (20 + if decide (0 < n) then 12 else 0) (do
      let extraFlags ← addUInt16 0
      let octets ← addUInt16 (if decide (0 < n) then 28 else 16)
      let reader ← addEntityId readerId
      let writer ← addEntityId change.writerGUID.entityId
      let number ← addSequenceNumber change.sequenceNumber
      let fragment ← addIf (decide (0 < n)) (addFragmentFields n change)
      pure (extraFlags && octets && reader && writer && number && fragment, msg.pos + 2,
        msg.pos + 4)) (true, msg.pos + 2, msg.pos + 4) :=
    .of_eq ((puts_addUInt16 _).bind fun _ => (puts_addUInt16 _).bind fun _ =>
      (puts_addEntityId _).bind fun _ => (puts_addEntityId _).bind fun _ =>
      (puts_addSequenceNumber _).bind fun _ => (puts_addFragmentFields n change).addIf.map)
      (by omega)
  simp only [decide_eq_true_eq] at hfields
  obtain ⟨msg4, hrun4, hext4⟩ := hfields.adds msg3 (hext.native hnative)
    (hext.room (hroom.mono (by omega)))
  have htotal := hext.trans hext4
  rw [← Nat.add_assoc] at htotal
  refine ⟨msg4, ?_, htotal⟩
  rw [serializeHeader, bind_of_ok hrun1, bind_of_ok hrun2, run_read_bind,
    bind_of_ok hrun3, run_read_bind, hpos, hext.pos]
  simpa using hrun4

def paddingOf (body : Nat) : Nat := (4 - body % 4) % 4

lemma paddingOf_le (body : Nat) : paddingOf body ≤ 3 := by
  rw [paddingOf]
  omega

/-- A DATA_FRAG with so many bytes before its padding: what is in the message and what is pending,
and the length it declares. -/
structure Fragmented (msg msg' : CdrMessage) (pending : Pending) (body : Nat) : Prop where
  extended : ∃ k, Extended msg msg' (4 + k) ∧
    k + pending.size + pending.padding = body + paddingOf body
  declared : word msg.defaultEndian (msg'.buffer.slice (msg.pos + 2) 2) =
    (body + paddingOf body) % 2 ^ 16

lemma putLength_run (msg : CdrMessage) (sizePos size : Nat) :
    ∃ msg', (putLength sizePos size).run msg = (.ok (), msg') ∧ Extended msg msg' 0 ∧
      word msg.msgEndian (msg'.buffer.slice sizePos 2) = size % 2 ^ 16 := by
  refine ⟨_, rfl, ⟨rfl, rfl, rfl, rfl, rfl⟩, ?_⟩
  have hslice := Mem.slice_write_self msg.buffer sizePos (wordImage msg.msgEndian 2 size)
  rw [length_wordImage] at hslice
  rw [hslice, word, wordImage, ofWordBytes_wordBytes]
  rfl

lemma paddingOf_mod (body : Nat) : (4 - body % 2 ^ 16 % 4) % 4 = paddingOf body := by
  rw [paddingOf]
  omega

lemma finishFragment_copy {base msg : CdrMessage} {body : Nat} (hnative : base.Native)
    (hext : Extended base msg (4 + body)) (hroom : base.Room (4 + body + 4)) :
    ∃ msg' pending, (finishFragment true none (base.pos + 2) (base.pos + 4)).run msg =
        (.ok (true, pending), msg') ∧ Fragmented base msg' pending body := by
  have hsize : sub32 msg.pos (base.pos + 4) = body := by
    rw [hext.pos, sub32_of_le (by omega)]
    omega
  have hle := paddingOf_le body
  obtain ⟨msg1, hrun1, hext1⟩ := (puts_addPadding (paddingOf body)).adds msg (hext.native hnative)
    (hext.room (hroom.mono (by omega)))
  obtain ⟨msg2, hrun2, hext2, hword⟩ := putLength_run msg1 (base.pos + 2)
    ((body % 2 ^ 16 + paddingOf body) % 2 ^ 16)
  have htotal : Extended base msg2 (4 + (body + paddingOf body)) := by
    rw [← Nat.add_assoc]
    exact (hext.trans hext1).trans hext2
  have hback : { msg1 with pos := sub32 msg1.pos 0 } = msg1 := by
    rw [sub32_of_le (Nat.zero_le _), Nat.sub_zero]
  refine ⟨msg2, ⟨none, 0⟩, ?_, ⟨_, htotal, rfl⟩, ?_⟩
  · simp only [finishFragment, run_read_bind, hsize, paddingOf_mod, addIf, if_true, rewind,
      getD_none]
    rw [bind_of_ok hrun1, run_modify_bind, hback, bind_of_ok hrun2, run_pure]
  · have hendian := (hext.trans hext1).native hnative
    rw [← (hext.trans hext1).defaultEndian, ← (hendian : msg1.msgEndian = _), hword]
    omega

def ahead (msg : CdrMessage) (n : Nat) : CdrMessage := { msg with pos := msg.pos + n }

def back (msg : CdrMessage) (n : Nat) : CdrMessage := { msg with pos := msg.pos - n }

lemma Room.ahead {n m : Nat} (h : msg.Room (n + m)) : (msg.ahead n).Room m where
  fits := by
    have := h.fits
    simp only [CdrMessage.ahead]
    omega
  maxSize_lt := h.maxSize_lt
  length_lt := by
    have := h.length_lt
    simp only [CdrMessage.ahead]
    omega

/-- What was added behind a place that is left free. -/
theorem Extended.back (h : Extended (msg.ahead n) msg' k) : Extended msg (msg'.back n) k := by
  refine { h with pos := ?_ }
  have := h.pos
  simp only [CdrMessage.ahead, CdrMessage.back] at *
  omega

lemma Extended.le_pos (h : Extended (msg.ahead n) msg' k) : n ≤ msg'.pos := by
  have := h.pos
  simp only [CdrMessage.ahead] at this
  omega

lemma advance_run (hroom : msg.Room n) : (advance n).run msg = (.ok (), msg.ahead n) := by
  have hfits := hroom.fits
  have hmax := hroom.maxSize_lt
  have hpos : wrap32 (msg.pos + n) = msg.pos + n := Nat.mod_eq_of_lt (by omega)
  rw [advance, run_modify, hpos]
  rfl

lemma rewind_run (h : n ≤ msg.pos) : (rewind n).run msg = (.ok (), msg.back n) := by
  rw [rewind, run_modify, sub32_of_le h]
  rfl

lemma finishFragment_gather {base msg : CdrMessage} {size : Nat} (hnative : base.Native)
    (hext : Extended base msg (4 + k)) :
    ∃ msg' pending, (finishFragment false (some size) (base.pos + 2) (base.pos + 4)).run
        (msg.ahead size) = (.ok (true, pending), msg') ∧
      Fragmented base msg' pending (k + size) := by
  have hpos : (msg.ahead size).pos = base.pos + 4 + k + size := by
    simp only [ahead, hext.pos]
    omega
  have hsize : sub32 (msg.ahead size).pos (base.pos + 4) = k + size := by
    rw [hpos, sub32_of_le (by omega)]
    omega
  have hback : (rewind size).run (msg.ahead size) = (.ok (), (msg.ahead size).back size) :=
    rewind_run (by omega)
  have hsame : (msg.ahead size).back size = msg := by simp only [ahead, back, Nat.add_sub_cancel]
  obtain ⟨msg', hrun, hext', hword⟩ := putLength_run msg (base.pos + 2)
    (((k + size) % 2 ^ 16 + paddingOf (k + size)) % 2 ^ 16)
  refine ⟨msg', ⟨some size, paddingOf (k + size)⟩, ?_, ⟨_, hext.trans hext', ?_⟩, ?_⟩
  · simp only [finishFragment, run_read_bind, hsize, paddingOf_mod, addIf, Bool.false_eq_true,
      if_false, getD_some, run_pure_bind]
    rw [bind_of_ok hback, hsame, bind_of_ok hrun, run_pure]
  · simp only [Pending.size, getD_some]
  · have hendian := hext.native hnative
    rw [← hext.defaultEndian, ← (hendian : _ = _), hword]
    omega

lemma addPayload_gather (payload : List UInt8)
    (hroom : msg.Room payload.length) : (addPayload false payload).run msg =
      (.ok (some (true, some payload.length)), msg.ahead payload.length) := by
  have hfits := hroom.fits
  have hmax := hroom.maxSize_lt
  have hpos : wrap32 (msg.pos + payload.length) = msg.pos + payload.length :=
    Nat.mod_eq_of_lt (by omega)
  simp only [addPayload, Bool.false_eq_true, if_false, run_read_bind, hpos,
    if_neg (Nat.not_lt.2 hfits)]
  rw [bind_of_ok (advance_run hroom), run_pure]

lemma patchLength_extends (msg : CdrMessage) (sizePos countPos : Nat) :
    ∃ isBig msg', (patchLength sizePos countPos).run msg = (.ok isBig, msg') ∧
      Extended msg msg' 0 := by
  simp only [patchLength, run_read_bind]
  split
  · exact ⟨false, _, rfl, ⟨rfl, rfl, rfl, rfl, rfl⟩⟩
  · exact ⟨true, msg, rfl, .refl msg⟩

section Data

variable {msg : CdrMessage} (hnative : msg.Native) (change : DataChange) (topic : TopicKind)
  (readerId : EntityId) (expects : Bool) (inlineQos : Option (List UInt8))

def dataLength : Nat :=
  24 + qosLength change topic expects inlineQos +
    (if change.dataFlag then change.serializedPayload.length else 0) +
    (if change.keyFlag topic expects inlineQos then 36 else 0)

include hnative

lemma serializeHeaderAndQos (n flags : Nat) (hroom : msg.Room (24 + (if 0 < n then 12 else 0) +
      qosLength change topic expects inlineQos + 1)) :
    ∃ msg1 msg2, (serializeHeader n change readerId flags).run msg =
        (.ok (true, msg.pos + 2, msg.pos + 4), msg1) ∧
      (addIf (change.inlineQosFlag topic expects inlineQos)
        (serializeInlineQos change topic expects inlineQos)).run msg1 = (.ok true, msg2) ∧
      Extended msg msg2 (24 + (if 0 < n then 12 else 0) +
        qosLength change topic expects inlineQos) := by
  obtain ⟨msg1, hheader, hext1⟩ := serializeHeader_adds n change readerId flags hnative
    (hroom.mono (by omega))
  obtain ⟨msg2, hqos, hext2⟩ := (puts_serializeInlineQos change topic expects inlineQos).adds
    msg1 (hext1.native hnative) (hext1.room (hroom.mono (by omega)))
  exact ⟨msg1, msg2, hheader, hqos, hext1.trans hext2⟩

lemma serializeDataStart (hroom : msg.Room (24 + qosLength change topic expects inlineQos + 1)) :
    ∃ msg1 msg2, (serializeHeader 0 change readerId (dataFlags
        (decide (msg.defaultEndian = .littleend)) (change.inlineQosFlag topic expects inlineQos)
        change.dataFlag (change.keyFlag topic expects inlineQos))).run msg =
        (.ok (true, msg.pos + 2, msg.pos + 4), msg1) ∧
      (addIf (change.inlineQosFlag topic expects inlineQos)
        (serializeInlineQos change topic expects inlineQos)).run msg1 = (.ok true, msg2) ∧
      Extended msg msg2 (24 + qosLength change topic expects inlineQos) :=
  serializeHeaderAndQos hnative change topic readerId expects inlineQos 0 _ hroom

lemma addSubmessageDataFrag_run (hn : 0 < n) (payload : List UInt8) (copyData : Bool)
    (hkey : change.keyFlag topic expects inlineQos = false)
    (hroom : msg.Room (36 + qosLength change topic expects inlineQos +
      payload.length + 4)) :
    ∃ msg' pending, (addSubmessageDataFrag change n payload topic readerId expects
        inlineQos copyData).run msg = (.ok (true, pending), msg') ∧
      Fragmented msg msg' pending
        (32 + qosLength change topic expects inlineQos + payload.length) := by
  generalize hq : qosLength change topic expects inlineQos = q at *
  obtain ⟨msg1, msg2, hheader, hqos, hext⟩ := serializeHeaderAndQos hnative change topic
    readerId expects inlineQos n (fragmentFlags (decide (msg.defaultEndian = .littleend))
      (change.inlineQosFlag topic expects inlineQos) false)
    (hroom.mono (by rw [if_pos hn]; omega))
  rw [if_pos hn, hq] at hext
  have hfinish : ∃ msg3 buffer msg' pending,
      (addPayload copyData payload).run msg2 = (.ok (some (true, buffer)), msg3) ∧
      (finishFragment copyData buffer (msg.pos + 2) (msg.pos + 4)).run msg3 =
        (.ok (true, pending), msg') ∧
      Fragmented msg msg' pending (32 + q + payload.length) := by
    cases copyData with
    | true =>
      obtain ⟨msg3, hdata, hext3⟩ := (puts_addData payload).adds msg2 (hext.native hnative)
        (hext.room (hroom.mono (by omega)))
      have hall : Extended msg msg3 (4 + (32 + q + payload.length)) := by
        have := hext.trans hext3
        rwa [show 24 + 12 + q + payload.length = 4 + (32 + q + payload.length) by omega] at this
      obtain ⟨msg', pending, hrun, hfragmented⟩ := finishFragment_copy hnative hall
        (hroom.mono (by omega))
      refine ⟨msg3, none, msg', pending, ?_, hrun, hfragmented⟩
      simp only [addPayload, if_true]
      rw [bind_of_ok hdata, run_pure]
    | false =>
      have hgather := addPayload_gather payload (hext.room (m := payload.length)
        (hroom.mono (by omega)))
      have hall : Extended msg msg2 (4 + (32 + q)) := by
        rwa [show 24 + 12 + q = 4 + (32 + q) by omega] at hext
      obtain ⟨msg', pending, hrun, hfragmented⟩ := finishFragment_gather hnative hall
      exact ⟨_, _, msg', pending, hgather, hrun, hfragmented⟩
  obtain ⟨msg3, buffer, msg', pending, hdata, hrun, hfragmented⟩ := hfinish
  obtain ⟨k, hk, -⟩ := hfragmented.extended
  refine ⟨msg', pending, ?_, hfragmented⟩
  simp only [addSubmessageDataFrag, run_read_bind, useDefaultEndian, run_modify_bind,
    hnative.withDefault, hkey]
  rw [bind_of_ok hheader, bind_of_ok hqos]
  simp only [Bool.false_eq_true, if_false]
  rw [bind_of_ok hdata, bind_of_ok hrun, run_modify_bind, hk.withEndian, run_pure]
  rfl

lemma addSubmessageData_extends
    (hroom : msg.Room (dataLength change topic expects inlineQos + 4)) :
    ∃ msg' isBig, (addSubmessageData change topic readerId expects inlineQos).run msg =
        (.ok (true, isBig), msg') ∧
      Extended msg msg' (dataLength change topic expects inlineQos +
        paddingOf (msg.pos + dataLength change topic expects inlineQos)) := by
  have hle := paddingOf_le (msg.pos + dataLength change topic expects inlineQos)
  have hdata := (puts_addData change.serializedPayload.bytes).addIf (c := change.dataFlag)
  rw [SerializedPayload.length_bytes] at hdata
  rw [dataLength] at hroom hle ⊢
  obtain ⟨msg1, msg2, hheader, hqos, hext⟩ := serializeDataStart hnative change topic readerId
    expects inlineQos (hroom.mono (by omega))
  obtain ⟨msg3, hdata, hext3⟩ := hdata.adds msg2 (hext.native hnative)
    (hext.room (hroom.mono (by omega)))
  have hext' := hext.trans hext3
  obtain ⟨msg4, hkey, hext4⟩ := ((puts_addKeyPayload change).addIf
    (c := change.keyFlag topic expects inlineQos)).adds msg3 (hext'.native hnative)
    (hext'.room (hroom.mono (by omega)))
  have hext'' := hext'.trans hext4
  obtain ⟨msg5, hpadding, hext5⟩ := (puts_addPadding (paddingOf msg4.pos)).adds msg4
    (hext''.native hnative) (hext''.room (hroom.mono (by rw [hext''.pos]; omega)))
  obtain ⟨isBig, msg6, hpatch, hext6⟩ := patchLength_extends msg5 (msg.pos + 2) (msg.pos + 4)
  have hall := (hext''.trans hext5).trans hext6
  rw [hext''.pos] at hall
  refine ⟨msg6, isBig, ?_, hall⟩
  simp only [addSubmessageData, run_read_bind, run_modify_bind, hnative.withDefault]
  rw [bind_of_ok hheader, bind_of_ok hqos, bind_of_ok hdata,
    bind_of_ok hkey, run_read_bind, ← paddingOf, bind_of_ok hpadding]
  rw [bind_of_ok hpatch, run_modify_bind, hall.withEndian, run_pure]
  rfl

lemma gatherSubmessageData_extends
    (hroom : msg.Room (dataLength change topic expects inlineQos + 4)) :
    ∃ msg' isBig pending k, (gatherSubmessageData change topic readerId expects
        inlineQos).run msg = (.ok (true, isBig, pending), msg') ∧
      Extended msg msg' k ∧ k + pending.size + pending.padding =
        dataLength change topic expects inlineQos +
          paddingOf (msg.pos + dataLength change topic expects inlineQos) := by
  rw [dataLength] at hroom ⊢
  obtain ⟨msg1, msg2, hheader, hqos, hext⟩ := serializeDataStart hnative change topic readerId
    expects inlineQos (hroom.mono (by omega))
  -- The place of the payload, which the message does not get any longer for.
  obtain ⟨buffer, hbuffer, hdata⟩ : ∃ buffer : Option Nat,
      buffer.getD 0 = (if change.dataFlag then change.serializedPayload.length else 0) ∧
      (gatherPayload change).run msg2 =
        (.ok (some (true, buffer)), msg2.ahead (buffer.getD 0)) := by
    rw [gatherPayload]
    by_cases hflag : change.dataFlag
    · rw [if_pos hflag] at hroom ⊢
      rw [if_pos hflag, ← SerializedPayload.length_bytes] at *
      exact ⟨_, rfl, addPayload_gather _ (hext.room (hroom.mono (by omega)))⟩
    · refine ⟨none, by rw [if_neg hflag]; rfl, ?_⟩
      rw [if_neg hflag]
      rfl
  rw [← hbuffer] at hroom ⊢
  generalize hb : buffer.getD 0 = size at *
  have hroom2 : (msg2.ahead size).Room
      ((if change.keyFlag topic expects inlineQos then 36 else 0) + 4) :=
    (hext.room (hroom.mono (by omega))).ahead
  obtain ⟨msg3, hkey, hext3⟩ := ((puts_addKeyPayload change).addIf
    (c := change.keyFlag topic expects inlineQos)).adds (msg2.ahead size)
    (hext.native hnative) (hroom2.mono (by omega))
  have hpadding : (advance (paddingOf msg3.pos)).run msg3 =
      (.ok (), msg3.ahead (paddingOf msg3.pos)) := advance_run
    (hext3.room (hroom2.mono (by simp only [paddingOf]; omega)))
  obtain ⟨isBig, msg4, hpatch, hext4⟩ := patchLength_extends
    (msg3.ahead (paddingOf msg3.pos)) (msg.pos + 2) (msg.pos + 4)
  have hbehind := hext3.trans hext4.back
  have hall := hext.trans hbehind.back
  refine ⟨_, isBig, ⟨buffer, paddingOf msg3.pos⟩, _, ?_, hall, ?_⟩
  · simp only [gatherSubmessageData, run_read_bind, useDefaultEndian, run_modify_bind,
      hnative.withDefault]
    rw [bind_of_ok hheader, bind_of_ok hqos, bind_of_ok hdata]
    rw [bind_of_ok hkey, run_read_bind]
    rw [← paddingOf, bind_of_ok hpadding, bind_of_ok hpatch, bind_of_ok (rewind_run hext4.le_pos),
      hb, bind_of_ok (rewind_run hbehind.le_pos), run_modify_bind, hall.withEndian, run_pure]
    rfl
  · have hpos : msg3.pos = msg.pos + (24 + qosLength change topic expects inlineQos +
        size + if change.keyFlag topic expects inlineQos then 36 else 0) := by
      have hpos3 : msg3.pos = msg2.pos + size + _ := hext3.pos
      rw [hpos3, hext.pos]
      omega
    rw [← hpos, Pending.size]
    simp only [hb]
    omega

lemma addSubmessageDataFor_run (copyData : Bool)
    (hroom : msg.Room (dataLength change topic expects inlineQos + 4)) :
    ∃ msg' isBig pending k, (addSubmessageDataFor copyData change topic readerId
        expects inlineQos).run msg = (.ok (true, isBig, pending), msg') ∧
      Extended msg msg' k ∧ k + pending.size + pending.padding =
        dataLength change topic expects inlineQos +
          paddingOf (msg.pos + dataLength change topic expects inlineQos) := by
  cases copyData with
  | true =>
    obtain ⟨msg', isBig, hrun, hext⟩ := addSubmessageData_extends hnative change topic readerId
      expects inlineQos hroom
    refine ⟨msg', isBig, .none, _, ?_, hext, rfl⟩
    simp only [addSubmessageDataFor, if_true]
    rw [bind_of_ok hrun, run_pure]
  | false =>
    exact gatherSubmessageData_extends hnative change topic readerId expects inlineQos hroom

end Data

end EasyDds.Rtps.CdrMessage
