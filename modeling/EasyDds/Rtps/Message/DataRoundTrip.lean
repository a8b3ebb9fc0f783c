import EasyDds.Rtps.Message.DataSubmessage
import EasyDds.Rtps.Message.InlineQos

/-!
A change written as a DATA submessage and parsed again.
-/

namespace EasyDds.Rtps.CdrMessage

open Prog List Option

variable {e : Endianness} {slack : Nat}

section Images

variable (e : Endianness) (change : DataChange) (topic : TopicKind) (readerId : EntityId)
  (expects : Bool) (others : Option (List Parameter))

def headerImage (flags length : Nat) : List UInt8 :=
  [0x15] ++ ([UInt8.ofNat flags] ++ wordImage e 2 length)

def fixedImage : List UInt8 :=
  wordImage e 2 0 ++ (wordImage e 2 16 ++ (readerId.toList ++
    (change.writerGUID.entityId.toList ++ sequenceNumberImage e change.sequenceNumber)))

def sentParameters : List Parameter :=
  (if change.isRelated then
    [.identity pidRelatedSampleIdentity e change.relatedSampleIdentity,
      .identity pidCustomRelatedSampleIdentity e change.relatedSampleIdentity]
  else []) ++
  ((if change.keyInline topic expects then
    .key change.instanceHandle :: (if change.kind ≠ .alive then [.status change.status] else [])
  else []) ++ others.getD [])

def ownInlineQos : Option (List UInt8) := others.map (parametersImage e)

def hasInlineQos : Bool :=
  change.inlineQosFlag topic expects (ownInlineQos e others)

def hasKeyPayload : Bool :=
  change.keyFlag topic expects (ownInlineQos e others)

def qosImage : List UInt8 :=
  if hasInlineQos e change topic expects others then
    parametersImage e (sentParameters e change topic expects others) ++ sentinelImage e
  else []

def keyPayloadImage : List UInt8 :=
  [0] ++ ([UInt8.ofNat (if e = .bigend then 2 else 3)] ++ (wordImage e 2 0 ++
    ((Parameter.key change.instanceHandle).image e ++
      ((Parameter.status change.status).image e ++ sentinelImage e))))

def dataImage : List UInt8 := if change.dataFlag then change.serializedPayload.bytes else []

def keyImage : List UInt8 :=
  if hasKeyPayload e change topic expects others then keyPayloadImage e change else []

def unpaddedBody : List UInt8 :=
  fixedImage e change readerId ++ (qosImage e change topic expects others ++
    (dataImage change ++ keyImage e change topic expects others))

def bodyImage (pos : Nat) : List UInt8 :=
  let body := unpaddedBody e change topic readerId expects others
  body ++ replicate ((4 - (pos + 4 + body.length) % 4) % 4) 0

def flagsImage : Nat :=
  dataFlags (decide (e = .littleend)) (hasInlineQos e change topic expects others)
    change.dataFlag (hasKeyPayload e change topic expects others)

end Images

section Encoding

lemma emits_addIf {c : Bool} {m : Reader Bool} {bytes : List UInt8}
    (hm : Emits slack e m true bytes) :
    Emits slack e (addIf c m) true (if c then bytes else []) := by
  cases c
  · exact Emits.pure true
  · exact hm

variable (change : DataChange) (topic : TopicKind) (readerId : EntityId)
  (expects : Bool) (others : Option (List Parameter)) (flags : Nat)

lemma emits_addRelatedIdentity : Emits 1 e (addRelatedIdentity change) true (parametersImage e
      [.identity pidRelatedSampleIdentity e change.relatedSampleIdentity,
        .identity pidCustomRelatedSampleIdentity e change.relatedSampleIdentity]) := by
  simp only [parametersImage, flatMap_cons, flatMap_nil, List.append_nil]
  exact (emits_addIdentityParameter _ _).bind (emits_addIdentityParameter _ _).map

lemma emits_addKeyAndStatus : Emits 1 e (addKeyAndStatus change) true (parametersImage e
      (.key change.instanceHandle ::
        (if change.kind ≠ .alive then [.status change.status] else []))) := by
  refine (emits_addParameterKey _).bind ?_
  have h := (emits_addIf (c := decide (change.kind ≠ .alive))
    (emits_addParameterStatus (e := e) change.status)).map (f := fun status => true && status)
  by_cases halive : change.kind ≠ .alive
  · simpa [halive] using h
  · simpa [halive] using h

lemma parametersImage_append (ps qs : List Parameter) :
    parametersImage e (ps ++ qs) = parametersImage e ps ++ parametersImage e qs :=
  flatMap_append

lemma parametersImage_ite {c : Prop} [Decidable c] (ps : List Parameter) :
    parametersImage e (if c then ps else []) = if c then parametersImage e ps else [] := by
  split <;> rfl

lemma emits_serializeInlineQos :
    Emits 1 e (serializeInlineQos change topic expects (ownInlineQos e others)) true
      (parametersImage e (sentParameters e change topic expects others) ++ sentinelImage e) := by
  have hown : parametersImage e (others.getD []) =
      if (ownInlineQos e others).isSome then (ownInlineQos e others).getD [] else [] := by
    cases others <;> rfl
  rw [sentParameters, parametersImage_append, parametersImage_append, parametersImage_ite,
    parametersImage_ite, hown, append_assoc, append_assoc]
  exact (emits_addIf (emits_addRelatedIdentity change)).bind
    ((emits_addIf (emits_addKeyAndStatus change)).bind
      ((emits_addIf (emits_addData _)).bind emits_addParameterSentinel.map))

lemma emits_addKeyPayload : Emits 1 e (addKeyPayload change) true (keyPayloadImage e change) := by
  apply Emits.read
  intro msg hend
  rw [hend]
  exact (emits_addOctet 0).bind ((emits_addOctet _).bind ((emits_addUInt16 0).bind
    ((emits_addParameterKey _).bind ((emits_addParameterStatus _).bind
      emits_addParameterSentinel.map))))

lemma emits_qosImage : Emits 1 e (addIf (hasInlineQos e change topic expects others)
        (serializeInlineQos change topic expects (ownInlineQos e others))) true
      (qosImage e change topic expects others) :=
  emits_addIf (emits_serializeInlineQos change topic expects others)

lemma emits_dataImage :
    Emits 1 e (addIf change.dataFlag (addData change.serializedPayload.bytes)) true
      (dataImage change) :=
  emits_addIf (emits_addData _)

lemma emits_keyImage : Emits 1 e (addIf (hasKeyPayload e change topic expects others)
        (addKeyPayload change)) true
      (keyImage e change topic expects others) :=
  emits_addIf (emits_addKeyPayload change)

lemma length_headerImage (e : Endianness) (flags n : Nat) : (headerImage e flags n).length = 4 := by
  simp [headerImage]

lemma length_fixedImage (e : Endianness) (change : DataChange) (readerId : EntityId) :
    (fixedImage e change readerId).length = 20 := by
  simp [fixedImage, length_sequenceNumberImage]

lemma emits_fixedFields {α : Type} (a : α) : Emits 1 e (do
      let extraFlags ← addUInt16 0
      let octets ← addUInt16 16
      let reader ← addEntityId readerId
      let writer ← addEntityId change.writerGUID.entityId
      let number ← addSequenceNumber change.sequenceNumber
      let fragment ← addIf false (addFragmentFields 0 change)
      pure (extraFlags && octets && reader && writer && number && fragment, a))
      (true, a) (fixedImage e change readerId) :=
  (emits_addUInt16 0).bind ((emits_addUInt16 16).bind ((emits_addEntityId readerId).bind
    ((emits_addEntityId _).bind (emits_addSequenceNumber _).map)))

variable {msg : CdrMessage}

lemma serializeHeader_run (hend : msg.msgEndian = e) (hroom : msg.Room (24 + 1)) :
    (serializeHeader 0 change readerId flags).run msg =
      (.ok (true, msg.pos + 2, msg.pos + 4),
        msg.append (headerImage e flags 0 ++ fixedImage e change readerId)) := by
  have hlow : ∀ {k : Nat}, k ≤ 25 → msg.Room k := fun hk => hroom.mono hk
  have hid : (addOctet 0x15).run msg = (.ok true, msg.append [0x15]) :=
    emits_addOctet (e := e) 0x15 msg hend (hlow (by decide : 1 + 0 ≤ 25))
  have hflags := emits_addOctet (e := e) flags (msg.append [0x15]) hend
    (Room.append (hlow (by decide : 1 + (1 + 0) ≤ 25)))
  have hsize := emits_addUInt16 (e := e) 0 ((msg.append [0x15]).append [UInt8.ofNat flags]) hend
    (Room.append (Room.append (hlow (by simp : 1 + (1 + (_ + 0)) ≤ 25))))
  have hfixed := emits_fixedFields change readerId (msg.pos + 2, msg.pos + 4)
    (((msg.append [0x15]).append [UInt8.ofNat flags]).append (wordImage e 2 0)) hend
    (Room.append (Room.append (Room.append
      (hlow (by simp [length_fixedImage] : 1 + (1 + ((wordImage e 2 0).length + (_ + 1))) ≤ 25)))))
  simp only [serializeHeader, Nat.lt_irrefl, decide_false, Bool.false_eq_true, if_false]
  rw [bind_of_ok hid, bind_of_ok hflags, run_read_bind, bind_of_ok hsize, run_read_bind]
  have hpos1 : ((msg.append [0x15]).append [UInt8.ofNat flags]).pos = msg.pos + 2 := rfl
  have hpos2 : (((msg.append [0x15]).append [UInt8.ofNat flags]).append (wordImage e 2 0)).pos =
      msg.pos + 4 := by
    simp [append]
  rw [hpos1, hpos2, hfixed]
  simp only [append_append, headerImage, append_assoc]

lemma append_patched (msg : CdrMessage) (flags n : Nat) (body : List UInt8) :
    { msg.append (headerImage e flags 0 ++ body) with
      buffer := (msg.append (headerImage e flags 0 ++ body)).buffer.write (msg.pos + 2)
        (wordImage e 2 n) } = msg.append (headerImage e flags n ++ body) := by
  have hsplit : ∀ k, headerImage e flags k ++ body =
      [0x15, UInt8.ofNat flags] ++ (wordImage e 2 k ++ body) := by
    intro k
    simp [headerImage]
  have hwrite := Mem.write_overwrite msg.buffer msg.pos [0x15, UInt8.ofNat flags] body
    (by simp : (wordImage e 2 n).length = (wordImage e 2 0).length)
  have htwo : [0x15, UInt8.ofNat flags].length = 2 := rfl
  rw [← hsplit, ← hsplit, htwo] at hwrite
  have hlength : (headerImage e flags n ++ body).length =
      (headerImage e flags 0 ++ body).length := by
    simp [length_headerImage]
  simp only [append, hlength, hwrite]

lemma patchLength_run (body : List UInt8) (hend : msg.msgEndian = e)
    (hroom : msg.Room (4 + body.length)) :
    (patchLength (msg.pos + 2) (msg.pos + 4)).run (msg.append (headerImage e flags 0 ++ body)) =
      (.ok (decide (65535 < body.length)),
        msg.append (headerImage e flags (if 65535 < body.length then 0 else body.length) ++
          body)) := by
  have hfits := hroom.fits
  have hpos : (msg.append (headerImage e flags 0 ++ body)).pos = msg.pos + (4 + body.length) := by
    simp [append, length_headerImage]
  have hsize : sub32 (msg.pos + (4 + body.length)) (msg.pos + 4) = body.length := by
    rw [sub32_of_le (by omega)]
    omega
  rw [patchLength, run_read_bind, hpos, hsize]
  by_cases hbig : 65535 < body.length
  · rw [if_neg (by omega), if_pos hbig, decide_eq_true hbig, run_pure]
  · rw [if_pos (by omega), if_neg hbig, decide_eq_false hbig, putLength,
      run_modify_bind, run_pure]
    subst hend
    exact congrArg (Prod.mk (Except.ok false)) (append_patched msg flags body.length body)

def submessageImage (e : Endianness) (change : DataChange) (topic : TopicKind) (readerId : EntityId)
    (expects : Bool) (others : Option (List Parameter)) (pos : Nat) : List UInt8 :=
  let body := bodyImage e change topic readerId expects others pos
  headerImage e (flagsImage e change topic expects others)
    (if 65535 < body.length then 0 else body.length) ++ body

lemma length_submessageImage (pos : Nat) :
    (submessageImage e change topic readerId expects others pos).length =
      4 + (bodyImage e change topic readerId expects others pos).length := by
  simp only [submessageImage, length_append, length_headerImage]

lemma Emits.after {base : CdrMessage} {α : Type} {m : Reader α} {a : α} {bs : List UInt8}
    (hm : Emits slack e m a bs) (hend : base.msgEndian = e) (done : List UInt8)
    (hroom : base.Room (done.length + bs.length + slack)) :
    m.run (base.append done) = (.ok a, base.append (done ++ bs)) := by
  rw [Nat.add_assoc] at hroom
  rw [hm (base.append done) hend hroom.append, append_append]

lemma addSubmessageData_run (hend : msg.defaultEndian = e)
    (hroom : msg.Room (4 + (bodyImage e change topic readerId expects others msg.pos).length + 1)) :
    (addSubmessageData change topic readerId expects (ownInlineQos e others)).run msg =
      (.ok (true, decide (65535 <
          (bodyImage e change topic readerId expects others msg.pos).length)),
        msg.append (submessageImage e change topic readerId expects others msg.pos)) := by
  have hqos := emits_qosImage (e := e) change topic expects others
  have hdata := emits_dataImage (e := e) change
  have hkey := emits_keyImage (e := e) change topic expects others
  unfold submessageImage
  rw [bodyImage] at *
  generalize hbody : unpaddedBody e change topic readerId expects others = body at *
  rw [unpaddedBody] at hbody
  generalize qosImage e change topic expects others = qos at *
  generalize dataImage change = data at *
  generalize keyImage e change topic expects others = key at *
  generalize hflags : flagsImage e change topic expects others = flags
  have hzeros : Emits 1 e (addPadding ((4 - (msg.pos + 4 + body.length) % 4) % 4)) true _ :=
    emits_addPadding _
  generalize hfull : body ++ replicate ((4 - (msg.pos + 4 + body.length) % 4) % 4) 0 = full at *
  obtain ⟨base, hbase⟩ : ∃ b : CdrMessage, b = { msg with msgEndian := msg.defaultEndian } :=
    ⟨_, rfl⟩
  have hbend : base.msgEndian = e := by rw [hbase]; exact hend
  have hbpos : base.pos = msg.pos := by rw [hbase]
  have hbroom : ∀ {n}, n ≤ 4 + full.length + 1 → base.Room n := by
    intro n hn
    rw [hbase]
    exact ⟨(hroom.mono hn).fits, hroom.maxSize_lt, (hroom.mono hn).length_lt⟩
  have hlen := congrArg List.length hbody
  have hfullLen := congrArg List.length hfull
  simp only [length_append, length_fixedImage, length_replicate] at hlen hfullLen
  have hheader := serializeHeader_run change readerId flags hbend (hbroom (by omega))
  generalize hstart : headerImage e flags 0 ++ fixedImage e change readerId = start at *
  have hstartLen : start.length = 24 := by simp [← hstart, length_headerImage, length_fixedImage]
  have hqosRun := hqos.after hbend start (hbroom (by omega))
  have hdataRun := hdata.after hbend (start ++ qos) (hbroom (by rw [length_append]; omega))
  have hkeyRun := hkey.after hbend (start ++ qos ++ data)
    (hbroom (by simp only [length_append]; omega))
  have hjoin : start ++ qos ++ data ++ key = headerImage e flags 0 ++ body := by
    simp only [← hstart, ← hbody, append_assoc]
  have hunpadded : (headerImage e flags 0 ++ body).length = 4 + body.length := by
    rw [length_append, length_headerImage]
  have hpos : (base.append (headerImage e flags 0 ++ body)).pos = msg.pos + 4 + body.length := by
    simp only [append, hunpadded, hbpos]
    omega
  have hpadding := hzeros.after hbend (headerImage e flags 0 ++ body)
    (hbroom (by rw [hunpadded, length_replicate]; omega))
  have hpatch := patchLength_run flags full hbend (hbroom (by omega))
  rw [hjoin] at hkeyRun
  rw [append_assoc, hfull] at hpadding
  rw [addSubmessageData, run_read_bind, run_modify_bind, ← hbase, hend]
  change (serializeHeader 0 change readerId
    (flagsImage e change topic expects others) >>= _).run base = _
  rw [hflags, bind_of_ok hheader]
  change (addIf (hasInlineQos e change topic expects others) _ >>= _).run _ = _
  rw [bind_of_ok hqosRun, bind_of_ok hdataRun]
  change (addIf (hasKeyPayload e change topic expects others) _ >>= _).run _ = _
  rw [bind_of_ok hkeyRun, run_read_bind, hpos, bind_of_ok hpadding, bind_of_ok hpatch,
    run_modify_bind, run_pure, hbase]
  rfl

end Encoding

section Decoding

variable {rx : CdrMessage}

lemma reads_advance (bytes : List UInt8) : Reads e (advance bytes.length) () bytes := by
  intro msg _ hahead
  have hin := hahead.inside
  have hlt := hahead.length_lt
  have hpos : wrap32 (msg.pos + bytes.length) = msg.pos + bytes.length :=
    Nat.mod_eq_of_lt (by omega)
  refine ⟨msg.accesses, ?_⟩
  simp only [advance, run_modify, hpos, moved]

variable {bytes : List UInt8}

lemma Ahead.byte (h : rx.Ahead bytes) {k : Nat} {b : UInt8} (hb : bytes[k]? = some b) :
    rx.buffer (rx.pos + k) = b := by
  have hk : k < bytes.length := (List.getElem?_eq_some_iff.mp hb).1
  have hslice := Mem.getElem?_slice rx.buffer rx.pos bytes.length k hk
  rw [h.bytes_eq, hb] at hslice
  exact (some.inj hslice).symm

lemma Ahead.withEndian (h : rx.Ahead bytes) (e : Endianness) :
    ({ rx with msgEndian := e }).Ahead bytes :=
  ⟨h.bytes_eq, h.inside, h.length_lt⟩

def flagsEndian (flags : UInt8) : Endianness := if flags &&& 1 ≠ 0 then .littleend else .bigend

lemma readSubmessageHeader_run {flags n : Nat} {body : List UInt8}
    (hend : flagsEndian (UInt8.ofNat flags) = e) (hn : n < 2 ^ 16)
    (hlen : if n = 0 then rx.length = rx.pos + 4 + body.length else n = body.length)
    (hahead : rx.Ahead (headerImage e flags n ++ body)) : ∃ accesses, readSubmessageHeader.run rx =
        (.ok ⟨0x15, UInt8.ofNat flags, body.length, decide (n = 0)⟩,
          { rx.moved 4 accesses with msgEndian := e }) ∧
      ({ rx.moved 4 accesses with msgEndian := e }).Ahead body := by
  have hin := hahead.inside
  have hlt := hahead.length_lt
  rw [length_append, length_headerImage] at hin
  have hid : rx.buffer rx.pos = 0x15 := hahead.byte (k := 0) (by simp [headerImage])
  have hflags : rx.buffer (wrap32 (rx.pos + 1)) = UInt8.ofNat flags := by
    rw [wrap32, Nat.mod_eq_of_lt (by omega)]
    exact hahead.byte (by simp [headerImage])
  have htwo : wrap32 (rx.pos + 2) = rx.pos + 2 := Nat.mod_eq_of_lt (by omega)
  have hsplit : headerImage e flags n ++ body =
      [0x15, UInt8.ofNat flags] ++ (wordImage e 2 n ++ body) := by
    simp [headerImage]
  rw [hsplit] at hahead
  have hrest := (hahead.right rx.accesses).withEndian e
  obtain ⟨accesses, hrun⟩ := (reads_readUInt16 hn).attempt _ rfl hrest.left
  have hbody := hrest.right accesses
  simp only [moved, length_wordImage, length_cons, length_nil, Nat.add_assoc] at hrun hbody
  refine ⟨accesses, ?_, hbody⟩
  have hshort : ¬ sub32 rx.length rx.pos < 4 := by
    rw [sub32_of_le (by omega)]
    omega
  have hfits : ¬ rx.length < wrap32 (rx.pos + 4 + n) := by
    rw [wrap32, Nat.mod_eq_of_lt (by split at hlen <;> omega)]
    split at hlen <;> omega
  unfold flagsEndian at hend
  rw [readSubmessageHeader, run_read_bind, if_neg hshort, hid, hflags]
  simp only [advance, run_modify_bind, htwo, hend]
  rw [bind_of_ok hrun, run_read_bind, getD_some]
  rw [if_neg hfits]
  by_cases hzero : n = 0
  · rw [if_pos hzero] at hlen
    have hrestlen : sub32 rx.length (rx.pos + 4) = body.length := by
      rw [sub32_of_le (by omega)]
      omega
    rw [if_pos ⟨hzero, by decide, by decide⟩, run_pure, decide_eq_true hzero]
    exact congrArg (fun k => (Except.ok (SubmessageHeader.mk 0x15 (UInt8.ofNat flags) k true), _))
      hrestlen
  · rw [if_neg hzero] at hlen
    rw [if_neg (fun h => hzero h.1), run_pure, decide_eq_false hzero, hlen]
    rfl

lemma dataFlags_bits (little inlineQos data key : Bool) :
    flagsEndian (UInt8.ofNat (dataFlags little inlineQos data key)) =
        (if little then .littleend else .bigend) ∧
      decide (UInt8.ofNat (dataFlags little inlineQos data key) &&& 2 ≠ 0) = inlineQos ∧
      decide (UInt8.ofNat (dataFlags little inlineQos data key) &&& 4 ≠ 0) = data ∧
      decide (UInt8.ofNat (dataFlags little inlineQos data key) &&& 8 ≠ 0) = key := by
  cases little <;> cases inlineQos <;> cases data <;> cases key <;> decide

variable (change : DataChange) (topic : TopicKind) (readerId : EntityId)
  (expects : Bool) (others : Option (List Parameter))

lemma flagsEndian_flagsImage :
    flagsEndian (UInt8.ofNat (flagsImage e change topic expects others)) = e := by
  refine (dataFlags_bits _ _ _ _).1.trans ?_
  cases e <;> rfl

lemma statusKind_status (change : DataChange) : statusKind .alive change.status = change.kind := by
  cases hkind : change.kind <;> simp [statusKind, DataChange.status, hkind]

lemma status_lt (change : DataChange) : change.status < 256 := by
  cases hkind : change.kind <;> simp [DataChange.status, hkind]

variable (vendor : VendorId)

/-- The related identity leaves kind and handle alone. -/
theorem processesAll_related (qos : InlineQos) :
    ∃ qos', ProcessesAll vendor e (if change.isRelated then
        [.identity pidRelatedSampleIdentity e change.relatedSampleIdentity,
          .identity pidCustomRelatedSampleIdentity e change.relatedSampleIdentity]
      else []) qos qos' ∧
      qos'.kind = qos.kind ∧ qos'.instanceHandle = qos.instanceHandle := by
  split
  · obtain ⟨qos1, hfirst, hkind1, hhandle1⟩ := processes_identity (e := e) vendor
      change.relatedSampleIdentity qos (.inl rfl)
    obtain ⟨qos2, hsecond, hkind2, hhandle2⟩ := processes_identity (e := e) vendor
      change.relatedSampleIdentity qos1 (.inr rfl)
    exact ⟨qos2, ⟨qos1, hfirst, qos2, hsecond, rfl⟩, hkind2.trans hkind1, hhandle2.trans hhandle1⟩
  · exact ⟨qos, rfl, rfl, rfl⟩

/-- Key and status, sent together, give handle and kind. -/
theorem processesAll_keyAndStatus {qos : InlineQos} (hqos : qos.kind = .alive) :
    ∃ qos', ProcessesAll vendor e (.key change.instanceHandle ::
        (if change.kind ≠ .alive then [.status change.status] else [])) qos qos' ∧
      qos'.kind = change.kind ∧ qos'.instanceHandle = ⟨change.instanceHandle.value, true⟩ := by
  have hkey := processes_key (e := e) vendor change.instanceHandle qos
  by_cases halive : change.kind = .alive
  · rw [if_neg (not_not.mpr halive)]
    exact ⟨_, ⟨_, hkey, rfl⟩, hqos.trans halive.symm, rfl⟩
  · rw [if_pos halive]
    have hstatus := processes_status (e := e) vendor (status_lt change)
      { qos with instanceHandle := ⟨change.instanceHandle.value, true⟩ }
    refine ⟨_, ⟨_, hkey, _, hstatus, rfl⟩, ?_, rfl⟩
    simp only [hqos, statusKind_status]

def Expressible (change : DataChange) (topic : TopicKind) : Prop :=
  change.kind = .alive ∨ topic = .withKey

variable {change topic expects others}

lemma keyInline_of_not_alive (hkind : Expressible change topic) (hne : change.kind ≠ .alive) :
    change.keyInline topic expects = true := by
  have hkey := hkind.resolve_left hne
  simp [DataChange.keyInline, hkey, hne]

lemma processesAll_sent (expects : Bool) (hkind : Expressible change topic)
    (hothers : ∀ p ∈ others.getD [], p.Foreign) :
    ∃ qos, ProcessesAll vendor e (sentParameters e change topic expects others)
        InlineQos.initial qos ∧
      qos.kind = change.kind ∧
      (change.keyInline topic expects = true →
        qos.instanceHandle = ⟨change.instanceHandle.value, true⟩) := by
  obtain ⟨qos1, hrelated, hkind1, -⟩ :=
    processesAll_related (e := e) change vendor InlineQos.initial
  by_cases hinline : change.keyInline topic expects = true
  · obtain ⟨qos2, hkey, hkind2, hhandle2⟩ :=
      processesAll_keyAndStatus (e := e) change vendor hkind1
    refine ⟨qos2, ?_, hkind2, fun _ => hhandle2⟩
    rw [sentParameters, if_pos hinline]
    exact processesAll_append hrelated
      (processesAll_append hkey (processesAll_foreign hothers qos2))
  · have halive : change.kind = .alive := by
      by_contra hne
      exact hinline (keyInline_of_not_alive hkind hne)
    refine ⟨qos1, ?_, hkind1.trans halive.symm, fun h => absurd h hinline⟩
    rw [sentParameters, if_neg hinline, nil_append]
    exact processesAll_append hrelated (processesAll_foreign hothers qos1)

lemma wellFormed_sent (hothers : ∀ p ∈ others.getD [], p.Foreign) :
    ∀ p ∈ sentParameters e change topic expects others, p.WellFormed := by
  intro p hp
  rw [sentParameters, mem_append, mem_append] at hp
  rcases hp with hp | hp | hp
  · rw [mem_ite_nil_right] at hp
    obtain ⟨-, hp⟩ := hp
    rcases mem_pair.mp hp with rfl | rfl
    · exact Parameter.wellFormed_identity (by decide) (by decide) _
    · exact Parameter.wellFormed_identity (by decide) (by decide) _
  · rw [mem_ite_nil_right] at hp
    rcases mem_cons.mp hp.2 with rfl | hstatus
    · exact Parameter.wellFormed_key _
    · rw [mem_ite_nil_right, mem_singleton] at hstatus
      rw [hstatus.2]
      exact Parameter.wellFormed_status _
  · exact (hothers p hp).toWellFormed

/-- The inline QoS of the submessage is read back. -/
theorem readInlineQos_run (hkind : Expressible change topic)
    (hothers : ∀ p ∈ others.getD [], p.Foreign) (hend : rx.msgEndian = e) {rest : List UInt8}
    (hahead : rx.Ahead (qosImage e change topic expects others ++ rest)) : ∃ qos region accesses,
      (readInlineQos vendor (hasInlineQos e change topic expects others)).run rx =
        (.ok (qos, (qosImage e change topic expects others).length, region),
          rx.moved (qosImage e change topic expects others).length accesses) ∧
      qos.kind = change.kind ∧
      (change.keyInline topic expects = true →
        qos.instanceHandle = ⟨change.instanceHandle.value, true⟩) := by
  by_cases hflag : hasInlineQos e change topic expects others = true
  · obtain ⟨qos, hproc, hqosKind, hhandle⟩ :=
      processesAll_sent (e := e) vendor expects hkind hothers
    have hreads := reads_updateCacheChangeFromInlineQos (wellFormed_sent hothers) hproc
    rw [qosImage, if_pos hflag] at hahead ⊢
    obtain ⟨accesses, hrun⟩ := hreads rx hend hahead.left
    rw [length_append, length_sentinelImage] at hrun ⊢
    rw [readInlineQos, hflag, if_pos rfl, bind_of_ok hrun]
    exact ⟨qos, _, accesses, rfl, hqosKind, hhandle⟩
  · have hnone : change.keyInline topic expects ≠ true := by
      intro hinline
      apply hflag
      simp [hasInlineQos, DataChange.inlineQosFlag, hinline]
    have halive : change.kind = .alive := by
      by_contra hne
      exact hnone (keyInline_of_not_alive hkind hne)
    rw [qosImage, if_neg hflag]
    refine ⟨InlineQos.initial, none, rx.accesses, ?_, halive.symm, fun h => absurd h hnone⟩
    rw [readInlineQos, if_neg hflag]
    rfl

lemma takePayload_run (hne : bytes ≠ []) (hahead : rx.Ahead bytes) :
    (takePayload bytes.length).run rx =
      (.ok ⟨rx.pos, bytes.length⟩, { rx with pos := rx.pos + bytes.length }) := by
  have hin := hahead.inside
  have hlt := hahead.length_lt
  have hpos : wrap32 (rx.pos + bytes.length) = rx.pos + bytes.length :=
    Nat.mod_eq_of_lt (by omega)
  rw [takePayload, run_read_bind, hpos, if_pos ⟨hin, length_pos_iff.mpr hne⟩,
    run_modify_bind, run_pure]

def ReceivedChange.payloadBytes (buffer : Mem) (ch : ReceivedChange) : List UInt8 :=
  match ch.serializedPayload with
  | some region => region.bytes buffer
  | none => []

structure Agrees (change : DataChange) (topic : TopicKind) (expects : Bool)
    (payload : List UInt8) (buffer : Mem) (ch : ReceivedChange) : Prop where
  entityId : ch.writerGUID.entityId = change.writerGUID.entityId
  sequenceNumber : ch.sequenceNumber = change.sequenceNumber
  kind : ch.kind = change.kind
  keyHash : change.keyInline topic expects = true →
    ch.instanceHandle.value = change.instanceHandle.value
  payload : ∃ padding, padding.length ≤ 3 ∧ ch.payloadBytes buffer = payload ++ padding

def sentPayload (change : DataChange) : List UInt8 :=
  if change.kind = .alive then change.serializedPayload.bytes else []

/-- A change whose DATA has no data flag has no payload to compare. -/
theorem sentPayload_of_not_dataFlag (h : change.dataFlag = false) : sentPayload change = [] := by
  unfold sentPayload
  split
  · rename_i halive
    have hlen : change.serializedPayload.length = 0 := by
      simpa [DataChange.dataFlag, halive] using h
    rw [SerializedPayload.bytes, hlen]
    rfl
  · rfl

lemma sentPayload_of_dataFlag (h : change.dataFlag = true) :
    sentPayload change = dataImage change := by
  have halive : change.kind = .alive := by
    simp only [DataChange.dataFlag, Bool.and_eq_true, decide_eq_true_eq] at h
    exact h.1
  rw [sentPayload, if_pos halive, dataImage, if_pos h]

lemma dataImage_ne_nil (h : change.dataFlag = true) : dataImage change ≠ [] := by
  rw [dataImage, if_pos h]
  simp only [DataChange.dataFlag, Bool.and_eq_true, decide_eq_true_eq] at h
  apply ne_nil_of_length_pos
  rw [SerializedPayload.bytes, Mem.length_slice]
  exact h.2

lemma length_keyPayloadImage (e : Endianness) (change : DataChange) :
    (keyPayloadImage e change).length = 36 := by
  simp [keyPayloadImage, Parameter.length_image, Parameter.key, Parameter.status,
    length_sentinelImage]

lemma takeChange_run {r : Receiver} {smh : SubmessageHeader} {padding tail : List UInt8}
    (hkind : Expressible change topic) (hothers : ∀ p ∈ others.getD [], p.Foreign)
    (hpadding : padding.length ≤ 3) (hend : rx.msgEndian = e)
    (hflags : smh.flags = UInt8.ofNat (flagsImage e change topic expects others))
    (htail : dataImage change ++ keyImage e change topic expects others ++ padding = tail)
    (hlength : smh.submessageLength =
      20 + ((qosImage e change topic expects others).length + tail.length))
    (hahead : rx.Ahead (qosImage e change topic expects others ++ tail))
    (hbound : smh.submessageLength < 2 ^ 32) :
    ∃ ch rx', (takeChange r smh 16 change.writerGUID.entityId change.sequenceNumber).run rx =
        (.ok ch, rx') ∧
      Agrees change topic expects (sentPayload change) rx.buffer ch := by
  obtain ⟨-, hinline, hdata, hkey⟩ := dataFlags_bits (decide (e = .littleend))
    (hasInlineQos e change topic expects others) change.dataFlag
    (hasKeyPayload e change topic expects others)
  rw [← flagsImage, ← hflags] at hinline hdata hkey
  obtain ⟨qos, region, accesses, hqos, hqosKind, hhandle⟩ :=
    readInlineQos_run r.sourceVendorId hkind hothers hend hahead
  have hrest := hahead.right accesses
  generalize qosImage e change topic expects others = image at *
  have hoverhead : noPayloadSize 16 image.length = 20 + image.length := by
    unfold noPayloadSize
    omega
  rw [takeChange, hinline, hdata, hkey, jump, if_neg (by decide), run_pure_bind, bind_of_ok hqos]
  dsimp only
  rw [hoverhead]
  have hsize : smh.submessageLength - (20 + image.length) = tail.length := by omega
  have hkeyHash : change.keyInline topic expects = true →
      qos.instanceHandle.value = change.instanceHandle.value := by
    intro h
    rw [hhandle h]
  cases hdataFlag : change.dataFlag with
  | true =>
    have hne : tail ≠ [] := by simp [← htail, dataImage_ne_nil hdataFlag]
    rw [Bool.true_or, if_pos rfl, takeData, if_neg (by omega), hsize,
      bind_of_ok (takePayload_run hne hrest), if_pos rfl, run_pure]
    refine ⟨_, _, rfl, rfl, rfl, hqosKind, hkeyHash, padding, hpadding, ?_⟩
    have hnoKey : keyImage e change topic expects others = [] := by
      rw [keyImage, hasKeyPayload, DataChange.not_keyFlag_of_dataFlag hdataFlag]
      rfl
    rw [sentPayload_of_dataFlag hdataFlag]
    refine hrest.bytes_eq.trans ?_
    rw [← htail, hnoKey, List.append_nil]
  | false =>
    have hnone := sentPayload_of_not_dataFlag hdataFlag
    cases hkeyFlag : hasKeyPayload e change topic expects others with
    | true =>
      have hlong : 16 < tail.length := by
        rw [← htail, keyImage, if_pos hkeyFlag]
        simp only [length_append, length_keyPayloadImage]
        omega
      have hne : tail ≠ [] := ne_nil_of_length_pos (by omega)
      rw [Bool.or_true, if_pos rfl, takeData, if_neg (by omega), hsize,
        bind_of_ok (takePayload_run hne hrest), if_neg Bool.false_ne_true,
        if_neg (fun h => absurd h.1 (by dsimp only; omega)), run_pure]
      refine ⟨_, _, rfl, rfl, rfl, hqosKind, hkeyHash, [], by simp, ?_⟩
      rw [hnone]
      rfl
    | false =>
      refine ⟨_, _, rfl, rfl, rfl, hqosKind, hkeyHash, [], by simp, ?_⟩
      rw [hnone]
      rfl

lemma bodyImage_eq (e : Endianness) (change : DataChange) (topic : TopicKind)
    (readerId : EntityId) (expects : Bool) (others : Option (List Parameter)) (pos : Nat) :
    ∃ padding, padding.length ≤ 3 ∧
      bodyImage e change topic readerId expects others pos =
        fixedImage e change readerId ++ (qosImage e change topic expects others ++
          (dataImage change ++ keyImage e change topic expects others ++ padding)) := by
  refine ⟨replicate ((4 - (pos + 4 + (unpaddedBody e change topic readerId
    expects others).length) % 4) % 4) 0, ?_, ?_⟩
  · rw [length_replicate]
    omega
  · simp only [bodyImage, unpaddedBody, append_assoc]

lemma procSubmsgData_run {r : Receiver} (smh : SubmessageHeader) {pos : Nat}
    (hnumber : 1 ≤ change.sequenceNumber) (hsmall : change.sequenceNumber < 2 ^ 63)
    (hkind : Expressible change topic) (hothers : ∀ p ∈ others.getD [], p.Foreign)
    (haccepts : r.willAReaderAcceptMsgDirectedTo readerId = true)
    (hmin : 24 ≤ (bodyImage e change topic readerId expects others pos).length)
    (hflags : smh.flags = UInt8.ofNat (flagsImage e change topic expects others))
    (hlength : smh.submessageLength =
      (bodyImage e change topic readerId expects others pos).length)
    (hend : rx.msgEndian = e)
    (hahead : rx.Ahead (bodyImage e change topic readerId expects others pos)) :
    ∃ ch rx', (procSubmsgData r smh).run rx = (.ok (readerId, ch), rx') ∧
      Agrees change topic expects (sentPayload change) rx.buffer ch := by
  have hin := hahead.inside
  have hlt := hahead.length_lt
  obtain ⟨padding, hpadding, hbody⟩ := bodyImage_eq e change topic readerId expects others pos
  have hnotBoth : ¬ (smh.flags &&& 8 ≠ 0 ∧ smh.flags &&& 4 ≠ 0) := by
    rintro ⟨hkey, hdata⟩
    obtain ⟨-, -, hdataFlag, hkeyFlag⟩ := dataFlags_bits (decide (e = .littleend))
      (hasInlineQos e change topic expects others) change.dataFlag
      (hasKeyPayload e change topic expects others)
    rw [← flagsImage, ← hflags] at hdataFlag hkeyFlag
    rw [decide_eq_true hdata] at hdataFlag
    rw [decide_eq_true hkey, hasKeyPayload,
      DataChange.not_keyFlag_of_dataFlag hdataFlag.symm] at hkeyFlag
    exact Bool.noConfusion hkeyFlag
  have hsame : (if smh.flags &&& 1 ≠ 0 then Endianness.littleend else .bigend) = rx.msgEndian := by
    rw [hend, hflags]
    exact flagsEndian_flagsImage change topic expects others
  generalize htail : dataImage change ++ keyImage e change topic expects others ++ padding = tail
    at hbody
  have hlength' := hlength
  rw [hbody] at hahead hlength'
  simp only [fixedImage, append_assoc] at hahead
  rw [procSubmsgData, if_neg (by omega), if_neg hnotBoth, run_modify_bind, hsame]
  have hskip := reads_advance (e := e) (wordImage e 2 0)
  rw [length_wordImage] at hskip
  obtain ⟨as1, hrun1, hahead1⟩ := hskip.step hahead hend
  have hoctets := (reads_readInt16 (e := e) (x := 16) (by decide)).attempt
  obtain ⟨as2, hrun2, hahead2⟩ := hoctets.step hahead1 hend
  obtain ⟨as3, hrun3, hahead3⟩ := (reads_readEntityId readerId).attempt.step hahead2 hend
  obtain ⟨as4, hrun4, hahead4⟩ :=
    (reads_readEntityId change.writerGUID.entityId).attempt.step hahead3 hend
  obtain ⟨as5, hrun5, hahead5⟩ :=
    (reads_readSequenceNumber (by omega) hsmall).attempt.step hahead4 hend
  have hreader : ofBytes 4 ((some readerId.toList).getD []) = readerId := ofBytes_toList readerId
  rw [hrun1, hrun2, hrun3, hreader, if_pos haccepts, hrun4, hrun5]
  dsimp only
  rw [if_neg (by omega), ofBytes_toList]
  rw [length_append, length_fixedImage, length_append] at hlength'
  obtain ⟨ch, rx', htake, hagrees⟩ := takeChange_run (r := r) hkind hothers hpadding
    (by exact hend) hflags htail hlength' hahead5 (by omega)
  refine ⟨ch, rx', ?_, hagrees⟩
  exact bind_of_ok htake

end Decoding

def parseData (r : Receiver) : Reader (EntityId × ReceivedChange) := do
  let smh ← readSubmessageHeader
  procSubmsgData r smh

/-- The change is encoded, and parsing its bytes wherever they stand hands it up with `payload`. A
submessage above 64 KB has to be the last one. -/
def RoundTripsData (r : Receiver) (change : DataChange) (topic : TopicKind)
    (readerId : EntityId) (expects : Bool) (inlineQos : Option (List UInt8))
    (payload : List UInt8) (msg : CdrMessage) : Prop :=
  ∃ bytes isBig, (addSubmessageData change topic readerId expects inlineQos).run msg =
      (.ok (true, isBig), msg.append bytes) ∧
    ∀ rx : CdrMessage, rx.Ahead bytes → (isBig = true → rx.length = rx.pos + bytes.length) →
      ∃ ch rx', (parseData r).run rx = (.ok (readerId, ch), rx') ∧
        Agrees change topic expects payload rx.buffer ch

/-- Changes the encoder can express and whose body is long enough for the receiver survive the
way over the wire. -/
theorem data_roundTrip {r : Receiver} {change : DataChange} {topic : TopicKind}
    {readerId : EntityId} {expects : Bool} (others : Option (List Parameter)) {msg : CdrMessage}
    (hnumber : 1 ≤ change.sequenceNumber) (hsmall : change.sequenceNumber < 2 ^ 63)
    (hkind : Expressible change topic) (hothers : ∀ p ∈ others.getD [], p.Foreign)
    (haccepts : r.willAReaderAcceptMsgDirectedTo readerId = true)
    (hmin : 24 ≤ (bodyImage msg.defaultEndian change topic readerId expects others
      msg.pos).length)
    (hroom : msg.Room (4 + (bodyImage msg.defaultEndian change topic readerId expects
      others msg.pos).length + 1)) :
    RoundTripsData r change topic readerId expects
      (ownInlineQos msg.defaultEndian others) (sentPayload change) msg := by
  refine ⟨_, _, addSubmessageData_run change topic readerId expects others rfl hroom, ?_⟩
  intro rx hahead hlast
  rw [length_submessageImage, decide_eq_true_eq] at hlast
  obtain ⟨accesses, hheader, hbody⟩ := readSubmessageHeader_run
    (flagsEndian_flagsImage change topic expects others) (by split <;> omega)
    (by split <;> split at * <;> omega) hahead
  obtain ⟨ch, rx', hproc, hagrees⟩ := procSubmsgData_run (r := r) readerId
    ⟨0x15, UInt8.ofNat _, _, _⟩ hnumber hsmall hkind hothers haccepts hmin rfl rfl rfl hbody
  refine ⟨ch, rx', ?_, hagrees⟩
  rw [parseData, bind_of_ok hheader, hproc]

def sampleChange (kind : ChangeKind) (n : Nat) (related : SampleIdentity) : DataChange where
  kind := kind
  writerGUID := ⟨Vector.replicate 12 7, .sample 2⟩
  sequenceNumber := 1
  serializedPayload := ⟨n, fun _ => 9, n⟩
  sourceTimestamp := ⟨0, 0⟩
  fragmentSize := 0
  fragmentCount := 0
  firstMissingFragment := 0
  instanceHandle := ⟨Vector.replicate 16 3, true⟩
  relatedSampleIdentity := related

def sampleReceiver : Receiver := ⟨Vector.replicate 12 7, (1, 15), [#v[0, 0, 1, 7]], none⟩

theorem data_roundTrip_five : Expressible (sampleChange .alive 5 .unknown) .noKey ∧
      RoundTripsData sampleReceiver (sampleChange .alive 5 .unknown) .noKey #v[0, 0, 1, 7] false
        none [9, 9, 9, 9, 9] (emptyMessage 64) := by
  refine ⟨.inl rfl, ?_⟩
  apply data_roundTrip none
  · decide
  · decide
  · exact .inl rfl
  · simp
  · decide
  · decide
  · exact ⟨by decide, by decide, by decide⟩

def writtenMessage (change : DataChange) (topic : TopicKind) : CdrMessage :=
  ((addSubmessageData change topic #v[0, 0, 1, 7] false none).run (emptyMessage 128)).2

def receivedChange (change : DataChange) (topic : TopicKind) : Option ReceivedChange :=
  ((parseData sampleReceiver).run ((writtenMessage change topic).rewound 0)).1.toOption.map (·.2)

lemma RoundTripsData.received {change : DataChange} {topic : TopicKind} {payload : List UInt8}
    (h : RoundTripsData sampleReceiver change topic #v[0, 0, 1, 7] false none payload
      (emptyMessage 128)) (hlt : (writtenMessage change topic).length < 2 ^ 32) :
    ∃ ch buffer, receivedChange change topic = some ch ∧
      Agrees change topic false payload buffer ch := by
  obtain ⟨bytes, isBig, hrun, hparse⟩ := h
  rw [writtenMessage, hrun] at hlt
  have hahead : (((emptyMessage 128).append bytes).rewound 0).Ahead bytes :=
    ⟨Mem.slice_write_self _ 0 bytes, by simp [append, rewound, emptyMessage], hlt⟩
  obtain ⟨ch, rx', hrx, hagrees⟩ := hparse _ hahead (by simp [append, rewound, emptyMessage])
  refine ⟨ch, _, ?_, hagrees⟩
  rw [receivedChange, writtenMessage, hrun, hrx]
  rfl

/-- A disposal on a topic without keys, a disposal with a payload, and an empty change that
needs no inline QoS. -/
theorem data_not_roundTrip :
    (¬ RoundTripsData sampleReceiver (sampleChange .notAliveDisposed 0 ⟨Guid.unknown, 1⟩) .noKey
        #v[0, 0, 1, 7] false none [] (emptyMessage 128)) ∧
      (¬ RoundTripsData sampleReceiver (sampleChange .notAliveDisposed 5 .unknown) .withKey
        #v[0, 0, 1, 7] false none [9, 9, 9, 9, 9] (emptyMessage 128)) ∧
      ¬ RoundTripsData sampleReceiver (sampleChange .alive 0 .unknown) .noKey
        #v[0, 0, 1, 7] false none [] (emptyMessage 128) := by
  refine ⟨fun h => ?_, fun h => ?_, fun h => ?_⟩
  · obtain ⟨ch, buffer, hch, hagrees⟩ := h.received (by decide)
    have hkind : (receivedChange (sampleChange .notAliveDisposed 0 ⟨Guid.unknown, 1⟩)
        .noKey).map (·.kind) = some .alive := by decide
    rw [hch, map_some, some.injEq, hagrees.kind] at hkind
    exact ChangeKind.noConfusion hkind
  · obtain ⟨ch, buffer, hch, hagrees⟩ := h.received (by decide)
    have hnone : (receivedChange (sampleChange .notAliveDisposed 5 .unknown) .withKey).map
        (·.serializedPayload) = some none := by decide
    rw [hch, map_some, some.injEq] at hnone
    obtain ⟨padding, -, hpayload⟩ := hagrees.payload
    simp [ReceivedChange.payloadBytes, hnone] at hpayload
  · obtain ⟨ch, buffer, hch, -⟩ := h.received (by decide)
    have hnone : (receivedChange (sampleChange .alive 0 .unknown) .noKey).isNone = true := by decide
    rw [hch] at hnone
    exact Bool.noConfusion hnone

end EasyDds.Rtps.CdrMessage
