import EasyDds.Rtps.Group.Bandwidth

/-!
Whether a sample can be sent at all: the fragments that `set_fragments` makes against the limits of
the flow controller and the size of a message.
-/

namespace EasyDds.Rtps

open DataChange Option

open Prog

open CdrMessage MessageGroup

namespace CdrMessage

variable {msg' : CdrMessage}

variable {msg : CdrMessage}

/-- Bytes that were added are all in the message. -/
theorem length_of_addData {bytes : List UInt8}
    (h : (addData bytes).run msg = (.ok true, msg')) (hpos : msg.pos + bytes.length < 2 ^ 32)
    (hlength : msg.length + bytes.length < 2 ^ 32) :
    msg'.pos = msg.pos + bytes.length ∧ msg'.length = msg.length + bytes.length := by
  rw [addData, run_read_bind] at h
  split at h
  · simp only [copyToBuffer, run_modify_bind, run_pure, Prod.mk.injEq, true_and] at h
    subst h
    exact ⟨Nat.mod_eq_of_lt hpos, Nat.mod_eq_of_lt hlength⟩
  · simp at h

lemma length_of_addPadding {n : Nat}
    (h : (addPadding n).run msg = (.ok true, msg')) (hpos : msg.pos + n < 2 ^ 32)
    (hlength : msg.length + n < 2 ^ 32) : msg'.length = msg.length + n := by
  induction n generalizing msg with
  | zero =>
    simp only [addPadding, run_pure, Prod.mk.injEq, true_and] at h
    rw [h, Nat.add_zero]
  | succ n ih =>
    obtain ⟨ok, msg1, hoctet, hrest⟩ := bind_eq_ok.1 h
    obtain ⟨rest, msg2, hpadding, hpure⟩ := bind_eq_ok.1 hrest
    simp only [run_pure, ok_inj, Bool.and_eq_true] at hpure
    obtain ⟨⟨rfl, rfl⟩, rfl⟩ := hpure
    have hbyte : (wordImage msg.msgEndian 1 0).length = 1 := length_wordImage _ _ _
    have hadd : (addData (wordImage msg.msgEndian 1 0)).run msg = (.ok true, msg1) := hoctet
    obtain ⟨hpos1, hlength1⟩ := length_of_addData hadd (by omega) (by omega)
    rw [ih hpadding (by omega) (by omega)]
    omega

lemma length_of_patchLength {sizePos countPos : Nat} {isBig : Bool}
    (h : (patchLength sizePos countPos).run msg = (.ok isBig, msg')) :
    msg'.length = msg.length := by
  obtain ⟨isBig', msg'', hrun, hext⟩ := patchLength_extends msg sizePos countPos
  rw [h, Prod.mk.injEq] at hrun
  rw [hrun.2, hext.length, Nat.add_zero]

section Data

variable {msg : CdrMessage} (hnative : msg.Native) (change : DataChange) (topic : TopicKind)
  (readerId : EntityId) (expects : Bool) (inlineQos : Option (List UInt8))

lemma dataLength_of_dataFlag (hflag : change.dataFlag = true) :
    dataLength change topic expects inlineQos =
      24 + qosLength change topic expects inlineQos + change.serializedPayload.length := by
  simp [dataLength, not_keyFlag_of_dataFlag hflag, hflag]

variable {n : Nat} (hn : dataLength change topic expects inlineQos = n)
  (hflag : change.dataFlag = true)
  (hroom : msg.Room (24 + qosLength change topic expects inlineQos + 1))
  (hpos : msg.pos + n + 4 < 2 ^ 32) (hlength : msg.length + n + 4 < 2 ^ 32)
include hnative hn hflag hroom hpos hlength

variable {isBig : Bool} {msg' : CdrMessage}

/-- A DATA that was created is as long as it should be, with its payload in it. -/
theorem length_of_addSubmessageData
    (h : (addSubmessageData change topic readerId expects inlineQos).run msg =
      (.ok (true, isBig), msg')) :
    msg'.length = msg.length + n + paddingOf (msg.pos + n) := by
  obtain ⟨msg1, msg2, hheader, hqos, hext⟩ := serializeDataStart hnative change topic readerId
    expects inlineQos hroom
  have hkey : change.keyFlag topic expects inlineQos = false := not_keyFlag_of_dataFlag hflag
  rw [dataLength_of_dataFlag change topic expects inlineQos hflag] at hn
  simp only [addSubmessageData, run_read_bind, run_modify_bind, hnative.withDefault] at h
  rw [bind_of_ok hheader, bind_of_ok hqos, hflag, hkey] at h
  obtain ⟨data, msg3, hdata, hrest⟩ := bind_eq_ok.1 h
  simp only [addIf, Bool.false_eq_true, if_false, run_pure_bind, run_read_bind] at hrest
  rw [← paddingOf] at hrest
  obtain ⟨padding, msg4, hpadding, hrest⟩ := bind_eq_ok.1 hrest
  obtain ⟨isBig', msg5, hpatch, hrest⟩ := bind_eq_ok.1 hrest
  simp only [run_modify_bind, run_pure, Prod.mk.injEq, Except.ok.injEq, Bool.true_and,
    Bool.and_true, Bool.and_eq_true] at hrest
  obtain ⟨⟨⟨rfl, rfl⟩, -⟩, rfl⟩ := hrest
  have hext' := hext.pos
  have hlength2 := hext.length
  have hbytes := change.serializedPayload.length_bytes
  obtain ⟨hpos3, hlength3⟩ := length_of_addData hdata (by omega) (by omega)
  have hle : paddingOf msg3.pos ≤ 3 := by
    rw [paddingOf]
    omega
  have hlength4 := length_of_addPadding hpadding (by omega) (by omega)
  have hlength5 := length_of_patchLength hpatch
  rw [show msg.pos + n = msg3.pos by omega]
  dsimp only
  omega

omit hlength in
/-- A DATA that was created is as long as it should be, with its payload pending. -/
theorem length_of_gatherSubmessageData {pending : Pending}
    (h : (gatherSubmessageData change topic readerId expects inlineQos).run msg =
      (.ok (true, isBig, pending), msg')) :
    msg'.length + pendingBytes pending = msg.length + n + paddingOf (msg.pos + n) ∧
      0 < msg'.length := by
  obtain ⟨msg1, msg2, hheader, hqos, hext⟩ := serializeDataStart hnative change topic readerId
    expects inlineQos hroom
  have hkey : change.keyFlag topic expects inlineQos = false := not_keyFlag_of_dataFlag hflag
  rw [dataLength_of_dataFlag change topic expects inlineQos hflag] at hn
  simp only [gatherSubmessageData, run_read_bind, useDefaultEndian, run_modify_bind,
    hnative.withDefault] at h
  rw [bind_of_ok hheader, bind_of_ok hqos, hkey] at h
  obtain ⟨r, msg3, hdata, hrest⟩ := bind_eq_ok.1 h
  simp only [gatherPayload, hflag, if_true, addPayload, Bool.false_eq_true, if_false,
    run_read_bind, SerializedPayload.length_bytes] at hdata
  split at hdata
  · obtain ⟨rfl, -⟩ := ok_inj.1 hdata
    simp at hrest
  · have hpos2 := hext.pos
    have hlength2 := hext.length
    have hwrap : wrap32 (msg2.pos + change.serializedPayload.length) = msg.pos + n := by
      rw [wrap32, Nat.mod_eq_of_lt (by omega)]
      omega
    simp only [advance, run_modify_bind, run_pure, ok_inj, hwrap] at hdata
    obtain ⟨rfl, rfl⟩ := hdata
    simp only [addIf, Bool.false_eq_true, if_false, run_pure_bind, run_read_bind, advance,
      run_modify_bind] at hrest
    rw [← paddingOf] at hrest
    obtain ⟨isBig', msg4, hpatch, hrest⟩ := bind_eq_ok.1 hrest
    obtain ⟨⟨-, -, rfl⟩, rfl⟩ := hrest
    have hlength4 := length_of_patchLength hpatch
    dsimp only at hlength4
    refine ⟨?_, ?_⟩
    · simp only [pendingBytes, isSome_some, if_true, Pending.size, getD_some]
      omega
    · dsimp only
      omega

/-- A DATA that was created is as long as it should be. -/
theorem length_of_addSubmessageDataFor {copyData : Bool} {pending : Pending}
    (h : (addSubmessageDataFor copyData change topic readerId expects inlineQos).run msg =
      (.ok (true, isBig, pending), msg')) :
    msg'.length + pendingBytes pending = msg.length + n + paddingOf (msg.pos + n) ∧
      0 < msg'.length := by
  cases copyData with
  | true =>
    obtain ⟨⟨ok, isBig'⟩, msg1, hdata, hpure⟩ := bind_eq_ok.1 h
    obtain ⟨⟨rfl, rfl, rfl⟩, rfl⟩ := hpure
    have hsize := length_of_addSubmessageData hnative change topic readerId expects
      inlineQos hn hflag hroom hpos hlength hdata
    rw [hsize]
    refine ⟨rfl, ?_⟩
    rw [← hn, dataLength]
    omega
  | false =>
    exact length_of_gatherSubmessageData hnative change topic readerId expects
      inlineQos hn hflag hroom hpos h

end Data

end CdrMessage

namespace MessageGroup

/-- The call adds a message of at most so many bytes to a group that has sent nothing. -/
def Passes (maxMessage : Nat) (s : MessageGroup) (call : GroupProg Bool) : Prop :=
  ∃ s', call.run s = (.ok true, s') ∧ s'.currentSentBytes + s'.buffersBytes ≤ maxMessage

def prepared (submessage : CdrMessage) (dst : GuidPrefix) : CdrMessage :=
  if guidPrefixUnknown ≠ dst then ((addSubmessageInfoDST dst).run submessage.initCdrMsg).2
  else submessage.initCdrMsg

structure IsEmpty (s : MessageGroup) : Prop where
  pos : s.headerMsg.pos = 20
  length : s.headerMsg.length = 20
  sent : s.currentSentBytes = 0
  buffers : s.buffersBytes = 0
  statistics : s.statistics = false

variable {s : MessageGroup} {accepts : Nat → Bool}

lemma flush_empty (h : s.IsEmpty) : (flush accepts).run s = (.ok (), s.resetToHeader) := by
  have hsend : (send accepts).run s = (.ok (), s) := by simp [send, h.length]
  rw [flush, bind_of_ok hsend, run_modify]

lemma IsEmpty.reset (h : s.IsEmpty) : s.resetToHeader.IsEmpty :=
  ⟨rfl, rfl, h.sent, rfl, h.statistics⟩

lemma checkAndMaybeFlush_create (accepts : Nat → Bool) (header submessage : CdrMessage)
    (limitation : Nat) (sender : Sender) (dst : GuidPrefix) :
    ∃ s', (checkAndMaybeFlush accepts sender dst).run (create false header submessage limitation) =
        (.ok (), s') ∧ s'.IsEmpty ∧ s'.currentDst = dst ∧ s'.headerMsg.maxSize = header.maxSize ∧
      s'.pending = .none ∧ s'.submessageMsg = prepared submessage dst := by
  have hdst : ∀ s : MessageGroup, s.IsEmpty → s.currentDst = guidPrefixUnknown →
      s.headerMsg.maxSize = header.maxSize → s.pending = .none →
      s.submessageMsg = submessage.initCdrMsg → ∃ s', (addInfoDstInSubmessage dst).run s =
          (.ok (), s') ∧ s'.IsEmpty ∧ s'.currentDst = dst ∧ s'.headerMsg.maxSize = header.maxSize ∧
        s'.pending = .none ∧ s'.submessageMsg = prepared submessage dst := by
    intro s hempty hcurrent hsize hpending hmsg
    rw [prepared, addInfoDstInSubmessage, run_modify, hcurrent, ← hmsg]
    by_cases hsame : guidPrefixUnknown = dst
    · rw [if_neg (not_not.2 hsame), if_neg (not_not.2 hsame)]
      exact ⟨s, rfl, hempty, hcurrent.trans hsame, hsize, hpending, rfl⟩
    · rw [if_pos hsame, if_pos hsame]
      exact ⟨_, rfl, { hempty with }, rfl, hsize, hpending, rfl⟩
  have hempty : (create false header submessage limitation).initSubmessage.IsEmpty :=
    ⟨rfl, rfl, rfl, rfl, rfl⟩
  rw [checkAndMaybeFlush, run_modify_bind]
  cases sender.destinationsHaveChanged with
  | true =>
    exact hdst _ ⟨rfl, rfl, rfl, rfl, rfl⟩ rfl rfl rfl rfl
  | false => exact hdst _ hempty rfl rfl rfl rfl

lemma makeRoom_empty (accepts : Nat → Bool) {dst : GuidPrefix} (h : s.IsEmpty)
    (hdst : s.currentDst = dst) :
    ∃ s', (makeRoom accepts dst).run s = (.ok (), s') ∧ s'.IsEmpty ∧
      s'.submessageMsg = s.submessageMsg ∧ s'.pending = s.pending ∧
      s'.headerMsg.maxSize = s.headerMsg.maxSize := by
  rw [makeRoom, run_read_bind]
  split
  · exact ⟨s, rfl, h, rfl, rfl, rfl⟩
  · refine ⟨s.resetToHeader, ?_, h.reset, rfl, rfl, rfl⟩
    have hsame : s.resetToHeader.currentDst = dst := hdst
    rw [bind_of_ok (flush_empty h), addInfoDstInHeader, run_modify, if_neg (not_not.2 hsame)]

/-- The first submessage of a message is appended if it fits behind the header; a pending payload
does not matter. -/
theorem appendSubmessage_empty (h : s.IsEmpty)
    (hsmall : 20 + s.submessageMsg.length + pendingBytes s.pending < 2 ^ 32) :
    ∃ ok s', appendSubmessage.run s = (.ok ok, s') ∧
      (ok = true ↔ 20 + s.submessageMsg.length ≤ s.headerMsg.maxSize) ∧
      (ok = true → s'.headerMsg.length = 20 + s.submessageMsg.length ∧ s'.currentSentBytes = 0 ∧
        s'.buffersBytes = 20 + s.submessageMsg.length + pendingBytes s.pending ∧
        s'.statistics = false) := by
  have hreserved : s.reserved = s.headerMsg := by simp [reserved, h.statistics]
  have hlength : (s.submessageMsg.buffer.slice 0 s.submessageMsg.length).length =
      s.submessageMsg.length := by simp
  have hwrap : wrap32 (20 + s.submessageMsg.length) = 20 + s.submessageMsg.length :=
    Nat.mod_eq_of_lt (by omega)
  have hspace : s.headerMsg.hasSpace s.submessageMsg.length = true ↔
      20 + s.submessageMsg.length ≤ s.headerMsg.maxSize := by
    rw [hasSpace, decide_eq_true_iff, h.pos, hwrap]
  simp only [appendSubmessage, CdrMessage.addData, run_read_bind, hlength, hreserved, ← hspace]
  cases s.headerMsg.hasSpace s.submessageMsg.length with
  | false => exact ⟨false, s, rfl, Iff.rfl, by simp⟩
  | true =>
    refine ⟨true, _, rfl, Iff.rfl, fun _ => ⟨?_, h.sent, ?_, h.statistics⟩⟩
    · simp only [hlength, h.length, hwrap]
    · have hbytes : wrap32 (0 + s.submessageMsg.length + 20 + pendingBytes s.pending) =
          20 + s.submessageMsg.length + pendingBytes s.pending := by
        rw [wrap32, Nat.mod_eq_of_lt (by omega)]
        omega
      simp only [h.pos, h.length, h.buffers, and_self, if_true]
      exact hbytes

lemma insertSubmessage_empty {dst : GuidPrefix} (isBig : Bool) (h : s.IsEmpty)
    (hdst : s.currentDst = dst) (hpos : 0 < s.submessageMsg.length)
    (hsmall : 20 + s.submessageMsg.length + pendingBytes s.pending < 2 ^ 32) :
    ∃ ok s', (insertSubmessage (fun _ => true) dst isBig).run s = (.ok ok, s') ∧
      (ok = true ↔ 20 + s.submessageMsg.length ≤ s.headerMsg.maxSize) ∧
      (ok = true → s'.currentSentBytes + s'.buffersBytes =
        20 + s.submessageMsg.length + pendingBytes s.pending) := by
  obtain ⟨s1, hrun1, h1, hmsg, hpending, hsize⟩ := makeRoom_empty (fun _ => true) h hdst
  obtain ⟨ok, s2, hrun2, hok, hbytes⟩ := appendSubmessage_empty h1 (by rwa [hmsg, hpending])
  rw [hmsg, hpending] at hbytes
  rw [hmsg, hsize] at hok
  rw [insertSubmessage, bind_of_ok hrun1, bind_of_ok hrun2]
  cases hflush : ok && isBig with
  | false =>
    refine ⟨ok, s2, rfl, hok, fun htrue => ?_⟩
    obtain ⟨-, hsent, hbuffers, -⟩ := hbytes htrue
    rw [hsent, hbuffers, Nat.zero_add]
  | true =>
    have htrue : ok = true := (Bool.and_eq_true _ _ ▸ hflush).1
    obtain ⟨hlength, hsent, hbuffers, hstatistics⟩ := hbytes htrue
    have hsend : (send fun _ => true).run s2 = (.ok (), { s2 with
        sent := s2.sent ++ [⟨s2.headerPieces, s2.buffersBytes⟩]
        currentSentBytes := wrap32 (s2.currentSentBytes + s2.buffersBytes) }) := by
      have hmessage : 20 < s2.headerMsg.length := by omega
      simp [send, hmessage, addStatsSubmsg, hstatistics]
    refine ⟨ok, resetToHeader { s2 with
        sent := s2.sent ++ [⟨s2.headerPieces, s2.buffersBytes⟩]
        currentSentBytes := wrap32 (s2.currentSentBytes + s2.buffersBytes) }, ?_, hok, fun _ => ?_⟩
    · simp only [if_true, flush, run_bind_bind]
      rw [bind_of_ok hsend]
      rfl
    · simp only [resetToHeader, hsent, hbuffers, Nat.zero_add, Nat.add_zero]
      exact Nat.mod_eq_of_lt hsmall

section Create

variable {header submessage : CdrMessage} {limitation maxMessage : Nat} {sender : Sender}
  {dst : GuidPrefix} {build : Reader Built}

/-- A creator that fails adds nothing. -/
theorem build_of_passes (h : Passes maxMessage (create false header submessage limitation)
      (addSubmessage (fun _ => true) sender dst build)) :
    ∃ built msg, build.run (prepared submessage dst) = (.ok built, msg) ∧ built.ok = true := by
  obtain ⟨s1, hrun1, -, -, -, -, hmsg⟩ := checkAndMaybeFlush_create (fun _ => true) header
    submessage limitation sender dst
  obtain ⟨s', hrun, -⟩ := h
  rw [addSubmessage, bind_of_ok hrun1, ← hmsg] at *
  obtain ⟨built, s2, hcreate, hrest⟩ := bind_eq_ok.1 hrun
  have hok : built.ok = true := by
    by_contra hfalse
    rw [if_neg hfalse] at hrest
    simp at hrest
  simp only [createSubmessage] at hcreate
  rcases hbuild : build.run s1.submessageMsg with ⟨e | built', msg⟩ <;> rw [hbuild] at hcreate <;>
    simp only [ok_inj] at hcreate
  · rw [← hcreate.1] at hok
    exact absurd hok (by decide)
  · exact ⟨built', msg, rfl, by rw [hcreate.1]; exact hok⟩

/-- What a call adds to an empty group is the submessage that its creator makes. -/
theorem passes_addSubmessage {built : Built}
    (hbuild : build.run (prepared submessage dst) = (.ok built, msg)) (hok : built.ok = true)
    (hpos : 0 < msg.length)
    (hsmall : 20 + msg.length + pendingBytes (built.pending.getD .none) < 2 ^ 32) :
    Passes maxMessage (create false header submessage limitation)
        (addSubmessage (fun _ => true) sender dst build) ↔
      20 + msg.length ≤ header.maxSize ∧
        20 + msg.length + pendingBytes (built.pending.getD .none) ≤ maxMessage := by
  obtain ⟨s1, hrun1, hempty, hdst, hsize, hpending, hmsg⟩ := checkAndMaybeFlush_create
    (fun _ => true) header submessage limitation sender dst
  rw [← hmsg] at hbuild
  rw [← hpending] at hsmall ⊢
  have hcreate : (createSubmessage dst build).run s1 = (.ok built, { s1 with
      submessageMsg := msg
      submessagePieces := s1.submessagePieces ++ [.submessage dst]
      pending := built.pending.getD s1.pending }) := by
    simp only [createSubmessage, hbuild]
  obtain ⟨ok, s', hinsert, hiff, hbytes⟩ := insertSubmessage_empty built.isBig (s := { s1 with
      submessageMsg := msg
      submessagePieces := s1.submessagePieces ++ [.submessage dst]
      pending := built.pending.getD s1.pending })
    { hempty with } hdst hpos hsmall
  have hrun : (addSubmessage (fun _ => true) sender dst build).run
      (create false header submessage limitation) = (.ok ok, s') := by
    rw [addSubmessage, bind_of_ok hrun1, bind_of_ok hcreate, if_pos hok]
    exact hinsert
  rw [Passes, hrun, ← hsize]
  constructor
  · rintro ⟨s'', hsame, hle⟩
    obtain ⟨rfl, rfl⟩ := hsame
    exact ⟨hiff.1 rfl, (hbytes rfl).symm.trans_le hle⟩
  · rintro ⟨hfits, hle⟩
    have htrue := hiff.2 hfits
    exact ⟨s', by rw [htrue], (hbytes htrue).trans_le hle⟩

def infoDstSize (dst : GuidPrefix) : Nat := if guidPrefixUnknown ≠ dst then 16 else 0

lemma prepared_spec (dst : GuidPrefix) (hmin : 2000 ≤ submessage.maxSize)
    (hmax : submessage.maxSize < 2 ^ 32) : (prepared submessage dst).Native ∧
      Extended submessage.initCdrMsg (prepared submessage dst) (infoDstSize dst) := by
  have hnative : submessage.initCdrMsg.Native := rfl
  rw [prepared, infoDstSize]
  split
  · obtain ⟨msg, hrun, hext⟩ := (puts_addSubmessageInfoDST dst).adds submessage.initCdrMsg hnative
      ⟨by change 0 + (16 + 1) ≤ submessage.maxSize; omega, hmax, by change 0 + (16 + 1) < _; omega⟩
    rw [hrun]
    exact ⟨hext.native hnative, hext⟩
  · exact ⟨hnative, .refl _⟩

/-- Nothing was sent yet, so the limitation is compared with the payload alone. -/
theorem passes_checkLimitation {size : Nat} {call : GroupProg Bool} :
    Passes maxMessage (create false header submessage limitation)
        (do checkLimitation (fun _ => true) size; call) ↔
      (limitation = 0 ∨ size ≤ limitation) ∧
        Passes maxMessage (create false header submessage limitation) call := by
  have hexceeds : dataExceedsLimitation size limitation 0 0 = true ↔
      ¬(limitation = 0 ∨ size ≤ limitation) := by
    simp [dataExceedsLimitation, wrap32, sub32]
    omega
  have hcheck : (checkLimitation (fun _ => true) size).run
    (create false header submessage limitation) =
      (if dataExceedsLimitation size limitation 0 0 then do
        flushAndReset fun _ => true
        raise .limitExceeded
      else pure () : GroupProg Unit).run (create false header submessage limitation) := rfl
  by_cases hpass : limitation = 0 ∨ size ≤ limitation
  · rw [if_neg (by rw [hexceeds]; exact not_not.2 hpass)] at hcheck
    rw [Passes, bind_of_ok hcheck]
    simp only [hpass, true_and, Passes]
  · rw [if_pos (hexceeds.2 hpass)] at hcheck
    have hempty : (create false header submessage limitation).IsEmpty := ⟨rfl, rfl, rfl, rfl, rfl⟩
    have hraise : ∃ s', (checkLimitation (fun _ => true) size).run
        (create false header submessage limitation) = (.error .limitExceeded, s') := by
      rw [hcheck, flushAndReset, run_bind_bind, bind_of_ok (flush_empty hempty)]
      exact ⟨_, rfl⟩
    obtain ⟨s', hraise⟩ := hraise
    rw [Passes, bind_of_error hraise]
    simp [hpass]

section Data

variable (change : DataChange) (own : List UInt8) (copyData expects : Bool)

def messageSize (sender : Sender) (change : DataChange) (own : List UInt8) (expects : Bool) : Nat :=
  let before := infoDstSize sender.destinationGuidPrefix + 12
  let data := dataLength { change with writerGUID := sender.guid } sender.topicKind
    expects (inlineQosWriter own)
  20 + (before + data + paddingOf (before + data))

lemma qosLength_bound (hown : own.length ≤ 1000) (topic : TopicKind) :
    qosLength change topic expects (inlineQosWriter own) ≤ 1112 := by
  have hqos := qosLength_le change topic expects own
  have hsize := inlineQosSize_le change topic own.length
  split at hqos <;> omega

lemma infoDstSize_le (dst : GuidPrefix) : infoDstSize dst ≤ 16 := by
  rw [infoDstSize]
  split <;> omega

lemma addSubmessageInfoTS_prepared (time : Time) (dst : GuidPrefix)
    (hmin : 2000 ≤ submessage.maxSize) (hmax : submessage.maxSize < 2 ^ 32) :
    ∃ start : CdrMessage, start.Native ∧ start.pos = infoDstSize dst + 12 ∧
      start.length = start.pos ∧ start.maxSize = submessage.maxSize ∧
      (addSubmessageInfoTS time).run (prepared submessage dst) = (.ok true, start) := by
  obtain ⟨hnative, hprepared⟩ := prepared_spec dst hmin hmax
  have hsmall := infoDstSize_le dst
  have hpos : (prepared submessage dst).pos = 0 + _ := hprepared.pos
  have hlength : (prepared submessage dst).length = 0 + _ := hprepared.length
  have hsize : (prepared submessage dst).maxSize = submessage.maxSize := hprepared.maxSize
  obtain ⟨start, hrun, hext⟩ := (puts_addSubmessageInfoTS time).adds _ hnative
    ⟨by omega, by omega, by omega⟩
  refine ⟨start, hext.native hnative, ?_, ?_, hext.maxSize.trans hsize, hrun⟩
  · rw [hext.pos, hpos, Nat.zero_add]
  · rw [hext.length, hext.pos, hpos, hlength]

lemma buildData_run (sender : Sender) {msg start : CdrMessage}
    (htime : (addSubmessageInfoTS change.sourceTimestamp).run msg = (.ok true, start)) :
    (buildData sender change own copyData expects).run msg = (do
      let (ok, isBig, pending) ← addSubmessageDataFor copyData
        { change with writerGUID := sender.guid } sender.topicKind
        (getEntityId sender.remoteGuids) expects (inlineQosWriter own)
      pure ⟨ok, isBig, some pending⟩ : Reader Built).run start := by
  rw [buildData, bind_of_ok htime]

/-- A sample passes alone if its payload is within the limit and its message is not too large. -/
theorem passes_addData (hmin : 2000 ≤ maxMessage) (hheader : maxMessage ≤ header.maxSize)
    (hsubmessage : maxMessage ≤ submessage.maxSize) (hmax : submessage.maxSize < 2 ^ 32)
    (hown : own.length ≤ 1000) (hlength : change.serializedPayload.length < 2 ^ 31) :
    Passes maxMessage (create false header submessage limitation)
        (addData (fun _ => true) sender change own copyData expects) ↔
      (limitation = 0 ∨ change.serializedPayload.length ≤ limitation) ∧
        messageSize sender change own expects ≤ maxMessage := by
  rw [addData, passes_checkLimitation, and_congr_right_iff]
  intro _
  obtain ⟨start, hnative, hpos, hsame, hsize, htime⟩ := addSubmessageInfoTS_prepared
    change.sourceTimestamp sender.destinationGuidPrefix (hmin.trans hsubmessage) hmax
  have hbuild := buildData_run change own copyData expects sender htime
  generalize hdata : ({ change with writerGUID := sender.guid } : DataChange) = sent at *
  have hpayload : sent.serializedPayload.length < 2 ^ 31 := by
    rw [← hdata]
    exact hlength
  have hbefore := infoDstSize_le sender.destinationGuidPrefix
  have hqos := qosLength_bound sent own expects hown sender.topicKind
  rw [messageSize, hdata]
  generalize infoDstSize sender.destinationGuidPrefix = before at *
  have hlong : dataLength sent sender.topicKind expects (inlineQosWriter own) < 2 ^ 31 + 1200 := by
    rw [dataLength]
    split <;> split <;> omega
  have hpad := paddingOf_le (before + 12 +
    dataLength sent sender.topicKind expects (inlineQosWriter own))
  cases hflag : sent.dataFlag with
  | false =>
    -- Without payload there is always room.
    have hshort : dataLength sent sender.topicKind expects (inlineQosWriter own) ≤
        1172 := by
      rw [dataLength, hflag]
      simp only [Bool.false_eq_true, if_false]
      split <;> omega
    obtain ⟨msg, isBig, pending, k, hrun, hext, htotal⟩ := addSubmessageDataFor_run hnative sent
      sender.topicKind (getEntityId sender.remoteGuids) expects (inlineQosWriter own)
      copyData ⟨by omega, by omega, by omega⟩
    rw [hpos] at htotal
    have hpending := pendingBytes_le pending
    have hlong := hext.length
    rw [bind_of_ok hrun, run_pure] at hbuild
    rw [passes_addSubmessage hbuild rfl (by omega) (by simp only [getD_some]; omega)]
    simp only [getD_some]
    omega
  | true =>
    have hexact : ∀ {isBig pending msg}, (addSubmessageDataFor copyData sent sender.topicKind
        (getEntityId sender.remoteGuids) expects (inlineQosWriter own)).run start =
          (.ok (true, isBig, pending), msg) →
        (Passes maxMessage (create false header submessage limitation)
          (addSubmessage (fun _ => true)
            sender sender.destinationGuidPrefix (buildData sender change own copyData expects)) ↔
          20 + msg.length ≤ header.maxSize ∧ 20 + (before + 12 +
            dataLength sent sender.topicKind expects (inlineQosWriter own) +
            paddingOf (before + 12 + dataLength sent sender.topicKind expects
              (inlineQosWriter own))) ≤ maxMessage) := by
      intro isBig pending msg hrun
      obtain ⟨htotal, hpositive⟩ := length_of_addSubmessageDataFor hnative sent sender.topicKind
        (getEntityId sender.remoteGuids) expects (inlineQosWriter own) rfl hflag
        ⟨by omega, by omega, by omega⟩ (by omega) (by omega) hrun
      rw [hpos] at htotal
      rw [bind_of_ok hrun, run_pure] at hbuild
      rw [passes_addSubmessage hbuild rfl hpositive (by simp only [getD_some]; omega)]
      simp only [getD_some]
      omega
    constructor
    · intro hpasses
      obtain ⟨built, msg, hbuilt, hok⟩ := build_of_passes hpasses
      rw [hbuild] at hbuilt
      obtain ⟨⟨ok, isBig, pending⟩, msg', hrun, hpure⟩ := bind_eq_ok.1 hbuilt
      obtain ⟨rfl, rfl⟩ := ok_inj.1 hpure
      rw [show ok = true from hok] at hrun
      exact ((hexact hrun).1 hpasses).2
    · intro hsmall
      obtain ⟨msg, isBig, pending, k, hrun, hext, htotal⟩ := addSubmessageDataFor_run hnative sent
        sender.topicKind (getEntityId sender.remoteGuids) expects (inlineQosWriter own)
        copyData ⟨by omega, by omega, by omega⟩
      rw [hpos] at htotal
      have hlong := hext.length
      exact (hexact hrun).2 ⟨by omega, hsmall⟩

/-- A fragment that leaves room for its headers passes alone. -/
theorem passes_addDataFrag {n : Nat} (hn : 1 ≤ n) (hmin : 2000 ≤ maxMessage)
    (hheader : maxMessage ≤ header.maxSize) (hsubmessage : maxMessage ≤ submessage.maxSize)
    (hmax : submessage.maxSize < 2 ^ 32) (hpayload : 0 < change.serializedPayload.length)
    (hlimit : limitation = 0 ∨ change.fragmentLength n ≤ limitation)
    (hfits : qosLength change sender.topicKind expects (inlineQosWriter own) +
      change.fragmentLength n + 92 ≤ maxMessage) :
    Passes maxMessage (create false header submessage limitation)
      (addDataFrag (fun _ => true) sender change n own copyData expects) := by
  rw [addDataFrag, passes_checkLimitation]
  refine ⟨hlimit, ?_⟩
  obtain ⟨start, hnative, hpos, hsame, hsize, htime⟩ := addSubmessageInfoTS_prepared
    change.sourceTimestamp sender.destinationGuidPrefix (hmin.trans hsubmessage) hmax
  have hbefore := infoDstSize_le sender.destinationGuidPrefix
  have hlength := length_fragment change n
  obtain ⟨msg, pending, hrun, hfragmented⟩ := addSubmessageDataFrag_run hnative change
    sender.topicKind (getEntityId sender.remoteGuids) expects (inlineQosWriter own) hn
    (change.fragment n) copyData (keyFlag_of_payload change sender.topicKind expects _ hpayload)
    ⟨by omega, by omega, by omega⟩
  obtain ⟨k, hext, hbody⟩ := hfragmented.extended
  have hbuild : (buildDataFrag sender change n own copyData expects).run
      (prepared submessage sender.destinationGuidPrefix) =
      (.ok ⟨true, false, some pending⟩, msg) := by
    rw [buildDataFrag, bind_of_ok htime, bind_of_ok hrun, run_pure]
  have hpending := pendingBytes_le pending
  have hlong := hext.length
  rw [paddingOf] at hbody
  rw [passes_addSubmessage hbuild rfl (by omega) (by simp only [getD_some]; omega)]
  simp only [getD_some]
  omega

end Data

end Create

/-- A flow controller lets a sample pass that is sent when nothing else was: without a limit there
is no check. -/
def hasSlot (limit : Option Nat) (s : MessageGroup) (change : CacheChange) : Bool :=
  limit.all (fastCheckIsThereSlotForChange · s change)

/-- After `set_fragments` the sample, or each of its fragments, is let through by the fast check and
can be added alone to an empty group, in a message that is not too large. -/
def Sendable (limit : Option Nat) (maxMessage maxOutput : Nat) (header submessage : CdrMessage)
    (sender : Sender) (change : DataChange) (own : List UInt8) (copyData expects : Bool) :
    Prop :=
  let limits : MessageLimits := ⟨limit.getD (2 ^ 32 - 1), maxMessage, maxOutput⟩
  let sent := change.setFragments limits sender.topicKind own.length
  let group := create false header submessage (limit.getD 0)
  hasSlot limit group sent.toCacheChange = true ∧
    if sent.fragmentCount = 0 then
      Passes maxMessage group (addData (fun _ => true) sender sent own copyData expects)
    else
      ∀ n, 1 ≤ n → n ≤ sent.fragmentCount → Passes maxMessage group
        (addDataFrag (fun _ => true) sender sent n own copyData expects)

/-- The limits leave at least a byte for the payload, besides the headers and the inline QoS. -/
def HasBudget (limits : MessageLimits) (change : DataChange) (topic : TopicKind) (own : Nat) :
    Prop :=
  (if 0 < change.inlineQosSize topic own then 4 + change.inlineQosSize topic own else 0) <
    (limits.maxSize - 116) / 4 * 4

section Fragments

variable {limits : MessageLimits} {change : DataChange} {topic : TopicKind} {own : Nat}

/-- With a budget nothing wraps in the mark of `set_fragments`, and what the mark leaves is enough
for the headers. -/
theorem finalHighMark_of_budget (hbudget : HasBudget limits change topic own)
    (hpart : limits.partMax < 2 ^ 32) :
    0 < change.finalHighMark limits.getMaxAllowedPayloadSize topic own ∧
      change.finalHighMark limits.getMaxAllowedPayloadSize topic own +
        (if 0 < change.inlineQosSize topic own then 4 + change.inlineQosSize topic own
          else 0) + 116 ≤ limits.maxSize := by
  have hmax := maxSize_le limits
  rw [HasBudget] at hbudget
  rw [finalHighMark, MessageLimits.getMaxAllowedPayloadSize,
    calculateMaxPayloadSize_eq (by omega), sub32]
  split at hbudget <;> simp only [*, if_true, if_false] <;> split_ifs <;> omega

/-- Without one a sample has no fragments: the mark is zero, or so large that no payload is above
it. -/
theorem fragmentCount_of_not_budget (hbudget : ¬HasBudget limits change topic own)
    (hown : own ≤ 1000) (hpart : limits.partMax < 2 ^ 32)
    (hlength : change.serializedPayload.length < 2 ^ 31) (hfresh : change.fragmentCount = 0) :
    (change.setFragments limits topic own).fragmentCount = 0 := by
  have hmax := maxSize_le limits
  have hqos := inlineQosSize_le change topic own
  have hmark : change.finalHighMark limits.getMaxAllowedPayloadSize topic own = 0 ∨
      2 ^ 31 ≤ change.finalHighMark limits.getMaxAllowedPayloadSize topic own := by
    rw [HasBudget] at hbudget
    rw [finalHighMark, MessageLimits.getMaxAllowedPayloadSize,
      calculateMaxPayloadSize_eq (by omega), sub32]
    split at hbudget <;> simp only [*, if_true, if_false] <;> split_ifs <;> omega
  by_cases hlt : change.finalHighMark limits.getMaxAllowedPayloadSize topic own <
      change.serializedPayload.length
  · rw [setFragments_of_lt hlt, hmark.resolve_right (by omega)]
    rfl
  · rw [setFragments, if_neg hlt]
    exact hfresh

lemma maxSize_le_flowMax (limits : MessageLimits) : limits.maxSize ≤ limits.flowMax := by
  simp only [MessageLimits.maxSize]
  split <;> split <;> omega

/-- A sample above the mark has fragments, and none is larger than the mark. -/
theorem setFragments_of_budget {final : Nat}
    (hfinal : change.finalHighMark limits.getMaxAllowedPayloadSize topic own = final)
    (hpositive : 0 < final) (hlt : final < change.serializedPayload.length)
    (hlength : change.serializedPayload.length < 2 ^ 31) :
    let sent := change.setFragments limits topic own
    sent.fragmentCount ≠ 0 ∧ sent.sizeToCheck ≤ final ∧
      ∀ n, 1 ≤ n → n ≤ sent.fragmentCount → sent.fragmentLength n ≤ final := by
  intro sent
  have heq : sent = change.setFragmentSize (min final maxFragmentPayloadSize) := by
    rw [← hfinal] at hlt ⊢
    exact setFragments_of_lt hlt
  have hcap : maxFragmentPayloadSize = 65472 := rfl
  generalize hsize : min final maxFragmentPayloadSize = size at heq
  have hbounds : 0 < size ∧ size ≤ final ∧ size ≤ 65472 := by omega
  have hcount : sent.fragmentCount ≠ 0 := by
    rw [heq, fragmentCount_setFragmentSize change hbounds.1]
    have hwrap : wrap32 (change.serializedPayload.length + size - 1) =
        change.serializedPayload.length + size - 1 := Nat.mod_eq_of_lt (by omega)
    exact Nat.pos_iff_ne_zero.1 (Nat.div_pos (by omega) hbounds.1)
  refine ⟨hcount, ?_, fun n hn hle => ?_⟩
  · have hfragment : sent.fragmentSize = size := by
      rw [heq]
      rfl
    rw [CacheChange.sizeToCheck, if_pos hcount, hfragment]
    split
    · exact hbounds.2.1
    · exact (Nat.mod_lt _ hbounds.1).le.trans hbounds.2.1
  · rw [heq] at hle ⊢
    exact (fragmentLength_bounds hbounds.1 (by omega) hn hle).2.trans hbounds.2.1

lemma messageSize_setFragments (sender : Sender) (own : List UInt8) (expects : Bool) :
    messageSize sender (change.setFragments limits topic own.length) own expects =
      messageSize sender change own expects := by
  rw [setFragments]
  split <;> rfl

lemma payload_setFragments :
    (change.setFragments limits topic own).serializedPayload = change.serializedPayload := by
  rw [setFragments]
  split <;> rfl

end Fragments

/-- Before anything is sent the whole limit is left. -/
theorem hasSlot_create {limit : Option Nat} {header submessage : CdrMessage} {limitation : Nat}
    {change : CacheChange} :
    hasSlot limit (create false header submessage limitation) change = true ↔
      ∀ maxBytes ∈ limit, change.sizeToCheck < maxBytes := by
  cases limit with
  | none => simp [hasSlot]
  | some maxBytes =>
    have hnone : (create false header submessage limitation).currentBytesProcessed = 0 := rfl
    simp [hasSlot, fastCheckIsThereSlotForChange, hnone, sub32]

/-- A sample within the mark makes a message within the limits. -/
theorem messageSize_le {limits : MessageLimits} {sender : Sender} {change : DataChange}
    {own : List UInt8} {expects : Bool} {final : Nat}
    (hfinal : final + (if 0 < change.inlineQosSize sender.topicKind own.length then
      4 + change.inlineQosSize sender.topicKind own.length else 0) + 116 ≤ limits.maxSize)
    (hle : change.serializedPayload.length ≤ final) :
    messageSize sender change own expects ≤ limits.maxSize := by
  have hqos := qosLength_le { change with writerGUID := sender.guid } sender.topicKind expects own
  change _ ≤ (if 0 < change.inlineQosSize sender.topicKind own.length then
      4 + change.inlineQosSize sender.topicKind own.length else 0) + 24 at hqos
  have hbefore := infoDstSize_le sender.destinationGuidPrefix
  simp only [messageSize, paddingOf]
  change ({ change with writerGUID := sender.guid } : DataChange).serializedPayload.length ≤
    _ at hle
  generalize ({ change with writerGUID := sender.guid } : DataChange) = sent at *
  -- A key payload goes without inline QoS, and without data.
  have hkey : sent.keyFlag sender.topicKind expects (inlineQosWriter own) = true →
      qosLength sent sender.topicKind expects (inlineQosWriter own) = 0 ∧ sent.dataFlag =
        false := by
    simp only [keyFlag, Bool.and_eq_true, Bool.not_eq_true']
    rintro ⟨⟨hdata, hinline⟩, -⟩
    rw [qosLength, hinline]
    exact ⟨rfl, hdata⟩
  have hdata : dataLength sent sender.topicKind expects (inlineQosWriter own) + 56 ≤
      limits.maxSize := by
    rw [dataLength]
    split
    case isTrue hflag =>
      rw [if_neg fun h => by simp [(hkey h).2] at hflag]
      omega
    case isFalse =>
      split
      case isTrue h =>
        rw [(hkey h).1]
        omega
      case isFalse => omega
  omega

section Limits

variable {limit : Option Nat} {maxMessage maxOutput : Nat} {header submessage : CdrMessage}
  {sender : Sender} {change : DataChange} {own : List UInt8} {copyData expects : Bool}

/-- A sample can be sent if and only if the limits leave something for the payload, or it passes as
a single DATA: the payload is below the limit of the flow controller and the whole message is not
larger than a message may be. -/
theorem sendable_iff (hlimit : ∀ maxBytes ∈ limit, 1 ≤ maxBytes ∧ maxBytes < 2 ^ 31)
    (hmin : 2000 ≤ maxMessage) (hmax : maxMessage < 2 ^ 31)
    (hheader : maxMessage ≤ header.maxSize) (hsubmessage : maxMessage ≤ submessage.maxSize)
    (hbuffer : submessage.maxSize < 2 ^ 32) (hown : own.length ≤ 1000)
    (hlength : change.serializedPayload.length < 2 ^ 31) (hfresh : change.fragmentCount = 0) :
    Sendable limit maxMessage maxOutput header submessage sender change own copyData
        expects ↔
      HasBudget ⟨limit.getD (2 ^ 32 - 1), maxMessage, maxOutput⟩ change sender.topicKind
          own.length ∨
        (∀ maxBytes ∈ limit, change.serializedPayload.length < maxBytes) ∧
          messageSize sender change own expects ≤ maxMessage := by
  simp only [Sendable]
  generalize hlimits : MessageLimits.mk (limit.getD (2 ^ 32 - 1)) maxMessage maxOutput = limits
  have hpart : limits.partMax = maxMessage := by rw [← hlimits]
  have hflow : ∀ maxBytes ∈ limit, limits.maxSize ≤ maxBytes := by
    intro maxBytes hmem
    have hle := maxSize_le_flowMax limits
    have hsome : limits.flowMax = maxBytes := by
      rw [← hlimits, show limit = some maxBytes from hmem]
      rfl
    omega
  have hsize := maxSize_le limits
  have hpasses : (limit.getD 0 = 0 ∨ change.serializedPayload.length ≤ limit.getD 0) ↔
      ∀ maxBytes ∈ limit, change.serializedPayload.length ≤ maxBytes := by
    cases limit with
    | none => simp
    | some maxBytes =>
      have hpos := (hlimit maxBytes rfl).1
      simp only [getD_some, mem_some_iff, forall_eq']
      omega
  generalize hsent : change.setFragments limits sender.topicKind own.length = sent
  have hpayload : sent.serializedPayload = change.serializedPayload := by
    rw [← hsent]
    exact payload_setFragments
  have hmessage : messageSize sender sent own expects = messageSize sender change own expects := by
    rw [← hsent]
    exact messageSize_setFragments sender own expects
  by_cases hcount : sent.fragmentCount = 0
  · have hcheck : sent.sizeToCheck = change.serializedPayload.length := by
      rw [CacheChange.sizeToCheck, if_neg (not_not.2 hcount), hpayload]
    have hsingle : ((∀ maxBytes ∈ limit, change.serializedPayload.length < maxBytes) ∧
        (∀ maxBytes ∈ limit, change.serializedPayload.length ≤ maxBytes) ∧
          messageSize sender change own expects ≤ maxMessage) ↔
        (∀ maxBytes ∈ limit, change.serializedPayload.length < maxBytes) ∧
          messageSize sender change own expects ≤ maxMessage :=
      and_congr_right fun hlt => and_iff_right fun maxBytes hmem => (hlt maxBytes hmem).le
    rw [if_pos hcount, hasSlot_create, hcheck,
      passes_addData sent own copyData expects hmin hheader hsubmessage hbuffer hown
        (by rwa [hpayload]), hpayload, hmessage, hpasses, hsingle]
    refine ⟨.inr, ?_⟩
    rintro (hbudget | hsingle)
    · -- There would be fragments if the payload were above the mark.
      obtain ⟨hpositive, hfits⟩ := finalHighMark_of_budget hbudget (by omega)
      have hle : change.serializedPayload.length ≤ change.finalHighMark
          limits.getMaxAllowedPayloadSize sender.topicKind own.length := by
        by_contra hlt
        have hfragments := setFragments_of_budget rfl hpositive (Nat.not_le.1 hlt) hlength
        rw [hsent] at hfragments
        exact hfragments.1 hcount
      refine ⟨fun maxBytes hmem => ?_, (messageSize_le hfits hle).trans (by omega)⟩
      have hmaxBytes := hflow maxBytes hmem
      omega
    · exact hsingle
  · have hbudget : HasBudget limits change sender.topicKind own.length := by
      by_contra hnone
      refine hcount ?_
      rw [← hsent]
      exact fragmentCount_of_not_budget hnone hown (by omega) hlength hfresh
    obtain ⟨hpositive, hfits⟩ := finalHighMark_of_budget hbudget (by omega)
    have hlt : change.finalHighMark limits.getMaxAllowedPayloadSize sender.topicKind own.length <
        change.serializedPayload.length := by
      by_contra hle
      refine hcount ?_
      rw [← hsent, setFragments, if_neg hle]
      exact hfresh
    have hfragments := setFragments_of_budget rfl hpositive hlt hlength
    rw [hsent] at hfragments
    obtain ⟨-, hcheck, hall⟩ := hfragments
    rw [if_neg hcount, hasSlot_create]
    refine iff_of_true ⟨fun maxBytes hmem => ?_, fun n hn hle => ?_⟩ (.inl hbudget)
    · have hmaxBytes := hflow maxBytes hmem
      omega
    · have hfragment := hall n hn hle
      rw [← hsent] at hle
      obtain ⟨hsome, hroom⟩ := fragment_fits change limits sender.topicKind expects own
        (by omega) hown (by omega) hfresh hn hle
      have hqos := qosLength_setFragments change limits sender.topicKind expects own
        (inlineQosWriter own)
      rw [hsent] at hsome hroom hqos
      refine passes_addDataFrag sent own copyData expects hn hmin hheader hsubmessage
        hbuffer hsome ?_ (by omega)
      cases limit with
      | none => exact .inl rfl
      | some maxBytes =>
        have hmaxBytes := hflow maxBytes rfl
        exact .inr (by simp only [getD_some]; omega)

end Limits

theorem sendable_iff_fragmented :
    let change := sampleChange .alive 5000 .unknown
    Sendable (some 1000) 2000 (2 ^ 32 - 1) (emptyMessage 2000) (emptyMessage 2000)
        (sampleSender true guidPrefixUnknown) change [] true false ↔
      HasBudget ⟨1000, 2000, 2 ^ 32 - 1⟩ change .noKey 0 ∨
        (∀ maxBytes ∈ some 1000, change.serializedPayload.length < maxBytes) ∧
          messageSize (sampleSender true guidPrefixUnknown) change [] false ≤ 2000 :=
  sendable_iff (by simp) (by decide) (by decide) (by decide) (by decide) (by decide) (by decide)
    (by decide) rfl

/-- With a limit of 100 bytes the size of a fragment wraps and a sample of 150 bytes gets none. It
is never let through. -/
theorem not_sendable_small_limit :
    ¬Sendable (some 100) 2000 (2 ^ 32 - 1) (emptyMessage 2000) (emptyMessage 2000)
      (sampleSender true guidPrefixUnknown) (sampleChange .alive 150 .unknown) [] true false := by
  rintro ⟨hslot, -⟩
  revert hslot
  decide

end MessageGroup

end EasyDds.Rtps
