import EasyDds.Rtps.Group.Destination
import EasyDds.Rtps.Message.Growth

/-!
The bandwidth limit of a flow controller. The limit is checked with the size of a payload, while
the group counts whole messages.
-/

namespace EasyDds.Rtps

open Prog

open CdrMessage MessageGroup

def CacheChange.sizeToCheck (change : CacheChange) : Nat :=
  if change.fragmentCount ≠ 0 then
    if change.serializedPayload.length % change.fragmentSize = 0 then change.fragmentSize
    else change.serializedPayload.length % change.fragmentSize
  else change.serializedPayload.length

def fastCheckIsThereSlotForChange (maxBytesPerPeriod : Nat) (s : MessageGroup)
    (change : CacheChange) : Bool :=
  decide (change.sizeToCheck < sub32 maxBytesPerPeriod s.currentBytesProcessed)

/-- What the thread of a flow controller does with its group: calls on behalf of a writer, and the
change to another one with `sender`. -/
inductive FlowEvent
  | add (sender : Sender) (call : GroupCall)
  | sender

def MessageGroup.flowStep (accepts : Nat → Bool) (s : MessageGroup) : FlowEvent → MessageGroup
  | .add sender call => s.step accepts (sender, call)
  | .sender => ((flushAndReset accepts).run s).2

namespace GroupCall

def checkedSize : GroupCall → Option Nat
  | data change _ _ _ => some change.serializedPayload.length
  | dataFrag change fragmentNumber _ _ _ => some (change.fragmentLength fragmentNumber)
  | _ => none

/-- The most that a call adds to the messages of a group: an RTPS header, an INFO_DST, an INFO_TS if
there is a payload, and the submessage with its padding. -/
def wholeSize (sender : Sender) : GroupCall → Nat
  | data change own _ expects =>
    20 + 16 + 12 + (dataLength { change with writerGUID := sender.guid } sender.topicKind
      expects (inlineQosWriter own) + 3)
  | dataFrag change fragmentNumber own _ expects =>
    20 + 16 + 12 + (36 + qosLength change sender.topicKind expects (inlineQosWriter own) +
      change.fragmentLength fragmentNumber + 3)
  | heartbeat _ _ _ _ _ => 20 + 16 + 32
  | gap _ bitmap | gapFor _ bitmap _ => 20 + 16 + (32 + 4 * bitmap.nLongs)
  | acknack snSet _ _ => 20 + 16 + (28 + 4 * snSet.nLongs)
  | nackfrag _ fnState _ => 20 + 16 + (32 + 4 * fnState.nLongs)

end GroupCall

namespace MessageGroup

def charge (s : MessageGroup) : Nat := s.currentSentBytes + s.buffersBytes

def statisticsBytes (s : MessageGroup) : Nat :=
  if s.statistics then statisticsSubmessageLength else 0

def due (s : MessageGroup) : Nat :=
  s.charge + if 20 < s.headerMsg.length then s.statisticsBytes else 0

/-- A call is refused by the check of the limitation, or the limit leaves room for everything that
it adds, together with a payload that an earlier call left pending and the statistics of the
message that it may complete and of the one that it may start. A message that is only handed over
gets its statistics. -/
def Affordable (limit : Nat) (s : MessageGroup) : FlowEvent → Prop
  | .add sender call =>
    call.checkedSize.any (dataExceedsLimitation · s.sentBytesLimitation s.currentSentBytes
      s.buffersBytes) = true ∧ s.due ≤ limit ∨
    s.charge + pendingBytes s.pending + call.wholeSize sender + 2 * s.statisticsBytes ≤ limit
  | .sender => s.due ≤ limit

instance (limit : Nat) (s : MessageGroup) : (e : FlowEvent) → Decidable (s.Affordable limit e)
  | .add _ _ => inferInstanceAs (Decidable (_ ∨ _))
  | .sender => inferInstanceAs (Decidable (_ ≤ _))

variable {accepts : Nat → Bool} {s : MessageGroup} {bound : Nat}

lemma pendingBytes_le (p : Pending) : pendingBytes p ≤ p.size + p.padding := by
  rw [pendingBytes]
  split <;> omega

lemma due_le (s : MessageGroup) : s.due ≤ s.charge + s.statisticsBytes := by
  rw [due]
  split <;> omega

structure Flushes (s s' : MessageGroup) : Prop where
  due_le : s'.due ≤ s.due
  statistics : s'.statistics = s.statistics
  pending : s'.pending = s.pending
  submessageMsg : s'.submessageMsg = s.submessageMsg

lemma Flushes.rfl : Flushes s s := ⟨le_rfl, Eq.refl _, Eq.refl _, Eq.refl _⟩

lemma Flushes.statisticsBytes {s' : MessageGroup} (h : Flushes s s') :
    s'.statisticsBytes = s.statisticsBytes := by
  rw [MessageGroup.statisticsBytes, h.statistics, MessageGroup.statisticsBytes]

lemma addStatsSubmsg_charge : s.addStatsSubmsg.charge ≤ s.charge + s.statisticsBytes ∧
    s.addStatsSubmsg.statistics = s.statistics ∧ s.addStatsSubmsg.pending = s.pending ∧
      s.addStatsSubmsg.submessageMsg = s.submessageMsg ∧
      s.addStatsSubmsg.currentDst = s.currentDst := by
  rw [addStatsSubmsg, statisticsBytes]
  split
  · refine ⟨?_, rfl, rfl, rfl, rfl⟩
    have hwrap : wrap32 (s.buffersBytes + statisticsSubmessageLength) ≤
      s.buffersBytes + statisticsSubmessageLength := Nat.mod_le _ _
    simp only [charge]
    omega
  · exact ⟨le_rfl, rfl, rfl, rfl, rfl⟩

/-- A flush moves bytes from one counter to the other, with those of the statistics. If the sender
does not take the message, they are counted all the same. -/
theorem flush_charge (h : s.due ≤ bound) :
    (flush accepts).wp (fun _ s' => Flushes s s' ∧ s'.currentDst = s.currentDst)
      (fun s' => s'.charge ≤ bound) s := by
  refine wp.bind ?_
  refine .ite (fun hmessage => ?_) fun _ => ?_
  · obtain ⟨hcharge, hstatistics, hpending, hmsg, hdst⟩ := addStatsSubmsg_charge (s := s)
    have hdue : s.addStatsSubmsg.charge ≤ s.due := by rwa [due, if_pos hmessage]
    have hmoved : wrap32 (s.addStatsSubmsg.currentSentBytes + s.addStatsSubmsg.buffersBytes) ≤
      s.addStatsSubmsg.charge := Nat.mod_le _ _
    exact .ite (fun _ => ⟨⟨hmoved.trans hdue, hstatistics, hpending, hmsg⟩, hdst⟩)
      fun _ => hdue.trans h
  · have hcharge : s.resetToHeader.due ≤ s.due :=
      (Nat.le_add_right s.currentSentBytes s.buffersBytes).trans (Nat.le_add_right _ _)
    exact ⟨⟨hcharge, rfl, rfl, rfl⟩, rfl⟩

lemma flushAndReset_charge (h : s.due ≤ bound) :
    (flushAndReset accepts).wp (fun _ => Flushes s) (fun s' => s'.charge ≤ bound) s :=
  (flush_charge h).seq fun _ _ ⟨h', _⟩ => ⟨h'.1, h'.2, h'.3, h'.4⟩

lemma appendSubmessage_charge : appendSubmessage.wp (fun _ s' => s'.due ≤
      s.due + s.submessageMsg.length + 20 + pendingBytes s.pending + s.statisticsBytes)
      (fun s' => s'.charge ≤ bound) s := by
  simp only [wp, appendSubmessage]
  rcases (CdrMessage.addData (s.submessageMsg.buffer.slice 0 s.submessageMsg.length)).run
    s.reserved with ⟨_ | _ | _, header⟩
  · omega
  · omega
  · have hwrap : ∀ n, wrap32 n ≤ n := fun n => Nat.mod_le _ _
    have hfirst : (if s.headerMsg.pos = 20 ∧ s.headerMsg.length = 20 then 20 else 0) ≤ 20 := by
      split <;> omega
    have hbytes := hwrap (s.buffersBytes + s.submessageMsg.length +
      (if s.headerMsg.pos = 20 ∧ s.headerMsg.length = 20 then 20 else 0) + pendingBytes s.pending)
    refine (due_le _).trans ?_
    have hdue : s.charge ≤ s.due := Nat.le_add_right _ _
    simp only [charge, statisticsBytes] at hdue ⊢
    omega

variable {dst : GuidPrefix} {sender : Sender} {limit n : Nat}

lemma charge_le_due (s : MessageGroup) : s.charge ≤ s.due := Nat.le_add_right _ _

lemma makeRoom_charge (hdst : s.currentDst = dst) (h : s.due ≤ bound) :
    (makeRoom accepts dst).wp (fun _ => Flushes s) (fun s' => s'.charge ≤ bound) s := by
  refine .ite (fun _ => .rfl) fun _ => ?_
  refine (flush_charge h).seq fun _ s' ⟨h', hdst'⟩ => ?_
  rw [addInfoDstInHeader, wp_modify, if_neg (by simp [hdst', hdst])]
  exact h'

lemma insertSubmessage_charge {isBig : Bool} (hdst : s.currentDst = dst)
    (h : s.due + s.submessageMsg.length + 20 + pendingBytes s.pending + s.statisticsBytes ≤ bound) :
    (insertSubmessage accepts dst isBig).wp (fun _ s' => s'.charge ≤ bound)
      (fun s' => s'.charge ≤ bound) s := by
  refine (makeRoom_charge hdst (by omega)).seq fun _ s1 h1 => ?_
  refine appendSubmessage_charge.seq fun ok s2 h2 => ?_
  rw [h1.pending, h1.submessageMsg, h1.statisticsBytes] at h2
  have hdue : s2.due ≤ bound := by
    have hflushed := h1.due_le
    omega
  split
  · exact (flush_charge hdue).seq fun _ s3 ⟨h3, _⟩ =>
      (charge_le_due s3).trans (h3.due_le.trans hdue)
  · exact (charge_le_due s2).trans hdue

lemma checkAndMaybeFlush_charge (h : s.due ≤ bound) :
    (checkAndMaybeFlush accepts sender dst).wp (fun _ s' => s'.due ≤ s.due ∧
      s'.statistics = s.statistics ∧ s'.pending = s.pending ∧ s'.submessageMsg.length ≤ 16 ∧
      s'.currentDst = dst) (fun s' => s'.charge ≤ bound) s := by
  have hdst : ∀ s1 : MessageGroup, Flushes s.initSubmessage s1 →
      (addInfoDstInSubmessage dst).wp (fun _ s' => s'.due ≤ s.due ∧
        s'.statistics = s.statistics ∧ s'.pending = s.pending ∧ s'.submessageMsg.length ≤ 16 ∧
        s'.currentDst = dst) (fun s' => s'.charge ≤ bound) s1 := by
    intro s1 h1
    rw [addInfoDstInSubmessage, wp_modify]
    by_cases hsame : s1.currentDst = dst
    · rw [if_neg (not_not.2 hsame)]
      refine ⟨h1.due_le, h1.statistics, h1.pending, ?_, hsame⟩
      rw [h1.submessageMsg]
      exact Nat.zero_le _
    · rw [if_pos hsame]
      refine ⟨h1.due_le, h1.statistics, h1.pending, ?_, rfl⟩
      simp only [h1.submessageMsg]
      exact (puts_addSubmessageInfoDST dst).grows s.submessageMsg.initCdrMsg
  simp only [checkAndMaybeFlush, wp_modify_bind]
  cases sender.destinationsHaveChanged with
  | true => exact (flushAndReset_charge (s := s.initSubmessage) h).seq fun _ s1 h1 => hdst s1 h1
  | false => exact hdst s.initSubmessage .rfl

/-- The bytes of a submessage, with those of the payload that its creator leaves pending. -/
def Costs (n : Nat) (build : Reader Built) : Prop :=
  ∀ msg built msg', build.run msg = (.ok built, msg') →
    msg'.length + built.pending.elim 0 pendingBytes ≤ msg.length + n

lemma costs_buildControl {create : Reader Bool} (h : Grows n create) :
    Costs n (buildControl create) := by
  intro msg built msg' hrun
  obtain ⟨ok, msg1, hcreate, hpure⟩ := bind_eq_ok.1 hrun
  obtain ⟨rfl, rfl⟩ := ok_inj.1 hpure
  have hgrows := h msg
  rw [hcreate] at hgrows
  exact hgrows

/-- A submessage behind an INFO_TS, whose creator sets the pending payload. -/
theorem costs_payload {α : Type} {time : Time} {m : Reader α} {pending : α → Pending}
    {result : α → Built} (h : Spends n pending m)
    (hresult : ∀ a, (result a).pending = some (pending a)) : Costs (12 + n) (do
      let _ ← addSubmessageInfoTS time
      let a ← m
      pure (result a)) := by
  intro msg built msg' hrun
  obtain ⟨ok, msg1, htime, hrest⟩ := bind_eq_ok.1 hrun
  obtain ⟨a, msg2, hm, hpure⟩ := bind_eq_ok.1 hrest
  obtain ⟨rfl, rfl⟩ := ok_inj.1 hpure
  have hgrows := (puts_addSubmessageInfoTS time).grows msg
  rw [htime] at hgrows
  have hspends := h msg1 a msg2 hm
  have hpending := pendingBytes_le (pending a)
  simp only [hresult, Option.elim_some] at hgrows ⊢
  omega

lemma costs_build (sender : Sender) (call : GroupCall) :
    ∃ n, Costs n (call.build sender) ∧ 20 + 16 + n = call.wholeSize sender := by
  cases call with
  | data change own copyData expects =>
    refine ⟨_, costs_payload (spends_addSubmessageDataFor _ _ _ _ _ copyData) fun _ => rfl, ?_⟩
    simp only [GroupCall.wholeSize]
    omega
  | dataFrag change fragmentNumber own copyData expects =>
    refine ⟨_, costs_payload (spends_addSubmessageDataFrag _ _ _ _ _ _ _ copyData) fun _ => rfl, ?_⟩
    simp only [GroupCall.wholeSize, DataChange.length_fragment]
    omega
  | heartbeat firstSN lastSN count isFinal livelinessFlag =>
    exact ⟨_, costs_buildControl (grows_addSubmessageHeartbeat _ _ _ _ _ _ _), rfl⟩
  | gap initialSequence bitmap | gapFor initialSequence bitmap readerGuid =>
    exact ⟨_, costs_buildControl (grows_addSubmessageGap _ _ _ _), rfl⟩
  | acknack snSet count finalFlag =>
    exact ⟨_, costs_buildControl (grows_addSubmessageAcknack _ _ _ _ _), rfl⟩
  | nackfrag writerSN fnState count =>
    exact ⟨_, costs_buildControl (grows_addSubmessageNackFrag _ _ _ _ _), rfl⟩

lemma createSubmessage_charge {build : Reader Built} (hcosts : Costs n build) :
    (createSubmessage dst build).wp (fun built s' => s'.due = s.due ∧
      s'.statisticsBytes = s.statisticsBytes ∧ s'.currentDst = s.currentDst ∧ (built.ok = true →
      s'.submessageMsg.length + pendingBytes s'.pending ≤
        s.submessageMsg.length + n + pendingBytes s.pending)) (fun s' => s'.charge ≤ bound) s := by
  simp only [wp, createSubmessage]
  rcases hrun : build.run s.submessageMsg with ⟨e | built, msg⟩
  · exact ⟨rfl, rfl, rfl, by simp⟩
  · have hbuilt := hcosts _ _ _ hrun
    refine ⟨rfl, rfl, rfl, fun _ => ?_⟩
    cases hpending : built.pending <;> simp only [hpending, Option.elim,
      Option.getD] at hbuilt ⊢ <;>
      omega

lemma addSubmessage_charge {build : Reader Built} (hcosts : Costs n build)
    (h : s.due + pendingBytes s.pending + (20 + 16 + n) + s.statisticsBytes ≤ bound) :
    (addSubmessage accepts sender dst build).wp (fun _ s' => s'.charge ≤ bound)
      (fun s' => s'.charge ≤ bound) s := by
  refine (checkAndMaybeFlush_charge (by omega)).seq
    fun _ s1 ⟨hdue, hstatistics, hpending, hlength, hdst⟩ => ?_
  refine (createSubmessage_charge hcosts).seq fun built s2 ⟨hsame, hbytes, hdst2, hbuilt⟩ => ?_
  have hbytes2 : s2.statisticsBytes = s.statisticsBytes := by
    rw [hbytes, statisticsBytes, hstatistics, statisticsBytes]
  rw [hpending] at hbuilt
  refine .ite (fun hok => insertSubmessage_charge (hdst2.trans hdst) ?_) fun _ => ?_
  · have hadded := hbuilt hok
    omega
  · have hcharge := charge_le_due s2
    change s2.charge ≤ bound
    omega

/-- A call that is refused only hands the message over, and any other one counts at most its whole
size and the statistics of two messages. -/
theorem step_charge {call : GroupCall} (h : s.charge ≤ limit)
    (hafford : s.Affordable limit (.add sender call)) :
    (s.step accepts (sender, call)).charge ≤ limit := by
  obtain ⟨n, hcosts, hwhole⟩ := costs_build sender call
  have hdue := due_le s
  have hadd : ∀ dst, s.charge + pendingBytes s.pending + call.wholeSize sender +
        2 * s.statisticsBytes ≤ limit →
      (addSubmessage accepts sender dst (call.build sender)).wp (fun _ s' => s'.charge ≤ limit)
        (fun s' => s'.charge ≤ limit) s :=
    fun dst hroom => addSubmessage_charge hcosts (by omega)
  -- The limitation is checked first where there is a payload.
  have hcheck : ∀ size dst, call.checkedSize = some size →
      (do checkLimitation accepts size; addSubmessage accepts sender dst (call.build sender)).wp
        (fun _ s' => s'.charge ≤ limit) (fun s' => s'.charge ≤ limit) s := by
    intro size dst hsize
    simp only [Affordable, hsize, Option.any_some] at hafford
    have hflush : s.due ≤ limit := hafford.elim (·.2) fun hroom => by omega
    refine wp.bind ?_
    refine .ite (fun _ => ?_) fun hpass => hadd dst (hafford.resolve_left fun hrefused =>
      hpass hrefused.1)
    exact (flushAndReset_charge hflush).seq fun _ s' h' =>
      (charge_le_due s').trans (h'.due_le.trans hflush)
  refine wp.always (I := fun s' : MessageGroup => s'.charge ≤ limit) ?_
  cases call with
  | data change own copyData expects => exact hcheck _ _ rfl
  | dataFrag change fragmentNumber own copyData expects => exact hcheck _ _ rfl
  | heartbeat firstSN lastSN count isFinal livelinessFlag | gap initialSequence bitmap
  | gapFor initialSequence bitmap readerGuid =>
    exact hadd _ (hafford.resolve_left (by simp [GroupCall.checkedSize]))
  | acknack snSet count finalFlag =>
    exact .ite (fun _ => h) fun _ => hadd _ (hafford.resolve_left (by simp [GroupCall.checkedSize]))
  | nackfrag writerSN fnState count =>
    exact hadd _ (hafford.resolve_left (by simp [GroupCall.checkedSize]))

lemma flowStep_charge (s : MessageGroup) (e : FlowEvent) (h : s.charge ≤ limit)
    (hafford : s.Affordable limit e) : (s.flowStep accepts e).charge ≤ limit := by
  cases e with
  | add sender call => exact step_charge h hafford
  | sender =>
    refine wp.always (I := fun s' : MessageGroup => s'.charge ≤ limit) ?_
    exact (flushAndReset_charge hafford).mono fun _ s' h' =>
      (charge_le_due s').trans (h'.due_le.trans hafford)

/-- While the bytes are within the limit, the fast check compares with what is left of it. Above the
limit the difference wraps, and hardly anything fails. -/
theorem fastCheck_of_charge_le (hlimit : limit < 2 ^ 31) (h : s.charge ≤ limit)
    {change : CacheChange} (hcheck : fastCheckIsThereSlotForChange limit s change = true) :
    s.currentBytesProcessed ≤ limit ∧
      change.sizeToCheck < limit - s.currentBytesProcessed := by
  have hsmall : s.charge < 2 ^ 32 := by omega
  have hprocessed : s.currentBytesProcessed = s.charge := Nat.mod_eq_of_lt hsmall
  rw [fastCheckIsThereSlotForChange, decide_eq_true_iff, hprocessed, sub32_of_le h] at hcheck
  rw [hprocessed]
  exact ⟨h, hcheck⟩

/-- In a period in which every call is refused or fits with all that it adds, the bytes that are
handed over and pending stay within the limit, and the fast check answers for what is left. -/
theorem bandwidth_within_limit (accepts : Nat → Bool) {limit : Nat} (hlimit : limit < 2 ^ 31)
    {s : MessageGroup} (hsent : s.currentSentBytes = 0) (hbuffers : s.buffersBytes = 0)
    (events : List FlowEvent)
    (hafford : RunsWith (flowStep accepts) (Affordable limit) s events) (k : Nat) :
    let s' := (events.take k).foldl (flowStep accepts) s
    s'.currentSentBytes + s'.buffersBytes ≤ limit ∧
      ∀ change, fastCheckIsThereSlotForChange limit s' change = true →
        s'.currentBytesProcessed ≤ limit ∧
          change.sizeToCheck < limit - s'.currentBytesProcessed := by
  intro s'
  have hstart : s.charge ≤ limit := by
    rw [charge, hsent, hbuffers]
    exact Nat.zero_le limit
  rw [← List.take_append_drop k events] at hafford
  have hcharge : s'.charge ≤ limit :=
    (RunsWith.append.1 hafford).1.keeps (I := fun s => s.charge ≤ limit) flowStep_charge hstart
  exact ⟨hcharge, fun change => fastCheck_of_charge_le hlimit hcharge⟩

theorem bandwidth_within_limit_small :
    let events := [FlowEvent.add (sampleSender true guidPrefixUnknown)
      (.data (sampleChange .alive 60 .unknown) [] true false), .sender]
    RunsWith (flowStep fun _ => true) (Affordable 300) (sampleGroup true 1000 300) events ∧
      let s' := (events.take 2).foldl (flowStep fun _ => true) (sampleGroup true 1000 300)
      s'.currentSentBytes + s'.buffersBytes ≤ 300 ∧
        ∀ change, fastCheckIsThereSlotForChange 300 s' change = true →
          s'.currentBytesProcessed ≤ 300 ∧
            change.sizeToCheck < 300 - s'.currentBytesProcessed := by
  intro events
  have hafford : RunsWith (flowStep fun _ => true) (Affordable 300) (sampleGroup true 1000 300)
      events := by decide +kernel
  exact ⟨hafford, bandwidth_within_limit _ (by decide) rfl rfl events hafford 2⟩

/-- A payload of 60 bytes passes a limit of 100 and makes a message of 116, after which any sample
passes the fast check, in a build with statistics and in one without. -/
theorem bandwidth_exceeded :
    let s := fun statistics => flowStep (fun _ => true) (sampleGroup statistics 1000 100)
      (.add (sampleSender true guidPrefixUnknown)
        (.data (sampleChange .alive 60 .unknown) [] true false))
    (∀ statistics, (s statistics).currentSentBytes + (s statistics).buffersBytes = 116) ∧
      ∀ statistics, fastCheckIsThereSlotForChange 100 (s statistics)
        (sampleChange .alive 1000000 .unknown).toCacheChange = true := by
  decide +kernel

end MessageGroup

end EasyDds.Rtps
