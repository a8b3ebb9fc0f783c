import EasyDds.Rtps.Writer.Ordering

/-!
The assertions of `add_change` and `from_unsent_to_status`: which calls a step of a writer makes,
and that they all find what they assert as long as no reader is announced anew as reliable.
-/

namespace EasyDds.Rtps

open List Option

/-- A call of one of the functions of a proxy that assert something, with what it finds. -/
inductive Call
  | addChange (h : WriterHistory) (r : ReaderProxy) (seqNum : Int) (isRelevant : Bool)
  | fromUnsentToStatus (r : ReaderProxy) (seqNum : Int) (status : ChangeForReaderStatus)
      (restartNackSupression : Bool)

namespace Call

/-- The assertions of `add_change`. The list has the limit of the history, so there is room for one
more entry if the history has more changes than the list. -/
def addChangeAsserts (h : WriterHistory) (r : ReaderProxy) (seqNum : Int) (isRelevant : Bool) :
    Bool :=
  decide (r.changesLowMark < seqNum) &&
    (r.changesForReader.getLast?.all fun c => decide (c.sequenceNumber < seqNum)) &&
    (!isRelevant || decide (r.changesForReader.length < h.changes.length))

def fromUnsentAsserts (r : ReaderProxy) (seqNum : Int) (status : ChangeForReaderStatus)
    (restartNackSupression : Bool) : Bool :=
  r.isReliable && (!(restartNackSupression && r.isRemoteAndReliable) || r.timersEnabled) &&
    decide (r.changesLowMark < seqNum) && decide (status ≠ .unsent) &&
    (r.findChange seqNum).any fun found =>
      decide (found.2.status = .unsent) &&
        (!decide (status = .acknowledged ∧ seqNum = r.changesLowMark + 1) || decide (found.1 = 0))

def asserts : Call → Bool
  | .addChange h r seqNum isRelevant => addChangeAsserts h r seqNum isRelevant
  | .fromUnsentToStatus r seqNum status restart => fromUnsentAsserts r seqNum status restart

end Call

namespace StatefulWriter

variable (cfg : WriterConfig)

section Calls

variable (h : WriterHistory) (change : CacheChange)

def lateJoinerCalls (h : WriterHistory) : List CacheChange → ReaderProxy → List Call
  | [], _ => []
  | change :: rest, r =>
    (if cfg.isRelevant change r.guid then [.addChange h r change.sequenceNumber true] else []) ++
      lateJoinerCalls h rest (lateJoinerEntry cfg r change)

def joinedCalls (r : ReaderProxy) : List Call :=
  if r.locality ≠ .datasharing ∧ r.isReliable ∧ h.getSeqNumMin ≠ unknownSequenceNumber ∧
      keepsHistory r.durability ∧ keepsHistory cfg.durability then
    lateJoinerCalls cfg h h.changes r
  else []

def localCalls (delivered : Bool) (r : ReaderProxy) : List Call :=
  match r.changeIsUnsent change.sequenceNumber h.getSeqNumMin with
  | none => []
  | some unsent =>
    let told := tellGap h change unsent.gapSeq r
    if !told.1.isReliable then []
    else
      [.fromUnsentToStatus told.1 change.sequenceNumber
        (if delivered then .acknowledged else .unacknowledged) false]

def datasharingCalls (r : ReaderProxy) : List Call :=
  match r.changeIsUnsent change.sequenceNumber h.getSeqNumMin with
  | none => []
  | some _ =>
    if !r.isReliable then [] else
      [.fromUnsentToStatus r change.sequenceNumber .unacknowledged false]

def allSentCalls (r : ReaderProxy) : List Call :=
  if !r.isReliable then [] else [.fromUnsentToStatus r change.sequenceNumber .underway true]

def submessageSentCalls (m : Submessage) (r : ReaderProxy) : List Call :=
  match m with
  | .data => allSentCalls change r
  | .dataFrag fragment =>
    let marked := r.markFragmentAsSentForChange change.sequenceNumber fragment
    if marked.2 then allSentCalls change marked.1 else []
  | .nothing => []

def sendTogetherCalls (m : Submessage) (outcome : Nat → SendOutcome)
    (chosen : List Nat) (readers : List ReaderProxy) (calls : Nat) : List Call :=
  if m = .nothing ∨ cfg.selectedSize (guidsAt readers chosen) = 0 then []
  else if outcome calls = .sent then
    readers.zipIdx.flatMap fun reader =>
      if reader.2 ∈ chosen then submessageSentCalls change m reader.1 else []
  else []

def sendSeparatelyCalls (h : WriterHistory) (change : CacheChange) (m : Submessage)
    (outcome : Nat → SendOutcome) : List Nat → List ReaderProxy → Nat → List Call
  | [], _, _ => []
  | i :: rest, readers, calls =>
    if m = .nothing then []
    else
      match outcome calls with
      | .sent =>
        (readers[i]?.map (submessageSentCalls change m)).getD [] ++
          sendSeparatelyCalls h change m outcome rest
            (readers.modify i (submessageSent h change m)) (calls + 1)
      | .refused => sendSeparatelyCalls h change m outcome rest readers (calls + 1)
      | .timeout => []
      | .limitExceeded => []

def passSendingCalls (outcome : Nat → SendOutcome) (w : StatefulWriter) (change : CacheChange)
    (calls : Nat) (s : Scan) : List Call :=
  let m := submessage change s.minUnsentFragment
  if s.chosen.isEmpty then []
  else if cfg.separateSendingEnabled then
    sendSeparatelyCalls w.history change m outcome s.chosen w.matchedRemoteReaders calls
  else sendTogetherCalls cfg change m outcome s.chosen w.matchedRemoteReaders calls

def networkLoopCalls (outcome : Nat → SendOutcome) (change : CacheChange) :
    Nat → StatefulWriter → Nat → List Call
  | 0, _, _ => []
  | passes + 1, w, calls =>
    let pass := networkPass cfg outcome w change calls
    passSendingCalls cfg outcome w change calls (scan w change) ++
      if pass.2.1.code = .delivered ∧ pass.2.2 ≠ wrap32 (change.fragmentCount + 1) then
        networkLoopCalls outcome change passes pass.1 pass.2.1.calls
      else []

def deliverSampleCalls (w : StatefulWriter) (sequenceNumber : Int) (delivered : Guid → Bool)
    (outcome : Nat → SendOutcome) (passes : Nat) : List Call :=
  match w.history.getChange sequenceNumber with
  | none => []
  | some change =>
    let inProcess := (w.deliverSampleToIntraprocesses change delivered).1
    let shared := inProcess.deliverSampleToDatasharing change
    w.matchedLocalReaders.flatMap (fun r => localCalls w.history change (delivered r.guid) r) ++
      inProcess.matchedDatasharingReaders.flatMap (datasharingCalls inProcess.history change) ++
      if shared.matchedRemoteReaders.isEmpty ∨ wrap32 (change.fragmentCount + 1) = 0 then []
      else networkLoopCalls cfg outcome change passes shared 0

def calls (w : StatefulWriter) : Op → List Call
  | .write kind payload sourceTimestamp fragmentSize =>
    let change := w.newChange cfg kind payload sourceTimestamp fragmentSize
    w.matchedReaders.map fun r =>
      .addChange (w.pushChange change).history r change.sequenceNumber
        (cfg.isRelevant change r.guid)
  | .matchReader info =>
    if info.guid = Guid.unknown ∨ (w.findReader info.guid).isSome then []
    else joinedCalls cfg w.history (ReaderProxy.start w.history info)
  | .deliver sequenceNumber delivered outcome passes =>
    w.deliverSampleCalls cfg sequenceNumber delivered outcome passes
  | _ => []

end Calls

end StatefulWriter

namespace ReaderProxy

variable {h : WriterHistory} {r : ReaderProxy} {seq : Int}

section Timers

def timed (r : ReaderProxy) : ReaderLocality × Bool × Bool :=
  (r.locality, r.isReliable, r.timersEnabled)

def TimersSet (r : ReaderProxy) : Prop := r.isRemoteAndReliable = true → r.timersEnabled = true

/-- A reader on another host does not become reliable later. -/
def KeepsReliability (r : ReaderProxy) (info : ReaderInfo) : Prop :=
  r.locality = .remote → info.isReliable = true → r.isReliable = true

lemma TimersSet.of_timed_eq {r' : ReaderProxy} (hr : r.TimersSet) (htimed : r'.timed = r.timed) :
    r'.TimersSet := by
  obtain ⟨hlocality, hreliable, htimers⟩ : r'.locality = r.locality ∧
      r'.isReliable = r.isReliable ∧ r'.timersEnabled = r.timersEnabled := by
    simpa [timed] using htimed
  simpa [TimersSet, isRemoteAndReliable, hlocality, hreliable, htimers] using hr

@[simp] lemma timed_ackedChangesSet : (r.ackedChangesSet h seq).timed = r.timed := by
  rw [ackedChangesSet]
  split
  · rfl
  · split
    · rw [reopen]
      split
      · rfl
      · split <;> rfl
    · rfl

@[simp] lemma timed_changeHasBeenRemoved : (r.changeHasBeenRemoved h seq).1.timed = r.timed := by
  rw [changeHasBeenRemoved]
  split
  · rfl
  · split
    · rfl
    · dsimp only
      split
      · exact timed_ackedChangesSet
      · rfl

@[simp] lemma timed_addChange {entry : ChangeForReader} {isRelevant : Bool} :
    (r.addChange entry isRelevant).timed = r.timed := by
  rw [addChange]
  split
  · rfl
  · split <;> rfl

lemma timersSet_start (h : WriterHistory) (info : ReaderInfo) : (start h info).TimersSet := by
  rw [start]
  split
  · exact id
  · refine TimersSet.of_timed_eq ?_ timed_ackedChangesSet
    exact id

lemma TimersSet.move {tame : Prop} {ok : BitmapRange Nat → Prop} {r' : ReaderProxy}
    (hr : r.TimersSet) (hmove : ReaderMove tame ok KeepsReliability h r r') : r'.TimersSet := by
  cases hmove with
  | entries => exact hr
  | acked => exact hr.of_timed_eq timed_ackedChangesSet
  | settled =>
    refine TimersSet.of_timed_eq ?_ timed_ackedChangesSet
    exact hr
  | counted => exact hr
  | @updated info hfits =>
    intro hboth
    rw [isRemoteAndReliable, Bool.and_eq_true, decide_eq_true_eq] at hboth
    refine hr ?_
    rw [isRemoteAndReliable, Bool.and_eq_true, decide_eq_true_eq]
    exact ⟨hboth.1, hfits hboth.1 hboth.2⟩

end Timers

end ReaderProxy

namespace StatefulWriter

variable {cfg : WriterConfig} {h : WriterHistory} {r : ReaderProxy}

open ReaderProxy

lemma timed_joined : (joined cfg h r).1.timed = r.timed := by
  have hfold : ∀ (changes : List CacheChange) (r : ReaderProxy),
      (changes.foldl (lateJoinerEntry cfg) r).timed = r.timed := by
    intro changes
    induction changes with
    | nil => exact fun _ => rfl
    | cons change changes ih =>
      intro r
      rw [foldl_cons, ih, lateJoinerEntry]
      split
      · exact timed_addChange
      · rfl
  rw [joined]
  split
  · rfl
  · split
    · split
      · rfl
      · split
        · exact hfold _ _
        · rfl
    · exact timed_ackedChangesSet

structure Sound (h : WriterHistory) (r : ReaderProxy) : Prop where
  ordered : r.Ordered h
  timersSet : r.TimersSet

lemma readerInvariant_sound (cfg : WriterConfig) :
    ReaderInvariant cfg True (fun _ => True) KeepsReliability Sound where
  move hh hr hmove := ⟨hr.ordered.move hh hmove, hr.timersSet.move hmove⟩
  removed seq hh hr := ⟨hr.ordered.changeHasBeenRemoved hh seq,
    hr.timersSet.of_timed_eq timed_changeHasBeenRemoved⟩
  wrote hh _ hr hnumber := ⟨ordered_addForReader hh hr.ordered hnumber,
    hr.timersSet.of_timed_eq timed_addChange⟩
  joined info hh := ⟨ordered_joined hh info, (timersSet_start _ info).of_timed_eq timed_joined⟩

section Adding

/-- A proxy in order takes the next change of the history. -/
theorem addChangeAsserts_of_ordered (hr : r.Ordered h) {change : CacheChange}
    (hmem : change ∈ h.changes) (hlow : r.changesLowMark < change.sequenceNumber)
    (hlast : ∀ c ∈ r.changesForReader, c.sequenceNumber < change.sequenceNumber)
    (isRelevant : Bool) : Call.addChangeAsserts h r change.sequenceNumber isRelevant = true := by
  have hlength : r.changesForReader.length < h.changes.length := by
    have hnodup : (change.sequenceNumber :: r.changesForReader.map (·.sequenceNumber)).Nodup := by
      rw [nodup_cons, List.mem_map]
      refine ⟨?_, (pairwise_map.mpr hr.increasing).imp fun hab => by omega⟩
      rintro ⟨c, hc, heq⟩
      have hlt := hlast c hc
      omega
    have hsub : (change.sequenceNumber :: r.changesForReader.map (·.sequenceNumber)) ⊆
        h.changes.map (·.sequenceNumber) := by
      intro n hn
      rcases mem_cons.mp hn with rfl | hn
      · exact mem_map_of_mem hmem
      · obtain ⟨c, hc, rfl⟩ := mem_map.mp hn
        obtain ⟨old, hold, heq⟩ := hr.present c hc
        exact mem_map.mpr ⟨old, hold, heq⟩
    have hle := (hnodup.subperm hsub).length_le
    rwa [length_cons, length_map, length_map] at hle
  have hall : (r.changesForReader.getLast?.all fun c =>
      decide (c.sequenceNumber < change.sequenceNumber)) = true := by
    rw [Option.all_eq_true]
    intro c hc
    exact decide_eq_true (hlast c (mem_of_getLast? hc))
  simp [Call.addChangeAsserts, hlow, hall, hlength]

lemma asserts_lateJoinerCalls (hh : HistoryOrdered cfg h) {changes : List CacheChange}
    (hr : Joining h changes r) : ∀ call ∈ lateJoinerCalls cfg h changes r, call.asserts = true := by
  induction changes generalizing r with
  | nil => simp [lateJoinerCalls]
  | cons change changes ih =>
    intro call hcall
    rcases mem_append.mp hcall with hfirst | hrest
    · split at hfirst
      · rw [mem_singleton.mp hfirst]
        exact addChangeAsserts_of_ordered hr.ordered (hr.sublist.mem mem_cons_self)
          (hr.lowMark change mem_cons_self) (hr.last change mem_cons_self) true
      · cases hfirst
    · exact ih (hr.step hh) call hrest

lemma asserts_joinedCalls (hh : HistoryOrdered cfg h) (info : ReaderInfo) :
    ∀ call ∈ joinedCalls cfg h (start h info), call.asserts = true := by
  rw [joinedCalls]
  split
  · exact asserts_lateJoinerCalls hh (joining_start hh info)
  · simp

lemma asserts_written {change : CacheChange} (hh : HistoryOrdered cfg h) (hr : r.Ordered h)
    (hnumber : change.sequenceNumber = h.nextSequenceNumber) (isRelevant : Bool) :
    (Call.addChange (withChange h change) r change.sequenceNumber isRelevant).asserts = true := by
  have hlow := hr.lowMark
  refine addChangeAsserts_of_ordered (hr.withChange change) (by simp [withChange]) (by omega)
    (fun c hc => ?_) isRelevant
  obtain ⟨old, hold, heq⟩ := hr.present c hc
  have hlt := hh.lt_next hold
  omega

end Adding

section Delivering

variable {seq : Int} {change : CacheChange} {status : ChangeForReaderStatus}

def Unsent (seq : Int) (r : ReaderProxy) : Prop :=
  ∃ c ∈ r.changesForReader, c.sequenceNumber = seq ∧ c.status = .unsent

lemma entry_of_changeIsUnsent {minSeq : Int} {unsent : UnsentChange}
    (hunsent : r.changeIsUnsent seq minSeq = some unsent) :
    ∃ position c, r.changesForReader[position]? = some c ∧ c.sequenceNumber = seq ∧
      c.status = .unsent ∧ (unsent.gapSeq = unknownSequenceNumber ∨
        unsent.gapSeq = gapBefore (r.afterPrevious position) seq minSeq) := by
  rw [changeIsUnsent] at hunsent
  split at hunsent
  · cases hunsent
  · split at hunsent
    · cases hunsent
    · rename_i position c hfind
      obtain ⟨hget, hnumber⟩ := getElem?_of_findChange hfind
      split at hunsent
      · obtain rfl := Option.some.inj hunsent
        exact ⟨position, c, hget, hnumber, ‹_›, (ite_eq_or_eq ..).symm⟩
      · cases hunsent

lemma unsent_of_changeIsUnsent {minSeq : Int} {unsent : UnsentChange}
    (hunsent : r.changeIsUnsent seq minSeq = some unsent) : Unsent seq r := by
  obtain ⟨position, c, hget, hnumber, hstatus, -⟩ := entry_of_changeIsUnsent hunsent
  exact ⟨c, mem_of_getElem? hget, hnumber, hstatus⟩

/-- An entry right above the low mark is the first one. -/
theorem position_eq_zero (hr : r.Sorted) {position : Nat} {c : ChangeForReader}
    (hget : r.changesForReader[position]? = some c)
    (hnext : c.sequenceNumber = r.changesLowMark + 1) : position = 0 := by
  by_contra hne
  obtain ⟨hlt, rfl⟩ := List.getElem?_eq_some_iff.mp hget
  have hfirst := hr.above _ (getElem_mem (show 0 < r.changesForReader.length by omega))
  have hless := pairwise_iff_getElem.mp hr.increasing 0 position (by omega) hlt (by omega)
  omega

lemma fromUnsentAsserts_of_unsent (hr : r.Sorted) (htimers : r.TimersSet)
    (hreliable : r.isReliable = true) (hunsent : Unsent seq r) (hstatus : status ≠ .unsent)
    (restart : Bool) : Call.fromUnsentAsserts r seq status restart = true := by
  obtain ⟨c, hc, rfl, hstate⟩ := hunsent
  obtain ⟨position, hget⟩ := getElem?_of_mem hc
  have hfind := hr.findChange_eq_some.mpr ⟨hget, rfl⟩
  have hlow := hr.above c hc
  have hset : r.isRemoteAndReliable = true → r.timersEnabled = true := htimers
  have hfirst := position_eq_zero hr hget
  have htimed : (!(restart && r.isRemoteAndReliable) || r.timersEnabled) = true := by
    cases restart <;> cases hboth : r.isRemoteAndReliable <;> simp_all
  rw [Call.fromUnsentAsserts, hfind, hreliable, htimed]
  simp only [Bool.true_and, Bool.and_eq_true, decide_eq_true_eq, any_some, Bool.or_eq_true,
    Bool.not_eq_true', decide_eq_false_iff_not]
  exact ⟨⟨hlow, hstatus⟩, hstate, (em _).symm.imp_right fun hsettled => hfirst hsettled.2⟩

lemma tellGap_keeps (hr : Sound h r) (hunsent : Unsent change.sequenceNumber r) (gapSeq : Int) :
    (tellGap h change gapSeq r).1.Sorted ∧ (tellGap h change gapSeq r).1.TimersSet ∧
      Unsent change.sequenceNumber (tellGap h change gapSeq r).1 := by
  rw [tellGap]
  split
  · obtain ⟨c, hc, hnumber, hstate⟩ := hunsent
    have hlow := hr.ordered.above c hc
    have hacked : Acked r (r.ackedChangesSet h change.sequenceNumber) _ :=
      hr.ordered.acked (by omega)
    refine ⟨hacked.sorted, hr.timersSet.of_timed_eq timed_ackedChangesSet, c, ?_, hnumber, hstate⟩
    rcases hacked.passed c hc (by omega) with hkept | hdone
    · exact hkept
    · rw [hstate] at hdone
      cases hdone
  · exact ⟨hr.ordered.toSorted, hr.timersSet, hunsent⟩

lemma asserts_localCalls (hr : Sound h r) (delivered : Bool) :
    ∀ call ∈ localCalls h change delivered r, call.asserts = true := by
  rw [localCalls]
  split
  · simp
  · rename_i unsent hunsent
    obtain ⟨hsorted, htimers, hstill⟩ :=
      tellGap_keeps hr (unsent_of_changeIsUnsent hunsent) unsent.gapSeq
    dsimp only
    split
    · simp
    · rename_i hreliable
      intro call hcall
      rw [mem_singleton.mp hcall]
      refine fromUnsentAsserts_of_unsent hsorted htimers (by simpa using hreliable) hstill ?_ false
      split <;> simp

lemma asserts_datasharingCalls (hr : Sound h r) :
    ∀ call ∈ datasharingCalls h change r, call.asserts = true := by
  rw [datasharingCalls]
  split
  · simp
  · rename_i unsent hunsent
    split
    · simp
    · rename_i hreliable
      intro call hcall
      rw [mem_singleton.mp hcall]
      exact fromUnsentAsserts_of_unsent hr.ordered.toSorted hr.timersSet (by simpa using hreliable)
        (unsent_of_changeIsUnsent hunsent) (by simp) false

lemma asserts_allSentCalls (hr : r.Sorted) (htimers : r.TimersSet)
    (hunsent : Unsent change.sequenceNumber r) :
    ∀ call ∈ allSentCalls change r, call.asserts = true := by
  rw [allSentCalls]
  split
  · simp
  · rename_i hreliable
    intro call hcall
    rw [mem_singleton.mp hcall]
    exact fromUnsentAsserts_of_unsent hr htimers (by simpa using hreliable) hunsent (by simp) true

/-- A fragment that is marked as sent leaves the rest of the change to be sent. -/
theorem markFragment_keeps (hr : r.Sorted) (htimers : r.TimersSet) (hunsent : Unsent seq r)
    (fragment : Nat) : (r.markFragmentAsSentForChange seq fragment).1.Sorted ∧
      (r.markFragmentAsSentForChange seq fragment).1.TimersSet ∧
      Unsent seq (r.markFragmentAsSentForChange seq fragment).1 := by
  rw [markFragmentAsSentForChange]
  split
  · exact ⟨hr, htimers, hunsent⟩
  · split
    · exact ⟨hr, htimers, hunsent⟩
    · rename_i position d hfind
      refine ⟨hr.modifyChange position fun c => c.sequenceNumber_markFragmentsAsSent fragment,
        htimers, ?_⟩
      obtain ⟨c, hc, hnumber, hstate⟩ := hunsent
      obtain ⟨i, hi⟩ := getElem?_of_mem hc
      have hmoved : (r.modifyChange position
          fun c => c.markFragmentsAsSent fragment).changesForReader[i]? =
            some (if position = i then c.markFragmentsAsSent fragment else c) := by
        rw [modifyChange, getElem?_modify, hi]
        rfl
      refine ⟨_, mem_of_getElem? hmoved, ?_⟩
      split
      · simp [hnumber, hstate]
      · exact ⟨hnumber, hstate⟩

lemma asserts_submessageSentCalls (hr : r.Sorted) (htimers : r.TimersSet)
    (hunsent : Unsent change.sequenceNumber r) (m : Submessage) :
    ∀ call ∈ submessageSentCalls change m r, call.asserts = true := by
  cases m with
  | data => exact asserts_allSentCalls hr htimers hunsent
  | dataFrag fragment =>
    obtain ⟨hsorted, hset, hstill⟩ := markFragment_keeps hr htimers hunsent fragment
    rw [submessageSentCalls]
    split
    · exact asserts_allSentCalls hsorted hset hstill
    · simp
  | nothing => simp [submessageSentCalls]

end Delivering

section Network

variable {change : CacheChange}

/-- The readers chosen so far: each of them at its own position, and with the change unsent. -/
structure Chosen (readers : List ReaderProxy) (seq : Int) (chosen : List Nat) : Prop where
  increasing : chosen.Pairwise (· < ·)
  unsent : ∀ i ∈ chosen, ∃ r, readers[i]? = some r ∧ Unsent seq r

lemma chosen_scanGap (guid : Guid) (gapSeq : Int) (s : Scan) :
    (scanGap h change guid gapSeq s).chosen = s.chosen := by
  rw [scanGap]
  split <;> rfl

variable {readers : List ReaderProxy} {w : StatefulWriter}

lemma Chosen.scanReader {s : Scan} {position : Nat}
    (hs : Chosen readers change.sequenceNumber s.chosen) (hget : readers[position]? = some r)
    (hbelow : ∀ i ∈ s.chosen, i < position) :
    Chosen readers change.sequenceNumber (scanReader h change s (r, position)).chosen ∧
      ∀ i ∈ (StatefulWriter.scanReader h change s (r, position)).chosen, i < position + 1 := by
  have hold : ∀ i ∈ s.chosen, i < position + 1 := fun i hi => by
    have hlt := hbelow i hi
    omega
  rw [StatefulWriter.scanReader]
  split
  · exact ⟨hs, hold⟩
  · rename_i unsent hunsent
    have hthis := unsent_of_changeIsUnsent hunsent
    split
    · rw [chosen_scanGap]
      split
      · exact ⟨⟨pairwise_singleton _ _, by simpa using ⟨r, hget, hthis⟩⟩, by simp⟩
      · refine ⟨⟨?_, ?_⟩, ?_⟩
        · refine pairwise_append.mpr ⟨hs.increasing, pairwise_singleton _ _, ?_⟩
          simpa using hbelow
        · rw [forall_mem_append]
          exact ⟨hs.unsent, by simpa using ⟨r, hget, hthis⟩⟩
        · rw [forall_mem_append]
          exact ⟨hold, by simp⟩
    · exact ⟨hs, hold⟩

lemma chosen_scan (w : StatefulWriter) (change : CacheChange) :
    Chosen w.matchedRemoteReaders change.sequenceNumber (scan w change).chosen := by
  have hfold : ∀ (seen rest : List ReaderProxy) (s : Scan), w.matchedRemoteReaders = seen ++ rest →
      Chosen w.matchedRemoteReaders change.sequenceNumber s.chosen →
      (∀ i ∈ s.chosen, i < seen.length) → Chosen w.matchedRemoteReaders change.sequenceNumber
        ((rest.zipIdx seen.length).foldl (scanReader w.history change) s).chosen := by
    intro seen rest
    induction rest generalizing seen with
    | nil => exact fun s _ hs _ => hs
    | cons r rest ih =>
      intro s heq hs hbelow
      rw [zipIdx_cons, foldl_cons]
      have hget : w.matchedRemoteReaders[seen.length]? = some r := by simp [heq]
      obtain ⟨hnext, hbelow'⟩ := hs.scanReader (h := w.history) hget hbelow
      have hlength : (seen ++ [r]).length = seen.length + 1 := by simp
      rw [← hlength] at hbelow' ⊢
      exact ih (seen ++ [r]) _ (by simp [heq]) hnext hbelow'
  exact hfold [] _ _ rfl ⟨.nil, by simp⟩ (by simp)

lemma asserts_sendTogetherCalls {chosen : List Nat} (hreaders : ∀ r ∈ readers, Sound h r)
    (hchosen : Chosen readers change.sequenceNumber chosen) (m : Submessage)
    (outcome : Nat → SendOutcome) (calls : Nat) :
    ∀ call ∈ sendTogetherCalls cfg change m outcome chosen readers calls, call.asserts = true := by
  rw [sendTogetherCalls]
  split
  · simp
  · split
    · intro call hcall
      obtain ⟨⟨r, i⟩, hr, hcall⟩ := mem_flatMap.mp hcall
      split at hcall
      · rename_i hi
        have hget : readers[i]? = some r := mem_zipIdx_iff_getElem?.mp hr
        have hsound := hreaders r (mem_of_getElem? hget)
        obtain ⟨r', hget', hunsent⟩ := hchosen.unsent i hi
        obtain rfl : r = r' := some.inj (hget.symm.trans hget')
        exact asserts_submessageSentCalls hsound.ordered.toSorted hsound.timersSet hunsent m call
          hcall
      · cases hcall
    · simp

/-- The loop changes the readers it has come to; those ahead are as they were. -/
theorem asserts_sendSeparatelyCalls {current : List ReaderProxy} {chosen : List Nat}
    (hreaders : ∀ r ∈ readers, Sound h r) (hchosen : Chosen readers change.sequenceNumber chosen)
    (hcurrent : ∀ i ∈ chosen, current[i]? = readers[i]?) (m : Submessage)
    (outcome : Nat → SendOutcome) (calls : Nat) :
    ∀ call ∈ sendSeparatelyCalls h change m outcome chosen current calls, call.asserts = true := by
  induction chosen generalizing current calls with
  | nil => simp [sendSeparatelyCalls]
  | cons i rest ih =>
    obtain ⟨hincreasing, hunsent⟩ := hchosen
    rw [pairwise_cons] at hincreasing
    rw [forall_mem_cons] at hunsent hcurrent
    have hrest : Chosen readers change.sequenceNumber rest := ⟨hincreasing.2, hunsent.2⟩
    rw [sendSeparatelyCalls]
    split
    · simp
    · split
      · intro call hcall
        rcases mem_append.mp hcall with hfirst | hlater
        · obtain ⟨r, hget, hthis⟩ := hunsent.1
          have hsound := hreaders r (mem_of_getElem? hget)
          rw [hcurrent.1, hget] at hfirst
          exact asserts_submessageSentCalls hsound.ordered.toSorted hsound.timersSet hthis m call
            hfirst
        · refine ih hrest (fun j hj => ?_) _ call hlater
          have hne : i ≠ j := Nat.ne_of_lt (hincreasing.1 j hj)
          rw [getElem?_modify_ne _ _ hne]
          exact hcurrent.2 j hj
      · exact ih hrest hcurrent.2 _
      · simp
      · simp

lemma asserts_passSendingCalls (outcome : Nat → SendOutcome) (hw : Kept cfg Sound w) (calls : Nat) :
    ∀ call ∈ passSendingCalls cfg outcome w change calls (scan w change),
      call.asserts = true := by
  have hreaders : ∀ r ∈ w.matchedRemoteReaders, Sound w.history r := fun r hr =>
    hw.2 r (mem_append_right _ hr)
  have hchosen := chosen_scan w change
  rw [passSendingCalls]
  split
  · simp
  · split
    · exact asserts_sendSeparatelyCalls hreaders hchosen (fun _ _ => rfl) _ _ _
    · exact asserts_sendTogetherCalls hreaders hchosen _ _ _

lemma asserts_networkLoopCalls (outcome : Nat → SendOutcome) (hmem : change ∈ w.history.changes)
    (hw : Kept cfg Sound w) (passes calls : Nat) :
    ∀ call ∈ networkLoopCalls cfg outcome change passes w calls, call.asserts = true := by
  induction passes generalizing w calls with
  | zero => simp [networkLoopCalls]
  | succ passes ih =>
    intro call hcall
    rcases mem_append.mp hcall with hfirst | hlater
    · exact asserts_passSendingCalls outcome hw calls call hfirst
    · split at hlater
      · have hpass := (readerInvariant_sound cfg).step_moves
          (moves_networkPass outcome hmem calls) hw
        exact ih (w := (networkPass cfg outcome w change calls).1) hmem hpass _ call hlater
      · cases hlater

lemma asserts_deliverSampleCalls (hw : Kept cfg Sound w) (seq : Int) (delivered : Guid → Bool)
    (outcome : Nat → SendOutcome) (passes : Nat) :
    ∀ call ∈ w.deliverSampleCalls cfg seq delivered outcome passes, call.asserts = true := by
  rw [deliverSampleCalls]
  split
  · simp
  · rename_i change hget
    have hmem := mem_of_getChange hget
    have hinv := readerInvariant_sound cfg
    have hlocal := hinv.step_moves (moves_deliverSampleToIntraprocesses hmem delivered) hw
    have hshared := hinv.step_moves (moves_deliverSampleInside hmem delivered) hw
    intro call hcall
    rw [mem_append, mem_append, mem_flatMap, mem_flatMap] at hcall
    obtain (⟨r, hr, hcall⟩ | ⟨r, hr, hcall⟩) | hcall := hcall
    · exact asserts_localCalls (hw.2 r (mem_append_left _ (mem_append_left _ hr))) _ call hcall
    · exact asserts_datasharingCalls
        (hlocal.2 r (mem_append_left _ (mem_append_right _ hr))) call hcall
    · split at hcall
      · cases hcall
      · refine asserts_networkLoopCalls outcome ?_ hshared passes 0 call hcall
        exact hmem

end Network

section Runs

/-- A step after which the proxies are in order, with their timers set: the timer for positive
acknowledgements finds a number that has been written, and no reader on another host is announced
anew as reliable after it was not. -/
def Regular (w : StatefulWriter) (op : Op) : Prop := w.Tame op ∧ w.Announces KeepsReliability op

lemma asserts_calls {w : StatefulWriter} (hw : Kept cfg Sound w) (op : Op) :
    ∀ call ∈ w.calls cfg op, call.asserts = true := by
  cases op with
  | write kind payload sourceTimestamp fragmentSize =>
    intro call hcall
    obtain ⟨r, hr, rfl⟩ := mem_map.mp hcall
    exact asserts_written hw.1 (hw.2 r hr).ordered rfl _
  | matchReader info =>
    rw [calls]
    split
    · simp
    · exact asserts_joinedCalls hw.1 info
  | deliver seq delivered outcome passes => exact asserts_deliverSampleCalls hw seq _ _ _
  | remove => simp [calls]
  | unmatchReader => simp [calls]
  | acknack => simp [calls]
  | nackFrag => simp [calls]
  | nackResponse => simp [calls]
  | nackSupression => simp [calls]
  | ackTimer => simp [calls]

lemma Kept.step {w : StatefulWriter} {op : Op} (hw : Kept cfg Sound w) (hop : w.Regular op) :
    Kept cfg Sound (step cfg w op).1 := by
  have hasks : op.Asks fun _ => True := by cases op <;> trivial
  exact (readerInvariant_sound cfg).step_moves (moves_step op (fun _ => hop.1) hasks hop.2) hw

lemma kept_initial (cfg : WriterConfig) : Kept cfg Sound (initial cfg) :=
  ⟨historyOrdered_initial cfg, by simp [initial, matchedReaders]⟩

/-- In every run of regular steps the proxies stay in order, and no assertion of `add_change` or
`from_unsent_to_status` fails. -/
theorem proxies_ordered (cfg : WriterConfig) (ops : List Op)
    (hrun : RunsWith (fun w op => (step cfg w op).1) Regular (initial cfg) ops) :
    (∀ r ∈ (run cfg (initial cfg) ops).matchedReaders,
        r.Ordered (run cfg (initial cfg) ops).history) ∧
      RunsWith (fun w op => (step cfg w op).1)
        (fun w op => ∀ call ∈ w.calls cfg op, call.asserts = true) (initial cfg) ops := by
  constructor
  · have hkept : Kept cfg Sound (run cfg (initial cfg) ops) :=
      hrun.keeps (fun w op hw hop => hw.step hop) (kept_initial cfg)
    exact fun r hr => (hkept.2 r hr).ordered
  · exact hrun.imp_of_keeps (fun w op hw hop => hw.step hop) (fun w op hw _ => asserts_calls hw op)
      (kept_initial cfg)

def acknowledgedRun : List Op :=
  [.matchReader sampleReader, sampleWrite 4 0, .deliver 1 (fun _ => false) (fun _ => .sent) 1,
    .acknack (sampleAcknack (BitmapRange.setBase 2)), sampleWrite 4 0]

theorem proxies_ordered_acknowledged :
    RunsWith (fun w op => (step sampleWriter w op).1) Regular (initial sampleWriter)
        acknowledgedRun ∧
      ∀ r ∈ (run sampleWriter (initial sampleWriter) acknowledgedRun).matchedReaders,
        r.Ordered (run sampleWriter (initial sampleWriter) acknowledgedRun).history := by
  have hrun : RunsWith (fun w op => (step sampleWriter w op).1) Regular (initial sampleWriter)
      acknowledgedRun := by
    refine ⟨⟨trivial, fun r hr => ?_⟩, ⟨trivial, trivial⟩, ⟨trivial, trivial⟩, ⟨trivial, trivial⟩,
      ⟨trivial, trivial⟩, trivial⟩
    cases hr
  exact ⟨hrun, (proxies_ordered sampleWriter acknowledgedRun hrun).1⟩

def announcedAnew : List Op :=
  [.matchReader { sampleReader with isReliable := false }, .matchReader sampleReader,
    sampleWrite 4 0]

def ackTimerWriter : WriterConfig := { sampleWriter with disablePositiveAcks := true }

def idleTimer : List Op :=
  [.matchReader { sampleReader with disablePositiveAcks := true }, sampleWrite 4 0,
    .deliver 1 (fun _ => false) (fun _ => .sent) 1, .ackTimer, .ackTimer]

/-- The timers of a reader that becomes reliable are not set, which is asserted when a change is
sent to it. And the timer of an idle writer carries the low mark to the next number, so that the
assertion of `add_change` fails with the next change. -/
theorem assertions_fail :
    (∃ call ∈ (run sampleWriter (initial sampleWriter) announcedAnew).calls sampleWriter
        (.deliver 1 (fun _ => false) (fun _ => .sent) 1), call.asserts = false) ∧
      (∃ r ∈ (run ackTimerWriter (initial ackTimerWriter) idleTimer).matchedReaders,
        ¬ r.changesLowMark <
          (run ackTimerWriter (initial ackTimerWriter) idleTimer).nextSequenceNumber) ∧
      ∃ call ∈ (run ackTimerWriter (initial ackTimerWriter) idleTimer).calls ackTimerWriter
        (sampleWrite 4 0), call.asserts = false := by
  refine ⟨?_, ?_, ?_⟩
  · decide
  · decide
  · decide

end Runs

end StatefulWriter

end EasyDds.Rtps
