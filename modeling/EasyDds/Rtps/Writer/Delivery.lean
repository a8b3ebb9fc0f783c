import EasyDds.Rtps.Writer.StatefulWriter

/-!
Delivery of one change to the matched readers, `deliver_sample_nts` and what it calls, and the runs
of a writer.
-/

namespace EasyDds.Rtps.StatefulWriter

variable (cfg : WriterConfig)

variable (outcome : Nat → SendOutcome) (h : WriterHistory) (change : CacheChange)

section Local

def tellGap (gapSeq : Int) (r : ReaderProxy) : ReaderProxy × List Output :=
  if gapSeq ≠ unknownSequenceNumber then
    (r.ackedChangesSet h change.sequenceNumber,
      [.gap (some r.guid) (Gap.ofRange gapSeq change.sequenceNumber)])
  else (r, [])

def deliverToLocal (delivered : Bool) (r : ReaderProxy) : ReaderProxy × List Output :=
  match r.changeIsUnsent change.sequenceNumber h.getSeqNumMin with
  | none => (r, [])
  | some unsent =>
    let told := tellGap h change unsent.gapSeq r
    if !told.1.isReliable then
      (told.1.ackedChangesSet h (change.sequenceNumber + 1), told.2)
    else
      (told.1.fromUnsentToStatus h change.sequenceNumber
        (if delivered then .acknowledged else .unacknowledged) delivered, told.2)

def deliverSampleToIntraprocesses (w : StatefulWriter) (change : CacheChange)
    (delivered : Guid → Bool) : StatefulWriter × List Output :=
  let results := w.matchedLocalReaders.map fun r =>
    deliverToLocal w.history change (delivered r.guid) r
  ({ w with matchedLocalReaders := results.map (·.1) }, results.flatMap (·.2))

def deliverToDatasharing (r : ReaderProxy) : ReaderProxy :=
  match r.changeIsUnsent change.sequenceNumber h.getSeqNumMin with
  | none => r
  | some _ =>
    if !r.isReliable then r.ackedChangesSet h (change.sequenceNumber + 1)
    else r.fromUnsentToStatus h change.sequenceNumber .unacknowledged true

def deliverSampleToDatasharing (w : StatefulWriter) (change : CacheChange) : StatefulWriter :=
  { w with
    matchedDatasharingReaders :=
      w.matchedDatasharingReaders.map (deliverToDatasharing w.history change) }

end Local

section Network

/-- The loop over the remote readers at the start of a pass. `chosen` are the positions of the
readers that are active from `first_relevant_reader` on, which are the ones enabled in the locator
selector. -/
structure Scan where
  minUnsentFragment : Nat
  chosen : List Nat
  gapSeqForAll : Int
  gaps : List Output

def isHistoryHole (gapSeq : Int) : Bool :=
  let position := h.changes.findIdx fun c => decide (c.sequenceNumber = change.sequenceNumber)
  if position = 0 then true
  else (h.changes[position - 1]?).any fun c => decide (c.sequenceNumber + 1 = gapSeq)

def scanGap (guid : Guid) (gapSeq : Int) (s : Scan) : Scan :=
  if gapSeq = unknownSequenceNumber then s
  else
    let forAll :=
      if s.gapSeqForAll = unknownSequenceNumber then
        if isHistoryHole h change gapSeq then gapSeq else unknownSequenceNumber
      else s.gapSeqForAll
    { s with
      gapSeqForAll := forAll
      gaps :=
        if forAll ≠ gapSeq then
          s.gaps ++ [.gap (some guid) (Gap.ofRange gapSeq change.sequenceNumber)]
        else s.gaps }

def scanReader (s : Scan) (reader : ReaderProxy × Nat) : Scan :=
  match reader.1.changeIsUnsent change.sequenceNumber h.getSeqNumMin with
  | none => s
  | some unsent =>
    if change.fragmentCount = 0 ∨ unsent.nextUnsentFrag ≤ s.minUnsentFragment then
      let selected :=
        if unsent.nextUnsentFrag < s.minUnsentFragment then
          { s with minUnsentFragment := unsent.nextUnsentFrag, chosen := [reader.2] }
        else { s with chosen := s.chosen ++ [reader.2] }
      scanGap h change reader.1.guid unsent.gapSeq selected
    else s

/-- The loop over all remote readers. -/
def scan (w : StatefulWriter) (change : CacheChange) : Scan :=
  w.matchedRemoteReaders.zipIdx.foldl (scanReader w.history change)
    ⟨wrap32 (change.fragmentCount + 1), [], unknownSequenceNumber, []⟩

def guidsAt (readers : List ReaderProxy) (positions : List Nat) : List Guid :=
  positions.filterMap fun i => readers[i]?.map (·.guid)

def allSent (r : ReaderProxy) : ReaderProxy :=
  if !r.isReliable then r.ackedChangesSet h (change.sequenceNumber + 1)
  else r.fromUnsentToStatus h change.sequenceNumber .underway true

def fragmentSent (fragment : Nat) (r : ReaderProxy) : ReaderProxy :=
  let marked := r.markFragmentAsSentForChange change.sequenceNumber fragment
  if marked.2 then allSent h change marked.1 else marked.1

/-- What a pass sends: the change as a whole, one of its fragments, or nothing when all of them
have been sent. -/
inductive Submessage
  | data
  | dataFrag (fragment : Nat)
  | nothing
deriving DecidableEq

def submessage (minUnsentFragment : Nat) : Submessage :=
  if change.fragmentCount = 0 then .data
  else if minUnsentFragment = wrap32 (change.fragmentCount + 1) then .nothing
  else .dataFrag minUnsentFragment

def submessageSent (m : Submessage) (r : ReaderProxy) : ReaderProxy :=
  match m with
  | .data => allSent h change r
  | .dataFrag fragment => fragmentSent h change fragment r
  | .nothing => r

def submessageOutput : Submessage → List Output
  | .data => [.data change.sequenceNumber]
  | .dataFrag fragment => [.dataFrag change fragment]
  | .nothing => []

def retCode : SendOutcome → DeliveryRetCode
  | .sent => .delivered
  | .refused => .notDelivered
  | .timeout => .notDelivered
  | .limitExceeded => .exceededLimit

structure Sending where
  readers : List ReaderProxy
  calls : Nat
  outputs : List Output
  code : DeliveryRetCode

/-- One message for all chosen readers. Without a selected locator nothing is sent, and no reader is
told that it was. -/
def sendTogether (m : Submessage)
    (outcome : Nat → SendOutcome) (chosen : List Nat) (readers : List ReaderProxy) (calls : Nat) :
    Sending :=
  if m = .nothing ∨ cfg.selectedSize (guidsAt readers chosen) = 0 then
    ⟨readers, calls, [], .delivered⟩
  else
    let informed :=
      if outcome calls = .sent then
        readers.mapIdx fun i r => if i ∈ chosen then submessageSent h change m r else r
      else readers
    ⟨informed, calls + 1, submessageOutput change m, retCode (outcome calls)⟩

/-- One message for each chosen reader. A call that throws ends the loop. -/
def sendSeparately (h : WriterHistory) (change : CacheChange) (m : Submessage)
    (outcome : Nat → SendOutcome) : List Nat → Sending → Sending
  | [], s => s
  | i :: rest, s =>
    if m = .nothing then s
    else
      let called :=
        { s with calls := s.calls + 1, outputs := s.outputs ++ submessageOutput change m }
      match outcome s.calls with
      | .sent =>
        sendSeparately h change m outcome rest
          { called with readers := s.readers.modify i (submessageSent h change m) }
      | .refused => sendSeparately h change m outcome rest { called with code := .notDelivered }
      | .timeout => { called with code := .notDelivered }
      | .limitExceeded => { called with code := .exceededLimit }

def passSending (w : StatefulWriter) (change : CacheChange) (calls : Nat) (s : Scan) : Sending :=
  let m := submessage change s.minUnsentFragment
  if s.chosen.isEmpty then ⟨w.matchedRemoteReaders, calls, [], .delivered⟩
  else if cfg.separateSendingEnabled then
    sendSeparately w.history change m outcome s.chosen
      ⟨w.matchedRemoteReaders, calls, [], .delivered⟩
  else sendTogether cfg w.history change m outcome s.chosen w.matchedRemoteReaders calls

def globalGap (s : Scan) : List Output :=
  if s.gapSeqForAll ≠ unknownSequenceNumber then
    [.gap none (Gap.ofRange s.gapSeqForAll change.sequenceNumber)]
  else []

/-- One pass of the loop of `deliver_sample_to_network`, with the fragment it was about. -/
def networkPass (w : StatefulWriter) (change : CacheChange)
    (calls : Nat) : StatefulWriter × Sending × Nat :=
  let s := scan w change
  let sending := passSending cfg outcome w change calls s
  ({ w with
      matchedRemoteReaders := sending.readers
      lastSequenceNumber :=
        if cfg.disablePositiveAcks ∧ w.lastSequenceNumber = 0 then change.sequenceNumber
        else w.lastSequenceNumber },
    { sending with outputs := s.gaps ++ globalGap change s ++ sending.outputs },
    s.minUnsentFragment)

/-- The loop of `deliver_sample_to_network`: whether it ended within the given passes, the state
and the outputs so far, and the code. -/
def networkLoop (outcome : Nat → SendOutcome) (change : CacheChange) :
    Nat → StatefulWriter → Nat → Bool × StatefulWriter × List Output × DeliveryRetCode
  | 0, w, _ => (false, w, [], .delivered)
  | passes + 1, w, calls =>
    let pass := networkPass cfg outcome w change calls
    if pass.2.1.code = .delivered ∧ pass.2.2 ≠ wrap32 (change.fragmentCount + 1) then
      let rest := networkLoop outcome change passes pass.1 pass.2.1.calls
      (rest.1, rest.2.1, pass.2.1.outputs ++ rest.2.2.1, rest.2.2.2)
    else (true, pass.1, pass.2.1.outputs, pass.2.1.code)

/-- `deliver_sample_to_network`. It is not called without remote readers, and the loop is not
entered when the number of fragments plus one wraps to zero. -/
def deliverSampleToNetwork (passes : Nat) (w : StatefulWriter)
    (change : CacheChange) : Bool × StatefulWriter × List Output × DeliveryRetCode :=
  if w.matchedRemoteReaders.isEmpty ∨ wrap32 (change.fragmentCount + 1) = 0 then
    (true, w, [], .delivered)
  else networkLoop cfg outcome change passes w 0

end Network

section Runs

/-- The steps of a writer. The timer for positive acknowledgements that are not sent may run out at
any time, as `update_positive_acks_times` restarts it. A delivery says how the local readers and the
calls to the network answer, and how many passes its loop has made. -/
inductive Op
  | write (kind : ChangeKind) (payload : SerializedPayload) (sourceTimestamp : Time)
      (fragmentSize : Nat)
  | remove (sequenceNumber : Int)
  | matchReader (info : ReaderInfo)
  | unmatchReader (guid : Guid)
  | acknack (message : Acknack)
  | nackFrag (writerGuid readerGuid : Guid) (ackCount : Nat) (sequenceNumber : Int)
      (fragments : BitmapRange Nat)
  | nackResponse
  | nackSupression (guid : Guid)
  | ackTimer
  | deliver (sequenceNumber : Int) (delivered : Guid → Bool) (outcome : Nat → SendOutcome)
      (passes : Nat)

def deliverSample (w : StatefulWriter) (sequenceNumber : Int) (delivered : Guid → Bool)
    (outcome : Nat → SendOutcome) (passes : Nat) : StatefulWriter × List Output :=
  match w.history.getChange sequenceNumber with
  | none => (w, [])
  | some change =>
    let inProcess := w.deliverSampleToIntraprocesses change delivered
    let shared := inProcess.1.deliverSampleToDatasharing change
    let network := deliverSampleToNetwork cfg outcome passes shared change
    -- A loop that has not ended yet has not reached the check behind it.
    if network.1 then
      let checked := network.2.1.checkAckedStatus cfg
      (checked.1, inProcess.2 ++ network.2.2.1 ++ checked.2)
    else (network.2.1, inProcess.2 ++ network.2.2.1)

def step (w : StatefulWriter) : Op → StatefulWriter × List Output
  | .write kind payload sourceTimestamp fragmentSize =>
    w.addChange cfg kind payload sourceTimestamp fragmentSize
  | .remove sequenceNumber => w.removeChange sequenceNumber
  | .matchReader info => w.matchedReaderAdd cfg info
  | .unmatchReader guid => w.matchedReaderRemove cfg guid
  | .acknack message => w.processAcknack cfg message
  | .nackFrag writerGuid readerGuid ackCount sequenceNumber fragments =>
    w.processNackFrag cfg writerGuid readerGuid ackCount sequenceNumber fragments
  | .nackResponse => w.performNackResponse
  | .nackSupression guid => w.performNackSupression guid
  | .ackTimer => if cfg.disablePositiveAcks then w.ackTimerRound cfg else (w, [])
  | .deliver sequenceNumber delivered outcome passes =>
    w.deliverSample cfg sequenceNumber delivered outcome passes

def run (w : StatefulWriter) (ops : List Op) : StatefulWriter :=
  ops.foldl (fun w op => (step cfg w op).1) w

end Runs

section Samples

def sampleWriter : WriterConfig where
  guid := ⟨Vector.replicate 12 7, .sample 2⟩
  durability := .volatile
  pushMode := true
  separateSendingEnabled := false
  disablePositiveAcks := false
  isRelevant _ _ := true
  listener := none
  selectedSize guids := guids.length

def sampleReader : ReaderInfo where
  guid := ⟨Vector.replicate 12 8, .sample 7⟩
  locality := .remote
  durability := .volatile
  expectsInlineQos := false
  isReliable := true
  disablePositiveAcks := false

def sampleWrite (length fragmentSize : Nat) : Op :=
  .write .alive ⟨length, fun _ => 0, length⟩ ⟨0, 0⟩ fragmentSize

def sampleAcknack (set : BitmapRange Int) : Acknack where
  writerGuid := sampleWriter.guid
  readerGuid := sampleReader.guid
  ackCount := 1
  snSet := set
  finalFlag := true

end Samples

end EasyDds.Rtps.StatefulWriter
