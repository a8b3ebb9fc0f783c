import EasyDds.Rtps.Writer.ReaderProxy

/-!
`StatefulWriter`: the history, the matched readers and what is sent to them. Each operation returns
the new state and what it put out, in order. Heartbeats are left out; they change no state that is
modelled here.
-/

namespace EasyDds.Rtps

/-- What stays fixed while a writer lives, and what it asks its surroundings: the data filter, the
listener (`none` without one, else whether it removes a change it is told about) and the number of
locators the transports select for a set of readers. -/
structure WriterConfig where
  guid : Guid
  durability : DurabilityKind
  pushMode : Bool
  separateSendingEnabled : Bool
  disablePositiveAcks : Bool
  isRelevant : CacheChange → Guid → Bool
  listener : Option (CacheChange → Bool)
  selectedSize : List Guid → Nat

structure StatefulWriter where
  history : WriterHistory
  matchedLocalReaders : List ReaderProxy
  matchedDatasharingReaders : List ReaderProxy
  matchedRemoteReaders : List ReaderProxy
  nextAllAckedNotifySequence : Int
  lastSequenceNumber : Int

/-- What a writer puts out. A GAP without a reader goes to the readers selected at that moment. -/
inductive Output
  | gap (reader : Option Guid) (gap : Gap)
  | data (sequenceNumber : Int)
  | dataFrag (change : CacheChange) (fragmentNumber : Nat)
  | receivedByAll (sequenceNumber : Int)

inductive SendOutcome
  | sent
  | refused
  | timeout
  | limitExceeded
deriving DecidableEq, Repr

inductive DeliveryRetCode
  | delivered
  | notDelivered
  | exceededLimit
deriving DecidableEq, Repr

namespace StatefulWriter

variable (cfg : WriterConfig)

variable (w : StatefulWriter)

def initial : StatefulWriter where
  history := ⟨cfg.guid, [], 0⟩
  matchedLocalReaders := []
  matchedDatasharingReaders := []
  matchedRemoteReaders := []
  nextAllAckedNotifySequence := 1
  lastSequenceNumber := 0

def nextSequenceNumber : Int := w.history.nextSequenceNumber 
def matchedReaders : List ReaderProxy :=
  w.matchedLocalReaders ++ w.matchedDatasharingReaders ++ w.matchedRemoteReaders

/-- `for_matched_readers` with an action that never stops it. -/
def mapReaders (f : ReaderProxy → ReaderProxy) : StatefulWriter :=
  { w with
    matchedLocalReaders := w.matchedLocalReaders.map f
    matchedDatasharingReaders := w.matchedDatasharingReaders.map f
    matchedRemoteReaders := w.matchedRemoteReaders.map f }

def updateFirst (guid : Guid) (f : ReaderProxy → ReaderProxy) : List ReaderProxy → List ReaderProxy
  | [] => []
  | r :: rest => if r.guid = guid then f r :: rest else r :: updateFirst guid f rest

/-- `for_matched_readers` with an action that stops at the reader with the given id. -/
def updateReader (guid : Guid) (f : ReaderProxy → ReaderProxy) : StatefulWriter :=
  if (w.matchedLocalReaders.any fun r => decide (r.guid = guid)) then
    { w with matchedLocalReaders := updateFirst guid f w.matchedLocalReaders }
  else if (w.matchedDatasharingReaders.any fun r => decide (r.guid = guid)) then
    { w with matchedDatasharingReaders := updateFirst guid f w.matchedDatasharingReaders }
  else { w with matchedRemoteReaders := updateFirst guid f w.matchedRemoteReaders }

@[simp] lemma history_updateReader (w : StatefulWriter) (guid : Guid)
    (f : ReaderProxy → ReaderProxy) : (w.updateReader guid f).history = w.history := by
  rw [updateReader]
  split
  · rfl
  · split <;> rfl

def findReader (guid : Guid) : Option ReaderProxy :=
  w.matchedReaders.find? fun r => decide (r.guid = guid)

section Removal

/-- `change_removed_by_history`, then the change leaves the history. -/
def removeChange (seq : Int) : StatefulWriter × List Output :=
  if (w.history.changes.any fun c => decide (c.sequenceNumber = seq)) then
    let gaps := w.matchedReaders.filterMap fun r =>
      (r.changeHasBeenRemoved w.history seq).2.map fun first =>
        Output.gap (some r.guid) (Gap.ofRange first (first + 1))
    let informed := w.mapReaders fun r => (r.changeHasBeenRemoved w.history seq).1
    ({ informed with
        history := { w.history with
          changes := w.history.changes.eraseP fun c => decide (c.sequenceNumber = seq) } },
      gaps)
  else (w, [])

end Removal

section Acknowledgement

/-- The smallest low mark of the readers; without readers, the last number written. -/
def minLowMark : Int :=
  match w.matchedReaders.map (·.changesLowMark) with
  | [] => w.nextSequenceNumber - 1
  | mark :: marks => marks.foldl min mark

def allAcked : Bool := w.matchedReaders.all fun r => !r.hasChanges 
/-- The backward traversal of `check_acked_status` over the changes from the newest on. The
listener may remove the change it is told about. -/
def notifyBackwards (removes : CacheChange → Bool) (endSeq : Int) :
    List CacheChange → StatefulWriter → StatefulWriter × List Output
  | [], w => (w, [])
  | change :: older, w =>
    if change.sequenceNumber < w.nextAllAckedNotifySequence then (w, [])
    else
      let told :=
        if removes change then w.removeChange change.sequenceNumber else (w, [])
      let outputs := Output.receivedByAll change.sequenceNumber :: told.2
      if endSeq < change.sequenceNumber then
        let rest := notifyBackwards removes endSeq older told.1
        (rest.1, outputs ++ rest.2)
      else (told.1, outputs)

def changesUpTo (minLowMark : Int) : List CacheChange :=
  let position := lowerBound (fun c => decide (c.sequenceNumber < minLowMark)) w.history.changes
  let past :=
    if (w.history.changes[position]?).any fun c => decide (c.sequenceNumber = minLowMark) then
      position + 1
    else position
  (w.history.changes.take past).reverse

def notifyAcked : StatefulWriter × List Output :=
  let minSeq := w.history.getSeqNumMin
  if minSeq ≠ unknownSequenceNumber ∧ w.nextAllAckedNotifySequence ≤ w.minLowMark then
    let told :=
      match cfg.listener with
      | some removes =>
        if minSeq ≤ w.minLowMark then
          notifyBackwards removes (max minSeq w.nextAllAckedNotifySequence)
            (w.changesUpTo w.minLowMark) w
        else (w, [])
      | none => (w, [])
    ({ told.1 with nextAllAckedNotifySequence := w.minLowMark + 1 }, told.2)
  else (w, [])

def checkAckedStatus : StatefulWriter × List Output :=
  let told := w.notifyAcked cfg
  if w.allAcked then
    ({ told.1 with nextAllAckedNotifySequence := told.1.nextSequenceNumber }, told.2)
  else told

end Acknowledgement

section Writing

def addForReader (change : CacheChange) (r : ReaderProxy) : ReaderProxy :=
  let fresh := ChangeForReader.ofChange change
  let entry :=
    if cfg.pushMode || !r.isReliable || r.isLocalReader then fresh
    else fresh.setStatus .unacknowledged
  r.addChange entry (cfg.isRelevant change r.guid)

/-- The change that `prepare_and_add_change` makes. `fragmentSize` is what `set_fragments` chooses,
zero for a change that is not fragmented. -/
def newChange (kind : ChangeKind) (payload : SerializedPayload)
    (sourceTimestamp : Time) (fragmentSize : Nat) : CacheChange :=
  CacheChange.setFragmentSize
    { kind := kind
      writerGUID := cfg.guid
      sequenceNumber := w.nextSequenceNumber
      serializedPayload := payload
      sourceTimestamp := sourceTimestamp
      fragmentSize := 0
      fragmentCount := 0
      firstMissingFragment := 0 } fragmentSize false

def pushChange (change : CacheChange) : StatefulWriter :=
  { w with
    history := { w.history with
      changes := w.history.changes ++ [change]
      lastCacheChangeSeqNum := w.nextSequenceNumber } }

/-- `prepare_and_add_change`, then `unsent_change_added_to_history`. -/
def addChange (kind : ChangeKind) (payload : SerializedPayload)
    (sourceTimestamp : Time) (fragmentSize : Nat) : StatefulWriter × List Output :=
  let change := w.newChange cfg kind payload sourceTimestamp fragmentSize
  let added := w.pushChange change
  if w.matchedReaders.isEmpty then added.checkAckedStatus cfg
  else (added.mapReaders (addForReader cfg change), [])

end Writing

section Matching

def lateJoinerEntry (r : ReaderProxy) (change : CacheChange) : ReaderProxy :=
  if cfg.isRelevant change r.guid then
    r.addChange (if r.isLocalReader then .ofChange change else ReaderProxy.unacknowledged
      change) true
  else r

def keepsHistory (durability : DurabilityKind) : Bool := decide (durability ≠ .volatile)

/-- What `matched_reader_add_edp` does with a proxy that has been started: a late joiner gets the
history, another reliable reader a GAP for all of it. -/
def joined (h : WriterHistory) (r : ReaderProxy) : ReaderProxy × List Output :=
  if r.locality = .datasharing then (r, [])
  else if r.isReliable then
    if h.getSeqNumMin = unknownSequenceNumber then (r, [])
    else if keepsHistory r.durability && keepsHistory cfg.durability then
      (h.changes.foldl (lateJoinerEntry cfg) r, [])
    else (r, [.gap (some r.guid) (Gap.ofRange h.getSeqNumMin h.nextSequenceNumber)])
  else (r.ackedChangesSet h h.nextSequenceNumber, [])

def matchedReaderAdd (info : ReaderInfo) : StatefulWriter × List Output :=
  if info.guid = Guid.unknown then (w, [])
  else if (w.findReader info.guid).isSome then (w.updateReader info.guid (·.update info), [])
  else
    let proxy := joined cfg w.history (ReaderProxy.start w.history info)
    let matched :=
      match info.locality with
      | .intraprocess => { w with matchedLocalReaders := w.matchedLocalReaders ++ [proxy.1] }
      | .datasharing =>
        { w with matchedDatasharingReaders := w.matchedDatasharingReaders ++ [proxy.1] }
      | .remote => { w with matchedRemoteReaders := w.matchedRemoteReaders ++ [proxy.1] }
    (matched, proxy.2)

def matchedReaderRemove (guid : Guid) : StatefulWriter × List Output :=
  let isReader := fun r : ReaderProxy => decide (r.guid = guid)
  if w.matchedLocalReaders.any isReader then
    { w with matchedLocalReaders := w.matchedLocalReaders.eraseP isReader }.checkAckedStatus cfg
  else if w.matchedDatasharingReaders.any isReader then
    { w with matchedDatasharingReaders :=
      w.matchedDatasharingReaders.eraseP isReader }.checkAckedStatus cfg
  else if w.matchedRemoteReaders.any isReader then
    { w with matchedRemoteReaders := w.matchedRemoteReaders.eraseP isReader }.checkAckedStatus cfg
  else (w, [])

end Matching

section Responses

structure Acknack where
  writerGuid : Guid
  readerGuid : Guid
  ackCount : Nat
  snSet : BitmapRange Int
  finalFlag : Bool

def Acknack.receivedSequenceNumber (a : Acknack) : Int :=
  if a.snSet.empty then a.snSet.base else a.snSet.max

/-- The numbers missing between the changes of a history, as `add_gaps_for_holes_in_history` walks
over them. -/
def holes : List CacheChange → List Int
  | [] => []
  | [_] => []
  | a :: b :: rest =>
    (List.range (b.sequenceNumber - a.sequenceNumber - 1).toNat).map
        (fun k : Nat => a.sequenceNumber + 1 + (k : Int)) ++ holes (b :: rest)

def addGapsForHolesInHistory (h : WriterHistory) (reader : Option Guid) : List Output :=
  (GapBuilder.gapsFor (holes h.changes)).map (.gap reader)

def acknackReader (h : WriterHistory) (a : Acknack) (r : ReaderProxy) :
    ReaderProxy × List Output :=
  let acked := r.ackedChangesSet h a.snSet.base
  if 0 < a.snSet.base then
    let requested := acked.requestedChangesSet a.snSet GapBuilder.new h.getSeqNumMin
    (requested.1, requested.2.1.flush.added.map (.gap (some r.guid)))
  else if a.snSet.empty && !a.finalFlag then
    -- The answer to a preemptive acknack from a remote reader is a heartbeat with GAPs in front.
    (acked.processInitialAcknack,
      if acked.isReliable && decide (acked.locality = .remote) then
        addGapsForHolesInHistory h (some r.guid)
      else [])
  else (acked, [])

def processAcknack (a : Acknack) : StatefulWriter × List Output :=
  if a.writerGuid = cfg.guid then
    if a.receivedSequenceNumber ≤ w.nextSequenceNumber then
      match (w.findReader a.readerGuid).bind (·.checkAndSetAcknackCount a.ackCount) with
      | some r =>
        let answer := acknackReader w.history a r
        let checked := (w.updateReader a.readerGuid fun _ => answer.1).checkAckedStatus cfg
        (checked.1, answer.2 ++ checked.2)
      | none => (w, [])
    else (w, [])
  else (w, [])

def processNackFrag (writerGuid readerGuid : Guid) (ackCount : Nat)
    (seqNum : Int) (fragmentsState : BitmapRange Nat) : StatefulWriter × List Output :=
  if writerGuid = cfg.guid then
    (w.updateReader readerGuid (·.processNackFrag ackCount seqNum fragmentsState), [])
  else (w, [])

def performNackResponse : StatefulWriter × List Output :=
  ({ w with
    matchedRemoteReaders := w.matchedRemoteReaders.map (·.performAcknackResponse) }, [])

def performNackSupression (readerGuid : Guid) : StatefulWriter × List Output :=
  (w.updateReader readerGuid (·.performNackSupression), [])

/-- The loop of `ack_timer_expired` that looks for the next change. -/
def skipRemoved (h : WriterHistory) : Nat → Int → Int
  | 0, last => last
  | rounds + 1, last =>
    if (h.getChange last).isNone ∧ last < h.nextSequenceNumber then skipRemoved h rounds (last + 1)
    else last

def ackTimerRound : StatefulWriter × List Output :=
  let mark := fun r : ReaderProxy =>
    if r.disablePositiveAcks then r.ackedChangesSet w.history (w.lastSequenceNumber + 1) else r
  let marked := w.mapReaders mark
  let checked :=
    if w.matchedReaders.any (·.disablePositiveAcks) then marked.checkAckedStatus cfg
    else (marked, [])
  let h := checked.1.history
  ({ checked.1 with
      lastSequenceNumber := skipRemoved h (h.nextSequenceNumber - w.lastSequenceNumber).toNat
        (w.lastSequenceNumber + 1) },
    checked.2)

end Responses

end StatefulWriter

end EasyDds.Rtps
