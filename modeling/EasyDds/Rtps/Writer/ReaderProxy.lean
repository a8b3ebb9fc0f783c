import EasyDds.Rtps.History.ReaderHistory
import EasyDds.Rtps.Writer.ChangeForReader
import EasyDds.Rtps.Writer.GapBuilder

/-!
`ReaderProxy`: what a writer knows about one matched reader, the changes that are pending for it
above all.
-/

namespace EasyDds.Rtps

inductive DurabilityKind
  | volatile
  | transientLocal
  | transient
  | persistent
deriving DecidableEq, Repr

def unknownSequenceNumber : Int := -2 ^ 32

inductive ReaderLocality
  | intraprocess
  | datasharing
  | remote
deriving DecidableEq, Repr

/-- The changes of a writer, oldest first, and `m_lastCacheChangeSeqNum`. -/
structure WriterHistory where
  writerGuid : Guid
  changes : List CacheChange
  lastCacheChangeSeqNum : Int

namespace WriterHistory

def nextSequenceNumber (h : WriterHistory) : Int := h.lastCacheChangeSeqNum + 1

def getSeqNumMin (h : WriterHistory) : Int :=
  (h.changes.head?.map (·.sequenceNumber)).getD unknownSequenceNumber

def getChange (h : WriterHistory) (seq : Int) : Option CacheChange :=
  (ReaderHistory.getChangeFrom seq h.writerGuid 0 h.changes).2

end WriterHistory

/-- What discovery tells about a reader: the parts of `ReaderProxyData` used here. -/
structure ReaderInfo where
  guid : Guid
  locality : ReaderLocality
  durability : DurabilityKind
  expectsInlineQos : Bool
  isReliable : Bool
  disablePositiveAcks : Bool
deriving DecidableEq

structure ReaderProxy where
  guid : Guid
  locality : ReaderLocality
  durability : DurabilityKind
  expectsInlineQos : Bool
  isReliable : Bool
  disablePositiveAcks : Bool
  changesForReader : List ChangeForReader
  changesLowMark : Int
  timersEnabled : Bool
  nextExpectedAcknackCount : Nat
  lastNackfragCount : Nat

structure UnsentChange where
  nextUnsentFrag : Nat
  gapSeq : Int
  needReactivatePeriodicHeartbeat : Bool
deriving DecidableEq

namespace ReaderProxy

variable (r : ReaderProxy) (h : WriterHistory) (seqNum : Int)

def isLocalReader : Bool := decide (r.locality = .intraprocess) 
def isRemoteAndReliable : Bool := decide (r.locality = .remote) && r.isReliable 
def lowerBoundChange : Nat :=
  lowerBound (fun c => decide (c.sequenceNumber < seqNum)) r.changesForReader

/-- `find_change` for the exact number, with the position of the entry. -/
def findChange : Option (Nat × ChangeForReader) :=
  (r.changesForReader[r.lowerBoundChange seqNum]?).bind fun c =>
    if c.sequenceNumber = seqNum then some (r.lowerBoundChange seqNum, c) else none

def modifyChange (position : Nat) (f : ChangeForReader → ChangeForReader) : ReaderProxy :=
  { r with changesForReader := r.changesForReader.modify position f }

/-- `add_change`. Irrelevant changes are not kept; a best-effort reader passes over them. -/
def addChange (change : ChangeForReader) (isRelevant : Bool) : ReaderProxy :=
  if isRelevant then { r with changesForReader := r.changesForReader ++ [change] }
  else if !r.isReliable && decide (r.changesLowMark + 1 = change.sequenceNumber) then
    { r with changesLowMark := change.sequenceNumber }
  else r

def hasChanges : Bool := !r.changesForReader.isEmpty 
def changeIsAcked : Bool :=
  if seqNum ≤ r.changesLowMark ∨ r.changesForReader.isEmpty then true
  else
    match r.findChange seqNum with
    | none => true
    | some (_, c) => decide (c.status = .acknowledged)

/-- The number after the entry before `position`, or after the low mark. -/
def afterPrevious (position : Nat) : Int :=
  (if position = 0 then r.changesLowMark
  else (r.changesForReader[position - 1]?.map (·.sequenceNumber)).getD r.changesLowMark) + 1

/-- The start of the hole before an entry, unless there is none or all of it has left the
history. -/
def gapBefore (prev seqNum minSeq : Int) : Int :=
  if prev = seqNum then unknownSequenceNumber
  else if prev < minSeq then
    if minSeq < seqNum then minSeq else unknownSequenceNumber
  else prev

def changeIsUnsent (seqNum minSeq : Int) : Option UnsentChange :=
  if seqNum ≤ r.changesLowMark ∨ r.changesForReader.isEmpty then none
  else
    match r.findChange seqNum with
    | none => none
    | some (position, c) =>
      if c.status = .unsent then
        let first := r.isReliable && !c.delivered
        some
          { nextUnsentFrag := c.getNextUnsentFragment
            gapSeq :=
              if first then gapBefore (r.afterPrevious position) seqNum minSeq
              else unknownSequenceNumber
            needReactivatePeriodicHeartbeat := first }
      else none

/-- The loop of `acked_changes_set` over acknowledged entries without a hole between them. -/
def skipAcknowledged : List ChangeForReader → Int → List ChangeForReader × Int
  | [], futureLowMark => ([], futureLowMark)
  | c :: rest, futureLowMark =>
    if c.sequenceNumber = futureLowMark ∧ c.status = .acknowledged then
      skipAcknowledged rest (futureLowMark + 1)
    else (c :: rest, futureLowMark)

def skipPresent (lowMark : Int) : List ChangeForReader → Int → Int
  | [], currentSequence => currentSequence
  | c :: rest, currentSequence =>
    if currentSequence ≤ lowMark ∧ c.sequenceNumber = currentSequence then
      skipPresent lowMark rest (currentSequence + 1)
    else currentSequence

def unacknowledged (change : CacheChange) : ChangeForReader :=
  (ChangeForReader.ofChange change).setStatus .unacknowledged

/-- One round of the loop that takes changes back from the history: the entries and the number to
go on with. -/
def takeBack (lowMark : Int) (entries : List ChangeForReader)
    (currentSequence : Int) : List ChangeForReader × Int :=
  let position := lowerBound (fun c => decide (c.sequenceNumber < currentSequence)) entries
  let current := skipPresent lowMark (entries.drop position) currentSequence
  if current ≤ lowMark then
    match h.getChange current with
    | some change => (entries ++ [unacknowledged change], current + 1)
    | none => (entries, current + 1)
  else (entries, current + 1)

/-- The loop; there are no more rounds than numbers up to the low mark. -/
def takeBackAll (h : WriterHistory) (lowMark : Int) :
    Nat → List ChangeForReader → Int → List ChangeForReader
  | 0, entries, _ => entries
  | rounds + 1, entries, currentSequence =>
    if currentSequence ≤ lowMark then
      let next := takeBack h lowMark entries currentSequence
      takeBackAll h lowMark rounds next.1 next.2
    else entries

def sortChanges (entries : List ChangeForReader) : List ChangeForReader :=
  entries.insertionSort fun a b => a.sequenceNumber ≤ b.sequenceNumber

/-- The special case of `acked_changes_set` for the number zero and a reader that is not
volatile: everything in the history is pending again. -/
def reopen : ReaderProxy :=
  let minSequence := h.getSeqNumMin
  if minSequence ≠ unknownSequenceNumber then
    let start := if 0 < minSequence then minSequence else 0
    { r with
      changesForReader := sortChanges (takeBackAll h r.changesLowMark
        (r.changesLowMark + 1 - start).toNat r.changesForReader start)
      changesLowMark := start - 1 }
  else if !r.isLocalReader then { r with changesLowMark := h.nextSequenceNumber - 1 }
  else r

def ackedChangesSet : ReaderProxy :=
  if r.changesLowMark < seqNum then
    let rest := skipAcknowledged (r.changesForReader.drop (r.lowerBoundChange seqNum)) seqNum
    { r with changesForReader := rest.1, changesLowMark := rest.2 - 1 }
  else if seqNum = 0 ∧ r.durability ≠ .volatile then r.reopen h
  else r

/-- The lambda of `requested_changes_set`: the proxy, the builder and whether something was
requested. -/
def requestChange (minSeqInHistory : Int) (state : ReaderProxy × GapBuilder × Bool) (sit : Int) :
    ReaderProxy × GapBuilder × Bool :=
  match state.1.findChange sit with
  | some (position, c) =>
    if c.status = .unacknowledged then
      (state.1.modifyChange position fun c => (c.setStatus .requested).markAllFragmentsAsUnsent,
        state.2.1, true)
    else state
  | none =>
    if minSeqInHistory ≤ sit ∧ state.1.changesLowMark < sit then
      (state.1, state.2.1.add sit, state.2.2)
    else state

def requestedChangesSet (seqNumSet : BitmapRange Int) (gapBuilder : GapBuilder)
    (minSeqInHistory : Int) : ReaderProxy × GapBuilder × Bool :=
  if minSeqInHistory ≠ unknownSequenceNumber then
    seqNumSet.forEach.foldl (requestChange minSeqInHistory) (r, gapBuilder, false)
  else (r, gapBuilder, false)

def convertStatusOnAllChanges (previous next : ChangeForReaderStatus) : ReaderProxy :=
  { r with
    changesForReader :=
      r.changesForReader.map fun c => if c.status = previous then c.setStatus next else c }

def processInitialAcknack : ReaderProxy :=
  if r.isLocalReader then r.convertStatusOnAllChanges .unacknowledged .unsent else r

def performNackSupression : ReaderProxy := r.convertStatusOnAllChanges .underway .unacknowledged

def performAcknackResponse : ReaderProxy := r.convertStatusOnAllChanges .requested .unsent

def fromUnsentToStatus (status : ChangeForReaderStatus) (delivered : Bool) : ReaderProxy :=
  match r.findChange seqNum with
  | none => r
  | some (position, _) =>
    if status = .acknowledged ∧ seqNum = r.changesLowMark + 1 then
      { r with changesForReader := r.changesForReader.eraseIdx position }.ackedChangesSet h
        (seqNum + 1)
    else
      r.modifyChange position fun c =>
        if delivered then (c.setStatus status).setDelivered else c.setStatus status

def markFragmentAsSentForChange (fragNum : Nat) : ReaderProxy × Bool :=
  if seqNum ≤ r.changesLowMark then (r, false)
  else
    match r.findChange seqNum with
    | none => (r, false)
    | some (position, c) =>
      (r.modifyChange position fun c => c.markFragmentsAsSent fragNum,
        (c.markFragmentsAsSent fragNum).unsentFragments.empty)

def changeHasBeenRemoved : ReaderProxy × Option Int :=
  if (r.changesForReader.head?).all fun c => decide (seqNum < c.sequenceNumber) then (r, none)
  else
    match r.findChange seqNum with
    | none => (r, none)
    | some (position, c) =>
      let gap :=
        if r.isLocalReader ∧ c.status ≠ .acknowledged ∧ c.status ≠ .underway then some seqNum
        else none
      let rest := { r with changesForReader := r.changesForReader.eraseIdx position }
      (if r.changesLowMark + 1 = seqNum then rest.ackedChangesSet h (seqNum + 1) else rest, gap)

def requestedFragmentSet (fragSet : BitmapRange Nat) : ReaderProxy :=
  match r.findChange seqNum with
  | none => r
  | some (position, _) =>
    r.modifyChange position fun c =>
      let marked := c.markFragmentsAsUnsent fragSet
      if marked.status ≠ .unsent then marked.setStatus .requested else marked

def processNackFrag (nackCount : Nat) (seqNum : Int)
    (fragmentsState : BitmapRange Nat) : ReaderProxy :=
  if r.lastNackfragCount < nackCount then
    { r with lastNackfragCount := nackCount }.requestedFragmentSet seqNum fragmentsState
  else r

def checkAndSetAcknackCount (acknackCount : Nat) : Option ReaderProxy :=
  if r.nextExpectedAcknackCount ≤ acknackCount then
    some { r with nextExpectedAcknackCount := wrap32 (acknackCount + 1) }
  else none

def start (info : ReaderInfo) : ReaderProxy :=
  let stopped : ReaderProxy :=
    { guid := info.guid
      locality := info.locality
      durability := info.durability
      expectsInlineQos := info.expectsInlineQos
      isReliable := info.isReliable
      disablePositiveAcks := info.disablePositiveAcks
      changesForReader := []
      changesLowMark := 0
      timersEnabled := decide (info.locality = .remote) && info.isReliable
      nextExpectedAcknackCount := 0
      lastNackfragCount := 0 }
  if info.durability = .volatile then
    let minSequence := h.getSeqNumMin
    { stopped with
      changesLowMark :=
        if minSequence = unknownSequenceNumber then h.nextSequenceNumber - 1 else minSequence - 1 }
  else stopped.ackedChangesSet h 0

def update (info : ReaderInfo) : ReaderProxy :=
  { r with
    durability := info.durability
    expectsInlineQos := info.expectsInlineQos
    isReliable := info.isReliable
    disablePositiveAcks := info.disablePositiveAcks }

end ReaderProxy

end EasyDds.Rtps
