import EasyDds.Rtps.History.Lookup
import EasyDds.Rtps.Writer.Gaps

/-!
What an ACKNACK can make a writer declare irrelevant. `process_acknack` drops a set that reaches
past the next number to be written, but not one that ends with it.
-/

namespace EasyDds.Rtps

open List

lemma EntryMove.sequenceNumber_eq {ok : BitmapRange Nat → Prop} {c c' : ChangeForReader}
    (hmove : EntryMove ok c c') : c'.sequenceNumber = c.sequenceNumber := by
  cases hmove with
  | status => rfl
  | allUnsent => rfl
  | sent fragment =>
    rw [ChangeForReader.markFragmentsAsSent]
    split <;> rfl
  | requested =>
    rw [ChangeForReader.markFragmentsAsUnsent]
    split
    · split <;> rfl
    · rfl
  | delivered => rfl

namespace StatefulWriter

variable {cfg : WriterConfig} {h : WriterHistory} {r : ReaderProxy} {a : Acknack} {o : Output}
  {sn seq : Int}

section Written

def Written (h : WriterHistory) (c : ChangeForReader) : Prop :=
  c.sequenceNumber ≤ h.lastCacheChangeSeqNum

lemma entryInvariant_written (cfg : WriterConfig) : EntryInvariant cfg (fun _ => True) Written where
  fresh hh hmem _ := hh.written _ hmem
  move hc hmove := by rwa [Written, hmove.sequenceNumber_eq]
  removed _ hc := hc
  wrote {h} _ _ hc := by
    change _ ≤ h.lastCacheChangeSeqNum + 1
    rw [Written] at hc
    omega

/-- Entries have numbers that have been given, in every state of every run: proxies get them from
the history, and the next number only rises. -/
theorem written_run (cfg : WriterConfig) (ops : List Op) :
    Kept cfg (fun h r => ∀ c ∈ r.changesForReader, Written h c) (run cfg (initial cfg) ops) := by
  have hinv : ReaderInvariant cfg False (fun _ => True) (fun _ _ => True) _ :=
    (entryInvariant_written cfg).readerInvariant
  refine hinv.run cfg (.of_forall fun w op => ⟨False.elim, ?_, ?_⟩)
  · cases op <;> trivial
  · cases op <;> simp [Announces]

/-- After any run, the writer finds each stored change, and its next number is new: the history is
in the order of its numbers, and each is given once. -/
theorem getChange_run (cfg : WriterConfig) (ops : List Op) :
    let h := (run cfg (initial cfg) ops).history
    (∀ c ∈ h.changes, h.getChange c.sequenceNumber = some c) ∧
      ∀ c ∈ h.changes, c.sequenceNumber < h.nextSequenceNumber := by
  intro h
  have hh : HistoryOrdered cfg h := (written_run cfg ops).1
  have hordered : WriterOrdered h.changes := hh.increasing.imp (by tauto)
  refine ⟨fun c hc => ?_, fun c hc => Int.lt_add_one_of_le (hh.written c hc)⟩
  rw [WriterHistory.getChange, hh.writerGuid, ← hh.guids c hc]
  exact ReaderHistory.getChangeFrom_of_mem hordered hc 0

lemma skipAcknowledged_le {entries : List ChangeForReader} {last : Int}
    (hentries : ∀ c ∈ entries, c.sequenceNumber ≤ last) (hseq : seq ≤ last + 1) :
    (ReaderProxy.skipAcknowledged entries seq).2 ≤ last + 1 := by
  induction entries generalizing seq with
  | nil => exact hseq
  | cons c entries ih =>
    have hc := hentries c mem_cons_self
    rw [ReaderProxy.skipAcknowledged]
    split
    · exact ih (fun d hd => hentries d (mem_cons_of_mem _ hd)) (by omega)
    · exact hseq

/-- An acknowledgement of what has been written does not carry the low mark past it. -/
theorem lowMark_ackedChangesSet (hr : ∀ c ∈ r.changesForReader, Written h c) (hpos : 0 < seq)
    (hseq : seq ≤ h.nextSequenceNumber) :
    (r.ackedChangesSet h seq).changesLowMark < h.nextSequenceNumber ↔
      r.changesLowMark < h.nextSequenceNumber := by
  rw [ReaderProxy.ackedChangesSet]
  split
  · have hskip : (ReaderProxy.skipAcknowledged
        (r.changesForReader.drop (r.lowerBoundChange seq)) seq).2 ≤ h.nextSequenceNumber :=
      skipAcknowledged_le (fun c hc => hr c (mem_of_mem_drop hc)) hseq
    dsimp only
    omega
  · rw [if_neg (by omega)]

lemma findChange_next (hr : ∀ c ∈ r.changesForReader, Written h c) :
    r.findChange h.nextSequenceNumber = none := by
  cases hfind : r.findChange h.nextSequenceNumber with
  | none => rfl
  | some found =>
    obtain ⟨hget, hnumber⟩ := ReaderProxy.getElem?_of_findChange hfind
    have hwritten := hr _ (mem_of_getElem? hget)
    rw [Written, hnumber, WriterHistory.nextSequenceNumber] at hwritten
    omega

end Written

/-- The history has a first number as long as it has a change. -/
theorem HistoryOrdered.getSeqNumMin (hh : HistoryOrdered cfg h) (hne : h.changes ≠ []) :
    h.getSeqNumMin ≠ unknownSequenceNumber ∧ h.getSeqNumMin ≤ h.nextSequenceNumber := by
  obtain ⟨c, rest, hchanges⟩ := exists_cons_of_ne_nil hne
  have hmem : c ∈ h.changes := by simp [hchanges]
  have hpos := hh.positive c hmem
  have hwritten := hh.written c hmem
  have hmin : h.getSeqNumMin = c.sequenceNumber := by simp [WriterHistory.getSeqNumMin, hchanges]
  rw [hmin, unknownSequenceNumber, WriterHistory.nextSequenceNumber]
  omega

/-- An ACKNACK that is accepted and asks for the number that will be written next, from a reader
that is not taken to have it already. -/
def AsksForNext (cfg : WriterConfig) (w : StatefulWriter) (a : Acknack) : Prop :=
  a.writerGuid = cfg.guid ∧ 0 < a.snSet.base ∧ a.receivedSequenceNumber ≤ w.nextSequenceNumber ∧
    a.snSet.isSet w.nextSequenceNumber = true ∧
    ∃ r, w.findReader a.readerGuid = some r ∧ r.nextExpectedAcknackCount ≤ a.ackCount ∧
      r.changesLowMark < w.nextSequenceNumber

/-- The numbers of a set that is not dropped have been given, but for the next one. -/
theorem le_of_isSet (hset : a.snSet.WellFormed) (hsn : a.snSet.isSet sn = true) :
    a.snSet.base ≤ sn ∧ sn ≤ a.receivedSequenceNumber := by
  obtain ⟨d, hd, rfl⟩ := (BitmapRange.isSet_iff (window_int _) hset sn).mp hsn
  have hlt := hset.lt_numBits hd
  have hnonempty : a.snSet.empty = false := by
    simp [BitmapRange.empty]
    omega
  rw [Acknack.receivedSequenceNumber, hnonempty, if_neg (by simp),
    BitmapRange.max_eq hset (by omega)]
  simp only [RangeItem.plus]
  omega

/-- What the GAPs for the reader of an accepted ACKNACK say about the future. Only the next number
can be asked for, and it is taken for one that was removed. -/
theorem acknackReader_covers_future (hh : HistoryOrdered cfg h) (hne : h.changes ≠ [])
    (hr : ∀ c ∈ r.changesForReader, Written h c) (hset : a.snSet.WellFormed)
    (hreceived : a.receivedSequenceNumber ≤ h.nextSequenceNumber) :
    (∃ o ∈ (acknackReader h a r).2, ∃ sn, o.Covers sn ∧ h.nextSequenceNumber ≤ sn) ↔
      0 < a.snSet.base ∧ a.snSet.isSet h.nextSequenceNumber = true ∧
        r.changesLowMark < h.nextSequenceNumber := by
  obtain ⟨hknown, hmin⟩ := hh.getSeqNumMin hne
  have hacked := (entryInvariant_written cfg).acked hh hr a.snSet.base
  rw [acknackReader]
  split
  · rename_i hpos
    have hcovers := (r.ackedChangesSet h a.snSet.base).covers_requestedChangesSet hset
      h.getSeqNumMin
    constructor
    · rintro ⟨o, ho, sn, hsn, hfuture⟩
      obtain ⟨g, hg, rfl⟩ := mem_map.mp ho
      obtain ⟨-, hisSet, hmissing⟩ := (hcovers sn).mp ⟨g, hg, hsn⟩
      obtain ⟨hbase, hle⟩ := le_of_isSet hset hisSet
      obtain rfl : sn = h.nextSequenceNumber := by omega
      simp only [ReaderProxy.missing, Bool.and_eq_true, decide_eq_true_eq] at hmissing
      exact ⟨hpos, hisSet, (lowMark_ackedChangesSet hr hpos (by omega)).mp hmissing.2.2⟩
    · rintro ⟨-, hisSet, hlow⟩
      obtain ⟨hbase, -⟩ := le_of_isSet hset hisSet
      have hmissing : (r.ackedChangesSet h a.snSet.base).missing h.getSeqNumMin
          h.nextSequenceNumber = true := by
        simp only [ReaderProxy.missing, findChange_next hacked, Option.isNone_none, Bool.true_and,
          decide_eq_true_eq]
        exact ⟨hmin, (lowMark_ackedChangesSet hr hpos (by omega)).mpr hlow⟩
      obtain ⟨g, hg, hsn⟩ := (hcovers _).mpr ⟨hknown, hisSet, hmissing⟩
      exact ⟨_, mem_map_of_mem hg, _, hsn, Int.le_refl _⟩
  · rename_i hpos
    refine iff_of_false ?_ fun hasks => hpos hasks.1
    rintro ⟨o, ho, sn, hsn, hfuture⟩
    split at ho
    · split at ho
      · -- The holes of the history lie below its last change.
        have hhole := covers_addGapsForHolesInHistory hh ho hsn
        obtain ⟨-, c, hc, hlt⟩ := mem_holes hh.increasing hhole
        have hwritten := hh.written c hc
        rw [WriterHistory.nextSequenceNumber] at hfuture
        omega
      · cases ho
    · cases ho

/-- The GAPs that answer an ACKNACK stay below the next number exactly if the ACKNACK does not ask
for that number. -/
theorem acknack_gaps_below_next_iff (cfg : WriterConfig) (ops : List Op) (a : Acknack)
    (hset : a.snSet.WellFormed) (hne : (run cfg (initial cfg) ops).history.changes ≠ []) :
    (∀ o ∈ ((run cfg (initial cfg) ops).processAcknack cfg a).2, ∀ sn, o.Covers sn →
        sn < (run cfg (initial cfg) ops).nextSequenceNumber) ↔
      ¬ AsksForNext cfg (run cfg (initial cfg) ops) a := by
  obtain ⟨hh, hreaders⟩ := written_run cfg ops
  generalize run cfg (initial cfg) ops = w at *
  rw [processAcknack]
  split
  case isFalse hguid =>
    refine iff_of_true (by simp) fun hasks => hguid hasks.1
  case isTrue hguid =>
    split
    case isFalse hreceived =>
      refine iff_of_true (by simp) fun hasks => hreceived hasks.2.2.1
    case isTrue hreceived =>
      split
      case h_2 hnone =>
        refine iff_of_true (by simp) ?_
        rintro ⟨-, -, -, -, r, hfind, hcount, -⟩
        simp [hfind, ReaderProxy.checkAndSetAcknackCount, hcount] at hnone
      case h_1 counted hcounted =>
        obtain ⟨r, hfind, hcount⟩ := Option.bind_eq_some_iff.mp hcounted
        rw [ReaderProxy.checkAndSetAcknackCount] at hcount
        split at hcount
        case isFalse => cases hcount
        case isTrue hexpected =>
          cases hcount
          have hmem : r ∈ w.matchedReaders := mem_of_find?_eq_some hfind
          have hfuture := acknackReader_covers_future (r := { r with
            nextExpectedAcknackCount := wrap32 (a.ackCount + 1) }) hh hne (hreaders r hmem) hset
            hreceived
          have hasks : AsksForNext cfg w a ↔ 0 < a.snSet.base ∧ a.snSet.isSet w.nextSequenceNumber =
              true ∧ r.changesLowMark < w.nextSequenceNumber := by
            simp [AsksForNext, hguid, hreceived, hfind, hexpected]
          rw [hasks]
          change _ ↔ ¬ (0 < a.snSet.base ∧ a.snSet.isSet w.history.nextSequenceNumber = true ∧
            r.changesLowMark < w.history.nextSequenceNumber)
          rw [← hfuture]
          constructor
          · rintro hpast ⟨o, ho, sn, hsn, hle⟩
            have hlt := hpast o (mem_append_left _ ho) sn hsn
            rw [nextSequenceNumber] at hlt
            omega
          · intro hnone o ho sn hsn
            rcases mem_append.mp ho with ho | ho
            · by_contra hle
              exact hnone ⟨o, ho, sn, hsn, by rw [nextSequenceNumber] at hle; omega⟩
            · obtain ⟨c, hc, rfl⟩ := covers_checkAckedStatus ho hsn
              rw [history_updateReader] at hc
              have hwritten := hh.written c hc
              rw [nextSequenceNumber, WriterHistory.nextSequenceNumber]
              omega

lemma wellFormed_one (base : Int) : ((BitmapRange.setBase base).add base).WellFormed := by
  have hplus : base = RangeItem.plus (BitmapRange.setBase base).base 0 := by
    simp [RangeItem.plus, BitmapRange.setBase]
  nth_rewrite 2 [hplus]
  exact (BitmapRange.wellFormed_setBase (window_int base)).add (window_int base)
    (BitmapRange.open_setBase base) (by omega)

def removedSecond : List Op :=
  [.matchReader sampleReader, sampleWrite 4 0, sampleWrite 4 0, sampleWrite 4 0, .remove 2]

theorem acknack_gaps_below_next_removed :
    let w := run sampleWriter (initial sampleWriter) removedSecond
    let outputs := (w.processAcknack sampleWriter (sampleAcknack
      ((BitmapRange.setBase 2).add 2))).2
    w.history.changes ≠ [] ∧ (∃ o ∈ outputs, o.Covers 2) ∧
      ∀ o ∈ outputs, ∀ sn, o.Covers sn → sn < w.nextSequenceNumber := by
  intro w outputs
  have hne : w.history.changes ≠ [] := cons_ne_nil _ _
  refine ⟨hne, by decide, (acknack_gaps_below_next_iff _ _ _ (wellFormed_one 2) hne).mpr ?_⟩
  rintro ⟨-, -, -, hset, -⟩
  revert hset
  decide

/-- One change has been written. An ACKNACK for the second one is answered with a GAP for it. -/
theorem acknack_gap_covers_next : (sampleAcknack ((BitmapRange.setBase 2).add 2)).snSet.WellFormed ∧
      (run sampleWriter (initial sampleWriter)
        [.matchReader sampleReader, sampleWrite 4 0]).history.changes ≠ [] ∧
      ∃ o ∈ ((run sampleWriter (initial sampleWriter)
          [.matchReader sampleReader, sampleWrite 4 0]).processAcknack sampleWriter
            (sampleAcknack ((BitmapRange.setBase 2).add 2))).2, o.Covers
        (run sampleWriter (initial sampleWriter)
          [.matchReader sampleReader, sampleWrite 4 0]).nextSequenceNumber := by
  exact ⟨wellFormed_one 2, cons_ne_nil _ _, by decide⟩

end StatefulWriter

end EasyDds.Rtps
