import EasyDds.Rtps.Writer.Pending

/-!
What every proxy keeps in every run: its pending numbers rise, lie above its low mark and belong to
changes of the history, and the low mark lies below the next number.
-/

namespace EasyDds.Rtps

open List

namespace StatefulWriter

variable {cfg : WriterConfig} {h : WriterHistory} {seq : Int} {change : CacheChange}

lemma HistoryOrdered.getSeqNumMin_le (hh : HistoryOrdered cfg h) (hmem : change ∈ h.changes) :
    1 ≤ h.getSeqNumMin ∧ h.getSeqNumMin ≤ change.sequenceNumber := by
  have hincreasing := hh.increasing
  have hpositive := hh.positive
  rw [WriterHistory.getSeqNumMin]
  cases hchanges : h.changes with
  | nil => simp [hchanges] at hmem
  | cons first rest =>
    rw [hchanges] at hmem hincreasing hpositive
    refine ⟨hpositive first mem_cons_self, ?_⟩
    rcases mem_cons.mp hmem with rfl | hmem
    · exact Int.le_refl _
    · exact Int.le_of_lt ((pairwise_cons.mp hincreasing).1 change hmem)

lemma HistoryOrdered.getSeqNumMin_eq_unknown (hh : HistoryOrdered cfg h)
    (hmin : h.getSeqNumMin = unknownSequenceNumber) : h.changes = [] := by
  by_contra hne
  exact (hh.getSeqNumMin hne).1 hmin

lemma HistoryOrdered.lt_next (hh : HistoryOrdered cfg h) (hmem : change ∈ h.changes) :
    change.sequenceNumber < h.nextSequenceNumber := by
  have hwritten := hh.written change hmem
  rw [WriterHistory.nextSequenceNumber]
  omega

lemma HistoryOrdered.reached_le (hh : HistoryOrdered cfg h) (hseq : h.Reached seq) :
    seq ≤ h.nextSequenceNumber := by
  rcases hseq with hle | ⟨change, hmem, hle⟩
  · exact hle
  · have hlt := hh.lt_next hmem
    omega

lemma sequenceNumber_of_getChange (hget : h.getChange seq = some change) :
    change.sequenceNumber = seq := by
  have hfrom : ∀ (changes : List CacheChange) (position : Nat),
      (ReaderHistory.getChangeFrom seq h.writerGuid position changes).2 = some change →
        change.sequenceNumber = seq := by
    intro changes
    induction changes with
    | nil => simp [ReaderHistory.getChangeFrom]
    | cons c changes ih =>
      intro position hfound
      rw [ReaderHistory.getChangeFrom] at hfound
      split at hfound
      · split at hfound
        · rwa [← Option.some.inj hfound]
        · split at hfound
          · cases hfound
          · exact ih _ hfound
      · exact ih _ hfound
  exact hfrom _ _ hget

end StatefulWriter

namespace ReaderProxy

open StatefulWriter

structure Ordered (h : WriterHistory) (r : ReaderProxy) : Prop extends Sorted r where
  present : ∀ c ∈ r.changesForReader, ∃ change ∈ h.changes, change.sequenceNumber = c.sequenceNumber
  lowMark : r.changesLowMark < h.nextSequenceNumber

variable {cfg : WriterConfig} {h : WriterHistory} {r : ReaderProxy} {seq : Int}

lemma Ordered.of_map_eq (hr : r.Ordered h) {r' : ReaderProxy}
    (hlow : r'.changesLowMark = r.changesLowMark)
    (hnumbers : r'.changesForReader.map (·.sequenceNumber) =
      r.changesForReader.map (·.sequenceNumber)) : r'.Ordered h := by
  refine ⟨hr.toSorted.of_map_eq hlow hnumbers, fun c hc => ?_, hlow ▸ hr.lowMark⟩
  have hmem : c.sequenceNumber ∈ r.changesForReader.map (·.sequenceNumber) := by
    rw [← hnumbers]
    exact mem_map_of_mem hc
  obtain ⟨d, hd, heq⟩ := mem_map.mp hmem
  rw [← heq]
  exact hr.present d hd

lemma Ordered.eraseIdx (hr : r.Ordered h) (position : Nat) :
    ({ r with changesForReader := r.changesForReader.eraseIdx position } : ReaderProxy).Ordered h :=
  ⟨hr.toSorted.eraseIdx position, fun c hc => hr.present c (mem_of_mem_eraseIdx hc), hr.lowMark⟩

section Reopening

variable {lowMark start current : Int} {entries pushed : List ChangeForReader}

lemma skipPresent_of_ne (hne : ∀ c ∈ entries, c.sequenceNumber ≠ current) :
    skipPresent lowMark entries current = current := by
  cases entries with
  | nil => rfl
  | cons c entries =>
    rw [skipPresent, if_neg]
    exact fun hc => hne c mem_cons_self hc.2

structure TakenBack (h : WriterHistory) (lowMark start current : Int)
    (pushed : List ChangeForReader) : Prop where
  increasing : pushed.Pairwise fun a b => a.sequenceNumber < b.sequenceNumber
  range : ∀ c ∈ pushed, start ≤ c.sequenceNumber ∧ c.sequenceNumber ≤ lowMark ∧
    c.sequenceNumber < current
  present : ∀ c ∈ pushed, ∃ change ∈ h.changes, change.sequenceNumber = c.sequenceNumber

/-- The entries that were there lie above the low mark, those taken back below the number in
question: that number is not among them, wherever the search ends. -/
theorem takeBack_eq (hentries : ∀ c ∈ entries, lowMark < c.sequenceNumber)
    (hpushed : TakenBack h lowMark start current pushed) (hstart : start ≤ current)
    (hcurrent : current ≤ lowMark) :
    ∃ pushed', takeBack h lowMark (entries ++ pushed) current = (entries ++ pushed', current + 1) ∧
      TakenBack h lowMark start (current + 1) pushed' := by
  have hgrown : TakenBack h lowMark start (current + 1) pushed :=
    ⟨hpushed.increasing, fun c hc => by have := hpushed.range c hc; omega, hpushed.present⟩
  have hskip : ∀ position, skipPresent lowMark ((entries ++ pushed).drop position) current =
      current := by
    intro position
    refine skipPresent_of_ne fun c hc => ?_
    rcases mem_append.mp (mem_of_mem_drop hc) with hold | hnew
    · have habove := hentries c hold
      omega
    · have hbelow := hpushed.range c hnew
      omega
  rw [takeBack, hskip, if_pos hcurrent]
  cases hget : h.getChange current with
  | none => exact ⟨pushed, rfl, hgrown⟩
  | some change =>
    have hnumber : (unacknowledged change).sequenceNumber = current :=
      sequenceNumber_of_getChange hget
    refine ⟨pushed ++ [unacknowledged change], by simp, ?_, fun c hc => ?_, fun c hc => ?_⟩
    · refine pairwise_append.mpr ⟨hpushed.increasing, pairwise_singleton _ _, ?_⟩
      intro a ha b hb
      have hbelow := hpushed.range a ha
      rw [mem_singleton.mp hb, hnumber]
      exact hbelow.2.2
    · rcases mem_append.mp hc with hold | hnew
      · exact hgrown.range c hold
      · rw [mem_singleton.mp hnew, hnumber]
        omega
    · rcases mem_append.mp hc with hold | hnew
      · exact hpushed.present c hold
      · rw [mem_singleton.mp hnew]
        exact ⟨change, mem_of_getChange hget, rfl⟩

lemma takeBackAll_eq (rounds : Nat) (hentries : ∀ c ∈ entries, lowMark < c.sequenceNumber)
    (hpushed : TakenBack h lowMark start current pushed) (hstart : start ≤ current) :
    ∃ pushed' current', takeBackAll h lowMark rounds (entries ++ pushed) current =
      entries ++ pushed' ∧ TakenBack h lowMark start current' pushed' := by
  induction rounds generalizing pushed current with
  | zero => exact ⟨pushed, current, rfl, hpushed⟩
  | succ rounds ih =>
    rw [takeBackAll]
    split
    · rename_i hcurrent
      obtain ⟨pushed', heq, htaken⟩ := takeBack_eq hentries hpushed hstart hcurrent
      rw [heq]
      exact ih htaken (by omega)
    · exact ⟨pushed, current, rfl, hpushed⟩

lemma pairwise_sortChanges (hne : entries.Pairwise fun a b => a.sequenceNumber ≠ b.sequenceNumber) :
    (sortChanges entries).Pairwise fun a b => a.sequenceNumber < b.sequenceNumber := by
  have hle : (sortChanges entries).Pairwise fun a b => a.sequenceNumber ≤ b.sequenceNumber := by
    exact pairwise_insertionSort _ entries
  have hperm : (sortChanges entries).Perm entries := perm_insertionSort _ entries
  have hne' := (hperm.pairwise_iff fun hab => hab.symm).mpr hne
  exact (hle.and hne').imp fun hab => by omega

/-- Everything in the history pending again is in order again. -/
theorem Ordered.reopen (hh : HistoryOrdered cfg h) (hr : r.Ordered h) : (r.reopen h).Ordered h := by
  rw [ReaderProxy.reopen]
  dsimp only
  split
  · rename_i hknown
    have hne : h.changes ≠ [] := by
      intro hnil
      exact hknown (by simp [WriterHistory.getSeqNumMin, hnil])
    obtain ⟨first, hfirst⟩ := exists_mem_of_ne_nil _ hne
    have hmin := (hh.getSeqNumMin_le hfirst).1
    have hbelow := (hh.getSeqNumMin hne).2
    rw [if_pos (by omega)]
    have hstart : TakenBack h r.changesLowMark h.getSeqNumMin h.getSeqNumMin [] :=
      ⟨.nil, by simp, by simp⟩
    obtain ⟨pushed, current, heq, htaken⟩ := takeBackAll_eq
      (r.changesLowMark + 1 - h.getSeqNumMin).toNat hr.above hstart (Int.le_refl _)
    rw [append_nil] at heq
    rw [heq]
    have hmem : ∀ c, c ∈ sortChanges (r.changesForReader ++ pushed) →
        c ∈ r.changesForReader ∨ c ∈ pushed := fun c hc =>
      mem_append.mp ((mem_insertionSort _).mp hc)
    have hpresent : ∀ c ∈ sortChanges (r.changesForReader ++ pushed),
        ∃ change ∈ h.changes, change.sequenceNumber = c.sequenceNumber := fun c hc =>
      (hmem c hc).elim (hr.present c) (htaken.present c)
    refine ⟨⟨?_, fun c hc => ?_⟩, hpresent, ?_⟩
    · refine pairwise_sortChanges (pairwise_append.mpr ⟨?_, ?_, fun a ha b hb => ?_⟩)
      · exact hr.increasing.imp fun hab => by omega
      · exact htaken.increasing.imp fun hab => by omega
      · have habove := hr.above a ha
        have hrange := htaken.range b hb
        omega
    · obtain ⟨change, hchange, hnumber⟩ := hpresent c hc
      have hle := (hh.getSeqNumMin_le hchange).2
      dsimp only
      omega
    · dsimp only
      omega
  · rename_i hunknown
    have hnil := hh.getSeqNumMin_eq_unknown (not_ne_iff.mp hunknown)
    have hnone : r.changesForReader = [] := by
      rw [eq_nil_iff_forall_not_mem]
      intro c hc
      obtain ⟨change, hchange, -⟩ := hr.present c hc
      simp [hnil] at hchange
    split
    · refine ⟨⟨by simp [hnone], by simp [hnone]⟩, by simp [hnone], ?_⟩
      dsimp only
      omega
    · exact hr

end Reopening

section Moves

lemma Ordered.ackedChangesSet (hh : HistoryOrdered cfg h) (hr : r.Ordered h)
    (hseq : seq ≤ h.nextSequenceNumber) : (r.ackedChangesSet h seq).Ordered h := by
  by_cases hlow : r.changesLowMark < seq
  · have hacked : Acked r (r.ackedChangesSet h seq) seq := hr.acked hlow
    refine ⟨hacked.sorted, fun c hc => hr.present c (hacked.sublist.mem hc), ?_⟩
    have hwritten : ∀ c ∈ r.changesForReader, c.sequenceNumber ≤ h.lastCacheChangeSeqNum := by
      intro c hc
      obtain ⟨change, hchange, hnumber⟩ := hr.present c hc
      have hle := hh.written change hchange
      omega
    have hskip : (skipAcknowledged (r.changesForReader.drop (r.lowerBoundChange seq)) seq).2 ≤
        h.nextSequenceNumber :=
      skipAcknowledged_le (fun c hc => hwritten c (mem_of_mem_drop hc)) hseq
    rw [ReaderProxy.ackedChangesSet, if_pos hlow]
    exact Int.sub_one_lt_iff.mpr hskip
  · rw [ReaderProxy.ackedChangesSet, if_neg hlow]
    split
    · exact hr.reopen hh
    · exact hr

variable {change : CacheChange}

lemma Ordered.addChange (hr : r.Ordered h) {entry : ChangeForReader}
    {isRelevant : Bool} (hmem : change ∈ h.changes)
    (hentry : entry.sequenceNumber = change.sequenceNumber)
    (hnext : change.sequenceNumber < h.nextSequenceNumber)
    (hlow : r.changesLowMark < change.sequenceNumber)
    (hlast : ∀ c ∈ r.changesForReader, c.sequenceNumber < change.sequenceNumber) :
    (r.addChange entry isRelevant).Ordered h := by
  rw [← hentry] at hlow hlast
  refine ⟨hr.toSorted.addChange hlow hlast, fun c hc => ?_, ?_⟩
  · rcases mem_addChange hc with hold | rfl
    · exact hr.present c hold
    · exact ⟨change, hmem, hentry.symm⟩
  · rw [ReaderProxy.addChange]
    split
    · exact hr.lowMark
    · split
      · change entry.sequenceNumber < _
        omega
      · exact hr.lowMark

lemma Ordered.move {ok : BitmapRange Nat → Prop} {fits : ReaderProxy → ReaderInfo → Prop}
    {r' : ReaderProxy} (hh : HistoryOrdered cfg h) (hr : r.Ordered h)
    (hmove : ReaderMove True ok fits h r r') : r'.Ordered h := by
  cases hmove with
  | entries hmoves => exact hr.of_map_eq rfl (map_sequenceNumber_of_moves hmoves)
  | acked hseq => exact hr.ackedChangesSet hh (hh.reached_le (hseq trivial))
  | settled hc =>
    obtain ⟨change, hchange, hnumber⟩ := hr.present _ (mem_of_getElem? hc)
    have hlt := hh.lt_next hchange
    exact (hr.eraseIdx _).ackedChangesSet hh (by omega)
  | counted | updated => exact hr.of_map_eq rfl rfl

/-- A change that leaves the history leaves the list with it. -/
theorem Ordered.changeHasBeenRemoved (hh : HistoryOrdered cfg h) (hr : r.Ordered h) (seq : Int) :
    (r.changeHasBeenRemoved h seq).1.Ordered (without h seq) := by
  have hkeep : ∀ {r' : ReaderProxy}, r'.Ordered h →
      (∀ c ∈ r'.changesForReader, c.sequenceNumber ≠ seq) → r'.Ordered (without h seq) := by
    intro r' hr' hne
    refine ⟨hr'.toSorted, fun c hc => ?_, hr'.lowMark⟩
    obtain ⟨change, hchange, hnumber⟩ := hr'.present c hc
    refine ⟨change, (mem_eraseP_of_neg ?_).mpr hchange, hnumber⟩
    simpa [hnumber] using hne c hc
  rw [ReaderProxy.changeHasBeenRemoved]
  split
  · rename_i hhead
    refine hkeep hr fun c hc => ?_
    have hincreasing := hr.increasing
    cases hlist : r.changesForReader with
    | nil => simp [hlist] at hc
    | cons d rest =>
      rw [hlist] at hc hhead hincreasing
      have hfirst : seq < d.sequenceNumber := of_decide_eq_true hhead
      rcases mem_cons.mp hc with rfl | hc
      · omega
      · have hlater := (pairwise_cons.mp hincreasing).1 c hc
        omega
  · split
    · rename_i hnone
      exact hkeep hr (hr.findChange_eq_none.mp hnone)
    · rename_i position d hfind
      obtain ⟨hget, hnumber⟩ := getElem?_of_findChange hfind
      have herased : ∀ c ∈ r.changesForReader.eraseIdx position, c.sequenceNumber ≠ seq := by
        intro c hc heq
        obtain ⟨i, hi, hne⟩ := mem_eraseIdx_iff_getElem?.mp hc
        exact hi (hr.eq_of_sequenceNumber hne hget (by omega))
      dsimp only
      split
      · have hnext : seq + 1 ≤ h.nextSequenceNumber := by
          obtain ⟨change, hchange, hsame⟩ := hr.present d (mem_of_getElem? hget)
          have hlt := hh.lt_next hchange
          omega
        refine hkeep ((hr.eraseIdx position).ackedChangesSet hh hnext) fun c hc => ?_
        have hlow' : r.changesLowMark < seq + 1 := by omega
        have hacked := (hr.toSorted.eraseIdx position).acked (h := h) hlow'
        exact herased c (hacked.sublist.mem hc)
      · exact hkeep (hr.eraseIdx position) herased

lemma Ordered.withChange (hr : r.Ordered h) (change : CacheChange) :
    r.Ordered (withChange h change) := by
  have hnext : (StatefulWriter.withChange h change).nextSequenceNumber =
    h.nextSequenceNumber + 1 := rfl
  have hlow := hr.lowMark
  refine ⟨hr.toSorted, fun c hc => ?_, by omega⟩
  obtain ⟨old, hold, heq⟩ := hr.present c hc
  exact ⟨old, mem_append_left _ hold, heq⟩

end Moves

section Starting

/-- The low mark of a new proxy without pending changes: right below the history, or at its end. -/
theorem start_eq (hh : HistoryOrdered cfg h) (info : ReaderInfo) :
    (start h info).changesForReader = [] ∧
      (start h info).changesLowMark < h.nextSequenceNumber ∧
      ∀ change ∈ h.changes, (start h info).changesLowMark < change.sequenceNumber := by
  have hnonneg := hh.nonneg
  have hnext : h.nextSequenceNumber = h.lastCacheChangeSeqNum + 1 := rfl
  by_cases hnil : h.changes = []
  · have hmin : h.getSeqNumMin = unknownSequenceNumber := by simp [WriterHistory.getSeqNumMin, hnil]
    rw [hnil]
    rw [start, ackedChangesSet, reopen]
    simp only [hmin, ne_eq, not_true_eq_false, if_false, if_true, Int.lt_irrefl]
    split
    · exact ⟨rfl, by dsimp only; omega, by simp⟩
    · rename_i hdurability
      rw [if_pos ⟨trivial, hdurability⟩]
      split
      · exact ⟨rfl, by dsimp only; omega, by simp⟩
      · exact ⟨rfl, by dsimp only; omega, by simp⟩
  · have hknown := (hh.getSeqNumMin hnil).1
    obtain ⟨first, hfirst⟩ := exists_mem_of_ne_nil _ hnil
    have hmin : 0 < h.getSeqNumMin := (hh.getSeqNumMin_le hfirst).1
    have hlt := hh.lt_next hfirst
    have hbelow : ∀ change ∈ h.changes, h.getSeqNumMin - 1 < change.sequenceNumber := by
      intro change hchange
      have hle := (hh.getSeqNumMin_le hchange).2
      omega
    have hlast : h.getSeqNumMin - 1 < h.nextSequenceNumber := by
      have hle := (hh.getSeqNumMin_le hfirst).2
      omega
    rw [start, ackedChangesSet, reopen]
    simp only [hknown, if_false, Int.lt_irrefl, ne_eq, not_false_eq_true, if_true, hmin]
    split
    · exact ⟨rfl, hlast, hbelow⟩
    · rename_i hdurability
      rw [if_pos ⟨trivial, hdurability⟩]
      have hrounds : ((0 : Int) + 1 - h.getSeqNumMin).toNat = 0 := by omega
      rw [hrounds]
      exact ⟨rfl, hlast, hbelow⟩

lemma ordered_start (hh : HistoryOrdered cfg h) (info : ReaderInfo) : (start h info).Ordered h := by
  obtain ⟨hnil, hlow, -⟩ := start_eq hh info
  exact ⟨⟨by simp [hnil], by simp [hnil]⟩, by simp [hnil], hlow⟩

end Starting

end ReaderProxy

namespace StatefulWriter

open ReaderProxy (Ordered)

variable {cfg : WriterConfig} {h : WriterHistory} {r : ReaderProxy}

/-- A late joiner that is still to get some changes of the history, in their order. -/
structure Joining (h : WriterHistory) (changes : List CacheChange) (r : ReaderProxy) : Prop where
  ordered : r.Ordered h
  sublist : changes.Sublist h.changes
  lowMark : ∀ change ∈ changes, r.changesLowMark < change.sequenceNumber
  last : ∀ change ∈ changes, ∀ c ∈ r.changesForReader, c.sequenceNumber < change.sequenceNumber

variable (hh : HistoryOrdered cfg h)
include hh

lemma Joining.step {changes : List CacheChange}
    (hr : Joining h (change :: changes) r) : Joining h changes (lateJoinerEntry cfg r change) := by
  have hmem : change ∈ h.changes := hr.sublist.mem mem_cons_self
  have hlater := (pairwise_cons.mp (hh.increasing.sublist hr.sublist)).1
  have hrest : changes.Sublist h.changes :=
    (sublist_cons_self change changes).trans hr.sublist
  have hlow := forall_mem_cons.mp hr.lowMark
  have hlast := forall_mem_cons.mp hr.last
  rw [lateJoinerEntry]
  split
  · set entry := if r.isLocalReader then ChangeForReader.ofChange change
      else ReaderProxy.unacknowledged change with hdef
    have hentry : entry.sequenceNumber = change.sequenceNumber := by
      rw [hdef]
      split <;> rfl
    refine ⟨hr.ordered.addChange hmem hentry (hh.lt_next hmem) hlow.1 hlast.1, hrest, hlow.2, ?_⟩
    intro later hmem' c hc
    rcases mem_addChange hc with hold | rfl
    · exact hlast.2 later hmem' c hold
    · rw [hentry]
      exact hlater later hmem'
  · exact ⟨hr.ordered, hrest, hlow.2, hlast.2⟩

lemma Joining.foldl {changes : List CacheChange}
    (hr : Joining h changes r) : (changes.foldl (lateJoinerEntry cfg) r).Ordered h := by
  induction changes generalizing r with
  | nil => exact hr.ordered
  | cons change changes ih => exact ih (hr.step hh)

lemma joining_start (info : ReaderInfo) :
    Joining h h.changes (ReaderProxy.start h info) := by
  obtain ⟨hnil, -, hlow⟩ := ReaderProxy.start_eq hh info
  exact ⟨ReaderProxy.ordered_start hh info, .refl _, hlow, by simp [hnil]⟩

lemma ordered_joined (info : ReaderInfo) :
    (joined cfg h (ReaderProxy.start h info)).1.Ordered h := by
  have hstart := ReaderProxy.ordered_start hh info
  rw [joined]
  split
  · exact hstart
  · split
    · split
      · exact hstart
      · split
        · exact (joining_start hh info).foldl hh
        · exact hstart
    · exact hstart.ackedChangesSet hh (Int.le_refl _)

lemma ordered_addForReader
    (hr : r.Ordered h) (hnumber : change.sequenceNumber = h.nextSequenceNumber) :
    (addForReader cfg change r).Ordered (withChange h change) := by
  have hnext : (withChange h change).nextSequenceNumber = h.nextSequenceNumber + 1 := rfl
  have hlow := hr.lowMark
  have hmem : change ∈ (withChange h change).changes := by simp [withChange]
  refine (hr.withChange change).addChange hmem ?_ (by omega) (by omega) ?_
  · split <;> rfl
  · intro c hc
    obtain ⟨old, hold, heq⟩ := hr.present c hc
    have hlt := hh.lt_next hold
    omega

end StatefulWriter

end EasyDds.Rtps
