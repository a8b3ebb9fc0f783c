import EasyDds.Lib.Run
import EasyDds.Rtps.Writer.Moves

/-!
Invariants of the runs of a writer. A property of its proxies is shown for the moves, once for each
of them, and then holds in every state of a run.
-/

namespace EasyDds.Rtps.StatefulWriter

open List

variable (cfg : WriterConfig) (tame : Prop) (ok : BitmapRange Nat → Prop)
  (fits : ReaderProxy → ReaderInfo → Prop)

section Invariants

/-- What all runs keep of a history: its changes are of its writer and in the order in which they
were numbered. -/
structure HistoryOrdered (h : WriterHistory) : Prop where
  writerGuid : h.writerGuid = cfg.guid
  guids : ∀ c ∈ h.changes, c.writerGUID = cfg.guid
  increasing : h.changes.Pairwise fun a b => a.sequenceNumber < b.sequenceNumber
  positive : ∀ c ∈ h.changes, 1 ≤ c.sequenceNumber
  written : ∀ c ∈ h.changes, c.sequenceNumber ≤ h.lastCacheChangeSeqNum
  nonneg : 0 ≤ h.lastCacheChangeSeqNum
  counted : ∀ c ∈ h.changes, c.FragmentsCounted

def without (h : WriterHistory) (seq : Int) : WriterHistory :=
  { h with changes := h.changes.eraseP fun c => decide (c.sequenceNumber = seq) }

def withChange (h : WriterHistory) (change : CacheChange) : WriterHistory :=
  { h with
    changes := h.changes ++ [change]
    lastCacheChangeSeqNum := h.nextSequenceNumber }

variable {cfg tame ok fits} {w w' : StatefulWriter} {h : WriterHistory}

lemma HistoryOrdered.without (hh : HistoryOrdered cfg h) (seq : Int) :
    HistoryOrdered cfg (without h seq) where
  writerGuid := hh.writerGuid
  guids c hc := hh.guids c (mem_of_mem_eraseP hc)
  increasing := hh.increasing.sublist eraseP_sublist
  positive c hc := hh.positive c (mem_of_mem_eraseP hc)
  written c hc := hh.written c (mem_of_mem_eraseP hc)
  nonneg := hh.nonneg
  counted c hc := hh.counted c (mem_of_mem_eraseP hc)

lemma HistoryOrdered.withChange (hh : HistoryOrdered cfg h) {change : CacheChange}
    (hnumber : change.sequenceNumber = h.nextSequenceNumber) (hguid : change.writerGUID = cfg.guid)
    (hcounted : change.FragmentsCounted) : HistoryOrdered cfg (withChange h change) := by
  have hnext : h.nextSequenceNumber = h.lastCacheChangeSeqNum + 1 := rfl
  have hnonneg := hh.nonneg
  refine ⟨hh.writerGuid, fun c hc => ?_, ?_, fun c hc => ?_, fun c hc => ?_, ?_, fun c hc => ?_⟩
  · rcases mem_append.mp hc with hold | hnew
    · exact hh.guids c hold
    · rwa [mem_singleton.mp hnew]
  · refine pairwise_append.mpr ⟨hh.increasing, pairwise_singleton _ _, ?_⟩
    intro a ha b hb
    have hwritten := hh.written a ha
    rw [mem_singleton.mp hb]
    omega
  · rcases mem_append.mp hc with hold | hnew
    · exact hh.positive c hold
    · rw [mem_singleton.mp hnew]
      omega
  · change c.sequenceNumber ≤ h.nextSequenceNumber
    rcases mem_append.mp hc with hold | hnew
    · have hwritten := hh.written c hold
      omega
    · rw [mem_singleton.mp hnew]
      omega
  · change 0 ≤ h.nextSequenceNumber
    omega
  · rcases mem_append.mp hc with hold | hnew
    · exact hh.counted c hold
    · rwa [mem_singleton.mp hnew]

lemma HistoryOrdered.move (hh : HistoryOrdered cfg w.history) (hmove : Move cfg tame ok fits w w') :
    HistoryOrdered cfg w'.history := by
  cases hmove with
  | readers => exact hh
  | removed seq =>
    rw [removeChange]
    split
    · exact hh.without seq
    · exact hh
  | wrote hnumber hguid hcounted => exact hh.withChange hnumber hguid hcounted
  | joined => exact hh
  | left => exact hh
  | counters => exact hh

variable (cfg tame ok fits) in
/-- A property of the proxies that the moves keep. It may speak about the history. -/
structure ReaderInvariant (P : WriterHistory → ReaderProxy → Prop) : Prop where
  move : ∀ {h r r'}, HistoryOrdered cfg h → P h r → ReaderMove tame ok fits h r r' → P h r'
  removed : ∀ {h r} (seq : Int), HistoryOrdered cfg h → P h r →
    P (StatefulWriter.without h seq) (r.changeHasBeenRemoved h seq).1
  wrote : ∀ {h r change}, HistoryOrdered cfg h →
    HistoryOrdered cfg (StatefulWriter.withChange h change) → P h r →
    change.sequenceNumber = h.nextSequenceNumber →
    P (StatefulWriter.withChange h change) (addForReader cfg change r)
  joined : ∀ {h} (info : ReaderInfo), HistoryOrdered cfg h →
    P h (StatefulWriter.joined cfg h (ReaderProxy.start h info)).1

variable (cfg) in
def Kept (P : WriterHistory → ReaderProxy → Prop) (w : StatefulWriter) : Prop :=
  HistoryOrdered cfg w.history ∧ ∀ r ∈ w.matchedReaders, P w.history r

namespace ReaderInvariant

variable {P : WriterHistory → ReaderProxy → Prop}

variable (hP : ReaderInvariant cfg tame ok fits P)
include hP

lemma moves (hh : HistoryOrdered cfg h)
    {r r' : ReaderProxy} (hr : P h r) (hmoves : ReaderProxy.Moves tame ok fits h r r') :
      P h r' := by
  induction hmoves with
  | refl => exact hr
  | tail _ hmove ih => exact hP.move hh ih hmove

lemma forall₂ (hh : HistoryOrdered cfg h)
    {rs rs' : List ReaderProxy} (hrs : ∀ r ∈ rs, P h r)
    (hmoves : Forall₂ (ReaderProxy.Moves tame ok fits h) rs rs') : ∀ r ∈ rs', P h r := by
  induction hmoves with
  | nil => simp
  | cons hhead _ ih =>
    simp only [forall_mem_cons] at hrs ⊢
    exact ⟨hP.moves hh hrs.1 hhead, ih hrs.2⟩

lemma step_move (hh : HistoryOrdered cfg w.history)
    (hw : ∀ r ∈ w.matchedReaders, P w.history r) (hmove : Move cfg tame ok fits w w') :
    ∀ r ∈ w'.matchedReaders, P w'.history r := by
  cases hmove with
  | readers hlocals hdatasharing hremotes =>
    simp only [matchedReaders, forall_mem_append] at hw ⊢
    exact ⟨⟨hP.forall₂ hh hw.1.1 hlocals, hP.forall₂ hh hw.1.2 hdatasharing⟩,
      hP.forall₂ hh hw.2 hremotes⟩
  | removed seq =>
    rw [removeChange]
    split
    · simp only [matchedReaders, mapReaders, forall_mem_append, forall_mem_map] at hw ⊢
      exact ⟨⟨fun r hr => hP.removed seq hh (hw.1.1 r hr),
        fun r hr => hP.removed seq hh (hw.1.2 r hr)⟩, fun r hr => hP.removed seq hh (hw.2 r hr)⟩
    · exact hw
  | wrote hnumber hguid hcounted =>
    have hh' := hh.withChange hnumber hguid hcounted
    simp only [matchedReaders, mapReaders, forall_mem_append, forall_mem_map] at hw ⊢
    exact ⟨⟨fun r hr => hP.wrote hh hh' (hw.1.1 r hr) hnumber, fun r hr => hP.wrote hh hh'
      (hw.1.2 r hr) hnumber⟩, fun r hr => hP.wrote hh hh' (hw.2 r hr) hnumber⟩
  | joined info hreaders =>
    intro r hr
    rcases hreaders r hr with hold | rfl
    · exact hw r hold
    · exact hP.joined info hh
  | left hreaders => exact fun r hr => hw r (hreaders r hr)
  | counters notified last => exact hw

lemma step_moves (hmoves : Moves cfg tame ok fits w w')
    (hw : Kept cfg P w) : Kept cfg P w' := by
  induction hmoves with
  | refl => exact hw
  | tail _ hmove ih => exact ⟨ih.1.move hmove, hP.step_move ih.1 ih.2 hmove⟩

end ReaderInvariant

section Entries

open ReaderProxy

variable {c : ChangeForReader} {entries : List ChangeForReader} {seq : Int} {r : ReaderProxy}

lemma mem_skipAcknowledged (hc : c ∈ (skipAcknowledged entries seq).1) : c ∈ entries := by
  induction entries generalizing seq with
  | nil => exact hc
  | cons d entries ih =>
    rw [skipAcknowledged] at hc
    split at hc
    · exact mem_cons_of_mem _ (ih hc)
    · exact hc

lemma mem_takeBack {lowMark : Int} {current : Int}
    (hc : c ∈ (takeBack h lowMark entries current).1) :
    c ∈ entries ∨ ∃ change ∈ h.changes, c = unacknowledged change := by
  rw [takeBack] at hc
  split at hc
  · split at hc
    · rename_i change hget
      rcases mem_append.mp hc with hold | hnew
      · exact .inl hold
      · exact .inr ⟨change, mem_of_getChange hget, mem_singleton.mp hnew⟩
    · exact .inl hc
  · exact .inl hc

lemma mem_takeBackAll {lowMark : Int} {rounds : Nat} {current : Int}
    (hc : c ∈ takeBackAll h lowMark rounds entries current) :
    c ∈ entries ∨ ∃ change ∈ h.changes, c = unacknowledged change := by
  induction rounds generalizing entries current with
  | zero => exact .inl hc
  | succ rounds ih =>
    rw [takeBackAll] at hc
    split at hc
    · rcases ih hc with hold | hnew
      · exact mem_takeBack hold
      · exact .inr hnew
    · exact .inl hc

/-- Acknowledgements bring back nothing but changes of the history. -/
theorem mem_ackedChangesSet (hc : c ∈ (r.ackedChangesSet h seq).changesForReader) :
    c ∈ r.changesForReader ∨ ∃ change ∈ h.changes, c = unacknowledged change := by
  rw [ackedChangesSet] at hc
  split at hc
  · exact .inl (mem_of_mem_drop (mem_skipAcknowledged hc))
  · split at hc
    · rw [reopen] at hc
      split at hc
      · exact mem_takeBackAll ((mem_insertionSort _).mp hc)
      · split at hc <;> exact .inl hc
    · exact .inl hc

lemma mem_addChange {entry : ChangeForReader} {isRelevant : Bool}
    (hc : c ∈ (r.addChange entry isRelevant).changesForReader) :
    c ∈ r.changesForReader ∨ c = entry := by
  rw [ReaderProxy.addChange] at hc
  split at hc
  · rcases mem_append.mp hc with hold | hnew
    · exact .inl hold
    · exact .inr (mem_singleton.mp hnew)
  · split at hc <;> exact .inl hc

lemma mem_changeHasBeenRemoved (hc : c ∈ (r.changeHasBeenRemoved h seq).1.changesForReader) :
    c ∈ r.changesForReader ∨ ∃ change ∈ h.changes, c = unacknowledged change := by
  rw [changeHasBeenRemoved] at hc
  split at hc
  · exact .inl hc
  · split at hc
    · exact .inl hc
    · dsimp only at hc
      split at hc
      · exact (mem_ackedChangesSet hc).imp_left mem_of_mem_eraseIdx
      · exact .inl (mem_of_mem_eraseIdx hc)

variable (cfg ok) in
/-- A property of single entries that new entries have and the moves of entries keep. -/
structure EntryInvariant (E : WriterHistory → ChangeForReader → Prop) : Prop where
  fresh : ∀ {h change}, HistoryOrdered cfg h → change ∈ h.changes → ∀ status,
    E h ((ChangeForReader.ofChange change).setStatus status)
  move : ∀ {h c c'}, E h c → EntryMove ok c c' → E h c'
  removed : ∀ {h c} (seq : Int), E h c → E (StatefulWriter.without h seq) c
  wrote : ∀ {h c} (change : CacheChange), E h c → E (StatefulWriter.withChange h change) c

variable {E : WriterHistory → ChangeForReader → Prop}

variable (hE : EntryInvariant cfg ok E)
include hE

lemma EntryInvariant.moves {c' : ChangeForReader} (hc : E h c)
    (hmoves : Relation.ReflTransGen (EntryMove ok) c c') : E h c' := by
  induction hmoves with
  | refl => exact hc
  | tail _ hmove ih => exact hE.move ih hmove

lemma EntryInvariant.forall₂
    {cs cs' : List ChangeForReader} (hcs : ∀ c ∈ cs, E h c)
    (hmoves : Forall₂ (Relation.ReflTransGen (EntryMove ok)) cs cs') : ∀ c ∈ cs', E h c := by
  induction hmoves with
  | nil => simp
  | cons hhead _ ih =>
    simp only [forall_mem_cons] at hcs ⊢
    exact ⟨hE.moves hcs.1 hhead, ih hcs.2⟩

lemma EntryInvariant.acked (hh : HistoryOrdered cfg h)
    (hr : ∀ c ∈ r.changesForReader, E h c) (seq : Int) :
    ∀ c ∈ (r.ackedChangesSet h seq).changesForReader, E h c := by
  intro c hc
  rcases mem_ackedChangesSet hc with hold | ⟨change, hmem, rfl⟩
  · exact hr c hold
  · exact hE.fresh hh hmem _

lemma EntryInvariant.joined (hh : HistoryOrdered cfg h)
    (hr : ∀ c ∈ r.changesForReader, E h c) :
    ∀ c ∈ (StatefulWriter.joined cfg h r).1.changesForReader, E h c := by
  have hfold : ∀ (changes : List CacheChange) (r : ReaderProxy),
      (∀ change ∈ changes, change ∈ h.changes) → (∀ c ∈ r.changesForReader, E h c) →
      ∀ c ∈ (changes.foldl (lateJoinerEntry cfg) r).changesForReader, E h c := by
    intro changes
    induction changes with
    | nil => exact fun r _ hr => hr
    | cons change changes ih =>
      intro r hmem hr
      refine ih _ (fun d hd => hmem d (mem_cons_of_mem _ hd)) fun c hc => ?_
      rw [lateJoinerEntry] at hc
      split at hc
      · rcases mem_addChange hc with hold | rfl
        · exact hr c hold
        · have hchange := hmem change (by simp)
          split
          · exact hE.fresh hh hchange .unsent
          · exact hE.fresh hh hchange _
      · exact hr c hc
  rw [StatefulWriter.joined]
  split
  · exact hr
  · split
    · split
      · exact hr
      · split
        · exact hfold _ r (fun _ hd => hd) hr
        · exact hr
    · exact hE.acked hh hr _

lemma EntryInvariant.readerInvariant :
    ReaderInvariant cfg tame ok fits fun h r => ∀ c ∈ r.changesForReader, E h c where
  move := by
    intro h r r' hh hr hmove
    cases hmove with
    | entries hmoves => exact hE.forall₂ hr hmoves
    | acked => exact hE.acked hh hr _
    | settled hc => exact hE.acked hh (fun c hc => hr c (mem_of_mem_eraseIdx hc)) _
    | counted => exact hr
    | updated => exact hr
  removed := by
    intro h r seq hh hr c hc
    rcases mem_changeHasBeenRemoved hc with hold | ⟨change, hmem, rfl⟩
    · exact hE.removed seq (hr c hold)
    · exact hE.removed seq (hE.fresh hh hmem _)
  wrote := by
    intro h r change hh hh' hr hnumber c hc
    have hmem : change ∈ (StatefulWriter.withChange h change).changes := by
      simp [StatefulWriter.withChange]
    rcases mem_addChange hc with hold | rfl
    · exact hE.wrote change (hr c hold)
    · split
      · exact hE.fresh hh' hmem .unsent
      · exact hE.fresh hh' hmem _
  joined := by
    intro h info hh
    apply hE.joined hh
    rw [ReaderProxy.start]
    split
    · simp
    · exact hE.acked hh (by simp) _

end Entries

end Invariants

lemma historyOrdered_initial : HistoryOrdered cfg (initial cfg).history := by
  refine ⟨rfl, ?_, ?_, ?_, ?_, Int.le_refl _, ?_⟩ <;> simp [initial]

/-- A property that the moves keep holds in every state of a run whose steps are all `tame`, if the
property asks for it, and ask for nothing but the fragments and announce nothing but the readers
they should. -/
theorem ReaderInvariant.run {tame : Prop} {ok : BitmapRange Nat → Prop}
    {fits : ReaderProxy → ReaderInfo → Prop} {P : WriterHistory → ReaderProxy → Prop}
    (hP : ReaderInvariant cfg tame ok fits P) {ops : List Op}
    (hrun : RunsWith (fun w op => (step cfg w op).1)
      (fun w op => (tame → w.Tame op) ∧ op.Asks ok ∧ w.Announces fits op) (initial cfg) ops) :
    Kept cfg P (StatefulWriter.run cfg (initial cfg) ops) := by
  apply RunsWith.keeps (I := Kept cfg P) _ _ hrun
  · exact fun w op hw hop => hP.step_moves (moves_step op hop.1 hop.2.1 hop.2.2) hw
  · exact ⟨historyOrdered_initial cfg, by simp [initial, matchedReaders]⟩

end EasyDds.Rtps.StatefulWriter
