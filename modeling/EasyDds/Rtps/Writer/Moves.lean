import Mathlib.Logic.Relation
import EasyDds.Rtps.Writer.Delivery

/-!
What can happen to a writer, taken apart into small moves. Every step of a run is a sequence of
them, so what the moves keep is kept by every run.
-/

namespace EasyDds.Rtps

open ReaderProxy List Option

open Relation

/-- What can happen to an entry of a proxy. `ok` restricts the fragments a reader asks for. -/
inductive EntryMove (ok : BitmapRange Nat → Prop) : ChangeForReader → ChangeForReader → Prop
  | status (c : ChangeForReader) (status : ChangeForReaderStatus) :
    EntryMove ok c (c.setStatus status)
  | allUnsent (c : ChangeForReader) : EntryMove ok c c.markAllFragmentsAsUnsent
  | sent (c : ChangeForReader) (fragment : Nat) : EntryMove ok c (c.markFragmentsAsSent fragment)
  | requested (c : ChangeForReader) {fragments : BitmapRange Nat} (h : ok fragments) :
    EntryMove ok c (c.markFragmentsAsUnsent fragments)
  | delivered (c : ChangeForReader) : EntryMove ok c c.setDelivered

/-- A number up to which a reader may be told that it has everything. -/
def WriterHistory.Reached (h : WriterHistory) (seq : Int) : Prop :=
  seq ≤ h.nextSequenceNumber ∨ ∃ c ∈ h.changes, seq ≤ c.sequenceNumber + 1

/-- What can happen to a proxy while the history stays as it is. In a `tame` run readers are told
only that they have numbers that have been written. `fits` restricts what a reader announces anew
about itself. -/
inductive ReaderMove (tame : Prop) (ok : BitmapRange Nat → Prop)
  (fits : ReaderProxy → ReaderInfo → Prop) (h : WriterHistory) :
    ReaderProxy → ReaderProxy → Prop
  | entries (r : ReaderProxy) {entries : List ChangeForReader}
      (hmoves : Forall₂ (ReflTransGen (EntryMove ok)) r.changesForReader entries) :
    ReaderMove tame ok fits h r { r with changesForReader := entries }
  | acked (r : ReaderProxy) {seq : Int} (hseq : tame → h.Reached seq) :
    ReaderMove tame ok fits h r (r.ackedChangesSet h seq)
  | settled (r : ReaderProxy) {position : Nat} {c : ChangeForReader}
      (hc : r.changesForReader[position]? = some c) :
    ReaderMove tame ok fits h r
      ({ r with changesForReader := r.changesForReader.eraseIdx position }.ackedChangesSet h
        (c.sequenceNumber + 1))
  | counted (r : ReaderProxy) (acknacks nackfrags : Nat) : ReaderMove tame ok fits h r
      { r with nextExpectedAcknackCount := acknacks, lastNackfragCount := nackfrags }
  | updated (r : ReaderProxy) {info : ReaderInfo} (hfits : fits r info) :
    ReaderMove tame ok fits h r (r.update info)

namespace ReaderProxy

variable {tame : Prop} {ok : BitmapRange Nat → Prop}
  {fits : ReaderProxy → ReaderInfo → Prop} {h : WriterHistory} {r r' : ReaderProxy}

abbrev Moves (tame : Prop) (ok : BitmapRange Nat → Prop)
  (fits : ReaderProxy → ReaderInfo → Prop) (h : WriterHistory) :
    ReaderProxy → ReaderProxy → Prop :=
  ReflTransGen (ReaderMove tame ok fits h)

lemma forall₂_modify {α : Type} {R : α → α → Prop} (hrefl : ∀ a, R a a) {f : α → α}
    (hf : ∀ a, R a (f a)) (as : List α) (i : Nat) : Forall₂ R as (as.modify i f) := by
  induction as generalizing i with
  | nil => simp
  | cons a as ih =>
    cases i with
    | zero =>
      exact .cons (hf a) (forall₂_same.mpr fun b _ => hrefl b)
    | succ i =>
      exact .cons (hrefl a) (ih i)

lemma forall₂_map {α : Type} {R : α → α → Prop} {f : α → α} {as : List α}
    (hf : ∀ a ∈ as, R a (f a)) : Forall₂ R as (as.map f) := by
  rw [List.forall₂_map_right_iff]
  exact forall₂_same.mpr hf

lemma moves_modifyChange (r : ReaderProxy) (position : Nat)
    {f : ChangeForReader → ChangeForReader} (hf : ∀ c, ReflTransGen (EntryMove ok) c (f c)) :
    Moves tame ok fits h r (r.modifyChange position f) :=
  .single (.entries r (forall₂_modify (fun _ => .refl) hf _ position))

lemma moves_convertStatusOnAllChanges (r : ReaderProxy) (previous next : ChangeForReaderStatus) :
    Moves tame ok fits h r (r.convertStatusOnAllChanges previous next) := by
  refine .single (.entries r (forall₂_map fun c _ => ?_))
  split
  · exact .single (.status c next)
  · exact .refl

lemma moves_requestChange (minSeq : Int) (state : ReaderProxy × GapBuilder × Bool) (sit : Int) :
    Moves tame ok fits h state.1 (requestChange minSeq state sit).1 := by
  rw [requestChange]
  split
  · split
    · exact moves_modifyChange _ _ fun c => .tail (.single (.status c _)) (.allUnsent _)
    · exact .refl
  · split <;> exact .refl

lemma moves_requestedChangesSet (r : ReaderProxy) (seqNumSet : BitmapRange Int)
    (gapBuilder : GapBuilder) (minSeq : Int) :
    Moves tame ok fits h r (r.requestedChangesSet seqNumSet gapBuilder minSeq).1 := by
  have hfold : ∀ (sits : List Int) (state : ReaderProxy × GapBuilder × Bool),
      Moves tame ok fits h state.1 (sits.foldl (requestChange minSeq) state).1 := by
    intro sits
    induction sits with
    | nil => exact fun _ => .refl
    | cons sit sits ih => exact fun state => (moves_requestChange minSeq state sit).trans (ih _)
  rw [requestedChangesSet]
  split
  · exact hfold _ (r, gapBuilder, false)
  · exact .refl

lemma getElem?_of_findChange {seq : Int} {position : Nat} {c : ChangeForReader}
    (hfind : r.findChange seq = some (position, c)) :
    r.changesForReader[position]? = some c ∧ c.sequenceNumber = seq := by
  rw [findChange, bind_eq_some_iff] at hfind
  obtain ⟨d, hd, hif⟩ := hfind
  split at hif
  · obtain ⟨rfl, rfl⟩ := Prod.mk.inj (some.inj hif)
    exact ⟨hd, ‹_›⟩
  · cases hif

lemma moves_fromUnsentToStatus (r : ReaderProxy) (seq : Int) (status : ChangeForReaderStatus)
    (delivered : Bool) : Moves tame ok fits h r (r.fromUnsentToStatus h seq status delivered) := by
  rw [fromUnsentToStatus]
  split
  · exact .refl
  · rename_i position c hfind
    obtain ⟨hc, rfl⟩ := getElem?_of_findChange hfind
    split
    · exact .single (.settled r hc)
    · refine moves_modifyChange _ _ fun d => ?_
      split
      · exact .tail (.single (.status d _)) (.delivered _)
      · exact .single (.status d _)

lemma moves_markFragmentAsSentForChange (r : ReaderProxy) (seq : Int) (fragment : Nat) :
    Moves tame ok fits h r (r.markFragmentAsSentForChange seq fragment).1 := by
  rw [markFragmentAsSentForChange]
  split
  · exact .refl
  · split
    · exact .refl
    · exact moves_modifyChange _ _ fun c => .single (.sent c fragment)

lemma moves_processNackFrag (r : ReaderProxy) (count : Nat) (seq : Int)
    {fragments : BitmapRange Nat} (hok : ok fragments) :
    Moves tame ok fits h r (r.processNackFrag count seq fragments) := by
  rw [processNackFrag]
  split
  · refine .head (.counted r r.nextExpectedAcknackCount count) ?_
    rw [requestedFragmentSet]
    split
    · exact .refl
    · refine moves_modifyChange _ _ fun c => ?_
      dsimp only
      split
      · exact .tail (.single (.requested c hok)) (.status _ _)
      · exact .single (.requested c hok)
  · exact .refl

lemma moves_acked_of_mem (r : ReaderProxy) {change : CacheChange} (hmem : change ∈ h.changes)
    {seq : Int} (hseq : seq ≤ change.sequenceNumber + 1) :
    Moves tame ok fits h r (r.ackedChangesSet h seq) :=
  .single (.acked r fun _ => .inr ⟨change, hmem, hseq⟩)

end ReaderProxy

namespace StatefulWriter

variable (cfg : WriterConfig) (tame : Prop) (ok : BitmapRange Nat → Prop)
  (fits : ReaderProxy → ReaderInfo → Prop) {R : ReaderProxy → ReaderProxy → Prop}

inductive Move : StatefulWriter → StatefulWriter → Prop
  | readers (w : StatefulWriter) {locals datasharing remotes : List ReaderProxy}
      (hlocals : Forall₂ (Moves tame ok fits w.history) w.matchedLocalReaders locals)
      (hdatasharing : Forall₂ (Moves tame ok fits w.history)
        w.matchedDatasharingReaders datasharing)
      (hremotes : Forall₂ (Moves tame ok fits w.history) w.matchedRemoteReaders remotes) :
    Move w { w with
      matchedLocalReaders := locals
      matchedDatasharingReaders := datasharing
      matchedRemoteReaders := remotes }
  | removed (w : StatefulWriter) (seq : Int) : Move w (w.removeChange seq).1
  | wrote (w : StatefulWriter) {change : CacheChange}
      (hnumber : change.sequenceNumber = w.nextSequenceNumber)
      (hguid : change.writerGUID = cfg.guid) (hcounted : change.FragmentsCounted) :
    Move w ((w.pushChange change).mapReaders (addForReader cfg change))
  | joined (w : StatefulWriter) (info : ReaderInfo) {locals datasharing remotes : List ReaderProxy}
      (hreaders : ∀ r ∈ locals ++ datasharing ++ remotes,
        r ∈ w.matchedReaders ∨ r = (joined cfg w.history (start w.history info)).1) :
    Move w { w with
      matchedLocalReaders := locals
      matchedDatasharingReaders := datasharing
      matchedRemoteReaders := remotes }
  | left (w : StatefulWriter) {locals datasharing remotes : List ReaderProxy}
      (hreaders : ∀ r ∈ locals ++ datasharing ++ remotes, r ∈ w.matchedReaders) :
    Move w { w with
      matchedLocalReaders := locals
      matchedDatasharingReaders := datasharing
      matchedRemoteReaders := remotes }
  | counters (w : StatefulWriter) (notified last : Int) :
    Move w { w with nextAllAckedNotifySequence := notified, lastSequenceNumber := last }

abbrev Moves : StatefulWriter → StatefulWriter → Prop := ReflTransGen (Move cfg tame ok fits)

section Refinement

variable {cfg tame ok fits} {w : StatefulWriter}

lemma forall₂_refl (h : WriterHistory) (rs : List ReaderProxy) :
    Forall₂ (ReaderProxy.Moves tame ok fits h) rs rs :=
  forall₂_same.mpr fun _ _ => .refl

variable {f : ReaderProxy → ReaderProxy}

lemma moves_mapReaders (hf : ∀ r, ReaderProxy.Moves tame ok fits w.history r (f r)) :
    Moves cfg tame ok fits w (w.mapReaders f) :=
  .single (.readers w (ReaderProxy.forall₂_map fun r _ => hf r)
    (ReaderProxy.forall₂_map fun r _ => hf r) (ReaderProxy.forall₂_map fun r _ => hf r))

lemma moves_remoteReaders {remotes : List ReaderProxy}
    (hremotes : Forall₂ (ReaderProxy.Moves tame ok fits w.history) w.matchedRemoteReaders remotes) :
    Moves cfg tame ok fits w { w with matchedRemoteReaders := remotes } :=
  .single (.readers w (forall₂_refl _ _) (forall₂_refl _ _) hremotes)

/-- The proxy that `f` is applied to is the first one with the given id. -/
theorem forall₂_updateFirst (hrefl : ∀ r, R r r) {guid : Guid} {rs : List ReaderProxy}
    (hf : ∀ r, rs.find? (fun r => decide (r.guid = guid)) = some r → R r (f r)) :
    Forall₂ R rs (updateFirst guid f rs) := by
  induction rs with
  | nil => exact .nil
  | cons r rs ih =>
    rw [updateFirst]
    split
    · rename_i hguid
      exact .cons (hf r (by simp [hguid])) (forall₂_same.mpr fun s _ => hrefl s)
    · rename_i hguid
      refine .cons (hrefl r) (ih fun s hs => hf s ?_)
      rw [find?_cons_of_neg (by simpa using hguid)]
      exact hs

lemma moves_updateReader {guid : Guid}
    (hf : ∀ r, w.findReader guid = some r → ReaderProxy.Moves tame ok fits w.history r (f r)) :
    Moves cfg tame ok fits w (w.updateReader guid f) := by
  have hnone : ∀ {rs : List ReaderProxy}, ¬ (rs.any fun r => decide (r.guid = guid)) = true →
      rs.find? (fun r => decide (r.guid = guid)) = none := by
    intro rs h
    rw [find?_eq_none]
    intro r hr hguid
    exact h (any_eq_true.mpr ⟨r, hr, hguid⟩)
  rw [updateReader]
  split
  · refine .single (.readers w (forall₂_updateFirst (fun _ => .refl) fun r hr => hf r ?_)
      (forall₂_refl _ _) (forall₂_refl _ _))
    rw [findReader, matchedReaders, append_assoc, find?_append, hr, some_or]
  · rename_i hlocal
    split
    · refine .single (.readers w (forall₂_refl _ _)
        (forall₂_updateFirst (fun _ => .refl) fun r hr => hf r ?_) (forall₂_refl _ _))
      rw [findReader, matchedReaders, append_assoc, find?_append, hnone hlocal,
        none_or, find?_append, hr, some_or]
    · rename_i hshared
      refine moves_remoteReaders (forall₂_updateFirst (fun _ => .refl) fun r hr => hf r ?_)
      rw [findReader, matchedReaders, append_assoc, find?_append, hnone hlocal,
        none_or, find?_append, hnone hshared, none_or, hr]

lemma moves_notifyBackwards (removes : CacheChange → Bool) (endSeq : Int)
    (changes : List CacheChange) (w : StatefulWriter) :
    Moves cfg tame ok fits w (notifyBackwards removes endSeq changes w).1 := by
  induction changes generalizing w with
  | nil => exact .refl
  | cons change older ih =>
    have htold : Moves cfg tame ok fits w
        (if removes change then w.removeChange change.sequenceNumber else (w, [])).1 := by
      split
      · exact .single (.removed w _)
      · exact .refl
    rw [notifyBackwards]
    split
    · exact .refl
    · dsimp only
      split
      · exact htold.trans (ih _)
      · exact htold

lemma moves_notifyAcked : Moves cfg tame ok fits w (w.notifyAcked cfg).1 := by
  rw [notifyAcked]
  split
  · refine .tail ?_ (.counters _ _ _)
    split
    · split
      · exact moves_notifyBackwards _ _ _ w
      · exact .refl
    · exact .refl
  · exact .refl

lemma moves_checkAckedStatus : Moves cfg tame ok fits w (w.checkAckedStatus cfg).1 := by
  rw [checkAckedStatus]
  split
  · exact .tail moves_notifyAcked (.counters _ _ _)
  · exact moves_notifyAcked

lemma mem_of_getChange {h : WriterHistory} {seq : Int} {change : CacheChange}
    (hget : h.getChange seq = some change) : change ∈ h.changes := by
  have hfrom : ∀ (changes : List CacheChange) (position : Nat),
      (ReaderHistory.getChangeFrom seq h.writerGuid position changes).2 = some change →
        change ∈ changes := by
    intro changes
    induction changes with
    | nil => simp [ReaderHistory.getChangeFrom]
    | cons c changes ih =>
      intro position hfound
      rw [ReaderHistory.getChangeFrom] at hfound
      split at hfound
      · split at hfound
        · simp_all
        · split at hfound
          · simp at hfound
          · exact mem_cons_of_mem _ (ih _ hfound)
      · exact mem_cons_of_mem _ (ih _ hfound)
  exact hfrom _ _ hget

section Delivering

variable {h : WriterHistory} {change : CacheChange}

lemma moves_tellGap (hmem : change ∈ h.changes) (gapSeq : Int) (r : ReaderProxy) :
    ReaderProxy.Moves tame ok fits h r (tellGap h change gapSeq r).1 := by
  rw [tellGap]
  split
  · exact ReaderProxy.moves_acked_of_mem r hmem (by omega)
  · exact .refl

lemma moves_deliverToLocal (hmem : change ∈ h.changes) (delivered : Bool) (r : ReaderProxy) :
    ReaderProxy.Moves tame ok fits h r (deliverToLocal h change delivered r).1 := by
  rw [deliverToLocal]
  split
  · exact .refl
  · rename_i unsent hunsent
    have htold : ReaderProxy.Moves tame ok fits h r (tellGap h change unsent.gapSeq r).1 :=
      moves_tellGap hmem unsent.gapSeq r
    dsimp only
    split
    · exact htold.trans (ReaderProxy.moves_acked_of_mem _ hmem (Int.le_refl _))
    · exact htold.trans (ReaderProxy.moves_fromUnsentToStatus _ _ _ _)

lemma moves_deliverToDatasharing (hmem : change ∈ h.changes) (r : ReaderProxy) :
    ReaderProxy.Moves tame ok fits h r (deliverToDatasharing h change r) := by
  rw [deliverToDatasharing]
  split
  · exact .refl
  · split
    · exact ReaderProxy.moves_acked_of_mem _ hmem (Int.le_refl _)
    · exact ReaderProxy.moves_fromUnsentToStatus _ _ _ _

lemma moves_submessageSent (hmem : change ∈ h.changes) (m : Submessage) (r : ReaderProxy) :
    ReaderProxy.Moves tame ok fits h r (submessageSent h change m r) := by
  have hall : ∀ r, ReaderProxy.Moves tame ok fits h r (allSent h change r) := by
    intro r
    rw [allSent]
    split
    · exact ReaderProxy.moves_acked_of_mem _ hmem (Int.le_refl _)
    · exact ReaderProxy.moves_fromUnsentToStatus _ _ _ _
  cases m with
  | data => exact hall r
  | nothing => exact .refl
  | dataFrag fragment =>
    have hmark : ReaderProxy.Moves tame ok fits h r
        (r.markFragmentAsSentForChange change.sequenceNumber fragment).1 :=
      ReaderProxy.moves_markFragmentAsSentForChange r _ _
    rw [submessageSent, fragmentSent]
    split
    · exact hmark.trans (hall _)
    · exact hmark

lemma forall₂_mapIdx {f : Nat → ReaderProxy → ReaderProxy}
    (hf : ∀ i r, R r (f i r)) (rs : List ReaderProxy) : Forall₂ R rs (rs.mapIdx f) := by
  rw [List.forall₂_iff_get]
  refine ⟨by simp, fun i hi hi' => ?_⟩
  simpa using hf i _

lemma forall₂_sendTogether (hmem : change ∈ h.changes) (m : Submessage)
    (outcome : Nat → SendOutcome) (chosen : List Nat) (readers : List ReaderProxy) (calls : Nat) :
    Forall₂ (ReaderProxy.Moves tame ok fits h) readers
      (sendTogether cfg h change m outcome chosen readers calls).readers := by
  rw [sendTogether]
  split
  · exact forall₂_refl h readers
  · split
    · refine forall₂_mapIdx (fun i r => ?_) readers
      split
      · exact moves_submessageSent hmem m r
      · exact .refl
    · exact forall₂_refl h readers

lemma forall₂_trans (htrans : ∀ {a b c}, R a b → R b c → R a c)
    {as bs cs : List ReaderProxy} (hab : Forall₂ R as bs) (hbc : Forall₂ R bs cs) :
    Forall₂ R as cs := by
  induction hab generalizing cs with
  | nil => exact hbc
  | cons hhead _ ih =>
    cases hbc with
    | cons hhead' htail => exact .cons (htrans hhead hhead') (ih htail)

lemma forall₂_sendSeparately (hmem : change ∈ h.changes) (m : Submessage)
    (outcome : Nat → SendOutcome) (chosen : List Nat) (s : Sending) :
    Forall₂ (ReaderProxy.Moves tame ok fits h) s.readers
      (sendSeparately h change m outcome chosen s).readers := by
  induction chosen generalizing s with
  | nil => exact forall₂_refl h s.readers
  | cons i rest ih =>
    rw [sendSeparately]
    split
    · exact forall₂_refl h s.readers
    · split
      · refine forall₂_trans (fun hab hbc => hab.trans hbc) ?_ (ih _)
        exact ReaderProxy.forall₂_modify (fun _ => .refl) (moves_submessageSent hmem m) _ i
      · exact ih { s with calls := s.calls + 1, outputs := _, code := _ }
      · exact forall₂_refl h s.readers
      · exact forall₂_refl h s.readers

lemma moves_networkPass (outcome : Nat → SendOutcome) (hmem : change ∈ w.history.changes)
    (calls : Nat) : Moves cfg tame ok fits w (networkPass cfg outcome w change calls).1 := by
  have hreaders : Forall₂ (ReaderProxy.Moves tame ok fits w.history) w.matchedRemoteReaders
      (passSending cfg outcome w change calls (scan w change)).readers := by
    rw [passSending]
    split
    · exact forall₂_refl _ _
    · split
      · exact forall₂_sendSeparately hmem _ _ _ ⟨w.matchedRemoteReaders, calls, [], .delivered⟩
      · exact forall₂_sendTogether hmem _ _ _ _ _
  exact .tail (moves_remoteReaders hreaders) (.counters _ w.nextAllAckedNotifySequence _)

lemma moves_networkLoop (outcome : Nat → SendOutcome) (passes : Nat) (calls : Nat)
    (hmem : change ∈ w.history.changes) :
    Moves cfg tame ok fits w (networkLoop cfg outcome change passes w calls).2.1 := by
  induction passes generalizing w calls with
  | zero => exact .refl
  | succ passes ih =>
    have hpass : Moves cfg tame ok fits w (networkPass cfg outcome w change calls).1 :=
      moves_networkPass outcome hmem calls
    rw [networkLoop]
    split
    · exact hpass.trans (ih _ hmem)
    · exact hpass

lemma moves_deliverSampleToNetwork (outcome : Nat → SendOutcome) (passes : Nat)
    (hmem : change ∈ w.history.changes) :
    Moves cfg tame ok fits w (deliverSampleToNetwork cfg outcome passes w change).2.1 := by
  rw [deliverSampleToNetwork]
  split
  · exact .refl
  · exact moves_networkLoop outcome passes 0 hmem

lemma moves_deliverSampleToIntraprocesses (hmem : change ∈ w.history.changes)
    (delivered : Guid → Bool) :
    Moves cfg tame ok fits w (w.deliverSampleToIntraprocesses change delivered).1 := by
  refine .single (.readers w ?_ (forall₂_refl _ _) (forall₂_refl _ _))
  rw [List.map_map]
  exact forall₂_map fun r _ => moves_deliverToLocal hmem _ r

lemma moves_deliverSampleToDatasharing (hmem : change ∈ w.history.changes) :
    Moves cfg tame ok fits w (w.deliverSampleToDatasharing change) :=
  .single (.readers w (forall₂_refl _ _)
    (forall₂_map fun r _ => moves_deliverToDatasharing hmem r) (forall₂_refl _ _))

lemma moves_deliverSampleInside (hmem : change ∈ w.history.changes) (delivered : Guid → Bool) :
    Moves cfg tame ok fits w ((w.deliverSampleToIntraprocesses change
      delivered).1.deliverSampleToDatasharing change) :=
  (moves_deliverSampleToIntraprocesses hmem delivered).trans (moves_deliverSampleToDatasharing hmem)

lemma moves_deliverSample (seq : Int) (delivered : Guid → Bool) (outcome : Nat → SendOutcome)
    (passes : Nat) :
    Moves cfg tame ok fits w (w.deliverSample cfg seq delivered outcome passes).1 := by
  rw [deliverSample]
  split
  · exact .refl
  · rename_i change hget
    have hmem := mem_of_getChange hget
    have hnetwork : Moves cfg tame ok fits w _ := (moves_deliverSampleInside hmem delivered).trans
      (moves_deliverSampleToNetwork (w := (w.deliverSampleToIntraprocesses change
        delivered).1.deliverSampleToDatasharing change) outcome passes hmem)
    dsimp only
    split
    · exact hnetwork.trans moves_checkAckedStatus
    · exact hnetwork

end Delivering

lemma Acknack.base_le_received (a : Acknack) : a.snSet.base ≤ a.receivedSequenceNumber := by
  rw [receivedSequenceNumber]
  split
  · exact Int.le_refl _
  · simp only [BitmapRange.max, RangeItem.plus]
    omega

lemma moves_acknackReader {h : WriterHistory} (a : Acknack) (r : ReaderProxy)
    (hbase : a.snSet.base ≤ h.nextSequenceNumber) :
    ReaderProxy.Moves tame ok fits h r (acknackReader h a r).1 := by
  have hacked : ReaderProxy.Moves tame ok fits h r (r.ackedChangesSet h a.snSet.base) :=
    .single (.acked r fun _ => .inl hbase)
  rw [acknackReader]
  split
  · exact hacked.trans (ReaderProxy.moves_requestedChangesSet _ _ _ _)
  · split
    · refine hacked.trans ?_
      rw [ReaderProxy.processInitialAcknack]
      split
      · exact ReaderProxy.moves_convertStatusOnAllChanges _ _ _
      · exact .refl
    · exact hacked

lemma moves_processAcknack (a : Acknack) : Moves cfg tame ok fits w (w.processAcknack cfg a).1 := by
  rw [processAcknack]
  split
  · split
    · rename_i hreceived
      have hbase := Int.le_trans a.base_le_received hreceived
      split
      · rename_i r hr
        refine .trans (moves_updateReader fun r0 hfind => ?_) moves_checkAckedStatus
        rw [hfind, bind_some, ReaderProxy.checkAndSetAcknackCount] at hr
        split at hr
        · obtain rfl := some.inj hr
          exact .head (.counted r0 _ r0.lastNackfragCount) (moves_acknackReader a _ hbase)
        · cases hr
      · exact .refl
    · exact .refl
  · exact .refl

lemma moves_matchedReaderAdd (info : ReaderInfo)
    (hfits : ∀ r, w.findReader info.guid = some r → fits r info) :
    Moves cfg tame ok fits w (w.matchedReaderAdd cfg info).1 := by
  rw [matchedReaderAdd]
  split
  · exact .refl
  · split
    · exact moves_updateReader fun r hr => .single (.updated r (hfits r hr))
    · cases info.locality with
      | intraprocess | datasharing | remote =>
        refine .single (.joined w info fun r hr => ?_)
        simp only [matchedReaders, mem_append, mem_singleton] at hr ⊢
        tauto

lemma moves_matchedReaderRemove (guid : Guid) :
    Moves cfg tame ok fits w (w.matchedReaderRemove cfg guid).1 := by
  have hleft : ∀ {rs : List ReaderProxy} {p : ReaderProxy → Bool} {r : ReaderProxy},
      r ∈ rs.eraseP p → r ∈ rs := fun hr => mem_of_mem_eraseP hr
  rw [matchedReaderRemove]
  split
  · refine .head (.left w fun r hr => ?_) moves_checkAckedStatus
    simp only [matchedReaders, mem_append] at hr ⊢
    exact hr.imp (Or.imp hleft id) id
  · split
    · refine .head (.left w fun r hr => ?_) moves_checkAckedStatus
      simp only [matchedReaders, mem_append] at hr ⊢
      exact hr.imp (Or.imp id hleft) id
    · split
      · refine .head (.left w fun r hr => ?_) moves_checkAckedStatus
        simp only [matchedReaders, mem_append] at hr ⊢
        exact hr.imp id hleft
      · exact .refl

lemma moves_addChange (kind : ChangeKind) (payload : SerializedPayload) (sourceTimestamp : Time)
    (fragmentSize : Nat) :
    Moves cfg tame ok fits w (w.addChange cfg kind payload sourceTimestamp fragmentSize).1 := by
  rw [addChange]
  split
  · rename_i hnone
    refine .trans ?_ moves_checkAckedStatus
    have hsame : ∀ change, (w.pushChange change).mapReaders (addForReader cfg change) =
        w.pushChange change := by
      simp only [matchedReaders, List.isEmpty_iff, List.append_eq_nil_iff] at hnone
      simp [mapReaders, pushChange, hnone]
    rw [← hsame]
    exact .single (.wrote w rfl rfl rfl)
  · exact .single (.wrote w rfl rfl rfl)

lemma moves_ackTimerRound (htame : tame → w.lastSequenceNumber < w.nextSequenceNumber) :
    Moves cfg tame ok fits w (w.ackTimerRound cfg).1 := by
  have hmark : ∀ r, ReaderProxy.Moves tame ok fits w.history r
      (if r.disablePositiveAcks then r.ackedChangesSet w.history (w.lastSequenceNumber + 1)
        else r) := by
    intro r
    split
    · refine .single (.acked r fun h => .inl ?_)
      exact htame h
    · exact .refl
  refine .tail ?_ (.counters _ _ _)
  split
  · exact (moves_mapReaders hmark).trans moves_checkAckedStatus
  · exact moves_mapReaders hmark

def Tame (w : StatefulWriter) : Op → Prop
  | .ackTimer => w.lastSequenceNumber < w.nextSequenceNumber
  | _ => True

def Op.Asks (ok : BitmapRange Nat → Prop) : Op → Prop
  | .nackFrag _ _ _ _ fragments => ok fragments
  | _ => True

def Announces (fits : ReaderProxy → ReaderInfo → Prop) (w : StatefulWriter) : Op → Prop
  | .matchReader info => ∀ r, w.findReader info.guid = some r → fits r info
  | _ => True

/-- Every step is a number of moves. So a property of the proxies has to be checked for the moves
only, whichever operations they come from. -/
theorem moves_step (op : Op) (htame : tame → w.Tame op) (hok : op.Asks ok)
    (hfits : w.Announces fits op) : Moves cfg tame ok fits w (step cfg w op).1 := by
  cases op with
  | write kind payload sourceTimestamp fragmentSize => exact moves_addChange _ _ _ _
  | remove seq => exact .single (.removed w seq)
  | matchReader info => exact moves_matchedReaderAdd info hfits
  | unmatchReader guid => exact moves_matchedReaderRemove guid
  | acknack message => exact moves_processAcknack message
  | nackFrag writerGuid readerGuid ackCount seq fragments =>
    rw [step, processNackFrag]
    split
    · exact moves_updateReader fun r _ => moves_processNackFrag r _ _ hok
    · exact .refl
  | nackResponse =>
    exact moves_remoteReaders (forall₂_map fun r _ =>
      moves_convertStatusOnAllChanges r _ _)
  | nackSupression guid =>
    exact moves_updateReader fun r _ => moves_convertStatusOnAllChanges r _ _
  | ackTimer =>
    rw [step]
    split
    · exact moves_ackTimerRound htame
    · exact .refl
  | deliver seq delivered outcome passes => exact moves_deliverSample _ _ _ _

end Refinement

end StatefulWriter

end EasyDds.Rtps
