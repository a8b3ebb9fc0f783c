import EasyDds.Rtps.Writer.Pending

/-!
Whether what a reader has acknowledged stays acknowledged, over runs of the operations of its proxy.
-/

namespace EasyDds.Rtps.ReaderProxy

open List Option

/-- A proxy with the highest number that has been offered to it. -/
structure Tracked where
  proxy : ReaderProxy
  offered : Int

/-- The operations of a proxy that is not stopped. Those that may acknowledge find some history. -/
inductive ProxyOp
  | addChange (change : ChangeForReader) (isRelevant : Bool)
  | ackedChangesSet (h : WriterHistory) (seqNum : Int)
  | requestedChangesSet (seqNumSet : BitmapRange Int) (gapBuilder : GapBuilder)
      (minSeqInHistory : Int)
  | fromUnsentToStatus (h : WriterHistory) (seqNum : Int) (status : ChangeForReaderStatus)
      (delivered : Bool)
  | markFragmentAsSentForChange (seqNum : Int) (fragNum : Nat)
  | processNackFrag (nackCount : Nat) (seqNum : Int) (fragmentsState : BitmapRange Nat)
  | processInitialAcknack
  | performNackSupression
  | performAcknackResponse
  | changeHasBeenRemoved (h : WriterHistory) (seqNum : Int)
  | checkAndSetAcknackCount (acknackCount : Nat)
  | update (info : ReaderInfo)

namespace Tracked

def applyOp (r : ReaderProxy) : ProxyOp → ReaderProxy
  | .addChange change isRelevant => r.addChange change isRelevant
  | .ackedChangesSet h seqNum => r.ackedChangesSet h seqNum
  | .requestedChangesSet seqNumSet gapBuilder minSeqInHistory =>
    (r.requestedChangesSet seqNumSet gapBuilder minSeqInHistory).1
  | .fromUnsentToStatus h seqNum status delivered => r.fromUnsentToStatus h seqNum status delivered
  | .markFragmentAsSentForChange seqNum fragNum => (r.markFragmentAsSentForChange seqNum fragNum).1
  | .processNackFrag nackCount seqNum fragmentsState =>
    r.processNackFrag nackCount seqNum fragmentsState
  | .processInitialAcknack => r.processInitialAcknack
  | .performNackSupression => r.performNackSupression
  | .performAcknackResponse => r.performAcknackResponse
  | .changeHasBeenRemoved h seqNum => (r.changeHasBeenRemoved h seqNum).1
  | .checkAndSetAcknackCount acknackCount => (r.checkAndSetAcknackCount acknackCount).getD r
  | .update info => r.update info

def step (t : Tracked) (op : ProxyOp) : Tracked where
  proxy := applyOp t.proxy op
  offered :=
    match op with
    | .addChange change _ => max t.offered change.sequenceNumber
    | _ => t.offered

def run (t : Tracked) (ops : List ProxyOp) : Tracked := ops.foldl step t

def started (h : WriterHistory) (info : ReaderInfo) : Tracked :=
  ⟨start h info, (start h info).changesLowMark⟩

/-- What the callers keep to: changes come once and in the order of their numbers, above the low
mark; the special acknowledgement of zero does not occur; a change gets another status than unsent
only while it is pending and unsent. -/
def Allowed (t : Tracked) : ProxyOp → Prop
  | .addChange change _ =>
    t.offered < change.sequenceNumber ∧ t.proxy.changesLowMark < change.sequenceNumber
  | .ackedChangesSet _ seqNum => seqNum ≠ 0
  | .fromUnsentToStatus _ seqNum status _ =>
    status ≠ .unsent ∧
      ∃ c ∈ t.proxy.changesForReader, c.sequenceNumber = seqNum ∧ c.status = .unsent
  | _ => True

/-- A NACK_FRAG that is accepted and is about a pending change the reader has acknowledged. -/
def NacksAcknowledged (t : Tracked) : ProxyOp → Prop
  | .processNackFrag nackCount seqNum _ =>
    t.proxy.lastNackfragCount < nackCount ∧
      ∃ c ∈ t.proxy.changesForReader, c.sequenceNumber = seqNum ∧ c.status = .acknowledged
  | _ => False

structure Inv (t : Tracked) : Prop where
  sorted : t.proxy.Sorted
  offered : ∀ c ∈ t.proxy.changesForReader, c.sequenceNumber ≤ t.offered

end Tracked

section Waiting

variable {r : ReaderProxy} {h : WriterHistory} {seq s : Int} {c : ChangeForReader} {position : Nat}

def Waiting (r : ReaderProxy) (s : Int) : Prop :=
  ∃ c ∈ r.changesForReader, c.sequenceNumber = s ∧ c.status ≠ .acknowledged

/-- `change_is_acked` says that nothing with this number waits for the reader. -/
theorem Sorted.changeIsAcked_iff (hr : r.Sorted) : r.changeIsAcked s = true ↔ ¬ r.Waiting s := by
  rw [changeIsAcked]
  split
  · rename_i hpast
    refine iff_of_true rfl ?_
    rintro ⟨c, hc, rfl, -⟩
    rcases hpast with hlow | hempty
    · have habove := hr.above c hc
      omega
    · rw [List.isEmpty_iff] at hempty
      simp [hempty] at hc
  · cases hfind : r.findChange s with
    | none =>
      refine iff_of_true rfl ?_
      rintro ⟨c, hc, hnumber, -⟩
      exact hr.findChange_eq_none.mp hfind c hc hnumber
    | some found =>
      obtain ⟨position, c⟩ := found
      obtain ⟨hget, hnumber⟩ := getElem?_of_findChange hfind
      have hthis : r.Waiting s ↔ c.status ≠ .acknowledged := by
        constructor
        · rintro ⟨d, hd, hsame, hstatus⟩
          obtain ⟨i, hi⟩ := getElem?_of_mem hd
          obtain rfl := hr.eq_of_sequenceNumber hi hget (by omega)
          rw [hi] at hget
          rwa [← some.inj hget]
        · exact fun hstatus => ⟨c, mem_of_getElem? hget, hnumber, hstatus⟩
      simp [hthis]

variable {r' : ReaderProxy}

lemma Waiting.of_sublist (hwaiting : r'.Waiting s)
    (hsub : r'.changesForReader.Sublist r.changesForReader) : r.Waiting s := by
  obtain ⟨c, hc, hnumber, hstatus⟩ := hwaiting
  exact ⟨c, hsub.mem hc, hnumber, hstatus⟩

/-- An entry that keeps its number, and was not acknowledged if it is not, adds nothing to what
waits. -/
theorem Waiting.of_modifyChange {f : ChangeForReader → ChangeForReader}
    (hwaiting : (r.modifyChange position f).Waiting s)
    (hf : ∀ c, r.changesForReader[position]? = some c → (f c).sequenceNumber = c.sequenceNumber ∧
      ((f c).status ≠ .acknowledged → c.status ≠ .acknowledged)) : r.Waiting s := by
  obtain ⟨d, hd, hnumber, hstatus⟩ := hwaiting
  obtain ⟨i, hi⟩ := getElem?_of_mem hd
  rw [modifyChange, getElem?_modify, Option.map_eq_map, Option.map_eq_some_iff] at hi
  obtain ⟨c, hget, rfl⟩ := hi
  refine ⟨c, mem_of_getElem? hget, ?_⟩
  split at hnumber
  · rename_i hposition
    obtain ⟨hsame, hback⟩ := hf c (hposition ▸ hget)
    rw [if_pos hposition] at hstatus
    exact ⟨by omega, hback hstatus⟩
  · rename_i hposition
    rw [if_neg hposition] at hstatus
    exact ⟨hnumber, hstatus⟩

lemma Waiting.of_convertStatus {previous next : ChangeForReaderStatus}
    (hwaiting : (r.convertStatusOnAllChanges previous next).Waiting s)
    (hprevious : previous ≠ .acknowledged) : r.Waiting s := by
  obtain ⟨d, hd, hnumber, hstatus⟩ := hwaiting
  obtain ⟨c, hc, rfl⟩ := mem_map.mp hd
  refine ⟨c, hc, ?_⟩
  split at hnumber
  · rename_i hsame
    exact ⟨hnumber, hsame ▸ hprevious⟩
  · rename_i hother
    rw [if_neg hother] at hstatus
    exact ⟨hnumber, hstatus⟩

lemma waiting_of_requestChange {minSeq : Int} {state : ReaderProxy × GapBuilder × Bool}
    {sit : Int} (hwaiting : (requestChange minSeq state sit).1.Waiting s) : state.1.Waiting s := by
  rw [requestChange] at hwaiting
  split at hwaiting
  · rename_i position c hfind
    obtain ⟨hget, -⟩ := getElem?_of_findChange hfind
    split at hwaiting
    · rename_i hstatus
      refine hwaiting.of_modifyChange fun d hd => ⟨rfl, fun _ => ?_⟩
      obtain rfl := some.inj (hget.symm.trans hd)
      simp [hstatus]
    · exact hwaiting
  · split at hwaiting <;> exact hwaiting

lemma waiting_of_requestedChangesSet {set : BitmapRange Int} {gapBuilder : GapBuilder}
    {minSeq : Int} (hwaiting : (r.requestedChangesSet set gapBuilder minSeq).1.Waiting s) :
    r.Waiting s := by
  have hfold : ∀ (sits : List Int) (state : ReaderProxy × GapBuilder × Bool),
      (sits.foldl (requestChange minSeq) state).1.Waiting s → state.1.Waiting s := by
    intro sits
    induction sits with
    | nil => exact fun _ h => h
    | cons sit sits ih => exact fun state h => waiting_of_requestChange (ih _ h)
  rw [requestedChangesSet] at hwaiting
  split at hwaiting
  · exact hfold _ (r, gapBuilder, false) hwaiting
  · exact hwaiting

/-- An acknowledgement other than the special one takes entries away and nothing else. -/
theorem Sorted.ackedChangesSet (hr : r.Sorted) (hseq : r.changesLowMark < seq ∨ seq ≠ 0) :
    (r.ackedChangesSet h seq).Sorted ∧
      (r.ackedChangesSet h seq).changesForReader.Sublist r.changesForReader := by
  by_cases hlow : r.changesLowMark < seq
  · have hacked : Acked r (r.ackedChangesSet h seq) seq := hr.acked hlow
    exact ⟨hacked.sorted, hacked.sublist⟩
  · have hsame : r.ackedChangesSet h seq = r := by
      rw [ReaderProxy.ackedChangesSet, if_neg hlow, if_neg]
      exact fun hzero => hseq.elim hlow fun hne => hne hzero.1
    rw [hsame]
    exact ⟨hr, .refl _⟩

/-- So does the acknowledgement that follows when the entry right above the low mark goes. -/
theorem Sorted.settle (hr : r.Sorted) (position : Nat) (hseq : seq = r.changesLowMark + 1) :
    (({ r with changesForReader := r.changesForReader.eraseIdx position } :
        ReaderProxy).ackedChangesSet h (seq + 1)).Sorted ∧
      (({ r with changesForReader := r.changesForReader.eraseIdx position } :
        ReaderProxy).ackedChangesSet h (seq + 1)).changesForReader.Sublist r.changesForReader := by
  have hlow : r.changesLowMark < seq + 1 := by omega
  obtain ⟨hsorted, hsub⟩ := (hr.eraseIdx position).ackedChangesSet (h := h) (.inl hlow)
  exact ⟨hsorted, hsub.trans (eraseIdx_sublist ..)⟩

lemma Sorted.changeHasBeenRemoved (hr : r.Sorted) (seq : Int) :
    (r.changeHasBeenRemoved h seq).1.Sorted ∧
      (r.changeHasBeenRemoved h seq).1.changesForReader.Sublist r.changesForReader := by
  rw [ReaderProxy.changeHasBeenRemoved]
  split
  · exact ⟨hr, .refl _⟩
  · split
    · exact ⟨hr, .refl _⟩
    · rename_i position c hfind
      dsimp only
      split
      · rename_i hnext
        exact hr.settle position hnext.symm
      · exact ⟨hr.eraseIdx position, eraseIdx_sublist ..⟩

end Waiting

namespace Tracked

variable {t : Tracked} {op : ProxyOp} {s : Int}

structure Shrinks (r r' : ReaderProxy) : Prop where
  sorted : r'.Sorted
  numbers : r'.changesForReader.map (·.sequenceNumber) ⊆ r.changesForReader.map (·.sequenceNumber)

variable {r : ReaderProxy}

lemma shrinks_of_sublist
    (h : r'.Sorted ∧ r'.changesForReader.Sublist r.changesForReader) : Shrinks r r' :=
  ⟨h.1, (h.2.map _).subset⟩

lemma shrinks_of_map_eq (hr : r.Sorted) (hlow : r'.changesLowMark = r.changesLowMark)
    (hnumbers : r'.changesForReader.map (·.sequenceNumber) = r.changesForReader.map
      (·.sequenceNumber)) : Shrinks r r' :=
  ⟨hr.of_map_eq hlow hnumbers, by rw [hnumbers]; exact List.Subset.refl _⟩

lemma shrinks_modifyChange (hr : r.Sorted) (position : Nat)
    {f : ChangeForReader → ChangeForReader} (hf : ∀ c, (f c).sequenceNumber = c.sequenceNumber) :
    Shrinks r (r.modifyChange position f) :=
  shrinks_of_map_eq hr rfl (map_sequenceNumber_modifyChange r position hf)

lemma shrinks_convertStatus (hr : r.Sorted) (previous next : ChangeForReaderStatus) :
    Shrinks r (r.convertStatusOnAllChanges previous next) := by
  refine shrinks_of_map_eq hr rfl ?_
  rw [convertStatusOnAllChanges, List.map_map]
  refine map_congr_left fun c _ => ?_
  rw [Function.comp_apply]
  split <;> rfl

lemma shrinks_requestedChangesSet (hr : r.Sorted) (set : BitmapRange Int)
    (gapBuilder : GapBuilder) (minSeq : Int) :
    Shrinks r (r.requestedChangesSet set gapBuilder minSeq).1 := by
  have hone : ∀ (state : ReaderProxy × GapBuilder × Bool) (sit : Int),
      (requestChange minSeq state sit).1.changesLowMark = state.1.changesLowMark ∧
        (requestChange minSeq state sit).1.changesForReader.map (·.sequenceNumber) =
          state.1.changesForReader.map (·.sequenceNumber) := by
    intro state sit
    rw [requestChange]
    split
    · split
      · exact ⟨rfl, map_sequenceNumber_modifyChange _ _ fun _ => rfl⟩
      · exact ⟨rfl, rfl⟩
    · split <;> exact ⟨rfl, rfl⟩
  have hfold : ∀ (sits : List Int) (state : ReaderProxy × GapBuilder × Bool),
      (sits.foldl (requestChange minSeq) state).1.changesLowMark = state.1.changesLowMark ∧
        (sits.foldl (requestChange minSeq) state).1.changesForReader.map (·.sequenceNumber) =
          state.1.changesForReader.map (·.sequenceNumber) := by
    intro sits
    induction sits with
    | nil => exact fun _ => ⟨rfl, rfl⟩
    | cons sit sits ih =>
      intro state
      rw [foldl_cons, (ih _).1, (ih _).2]
      exact hone state sit
  rw [requestedChangesSet]
  split
  · obtain ⟨hlow, hnumbers⟩ := hfold set.forEach (r, gapBuilder, false)
    exact shrinks_of_map_eq hr hlow hnumbers
  · exact shrinks_of_map_eq hr rfl rfl

lemma shrinks_fromUnsentToStatus (hr : r.Sorted) (h : WriterHistory) (seq : Int)
    (status : ChangeForReaderStatus) (delivered : Bool) :
    Shrinks r (r.fromUnsentToStatus h seq status delivered) := by
  rw [fromUnsentToStatus]
  split
  · exact shrinks_of_map_eq hr rfl rfl
  · rename_i position c hfind
    split
    · rename_i hfirst
      exact shrinks_of_sublist (hr.settle position hfirst.2)
    · refine shrinks_modifyChange hr position fun d => ?_
      split <;> rfl

lemma shrinks_processNackFrag (hr : r.Sorted) (count : Nat) (seq : Int)
    (fragments : BitmapRange Nat) : Shrinks r (r.processNackFrag count seq fragments) := by
  rw [processNackFrag]
  split
  · rw [requestedFragmentSet]
    split
    · exact shrinks_of_map_eq hr rfl rfl
    · refine shrinks_of_map_eq hr rfl
        (map_sequenceNumber_modifyChange { r with lastNackfragCount := count } _ fun c => ?_)
      dsimp only
      split
      · exact c.sequenceNumber_markFragmentsAsUnsent fragments
      · exact c.sequenceNumber_markFragmentsAsUnsent fragments
  · exact shrinks_of_map_eq hr rfl rfl

lemma shrinks_applyOp (hr : r.Sorted) {offered : Int} (hop : Allowed ⟨r, offered⟩ op)
    (hadd : ∀ change isRelevant, op ≠ .addChange change isRelevant) : Shrinks r (applyOp r op) := by
  cases op with
  | addChange change isRelevant => exact absurd rfl (hadd change isRelevant)
  | ackedChangesSet h seq => exact shrinks_of_sublist (hr.ackedChangesSet (.inr hop))
  | requestedChangesSet set gapBuilder minSeq => exact shrinks_requestedChangesSet hr _ _ _
  | fromUnsentToStatus h seq status delivered => exact shrinks_fromUnsentToStatus hr _ _ _ _
  | markFragmentAsSentForChange seq fragment =>
    rw [applyOp, markFragmentAsSentForChange]
    split
    · exact shrinks_of_map_eq hr rfl rfl
    · split
      · exact shrinks_of_map_eq hr rfl rfl
      · exact shrinks_modifyChange hr _ fun c => c.sequenceNumber_markFragmentsAsSent fragment
  | processNackFrag count seq fragments => exact shrinks_processNackFrag hr _ _ _
  | processInitialAcknack =>
    rw [applyOp, processInitialAcknack]
    split
    · exact shrinks_convertStatus hr _ _
    · exact shrinks_of_map_eq hr rfl rfl
  | performNackSupression | performAcknackResponse => exact shrinks_convertStatus hr _ _
  | changeHasBeenRemoved h seq => exact shrinks_of_sublist (hr.changeHasBeenRemoved seq)
  | checkAndSetAcknackCount count =>
    rw [applyOp, checkAndSetAcknackCount]
    split <;> exact shrinks_of_map_eq hr rfl rfl
  | update info => exact shrinks_of_map_eq hr rfl rfl

lemma Inv.step (ht : t.Inv) (hop : t.Allowed op) : (t.step op).Inv := by
  by_cases hadd : ∀ change isRelevant, op ≠ .addChange change isRelevant
  · have hshrinks : Shrinks t.proxy (applyOp t.proxy op) := shrinks_applyOp ht.sorted hop hadd
    have hsame : (t.step op).offered = t.offered := by
      cases op with
      | addChange change isRelevant => exact absurd rfl (hadd change isRelevant)
      | _ => rfl
    refine ⟨hshrinks.sorted, fun c hc => ?_⟩
    obtain ⟨d, hd, hnumber⟩ := mem_map.mp (hshrinks.numbers (mem_map_of_mem hc))
    have hle := ht.offered d hd
    omega
  · push Not at hadd
    obtain ⟨change, isRelevant, rfl⟩ := hadd
    obtain ⟨hnew, hlow⟩ := hop
    refine ⟨ht.sorted.addChange hlow fun c hc => ?_, fun c hc => ?_⟩
    · have hle := ht.offered c hc
      omega
    · change c.sequenceNumber ≤ max t.offered change.sequenceNumber
      rcases StatefulWriter.mem_addChange hc with hold | rfl
      · have hle := ht.offered c hold
        omega
      · omega

lemma offered_le_step (t : Tracked) (op : ProxyOp) : t.offered ≤ (t.step op).offered := by
  cases op with
  | addChange change isRelevant => exact Int.le_max_left _ _
  | _ => exact Int.le_refl _

section Stable

def Stable (t t' : Tracked) : Prop :=
  t.offered ≤ t'.offered ∧ ∀ s ≤ t.offered, t.proxy.changeIsAcked s = true →
    t'.proxy.changeIsAcked s = true

/-- Only a NACK_FRAG for an acknowledged change makes a change wait that did not wait before. -/
theorem waiting_of_step (ht : t.Inv) (hop : t.Allowed op) (hnack : ¬ t.NacksAcknowledged op)
    (hs : s ≤ t.offered) (hwaiting : (t.step op).proxy.Waiting s) : t.proxy.Waiting s := by
  change (applyOp t.proxy op).Waiting s at hwaiting
  cases op with
  | addChange change isRelevant =>
    obtain ⟨c, hc, hnumber, hstatus⟩ := hwaiting
    rcases StatefulWriter.mem_addChange hc with hold | rfl
    · exact ⟨c, hold, hnumber, hstatus⟩
    · have hnew := hop.1
      omega
  | ackedChangesSet h seq => exact hwaiting.of_sublist (ht.sorted.ackedChangesSet (.inr hop)).2
  | requestedChangesSet set gapBuilder minSeq => exact waiting_of_requestedChangesSet hwaiting
  | fromUnsentToStatus h seq status delivered =>
    obtain ⟨-, c, hc, hnumber, hunsent⟩ := hop
    obtain ⟨i, hi⟩ := getElem?_of_mem hc
    have hfind := ht.sorted.findChange_eq_some.mpr ⟨hi, hnumber⟩
    rw [applyOp, fromUnsentToStatus, hfind] at hwaiting
    dsimp only at hwaiting
    split at hwaiting
    · rename_i hfirst
      exact hwaiting.of_sublist (ht.sorted.settle i hfirst.2).2
    · refine hwaiting.of_modifyChange fun d hd => ?_
      obtain rfl := some.inj (hi.symm.trans hd)
      refine ⟨?_, fun _ => by simp [hunsent]⟩
      split <;> rfl
  | markFragmentAsSentForChange seq fragment =>
    rw [applyOp, markFragmentAsSentForChange] at hwaiting
    split at hwaiting
    · exact hwaiting
    · split at hwaiting
      · exact hwaiting
      · exact hwaiting.of_modifyChange fun d _ => by simp
  | processNackFrag count seq fragments =>
    rw [applyOp, processNackFrag] at hwaiting
    split at hwaiting
    · rename_i hcount
      rw [requestedFragmentSet] at hwaiting
      split at hwaiting
      · exact hwaiting
      · rename_i position c hfind
        obtain ⟨hget, hnumber⟩ := getElem?_of_findChange hfind
        have hstatus : c.status ≠ .acknowledged := fun hdone =>
          hnack ⟨hcount, c, mem_of_getElem? hget, hnumber, hdone⟩
        refine hwaiting.of_modifyChange fun d hd => ?_
        obtain rfl := some.inj (hget.symm.trans hd)
        refine ⟨?_, fun _ => hstatus⟩
        dsimp only
        split
        · exact c.sequenceNumber_markFragmentsAsUnsent fragments
        · exact c.sequenceNumber_markFragmentsAsUnsent fragments
    · exact hwaiting
  | processInitialAcknack =>
    rw [applyOp, processInitialAcknack] at hwaiting
    split at hwaiting
    · exact hwaiting.of_convertStatus (by simp)
    · exact hwaiting
  | performNackSupression | performAcknackResponse => exact hwaiting.of_convertStatus (by simp)
  | changeHasBeenRemoved h seq =>
    exact hwaiting.of_sublist (ht.sorted.changeHasBeenRemoved seq).2
  | checkAndSetAcknackCount count =>
    rw [applyOp, checkAndSetAcknackCount] at hwaiting
    split at hwaiting <;> exact hwaiting
  | update info => exact hwaiting

/-- Such a NACK_FRAG makes the change wait again. -/
theorem waiting_of_nacksAcknowledged (ht : t.Inv) (hnack : t.NacksAcknowledged op) :
    ∃ s ≤ t.offered, ¬ t.proxy.Waiting s ∧ (t.step op).proxy.Waiting s := by
  cases op with
  | processNackFrag count seq fragments =>
    obtain ⟨hcount, c, hc, rfl, hstatus⟩ := hnack
    obtain ⟨i, hi⟩ := getElem?_of_mem hc
    refine ⟨c.sequenceNumber, ht.offered c hc, ?_, ?_⟩
    · rintro ⟨d, hd, hnumber, hwaiting⟩
      obtain ⟨j, hj⟩ := getElem?_of_mem hd
      obtain rfl := ht.sorted.eq_of_sequenceNumber hj hi hnumber
      obtain rfl := some.inj (hj.symm.trans hi)
      exact hwaiting hstatus
    · have hfind : ({ t.proxy with lastNackfragCount := count } : ReaderProxy).findChange
          c.sequenceNumber = some (i, c) := ht.sorted.findChange_eq_some.mpr ⟨hi, rfl⟩
      change (t.proxy.processNackFrag count c.sequenceNumber fragments).Waiting c.sequenceNumber
      rw [processNackFrag, if_pos hcount, requestedFragmentSet, hfind]
      refine ⟨(c.markFragmentsAsUnsent fragments).setStatus .requested,
        mem_of_getElem? (i := i) ?_, c.sequenceNumber_markFragmentsAsUnsent fragments,
        by simp [ChangeForReader.setStatus]⟩
      change (t.proxy.changesForReader.modify i _)[i]? = _
      rw [getElem?_modify_eq, hi]
      simp [hstatus]
  | _ => exact hnack.elim

lemma stable_step_iff (ht : t.Inv) (hop : t.Allowed op) :
    Stable t (t.step op) ↔ ¬ t.NacksAcknowledged op := by
  have ht' := ht.step hop
  constructor
  · rintro ⟨-, hstable⟩ hnack
    obtain ⟨s, hs, hbefore, hafter⟩ := waiting_of_nacksAcknowledged ht hnack
    exact ht'.sorted.changeIsAcked_iff.mp
      (hstable s hs (ht.sorted.changeIsAcked_iff.mpr hbefore)) hafter
  · intro hnack
    refine ⟨offered_le_step t op, fun s hs hacked => ?_⟩
    rw [ht'.sorted.changeIsAcked_iff]
    exact fun hwaiting => ht.sorted.changeIsAcked_iff.mp hacked
      (waiting_of_step ht hop hnack hs hwaiting)

lemma changesForReader_start {h : WriterHistory} (info : ReaderInfo)
    (hpos : ∀ c ∈ h.changes, 0 < c.sequenceNumber) : (start h info).changesForReader = [] := by
  rw [start]
  split
  · rfl
  · rename_i hdurability
    rw [ackedChangesSet, if_neg (Int.lt_irrefl 0), if_pos ⟨rfl, hdurability⟩, reopen]
    dsimp only
    cases hchanges : h.changes with
    | nil =>
      rw [if_neg (by simp [WriterHistory.getSeqNumMin, hchanges])]
      split <;> rfl
    | cons first rest =>
      have hmin : h.getSeqNumMin = first.sequenceNumber := by
        simp [WriterHistory.getSeqNumMin, hchanges]
      have hfirst := hpos first (by simp [hchanges])
      have hrounds : ((0 : Int) + 1 - first.sequenceNumber).toNat = 0 := by omega
      rw [hmin, if_pos (by rw [unknownSequenceNumber]; omega), if_pos hfirst, hrounds]
      rfl

lemma inv_started {h : WriterHistory} (info : ReaderInfo)
    (hpos : ∀ c ∈ h.changes, 0 < c.sequenceNumber) : (started h info).Inv := by
  have hnil : (started h info).proxy.changesForReader = [] := changesForReader_start info hpos
  exact ⟨⟨by simp [hnil], by simp [hnil]⟩, by simp [hnil]⟩

/-- What a reader has acknowledged stays acknowledged in a run of the operations of its proxy
exactly if no NACK_FRAG is accepted for a pending change that is acknowledged. -/
theorem acks_stable_iff (h : WriterHistory) (info : ReaderInfo) (ops : List ProxyOp)
    (hpos : ∀ c ∈ h.changes, 0 < c.sequenceNumber)
    (hrun : RunsWith step Allowed (started h info) ops) :
    (∀ k j, k ≤ j → ∀ s ≤ ((started h info).run (ops.take k)).offered,
        ((started h info).run (ops.take k)).proxy.changeIsAcked s = true →
        ((started h info).run (ops.take j)).proxy.changeIsAcked s = true) ↔
      RunsWith step (fun t op => ¬ t.NacksAcknowledged op) (started h info) ops := by
  have hrefl : ∀ t, Stable t t := fun t => ⟨Int.le_refl _, fun _ _ hacked => hacked⟩
  have htrans : ∀ {a b c}, Stable a b → Stable b c → Stable a c := fun hab hbc =>
    ⟨Int.le_trans hab.1 hbc.1, fun s hs hacked =>
      hbc.2 s (Int.le_trans hs hab.1) (hab.2 s hs hacked)⟩
  have hgrows : ∀ k j, k ≤ j → ((started h info).run (ops.take k)).offered ≤
      ((started h info).run (ops.take j)).offered :=
    (RunsWith.iff_related (R := fun t t' : Tracked => t.offered ≤ t'.offered)
      (fun _ => Int.le_refl _) Int.le_trans).mp (.of_forall offered_le_step)
  have hsteps : RunsWith step (fun t op => Stable t (t.step op)) (started h info) ops ↔
      RunsWith step (fun t op => ¬ t.NacksAcknowledged op) (started h info) ops :=
    hrun.iff_of_keeps (I := Inv) (fun _ _ ht hop => ht.step hop)
      (fun _ _ ht hop => stable_step_iff ht hop) (inv_started info hpos)
  rw [← hsteps, RunsWith.iff_related hrefl htrans]
  exact forall_congr' fun k => forall_congr' fun j => forall_congr' fun hkj =>
    (and_iff_right (hgrows k j hkj)).symm

section Samples

def sampleHistory : WriterHistory := ⟨StatefulWriter.sampleWriter.guid, [], 0⟩

def localReader : ReaderInfo := { StatefulWriter.sampleReader with locality := .intraprocess }

def sampleEntry (sequenceNumber : Int) : ChangeForReader :=
  .ofChange
    { kind := .alive
      writerGUID := StatefulWriter.sampleWriter.guid
      sequenceNumber := sequenceNumber
      serializedPayload := ⟨4, fun _ => 0, 4⟩
      sourceTimestamp := ⟨0, 0⟩
      fragmentSize := 0
      fragmentCount := 0
      firstMissingFragment := 0 }

def secondDelivered : List ProxyOp :=
  [.addChange (sampleEntry 1) true, .addChange (sampleEntry 2) true,
    .fromUnsentToStatus sampleHistory 2 .acknowledged true]

lemma allowed_secondDelivered :
    RunsWith step Allowed (started sampleHistory localReader) secondDelivered := by
  refine ⟨?_, ?_, ?_, trivial⟩
  · exact ⟨by decide, by decide⟩
  · exact ⟨by decide, by decide⟩
  · exact ⟨by decide, sampleEntry 2, .tail _ (.head _), rfl, rfl⟩

theorem acks_stable_secondDelivered :
    RunsWith step Allowed (started sampleHistory localReader) secondDelivered ∧
      ∀ k j, k ≤ j → ∀ s ≤ ((started sampleHistory localReader).run
          (secondDelivered.take k)).offered,
        ((started sampleHistory localReader).run
          (secondDelivered.take k)).proxy.changeIsAcked s = true →
        ((started sampleHistory localReader).run
          (secondDelivered.take j)).proxy.changeIsAcked s = true :=
  ⟨allowed_secondDelivered, (acks_stable_iff sampleHistory localReader secondDelivered
    (by simp [sampleHistory]) allowed_secondDelivered).mpr ⟨id, id, id, trivial⟩⟩

/-- A NACK_FRAG for the second change makes it pending again. -/
theorem nackFrag_revokes :
    RunsWith step Allowed (started sampleHistory localReader)
        (secondDelivered ++ [.processNackFrag 1 2 (BitmapRange.setBase 1)]) ∧
      ((started sampleHistory localReader).run secondDelivered).proxy.changeIsAcked 2 = true ∧
      ((started sampleHistory localReader).run (secondDelivered ++
        [.processNackFrag 1 2 (BitmapRange.setBase 1)])).proxy.changeIsAcked 2 = false := by
  refine ⟨RunsWith.append.mpr ⟨allowed_secondDelivered, trivial, trivial⟩, ?_, ?_⟩
  · decide
  · decide

end Samples

end Stable

end Tracked

end EasyDds.Rtps.ReaderProxy
