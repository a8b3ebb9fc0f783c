import EasyDds.Rtps.Writer.Assertions

/-!
The GAPs for a reader against what is pending for it.
-/

namespace EasyDds.Rtps

open List

namespace ReaderProxy

/-- A number above the low mark, in the reach of the history and not pending. -/
structure Vacant (h : WriterHistory) (r : ReaderProxy) (sn : Int) : Prop where
  above : r.changesLowMark < sn
  reached : h.getSeqNumMin ≤ sn
  free : ∀ c ∈ r.changesForReader, c.sequenceNumber ≠ sn

/-- The GAPs that `change_is_unsent` and `requested_changes_set` give rise to cover vacant numbers
only. -/
def TellsVacant (h : WriterHistory) (r : ReaderProxy) : Prop :=
  (∀ seq unsent sn, r.changeIsUnsent seq h.getSeqNumMin = some unsent →
    unsent.gapSeq ≠ unknownSequenceNumber → (Gap.ofRange unsent.gapSeq seq).Covers sn →
    r.Vacant h sn) ∧
  ∀ (set : BitmapRange Int) sn, set.WellFormed →
    (∃ g ∈ (r.requestedChangesSet set GapBuilder.new h.getSeqNumMin).2.1.flush.added,
      g.Covers sn) → r.Vacant h sn

variable {h : WriterHistory} {r : ReaderProxy} {position : Nat} {c : ChangeForReader} {sn : Int}

lemma Sorted.lt_afterPrevious (hr : r.Sorted) (hlt : position < r.changesForReader.length) :
    r.changesLowMark < r.afterPrevious position ∧
      ∀ i (hi : i < position), r.changesForReader[i].sequenceNumber < r.afterPrevious position := by
  rw [afterPrevious]
  split
  · exact ⟨by omega, by omega⟩
  · have hprev : position - 1 < r.changesForReader.length := by omega
    have habove := hr.above _ (getElem_mem hprev)
    rw [getElem?_eq_getElem hprev, Option.map_some, Option.getD_some]
    refine ⟨by omega, fun i hi => ?_⟩
    obtain hi | rfl : i < position - 1 ∨ i = position - 1 := by omega
    · have hless := pairwise_iff_getElem.mp hr.increasing i (position - 1) (by omega) hprev hi
      omega
    · omega

/-- Nothing is pending between an entry and the one before it. -/
theorem Sorted.free_before (hr : r.Sorted) (hget : r.changesForReader[position]? = some c)
    (hfrom : r.afterPrevious position ≤ sn) (hto : sn < c.sequenceNumber) :
    ∀ d ∈ r.changesForReader, d.sequenceNumber ≠ sn := by
  obtain ⟨hlt, rfl⟩ := List.getElem?_eq_some_iff.mp hget
  intro d hd
  obtain ⟨i, hi, rfl⟩ := getElem_of_mem hd
  rcases Nat.lt_trichotomy i position with hbefore | rfl | hafter
  · have hless := (hr.lt_afterPrevious hlt).2 i hbefore
    omega
  · omega
  · have hless := pairwise_iff_getElem.mp hr.increasing position i hlt hi hafter
    omega

lemma Sorted.tellsVacant (hr : r.Sorted) : r.TellsVacant h := by
  constructor
  · intro seq unsent sn hunsent hgap hsn
    rw [Gap.covers_ofRange] at hsn
    obtain ⟨position, c, hget, rfl, -, hnone | hbefore⟩ :=
      StatefulWriter.entry_of_changeIsUnsent hunsent
    · exact absurd hnone hgap
    · have hfrom : r.afterPrevious position ≤ sn ∧ h.getSeqNumMin ≤ sn := by
        rw [gapBefore] at hbefore
        split_ifs at hbefore <;> first | contradiction | omega
      obtain ⟨hlt, -⟩ := List.getElem?_eq_some_iff.mp hget
      have hlow := (hr.lt_afterPrevious hlt).1
      exact ⟨by omega, hfrom.2, hr.free_before hget hfrom.1 hsn.2⟩
  · intro set sn hset hcovers
    obtain ⟨-, -, hmissing⟩ := (covers_requestedChangesSet r hset _ sn).mp hcovers
    simp only [missing, Bool.and_eq_true, decide_eq_true_eq, Option.isNone_iff_eq_none,
      hr.findChange_eq_none] at hmissing
    exact ⟨hmissing.2.2, hmissing.2.1, hmissing.1⟩

end ReaderProxy

namespace StatefulWriter

lemma readerInvariant_ordered (cfg : WriterConfig) :
    ReaderInvariant cfg True (fun _ => True) (fun _ _ => True) fun h r => r.Ordered h where
  move hh hr hmove := hr.move hh hmove
  removed seq hh hr := hr.changeHasBeenRemoved hh seq
  wrote hh _ hr hnumber := ordered_addForReader hh hr hnumber
  joined info hh := ordered_joined hh info

/-- In every run in which the timer for positive acknowledgements finds written numbers, the GAPs
for a reader cover vacant numbers only, also between the moves of a step. -/
theorem tellsVacant_run (cfg : WriterConfig) (ops : List Op)
    (hrun : RunsWith (fun w op => (step cfg w op).1) Tame (initial cfg) ops) :
    ∀ r ∈ (run cfg (initial cfg) ops).matchedReaders, ∀ r',
      ReaderProxy.Moves True (fun _ => True) (fun _ _ => True) (run cfg (initial cfg) ops).history
        r r' → r'.TellsVacant (run cfg (initial cfg) ops).history := by
  intro r hr r' hmoves
  have hkept := (readerInvariant_ordered cfg).run cfg (hrun.imp_of_keeps (I := fun _ => True)
    (fun _ _ _ _ => trivial) (fun w op _ hop => ⟨fun _ => hop, by cases op <;> trivial,
      by cases op <;> simp [Announces]⟩) trivial)
  exact ((readerInvariant_ordered cfg).moves hkept.1 (hkept.2 r hr) hmoves).toSorted.tellsVacant

theorem tellsVacant_acknowledged :
    ∃ r ∈ (run sampleWriter (initial sampleWriter) acknowledgedRun).matchedReaders,
      r.TellsVacant (run sampleWriter (initial sampleWriter) acknowledgedRun).history :=
  ⟨_, .head _, tellsVacant_run sampleWriter acknowledgedRun
    ⟨trivial, trivial, trivial, trivial, trivial, trivial⟩ _ (.head _) _ .refl⟩

end StatefulWriter

end EasyDds.Rtps
