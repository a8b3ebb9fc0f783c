import EasyDds.Rtps.Writer.Invariants

/-!
The numbers that the GAPs of an operation cover.
-/

namespace EasyDds.Rtps

open List Option

def Output.Covers : Output → Int → Prop
  | .gap _ g, sn => g.Covers sn
  | _, _ => False

instance (o : Output) (sn : Int) : Decidable (o.Covers sn) :=
  match o with
  | .gap _ g => inferInstanceAs (Decidable (g.Covers sn))
  | .data _ => inferInstanceAs (Decidable False)
  | .dataFrag _ _ => inferInstanceAs (Decidable False)
  | .receivedByAll _ => inferInstanceAs (Decidable False)

lemma Gap.covers_ofRange (first last sn : Int) :
    (Gap.ofRange first last).Covers sn ↔ first ≤ sn ∧ sn < last := by
  simp only [Gap.Covers, Gap.ofRange, GapBuilder.isSet_setBase, Bool.false_eq_true, or_false]
  rfl

namespace ReaderProxy

/-- A number of the history that is neither pending nor behind the low mark. -/
def missing (r : ReaderProxy) (minSeq sn : Int) : Bool :=
  (r.findChange sn).isNone && decide (minSeq ≤ sn ∧ r.changesLowMark < sn)

variable {r : ReaderProxy} {minSeq : Int}

/-- Whether a number is found depends on the numbers of the entries only. -/
theorem isNone_findChange (r : ReaderProxy) (sn : Int) :
    (r.findChange sn).isNone = decide ((r.changesForReader.map (·.sequenceNumber))[lowerBound
      (fun n => decide (n < sn)) (r.changesForReader.map (·.sequenceNumber))]? ≠ some sn) := by
  rw [lowerBound_map, findChange, lowerBoundChange, getElem?_map]
  cases r.changesForReader[lowerBound (fun c => decide (c.sequenceNumber < sn))
    r.changesForReader]? with
  | none => simp
  | some c => by_cases hc : c.sequenceNumber = sn <;> simp [hc]

/-- What is done to an entry does not change the numbers of the list. -/
theorem map_sequenceNumber_modifyChange (r : ReaderProxy) (position : Nat)
    {f : ChangeForReader → ChangeForReader} (hf : ∀ c, (f c).sequenceNumber = c.sequenceNumber) :
    (r.modifyChange position f).changesForReader.map (·.sequenceNumber) =
      r.changesForReader.map (·.sequenceNumber) := by
  refine ext_getElem? fun i => ?_
  rw [modifyChange, getElem?_map, getElem?_map, getElem?_modify]
  cases r.changesForReader[i]? with
  | none => rfl
  | some c =>
    dsimp only [Option.map_eq_map, Option.map_some]
    split
    · rw [hf]
    · rfl

lemma missing_modifyChange (r : ReaderProxy) (position : Nat)
    {f : ChangeForReader → ChangeForReader} (hf : ∀ c, (f c).sequenceNumber = c.sequenceNumber) :
    (r.modifyChange position f).missing minSeq = r.missing minSeq := by
  funext sn
  rw [missing, missing, isNone_findChange, isNone_findChange,
    map_sequenceNumber_modifyChange r position hf]
  rfl

/-- The builder collects the requested numbers that are missing. -/
theorem foldl_requestChange (minSeq : Int) (sits : List Int) (b : GapBuilder) (requested : Bool) :
    (sits.foldl (requestChange minSeq) (r, b, requested)).2.1 =
      (sits.filter (r.missing minSeq)).foldl GapBuilder.add b := by
  induction sits generalizing r b requested with
  | nil => rfl
  | cons sit sits ih =>
    rw [foldl_cons, requestChange]
    split
    · rename_i position c hfind
      have hhead : r.missing minSeq sit = false := by simp [missing, hfind]
      rw [filter_cons_of_neg (by simp [hhead])]
      split
      · rw [ih, missing_modifyChange]
        exact fun _ => rfl
      · exact ih ..
    · rename_i hfind
      split
      · rename_i habove
        have hhead : r.missing minSeq sit = true := by simp [missing, hfind, habove]
        rw [filter_cons_of_pos hhead, foldl_cons, ih]
      · rename_i hbelow
        have hhead : r.missing minSeq sit = false := by simp [missing, hfind, hbelow]
        rw [filter_cons_of_neg (by simp [hhead]), ih]

/-- The GAPs that answer a request cover the requested numbers that are missing, and no others: the
builder is given just these, in the order of the set. -/
theorem covers_requestedChangesSet (r : ReaderProxy) {set : BitmapRange Int} (hset : set.WellFormed)
    (minSeq sn : Int) :
    (∃ g ∈ (r.requestedChangesSet set GapBuilder.new minSeq).2.1.flush.added, g.Covers sn) ↔
      minSeq ≠ unknownSequenceNumber ∧ set.isSet sn = true ∧ r.missing minSeq sn = true := by
  rw [requestedChangesSet]
  split
  · rename_i hmin
    have hincreasing : (set.forEach.filter (r.missing minSeq)).Pairwise (· < ·) := by
      refine ((BitmapRange.forEach_increasing (window_int _) hset).sublist
        filter_sublist).imp fun {x y} hle => ?_
      simpa [RangeItem.le] using hle
    rw [foldl_requestChange, ← GapBuilder.gapsFor, GapBuilder.covers_gapsFor hincreasing,
      mem_filter, BitmapRange.mem_forEach (window_int _) hset]
    simp [hmin]
  · rename_i hmin
    simp [GapBuilder.new, GapBuilder.flush, hmin]

end ReaderProxy

namespace StatefulWriter

variable {cfg : WriterConfig} {w : StatefulWriter} {o : Output} {sn : Int}
  {changes : List CacheChange}

lemma covers_removeChange {seq : Int} (ho : o ∈ (w.removeChange seq).2) (hsn : o.Covers sn) :
    sn = seq := by
  rw [removeChange] at ho
  split at ho
  · obtain ⟨r, -, hr⟩ := mem_filterMap.mp ho
    rw [map_eq_some_iff] at hr
    obtain ⟨first, hfirst, rfl⟩ := hr
    have hseq : first = seq := by
      rw [ReaderProxy.changeHasBeenRemoved] at hfirst
      split at hfirst
      · cases hfirst
      · split at hfirst
        · cases hfirst
        · split at hfirst
          · exact (some.inj hfirst).symm
          · cases hfirst
    have hcovered := (Gap.covers_ofRange _ _ _).mp hsn
    omega
  · cases ho

lemma covers_notifyBackwards {removes : CacheChange → Bool} {endSeq : Int}
    (ho : o ∈ (notifyBackwards removes endSeq changes w).2)
    (hsn : o.Covers sn) : ∃ c ∈ changes, sn = c.sequenceNumber := by
  induction changes generalizing w with
  | nil => cases ho
  | cons change older ih =>
    have htold : ∀ o, o ∈ Output.receivedByAll change.sequenceNumber ::
        (if removes change then w.removeChange change.sequenceNumber else (w, [])).2 →
        o.Covers sn → sn = change.sequenceNumber := by
      intro o ho hsn
      rcases mem_cons.mp ho with rfl | ho
      · exact hsn.elim
      · split at ho
        · exact covers_removeChange ho hsn
        · cases ho
    rw [notifyBackwards] at ho
    split at ho
    · cases ho
    · dsimp only at ho
      split at ho
      · rcases mem_append.mp ho with ho | ho
        · exact ⟨change, mem_cons_self, htold o ho hsn⟩
        · obtain ⟨c, hc, heq⟩ := ih ho
          exact ⟨c, mem_cons_of_mem _ hc, heq⟩
      · exact ⟨change, mem_cons_self, htold o ho hsn⟩

/-- The GAPs that the listener causes are for changes of the history. -/
theorem covers_checkAckedStatus (ho : o ∈ (w.checkAckedStatus cfg).2) (hsn : o.Covers sn) :
    ∃ c ∈ w.history.changes, sn = c.sequenceNumber := by
  have hmem : o ∈ (w.notifyAcked cfg).2 := by
    rw [checkAckedStatus] at ho
    split at ho <;> exact ho
  rw [notifyAcked] at hmem
  split at hmem
  · split at hmem
    · split at hmem
      · obtain ⟨c, hc, heq⟩ := covers_notifyBackwards hmem hsn
        refine ⟨c, ?_, heq⟩
        rw [changesUpTo, mem_reverse] at hc
        exact mem_of_mem_take hc
      · cases hmem
    · cases hmem
  · cases hmem

section Holes

lemma mem_holes (hincreasing : changes.Pairwise fun a b => a.sequenceNumber < b.sequenceNumber)
    (hsn : sn ∈ holes changes) :
    (∃ c ∈ changes.head?, c.sequenceNumber < sn) ∧ ∃ c ∈ changes, sn < c.sequenceNumber := by
  fun_induction holes changes with
  | case1 => cases hsn
  | case2 => cases hsn
  | case3 a b rest ih =>
    rw [pairwise_cons] at hincreasing
    have hab := hincreasing.1 b mem_cons_self
    rcases mem_append.mp hsn with hhere | hlater
    · obtain ⟨k, hk, rfl⟩ := mem_map.mp hhere
      rw [mem_range] at hk
      exact ⟨⟨a, rfl, by omega⟩, b, by simp, by omega⟩
    · obtain ⟨⟨c, hc, hlt⟩, d, hd, hgt⟩ := ih hincreasing.2 hlater
      obtain rfl : b = c := some.inj hc
      exact ⟨⟨a, rfl, by omega⟩, d, mem_cons_of_mem _ hd, hgt⟩

lemma holes_increasing
    (hincreasing : changes.Pairwise fun a b => a.sequenceNumber < b.sequenceNumber) :
    (holes changes).Pairwise (· < ·) := by
  fun_induction holes changes with
  | case1 => exact .nil
  | case2 => exact .nil
  | case3 a b rest ih =>
    rw [pairwise_cons] at hincreasing
    refine pairwise_append.mpr ⟨?_, ih hincreasing.2, ?_⟩
    · rw [pairwise_map]
      exact pairwise_lt_range.imp fun {i j} hij => by omega
    · intro x hx y hy
      obtain ⟨k, hk, rfl⟩ := mem_map.mp hx
      obtain ⟨⟨c, hc, hlt⟩, -⟩ := mem_holes hincreasing.2 hy
      obtain rfl : b = c := some.inj hc
      rw [mem_range] at hk
      omega

lemma covers_addGapsForHolesInHistory {h : WriterHistory} (hh : HistoryOrdered cfg h)
    {reader : Option Guid} (ho : o ∈ addGapsForHolesInHistory h reader) (hsn : o.Covers sn) :
    sn ∈ holes h.changes := by
  obtain ⟨g, hg, rfl⟩ := mem_map.mp ho
  exact (GapBuilder.covers_gapsFor (holes_increasing hh.increasing) sn).mp ⟨g, hg, hsn⟩

end Holes

end StatefulWriter

end EasyDds.Rtps
