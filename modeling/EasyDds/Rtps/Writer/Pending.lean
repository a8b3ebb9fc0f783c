import EasyDds.Rtps.Writer.FutureGap

/-!
The order of the pending list of a proxy: the numbers rise, and all of them lie above the low mark.
-/

namespace EasyDds.Rtps

open List

namespace ChangeForReader

variable (c : ChangeForReader)

@[simp] lemma sequenceNumber_markFragmentsAsSent (fragment : Nat) :
    (c.markFragmentsAsSent fragment).sequenceNumber = c.sequenceNumber := by
  rw [markFragmentsAsSent]
  split <;> rfl

@[simp] lemma status_markFragmentsAsSent (fragment : Nat) :
    (c.markFragmentsAsSent fragment).status = c.status := by
  rw [markFragmentsAsSent]
  split <;> rfl

@[simp] lemma sequenceNumber_markFragmentsAsUnsent (fragments : BitmapRange Nat) :
    (c.markFragmentsAsUnsent fragments).sequenceNumber = c.sequenceNumber := by
  rw [markFragmentsAsUnsent]
  split
  · split <;> rfl
  · rfl

@[simp] lemma status_markFragmentsAsUnsent (fragments : BitmapRange Nat) :
    (c.markFragmentsAsUnsent fragments).status = c.status := by
  rw [markFragmentsAsUnsent]
  split
  · split <;> rfl
  · rfl

end ChangeForReader

namespace ReaderProxy

open Relation

/-- The numbers of the pending changes rise, from above the low mark. -/
structure Sorted (r : ReaderProxy) : Prop where
  increasing : r.changesForReader.Pairwise fun a b => a.sequenceNumber < b.sequenceNumber
  above : ∀ c ∈ r.changesForReader, r.changesLowMark < c.sequenceNumber

variable {r : ReaderProxy} {h : WriterHistory} {seq : Int} {entries : List ChangeForReader}
  {c : ChangeForReader} {position : Nat}

section Search

/-- The search splits a list whose numbers rise into those below a number and the rest. -/
theorem exists_split (hincreasing : entries.Pairwise fun a b => a.sequenceNumber < b.sequenceNumber)
    (seq : Int) : ∃ as bs, entries = as ++ bs ∧
      lowerBound (fun c => decide (c.sequenceNumber < seq)) entries = as.length ∧
      (∀ a ∈ as, a.sequenceNumber < seq) ∧ ∀ b ∈ bs, seq ≤ b.sequenceNumber := by
  have hsplit : entries.Pairwise fun a b => decide (b.sequenceNumber < seq) = true →
      decide (a.sequenceNumber < seq) = true := by
    refine hincreasing.imp fun {a b} hlt hb => ?_
    simp only [decide_eq_true_eq] at hb ⊢
    omega
  obtain ⟨as, bs, heq, hlength, has, hbs⟩ := exists_lowerBound hsplit
  exact ⟨as, bs, heq, hlength, by simpa using has, by simpa using hbs⟩

lemma Sorted.findChange_eq_some (hr : r.Sorted) : r.findChange seq = some (position, c) ↔
      r.changesForReader[position]? = some c ∧ c.sequenceNumber = seq := by
  refine ⟨getElem?_of_findChange, ?_⟩
  rintro ⟨hget, rfl⟩
  obtain ⟨as, bs, heq, hlength, has, hbs⟩ := exists_split hr.increasing c.sequenceNumber
  have hincreasing := hr.increasing
  rw [findChange, lowerBoundChange, hlength]
  rw [heq] at hget hincreasing ⊢
  -- The entry is the first that is not below its own number.
  obtain hlt | hle := Nat.lt_or_ge position as.length
  · rw [getElem?_append_left hlt] at hget
    exact absurd (has c (mem_of_getElem? hget)) (by omega)
  · rw [getElem?_append_right hle] at hget
    cases bs with
    | nil => simp at hget
    | cons b bs =>
      obtain hfirst | ⟨i, hi⟩ : position - as.length = 0 ∨ ∃ i, position - as.length = i + 1 := by
        cases position - as.length with
        | zero => exact .inl rfl
        | succ i => exact .inr ⟨i, rfl⟩
      · rw [hfirst, getElem?_cons_zero, Option.some_inj] at hget
        obtain rfl : position = as.length := by omega
        simp [hget]
      · rw [hi, getElem?_cons_succ] at hget
        have hmem := mem_of_getElem? hget
        have hlater := (pairwise_cons.mp (pairwise_append.mp hincreasing).2.1).1 c hmem
        have hfirst := hbs b mem_cons_self
        omega

lemma Sorted.findChange_eq_none (hr : r.Sorted) :
    r.findChange seq = none ↔ ∀ c ∈ r.changesForReader, c.sequenceNumber ≠ seq := by
  constructor
  · intro hnone c hc hseq
    obtain ⟨i, hi⟩ := getElem?_of_mem hc
    rw [(hr.findChange_eq_some).mpr ⟨hi, hseq⟩] at hnone
    cases hnone
  · intro hne
    cases hfind : r.findChange seq with
    | none => rfl
    | some found =>
      obtain ⟨hget, hnumber⟩ := getElem?_of_findChange hfind
      exact absurd hnumber (hne _ (mem_of_getElem? hget))

/-- Two entries with one number are the same entry. -/
theorem Sorted.eq_of_sequenceNumber (hr : r.Sorted) {c d : ChangeForReader} {i j : Nat}
    (hi : r.changesForReader[i]? = some c) (hj : r.changesForReader[j]? = some d)
    (heq : c.sequenceNumber = d.sequenceNumber) : i = j := by
  have hfirst := hr.findChange_eq_some.mpr ⟨hi, heq⟩
  rw [hr.findChange_eq_some.mpr ⟨hj, rfl⟩] at hfirst
  exact (congrArg Prod.fst (Option.some.inj hfirst)).symm

end Search

section Keeping

/-- What becomes of the entries one by one does not change their numbers. -/
theorem map_sequenceNumber_of_moves {ok : BitmapRange Nat → Prop} {entries' : List ChangeForReader}
    (hmoves : Forall₂ (ReflTransGen (EntryMove ok)) entries entries') :
    entries'.map (·.sequenceNumber) = entries.map (·.sequenceNumber) := by
  have hone : ∀ {c c' : ChangeForReader}, ReflTransGen (EntryMove ok) c c' →
      c'.sequenceNumber = c.sequenceNumber := by
    intro c c' hmove
    induction hmove with
    | refl => rfl
    | tail _ hlast ih => rw [hlast.sequenceNumber_eq, ih]
  induction hmoves with
  | nil => rfl
  | cons hhead _ ih => rw [map_cons, map_cons, hone hhead, ih]

/-- The order is one of the numbers. -/
theorem Sorted.of_map_eq (hr : r.Sorted) {r' : ReaderProxy}
    (hlow : r'.changesLowMark = r.changesLowMark)
    (hnumbers : r'.changesForReader.map (·.sequenceNumber) =
      r.changesForReader.map (·.sequenceNumber)) : r'.Sorted := by
  constructor
  · have hincreasing := pairwise_map.mpr hr.increasing
    rw [← hnumbers] at hincreasing
    exact pairwise_map.mp hincreasing
  · intro c hc
    have hmem : c.sequenceNumber ∈ r.changesForReader.map (·.sequenceNumber) := by
      rw [← hnumbers]
      exact mem_map_of_mem hc
    obtain ⟨d, hd, heq⟩ := mem_map.mp hmem
    have habove := hr.above d hd
    omega

lemma Sorted.modifyChange (hr : r.Sorted) (position : Nat) {f : ChangeForReader → ChangeForReader}
    (hf : ∀ c, (f c).sequenceNumber = c.sequenceNumber) : (r.modifyChange position f).Sorted :=
  hr.of_map_eq rfl (map_sequenceNumber_modifyChange r position hf)

lemma Sorted.eraseIdx (hr : r.Sorted) (position : Nat) :
    ({ r with changesForReader := r.changesForReader.eraseIdx position } : ReaderProxy).Sorted :=
  ⟨hr.increasing.sublist (eraseIdx_sublist ..), fun c hc => hr.above c (mem_of_mem_eraseIdx hc)⟩

lemma Sorted.addChange (hr : r.Sorted) {entry : ChangeForReader} {isRelevant : Bool}
    (hlow : r.changesLowMark < entry.sequenceNumber)
    (hlast : ∀ c ∈ r.changesForReader, c.sequenceNumber < entry.sequenceNumber) :
    (r.addChange entry isRelevant).Sorted := by
  rw [ReaderProxy.addChange]
  split
  · constructor
    · refine pairwise_append.mpr ⟨hr.increasing, pairwise_singleton _ _, ?_⟩
      intro a ha b hb
      rw [mem_singleton.mp hb]
      exact hlast a ha
    · intro c hc
      rcases mem_append.mp hc with hold | hnew
      · exact hr.above c hold
      · rwa [mem_singleton.mp hnew]
  · split
    · rename_i hnext
      -- Nothing is pending between the low mark and the number that is passed over.
      simp only [Bool.and_eq_true, decide_eq_true_eq] at hnext
      refine ⟨hr.increasing, fun c hc => ?_⟩
      have habove := hr.above c hc
      have hbelow := hlast c hc
      omega
    · exact hr

end Keeping

section Acknowledging

lemma le_skipAcknowledged (entries : List ChangeForReader) (seq : Int) :
    seq ≤ (skipAcknowledged entries seq).2 := by
  induction entries generalizing seq with
  | nil => exact Int.le_refl _
  | cons d entries ih =>
    rw [skipAcknowledged]
    split
    · have hle := ih (seq + 1)
      omega
    · exact Int.le_refl _

lemma skipAcknowledged_le_sequenceNumber
    (hincreasing : entries.Pairwise fun a b => a.sequenceNumber < b.sequenceNumber)
    (hentries : ∀ c ∈ entries, seq ≤ c.sequenceNumber) (hc : c ∈ (skipAcknowledged entries seq).1) :
    (skipAcknowledged entries seq).2 ≤ c.sequenceNumber := by
  induction entries generalizing seq with
  | nil => cases hc
  | cons d entries ih =>
    rw [pairwise_cons] at hincreasing
    rw [skipAcknowledged] at hc ⊢
    split at hc
    · rename_i hd
      rw [if_pos hd]
      refine ih hincreasing.2 (fun e he => ?_) hc
      have hlater := hincreasing.1 e he
      omega
    · rename_i hd
      rw [if_neg hd]
      exact hentries c hc

lemma skipAcknowledged_sublist (entries : List ChangeForReader) (seq : Int) :
    (skipAcknowledged entries seq).1.Sublist entries := by
  induction entries generalizing seq with
  | nil => exact .slnil
  | cons d entries ih =>
    rw [skipAcknowledged]
    split
    · exact (ih _).cons d
    · exact .refl _

structure Acked (r r' : ReaderProxy) (seq : Int) : Prop where
  sorted : r'.Sorted
  sublist : r'.changesForReader.Sublist r.changesForReader
  lowMark : seq ≤ r'.changesLowMark + 1
  /-- Behind the new low mark there were only numbers below `seq` and acknowledged entries. -/
  passed : ∀ c ∈ r.changesForReader, seq ≤ c.sequenceNumber →
    c ∈ r'.changesForReader ∨ c.status = .acknowledged
  kept : ∀ c ∈ r.changesForReader, r'.changesLowMark < c.sequenceNumber → c ∈ r'.changesForReader

variable (seq) in
lemma mem_skipAcknowledged_or (hc : c ∈ entries) : c ∈ (skipAcknowledged entries seq).1 ∨
      c.status = .acknowledged ∧ c.sequenceNumber < (skipAcknowledged entries seq).2 := by
  induction entries generalizing seq with
  | nil => cases hc
  | cons d entries ih =>
    rw [skipAcknowledged]
    split
    · rename_i hd
      rcases mem_cons.mp hc with rfl | hc
      · have hle := le_skipAcknowledged entries (seq + 1)
        exact .inr ⟨hd.2, by omega⟩
      · exact ih _ hc
    · exact .inl hc

lemma Sorted.acked (hr : r.Sorted) (hseq : r.changesLowMark < seq) :
    Acked r (r.ackedChangesSet h seq) seq := by
  obtain ⟨as, bs, heq, hlength, has, hbs⟩ := exists_split hr.increasing seq
  have hdrop : r.changesForReader.drop (r.lowerBoundChange seq) = bs := by
    rw [lowerBoundChange, hlength, heq, drop_left]
  have hincreasing : bs.Pairwise fun a b => a.sequenceNumber < b.sequenceNumber :=
    (pairwise_append.mp (heq ▸ hr.increasing)).2.1
  have hle := le_skipAcknowledged bs seq
  have hsub := skipAcknowledged_sublist bs seq
  rw [ackedChangesSet, if_pos hseq, hdrop]
  refine ⟨⟨hincreasing.sublist hsub, fun c hc => ?_⟩, ?_, ?_, fun c hc hge => ?_,
    fun c hc hlt => ?_⟩
  · have hbelow := skipAcknowledged_le_sequenceNumber hincreasing hbs hc
    dsimp only
    omega
  · rw [heq]
    exact hsub.trans (sublist_append_right as bs)
  · dsimp only
    omega
  · rw [heq] at hc
    rcases mem_append.mp hc with hc | hc
    · have hlt := has c hc
      omega
    · exact (mem_skipAcknowledged_or _ hc).imp_right And.left
  · dsimp only at hlt ⊢
    rw [heq] at hc
    rcases mem_append.mp hc with hc | hc
    · have hlt' := has c hc
      omega
    · rcases mem_skipAcknowledged_or seq hc with hin | ⟨-, hpast⟩
      · exact hin
      · omega

end Acknowledging

end ReaderProxy

end EasyDds.Rtps
