import EasyDds.Rtps.History.ReaderHistory

/-!
When a reader history finds the changes it stores. The comparison used for the insertion is an
order only as long as the timestamps of a writer follow its sequence numbers.
-/

namespace EasyDds.Rtps

open List

/-- The changes of each writer stand in strictly increasing order of sequence numbers. -/
def WriterOrdered (changes : List CacheChange) : Prop :=
  changes.Pairwise fun a b => a.writerGUID = b.writerGUID → a.sequenceNumber < b.sequenceNumber

namespace ReaderHistory

lemma getChangeFrom_of_mem {changes : List CacheChange} (h : WriterOrdered changes)
    {c : CacheChange} (hc : c ∈ changes) (position : Nat) :
    (getChangeFrom c.sequenceNumber c.writerGUID position changes).2 = some c := by
  induction changes generalizing position with
  | nil => cases hc
  | cons d rest ih =>
    rw [WriterOrdered, pairwise_cons] at h
    rw [getChangeFrom]
    rcases mem_cons.mp hc with rfl | hc
    · simp
    · by_cases hguid : d.writerGUID = c.writerGUID
      · have hlt := h.1 c hc hguid
        rw [if_pos hguid, if_neg (by omega), if_neg (by omega)]
        exact ih h.2 hc _
      · rw [if_neg hguid]
        exact ih h.2 hc _

/-- Every stored change is found by its writer and number, because those of each writer are in
order. -/
structure LookupComplete (h : ReaderHistory) : Prop where
  ordered : WriterOrdered h.changes
  found : ∀ c ∈ h.changes, h.getChange c.sequenceNumber c.writerGUID = some c

lemma lookupComplete_of_writerOrdered {h : ReaderHistory} (hatt : h.attached = true)
    (hord : WriterOrdered h.changes) : h.LookupComplete := by
  refine ⟨hord, fun c hc => ?_⟩
  simp only [getChange, hatt, getChangeNts, drop_zero]
  exact getChangeFrom_of_mem hord hc 0

end ReaderHistory

def Timely (a b : CacheChange) : Prop :=
  a.writerGUID = b.writerGUID →
    (a.sequenceNumber < b.sequenceNumber ∧ a.sourceTimestamp.lt b.sourceTimestamp = true) ∨
    (b.sequenceNumber < a.sequenceNumber ∧ b.sourceTimestamp.lt a.sourceTimestamp = true)

lemma Timely.symm {a b : CacheChange} (h : Timely a b) : Timely b a :=
  fun hguid => (h hguid.symm).symm

/-- Among timely changes the comparison is that of the timestamps: for two changes of one writer it
takes the sequence numbers, which rise with them. -/
theorem Timely.historyOrderCmp_iff {a b : CacheChange} (h : Timely a b) :
    historyOrderCmp a b = true ↔ a.sourceTimestamp.rank < b.sourceTimestamp.rank := by
  rw [historyOrderCmp]
  split
  case isTrue hguid =>
    rcases h hguid with ⟨hseq, htime⟩ | ⟨hseq, htime⟩
    · simp [hseq, ← Time.lt_iff, htime]
    · have htime := Time.lt_iff.mp htime
      simp only [decide_eq_true_eq]
      exact ⟨fun _ => by omega, fun hlt => absurd hlt (not_lt_of_gt htime)⟩
  case isFalse => exact Time.lt_iff

/-- Changes in the order of their timestamps, those of one writer with increasing ones. -/
structure Chronological (changes : List CacheChange) : Prop where
  sorted : changes.Pairwise fun a b => a.sourceTimestamp.rank ≤ b.sourceTimestamp.rank
  timely : changes.Pairwise Timely

namespace Chronological

variable {changes : List CacheChange} {c : CacheChange}

lemma sublist (h : Chronological changes) {kept : List CacheChange}
    (hsub : kept.Sublist changes) : Chronological kept :=
  ⟨h.sorted.sublist hsub, h.timely.sublist hsub⟩

lemma writerOrdered (h : Chronological changes) : WriterOrdered changes := by
  refine (h.sorted.and h.timely).imp ?_
  rintro a b ⟨hle, htimely⟩ hguid
  rcases htimely hguid with ⟨hseq, -⟩ | ⟨-, htime⟩
  · exact hseq
  · exact absurd (Time.lt_iff.mp htime) (not_lt_of_ge hle)

/-- The insertion splits a chronological list at the timestamp of the new change. All comparisons of
the search agree with the timestamps, so it finds the place. -/
theorem exists_split (h : Chronological changes) (hc : ∀ d ∈ changes, Timely d c) :
    ∃ earlier later, changes = earlier ++ later ∧
      sortedVectorInsert historyOrderCmp changes c = earlier ++ c :: later ∧
      (∀ d ∈ earlier, d.sourceTimestamp.rank ≤ c.sourceTimestamp.rank) ∧
      ∀ d ∈ later, c.sourceTimestamp.rank ≤ d.sourceTimestamp.rank := by
  rw [sortedVectorInsert]
  split
  case isTrue =>
    have hcmp : changes.Pairwise fun x y =>
        historyOrderCmp y c = true → historyOrderCmp x c = true := by
      apply h.sorted.imp_of_mem
      intro x y hx hy hle hlt
      rw [(hc y hy).historyOrderCmp_iff] at hlt
      rw [(hc x hx).historyOrderCmp_iff]
      exact lt_of_le_of_lt hle hlt
    obtain ⟨earlier, later, rfl, hpos, hearlier, hlater⟩ := exists_lowerBound hcmp
    refine ⟨earlier, later, rfl, ?_, ?_, ?_⟩
    · rw [hpos, insertIdx_length_append]
    · intro d hd
      exact le_of_lt (((hc d (mem_append_left _ hd)).historyOrderCmp_iff).mp (hearlier d hd))
    · intro d hd
      have hnot := mt (hc d (mem_append_right _ hd)).historyOrderCmp_iff.mpr
        (Bool.eq_false_iff.mp (hlater d hd))
      exact not_lt.mp hnot
  case isFalse hlast =>
    refine ⟨changes, [], by simp, by simp, ?_, by simp⟩
    intro d hd
    -- The last change has the latest timestamp.
    obtain ⟨front, last, rfl⟩ : ∃ front last, changes = front ++ [last] :=
      ⟨_, _, (dropLast_append_getLast (ne_nil_of_mem hd)).symm⟩
    have hle : d.sourceTimestamp.rank ≤ last.sourceTimestamp.rank := by
      rcases mem_append.mp hd with hfront | hlast
      · exact (pairwise_append.mp h.sorted).2.2 d hfront last (by simp)
      · rw [mem_singleton.mp hlast]
    have hnot : ¬ c.sourceTimestamp.rank < last.sourceTimestamp.rank := by
      rw [← (hc last (by simp)).symm.historyOrderCmp_iff]
      simpa using hlast
    exact hle.trans (not_lt.mp hnot)

lemma insert (h : Chronological changes) (hc : ∀ d ∈ changes, Timely d c) :
    Chronological (sortedVectorInsert historyOrderCmp changes c) := by
  obtain ⟨earlier, later, rfl, hinsert, hearlier, hlater⟩ := h.exists_split hc
  rw [hinsert]
  have hsorted := pairwise_append.mp h.sorted
  have htimely := pairwise_append.mp h.timely
  constructor
  · refine pairwise_append.mpr ⟨hsorted.1, pairwise_cons.mpr ⟨hlater, hsorted.2.1⟩, ?_⟩
    intro d hd e he
    rcases mem_cons.mp he with rfl | he
    · exact hearlier d hd
    · exact hsorted.2.2 d hd e he
  · refine pairwise_append.mpr ⟨htimely.1, pairwise_cons.mpr ⟨?_, htimely.2.1⟩, ?_⟩
    · exact fun d hd => (hc d (mem_append_right _ hd)).symm
    · intro d hd e he
      rcases mem_cons.mp he with rfl | he
      · exact hc d (mem_append_left _ hd)
      · exact htimely.2.2 d hd e he

end Chronological

namespace ReaderHistory

lemma addChange_cases (h : ReaderHistory) (c : CacheChange) :
    (h.addChange c).2 = h ∨ h.attached = true ∧
      (h.addChange c).2 = { h with changes := sortedVectorInsert historyOrderCmp h.changes c } := by
  rw [addChange]
  split
  · exact .inl rfl
  · split
    · exact .inl rfl
    · exact .inr ⟨by simpa using ‹¬ (!h.attached) = true›, rfl⟩

lemma removeChange_cases (h : ReaderHistory) (c : CacheChange) : (h.removeChange c).2 = h ∨
      ∃ i, (h.removeChange c).2 = { h with changes := h.changes.eraseIdx i } := by
  have hnts : (h.removeChangeNts (h.findChangeNts c)).2 = h ∨
      ∃ i, (h.removeChangeNts (h.findChangeNts c)).2 =
        { h with changes := h.changes.eraseIdx i } := by
    rw [removeChangeNts]
    split
    · exact .inl rfl
    · split
      · exact .inl rfl
      · exact .inr ⟨_, rfl⟩
  simp only [removeChange]
  split
  · exact .inl rfl
  · split <;> exact hnts

/-- Histories reached by adding changes among `delivered` and removing any. The readers add a
change only if the history holds none of that writer with that number. -/
inductive Reachable (delivered : CacheChange → Prop) : ReaderHistory → Prop
  | init (attached : Bool) (memoryPolicy : MemoryPolicy) (payloadMaxSize : Nat) :
      Reachable delivered ⟨attached, memoryPolicy, payloadMaxSize, []⟩
  | add {h : ReaderHistory} {c : CacheChange} (reachable : Reachable delivered h)
      (admitted : delivered c) (fresh : ∀ d ∈ h.changes, matchesChange d c = false) :
      Reachable delivered (h.addChange c).2
  | remove {h : ReaderHistory} (c : CacheChange) (reachable : Reachable delivered h) :
      Reachable delivered (h.removeChange c).2

variable {delivered : CacheChange → Prop} {h : ReaderHistory}

structure Kept (delivered : CacheChange → Prop) (h : ReaderHistory) : Prop where
  detached : h.attached = false → h.changes = []
  known : ∀ c ∈ h.changes, delivered c
  chronological : Chronological h.changes

/-- Timestamps of each writer increase strictly with its sequence numbers. -/
def TimestampsFollow (delivered : CacheChange → Prop) : Prop :=
  ∀ c d, delivered c → delivered d → c.writerGUID = d.writerGUID →
    c.sequenceNumber < d.sequenceNumber → c.sourceTimestamp.lt d.sourceTimestamp = true

variable {c : CacheChange}

lemma TimestampsFollow.timely (hfollow : TimestampsFollow delivered) {d : CacheChange}
    (hc : delivered c) (hd : delivered d) (hfresh : matchesChange d c = false) : Timely d c := by
  intro hguid
  have hne : d.sequenceNumber ≠ c.sequenceNumber := by
    intro hseq
    simp [matchesChange, hguid, hseq] at hfresh
  rcases lt_or_gt_of_ne hne with hlt | hgt
  · exact .inl ⟨hlt, hfollow d c hd hc hguid hlt⟩
  · exact .inr ⟨hgt, hfollow c d hc hd hguid.symm hgt⟩

lemma Kept.addChange (hfollow : TimestampsFollow delivered) (hk : Kept delivered h)
    (hc : delivered c) (hfresh : ∀ d ∈ h.changes, matchesChange d c = false) :
    Kept delivered (h.addChange c).2 := by
  rcases addChange_cases h c with heq | ⟨hatt, heq⟩
  · rwa [heq]
  · rw [heq]
    have htimely : ∀ d ∈ h.changes, Timely d c :=
      fun d hd => hfollow.timely hc (hk.known d hd) (hfresh d hd)
    refine ⟨fun hdet => absurd hatt (by simp_all), ?_, hk.chronological.insert htimely⟩
    intro d hd
    obtain ⟨earlier, later, hsplit, hinsert, -, -⟩ := hk.chronological.exists_split htimely
    rw [hinsert] at hd
    rcases mem_append.mp hd with hd | hd
    · exact hk.known d (by simp [hsplit, hd])
    · rcases mem_cons.mp hd with rfl | hd
      · exact hc
      · exact hk.known d (by simp [hsplit, hd])

lemma Kept.removeChange (hk : Kept delivered h) (c : CacheChange) :
    Kept delivered (h.removeChange c).2 := by
  rcases removeChange_cases h c with heq | ⟨i, heq⟩
  · rwa [heq]
  · rw [heq]
    have hsub : (h.changes.eraseIdx i).Sublist h.changes := eraseIdx_sublist ..
    refine ⟨fun hdet => ?_, fun d hd => hk.known d (hsub.subset hd), hk.chronological.sublist hsub⟩
    rw [hk.detached hdet]
    rfl

lemma Reachable.kept (hfollow : TimestampsFollow delivered) (hr : Reachable delivered h) :
    Kept delivered h := by
  induction hr with
  | init attached memoryPolicy payloadMaxSize =>
    exact ⟨fun _ => rfl, by simp, ⟨Pairwise.nil, Pairwise.nil⟩⟩
  | add _ hc hfresh ih => exact ih.addChange hfollow hc hfresh
  | remove c _ ih => exact ih.removeChange c

lemma Kept.lookupComplete (hk : Kept delivered h) : h.LookupComplete := by
  cases hatt : h.attached with
  | true => exact lookupComplete_of_writerOrdered hatt hk.chronological.writerOrdered
  | false =>
    have hnil := hk.detached hatt
    refine ⟨hk.chronological.writerOrdered, fun c hc => ?_⟩
    rw [hnil] at hc
    cases hc

def unbounded : ReaderHistory := ⟨true, .dynamicReserve, 0, []⟩

lemma addChange_last (changes : List CacheChange) {last : CacheChange}
    (hcmp : historyOrderCmp c last = false) :
    (({ unbounded with changes := changes ++ [last] } : ReaderHistory).addChange c).2 =
      { unbounded with changes := changes ++ [last] ++ [c] } := by
  have hend : (changes ++ [last]).getLast?.any (historyOrderCmp c) = false := by simpa using hcmp
  have hinsert : sortedVectorInsert historyOrderCmp (changes ++ [last]) c =
      changes ++ [last] ++ [c] := by
    rw [sortedVectorInsert, hend]
    simpa using insertIdx_length_append (changes ++ [last]) [] c
  simp only [addChange, unbounded, hinsert]
  rfl

/-- A change of another writer hides the place of a change that comes late with a timestamp that
is not earlier than that of its successor. -/
theorem reachable_disordered {d z : CacheChange} (hc : delivered c) (hd : delivered d)
    (hz : delivered z) (hguid : c.writerGUID = d.writerGUID)
    (hseq : c.sequenceNumber < d.sequenceNumber) (hother : z.writerGUID ≠ d.writerGUID)
    (htime : z.sourceTimestamp = d.sourceTimestamp)
    (hlate : c.sourceTimestamp.lt d.sourceTimestamp = false) :
    Reachable delivered { unbounded with changes := [d, z, c] } := by
  have hfirst : Reachable delivered { unbounded with changes := [d] } :=
    Reachable.add (Reachable.init true .dynamicReserve 0) hd (by simp)
  have hsecond : Reachable delivered { unbounded with changes := [d, z] } := by
    have hirrefl : z.sourceTimestamp.lt d.sourceTimestamp = false := by
      rw [htime, Bool.eq_false_iff, ne_eq, Time.lt_iff]
      exact lt_irrefl _
    have hcmp : historyOrderCmp z d = false := by rw [historyOrderCmp, if_neg hother, hirrefl]
    have hfresh : ∀ e ∈ [d], matchesChange e z = false := by simp [matchesChange, hother.symm]
    exact addChange_last [] hcmp ▸ Reachable.add hfirst hz hfresh
  have hcmp : historyOrderCmp c z = false := by
    rw [historyOrderCmp, if_neg (by rw [hguid]; exact hother.symm), htime, hlate]
  have hfresh : ∀ e ∈ [d, z], matchesChange e c = false := by
    have hne : d.sequenceNumber ≠ c.sequenceNumber := by omega
    simp [matchesChange, hguid, hother, hne]
  exact addChange_last [d] hcmp ▸ Reachable.add hsecond hc hfresh

/-- Timestamps that follow the sequence numbers of each writer are enough, whoever else writes. -/
theorem lookupComplete_of_timestampsFollow (hfollow : TimestampsFollow delivered)
    {h : ReaderHistory} (hr : Reachable delivered h) : h.LookupComplete :=
  (hr.kept hfollow).lookupComplete

/-- If every timestamp may also be that of another writer's change, the reachable histories find
all they store exactly when timestamps follow the sequence numbers of each writer. -/
theorem lookupComplete_iff_timestampsFollow (delivered : CacheChange → Prop)
    (hother : ∀ c, delivered c → ∃ d, delivered d ∧ d.writerGUID ≠ c.writerGUID ∧
      d.sourceTimestamp = c.sourceTimestamp) :
    (∀ h, Reachable delivered h → h.LookupComplete) ↔ TimestampsFollow delivered := by
  constructor
  · intro hall c d hc hd hguid hseq
    by_contra hlate
    obtain ⟨z, hz, hzguid, hztime⟩ := hother d hd
    have hreach := reachable_disordered hc hd hz hguid hseq hzguid hztime
      (Bool.eq_false_iff.mpr hlate)
    have hord : WriterOrdered [d, z, c] := (hall _ hreach).ordered
    simp only [WriterOrdered, pairwise_cons] at hord
    have hlt := hord.1 c (by simp) hguid.symm
    omega
  · exact fun hfollow _ hr => lookupComplete_of_timestampsFollow hfollow hr

def plainChange (key : UInt8) (seq seconds : Int) : CacheChange where
  kind := .alive
  writerGUID := ⟨Vector.replicate 12 1, Vector.replicate 4 key⟩
  sequenceNumber := seq
  serializedPayload := ⟨0, fun _ => 0, 0⟩
  sourceTimestamp := ⟨seconds, 0⟩
  fragmentSize := 0
  fragmentCount := 0
  firstMissingFragment := 0

lemma timestampsFollow_clock :
    TimestampsFollow fun c => c.sourceTimestamp = ⟨c.sequenceNumber, 0⟩ := by
  intro c d hc hd _ hseq
  simp [hc, hd, Time.lt, hseq]

theorem lookupComplete_of_clock :
    TimestampsFollow (fun c => c.sourceTimestamp = ⟨c.sequenceNumber, 0⟩) ∧
      ∀ h, Reachable (fun c => c.sourceTimestamp = ⟨c.sequenceNumber, 0⟩) h → h.LookupComplete := by
  refine ⟨timestampsFollow_clock,
    (lookupComplete_iff_timestampsFollow _ ?_).mpr timestampsFollow_clock⟩
  intro c hc
  by_cases hkey : (plainChange 1 c.sequenceNumber c.sequenceNumber).writerGUID = c.writerGUID
  · refine ⟨plainChange 2 c.sequenceNumber c.sequenceNumber, rfl, ?_, hc.symm⟩
    rw [← hkey]
    change (plainChange 2 0 0).writerGUID ≠ (plainChange 1 0 0).writerGUID
    decide
  · exact ⟨plainChange 1 c.sequenceNumber c.sequenceNumber, rfl, hkey, hc.symm⟩

/-- Changes 5 and 3 of one writer, stamped 10 and 30, with a change stamped 20 of another writer
between them: number 3 is stored behind number 5 and not found. -/
theorem lateTimestamp_hides_change : ∃ h : ReaderHistory, Reachable (fun _ => True) h ∧
      h.changes = [plainChange 1 5 10, plainChange 2 1 20, plainChange 1 3 30] ∧
      h.getChange 3 (plainChange 1 3 30).writerGUID = none := by
  have hfirst : Reachable (fun _ => True) (unbounded.addChange (plainChange 1 5 10)).2 :=
    Reachable.add (h := unbounded) (Reachable.init ..) trivial (by simp [unbounded])
  have hsecond := Reachable.add (c := plainChange 2 1 20) hfirst trivial (by decide)
  have hthird := Reachable.add (c := plainChange 1 3 30) hsecond trivial (by decide)
  exact ⟨_, hthird, rfl, by decide⟩

end ReaderHistory

end EasyDds.Rtps
