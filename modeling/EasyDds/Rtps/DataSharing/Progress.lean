import EasyDds.Rtps.DataSharing.ReaderPool

/-!
A reader and a writer that share a history, one call after the other.
-/

namespace EasyDds.Rtps.DataSharing

open WriterPool

/-- `advance(next_payload_)`. -/
def WriterPool.skip (p : WriterPool) (r : ReaderPool) : ReaderPool :=
  { r with nextPayload := advance p.historySize r.nextPayload }

structure Sharing where
  writer : Holders
  reader : Option ReaderPool
  ends : List Nat

/-- The calls of the writer and those of `DataSharingListener`, and of `init_shared_segment` in a
reader that is volatile. A call of `get_next_unread_payload` is one that came to its end. -/
inductive Sharing.Step (s : Sharing) : Sharing → Prop
  | write (use : Use) : Step s { s with writer := s.writer.step use }
  | opened : Step s { s with reader := some ⟨s.writer.pool.notifiedBegin, none⟩ }
  | asked : Step s { s with ends := s.writer.pool.notifiedEnd :: s.ends }
  | read (untilIndex fuel : Nat) {r r' : ReaderPool} {result : Option Nat} (hr : s.reader = some r)
    (huntil : untilIndex ∈ s.ends)
    (h : s.writer.pool.getNextUnreadPayload untilIndex fuel r = some (result, r')) :
    Step s { s with reader := some r' }
  | advanced {r : ReaderPool} (hr : s.reader = some r) :
    Step s { s with reader := some (s.writer.pool.advanceToNextPayload r) }
  | skipped {r : ReaderPool} (hr : s.reader = some r) :
    Step s { s with reader := some (s.writer.pool.skip r) }

/-- The states that a writer with `n` payloads and a reader get to. -/
inductive Sharing.Reached (n : Nat) : Sharing → Prop
  | initial : Reached n ⟨.initial n, none, []⟩
  | step {s s' : Sharing} (hs : Reached n s) (h : s.Step s') : Reached n s'

def IsIndex (n index : Nat) : Prop := ∃ i < n * 2 ^ 32, index = indexOf n i

namespace IsIndex

variable {n index : Nat}

lemma indexOf (hn : 0 < n) (i : Nat) : IsIndex n (indexOf n i) :=
  ⟨i % (n * 2 ^ 32), Nat.mod_lt i (Nat.mul_pos hn (by decide)), (indexOf_mod n i).symm⟩

lemma advance (hn : 0 < n) (hmax : n < 2 ^ 32) (h : IsIndex n index) :
    IsIndex n (advance n index) := by
  obtain ⟨i, -, rfl⟩ := h
  rw [advance_indexOf hn hmax]
  exact indexOf hn (i + 1)

end IsIndex

namespace WriterPool

variable {p : WriterPool} {n : Nat}

structure Placed (p : WriterPool) (n : Nat) : Prop where
  poolSize : p.poolSize = n
  notifiedBegin : IsIndex (n + 1) p.notifiedBegin
  notifiedEnd : IsIndex (n + 1) p.notifiedEnd

namespace Placed

variable (hp : p.Placed n)
include hp

lemma historySize_eq : p.historySize = n + 1 := by rw [historySize, hp.poolSize]

lemma setNode (node : Nat) (v : PayloadNode) : (p.setNode node v).Placed n :=
  ⟨hp.poolSize, hp.notifiedBegin, hp.notifiedEnd⟩

lemma pushBack (node : Nat) : (p.pushBack node).Placed n := by
  rw [WriterPool.pushBack]
  split
  · exact ⟨hp.poolSize, hp.notifiedBegin, hp.notifiedEnd⟩
  · exact hp

variable (hmax : n + 1 < 2 ^ 32)
include hmax

lemma advance {index : Nat} (h : IsIndex (n + 1) index) :
    IsIndex (n + 1) (advance p.historySize index) := by
  rw [hp.historySize_eq]
  exact h.advance n.succ_pos hmax

lemma advanceLoop (fuel : Nat) : (advanceLoop fuel p).Placed n := by
  fun_induction WriterPool.advanceLoop fuel p with
  | case1 | case2 | case4 => exact hp
  | case3 fuel p _ node _ p' ih =>
    have hback : p'.Placed n := (hp.setNode node _).pushBack node
    exact ih ⟨hback.poolSize, hback.advance hmax hback.notifiedBegin, hback.notifiedEnd⟩

lemma releasePayload (node : Nat) : (p.releasePayload node).Placed n := by
  rw [WriterPool.releasePayload]
  split
  · exact hp.advanceLoop hmax _
  · exact hp.pushBack node

lemma addToSharedHistory (node sequenceNumber : Nat) :
    (p.addToSharedHistory node sequenceNumber).Placed n :=
  ⟨hp.poolSize, hp.notifiedBegin, hp.advance hmax hp.notifiedEnd⟩

omit hp in
lemma step {s : Holders} (hs : s.pool.Placed n) (use : Use) : (s.step use).pool.Placed n := by
  cases use with
  | getPayload =>
    simp only [Holders.step, getPayload]
    cases s.pool.freePayloads with
    | nil => exact hs
    | cons node rest => exact ⟨hs.poolSize, hs.notifiedBegin, hs.notifiedEnd⟩
  | copyPayload i =>
    rw [Holders.step]
    split <;> exact hs
  | addToSharedHistory i sn =>
    rw [Holders.step]
    split
    · exact hs.addToSharedHistory hmax _ sn
    · exact hs
  | removeFromSharedHistory i =>
    rw [Holders.step]
    split
    · exact (hs.setNode _ _).releasePayload hmax _
    · exact hs
  | releasePayload i =>
    rw [Holders.step]
    split
    · exact hs.releasePayload hmax _
    · exact hs.releasePayload hmax _
    · exact hs

lemma ensureInBounds {next : Nat} (hnext : IsIndex (n + 1) next) :
    IsIndex (n + 1) (p.ensureInBounds next).2 := by
  have hsize := hp.historySize_eq
  obtain ⟨e, he, hend⟩ := hp.notifiedEnd
  obtain ⟨c, hc, rfl⟩ := hnext
  rw [← hsize] at hmax he hend hc ⊢
  rcases Nat.lt_or_ge (c + p.poolSize) e with hout | hin
  · rw [ensureInBounds_moves hmax he hend hc hout]
    exact .indexOf p.historySize_pos _
  · rw [ensureInBounds_eq hmax he hend hc hin]
    exact .indexOf p.historySize_pos _

lemma readRound {r : ReaderPool} (hr : IsIndex (n + 1) r.nextPayload)
    (untilIndex : Nat) :
    match p.readRound untilIndex r with
    | .finished _ r' | .again r' => IsIndex (n + 1) r'.nextPayload := by
  have hfirst := hp.ensureInBounds hmax hr
  have hsecond := hp.ensureInBounds hmax hfirst
  have hnext := hp.advance hmax hfirst
  fun_cases WriterPool.readRound p untilIndex r <;> assumption

lemma getNextUnreadPayload {fuel untilIndex : Nat} {r r' : ReaderPool}
    {result : Option Nat} (hr : IsIndex (n + 1) r.nextPayload)
    (h : p.getNextUnreadPayload untilIndex fuel r = some (result, r')) :
    IsIndex (n + 1) r'.nextPayload := by
  induction fuel generalizing r with
  | zero => nomatch h
  | succ fuel ih =>
    have hround := hp.readRound hmax hr untilIndex
    rw [WriterPool.getNextUnreadPayload] at h
    cases hr' : p.readRound untilIndex r with
    | finished sn r'' =>
      rw [hr'] at h hround
      cases h
      exact hround
    | again r'' =>
      rw [hr'] at h hround
      exact ih hround h

end Placed

end WriterPool

namespace Sharing

variable {n : Nat} {s s' : Sharing}

/-- The pool, the reader and the answers of `end()` have indices that one gets to. -/
structure Placed (n : Nat) (s : Sharing) : Prop where
  pool : s.writer.pool.Placed n
  reader : ∀ r, s.reader = some r → IsIndex (n + 1) r.nextPayload
  ends : ∀ index ∈ s.ends, IsIndex (n + 1) index

lemma Placed.step (hmax : n + 1 < 2 ^ 32) (hs : s.Placed n) (h : s.Step s') : s'.Placed n := by
  cases h with
  | write use => exact ⟨hs.pool.step hmax use, hs.reader, hs.ends⟩
  | opened => exact ⟨hs.pool, by rintro _ ⟨⟩; exact hs.pool.notifiedBegin, hs.ends⟩
  | asked => exact ⟨hs.pool, hs.reader, List.forall_mem_cons.2 ⟨hs.pool.notifiedEnd, hs.ends⟩⟩
  | read _ _ hr _ h =>
    refine ⟨hs.pool, ?_, hs.ends⟩
    rintro _ ⟨⟩
    exact hs.pool.getNextUnreadPayload hmax (hs.reader _ hr) h
  | @advanced r hr =>
    refine ⟨hs.pool, ?_, hs.ends⟩
    rintro _ ⟨⟩
    rw [advanceToNextPayload]
    split
    · exact hs.pool.advance hmax (hs.reader r hr)
    · exact hs.reader r hr
  | @skipped r hr =>
    refine ⟨hs.pool, ?_, hs.ends⟩
    rintro _ ⟨⟩
    exact hs.pool.advance hmax (hs.reader r hr)

lemma Reached.placed (hmax : n + 1 < 2 ^ 32) (hs : Reached n s) : s.Placed n := by
  induction hs with
  | initial =>
    have hzero : IsIndex (n + 1) 0 := ⟨0, by omega, by simp [indexOf]⟩
    exact ⟨⟨rfl, hzero, hzero⟩, by simp, by simp⟩
  | step _ h ih => exact ih.step hmax h

/-- The reader makes progress if and only if it is ready to. Indices become places, which have no
wrap; then either there is something to read below `untilIndex`, or the call ends at once. -/
theorem reader_progress_iff (hmax : n + 1 < 2 ^ 32) (hs : Reached n s) {r : ReaderPool}
    (hr : s.reader = some r) {untilIndex : Nat} (huntil : untilIndex ∈ s.ends) :
    s.writer.pool.Progresses untilIndex r ↔ s.writer.pool.Ready untilIndex r := by
  have hplaced := hs.placed hmax
  have hsize := hplaced.pool.historySize_eq
  obtain ⟨e, he, hend⟩ := hplaced.pool.notifiedEnd
  obtain ⟨c, hc, hnext⟩ := hplaced.reader r hr
  obtain ⟨u, hu, rfl⟩ := hplaced.ends untilIndex huntil
  obtain ⟨next, lastSn⟩ := r
  obtain rfl : next = indexOf (n + 1) c := hnext
  rw [← hsize] at hmax he hend hc hu ⊢
  rcases Nat.lt_or_ge c u with hcu | huc
  · exact progresses_of_lt hmax he hend hc hu hcu
  · refine progresses_end (Nat.not_lt.1 ?_)
    exact (indexOf_lt (Nat.succ_pos _) hmax hc hu).not.2 (Nat.not_lt.2 huc)

def oneChange : Sharing where
  writer := [Use.getPayload, .addToSharedHistory 0 1].foldl Holders.step (.initial 1)
  reader := some ⟨0, none⟩
  ends := [1]

lemma Reached.writes (hs : Reached n s) (uses : List Use) :
    Reached n { s with writer := uses.foldl Holders.step s.writer } := by
  induction uses generalizing s with
  | nil => exact hs
  | cons use uses ih => exact ih (hs.step (.write use))

lemma oneChange_reached : Reached 1 oneChange :=
  .step (.step (.writes .initial [.getPayload, .addToSharedHistory 0 1]) .opened) .asked

theorem reader_progress_iff_first : 1 + 1 < 2 ^ 32 ∧ Reached 1 oneChange ∧ 1 ∈ oneChange.ends ∧
      oneChange.writer.pool.Progresses 1 ⟨0, none⟩ ∧ oneChange.writer.pool.Ready 1 ⟨0, none⟩ := by
  have hprogress : oneChange.writer.pool.Progresses 1 ⟨0, none⟩ :=
    ⟨1, some 1, ⟨0, some 1⟩, rfl, by simp, by simp, 1, le_rfl, rfl⟩
  exact ⟨by decide, oneChange_reached, by decide, hprogress,
    (reader_progress_iff (by decide) oneChange_reached rfl (by decide)).1 hprogress⟩

def refused : Sharing := { oneChange with reader := some ⟨0, some 1⟩ }

lemma refused_reached : Reached 1 refused :=
  .step oneChange_reached (.read 1 1 rfl (by decide) rfl)

def reused : List Use :=
  [.getPayload, .getPayload, .addToSharedHistory 1 1, .removeFromSharedHistory 1, .getPayload,
    .addToSharedHistory 2 2]

def rereading : Sharing := ⟨reused.foldl Holders.step (.initial 2), some ⟨1, some 2⟩, [2]⟩

lemma rereading_reached : Reached 2 rereading := by
  have hopened : Reached 2 ⟨.initial 2, some ⟨0, none⟩, []⟩ := .step .initial .opened
  have hasked : Reached 2 { rereading with reader := some ⟨0, none⟩ } :=
    (hopened.writes reused).step .asked
  have hread : Reached 2 { rereading with reader := some ⟨0, some 2⟩ } :=
    hasked.step (.read 2 1 rfl (by decide) rfl)
  exact hread.step (.advanced (r := ⟨0, some 2⟩) rfl)

/-- The reader does not come to the end of its call: it has not advanced, or the payload is the one
it has read. -/
theorem reader_progress_stuck :
    (Reached 1 refused ∧ refused.reader = some ⟨0, some 1⟩ ∧ 1 ∈ refused.ends ∧
      ∀ fuel, refused.writer.pool.getNextUnreadPayload 1 fuel ⟨0, some 1⟩ = none) ∧
    Reached 2 rereading ∧ rereading.reader = some ⟨1, some 2⟩ ∧ 2 ∈ rereading.ends ∧
      ∀ fuel, rereading.writer.pool.getNextUnreadPayload 2 fuel ⟨1, some 2⟩ = none :=
  ⟨⟨refused_reached, rfl, by decide, getNextUnreadPayload_stuck rfl⟩,
    rereading_reached, rfl, by decide, getNextUnreadPayload_stuck rfl⟩

end Sharing

end EasyDds.Rtps.DataSharing
