import EasyDds.Rtps.DataSharing.Exclusive

/-!
`ReaderPool`: how a data-sharing reader goes through the history of a writer that makes no step
meanwhile.
-/

namespace EasyDds.Rtps.DataSharing

structure ReaderPool where
  nextPayload : Nat
  lastSn : Option Nat
deriving DecidableEq, Repr

inductive Round
  | finished (sn : Option Nat) (r : ReaderPool)
  | again (r : ReaderPool)

namespace WriterPool

def sequenceNumberAt (p : WriterPool) (index : Nat) : Option Nat :=
  (p.nodes (p.history (slot index))).sequenceNumber

/-- `ensure_reading_reference_is_in_bounds`, with the new reference. -/
def ensureInBounds (p : WriterPool) (next : Nat) : Bool × Nat :=
  let endHigh := p.notifiedEnd >>> 32
  let nextHigh := next >>> 32
  if nextHigh + 1 < endHigh ∨ (nextHigh < endHigh ∧ slot next ≤ slot p.notifiedEnd) then
    (false, advance p.historySize (((endHigh - 1) <<< 32) + slot p.notifiedEnd))
  else (true, next)

/-- One round of the loop of `get_next_unread_payload`. -/
def readRound (p : WriterPool) (untilIndex : Nat) (r : ReaderPool) : Round :=
  if r.nextPayload < untilIndex then
    let first := p.ensureInBounds r.nextPayload
    let r := { r with nextPayload := first.2 }
    if first.1 = false ∧ untilIndex ≤ r.nextPayload then .finished none r
    else
      match p.sequenceNumberAt r.nextPayload with
      | none => .again { r with nextPayload := advance p.historySize r.nextPayload }
      | some sn =>
        if r.lastSn.any (sn ≤ ·) then .again r
        else
          let second := p.ensureInBounds r.nextPayload
          let r := { r with nextPayload := second.2 }
          if second.1 = false then .again r else .finished (some sn) { r with lastSn := some sn }
  else .finished none r

/-- `get_next_unread_payload`: the sequence number of the change, and the reader after the call.
`none` if the loop has not come to its end after so many rounds. -/
def getNextUnreadPayload (p : WriterPool) (untilIndex : Nat) :
    Nat → ReaderPool → Option (Option Nat × ReaderPool)
  | 0, _ => none
  | fuel + 1, r =>
    match p.readRound untilIndex r with
    | .finished sn r' => some (sn, r')
    | .again r' => p.getNextUnreadPayload untilIndex fuel r'

def advanceToNextPayload (p : WriterPool) (r : ReaderPool) : ReaderPool :=
  if r.nextPayload < p.notifiedEnd then
    { r with nextPayload := advance p.historySize r.nextPayload }
  else r

/-- The index is at most as many entries behind the end as there are payloads. -/
def Near (p : WriterPool) (index : Nat) : Prop :=
  ∃ k ≤ p.poolSize, (advance p.historySize)^[k] index = p.notifiedEnd

/-- The call comes to its end, a sequence number it returns is greater than the last one, and the
reader is not too far behind. -/
def Progresses (p : WriterPool) (untilIndex : Nat) (r : ReaderPool) : Prop :=
  ∃ fuel result r', p.getNextUnreadPayload untilIndex fuel r = some (result, r') ∧
    (∀ sn, result = some sn → r'.lastSn = some sn ∧ ∀ last, r.lastSn = some last → last < sn) ∧
    (result = none → r'.lastSn = r.lastSn) ∧ p.Near r'.nextPayload

/-- After `j` dirty entries from the index on there is one that is not, or `untilIndex`. -/
structure Stops (p : WriterPool) (untilIndex index j : Nat) : Prop where
  dirty : ∀ k < j, (advance p.historySize)^[k] index < untilIndex ∧
    p.sequenceNumberAt ((advance p.historySize)^[k] index) = none
  stop : (advance p.historySize)^[j] index < untilIndex →
    p.sequenceNumberAt ((advance p.historySize)^[j] index) ≠ none

def Newer (p : WriterPool) (untilIndex index : Nat) (lastSn : Option Nat) : Prop :=
  index < untilIndex → ∀ sn last, p.sequenceNumberAt index = some sn → lastSn = some last →
    last < sn

/-- The first entry from the index on that is not dirty is newer than the last one read. Where
`untilIndex` is above the end because the loop counter began again, it must not be too far behind.
-/
def ReadyFrom (p : WriterPool) (untilIndex index : Nat) (lastSn : Option Nat) : Prop :=
  ∀ j, p.Stops untilIndex index j → p.Newer untilIndex ((advance p.historySize)^[j] index) lastSn ∧
      (p.notifiedEnd < untilIndex → p.Near ((advance p.historySize)^[j] index))

/-- There is something to read that is newer, or the reader that has nothing to read is not too far
behind. -/
def Ready (p : WriterPool) (untilIndex : Nat) (r : ReaderPool) : Prop :=
  if r.nextPayload < untilIndex then
    p.ReadyFrom untilIndex (p.ensureInBounds r.nextPayload).2 r.lastSn
  else p.Near r.nextPayload

section Rounds

variable {p : WriterPool} {untilIndex index next : Nat} {lastSn : Option Nat}

lemma readRound_end (h : untilIndex ≤ index) :
    p.readRound untilIndex ⟨index, lastSn⟩ = .finished none ⟨index, lastSn⟩ := by
  rw [readRound, if_neg (Nat.not_lt.2 h)]

lemma readRound_inBounds (h : index < untilIndex) (hin : p.ensureInBounds index = (true, index)) :
    p.readRound untilIndex ⟨index, lastSn⟩ =
      match p.sequenceNumberAt index with
      | none => .again ⟨advance p.historySize index, lastSn⟩
      | some sn =>
        if lastSn.any (sn ≤ ·) then .again ⟨index, lastSn⟩
        else .finished (some sn) ⟨index, some sn⟩ := by
  cases hsn : p.sequenceNumberAt index <;> simp [readRound, h, hin, hsn]

lemma readRound_overtaken (h : index < untilIndex) (hout : p.ensureInBounds index = (false, next))
    (hin : p.ensureInBounds next = (true, next)) :
    p.readRound untilIndex ⟨index, lastSn⟩ = p.readRound untilIndex ⟨next, lastSn⟩ := by
  rcases Nat.lt_or_ge next untilIndex with hlt | hge
  · cases hsn : p.sequenceNumberAt next <;> simp [readRound, h, hout, hin, hsn, Nat.not_le.2 hlt]
  · rw [readRound_end hge]
    simp [readRound, h, hout, hge]

/-- A round that changes nothing is repeated forever: it depends on the reader alone, as a call does
not change the pool. -/
theorem getNextUnreadPayload_stuck {r : ReaderPool} (h : p.readRound untilIndex r = .again r)
    (fuel : Nat) : p.getNextUnreadPayload untilIndex fuel r = none := by
  induction fuel with
  | zero => rfl
  | succ fuel ih =>
    rw [getNextUnreadPayload, h]
    exact ih

lemma getNextUnreadPayload_add {result : Option Nat × ReaderPool} (fuel more : Nat)
    (r : ReaderPool) (h : p.getNextUnreadPayload untilIndex fuel r = some result) :
    p.getNextUnreadPayload untilIndex (more + fuel) r = some result := by
  induction fuel generalizing r with
  | zero => nomatch h
  | succ fuel ih =>
    rw [← Nat.add_assoc, getNextUnreadPayload]
    rw [getNextUnreadPayload] at h
    cases hround : p.readRound untilIndex r with
    | finished sn r' => simpa only [hround] using h
    | again r' =>
      rw [hround] at h
      exact ih r' h

/-- The property for a call that comes to its end. -/
theorem progresses_iff {fuel : Nat} {r r' : ReaderPool} {result : Option Nat}
    (h : p.getNextUnreadPayload untilIndex fuel r = some (result, r')) : p.Progresses untilIndex r ↔
      (∀ sn, result = some sn → r'.lastSn = some sn ∧ ∀ last, r.lastSn = some last → last < sn) ∧
        (result = none → r'.lastSn = r.lastSn) ∧ p.Near r'.nextPayload := by
  refine ⟨?_, fun hkept => ⟨fuel, result, r', h, hkept⟩⟩
  rintro ⟨fuel', result', r'', h', hkept⟩
  have hboth := getNextUnreadPayload_add fuel fuel' r h
  rw [Nat.add_comm, getNextUnreadPayload_add fuel' fuel r h'] at hboth
  cases hboth
  exact hkept

lemma getNextUnreadPayload_dirty (lastSn : Option Nat) (j fuel : Nat)
    (hin : ∀ k < j, p.ensureInBounds ((advance p.historySize)^[k] index) =
      (true, (advance p.historySize)^[k] index))
    (hdirty : ∀ k < j, (advance p.historySize)^[k] index < untilIndex ∧
      p.sequenceNumberAt ((advance p.historySize)^[k] index) = none) :
    p.getNextUnreadPayload untilIndex (fuel + j) ⟨index, lastSn⟩ =
      p.getNextUnreadPayload untilIndex fuel ⟨(advance p.historySize)^[j] index, lastSn⟩ := by
  induction j generalizing index with
  | zero => rfl
  | succ j ih =>
    obtain ⟨hlt, hnone⟩ := hdirty 0 (by omega)
    have hzero := hin 0 (by omega)
    rw [Function.iterate_zero, id] at hlt hnone hzero
    rw [← Nat.add_assoc, getNextUnreadPayload, readRound_inBounds hlt hzero, hnone]
    exact ih (fun k hk => hin (k + 1) (by omega)) (fun k hk => hdirty (k + 1) (by omega))

/-- What the call makes of the first entry that is not dirty. -/
theorem progresses_stop {j : Nat} (hj : p.Stops untilIndex index j)
    (hin : ∀ k ≤ j, (advance p.historySize)^[k] index < untilIndex →
      p.ensureInBounds ((advance p.historySize)^[k] index) =
        (true, (advance p.historySize)^[k] index)) :
    p.Progresses untilIndex ⟨index, lastSn⟩ ↔
      p.Newer untilIndex ((advance p.historySize)^[j] index) lastSn ∧
        p.Near ((advance p.historySize)^[j] index) := by
  have hskip := fun fuel => getNextUnreadPayload_dirty lastSn j fuel
    (fun k hk => hin k (by omega) (hj.dirty k hk).1) hj.dirty
  have hstop := hj.stop
  have hat := hin j le_rfl
  generalize (advance p.historySize)^[j] index = place at *
  rcases Nat.lt_or_ge place untilIndex with hlt | hge
  · obtain ⟨sn, hsn⟩ := Option.ne_none_iff_exists'.1 (hstop hlt)
    have hround : p.readRound untilIndex ⟨place, lastSn⟩ = _ := readRound_inBounds hlt (hat hlt)
    have hnewer : p.Newer untilIndex place lastSn ↔ ¬lastSn.any (sn ≤ ·) := by
      rw [Newer, hsn]
      cases lastSn <;> simp [hlt]
    simp only [hsn] at hround
    by_cases hold : lastSn.any (sn ≤ ·)
    · rw [if_pos hold] at hround
      refine iff_of_false ?_ fun h => hnewer.1 h.1 hold
      rintro ⟨fuel, result, r', hcall, -⟩
      have hsome := getNextUnreadPayload_add fuel j _ hcall
      rw [Nat.add_comm, hskip, getNextUnreadPayload_stuck hround] at hsome
      nomatch hsome
    · rw [if_neg hold] at hround
      have hcall := hskip 1
      rw [getNextUnreadPayload, hround] at hcall
      have hgreater := hnewer.2 hold
      simp only [progresses_iff hcall, hgreater, true_and]
      refine ⟨fun h => h.2.2, fun hnear => ⟨?_, nofun, hnear⟩⟩
      rintro _ ⟨⟩
      exact ⟨rfl, fun last => hgreater hlt sn last hsn⟩
  · have hcall := hskip 1
    rw [getNextUnreadPayload, readRound_end hge] at hcall
    have hnewer : p.Newer untilIndex place lastSn := fun hlt => absurd hlt (Nat.not_lt.2 hge)
    simp [progresses_iff hcall, hnewer]

/-- A reader that has nothing to read stays where it is. -/
theorem progresses_end (h : untilIndex ≤ index) :
    p.Progresses untilIndex ⟨index, lastSn⟩ ↔ p.Ready untilIndex ⟨index, lastSn⟩ := by
  have hcall : p.getNextUnreadPayload untilIndex 1 ⟨index, lastSn⟩ =
    some (none, ⟨index, lastSn⟩) := by
    rw [getNextUnreadPayload, readRound_end h]
  rw [progresses_iff hcall, Ready, if_neg (Nat.not_lt.2 h)]
  simp

lemma progresses_overtaken (h : index < untilIndex)
    (hout : p.ensureInBounds index = (false, next))
    (hin : p.ensureInBounds next = (true, next)) :
    p.Progresses untilIndex ⟨index, lastSn⟩ ↔ p.Progresses untilIndex ⟨next, lastSn⟩ := by
  have hsame : ∀ fuel, p.getNextUnreadPayload untilIndex fuel ⟨index, lastSn⟩ =
      p.getNextUnreadPayload untilIndex fuel ⟨next, lastSn⟩
    | 0 => rfl
    | fuel + 1 => by simp only [getNextUnreadPayload, readRound_overtaken h hout hin]
  simp only [Progresses, hsame]

end Rounds

section Places

variable {p : WriterPool} {c e u : Nat} {lastSn : Option Nat}

lemma advance_iterate (hmax : p.historySize < 2 ^ 32) (c k : Nat) :
    (advance p.historySize)^[k] (indexOf p.historySize c) = indexOf p.historySize (c + k) := by
  induction k with
  | zero => rfl
  | succ k ih => rw [Function.iterate_succ_apply', ih, advance_indexOf p.historySize_pos hmax]; rfl

lemma indexOf_mod (n i : Nat) : indexOf n (i % (n * 2 ^ 32)) = indexOf n i := by
  rw [indexOf, indexOf, Nat.mod_mul_right_mod, Nat.mod_mul_right_div_self]
  simp

variable {j n : Nat}

lemma indexOf_lt (hn : 0 < n) (hmax : n < 2 ^ 32) (hc : c < n * 2 ^ 32) (hu : u < n * 2 ^ 32) :
    indexOf n c < indexOf n u ↔ c < u := by
  rw [indexOf_lt_iff hn hmax, Nat.mod_eq_of_lt hc, Nat.mod_eq_of_lt hu]

lemma high_indexOf (hn : 0 < n) (hmax : n < 2 ^ 32) (hc : c < n * 2 ^ 32) :
    indexOf n c >>> 32 = c / n := by
  have hlt := Nat.mod_lt c hn
  have hdiv : c / n < 2 ^ 32 := Nat.div_lt_of_lt_mul hc
  rw [Nat.shiftRight_eq_div_pow, indexOf, Nat.mod_eq_of_lt hdiv]
  omega

lemma indexOf_sub (hn : 0 < n) (he : e < n * 2 ^ 32) (hle : n ≤ e) :
    ((e / n - 1) <<< 32) + e % n = indexOf n (e - n) := by
  obtain ⟨d, rfl⟩ := Nat.exists_eq_add_of_le hle
  have hdiv : d / n < 2 ^ 32 := Nat.div_lt_of_lt_mul (by omega)
  rw [indexOf, Nat.add_sub_cancel_left, Nat.add_div_left _ hn, Nat.add_mod_left, Nat.shiftLeft_eq,
    Nat.mod_eq_of_lt hdiv, Nat.add_sub_cancel]

lemma overtaken_iff (hn : 0 < n) :
    (c / n + 1 < e / n ∨ (c / n < e / n ∧ c % n ≤ e % n)) ↔ c + n ≤ e := by
  have hc := Nat.div_add_mod c n
  have he := Nat.div_add_mod e n
  have hcl := Nat.mod_lt c hn
  have hel := Nat.mod_lt e hn
  generalize c / n = a at *
  generalize e / n = a' at *
  rcases Nat.lt_trichotomy a a' with hlt | rfl | hlt
  · rcases Nat.lt_or_ge (a + 1) a' with hlt' | hge
    · have hle : n * (a + 2) ≤ n * a' := Nat.mul_le_mul_left n hlt'
      rw [Nat.mul_add] at hle
      constructor
      · intro
        omega
      · exact fun _ => .inl hlt'
    · obtain rfl : a' = a + 1 := by omega
      rw [Nat.mul_succ] at he
      constructor <;> intro <;> omega
  · constructor <;> intro <;> omega
  · have hle : n * (a' + 1) ≤ n * a := Nat.mul_le_mul_left n hlt
    rw [Nat.mul_succ] at hle
    constructor <;> intro <;> omega

lemma Stops.succ {untilIndex index : Nat} (hlt : index < untilIndex)
    (hnone : p.sequenceNumberAt index = none)
    (hj : p.Stops untilIndex (advance p.historySize index) j) :
    p.Stops untilIndex index (j + 1) where
  dirty := by
    rintro (_ | k) hk
    · exact ⟨hlt, hnone⟩
    · exact hj.dirty k (by omega)
  stop := hj.stop

variable (hmax : p.historySize < 2 ^ 32)
include hmax

lemma Stops.lt (hj : p.Stops (indexOf p.historySize u) (indexOf p.historySize c) j)
    (hc : c < p.historySize * 2 ^ 32) (hu : u < p.historySize * 2 ^ 32) : ∀ k < j, c + k < u := by
  intro k hk
  induction k with
  | zero => exact (indexOf_lt p.historySize_pos hmax hc hu).1 (hj.dirty 0 hk).1
  | succ k ih =>
    have hlt := (hj.dirty (k + 1) hk).1
    rw [advance_iterate hmax] at hlt
    exact (indexOf_lt p.historySize_pos hmax (by omega) hu).1 hlt

/-- The loop stops at `u` at the latest. -/
theorem Stops.exists_place (hc : c < p.historySize * 2 ^ 32) (hu : u < p.historySize * 2 ^ 32) :
    ∃ j, p.Stops (indexOf p.historySize u) (indexOf p.historySize c) j ∧ c + j ≤ max c u := by
  induction hm : u - c generalizing c with
  | zero =>
    have hge := (indexOf_lt p.historySize_pos hmax hc hu).not.2 (by omega)
    exact ⟨0, ⟨nofun, fun hlt => absurd hlt hge⟩, by omega⟩
  | succ m ih =>
    have hlt := (indexOf_lt p.historySize_pos hmax hc hu).2 (by omega)
    by_cases hnone : p.sequenceNumberAt (indexOf p.historySize c) = none
    · obtain ⟨j, hj, hle⟩ := ih (c := c + 1) (by omega) (by omega)
      rw [← advance_indexOf p.historySize_pos hmax] at hj
      exact ⟨j + 1, hj.succ hlt hnone, by omega⟩
    · exact ⟨0, ⟨nofun, fun _ => hnone⟩, by omega⟩

lemma near_of_le (hend : p.notifiedEnd = indexOf p.historySize e) (hle : c ≤ e)
    (hin : e ≤ c + p.poolSize) :
    p.Near (indexOf p.historySize c) := by
  refine ⟨e - c, by omega, ?_⟩
  rw [advance_iterate hmax, hend, Nat.add_sub_cancel' hle]

variable (he : e < p.historySize * 2 ^ 32) (hend : p.notifiedEnd = indexOf p.historySize e)
include he hend

variable (hc : c < p.historySize * 2 ^ 32)
include hc

lemma ensureInBounds_eq (hin : e ≤ c + p.poolSize) :
    p.ensureInBounds (indexOf p.historySize c) = (true, indexOf p.historySize c) := by
  have hpos := p.historySize_pos
  have hfar : ¬c + p.historySize ≤ e := by
    rw [historySize]
    omega
  rw [← overtaken_iff hpos] at hfar
  rw [ensureInBounds, hend, high_indexOf hpos hmax hc, high_indexOf hpos hmax he,
    slot_indexOf hpos hmax, slot_indexOf hpos hmax, if_neg hfar]

lemma ensureInBounds_moves (hout : c + p.poolSize < e) :
    p.ensureInBounds (indexOf p.historySize c) =
      (false, indexOf p.historySize (e - p.poolSize)) := by
  have hpos := p.historySize_pos
  have hfar : c + p.historySize ≤ e := by
    rw [historySize]
    omega
  have hnext : e - p.historySize + 1 = e - p.poolSize := by
    rw [historySize] at hfar ⊢
    omega
  rw [ensureInBounds, hend, high_indexOf hpos hmax hc, high_indexOf hpos hmax he,
    slot_indexOf hpos hmax, slot_indexOf hpos hmax, if_pos ((overtaken_iff hpos).2 hfar),
    indexOf_sub hpos he (by omega), advance_indexOf hpos hmax, hnext]

/-- The property for a reader that was not overtaken. -/
theorem progresses_place (hu : u < p.historySize * 2 ^ 32)
    (hin : e ≤ c + p.poolSize)
    (hj : p.Stops (indexOf p.historySize u) (indexOf p.historySize c) j) :
    p.Progresses (indexOf p.historySize u) ⟨indexOf p.historySize c, lastSn⟩ ↔
      p.Newer (indexOf p.historySize u) (indexOf p.historySize (c + j)) lastSn ∧
        p.Near (indexOf p.historySize (c + j)) := by
  rw [progresses_stop hj fun k hk hlt => ?_, advance_iterate hmax]
  have hplace : c + k < p.historySize * 2 ^ 32 := by
    rcases Nat.eq_zero_or_pos k with rfl | hpos
    · exact hc
    · have := hj.lt hmax hc hu (k - 1) (by omega)
      omega
  rw [advance_iterate hmax]
  exact ensureInBounds_eq hmax he hend hplace (by omega)

/-- The property for a reader that has something to read. -/
theorem progresses_of_lt (hu : u < p.historySize * 2 ^ 32)
    (hcu : c < u) : p.Progresses (indexOf p.historySize u) ⟨indexOf p.historySize c, lastSn⟩ ↔
      p.Ready (indexOf p.historySize u) ⟨indexOf p.historySize c, lastSn⟩ := by
  have hlt := (indexOf_lt p.historySize_pos hmax hc hu).2 hcu
  -- `s` is where the reader starts: its own place, or the last one that is not too far behind.
  obtain ⟨s, hs, hin, hstart, hsu, hsame⟩ : ∃ s < p.historySize * 2 ^ 32, e ≤ s + p.poolSize ∧
      (p.ensureInBounds (indexOf p.historySize c)).2 = indexOf p.historySize s ∧ (s < u ∨ s ≤ e) ∧
      (p.Progresses (indexOf p.historySize u) ⟨indexOf p.historySize c, lastSn⟩ ↔
        p.Progresses (indexOf p.historySize u) ⟨indexOf p.historySize s, lastSn⟩) := by
    rcases Nat.lt_or_ge (c + p.poolSize) e with hout | hin
    · have hmoves := ensureInBounds_moves hmax he hend hc hout
      have hstays := ensureInBounds_eq hmax he hend (c := e - p.poolSize) (by omega) (by omega)
      exact ⟨e - p.poolSize, by omega, by omega, by rw [hmoves], .inr (by omega),
        progresses_overtaken hlt hmoves hstays⟩
    · exact ⟨c, hc, hin, by rw [ensureInBounds_eq hmax he hend hc hin], .inl hcu, .rfl⟩
  rw [hsame, Ready, if_pos hlt, hstart]
  constructor
  · intro hprogress j hj
    rw [progresses_place hmax he hend hs hu hin hj] at hprogress
    rw [advance_iterate hmax]
    exact ⟨hprogress.1, fun _ => hprogress.2⟩
  · intro hready
    obtain ⟨j, hj, hle⟩ := Stops.exists_place hmax hs hu
    obtain ⟨hnewer, hnear⟩ := hready j hj
    rw [advance_iterate hmax] at hnewer hnear
    refine (progresses_place hmax he hend hs hu hin hj).2 ⟨hnewer, ?_⟩
    by_cases hue : u ≤ e
    · exact near_of_le hmax hend (by omega) (by omega)
    · rw [hend] at hnear
      exact hnear ((indexOf_lt p.historySize_pos hmax he hu).2 (by omega))

end Places

end WriterPool

end EasyDds.Rtps.DataSharing
