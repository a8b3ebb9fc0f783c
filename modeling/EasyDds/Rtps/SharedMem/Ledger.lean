import EasyDds.Lib.Cursors
import EasyDds.Rtps.SharedMem.RingBuffer

/-!
What the cells, counters and pointers of a ring buffer say about the elements pushed, and how the
single steps of `push` and `pop` change it.
-/

namespace EasyDds.Rtps.SharedMem

open RingBuffer List Function

variable {T : Type} {b : RingBuffer T} {cs : Cursors} {log : List T} {h owed i j p : Nat}
  {reserved : Nat → Prop}

/-- The buffer holds the entries of the log from the `h`th on, for listeners at these places. Those
reserved are not yet stored, and `owed` cells that all listeners have read are not yet counted as
free. -/
structure Ledger (b : RingBuffer T) (cs : Cursors) (log : List T) (h owed : Nat)
    (reserved : Nat → Prop) : Prop where
  positive : 0 < b.totalCells
  max : b.totalCells ≤ 2 ^ 31
  writeP : b.writeP = pointerOf b.totalCells log.length
  registered : b.registeredListeners = cs.active
  few : cs.active < 2 ^ 32
  bounded : ∀ p, some p ∈ cs → p ≤ log.length
  oldest : cs.Oldest log.length h
  free : b.freeCells + log.length + owed = b.totalCells + h
  stored : ∀ j (hj : j < log.length), h ≤ j → ¬reserved j →
    b.cells (j % b.totalCells) = ⟨cs.behind j, some log[j]⟩
  pending : ∀ j, reserved j → h ≤ j ∧ j < log.length ∧
    (b.cells (j % b.totalCells)).refCounter = 0 ∧ ∀ p, some p ∈ cs → p ≤ j
  vacant : ∀ j, log.length ≤ j → j < h + b.totalCells → (b.cells (j % b.totalCells)).refCounter = 0

namespace RingBuffer

def reserve (b : RingBuffer T) : RingBuffer T :=
  { b with writeP := incPointer b.totalCells b.writeP, freeCells := b.freeCells - 1 }

/-- A write to the data of a cell; `none` while only a part is written. -/
def setData (b : RingBuffer T) (i : Nat) (data : Option T) : RingBuffer T :=
  { b with cells := Function.update b.cells i { b.cells i with data := data } }

def setCounter (b : RingBuffer T) (i refCounter : Nat) : RingBuffer T :=
  { b with cells := Function.update b.cells i { b.cells i with refCounter := refCounter } }

def release (b : RingBuffer T) : RingBuffer T := { b with freeCells := wrap32 (b.freeCells + 1) }

section Cells

variable {k l refCounter : Nat} {data : Option T}

@[simp] lemma totalCells_reserve : b.reserve.totalCells = b.totalCells := rfl

@[simp] lemma totalCells_setData : (b.setData k data).totalCells = b.totalCells := rfl

@[simp] lemma totalCells_setCounter : (b.setCounter k refCounter).totalCells = b.totalCells := rfl

lemma cells_setData_of_ne (hne : l ≠ k) : (b.setData k data).cells l = b.cells l :=
  update_of_ne hne _ _

lemma refCounter_setData (b : RingBuffer T) (k l : Nat) (data : Option T) :
    ((b.setData k data).cells l).refCounter = (b.cells l).refCounter := by
  by_cases hl : l = k
  · subst hl
    simp [setData]
  · rw [cells_setData_of_ne hl]

lemma cells_setCounter_self :
    (b.setCounter k refCounter).cells k = ⟨refCounter, (b.cells k).data⟩ :=
  update_self ..

lemma cells_setCounter_of_ne (hne : l ≠ k) : (b.setCounter k refCounter).cells l = b.cells l :=
  update_of_ne hne _ _

lemma data_setCounter (b : RingBuffer T) (k l refCounter : Nat) :
    ((b.setCounter k refCounter).cells l).data = (b.cells l).data := by
  by_cases hl : l = k
  · rw [hl, cells_setCounter_self]
  · rw [cells_setCounter_of_ne hl]

end Cells

end RingBuffer

namespace Ledger

lemma initNode {n : Nat} (hn : 0 < n) (hmax : n ≤ 2 ^ 31) :
    Ledger (RingBuffer.initNode n : RingBuffer T) [] [] 0 0 fun _ => False where
  positive := hn
  max := hmax
  writeP := by simp [RingBuffer.initNode, pointerOf]
  registered := rfl
  few := by decide
  bounded := by simp
  oldest := ⟨Nat.le_refl 0, by simp, fun hlt => absurd hlt (by simp)⟩
  free := by simp [RingBuffer.initNode]
  stored := by simp
  pending := by simp
  vacant := by simp [RingBuffer.initNode]

variable (hl : Ledger b cs log h owed reserved)
include hl

lemma near : log.length ≤ h + b.totalCells := by have := hl.free; omega

lemma free_le : b.freeCells ≤ b.totalCells := by
  have := hl.free
  have := hl.oldest.le
  omega

/-- The pointer of a listener is that of the producers if it has read everything, and only then:
they are at most one loop apart, which the flag tells. -/
theorem readP_eq_writeP (hp : some p ∈ cs) :
    pointerOf b.totalCells p = b.writeP ↔ p = log.length := by
  have hge := hl.oldest.first p hp
  have hnear := hl.near
  rw [hl.writeP, pointerOf_inj hl.positive hl.max (hl.bounded p hp) (by omega)]

lemma stored_cell (hp : some p ∈ cs) (hlt : p < log.length) (hstored : ¬reserved p) :
    b.cells (p % b.totalCells) = ⟨cs.behind p, some log[p]⟩ :=
  hl.stored p hlt (hl.oldest.first p hp) hstored

/-- The entry a listener has to read next is at its head, unless a producer has only reserved it. -/
theorem head_eq (hp : some p ∈ cs) (hstored : ¬reserved p) : b.head (pointerOf b.totalCells p) =
    if p < log.length then some (p % b.totalCells) else none := by
  have hle := hl.bounded p hp
  simp only [RingBuffer.head, getPointerValue_pointerOf hl.positive hl.max, hl.readP_eq_writeP hp]
  by_cases hlt : p < log.length
  · rw [if_neg (by omega), if_pos hlt, hl.stored_cell hp hlt hstored, if_pos]
    exact (Cursors.behind_pos hp (Nat.le_refl p)).ne'
  · rw [if_pos (by omega), if_neg hlt]

/-- A listener finds the next element once it is stored. -/
theorem seen_eq (hp : some p ∈ cs) (hstored : ¬reserved p) :
    b.seen (pointerOf b.totalCells p) = log[p]?.map some := by
  rw [RingBuffer.seen, hl.head_eq hp hstored]
  by_cases hlt : p < log.length
  · rw [if_pos hlt, Option.map_some, hl.stored_cell hp hlt hstored, List.getElem?_eq_getElem hlt,
      Option.map_some]
  · rw [if_neg hlt, List.getElem?_eq_none (by omega), Option.map_none, Option.map_none]

lemma reserve (hactive : 0 < cs.active) (hfree : b.freeCells ≠ 0) (x : T) :
    Ledger b.reserve cs (log ++ [x]) h owed fun j => reserved j ∨ j = log.length := by
  have hlen : (log ++ [x]).length = log.length + 1 := by simp
  have hfree' := hl.free
  refine ⟨hl.positive, hl.max, ?_, hl.registered, hl.few, fun p hp => ?_, ?_, ?_,
    fun j hj hge hfresh => ?_, fun j hj => ?_, fun j hge hlt => ?_⟩
  · rw [hlen, RingBuffer.totalCells_reserve, ← incPointer_pointerOf hl.positive hl.max, ← hl.writeP]
    rfl
  · have := hl.bounded p hp
    omega
  · rw [hlen]
    exact hl.oldest.grow hl.bounded hactive
  · simp only [hlen, RingBuffer.reserve]
    omega
  · have hlt : j < log.length := by omega
    rw [getElem_append_left hlt]
    exact hl.stored j hlt hge fun hr => hfresh (.inl hr)
  · rcases hj with hj | rfl
    · obtain ⟨hge, hlt, hzero, hbehind⟩ := hl.pending j hj
      exact ⟨hge, by omega, hzero, hbehind⟩
    · exact ⟨hl.oldest.le, by omega, hl.vacant _ (Nat.le_refl _) (by omega), hl.bounded⟩
  · exact hl.vacant j (by omega) hlt

lemma setData (hj : reserved j) (data : Option T) :
    Ledger (b.setData (j % b.totalCells) data) cs log h owed reserved := by
  obtain ⟨hge, hlt, -⟩ := hl.pending j hj
  have hnear := hl.near
  refine { hl with stored k hk hge' hfresh := ?_, pending k hk := ?_, vacant k hge' hlt' := ?_ }
  · have hne : k ≠ j := by
      rintro rfl
      exact hfresh hj
    exact (cells_setData_of_ne (Ring.mod_ne hge' hge (by omega) (by omega) hne)).trans
      (hl.stored k hk hge' hfresh)
  · rw [refCounter_setData]
    exact hl.pending k hk
  · rw [refCounter_setData]
    exact hl.vacant k hge' hlt'

lemma publish (hj : reserved j) (hlt : j < log.length)
    (hdata : (b.cells (j % b.totalCells)).data = some log[j]) :
    Ledger (b.setCounter (j % b.totalCells) b.registeredListeners) cs log h owed
      fun k => reserved k ∧ k ≠ j := by
  obtain ⟨hge, -, -, hbehind⟩ := hl.pending j hj
  have hnear := hl.near
  have hother : ∀ k, h ≤ k → k < h + b.totalCells → k ≠ j →
      (b.setCounter (j % b.totalCells) b.registeredListeners).cells (k % b.totalCells) =
        b.cells (k % b.totalCells) := fun k hk hk' hne =>
    cells_setCounter_of_ne (Ring.mod_ne hk hge hk' (by omega) hne)
  refine { hl with stored k hk hge' hfresh := ?_, pending k hk := ?_, vacant k hge' hlt' := ?_ }
  · by_cases hkj : k = j
    · subst hkj
      rw [totalCells_setCounter, cells_setCounter_self, hdata, hl.registered,
        Cursors.behind_eq_active hbehind]
    · rw [totalCells_setCounter, hother k hge' (by omega) hkj]
      exact hl.stored k hk hge' fun hr => hfresh ⟨hr, hkj⟩
  · obtain ⟨hge', hlt', hzero, hbehind'⟩ := hl.pending k hk.1
    refine ⟨hge', hlt', ?_, hbehind'⟩
    rw [totalCells_setCounter, hother k hge' (by omega) hk.2]
    exact hzero
  · rw [totalCells_setCounter] at hlt' ⊢
    rw [hother k (by omega) hlt' (by omega)]
    exact hl.vacant k hge' hlt'

/-- A listener has read an entry, perhaps as the last one. Then its cell is free, and owed to the
producers until the free cells are counted up. -/
theorem subtract (hi : cs[i]? = some (some p)) (hlt : p < log.length) (hstored : ¬reserved p) :
    if cs.behind p = 1 then
      h = p ∧ Ledger (b.setCounter (p % b.totalCells) (sub32 (cs.behind p) 1))
        (cs.set i (some (p + 1))) log (p + 1) (owed + 1) reserved
    else
      Ledger (b.setCounter (p % b.totalCells) (sub32 (cs.behind p) 1))
        (cs.set i (some (p + 1))) log h owed reserved := by
  have hmem := Cursors.mem_of_get hi
  have hge := hl.oldest.first p hmem
  have hcell := hl.stored_cell hmem hlt hstored
  have hpos := Cursors.behind_pos hmem (Nat.le_refl p)
  have hfree := hl.free
  have hactive := Cursors.active_advance hi (p + 1)
  have hbounded : ∀ m, (∀ q, some q ∈ cs → q ≤ m) → p + 1 ≤ m →
      ∀ q, some q ∈ cs.set i (some (p + 1)) → q ≤ m := by
    intro m hm hle q hq
    rcases mem_or_eq_of_mem_set hq with hq | hq
    · exact hm q hq
    · rw [Option.some.inj hq]
      exact hle
  have hother : ∀ k, h ≤ k → k < h + b.totalCells → k ≠ p →
      (b.setCounter (p % b.totalCells) (sub32 (cs.behind p) 1)).cells (k % b.totalCells) =
        b.cells (k % b.totalCells) := fun k hk hk' hne =>
    cells_setCounter_of_ne (Ring.mod_ne hk hge hk' (by omega) hne)
  have hstored' : ∀ k (hk : k < log.length), h ≤ k → ¬reserved k →
      (b.setCounter (p % b.totalCells) (sub32 (cs.behind p) 1)).cells (k % b.totalCells) =
        ⟨Cursors.behind (cs.set i (some (p + 1))) k, some log[k]⟩ := by
    intro k hk hge' hfresh
    rw [Cursors.behind_advance hi]
    by_cases hkp : k = p
    · subst hkp
      rw [if_pos rfl, cells_setCounter_self, sub32_of_le hpos, hcell]
    · rw [hother k hge' (by omega) hkp, if_neg hkp, hl.stored k hk hge' hfresh]
  have hpending : ∀ k, reserved k → p + 1 ≤ k ∧ k < log.length ∧
      ((b.setCounter (p % b.totalCells) (sub32 (cs.behind p) 1)).cells
        (k % b.totalCells)).refCounter = 0 ∧
      ∀ q, some q ∈ cs.set i (some (p + 1)) → q ≤ k := by
    intro k hk
    obtain ⟨hge', hlt', hzero, hbehind⟩ := hl.pending k hk
    have hpk : p + 1 ≤ k := by
      have hle := hbehind p hmem
      have hne : k ≠ p := by
        rintro rfl
        exact hstored hk
      omega
    refine ⟨hpk, hlt', ?_, hbounded k hbehind hpk⟩
    rw [hother k hge' (by omega) (by omega)]
    exact hzero
  have hvacant : ∀ k, log.length ≤ k → k < h + b.totalCells →
      ((b.setCounter (p % b.totalCells) (sub32 (cs.behind p) 1)).cells
        (k % b.totalCells)).refCounter = 0 := by
    intro k hk hk'
    rw [hother k (by omega) hk' (by omega)]
    exact hl.vacant k hk hk'
  split
  case isTrue hone =>
    obtain ⟨rfl, holdest⟩ := hl.oldest.advance_last hi hlt hone
    refine ⟨rfl, hl.positive, hl.max, hl.writeP, by rw [hactive]; exact hl.registered,
      by rw [hactive]; exact hl.few, hbounded _ hl.bounded hlt, holdest, ?_,
      fun k hk hge' => hstored' k hk (by omega), hpending, fun k hk hk' => ?_⟩
    · simp only [setCounter]
      omega
    · rw [totalCells_setCounter] at hk' ⊢
      by_cases heq : k = h + b.totalCells
      · rw [heq, Nat.add_mod_right, cells_setCounter_self, hone]
        rfl
      · exact hvacant k hk (by omega)
  case isFalse hmany =>
    exact ⟨hl.positive, hl.max, hl.writeP, by rw [hactive]; exact hl.registered,
      by rw [hactive]; exact hl.few, hbounded _ hl.bounded hlt, hl.oldest.advance hi hmany, hfree,
      hstored', fun k hk => ⟨(hl.pending k hk).1, (hpending k hk).2⟩, hvacant⟩

omit hl in
lemma release (hl : Ledger b cs log h (owed + 1) reserved) :
    Ledger b.release cs log h owed reserved := by
  have hfree := hl.free
  have hle := hl.oldest.le
  have hmax := hl.max
  have hwrap : wrap32 (b.freeCells + 1) = b.freeCells + 1 := Nat.mod_eq_of_lt (by omega)
  refine { hl with free := ?_ }
  simp only [RingBuffer.release, hwrap]
  omega

lemma registerListener (hfew : cs.active + 1 < 2 ^ 32) (hnone : ∀ j, ¬reserved j) :
    Ledger b.registerListener.1 (cs ++ [some log.length]) log h owed reserved := by
  refine { hl with
    registered := ?_, few := ?_, bounded p hp := ?_, oldest := hl.oldest.opened
    stored j hj hge hfresh := ?_, pending j hj := absurd hj (hnone j) }
  · rw [Cursors.active_append, ← hl.registered]
    exact Nat.mod_eq_of_lt (by rw [hl.registered]; exact hfew)
  · rwa [Cursors.active_append]
  · rcases mem_append.1 hp with hp | hp
    · exact hl.bounded p hp
    · exact (Option.some.inj (mem_singleton.1 hp)).le
  · rw [Cursors.behind_append _ hj]
    exact hl.stored j hj hge hfresh

lemma close (hi : cs[i]? = some (some log.length)) (hnone : ∀ j, ¬reserved j) :
    Ledger { b with registeredListeners := sub32 b.registeredListeners 1 } (cs.set i none) log h
      owed reserved := by
  have hactive := Cursors.active_close hi
  have hpos := Cursors.active_pos (Cursors.mem_of_get hi)
  have hfew := hl.few
  refine { hl with
    registered := ?_, few := by omega, bounded p hp := ?_, oldest := hl.oldest.close hi rfl
    stored j hj hge hfresh := ?_, pending j hj := absurd hj (hnone j) }
  · rw [hactive, ← hl.registered]
    exact sub32_of_le (by rw [hl.registered]; exact hpos)
  · rcases mem_or_eq_of_mem_set hp with hp | hp
    · exact hl.bounded p hp
    · cases hp
  · rw [Cursors.behind_close hi hj]
    exact hl.stored j hj hge hfresh

end Ledger

end EasyDds.Rtps.SharedMem
