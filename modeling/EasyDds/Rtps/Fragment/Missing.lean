import EasyDds.Rtps.Fragment.Copy
import EasyDds.Rtps.Bitmap.Members

/-!
The list of missing fragments and the received bytes share one buffer. As long as the pointer of
each fragment lies inside the fragment's own region, they do not disturb each other.
-/

namespace EasyDds.Rtps

open List

namespace CacheChange

def fragments (length fragmentSize : Nat) : Nat := (length + fragmentSize - 1) / fragmentSize

/-- The sizes for which the pointers fit: the sum of `setFragmentSize` does not wrap, the pointer
of the last fragment ends inside the payload and no pointer reaches into the next fragment. -/
def PointersFit (length fragmentSize : Nat) : Prop :=
  length + fragmentSize ≤ 2 ^ 32 ∧ (fragmentSize * (fragments length fragmentSize - 1) + 3) / 4 * 4
    + 4 ≤ length ∧ (fragmentSize = 5 → length ≤ 5)

/-- Regions of `n` fragments, each with room for its pointer. -/
structure Geometry (length size n : Nat) : Prop where
  size_pos : 0 < size
  count_pos : 0 < n
  low : size * (n - 1) < length
  high : length ≤ size * n
  limit : length < 2 ^ 32
  count_lt : n + 256 < 2 ^ 32
  pointer : ∀ i < n, size * i ≤ nextFragmentPointer size i ∧
    nextFragmentPointer size i + 4 ≤ size * (i + 1) ∧ nextFragmentPointer size i + 4 ≤ length

variable {length : Nat}

lemma fragments_bounds {size : Nat} (hlen : 1 ≤ length) (hsize : 1 ≤ size) :
    0 < fragments length size ∧ size * (fragments length size - 1) < length ∧
      length ≤ size * fragments length size := by
  have hpos : 0 < fragments length size := Nat.div_pos (by omega) (by omega)
  have hle : size * fragments length size ≤ length + size - 1 := Nat.mul_div_le _ _
  have hlt : length + size - 1 < size * (fragments length size + 1) := by
    rw [Nat.mul_comm]
    exact Nat.lt_mul_of_div_lt (Nat.lt_succ_self _) (by omega)
  obtain ⟨n, hn⟩ : ∃ n, fragments length size = n + 1 := ⟨_, (Nat.succ_pred_eq_of_pos hpos).symm⟩
  rw [hn, Nat.mul_succ] at hle
  rw [hn, Nat.mul_succ, Nat.mul_succ] at hlt
  rw [hn, Nat.add_sub_cancel, Nat.mul_succ]
  exact ⟨Nat.succ_pos _, by omega, by omega⟩

lemma geometry_of_pointersFit {size : Nat} (hlen : 1 ≤ length) (hsize : 1 ≤ size)
    (h : PointersFit length size) : Geometry length size (fragments length size) := by
  obtain ⟨hpos, hlow, hhigh⟩ := fragments_bounds hlen hsize
  obtain ⟨hsum, hfit, hfive⟩ := h
  generalize fragments length size = n at hpos hlow hhigh hfit ⊢
  obtain ⟨n, rfl⟩ : ∃ k, n = k + 1 := ⟨n - 1, by omega⟩
  rw [Nat.add_sub_cancel] at hlow hfit
  rw [Nat.mul_succ] at hhigh
  have hfour : 4 ≤ size := by omega
  have hmul : 4 * n ≤ size * n := Nat.mul_le_mul_right n hfour
  refine ⟨by omega, by omega, by simpa using hlow, by simpa [Nat.mul_succ] using hhigh, by omega,
    by omega, fun i hi => ?_⟩
  have hle : size * i ≤ size * n := Nat.mul_le_mul_left size (by omega)
  rw [nextFragmentPointer, Nat.mod_eq_of_lt (by omega), Nat.mul_succ size i]
  rcases Nat.eq_or_lt_of_le (Nat.le_of_lt_succ hi) with rfl | hlt
  · refine ⟨by omega, by omega, by omega⟩
  · -- Sizes four and six keep the offsets even; from seven on any padding fits.
    have hgap : (size * i + 3) / 4 * 4 + 4 ≤ size * i + size := by
      rcases Nat.lt_or_ge size 7 with hsmall | hlarge
      · have hcases : size = 4 ∨ size = 5 ∨ size = 6 := by omega
        rcases hcases with rfl | rfl | rfl <;> omega
      · omega
    exact ⟨by omega, hgap, by omega⟩

lemma Geometry.pointers_apart {size n i j : Nat} (hg : Geometry length size n) (hij : i < j)
    (hj : j < n) : nextFragmentPointer size i + 4 ≤ nextFragmentPointer size j :=
  calc nextFragmentPointer size i + 4 ≤ size * (i + 1) := (hg.pointer i (by omega)).2.1
    _ ≤ size * j := Nat.mul_le_mul_left size hij
    _ ≤ nextFragmentPointer size j := (hg.pointer j hj).1

lemma Geometry.pointers_disjoint {size n i j : Nat} (hg : Geometry length size n) (hi : i < n)
    (hj : j < n) (hne : i ≠ j) : nextFragmentPointer size i + 4 ≤ nextFragmentPointer size j ∨
      nextFragmentPointer size j + 4 ≤ nextFragmentPointer size i := by
  rcases Nat.lt_or_gt_of_ne hne with hlt | hgt
  · exact .inl (hg.pointers_apart hlt hj)
  · exact .inr (hg.pointers_apart hgt hi)

/-- The bytes of a fragment lie outside the pointers of all others, since each pointer lies inside
the bytes of its own fragment. -/
theorem Geometry.pointer_outside {size n p i k : Nat} (hg : Geometry length size n) (hp : p < n)
    (hne : p ≠ i) (hlow : size * i ≤ k) (hhigh : k < size * (i + 1)) :
    k < nextFragmentPointer size p ∨ nextFragmentPointer size p + 4 ≤ k := by
  obtain ⟨hstart, hend, -⟩ := hg.pointer p hp
  rcases Nat.lt_or_gt_of_ne hne with hlt | hgt
  · have hmul : size * (p + 1) ≤ size * i := Nat.mul_le_mul_left size hlt
    omega
  · have hmul : size * (i + 1) ≤ size * p := Nat.mul_le_mul_left size hgt
    omega

section Fields

variable (c : CacheChange) (i next : Nat)

/-- Bytes outside the pointer keep their value. -/
theorem data_setNextMissingFragment {k : Nat}
    (h : k < nextFragmentPointer c.fragmentSize i ∨ nextFragmentPointer c.fragmentSize i + 4 ≤ k) :
    (c.setNextMissingFragment i next).serializedPayload.data k = c.serializedPayload.data k := by
  rcases h with h | h
  · exact Mem.write_of_lt _ _ h
  · exact Mem.write_of_ge _ _ (by simpa using h)

/-- Pointers are read the same from memories that agree on their bytes. -/
theorem getNextMissingFragment_congr {c d : CacheChange} (hsize : d.fragmentSize = c.fragmentSize)
    {m : Nat} (h : ∀ k, nextFragmentPointer c.fragmentSize m ≤ k →
      k < nextFragmentPointer c.fragmentSize m + 4 →
      d.serializedPayload.data k = c.serializedPayload.data k) :
    d.getNextMissingFragment m = c.getNextMissingFragment m := by
  rw [getNextMissingFragment, getNextMissingFragment, hsize]
  congr 1
  exact Mem.slice_congr fun k hk => h _ (by omega) (by omega)

end Fields

/-- A pointer that ends before another one starts is not changed by it. -/
theorem getNextMissingFragment_set_other (c : CacheChange) {i m next : Nat}
    (h : nextFragmentPointer c.fragmentSize i + 4 ≤ nextFragmentPointer c.fragmentSize m ∨
      nextFragmentPointer c.fragmentSize m + 4 ≤ nextFragmentPointer c.fragmentSize i) :
    (c.setNextMissingFragment i next).getNextMissingFragment m = c.getNextMissingFragment m := by
  apply getNextMissingFragment_congr
  · rfl
  · intro k hk hlt
    exact data_setNextMissingFragment c i next (by omega)

def linkUpTo (c : CacheChange) (k : Nat) : CacheChange :=
  (range k).foldl (fun d i => d.setNextMissingFragment i (i + 1)) c

lemma linkUpTo_succ (c : CacheChange) (k : Nat) :
    c.linkUpTo (k + 1) = (c.linkUpTo k).setNextMissingFragment k (k + 1) := by
  rw [linkUpTo, range_succ, foldl_append]
  rfl

lemma linkUpTo_fields (c : CacheChange) (k : Nat) : (c.linkUpTo k).fragmentSize = c.fragmentSize ∧
      (c.linkUpTo k).fragmentCount = c.fragmentCount ∧
      (c.linkUpTo k).firstMissingFragment = c.firstMissingFragment ∧
      (c.linkUpTo k).serializedPayload.length = c.serializedPayload.length := by
  induction k with
  | zero => exact ⟨rfl, rfl, rfl, rfl⟩
  | succ k ih =>
    rw [linkUpTo_succ]
    exact ih

/-- Pointers that do not overlap hold the next index after the list is built: each store leaves
those before it alone. -/
theorem getNextMissingFragment_linkUpTo {c : CacheChange} {n : Nat} (hn : n < 2 ^ 32)
    (hapart : ∀ i j, i < j → j < n →
      nextFragmentPointer c.fragmentSize i + 4 ≤ nextFragmentPointer c.fragmentSize j)
    {k : Nat} (hk : k ≤ n) {i : Nat} (hi : i < k) :
    (c.linkUpTo k).getNextMissingFragment i = i + 1 := by
  induction k with
  | zero => omega
  | succ k ih =>
    rw [linkUpTo_succ]
    rcases Nat.eq_or_lt_of_le (Nat.le_of_lt_succ hi) with rfl | hlt
    · exact getNextMissingFragment_setNextMissingFragment _ i (by omega)
    · have hsep := hapart i k hlt (by omega)
      rw [getNextMissingFragment_set_other _ (by rw [(linkUpTo_fields c k).1]; omega)]
      exact ih (by omega) hlt

/-- A change in reassembly whose fragments `ms` are missing: they form the list in the payload, and
the regions of all others hold the bytes of `payload`. -/
structure Holds (payload : List UInt8) (size n : Nat) (ms : List Nat) (c : CacheChange) : Prop where
  size_eq : c.fragmentSize = size
  count_eq : c.fragmentCount = n
  length_eq : c.serializedPayload.length = payload.length
  first_eq : c.firstMissingFragment = ms.headD n
  links : Links c.getNextMissingFragment n ms
  sorted : ms.Pairwise (· < ·)
  below : ∀ m ∈ ms, m < n
  received : ∀ i < n, i ∉ ms → ∀ k < payload.length, size * i ≤ k → k < size * (i + 1) →
    payload[k]? = some (c.serializedPayload.data k)

section Received

variable {payload : List UInt8} {size n : Nat} {ms : List Nat} {c : CacheChange}

/-- What `received_fragments` leaves behind: the run is out of the list, and only pointers of
fragments that stay in the list have been written. -/
structure Unlinked (c d : CacheChange) (size n : Nat) (kept : List Nat) : Prop where
  size_eq : d.fragmentSize = c.fragmentSize
  count_eq : d.fragmentCount = c.fragmentCount
  length_eq : d.serializedPayload.length = c.serializedPayload.length
  first_eq : d.firstMissingFragment = kept.headD n
  links : Links d.getNextMissingFragment n kept
  data_eq : ∀ k, (∀ p ∈ kept, k < nextFragmentPointer size p ∨ nextFragmentPointer size p + 4 ≤ k) →
    d.serializedPayload.data k = c.serializedPayload.data k

def missingCells : Cells CacheChange where
  first := firstMissingFragment
  setFirst c first := { c with firstMissingFragment := first }
  next := getNextMissingFragment
  setNext := setNextMissingFragment

lemma Geometry.apart (hg : Geometry length size n) (hsize : c.fragmentSize = size) :
    missingCells.Apart n c where
  first_setFirst _ := rfl
  next_setFirst _ := rfl
  first_setNext _ _ := rfl
  next_setNext p hp q hq x hx := by
    have hn := hg.count_lt
    split
    case isTrue hxp =>
      subst hxp
      exact getNextMissingFragment_setNextMissingFragment c x (by omega)
    case isFalse hne =>
      refine getNextMissingFragment_set_other c ?_
      rw [hsize]
      exact (hg.pointers_disjoint hx hp hne).symm

/-- `received_fragments` takes the fragments of the run out of the list and says whether there
was one. -/
theorem receivedFragments_run {fuel initial num : Nat} (hg : Geometry payload.length size n)
    (hc : c.Holds payload size n ms) (hinitial : initial < n) (hend : initial + num ≤ n)
    (hlength : ms.length ≤ n) (hfuel : n < fuel) :
    ∃ changed d, receivedFragments fuel c initial num = some (changed, d) ∧
      Unlinked c d size n (ms.filter fun m => decide (m < initial ∨ initial + num ≤ m)) ∧
      (changed = false → ∀ m ∈ ms, m < initial ∨ initial + num ≤ m) := by
  have hn := hg.count_lt
  have hlists : missingCells.Lists n ms c := { hc with }
  obtain ⟨changed, d, hrun, hchanged, hkept, hwritten⟩ := Cells.unlink_run hlists
    (hg.apart hc.size_eq) (Nat.le_add_right initial num) hend (by omega : ms.length ≤ fuel)
  refine ⟨changed, d, ?_, ?_, fun hfalse m hm => ?_⟩
  · have hguard : 0 < c.fragmentSize ∧ initial < c.fragmentCount := by
      rw [hc.size_eq, hc.count_eq]
      exact ⟨hg.size_pos, hinitial⟩
    have hlast : min ((initial + num) % 2 ^ 32) c.fragmentCount = initial + num := by
      rw [hc.count_eq]
      omega
    rw [← hlast] at hrun
    rw [receivedFragments, if_pos hguard]
    exact hrun
  · rcases hwritten with rfl | ⟨q, rfl⟩ | ⟨p, hp, q, rfl⟩
    · exact ⟨rfl, rfl, rfl, hkept.first_eq, hkept.links, fun k _ => rfl⟩
    · exact ⟨rfl, rfl, rfl, hkept.first_eq, hkept.links, fun k _ => rfl⟩
    · refine ⟨rfl, rfl, rfl, hkept.first_eq, hkept.links, fun k hk => ?_⟩
      have houtside := hk p hp
      rw [← hc.size_eq] at houtside
      exact data_setNextMissingFragment c p q houtside
  · by_contra hin
    have htrue := hchanged.mpr ⟨m, hm, by omega⟩
    simp [hfalse] at htrue

end Received

end CacheChange

structure MissingList where
  fragmentCount : Nat
  firstMissingFragment : Nat
  nextMissingFragment : Nat → Nat

namespace MissingList

def cells : Cells MissingList where
  first := firstMissingFragment
  setFirst l first := { l with firstMissingFragment := first }
  next := nextMissingFragment
  setNext l p q :=
    { l with nextMissingFragment := fun i => if i = p then q else l.nextMissingFragment i }

/-- `setFragmentSize` for a change that is received; its loop writes `i + 1` to each cell `i`. -/
def setFragmentSize (l : MissingList) (count : Nat) : MissingList where
  fragmentCount := count
  firstMissingFragment := 0
  nextMissingFragment i := if i < count then i + 1 else l.nextMissingFragment i

/-- `received_fragments`; the size of the fragments is positive where there are any. -/
def receivedFragments (fuel : Nat) (l : MissingList) (initial num : Nat) :
    Option (Bool × MissingList) :=
  if initial < l.fragmentCount then
    cells.unlink fuel l initial (min ((initial + num) % 2 ^ 32) l.fragmentCount)
  else some (false, l)

def receiveAll (fuel : Nat) : List (Nat × Nat) → MissingList → Option MissingList
  | [], l => some l
  | (initial, num) :: calls, l =>
    (receivedFragments fuel l initial num).bind fun r => receiveAll fuel calls r.2

def uncovered (n : Nat) (calls : List (Nat × Nat)) : List Nat :=
  (range n).filter fun m => calls.all fun call => decide (m < call.1 ∨ call.1 + call.2 ≤ m)

variable {n fuel initial num : Nat} {ms : List Nat} {l : MissingList}

lemma apart (l : MissingList) : cells.Apart n l where
  first_setFirst _ := rfl
  next_setFirst _ := rfl
  first_setNext _ _ := rfl
  next_setNext _ _ _ _ _ _ := rfl

lemma setFragmentSize_lists (l : MissingList) (n : Nat) :
    cells.Lists n (range n) (l.setFragmentSize n) := by
  refine ⟨?_, ?_, pairwise_lt_range, fun m hm => mem_range.mp hm⟩
  · cases n <;> simp [range_succ_eq_map, cells, setFragmentSize]
  · have hnext : ∀ i, 0 ≤ i → i < 0 + n → (l.setFragmentSize n).nextMissingFragment i = i + 1 :=
      fun i _ hi => if_pos (by omega)
    have hlinks := links_range' hnext
    rwa [Nat.zero_add, ← range_eq_range'] at hlinks

/-- One call takes the fragments it covers out of the list: this is `unlink_run` for the cells in
which the change keeps its list. -/
theorem receivedFragments_lists (hl : cells.Lists n ms l) (hcount : l.fragmentCount = n)
    (hsum : initial + num < 2 ^ 32) (hfuel : ms.length ≤ fuel) :
    ∃ changed d, receivedFragments fuel l initial num = some (changed, d) ∧
      (changed = true ↔ ∃ m ∈ ms, initial ≤ m ∧ m < initial + num) ∧ d.fragmentCount = n ∧
      cells.Lists n (ms.filter fun m => decide (m < initial ∨ initial + num ≤ m)) d := by
  rw [receivedFragments, hcount, Nat.mod_eq_of_lt hsum]
  split
  case isTrue hinitial =>
    obtain ⟨changed, d, hrun, hchanged, hkept, hwritten⟩ := Cells.unlink_run hl (apart l)
      (by omega : initial ≤ min (initial + num) n) (by omega) hfuel
    have hsame : (ms.filter fun m => decide (m < initial ∨ min (initial + num) n ≤ m)) =
        ms.filter fun m => decide (m < initial ∨ initial + num ≤ m) := by
      refine filter_congr fun m hm => ?_
      have hlt := hl.below m hm
      rw [decide_eq_decide]
      omega
    refine ⟨changed, d, hrun, hchanged.trans ?_, ?_, hsame ▸ hkept⟩
    · refine exists_congr fun m => and_congr_right fun hm => ?_
      have hlt := hl.below m hm
      omega
    · rcases hwritten with rfl | ⟨q, rfl⟩ | ⟨p, -, q, rfl⟩
      · exact hcount
      · exact hcount
      · exact hcount
  case isFalse hinitial =>
    have hall : ∀ m ∈ ms, m < initial := fun m hm => by
      have hlt := hl.below m hm
      omega
    refine ⟨false, l, rfl, ?_, hcount, ?_⟩
    · simp only [Bool.false_eq_true, false_iff, not_exists, not_and]
      intro m hm hge
      exact absurd (hall m hm) (by omega)
    · rwa [filter_eq_self.mpr fun m hm => by simp [hall m hm]]

lemma receiveAll_filter {calls : List (Nat × Nat)}
    (hcalls : ∀ call ∈ calls, call.1 + call.2 < 2 ^ 32) (hl : cells.Lists n ms l)
    (hcount : l.fragmentCount = n) (hfuel : ms.length ≤ fuel) :
    ∃ d, receiveAll fuel calls l = some d ∧ d.fragmentCount = n ∧ cells.Lists n
      (ms.filter fun m => calls.all fun call => decide (m < call.1 ∨ call.1 + call.2 ≤ m)) d := by
  induction calls generalizing ms l with
  | nil => exact ⟨l, rfl, hcount, by simpa using hl⟩
  | cons call calls ih =>
    rw [forall_mem_cons] at hcalls
    obtain ⟨_, d, hrun, -, hcount', hl'⟩ := receivedFragments_lists hl hcount hcalls.1 hfuel
    obtain ⟨d', hrest, hd'⟩ := ih hcalls.2 hl' hcount' ((length_filter_le ..).trans hfuel)
    refine ⟨d', ?_, ?_⟩
    · rw [receiveAll, hrun]
      exact hrest
    · simpa only [filter_filter, all_cons, Bool.and_comm] using hd'

/-- After any calls the list holds the fragments that none of them covered, and the next call
says whether it covers one of these. -/
theorem receiveAll_uncovered (l : MissingList) (n fuel : Nat) (hfuel : n ≤ fuel)
    (calls : List (Nat × Nat)) (hcalls : ∀ call ∈ calls, call.1 + call.2 < 2 ^ 32) :
    ∃ d, receiveAll fuel calls (l.setFragmentSize n) = some d ∧
      cells.Lists n (uncovered n calls) d ∧
      ∀ initial num, initial + num < 2 ^ 32 →
        ∃ changed d', receivedFragments fuel d initial num = some (changed, d') ∧
          (changed = true ↔ ∃ m ∈ uncovered n calls, initial ≤ m ∧ m < initial + num) := by
  have hlength : (range n).length ≤ fuel := by rwa [length_range]
  obtain ⟨d, hrun, hcount', hl'⟩ := receiveAll_filter hcalls
    (setFragmentSize_lists l n) rfl hlength
  refine ⟨d, hrun, hl', fun initial num hsum => ?_⟩
  obtain ⟨changed, d', hcall, hchanged, -⟩ :=
    receivedFragments_lists hl' hcount' hsum ((length_filter_le ..).trans hlength)
  exact ⟨changed, d', hcall, hchanged⟩

theorem receiveAll_uncovered_five : ∃ d, receiveAll 5 [(3, 4), (1, 1)]
      (setFragmentSize ⟨0, 0, fun _ => 0⟩ 5) = some d ∧
        cells.Lists 5 (uncovered 5 [(3, 4), (1, 1)]) d :=
  (receiveAll_uncovered ⟨0, 0, fun _ => 0⟩ 5 5 (by decide) [(3, 4), (1, 1)]
    (by decide)).imp fun _ h => ⟨h.1, h.2.1⟩

end MissingList

end EasyDds.Rtps
