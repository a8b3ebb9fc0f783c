import Mathlib.Data.BitVec
import Mathlib.Data.List.Range
import Mathlib.Tactic.Common
import Mathlib.Tactic.Ring

/-!
Words read from the most significant bit on: the first and the last set bit, as the C idioms
`__builtin_clz(w)` and `w & ~(w - 1)` find them, and the walk over all set bits.
-/

namespace EasyDds

open List

variable {n : Nat} {w : BitVec n}

/-- `__builtin_clz`: how many zeros stand before the first set bit. -/
def leadingZeros (w : BitVec n) : Nat :=
  ((range n).find? fun i => w.getMsbD i).getD n

structure FirstBit (w : BitVec n) (k : Nat) : Prop where
  lt : k < n
  set : w.getMsbD k = true
  clear : ∀ i < k, w.getMsbD i = false

lemma exists_getMsbD (h : w ≠ 0) : ∃ i < n, w.getMsbD i = true := by
  by_contra hnone
  push Not at hnone
  refine h (BitVec.eq_of_getMsbD_eq fun i hi => ?_)
  simpa using hnone i hi

lemma firstBit_leadingZeros (h : w ≠ 0) : FirstBit w (leadingZeros w) := by
  obtain ⟨i, hi, hset⟩ := exists_getMsbD h
  cases hfind : (range n).find? fun i => w.getMsbD i with
  | none =>
    have hclear := find?_eq_none.mp hfind i (mem_range.mpr hi)
    exact absurd hset hclear
  | some k =>
    rw [leadingZeros, hfind, Option.getD_some]
    rw [find?_range_eq_some] at hfind
    obtain ⟨hset, hk, hclear⟩ := hfind
    exact ⟨mem_range.mp hk, hset, fun i hi => by simpa using hclear i hi⟩

lemma not_sub_one (w : BitVec n) : ~~~(w - 1#n) = -w := by
  have hneg : -(w - 1#n) = ~~~(w - 1#n) + 1#n := BitVec.neg_eq_not_add _
  calc ~~~(w - 1#n) = ~~~(w - 1#n) + 1#n - 1#n := by simp
    _ = -(w - 1#n) - 1#n := by rw [hneg]
    _ = -w := by ring

/-- `w & ~(w - 1)` keeps the last set bit. -/
theorem getMsbD_and_not_sub_one (w : BitVec n) (i : Nat) : (w &&& ~~~(w - 1#n)).getMsbD i =
      (w.getMsbD i && !decide (∃ j < n, i < j ∧ w.getMsbD j = true)) := by
  rw [not_sub_one, BitVec.getMsbD_and, BitVec.getMsbD_neg]
  cases w.getMsbD i <;> simp

structure LastBit (w : BitVec n) (k : Nat) : Prop where
  lt : k < n
  set : w.getMsbD k = true
  clear : ∀ i, k < i → w.getMsbD i = false

lemma LastBit.of_and_not_sub_one {k : Nat} (hk : k < n)
    (h : (w &&& ~~~(w - 1#n)).getMsbD k = true) : LastBit w k := by
  rw [getMsbD_and_not_sub_one] at h
  simp only [Bool.and_eq_true, Bool.not_eq_true', decide_eq_false_iff_not] at h
  refine ⟨hk, h.1, fun i hi => ?_⟩
  by_cases hin : i < n
  · rw [Bool.eq_false_iff]
    exact fun hset => h.2 ⟨i, hin, hi, hset⟩
  · simp [BitVec.getMsbD, hin]

lemma exists_lastBit (h : w ≠ 0) : ∃ k, LastBit w k := by
  obtain ⟨i, hi, hset⟩ := exists_getMsbD h
  let k := Nat.findGreatest (fun j => j < n ∧ w.getMsbD j = true) n
  have hk : k < n ∧ w.getMsbD k = true :=
    Nat.findGreatest_spec (P := fun j => j < n ∧ w.getMsbD j = true) (Nat.le_of_lt hi) ⟨hi, hset⟩
  refine ⟨k, hk.1, hk.2, fun j hj => ?_⟩
  by_cases hin : j < n
  · rw [Bool.eq_false_iff]
    exact fun hj' => Nat.findGreatest_is_greatest hj (Nat.le_of_lt hin) ⟨hin, hj'⟩
  · simp [BitVec.getMsbD, hin]

lemma lastBit_leadingZeros (h : w ≠ 0) : LastBit w (leadingZeros (w &&& ~~~(w - 1#n))) := by
  have hne : w &&& ~~~(w - 1#n) ≠ 0 := by
    obtain ⟨k, hk⟩ := exists_lastBit h
    intro hzero
    have hset : (w &&& ~~~(w - 1#n)).getMsbD k = true := by
      rw [getMsbD_and_not_sub_one, hk.set]
      simp only [Bool.true_and, Bool.not_eq_true', decide_eq_false_iff_not]
      rintro ⟨j, -, hlt, hj⟩
      simp [hk.clear j hlt] at hj
    simp [hzero] at hset
  have hfirst := firstBit_leadingZeros hne
  exact LastBit.of_and_not_sub_one hfirst.lt hfirst.set

/-- The indices met while the first set bit is cleared again and again, for at most `fuel`
rounds. -/
def drainBits : Nat → BitVec n → List Nat
  | 0, _ => []
  | fuel + 1, w =>
    if w = 0 then []
    else
      let offset := leadingZeros w
      offset :: drainBits fuel (w &&& ~~~(1#n <<< (n - 1 - offset)))

lemma getMsbD_clear {k : Nat} (hk : k < n) (i : Nat) :
    (w &&& ~~~(1#n <<< (n - 1 - k))).getMsbD i = (w.getMsbD i && decide (i ≠ k)) := by
  by_cases hi : i < n
  · by_cases hik : i = k
    · subst hik
      have h1 : i + (n - 1 - i) = n - 1 := by omega
      have h2 : 0 < n := by omega
      simp [h1, h2]
    · have h1 : i + (n - 1 - k) ≠ n - 1 := by omega
      simp [h1, hik, hi]
  · have hout : w.getMsbD i = false := by simp [BitVec.getMsbD, hi]
    simp [hout]

/-- Taking the first hit out of a filtered range. -/
theorem filter_range_first {o : Nat} {p q : Nat → Bool} (ho : o < n) (hp : p o = true)
    (hclear : ∀ i < o, p i = false) (hq : ∀ i, q i = (p i && decide (i ≠ o))) :
    (range n).filter p = o :: (range n).filter q := by
  obtain ⟨k, rfl⟩ : ∃ k, n = o + (k + 1) := ⟨n - o - 1, by omega⟩
  have hfront : ∀ r : Nat → Bool, (∀ i < o, r i = false) → (range o).filter r = [] := by
    intro r hr
    rw [filter_eq_nil_iff]
    intro i hi
    simp [hr i (mem_range.mp hi)]
  have hrest : ((range k).map (o + 1 + ·)).filter p =
      ((range k).map (o + 1 + ·)).filter q := by
    refine filter_congr fun i hi => ?_
    obtain ⟨j, -, rfl⟩ := mem_map.mp hi
    have hne : o + 1 + j ≠ o := by omega
    simp [hq, hne]
  have hsplit : range (o + (k + 1)) = range o ++ o :: (range k).map (o + 1 + ·) := by
    rw [range_add, Nat.add_comm k 1, range_add]
    simp [Nat.add_assoc]
  have hqo : q o = false := by simp [hq]
  rw [hsplit, filter_append, filter_append, hfront p hclear,
    hfront q (fun i hi => by simp [hq, hclear i hi]), filter_cons_of_pos hp,
    filter_cons_of_neg (by simp [hqo]), hrest]
  rfl

lemma drainBits_eq_filter {fuel : Nat}
    (h : ((range n).filter fun i => w.getMsbD i).length ≤ fuel) :
    drainBits fuel w = (range n).filter fun i => w.getMsbD i := by
  induction fuel generalizing w with
  | zero =>
    rw [eq_nil_of_length_eq_zero (Nat.le_zero.mp h)]
    rfl
  | succ fuel ih =>
    rw [drainBits]
    split
    · rename_i hzero
      simp [hzero]
    · rename_i hne
      have hfirst := firstBit_leadingZeros hne
      have hstep := filter_range_first (q := fun i =>
          (w &&& ~~~(1#n <<< (n - 1 - leadingZeros w))).getMsbD i)
        hfirst.lt hfirst.set hfirst.clear (getMsbD_clear hfirst.lt)
      rw [hstep] at h ⊢
      exact congrArg _ (ih (Nat.le_of_succ_le_succ h))

/-- All set bits of a word, from the most significant on. -/
theorem drainBits_word (w : BitVec n) :
    drainBits n w = (range n).filter fun i => w.getMsbD i := by
  apply drainBits_eq_filter
  simpa using length_filter_le (fun i => w.getMsbD i) (range n)

end EasyDds
