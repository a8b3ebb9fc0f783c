import Mathlib.Algebra.Order.BigOperators.Group.List
import Mathlib.Algebra.Order.Ring.Nat
import Mathlib.Data.List.DropRight

/-!
Lists counted by the keys of their entries, and the ends of lists.
-/

namespace EasyDds

open List

variable {α κ : Type} [DecidableEq κ] {f : α → κ}

/-- A list is counted by the keys of its entries: the fibers over distinct keys are disjoint, and
together they are the list. -/
theorem length_eq_sum_fibers {ks : List κ} (hnodup : ks.Nodup) {xs : List α}
    (hcover : ∀ x ∈ xs, f x ∈ ks) :
    xs.length = (ks.map fun k => (xs.filter fun x => decide (f x = k)).length).sum := by
  induction ks generalizing xs with
  | nil => simp [eq_nil_iff_forall_not_mem.mpr fun x hx => by simpa using hcover x hx]
  | cons k ks ih =>
    rw [nodup_cons] at hnodup
    have hcover' : ∀ x ∈ xs.filter fun x => decide (f x ≠ k), f x ∈ ks := by
      intro x hx
      obtain ⟨hmem, hne⟩ := mem_filter.mp hx
      exact (mem_cons.mp (hcover x hmem)).resolve_left (by simpa using hne)
    have hrest := ih hnodup.2 hcover'
    have hfibers : ∀ k' ∈ ks, ((xs.filter fun x => decide (f x ≠ k)).filter fun x =>
        decide (f x = k')) = xs.filter fun x => decide (f x = k') := by
      intro k' hk'
      rw [filter_filter]
      refine filter_congr fun x _ => ?_
      by_cases hx : f x = k'
      · have hne : k' ≠ k := fun h => hnodup.1 (h ▸ hk')
        simp [hx, hne]
      · simp [hx]
    rw [map_cons, sum_cons, length_eq_length_filter_add fun x => decide (f x = k)]
    congr 1
    simp only [← decide_not]
    rw [hrest]
    congr 1
    exact map_congr_left fun k' hk' => congrArg List.length (hfibers k' hk')

/-- What a term falls short of a bound, the sum falls short of too, since no other term is above
it. -/
theorem sum_add_sub_le {d x : Nat} {xs : List Nat} (hle : ∀ y ∈ xs, y ≤ d) (hx : x ∈ xs) :
    xs.sum + (d - x) ≤ d * xs.length := by
  induction xs with
  | nil => cases hx
  | cons y xs ih =>
    have hy := hle y mem_cons_self
    have hrest : xs.sum ≤ xs.length * d :=
      sum_le_card_nsmul xs d fun z hz => hle z (mem_cons_of_mem _ hz)
    rw [Nat.mul_comm] at hrest
    rw [sum_cons, length_cons, Nat.mul_succ]
    rcases mem_cons.mp hx with rfl | hx
    · omega
    · have h := ih (fun z hz => hle z (mem_cons_of_mem _ hz)) hx
      omega

/-- The last `k` entries are among the last `k + 1` ones. -/
theorem rtake_of_rtake_succ (xs : List α) (k : Nat) :
    xs.rtake k = if (xs.rtake (k + 1)).length < k + 1 then xs.rtake (k + 1)
      else (xs.rtake (k + 1)).tail := by
  unfold List.rtake
  rw [length_drop, tail_drop]
  split
  · rw [show xs.length - k = xs.length - (k + 1) by omega]
  · rw [show xs.length - k = xs.length - (k + 1) + 1 by omega]

lemma takeWhile_congr {p q : α → Bool} {xs : List α} (h : ∀ x ∈ xs, p x = q x) :
    xs.takeWhile p = xs.takeWhile q := by
  induction xs with
  | nil => rfl
  | cons x xs ih =>
    rw [takeWhile_cons, takeWhile_cons, h x mem_cons_self,
      ih fun y hy => h y (mem_cons_of_mem _ hy)]

end EasyDds
