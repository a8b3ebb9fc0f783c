import Mathlib.Data.List.Perm.Basic
import Mathlib.Order.Lattice

/-!
Vectors whose order carries no meaning: removal by moving the last entry to the place of the removed
one, and election of the entry with the greatest key by a scan.
-/

namespace EasyDds

open List

variable {α κ : Type}

section Removal

def swapRemove (p : α → Bool) (xs : List α) : Option (List α) :=
  match xs.findIdx? p, xs.getLast? with
  | some i, some last => some (xs.set i last).dropLast
  | _, _ => none

lemma swapRemove_append {p : α → Bool} {as bs : List α} {x : α} (has : ∀ a ∈ as, p a = false)
    (hx : p x = true) : ∃ ys, swapRemove p (as ++ x :: bs) = some ys ∧ ys.Perm (as ++ bs) := by
  have hidx : (as ++ x :: bs).findIdx? p = some as.length := by
    rw [findIdx?_append, findIdx?_eq_none_iff.mpr (by simpa using has)]
    simp [findIdx?_cons, hx]
  rcases eq_nil_or_concat bs with rfl | ⟨cs, last, rfl⟩
  · refine ⟨as, ?_, by simp⟩
    simp [swapRemove, hidx]
  · refine ⟨as ++ last :: cs, ?_, ?_⟩
    · have hlast : (as ++ x :: cs.concat last).getLast? = some last := by
        simp [concat_eq_append, getLast?_append, getLast?_cons]
      rw [swapRemove, hidx, hlast]
      dsimp only
      rw [set_append_right _ _ (Nat.le_refl _), Nat.sub_self, set_cons_zero,
        concat_eq_append, ← cons_append, ← append_assoc, dropLast_concat]
    · rw [concat_eq_append]
      exact (perm_append_singleton last cs).symm.append_left as

/-- Nothing is removed exactly if no entry passes; else all entries but one that passes stay. -/
theorem swapRemove_spec (p : α → Bool) (xs : List α) :
    (swapRemove p xs = none ∧ ∀ x ∈ xs, p x = false) ∨
      ∃ x ys, swapRemove p xs = some ys ∧ p x = true ∧ xs.Perm (x :: ys) := by
  cases hfind : xs.find? p with
  | none =>
    have hall : ∀ x ∈ xs, p x = false := by simpa using find?_eq_none.mp hfind
    refine .inl ⟨?_, hall⟩
    rw [swapRemove, findIdx?_eq_none_iff.mpr hall]
  | some x =>
    obtain ⟨hx, as, bs, rfl, has⟩ := find?_eq_some_iff_append.mp hfind
    have hbefore : ∀ a ∈ as, p a = false := by simpa using has
    obtain ⟨ys, hremove, hperm⟩ : ∃ ys, swapRemove p (as ++ x :: bs) = some ys ∧
      ys.Perm (as ++ bs) :=
      swapRemove_append hbefore hx
    exact .inr ⟨x, ys, hremove, hx, perm_middle.trans (hperm.symm.cons x)⟩

end Removal

section Election

/-- A scan that passes to every entry above the one it holds. -/
def elect (above : α → α → Bool) (start : α) (xs : List α) : α :=
  xs.foldl (fun best x => if above x best then x else best) start

variable [LinearOrder κ] {above : α → α → Bool} {key : α → κ}

lemma elect_cons (start x : α) (xs : List α) :
    elect above start (x :: xs) = elect above (if above x start then x else start) xs := rfl

lemma elect_mem (above : α → α → Bool) (start : α) (xs : List α) :
    elect above start xs ∈ start :: xs := by
  induction xs generalizing start with
  | nil => exact mem_cons_self
  | cons x xs ih =>
    rw [elect_cons]
    split
    · exact mem_cons_of_mem _ (ih x)
    · rcases mem_cons.mp (ih start) with hstart | hlater
      · rw [hstart]
        exact mem_cons_self
      · exact mem_cons_of_mem _ (mem_cons_of_mem _ hlater)

/-- No entry has a key above the one the scan ends with. -/
theorem key_le_elect (habove : ∀ a b, above a b = true ↔ key b < key a) (start : α) (xs : List α) :
    ∀ x ∈ start :: xs, key x ≤ key (elect above start xs) := by
  induction xs generalizing start with
  | nil =>
    intro x hx
    rw [mem_singleton.mp hx]
    exact le_refl _
  | cons y xs ih =>
    have hbest := ih (if above y start then y else start)
    -- The entry the scan holds on to is at least as good as the two it chose from.
    have hstart : key start ≤ key (if above y start then y else start) := by
      split
      · exact le_of_lt ((habove y start).mp ‹_›)
      · exact le_refl _
    have hy : key y ≤ key (if above y start then y else start) := by
      split
      · exact le_refl _
      · exact le_of_not_gt fun hlt => ‹¬ _› ((habove y start).mpr hlt)
    intro x hx
    rcases mem_cons.mp hx with rfl | hx
    · exact le_trans hstart (hbest _ mem_cons_self)
    · rcases mem_cons.mp hx with rfl | hx
      · exact le_trans hy (hbest _ mem_cons_self)
      · exact hbest x (mem_cons_of_mem _ hx)

/-- If some entry lies above the start, an entry is elected. -/
theorem elect_mem_of_above (habove : ∀ a b, above a b = true ↔ key b < key a) {start x : α}
    {xs : List α} (hx : x ∈ xs) (hstart : key start < key x) : elect above start xs ∈ xs := by
  rcases mem_cons.mp (elect_mem above start xs) with heq | hmem
  · have hle := key_le_elect habove start xs x (mem_cons_of_mem _ hx)
    rw [heq] at hle
    exact absurd hstart (not_lt_of_ge hle)
  · exact hmem

end Election

end EasyDds
