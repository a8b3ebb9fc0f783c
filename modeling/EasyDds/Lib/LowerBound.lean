import Mathlib.Data.List.Pairwise
import Mathlib.Data.List.TakeWhile
import Mathlib.Tactic.Common

/-!
Binary search for the end of the passing front of a sequence, as `std::lower_bound` does it. The
result says something about the sequence only when the test splits it into a passing front and a
failing rest.
-/

namespace EasyDds

open List

variable {α : Type} {below : α → Bool}

/-- The loop of `std::lower_bound` over the `len` entries from `first` on, for at most `fuel`
rounds. -/
def lowerBoundLoop (below : α → Bool) (xs : List α) : Nat → Nat → Nat → Nat
  | 0, first, _ => first
  | fuel + 1, first, len =>
    if len = 0 then first
    else if (xs[first + len / 2]?).any below then
      lowerBoundLoop below xs fuel (first + len / 2 + 1) (len - len / 2 - 1)
    else lowerBoundLoop below xs fuel first (len / 2)

/-- `std::lower_bound` over the whole sequence; every round shortens the range. -/
def lowerBound (below : α → Bool) (xs : List α) : Nat :=
  lowerBoundLoop below xs xs.length 0 xs.length

variable {as bs : List α}

lemma any_getElem?_append (has : ∀ a ∈ as, below a = true) (hbs : ∀ b ∈ bs, below b = false)
    {i : Nat} (hi : i < (as ++ bs).length) :
    ((as ++ bs)[i]?).any below = decide (i < as.length) := by
  by_cases h : i < as.length
  · rw [getElem?_append_left h, getElem?_eq_getElem h]
    simpa [h] using has _ (getElem_mem h)
  · have hlt : i - as.length < bs.length := by
      rw [length_append] at hi
      omega
    rw [getElem?_append_right (Nat.le_of_not_lt h), getElem?_eq_getElem hlt]
    simpa [h] using hbs _ (getElem_mem hlt)

lemma lowerBoundLoop_append (has : ∀ a ∈ as, below a = true) (hbs : ∀ b ∈ bs, below b = false)
    {fuel first len : Nat} (hfuel : len ≤ fuel) (hfirst : first ≤ as.length)
    (hlast : as.length ≤ first + len) (hend : first + len ≤ (as ++ bs).length) :
    lowerBoundLoop below (as ++ bs) fuel first len = as.length := by
  induction fuel generalizing first len with
  | zero =>
    change first = as.length
    omega
  | succ fuel ih =>
    rw [lowerBoundLoop]
    split
    · omega
    · rw [any_getElem?_append has hbs (by omega)]
      split
      · rename_i hlen h
        have hmid : first + len / 2 < as.length := of_decide_eq_true h
        apply ih <;> omega
      · rename_i hlen h
        have hmid : ¬ first + len / 2 < as.length := fun hlt => h (decide_eq_true hlt)
        apply ih <;> omega

lemma lowerBound_append (has : ∀ a ∈ as, below a = true) (hbs : ∀ b ∈ bs, below b = false) :
    lowerBound below (as ++ bs) = as.length := by
  apply lowerBoundLoop_append has hbs <;> simp

lemma lowerBoundLoop_map {β : Type} (f : β → α) (xs : List β) (fuel first len : Nat) :
    lowerBoundLoop below (xs.map f) fuel first len =
      lowerBoundLoop (fun x => below (f x)) xs fuel first len := by
  induction fuel generalizing first len with
  | zero => rfl
  | succ fuel ih =>
    rw [lowerBoundLoop, lowerBoundLoop, getElem?_map, Option.any_map, ih, ih]

/-- The search looks at the entries only through the test. -/
theorem lowerBound_map {β : Type} (f : β → α) (xs : List β) :
    lowerBound below (xs.map f) = lowerBound (fun x => below (f x)) xs := by
  rw [lowerBound, lowerBound, length_map, lowerBoundLoop_map]

/-- A sequence in which no entry fails before a passing one is split by the search: the front
passes, the rest fails, and the answer is the place between them. -/
theorem exists_lowerBound {xs : List α}
    (h : xs.Pairwise fun x y => below y = true → below x = true) :
    ∃ as bs, xs = as ++ bs ∧ lowerBound below xs = as.length ∧
      (∀ a ∈ as, below a = true) ∧ ∀ b ∈ bs, below b = false := by
  induction xs with
  | nil => exact ⟨[], [], rfl, rfl, by simp, by simp⟩
  | cons x xs ih =>
    rw [pairwise_cons] at h
    cases hx : below x with
    | true =>
      obtain ⟨as, bs, rfl, -, has, hbs⟩ := ih h.2
      have has' : ∀ a ∈ x :: as, below a = true := by simpa [hx] using has
      exact ⟨x :: as, bs, rfl, lowerBound_append has' hbs, has', hbs⟩
    | false =>
      have hbs : ∀ b ∈ x :: xs, below b = false := by
        intro b hb
        rcases mem_cons.mp hb with rfl | hb
        · exact hx
        · rw [Bool.eq_false_iff]
          intro hbelow
          exact absurd (h.1 b hb hbelow) (Bool.eq_false_iff.mp hx)
      have hnil : ∀ a ∈ ([] : List α), below a = true := by simp
      exact ⟨[], x :: xs, rfl, lowerBound_append hnil hbs, hnil, hbs⟩

/-- An insertion at the end of the passing front. -/
theorem insertIdx_length_append (as bs : List α) (x : α) :
    (as ++ bs).insertIdx as.length x = as ++ x :: bs := by
  induction as with
  | nil => rfl
  | cons a as ih => simpa using ih

end EasyDds
