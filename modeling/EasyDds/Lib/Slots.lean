import Mathlib.Data.List.Basic
import Mathlib.Tactic.Common

/-!
Numbered slots, filled in order and emptied in any order.
-/

namespace EasyDds.Slots

open List Option

variable {α : Type} {l : List (Option α)} {i k : Nat} {o : Option α} {x y : α}

def occupant (l : List (Option α)) (i : Nat) : Option α := l[i]?.join

lemma occupant_eq_some : occupant l i = some x ↔ l[i]? = some (some x) := join_eq_some_iff

lemma lt_length (h : occupant l i = some x) : i < l.length :=
  (List.getElem?_eq_some_iff.1 (occupant_eq_some.1 h)).1

lemma mem_of_occupant (h : occupant l i = some x) : some x ∈ l :=
  mem_of_getElem? (occupant_eq_some.1 h)

lemma exists_occupant (h : some x ∈ l) : ∃ i, occupant l i = some x := by
  obtain ⟨i, hi⟩ := mem_iff_getElem?.1 h
  exact ⟨i, occupant_eq_some.2 hi⟩

lemma map_get {β : Type} (f : α → β) (h : occupant l i = some x) :
    (l.map (·.map f))[i]? = some (some (f x)) := by
  rw [getElem?_map, occupant_eq_some.1 h]
  rfl

@[simp]
lemma occupant_nil : occupant ([] : List (Option α)) i = none := rfl

lemma occupant_set_of_ne (hne : k ≠ i) : occupant (l.set i o) k = occupant l k := by
  rw [occupant, getElem?_set_ne hne.symm, occupant]

lemma occupant_set_self (h : occupant l i = some x) : occupant (l.set i o) i = o := by
  rw [occupant, getElem?_set_self (lt_length h), join_some]

lemma occupant_set (h : occupant (l.set i o) k = some x) :
    (k = i ∧ o = some x) ∨ (k ≠ i ∧ occupant l k = some x) := by
  by_cases hk : k = i
  · subst hk
    have hlt := lt_length h
    rw [length_set] at hlt
    rw [occupant, getElem?_set_self hlt, join_some] at h
    exact .inl ⟨rfl, h⟩
  · exact .inr ⟨hk, occupant_set_of_ne hk ▸ h⟩

lemma occupant_clear (h : occupant (l.set i none) k = some x) : k ≠ i ∧ occupant l k = some x :=
  (occupant_set h).resolve_left fun h => nomatch h.2

lemma occupant_append : occupant (l ++ [some x]) k = some y ↔
    occupant l k = some y ∨ (k = l.length ∧ x = y) := by
  rw [occupant_eq_some, occupant_eq_some, getElem?_append]
  split
  case isTrue hlt => exact ⟨.inl, fun h => h.elim id fun h => by omega⟩
  case isFalse hge =>
    rw [getElem?_eq_none (Nat.not_lt.1 hge), getElem?_singleton]
    constructor
    · intro h
      split at h
      · exact .inr ⟨by omega, some.inj (some.inj h)⟩
      · cases h
    · rintro (h | ⟨rfl, rfl⟩)
      · cases h
      · simp

end EasyDds.Slots
