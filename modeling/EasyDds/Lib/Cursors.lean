import Mathlib.Data.List.Basic
import Mathlib.Data.List.Count
import Mathlib.Tactic.Common

/-!
Cursors on a log: each one stands before the first entry it still has to read, or is closed.
-/

namespace EasyDds

open List Option

abbrev Cursors := List (Option Nat)

namespace Cursors

variable {cs : Cursors} {i j p h w : Nat}

def behind (cs : Cursors) (j : Nat) : Nat := cs.countP (·.any (decide <| · ≤ j))

def active (cs : Cursors) : Nat := cs.countP (·.isSome)

/-- The first of the `w` entries that a cursor still has to read, or `w`. -/
structure Oldest (cs : Cursors) (w h : Nat) : Prop where
  le : h ≤ w
  first : ∀ p, some p ∈ cs → h ≤ p
  reached : h < w → some h ∈ cs

lemma behind_pos (hp : some p ∈ cs) (hle : p ≤ j) : 0 < cs.behind j :=
  countP_pos_iff.2 ⟨_, hp, by simpa using hle⟩

lemma exists_of_behind (h : 0 < cs.behind j) : ∃ p, some p ∈ cs ∧ p ≤ j := by
  obtain ⟨o, ho, hany⟩ := countP_pos_iff.1 h
  cases o with
  | none => simp at hany
  | some p => exact ⟨p, ho, by simpa using hany⟩

lemma behind_eq_active (hcs : ∀ p, some p ∈ cs → p ≤ j) : cs.behind j = cs.active :=
  countP_congr fun o ho => by
    cases o with
    | none => simp
    | some p => simpa using hcs p ho

lemma active_pos (hp : some p ∈ cs) : 0 < cs.active := countP_pos_iff.2 ⟨_, hp, rfl⟩

lemma exists_of_active (h : 0 < cs.active) : ∃ p, some p ∈ cs := by
  obtain ⟨o, ho, hsome⟩ := countP_pos_iff.1 h
  obtain ⟨p, rfl⟩ := isSome_iff_exists.1 hsome
  exact ⟨p, ho⟩

section Set

variable (hi : cs[i]? = some (some p))
include hi

lemma mem_of_get : some p ∈ cs := mem_of_getElem? hi

lemma behind_set (o : Option Nat) (j : Nat) : behind (cs.set i o) j =
    cs.behind j - (if p ≤ j then 1 else 0) + if o.any (decide <| · ≤ j) then 1 else 0 := by
  obtain ⟨hlt, hget⟩ := List.getElem?_eq_some_iff.1 hi
  simp [behind, countP_set hlt, hget]

lemma active_set (o : Option Nat) :
    active (cs.set i o) = cs.active - 1 + if o.isSome then 1 else 0 := by
  obtain ⟨hlt, hget⟩ := List.getElem?_eq_some_iff.1 hi
  simp [active, countP_set hlt, hget]

lemma behind_advance (j : Nat) :
    behind (cs.set i (some (p + 1))) j = if j = p then cs.behind j - 1 else cs.behind j := by
  have hpos := @behind_pos cs j p (mem_of_get hi)
  rw [behind_set hi]
  simp only [any_some, decide_eq_true_eq]
  split_ifs <;> omega

lemma active_advance (q : Nat) : active (cs.set i (some q)) = cs.active := by
  rw [active_set hi]
  exact Nat.sub_add_cancel (active_pos (mem_of_get hi))

lemma active_close : active (cs.set i none) = cs.active - 1 := active_set hi none

lemma behind_close (hj : j < p) : behind (cs.set i none) j = cs.behind j := by
  simp [behind_set hi, Nat.not_le.2 hj]

lemma mem_set_of_ne {q : Nat} {o : Option Nat} (hq : some q ∈ cs) (hne : q ≠ p) :
    some q ∈ cs.set i o := by
  obtain ⟨k, hk⟩ := mem_iff_getElem?.1 hq
  have hki : i ≠ k := by
    rintro rfl
    rw [hi] at hk
    exact hne (some.inj (some.inj hk)).symm
  exact mem_iff_getElem?.2 ⟨k, by rw [getElem?_set_ne hki, hk]⟩

lemma eq_of_behind_one (hone : cs.behind p = 1) {q : Nat} (hq : some q ∈ cs) (hle : q ≤ p) :
    q = p := by
  by_contra hne
  have hzero := behind_set hi none p
  have hpos := behind_pos (mem_set_of_ne hi (o := none) hq hne) hle
  simp [hone] at hzero
  omega

lemma ne_one_of_two (hj : cs[j]? = some (some p)) (hne : j ≠ i) : cs.behind p ≠ 1 := by
  intro hone
  have hmem : some p ∈ cs.set i none :=
    mem_iff_getElem?.2 ⟨j, by rw [getElem?_set_ne hne.symm, hj]⟩
  have hzero := behind_set hi none p
  have hpos := behind_pos hmem (Nat.le_refl p)
  simp [hone] at hzero
  omega

namespace Oldest

variable (ho : cs.Oldest w h)
include ho

/-- The last cursor reads an entry: it was the oldest one, as nobody else has to read it any more
and everyone has read what is before it. -/
theorem advance_last (hp : p < w) (hone : cs.behind p = 1) :
    h = p ∧ Oldest (cs.set i (some (p + 1))) w (p + 1) := by
  have hle := ho.first p (mem_of_get hi)
  have heq := eq_of_behind_one hi hone (ho.reached (by omega)) hle
  refine ⟨heq, hp, fun q hq => ?_, fun _ => ?_⟩
  · by_contra hlt
    have hpos := behind_pos hq (show q ≤ p by omega)
    rw [behind_advance hi, if_pos rfl, hone] at hpos
    omega
  · exact mem_set (List.getElem?_eq_some_iff.1 hi).1 _

lemma advance (hmany : cs.behind p ≠ 1) : Oldest (cs.set i (some (p + 1))) w h := by
  have hle := ho.first p (mem_of_get hi)
  have hfirst : ∀ q, some q ∈ cs.set i (some (p + 1)) → h ≤ q := by
    intro q hq
    rcases mem_or_eq_of_mem_set hq with hq | hq
    · exact ho.first q hq
    · have := some.inj hq
      omega
  refine ⟨ho.le, hfirst, fun hlt => ?_⟩
  by_cases heq : h = p
  · have hpos := behind_pos (mem_of_get hi) (Nat.le_refl p)
    have hothers : 0 < behind (cs.set i (some (p + 1))) p := by
      rw [behind_advance hi, if_pos rfl]
      omega
    obtain ⟨q, hq, hle'⟩ := exists_of_behind hothers
    have hge := hfirst q hq
    rwa [show h = q by omega]
  · exact mem_set_of_ne hi (ho.reached hlt) heq

lemma close (hp : p = w) : Oldest (cs.set i none) w h := by
  refine ⟨ho.le, fun q hq => ?_, fun hlt => mem_set_of_ne hi (ho.reached hlt) (by omega)⟩
  rcases mem_or_eq_of_mem_set hq with hq | hq
  · exact ho.first q hq
  · cases hq

end Oldest

end Set

namespace Oldest

variable (ho : cs.Oldest w h)
include ho

lemma opened : Oldest (cs ++ [some w]) w h := by
  refine ⟨ho.le, fun q hq => ?_, fun hlt => mem_append_left _ (ho.reached hlt)⟩
  rcases mem_append.1 hq with hq | hq
  · exact ho.first q hq
  · rw [some.inj (mem_singleton.1 hq)]
    exact ho.le

lemma grow (hbounded : ∀ p, some p ∈ cs → p ≤ w) (hactive : 0 < cs.active) :
    Oldest cs (w + 1) h := by
  refine ⟨Nat.le_succ_of_le ho.le, ho.first, fun _ => ?_⟩
  by_cases heq : h = w
  · obtain ⟨q, hq⟩ := exists_of_active hactive
    have hle := hbounded q hq
    have hge := ho.first q hq
    rwa [show h = q by omega]
  · exact ho.reached (by have := ho.le; omega)

end Oldest

lemma behind_append (q : Nat) (hj : j < q) : behind (cs ++ [some q]) j = cs.behind j := by
  simp [behind, Nat.not_le.2 hj]

lemma active_append (q : Nat) : active (cs ++ [some q]) = cs.active + 1 := by simp [active]

end Cursors

end EasyDds
