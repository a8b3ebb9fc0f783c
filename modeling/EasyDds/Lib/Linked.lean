import Mathlib.Data.List.Basic
import Mathlib.Tactic.Common

/-!
Lists threaded through a map from an index to the one that follows it, walked by loops that stop
at the first index not below a bound.
-/

namespace EasyDds

open List

variable {next next' : Nat → Nat} {stop bound : Nat}

/-- Each index is followed by the next one of the list, the last by `stop`. -/
def Links (next : Nat → Nat) (stop : Nat) : List Nat → Prop
  | [] => True
  | m :: rest => next m = rest.headD stop ∧ Links next stop rest

variable {as : List Nat} {current fuel : Nat}

lemma headD_append (as bs : List Nat) (stop : Nat) :
    (as ++ bs).headD stop = as.headD (bs.headD stop) := by
  cases as <;> rfl

lemma le_headD (hstop : bound ≤ stop) (h : ∀ a ∈ as, bound ≤ a) : bound ≤ as.headD stop := by
  cases as with
  | nil => exact hstop
  | cons a as => exact h a (by simp)

lemma links_append {bs : List Nat} :
    Links next stop (as ++ bs) ↔ Links next (bs.headD stop) as ∧ Links next stop bs := by
  induction as with
  | nil => simp [Links]
  | cons a as ih => rw [cons_append, Links, Links, ih, headD_append, and_assoc]

lemma Links.congr {l : List Nat} (h : Links next stop l) (heq : ∀ m ∈ l, next' m = next m) :
    Links next' stop l := by
  induction l with
  | nil => trivial
  | cons m rest ih =>
    exact ⟨(heq m (by simp)).trans h.1, ih h.2 fun x hx => heq x (by simp [hx])⟩

lemma links_range' {k n : Nat} (h : ∀ i, k ≤ i → i < k + n → next i = i + 1) :
    Links next (k + n) (range' k n) := by
  induction n generalizing k with
  | zero => trivial
  | succ n ih =>
    refine ⟨?_, ?_⟩
    · rw [h k (Nat.le_refl _) (by omega)]
      cases n with
      | zero => rfl
      | succ n => rfl
    · have hrest := ih (k := k + 1) fun i hi hlt => h i (by omega) (by omega)
      rwa [show k + 1 + n = k + (n + 1) by omega] at hrest

def skipBelow (next : Nat → Nat) (bound : Nat) : Nat → Nat → Option Nat
  | 0, current => if current < bound then none else some current
  | fuel + 1, current =>
    if current < bound then skipBelow next bound fuel (next current) else some current

lemma skipBelow_of_le (fuel : Nat) (h : bound ≤ current) :
    skipBelow next bound fuel current = some current := by
  cases fuel <;> simp [skipBelow, Nat.not_lt.mpr h]

lemma skipBelow_links (h : Links next stop as) (has : ∀ a ∈ as, a < bound) (hstop : bound ≤ stop)
    (hfuel : as.length ≤ fuel) : skipBelow next bound fuel (as.headD stop) = some stop := by
  induction as generalizing fuel with
  | nil => exact skipBelow_of_le fuel hstop
  | cons a as ih =>
    obtain ⟨fuel, rfl⟩ : ∃ k, fuel = k + 1 := ⟨fuel - 1, by rw [length_cons] at hfuel; omega⟩
    rw [headD_cons, skipBelow, if_pos (has a (by simp)), h.1]
    exact ih h.2 (fun x hx => has x (by simp [hx])) (by simpa using hfuel)

/-- The last index before `bound` on the way from `current`: the loop ends when the next one is
not below the bound, or at once if `current` is not. -/
def findBefore (next : Nat → Nat) (bound : Nat) : Nat → Nat → Option (Option Nat)
  | 0, _ => none
  | fuel + 1, current =>
    if current < bound then
      if bound ≤ next current then some (some current) else findBefore next bound fuel
        (next current)
    else some none

lemma findBefore_links {p : Nat} (h : Links next stop (as ++ [p]))
    (has : ∀ a ∈ as ++ [p], a < bound) (hstop : bound ≤ stop) (hfuel : as.length < fuel) :
    findBefore next bound fuel ((as ++ [p]).headD stop) = some (some p) := by
  induction as generalizing fuel with
  | nil =>
    obtain ⟨fuel, rfl⟩ : ∃ k, fuel = k + 1 := ⟨fuel - 1, by rw [length_nil] at hfuel; omega⟩
    have hnext : next p = stop := h.1
    simp [findBefore, hnext, hstop, has p (by simp)]
  | cons a as ih =>
    obtain ⟨fuel, rfl⟩ : ∃ k, fuel = k + 1 := ⟨fuel - 1, by omega⟩
    have hhead : next a = (as ++ [p]).headD stop := h.1
    have hlt : (as ++ [p]).headD stop < bound := by
      cases as with
      | nil => exact has p (by simp)
      | cons b bs => exact has b (by simp)
    rw [cons_append, headD_cons, findBefore, if_pos (has a (by simp)), hhead,
      if_neg (Nat.not_le.mpr hlt)]
    exact ih h.2 (fun x hx => has x (by simp [mem_cons_of_mem _ hx])) (by simpa using hfuel)

lemma findBefore_found {p : Nat} (h : findBefore next bound fuel current = some (some p)) :
    p < bound ∧ bound ≤ next p := by
  induction fuel generalizing current with
  | zero => cases h
  | succ fuel ih =>
    rw [findBefore] at h
    split at h
    case isFalse => simp at h
    case isTrue hlt =>
      split at h
      case isTrue hle =>
        obtain rfl : current = p := by simpa using h
        exact ⟨hlt, hle⟩
      case isFalse => exact ih h

def visitBelow (next : Nat → Nat) (bound : Nat) : Nat → Nat → Option (List Nat)
  | 0, current => if current < bound then none else some []
  | fuel + 1, current =>
    if current < bound then (visitBelow next bound fuel (next current)).map (current :: ·)
    else some []

lemma visitBelow_of_le (fuel : Nat) (h : bound ≤ current) :
    visitBelow next bound fuel current = some [] := by
  cases fuel <;> simp [visitBelow, Nat.not_lt.mpr h]

lemma visitBelow_links {l : List Nat} (h : Links next stop l) (hl : ∀ m ∈ l, m < bound)
    (hstop : bound ≤ stop) (hfuel : l.length ≤ fuel) :
    visitBelow next bound fuel (l.headD stop) = some l := by
  induction l generalizing fuel with
  | nil => exact visitBelow_of_le fuel hstop
  | cons m rest ih =>
    obtain ⟨fuel, rfl⟩ : ∃ k, fuel = k + 1 := ⟨fuel - 1, by rw [length_cons] at hfuel; omega⟩
    rw [headD_cons, visitBelow, if_pos (hl m (by simp)), h.1,
      ih h.2 (fun x hx => hl x (by simp [hx])) (by simpa using hfuel)]
    rfl

/-- A strictly increasing list splits at a bound. -/
theorem exists_split {ms : List Nat} (h : ms.Pairwise (· < ·)) (b : Nat) :
    ∃ low high, ms = low ++ high ∧ (∀ m ∈ low, m < b) ∧ ∀ m ∈ high, b ≤ m := by
  induction ms with
  | nil => exact ⟨[], [], rfl, by simp, by simp⟩
  | cons m rest ih =>
    rw [pairwise_cons] at h
    by_cases hm : m < b
    · obtain ⟨low, high, rfl, hlow, hhigh⟩ := ih h.2
      exact ⟨m :: low, high, rfl, by simpa [hm] using hlow, hhigh⟩
    · refine ⟨[], m :: rest, rfl, by simp, forall_mem_cons.mpr ⟨by omega, fun x hx => ?_⟩⟩
      have hlt := h.1 x hx
      omega

/-- A store of such a list: a cell for its first index, and for each index one for the next. -/
structure Cells (σ : Type) where
  first : σ → Nat
  setFirst : σ → Nat → σ
  next : σ → Nat → Nat
  setNext : σ → Nat → Nat → σ

namespace Cells

variable {σ : Type} (C : Cells σ)

/-- Takes the indices from `initial` on and below `last` out of the list and says whether there
was one. -/
def unlink (fuel : Nat) (s : σ) (initial last : Nat) : Option (Bool × σ) :=
  if initial ≤ C.first s then
    match skipBelow (C.next s) last fuel (C.first s) with
    | none => none
    | some first => some (decide (C.first s < last), C.setFirst s first)
  else
    match findBefore (C.next s) initial fuel (C.first s) with
    | none => none
    | some none => some (false, s)
    | some (some current) =>
      match skipBelow (C.next s) last fuel (C.next s current) with
      | none => none
      | some after =>
        if C.next s current < last then some (true, C.setNext s current after) else some (false, s)

structure Apart (n : Nat) (s : σ) : Prop where
  first_setFirst : ∀ q, C.first (C.setFirst s q) = q
  next_setFirst : ∀ q, C.next (C.setFirst s q) = C.next s
  first_setNext : ∀ p q, C.first (C.setNext s p q) = C.first s
  next_setNext : ∀ p < n, ∀ q ≤ n, ∀ x < n,
    C.next (C.setNext s p q) x = if x = p then q else C.next s x

/-- The store holds an increasing list that ends at `n`. -/
structure Lists (n : Nat) (ms : List Nat) (s : σ) : Prop where
  first_eq : C.first s = ms.headD n
  links : Links (C.next s) n ms
  sorted : ms.Pairwise (· < ·)
  below : ∀ m ∈ ms, m < n

def Written (kept : List Nat) (s d : σ) : Prop :=
  d = s ∨ (∃ q, d = C.setFirst s q) ∨ ∃ p ∈ kept, ∃ q, d = C.setNext s p q

variable {C} {n initial last : Nat} {s : σ} {before hit after : List Nat} {p : Nat}

/-- A range that starts at or before the first index moves the start of the list. -/
theorem unlink_front (hs : C.Lists n (hit ++ after) s) (hle : initial ≤ last) (hlast : last ≤ n)
    (hhit : ∀ m ∈ hit, initial ≤ m ∧ m < last) (hafter : ∀ m ∈ after, last ≤ m)
    (hfuel : hit.length ≤ fuel) :
    C.unlink fuel s initial last = some (decide (hit ≠ []), C.setFirst s (after.headD n)) := by
  have hstop := le_headD hlast hafter
  have hskip := skipBelow_links (links_append.mp hs.links).1 (fun m hm => (hhit m hm).2) hstop hfuel
  have hfirst : initial ≤ hit.headD (after.headD n) :=
    le_headD (Nat.le_trans hle hstop) fun m hm => (hhit m hm).1
  have hchanged : decide (hit.headD (after.headD n) < last) = decide (hit ≠ []) := by
    cases hit with
    | nil => simpa using hstop
    | cons m rest => simpa using (hhit m (by simp)).2
  rw [unlink, hs.first_eq, headD_append, if_pos hfirst, hskip, ← hchanged]

/-- A range behind an index of the list is cut out behind the last one before it. -/
theorem unlink_behind (hs : C.Lists n (before ++ [p] ++ (hit ++ after)) s) (hle : initial ≤ last)
    (hlast : last ≤ n) (hbefore : ∀ m ∈ before ++ [p], m < initial)
    (hhit : ∀ m ∈ hit, initial ≤ m ∧ m < last) (hafter : ∀ m ∈ after, last ≤ m)
    (hfuel : (before ++ [p] ++ (hit ++ after)).length ≤ fuel) :
    C.unlink fuel s initial last =
      some (if hit = [] then (false, s) else (true, C.setNext s p (after.headD n))) := by
  have hstop := le_headD hlast hafter
  obtain ⟨hfront, hback⟩ := links_append.mp hs.links
  simp only [length_append, length_singleton] at hfuel
  have hskip := skipBelow_links (links_append.mp hback).1 (fun m hm => (hhit m hm).2) hstop
    (show hit.length ≤ fuel by omega)
  have hrest : initial ≤ (hit ++ after).headD n := by
    rw [headD_append]
    exact le_headD (Nat.le_trans hle hstop) fun m hm => (hhit m hm).1
  have hfind : findBefore (C.next s) initial fuel (C.first s) = some (some p) := by
    rw [hs.first_eq, headD_append]
    exact findBefore_links hfront hbefore hrest (by omega)
  have hnext : C.next s p = hit.headD (after.headD n) := by
    rw [← headD_append]
    exact (links_append.mp hfront).2.1
  have hlow : ¬ initial ≤ C.first s := by
    rw [hs.first_eq, Nat.not_le]
    cases before with
    | nil => exact hbefore p (by simp)
    | cons m rest => exact hbefore m (by simp)
  rw [unlink, if_neg hlow, hfind]
  simp only [hnext, hskip]
  cases hit with
  | nil => simpa using hstop
  | cons m rest => simp [(hhit m (by simp)).2]

/-- Relinking an index takes what followed it out of the list. -/
theorem Lists.setNext (hs : C.Lists n (before ++ [p] ++ (hit ++ after)) s) (ha : C.Apart n s) :
    C.Lists n (before ++ [p] ++ after) (C.setNext s p (after.headD n)) := by
  have hsub : (before ++ [p] ++ after).Sublist (before ++ [p] ++ (hit ++ after)) :=
    (Sublist.refl _).append (sublist_append_right ..)
  have hsorted := hs.sorted.sublist hsub
  have hbelow : ∀ m ∈ before ++ [p] ++ after, m < n := fun m hm => hs.below m (hsub.subset hm)
  have hhead : after.headD n ≤ n := by
    cases after with
    | nil => exact Nat.le_refl n
    | cons m rest => exact Nat.le_of_lt (hbelow m (by simp))
  have hcell : ∀ x ∈ before ++ [p] ++ after, C.next (C.setNext s p (after.headD n)) x =
      if x = p then after.headD n else C.next s x := fun x hx =>
    ha.next_setNext p (hbelow p (by simp)) _ hhead x (hbelow x hx)
  rw [append_assoc, pairwise_append] at hsorted
  obtain ⟨hfront, hback⟩ := links_append.mp hs.links
  refine ⟨?_, ?_, hs.sorted.sublist hsub, hbelow⟩
  · rw [ha.first_setNext, hs.first_eq]
    cases before <;> rfl
  · rw [links_append, links_append]
    refine ⟨⟨(links_append.mp hfront).1.congr fun x hx => ?_, ?_, trivial⟩,
      (links_append.mp hback).2.congr fun x hx => ?_⟩
    · have hlt : x < p := hsorted.2.2 x hx p (by simp)
      rw [hcell x (by simp [hx]), if_neg (by omega)]
    · rw [hcell p (by simp), if_pos rfl]
      rfl
    · have hlt : p < x := (pairwise_cons.mp hsorted.2.1).1 x (by simpa using hx)
      rw [hcell x (by simp [hx]), if_neg (by omega)]

/-- Taking a range out of the list leaves the other indices. Either the start of the list moves, or
the last index before the range is linked past it. -/
theorem unlink_run {ms : List Nat} (hs : C.Lists n ms s) (ha : C.Apart n s) (hle : initial ≤ last)
    (hlast : last ≤ n) (hfuel : ms.length ≤ fuel) :
    ∃ changed d, C.unlink fuel s initial last = some (changed, d) ∧
      (changed = true ↔ ∃ m ∈ ms, initial ≤ m ∧ m < last) ∧
      C.Lists n (ms.filter fun m => decide (m < initial ∨ last ≤ m)) d ∧
      C.Written (ms.filter fun m => decide (m < initial ∨ last ≤ m)) s d := by
  obtain ⟨low, high, rfl, hlow, hhigh⟩ := exists_split hs.sorted initial
  obtain ⟨hit, after, rfl, hhit, hafter⟩ :=
    exists_split (hs.sorted.sublist (sublist_append_right ..)) last
  have hrange : ∀ m ∈ hit, initial ≤ m ∧ m < last := fun m hm => ⟨hhigh m (by simp [hm]), hhit m hm⟩
  have hkept : ((low ++ (hit ++ after)).filter fun m => decide (m < initial ∨ last ≤ m)) =
      low ++ after := by
    have hnone : hit.filter (fun m => decide (m < initial ∨ last ≤ m)) = [] :=
      filter_eq_nil_iff.mpr fun m hm => by simpa using hrange m hm
    rw [filter_append, filter_append, hnone, nil_append,
      filter_eq_self.mpr fun m hm => by simp [hlow m hm],
      filter_eq_self.mpr fun m hm => by simp [hafter m hm]]
  have hchanged : decide (hit ≠ []) = true ↔
      ∃ m ∈ low ++ (hit ++ after), initial ≤ m ∧ m < last := by
    rw [decide_eq_true_eq]
    refine ⟨fun hne => ?_, ?_⟩
    · obtain ⟨m, hm⟩ := exists_mem_of_ne_nil hit hne
      exact ⟨m, by simp [hm], hrange m hm⟩
    · rintro ⟨m, hm, hge, hlt⟩
      simp only [mem_append] at hm
      rcases hm with hm | hm | hm
      · exact absurd (hlow m hm) (by omega)
      · exact ne_nil_of_mem hm
      · exact absurd (hafter m hm) (by omega)
  rw [hkept]
  -- Either no index stands before the range, or the last of them is relinked.
  rcases eq_nil_or_concat low with rfl | ⟨before, p, rfl⟩
  · rw [nil_append] at hs hfuel hchanged ⊢
    rw [length_append] at hfuel
    refine ⟨_, _, unlink_front hs hle hlast hrange hafter (by omega), hchanged,
      ⟨ha.first_setFirst _, ?_, hs.sorted.sublist (sublist_append_right ..), fun m hm => ?_⟩,
      .inr (.inl ⟨_, rfl⟩)⟩
    · rw [ha.next_setFirst]
      exact (links_append.mp hs.links).2
    · exact hs.below m (by simpa using .inr hm)
  · rw [concat_eq_append] at hlow hs hfuel hchanged ⊢
    have hrun := unlink_behind hs hle hlast hlow hrange hafter hfuel
    by_cases hnone : hit = []
    · subst hnone
      exact ⟨_, _, hrun, hchanged, hs, .inl rfl⟩
    · rw [if_neg hnone] at hrun
      refine ⟨_, _, hrun, ?_, hs.setNext ha, .inr (.inr ⟨p, by simp, _, rfl⟩)⟩
      rw [← hchanged, decide_eq_true hnone]

end Cells

end EasyDds
