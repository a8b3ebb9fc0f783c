import Mathlib.Order.Lattice
import Mathlib.Tactic.Common

/-!
Repeated joins: the result depends on what is joined, not on the order or on how often.
-/

namespace EasyDds

open List

variable {α ε : Type} [SemilatticeSup α] {f : ε → α} {a b : α} {es fs : List ε}

def joinAll (f : ε → α) (a : α) (es : List ε) : α := es.foldl (fun a e => a ⊔ f e) a

lemma joinAll_le_iff : joinAll f a es ≤ b ↔ a ≤ b ∧ ∀ e ∈ es, f e ≤ b := by
  induction es generalizing a with
  | nil => simp [joinAll]
  | cons e es ih =>
    rw [joinAll, foldl_cons, ← joinAll, ih, sup_le_iff, forall_mem_cons, and_assoc]

lemma joinAll_congr (h : ∀ e, e ∈ es ↔ e ∈ fs) : joinAll f a es = joinAll f a fs := by
  refine eq_of_forall_ge_iff fun b => ?_
  simp only [joinAll_le_iff, h]

/-- A machine whose steps, as far as they succeed, are joins under an abstraction. -/
theorem foldlM_eq_joinAll {σ : Type} {step : σ → ε → Option σ} {I : σ → Prop} {abs : σ → α}
    (hstep : ∀ s e s', I s → step s e = some s' → I s' ∧ abs s' = abs s ⊔ f e) {s s' : σ} (hs : I s)
    (hrun : es.foldlM step s = some s') : I s' ∧ abs s' = joinAll f (abs s) es := by
  induction es generalizing s with
  | nil =>
    cases hrun
    exact ⟨hs, rfl⟩
  | cons e es ih =>
    rw [foldlM_cons] at hrun
    obtain ⟨t, ht, hrest⟩ := Option.bind_eq_some_iff.mp hrun
    obtain ⟨hI, habs⟩ := hstep s e t hs ht
    rw [joinAll, foldl_cons, ← joinAll, ← habs]
    exact ih hI hrest

/-- It runs to the end if an invariant keeps every step from failing. -/
theorem exists_foldlM {σ : Type} {step : σ → ε → Option σ} {I : σ → Prop}
    (hstep : ∀ s, ∀ e ∈ es, I s → ∃ s', step s e = some s' ∧ I s') {s : σ} (hs : I s) :
    ∃ s', es.foldlM step s = some s' ∧ I s' := by
  induction es generalizing s with
  | nil => exact ⟨s, rfl, hs⟩
  | cons e es ih =>
    obtain ⟨t, ht, hI⟩ := hstep s e mem_cons_self hs
    obtain ⟨s', hrun, hI'⟩ := ih (fun u e' he' => hstep u e' (mem_cons_of_mem _ he')) hI
    exact ⟨s', by rw [foldlM_cons, ht]; exact hrun, hI'⟩

end EasyDds
