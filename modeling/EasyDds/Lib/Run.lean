import Mathlib.Tactic.Common

/-!
Runs of a state machine whose steps satisfy a condition on the states they start from.
-/

namespace EasyDds

variable {σ ε : Type} {step : σ → ε → σ} {cond : σ → ε → Prop} {s : σ} {es fs : List ε}

/-- Every step satisfies the condition in the state it starts from. -/
def RunsWith (step : σ → ε → σ) (cond : σ → ε → Prop) : σ → List ε → Prop
  | _, [] => True
  | s, e :: es => cond s e ∧ RunsWith step cond (step s e) es

namespace RunsWith

instance decidable [∀ s e, Decidable (cond s e)] :
    (s : σ) → (es : List ε) → Decidable (RunsWith step cond s es)
  | _, [] => inferInstanceAs (Decidable True)
  | s, e :: es =>
    have := decidable (step s e) es
    inferInstanceAs (Decidable (cond s e ∧ RunsWith step cond (step s e) es))

lemma of_forall (h : ∀ s e, cond s e) : RunsWith step cond s es := by
  induction es generalizing s with
  | nil => trivial
  | cons e es ih => exact ⟨h s e, ih⟩

variable {I : σ → Prop}

/-- What the steps keep holds after the run. -/
theorem keeps (hstep : ∀ s e, I s → cond s e → I (step s e)) (hs : I s)
    (hrun : RunsWith step cond s es) : I (es.foldl step s) := by
  induction es generalizing s with
  | nil => exact hs
  | cons e es ih => exact ih (hstep s e hs hrun.1) hrun.2

/-- With what the steps keep, they satisfy what follows from it. -/
theorem imp_of_keeps {cond' : σ → ε → Prop} (hstep : ∀ s e, I s → cond s e → I (step s e))
    (himp : ∀ s e, I s → cond s e → cond' s e) (hs : I s) (hrun : RunsWith step cond s es) :
    RunsWith step cond' s es := by
  induction es generalizing s with
  | nil => trivial
  | cons e es ih => exact ⟨himp s e hs hrun.1, ih (hstep s e hs hrun.1) hrun.2⟩

/-- With what the steps keep, two conditions may be the same. -/
theorem iff_of_keeps {p q : σ → ε → Prop} (hstep : ∀ s e, I s → cond s e → I (step s e))
    (hiff : ∀ s e, I s → cond s e → (p s e ↔ q s e)) (hs : I s) (hrun : RunsWith step cond s es) :
    RunsWith step p s es ↔ RunsWith step q s es := by
  induction es generalizing s with
  | nil => exact Iff.rfl
  | cons e es ih => exact and_congr (hiff s e hs hrun.1) (ih (hstep s e hs hrun.1) hrun.2)

lemma append : RunsWith step cond s (es ++ fs) ↔
    RunsWith step cond s es ∧ RunsWith step cond (es.foldl step s) fs := by
  induction es generalizing s with
  | nil => simp [RunsWith]
  | cons e es ih => simp [RunsWith, ih, and_assoc]

/-- If the steps that satisfy the condition are those that keep a property, these are the runs on
which it always holds. -/
theorem iff_always {P : σ → Prop} (hs : I s) (himp : ∀ s, I s → P s)
    (hkeep : ∀ s e, I s → cond s e → I (step s e)) (hcond : ∀ s e, I s → P (step s e) → cond s e) :
    (∀ k, P ((es.take k).foldl step s)) ↔ RunsWith step cond s es := by
  induction es generalizing s with
  | nil => exact ⟨fun _ => trivial, fun _ k => by simpa using himp s hs⟩
  | cons e es ih =>
    constructor
    · intro h
      have hone := hcond s e hs (h 1)
      exact ⟨hone, (ih (hkeep s e hs hone)).1 fun k => h (k + 1)⟩
    · rintro ⟨hone, hrun⟩ k
      cases k with
      | zero => exact himp s hs
      | succ k => exact (ih (hkeep s e hs hone)).2 hrun k

/-- A relation that every step respects relates earlier and later states, and only then: steps
compose by transitivity, and a single step is such a pair itself. -/
theorem iff_related {R : σ → σ → Prop} (hrefl : ∀ s, R s s)
    (htrans : ∀ {a b c}, R a b → R b c → R a c) : RunsWith step (fun s e => R s (step s e)) s es ↔
      ∀ k j, k ≤ j → R ((es.take k).foldl step s) ((es.take j).foldl step s) := by
  induction es generalizing s with
  | nil => simp [RunsWith, hrefl]
  | cons e es ih =>
    constructor
    · rintro ⟨hone, hrun⟩ k j hkj
      have hlater := ih.mp hrun
      cases k with
      | zero =>
        cases j with
        | zero => exact hrefl s
        | succ j => exact htrans hone (hlater 0 j (Nat.zero_le j))
      | succ k =>
        cases j with
        | zero => omega
        | succ j => exact hlater k j (Nat.le_of_succ_le_succ hkj)
    · intro h
      exact ⟨h 0 1 (Nat.zero_le 1), ih.mpr fun k j hkj => h (k + 1) (j + 1) (Nat.succ_le_succ hkj)⟩

end RunsWith

end EasyDds
