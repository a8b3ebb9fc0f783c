import Mathlib.Order.Basic
import Mathlib.Tactic.Common

/-!
Loops that need not end, as a step that goes on or returns, repeated for at most `fuel` rounds, and
computations made of them.
-/

namespace EasyDds

open Option

variable {σ β γ : Type} {f : Nat → Option β}

def runLoop (step : σ → σ ⊕ β) : Nat → σ → Option β
  | 0, _ => none
  | fuel + 1, s =>
    match step s with
    | .inl s' => runLoop step fuel s'
    | .inr b => some b

/-- A computation returns `b`: enough fuel gives it, and none gives anything else. -/
structure Returns (f : Nat → Option β) (b : β) : Prop where
  enough : ∃ n, ∀ fuel > n, f fuel = some b
  unique : ∀ fuel b', f fuel = some b' → b' = b

def Diverges (f : Nat → Option β) : Prop := ∀ fuel, f fuel = none

namespace Returns

lemma pure (b : β) : Returns (fun _ => some b) b :=
  ⟨⟨0, fun _ _ => rfl⟩, fun _ _ h => (some.inj h).symm⟩

lemma bind {g : β → Nat → Option γ} {b : β} {c : γ} (hf : Returns f b)
    (hg : Returns (g b) c) : Returns (fun fuel => f fuel >>= fun b => g b fuel) c := by
  obtain ⟨⟨n, hn⟩, hunique⟩ := hf
  obtain ⟨⟨m, hm⟩, hunique'⟩ := hg
  refine ⟨⟨max n m, fun fuel hlt => ?_⟩, fun fuel c' h => ?_⟩
  · change (f fuel).bind _ = _
    rw [hn fuel (by omega), bind_some, hm fuel (by omega)]
  · obtain ⟨b', hb', hc'⟩ := bind_eq_some_iff.1 h
    rw [hunique fuel b' hb'] at hc'
    exact hunique' fuel c' hc'

/-- A computation that returns can be run to see what. -/
theorem of_run {b c : β} (h : Returns f b) (fuel : Nat) (hc : f fuel = some c) : Returns f c := by
  obtain rfl := h.unique fuel c hc
  exact h

lemma eq {b c : β} (hb : Returns f b) (hc : Returns f c) : b = c := by
  obtain ⟨n, hn⟩ := hb.enough
  exact hc.unique (n + 1) b (hn _ (by omega))

lemma not_diverges {b : β} (h : Returns f b) : ¬ Diverges f := by
  intro hnone
  obtain ⟨n, hn⟩ := h.enough
  have hsome := hn (n + 1) (by omega)
  rw [hnone] at hsome
  cases hsome

end Returns

lemma Diverges.bind {g : β → Nat → Option γ} {b : β} (hf : Returns f b)
    (hg : Diverges (g b)) : Diverges fun fuel => f fuel >>= fun b => g b fuel := by
  intro fuel
  change (f fuel).bind _ = none
  rcases hb : f fuel with _ | b'
  · rfl
  · rw [bind_some, hf.unique fuel b' hb]
    exact hg fuel

/-- A loop whose rounds keep an invariant and make a measure smaller, or return, returns something
with the property that the last round gives it. -/
theorem runLoop_returns {step : σ → σ ⊕ β} (I : σ → Prop) (Q : β → Prop) (measure : σ → Nat)
    (hstep : ∀ s, I s → (∃ s', step s = .inl s' ∧ I s' ∧ measure s' < measure s) ∨
      ∃ b, step s = .inr b ∧ Q b) {s : σ} (hs : I s) :
    ∃ b, Q b ∧ Returns (fun fuel => runLoop step fuel s) b := by
  induction hn : measure s using Nat.strongRecOn generalizing s with
  | ind n ih =>
    subst hn
    rcases hstep s hs with ⟨s', hgo, hs', hless⟩ | ⟨b, hstop, hb⟩
    · obtain ⟨b, hb, ⟨m, hm⟩, hunique⟩ := ih _ hless hs' rfl
      refine ⟨b, hb, ⟨m + 1, fun fuel hlt => ?_⟩, fun fuel b' h => ?_⟩
      · obtain ⟨k, rfl⟩ := Nat.exists_eq_add_of_lt hlt
        rw [runLoop, hgo]
        exact hm _ (by omega)
      · cases fuel with
        | zero => cases h
        | succ fuel =>
          rw [runLoop, hgo] at h
          exact hunique fuel b' h
    · refine ⟨b, hb, ⟨0, fun fuel hlt => ?_⟩, fun fuel b' h => ?_⟩
      · obtain ⟨k, rfl⟩ := Nat.exists_eq_add_of_lt hlt
        rw [runLoop, hstop]
      · cases fuel with
        | zero => cases h
        | succ fuel =>
          rw [runLoop, hstop] at h
          exact (some.inj h).symm

/-- A loop whose rounds all go on does not return: the invariant holds after any number of rounds,
so that no fuel is enough. -/
theorem runLoop_diverges {step : σ → σ ⊕ β} (I : σ → Prop)
    (hgo : ∀ s, I s → ∃ s', step s = .inl s' ∧ I s') {s : σ} (hs : I s) :
    Diverges fun fuel => runLoop step fuel s := by
  intro fuel
  induction fuel generalizing s with
  | zero => rfl
  | succ fuel ih =>
    obtain ⟨s', hstep, hs'⟩ := hgo s hs
    change runLoop step (fuel + 1) s = none
    rw [runLoop, hstep]
    exact ih hs'

end EasyDds
