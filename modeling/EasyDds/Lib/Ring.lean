import Mathlib.Data.Int.GCD
import Mathlib.Data.List.Perm.Subperm
import Mathlib.Tactic.Ring

/-!
Places in a ring of `n` slots.
-/

namespace EasyDds.Ring

variable {n h i j : Nat}

lemma mod_ne_of_near (hlt : i < j) (hnear : j < i + n) : i % n ≠ j % n := by
  intro heq
  have hdvd : n ∣ j - i := Nat.dvd_of_mod_eq_zero (Nat.sub_mod_eq_zero_of_mod_eq heq.symm)
  have := Nat.le_of_dvd (by omega) hdvd
  omega

lemma mod_ne (hi : h ≤ i) (hj : h ≤ j) (hi' : i < h + n) (hj' : j < h + n) (hne : i ≠ j) :
    i % n ≠ j % n := by
  rcases Nat.lt_or_gt_of_ne hne with hlt | hlt
  · exact mod_ne_of_near hlt (by omega)
  · exact (mod_ne_of_near hlt (by omega)).symm

lemma succ_div (n i : Nat) : (i + 1) / n = if (i + 1) % n = 0 then i / n + 1 else i / n := by
  rw [Nat.succ_div]
  by_cases h : n ∣ i + 1
  · rw [if_pos h, if_pos (Nat.mod_eq_zero_of_dvd h)]
  · rw [if_neg h, if_neg (fun hmod => h (Nat.dvd_of_mod_eq_zero hmod)), Nat.add_zero]

section Steps

variable {inc p b K : Nat}

/-- Steps around the ring pass `b` exactly if the last slot that they reach is behind it. They reach
the slots congruent to `p` modulo the gcd, and no others. -/
theorem exists_lt_mod_iff (hpos : 0 < inc) (hlt : inc < n) (p b : Nat) :
    (∃ k, b < (p + k * inc) % n) ↔ b < n - inc.gcd n + p % inc.gcd n := by
  obtain ⟨m, hm⟩ := Nat.gcd_dvd_right inc n
  obtain ⟨i, hi⟩ := Nat.gcd_dvd_left inc n
  have hg : 0 < inc.gcd n := Nat.gcd_pos_of_pos_left n hpos
  have hle : inc.gcd n ≤ inc := Nat.gcd_le_left n hpos
  obtain ⟨x, -, hx⟩ := Nat.exists_mul_mod_eq_gcd (k := n) (n := inc) (by omega)
  generalize inc.gcd n = g at *
  have hlast : p % g < g := Nat.mod_lt p hg
  obtain ⟨m, rfl⟩ : ∃ m', m = m' + 1 := ⟨m - 1, by rcases m with _ | m <;> simp_all⟩
  rw [Nat.mul_succ] at hm
  constructor
  · rintro ⟨k, hk⟩
    have hmod : (p + k * inc) % n % g = p % g := by
      rw [Nat.mod_mod_of_dvd _ ⟨m + 1, by rw [hm, Nat.mul_succ]⟩, hi, Nat.mul_left_comm,
        Nat.add_mul_mod_self_left]
    have hslot : (p + k * inc) % n < n := Nat.mod_lt _ (by omega)
    generalize (p + k * inc) % n = v at *
    have hdiv : v / g < m + 1 := Nat.div_lt_of_lt_mul (by rw [Nat.mul_succ]; omega)
    have hle : g * (v / g) ≤ g * m := Nat.mul_le_mul_left g (by omega)
    have := Nat.div_add_mod v g
    omega
  · intro hb
    refine ⟨x * (m + m * (p / g)), hb.trans_eq ?_⟩
    have hround := Nat.div_add_mod (inc * x) n
    have hp := Nat.div_add_mod p g
    rw [hx] at hround
    generalize p / g = d, p % g = r, inc * x / n = q at *
    have heq : p + x * (m + m * d) * inc = g * m + r + n * (d + q * (m + m * d)) := by
      calc p + x * (m + m * d) * inc = p + (m + m * d) * (inc * x) := by ring
        _ = g * d + r + (m + m * d) * (n * q + g) := by rw [hround, hp]
        _ = _ := by rw [hm]; ring
    rw [heq, Nat.add_mul_mod_self_left, Nat.mod_eq_of_lt (by omega)]
    omega

/-- Before they first pass `b`, steps around the ring come to a slot only once: otherwise they would
repeat themselves from there on and never pass it. -/
theorem mod_ne_of_first (hgo : ∀ k < K, (p + k * inc) % n ≤ b) (hstop : b < (p + K * inc) % n)
    (hij : i < j) (hj : j < K) : (p + i * inc) % n ≠ (p + j * inc) % n := by
  intro heq
  obtain ⟨k, rfl⟩ := Nat.exists_eq_add_of_lt hj
  have hsame : (p + i * inc + (k + 1) * inc) % n = (p + j * inc + (k + 1) * inc) % n :=
    by rw [Nat.add_mod, heq, ← Nat.add_mod]
  have hearly := hgo (i + (k + 1)) (by omega)
  rw [Nat.add_mul, ← Nat.add_assoc, hsame, Nat.add_assoc, ← Nat.add_mul] at hearly
  exact absurd hstop (Nat.not_lt.mpr hearly)

lemma nodup_of_first (hgo : ∀ k < K, (p + k * inc) % n ≤ b) (hstop : b < (p + K * inc) % n) :
    ((List.range K).map fun k => (p + k * inc) % n).Nodup := by
  refine List.pairwise_map.mpr (List.pairwise_lt_range.imp_of_mem fun _ hj hij => ?_)
  exact mod_ne_of_first hgo hstop hij (List.mem_range.mp hj)

lemma le_of_first (hn : 0 < n) (hgo : ∀ k < K, (p + k * inc) % n ≤ b)
    (hstop : b < (p + K * inc) % n) : K ≤ n := by
  have hsub : ((List.range K).map fun k => (p + k * inc) % n) ⊆ List.range n := by
    intro v hv
    obtain ⟨k, -, rfl⟩ := List.mem_map.mp hv
    exact List.mem_range.mpr (Nat.mod_lt _ hn)
  simpa using ((nodup_of_first hgo hstop).subperm hsub).length_le

/-- Steps whose length divides the ring's pass `b` in their first round, since every later round
comes to the same slots. -/
theorem exists_first (hdvd : inc ∣ n) (hpos : 0 < inc) (hb : b < n - inc + p % inc) (hp : p ≤ b) :
    ∃ K, (∀ k < K, (p + k * inc) % n = p + k * inc ∧ p + k * inc ≤ b) ∧
      b < (p + K * inc) % n ∧ ∀ k, p + k * inc ≤ b → k < K := by
  obtain ⟨m, rfl⟩ := hdvd
  have hcount := Nat.div_add_mod (b - p) inc
  have hrest := Nat.mod_lt (b - p) hpos
  generalize (b - p) / inc = d, (b - p) % inc = r at *
  have hin : p + (d + 1) * inc < inc * m := by
    have hp := Nat.div_add_mod p inc
    have hmod := Nat.mod_lt p hpos
    generalize p / inc = e, p % inc = s at *
    have hround : inc * (e + d + 1) < inc * m := by
      rw [Nat.mul_succ, Nat.mul_add]
      omega
    have hnext := Nat.mul_le_mul_left inc (Nat.lt_of_mul_lt_mul_left hround)
    simp only [Nat.mul_add, Nat.add_mul, Nat.mul_comm d, Nat.mul_one, Nat.one_mul,
      Nat.succ_eq_add_one] at hnext ⊢
    omega
  have hgo : ∀ k < d + 1, p + k * inc ≤ b := by
    intro k hk
    have := Nat.mul_le_mul_right inc (Nat.le_of_lt_succ hk)
    rw [Nat.mul_comm d] at this
    omega
  refine ⟨d + 1, fun k hk => ⟨Nat.mod_eq_of_lt ?_, hgo k hk⟩, ?_, fun k hk => ?_⟩
  · have := Nat.mul_le_mul_right inc hk.le
    omega
  · rw [Nat.mod_eq_of_lt hin, Nat.succ_mul, Nat.mul_comm]
    omega
  · by_contra hge
    have := Nat.mul_le_mul_right inc (Nat.not_lt.mp hge)
    rw [Nat.succ_mul, Nat.mul_comm d] at this
    omega

end Steps

end EasyDds.Ring
