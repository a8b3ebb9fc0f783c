import EasyDds.Lib.Ring

/-!
The search for a logical port of `TCPChannelResource`.
-/

namespace EasyDds.Rtps

open List

structure LogicalPorts where
  range : Nat
  increment : Nat
  maximum : Nat

def getBaseAutoPort (currentPort : Nat) : Nat :=
  if currentPort < 7411 then currentPort else 7411 + (currentPort - 7411) / 250 * 250

namespace LogicalPorts

def limit (t : LogicalPorts) (closedPort : Nat) : Nat := closedPort + t.range * t.increment

/-- The loop of `prepare_send_check_logical_ports_req` from port `p` on. -/
def candidatesFrom (t : LogicalPorts) (closedPort : Nat) (pending : List Nat) :
    Nat → Nat → Option (List Nat)
  | 0, _ => none
  | fuel + 1, p =>
    if p ≤ t.limit closedPort then do
      let later ← t.candidatesFrom closedPort pending fuel ((p + t.increment) % 2 ^ 16)
      -- ports just tested and already pending are left out
      if p ≤ (closedPort + t.maximum) % 2 ^ 16 ∧ p ≠ closedPort ∧ p ∉ pending then
        pure (p :: later)
      else pure later
    else some []

def candidatePorts (t : LogicalPorts) (pending : List Nat) (closedPort fuel : Nat) :
    Option (List Nat) :=
  t.candidatesFrom closedPort pending fuel (getBaseAutoPort closedPort)

/-- A request is sent for `closedPort`, and an answer without ports makes `lastPort` the next closed
port. -/
def Retries (t : LogicalPorts) (pending : List Nat) (closedPort lastPort : Nat) : Prop :=
  ∃ fuel ports, t.candidatePorts pending closedPort fuel = some ports ∧
    ports.getLast? = some lastPort

variable {t : LogicalPorts} {c p K : Nat} {pending : List Nat}

def passed (t : LogicalPorts) (c : Nat) (pending : List Nat) (p K : Nat) : List Nat :=
  ((List.range K).map fun k => (p + k * t.increment) % 2 ^ 16).filter fun p =>
    p ≤ (c + t.maximum) % 2 ^ 16 ∧ p ≠ c ∧ p ∉ pending

lemma shift (p k i : Nat) : p + i + k * i = p + (k + 1) * i := by
  rw [Nat.succ_mul]
  omega

lemma candidatesFrom_eq (hgo : ∀ k < K, (p + k * t.increment) % 2 ^ 16 ≤ t.limit c)
    (hstop : t.limit c < (p + K * t.increment) % 2 ^ 16) (fuel : Nat) :
    t.candidatesFrom c pending fuel (p % 2 ^ 16) =
      if K < fuel then some (t.passed c pending p K) else none := by
  induction K generalizing p fuel with
  | zero =>
    cases fuel with
    | zero => rfl
    | succ fuel =>
      rw [Nat.zero_mul, Nat.add_zero] at hstop
      rw [candidatesFrom, if_neg (Nat.not_le.mpr hstop)]
      rfl
  | succ K ih =>
    cases fuel with
    | zero => rfl
    | succ fuel =>
      have hfirst := hgo 0 (by omega)
      rw [Nat.zero_mul, Nat.add_zero] at hfirst
      rw [candidatesFrom, if_pos hfirst, Nat.mod_add_mod,
        ih (fun k hk => by rw [shift]; exact hgo (k + 1) (by omega)) (by rwa [shift])]
      simp only [passed, range_succ_eq_map, map_cons, map_map, filter_cons, Nat.zero_mul,
        Nat.add_zero, decide_eq_true_eq, shift, Nat.succ_lt_succ_iff, Function.comp_def,
          Nat.succ_eq_add_one]
      split_ifs <;> rfl

lemma candidatesFrom_none (hgo : ∀ k, (p + k * t.increment) % 2 ^ 16 ≤ t.limit c) (fuel : Nat) :
    t.candidatesFrom c pending fuel (p % 2 ^ 16) = none := by
  induction fuel generalizing p with
  | zero => rfl
  | succ fuel ih =>
    have hfirst := hgo 0
    rw [Nat.zero_mul, Nat.add_zero] at hfirst
    have hrest : ∀ k, (p + t.increment + k * t.increment) % 2 ^ 16 ≤ t.limit c := by
      intro k
      rw [shift]
      exact hgo (k + 1)
    rw [candidatesFrom, if_pos hfirst, Nat.mod_add_mod, ih hrest]
    rfl

lemma getBaseAutoPort_le (c : Nat) : getBaseAutoPort c ≤ c ∧ c < getBaseAutoPort c + 250 := by
  rw [getBaseAutoPort]
  split_ifs <;> omega

/-- The last port that steps of the increment reach from the base port is behind the limit. -/
def Passes (t : LogicalPorts) (closedPort : Nat) : Prop :=
  t.limit closedPort < 2 ^ 16 - t.increment.gcd (2 ^ 16) +
    getBaseAutoPort closedPort % t.increment.gcd (2 ^ 16)

section

variable (hc : c < 2 ^ 16) (hpos : 0 < t.increment) (hlt : t.increment < 2 ^ 16)
include hc

lemma candidatePorts_eq (hgo : ∀ k < K, (getBaseAutoPort c + k * t.increment) % 2 ^ 16 ≤ t.limit c)
    (hstop : t.limit c < (getBaseAutoPort c + K * t.increment) % 2 ^ 16) (fuel : Nat) :
    t.candidatePorts pending c fuel =
      if K < fuel then some (t.passed c pending (getBaseAutoPort c) K) else none := by
  have hbase := (getBaseAutoPort_le c).1
  rw [candidatePorts, ← candidatesFrom_eq hgo hstop, Nat.mod_eq_of_lt (by omega)]

include hpos hlt

lemma candidatePorts_none (h : ¬t.Passes c) (fuel : Nat) :
    t.candidatePorts pending c fuel = none := by
  have hbase := (getBaseAutoPort_le c).1
  rw [Passes, ← Ring.exists_lt_mod_iff hpos hlt] at h
  rw [candidatePorts, ← candidatesFrom_none (by simpa using h) fuel, Nat.mod_eq_of_lt (by omega)]

/-- Each request ends behind the last one. -/
theorem Retries.lt (hdvd : t.increment ∣ 2 ^ 16) (hmax : t.range * t.increment ≤ t.maximum)
    (hsmall : t.maximum + 250 ≤ 2 ^ 16)
    (hfree : ∀ p, ∃ i < t.range, p + (i + 1) * t.increment ∉ pending) {lastPort : Nat}
    (h : t.Retries pending c lastPort) : c < lastPort ∧ lastPort < 2 ^ 16 := by
  obtain ⟨fuel, ports, hports, hlast⟩ := h
  have hbase := getBaseAutoPort_le c
  by_cases hpasses : t.Passes c
  case neg => simp [candidatePorts_none hc hpos hlt hpasses] at hports
  rw [Passes, Nat.gcd_eq_left hdvd] at hpasses
  obtain ⟨K, hgo, hstop, hall⟩ := Ring.exists_first hdvd hpos hpasses
    (hbase.1.trans (Nat.le_add_right ..))
  rw [candidatePorts_eq hc (fun k hk => (hgo k hk).1.trans_le (hgo k hk).2) hstop] at hports
  split_ifs at hports
  cases hports
  have hmem : ∀ {q}, q ∈ t.passed c pending (getBaseAutoPort c) K ↔
      (∃ k < K, getBaseAutoPort c + k * t.increment = q) ∧ q ≤ (c + t.maximum) % 2 ^ 16 ∧ q ≠ c ∧
        q ∉ pending := by
    intro q
    simp only [passed, mem_filter, mem_map, mem_range, decide_eq_true_eq]
    refine and_congr_left fun _ => exists_congr fun k => and_congr_right fun hk => ?_
    rw [(hgo k hk).1]
  have hsorted : (t.passed c pending (getBaseAutoPort c) K).Pairwise (· < ·) := by
    refine (pairwise_map.mpr (pairwise_lt_range.imp_of_mem fun hi hj hij => ?_)).filter _
    rw [(hgo _ (mem_range.mp hi)).1, (hgo _ (mem_range.mp hj)).1]
    exact Nat.add_lt_add_left (Nat.mul_lt_mul_of_pos_right hij hpos) _
  obtain ⟨earlier, heq⟩ := getLast?_eq_some_iff.mp hlast
  rw [heq] at hmem hsorted
  obtain ⟨⟨k, -, hk⟩, hle, -⟩ := hmem.mp (mem_append_right earlier (mem_singleton_self lastPort))
  -- a port behind the closed one that is not pending
  have hfirst := Nat.div_add_mod (c - getBaseAutoPort c) t.increment
  have hrest := Nat.mod_lt (c - getBaseAutoPort c) hpos
  generalize (c - getBaseAutoPort c) / t.increment = d at *
  obtain ⟨i, hi, hnot⟩ := hfree (getBaseAutoPort c + d * t.increment)
  have hinside : (i + 1) * t.increment ≤ t.range * t.increment := Nat.mul_le_mul_right _ hi
  have hlimit : t.limit c = c + t.range * t.increment := rfl
  rw [Nat.add_assoc, ← Nat.add_mul] at hnot
  have hplace : (d + (i + 1)) * t.increment = t.increment * d + (i + 1) * t.increment := by ring
  have hstep : t.increment ≤ (i + 1) * t.increment := Nat.le_mul_of_pos_left _ (Nat.succ_pos i)
  have hin := hmem.mpr ⟨⟨_, hall (d + (i + 1)) (by omega), rfl⟩, by omega, by omega, hnot⟩
  refine ⟨?_, by omega⟩
  rcases mem_append.mp hin with hin | hin
  · have := (pairwise_append.mp hsorted).2.2 _ hin lastPort (mem_singleton_self _)
    omega
  · have := mem_singleton.mp hin
    omega

/-- The search ends within 65536 rounds exactly if its steps pass the limit, with candidates that
are none of those to be left out. A peer without available ports gets finitely many requests at
least where the increment divides the number of ports, the limit stays below the maximum and of any
`range` ports one is not pending. -/
theorem port_search_iff (pending : List Nat) :
    ((∃ ports, t.candidatePorts pending c (2 ^ 16 + 1) = some ports ∧ ports.Nodup ∧ c ∉ ports ∧
        ∀ p ∈ ports, p ∉ pending) ↔ t.Passes c) ∧
      (t.increment ∣ 2 ^ 16 ∧ t.range * t.increment ≤ t.maximum ∧ t.maximum + 250 ≤ 2 ^ 16 ∧
        (∀ p, ∃ i < t.range, p + (i + 1) * t.increment ∉ pending) →
        ¬∃ f : Nat → Nat, f 0 = c ∧ ∀ n, t.Retries pending (f n) (f (n + 1))) := by
  refine ⟨⟨?_, fun hpasses => ?_⟩, ?_⟩
  · rintro ⟨ports, hports, -⟩
    by_contra hstuck
    rw [candidatePorts_none hc hpos hlt hstuck] at hports
    cases hports
  · have hex := (Ring.exists_lt_mod_iff hpos hlt _ _).mpr hpasses
    have hstop := Nat.find_spec hex
    have hgo := fun k hk => Nat.not_lt.mp (Nat.find_min (m := k) hex hk)
    have hle := Ring.le_of_first (by decide) hgo hstop
    refine ⟨_, (candidatePorts_eq hc hgo hstop _).trans (if_pos (by omega)),
      (Ring.nodup_of_first hgo hstop).filter _, ?_, ?_⟩
    · simp [passed]
    · intro p hp
      simp only [passed, mem_filter, decide_eq_true_eq] at hp
      exact hp.2.2.2
  · rintro ⟨hdvd, hmax, hsmall, hfree⟩ ⟨f, rfl, hretries⟩
    have hrun : ∀ n, n ≤ f n ∧ f n < 2 ^ 16 := by
      intro n
      induction n with
      | zero => exact ⟨Nat.zero_le _, hc⟩
      | succ n ih =>
        have hnext := (hretries n).lt ih.2 hpos hlt hdvd hmax hsmall hfree
        omega
    have hlast := hrun (2 ^ 16)
    omega

end

theorem port_search_iff_default :
    ¬∃ f : Nat → Nat, f 0 = 7411 ∧ ∀ n, Retries ⟨20, 2, 100⟩ [7411] (f n) (f (n + 1)) := by
  refine (port_search_iff (by decide) (by decide) (by decide) [7411]).2
    ⟨by decide, by decide, by decide, fun p => ?_⟩
  by_cases hp : p + 2 = 7411
  · exact ⟨1, by decide, by simp; omega⟩
  · exact ⟨0, by decide, by simpa using hp⟩

/-- With the default settings the search for a high port never ends, and with others two ports may
be asked for in turn. -/
theorem port_search_stuck : (∀ fuel, candidatePorts ⟨20, 2, 100⟩ [65500] 65500 fuel = none) ∧
    Retries ⟨1, 2, 2⟩ [7415] 7413 7411 ∧ Retries ⟨1, 2, 2⟩ [7415] 7411 7413 := by
  refine ⟨candidatePorts_none (by decide) (by decide) (by decide) ?_,
    ⟨4, [7411], by decide, rfl⟩, ⟨3, [7413], by decide, rfl⟩⟩
  rw [Passes]
  decide

end LogicalPorts

end EasyDds.Rtps
