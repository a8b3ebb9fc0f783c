import Mathlib.Tactic.NormNum
import EasyDds.Rtps.Common

/-!
`Time_t` with the nanoseconds it keeps next to its fraction, the conversions between the two, and
what the timestamped write lets through to them.
-/

namespace EasyDds.Rtps

open Option

structure DdsTime where
  seconds : Int
  nanosec : Nat
  seconds_range : -2 ^ 31 ≤ seconds ∧ seconds < 2 ^ 31
  nanosec_lt : nanosec < 2 ^ 32

namespace DdsTime

def isInfinite (t : DdsTime) : Bool :=
  decide (t.seconds = 0x7fffffff) || decide (t.nanosec = 0xffffffff)

def lt (a b : DdsTime) : Bool :=
  if a.seconds < b.seconds then true
  else if b.seconds < a.seconds then false
  else decide (a.nanosec < b.nanosec)

end DdsTime

def fracToNano (fractions : Nat) : Nat := fractions * 10 ^ 9 / 2 ^ 32 % 2 ^ 32

def nanoToFrac (nanosecs : Nat) : Nat := nanosecs * 2 ^ 32 / 10 ^ 9 % 2 ^ 32

/-- The loop of `set_nanosec`, of at most `fuel` rounds: the first fraction from the given one on
that converts to `nanosec`. -/
def searchFraction (nanosec : Nat) : Nat → Nat → Option Nat
  | 0, _ => none
  | fuel + 1, fraction =>
    if fracToNano fraction ≠ nanosec then searchFraction nanosec fuel ((fraction + 1) % 2 ^ 32)
    else some fraction

structure StoredTime extends Time where
  nanosec : Nat
deriving DecidableEq

namespace StoredTime

def setFraction (t : StoredTime) (frac : Nat) : StoredTime :=
  { t with
    fraction := frac
    nanosec := if frac = 0xffffffff then 0xffffffff else fracToNano frac }

/-- `set_nanosec`; `none` while the loop has not found a fraction. -/
def setNanosec (fuel : Nat) (t : StoredTime) (nanos : Nat) : Option StoredTime :=
  let fraction := if nanos = 0xffffffff then 0xffffffff else nanoToFrac nanos
  let found := if fraction ≠ 0xffffffff then searchFraction nanos fuel fraction else some fraction
  found.map fun fraction => { t with fraction := fraction, nanosec := nanos }

def zero : StoredTime := ⟨⟨0, 0⟩, 0⟩

def ofFraction (sec : Int) (frac : Nat) : StoredTime :=
  { zero with seconds := sec }.setFraction frac

def ofDds (fuel : Nat) (time : DdsTime) : Option StoredTime :=
  setNanosec fuel { zero with seconds := time.seconds } time.nanosec

def infinite : StoredTime := ofFraction 0x7fffffff 0xffffffff

def invalid : StoredTime := ofFraction (-1) 0xffffffff

def toNs (t : StoredTime) : Int :=
  if t.toTime = infinite.toTime then -1
  else if t.toTime = invalid.toTime then -2
  else t.seconds * 10 ^ 9 + t.nanosec

def assignNanosec (fuel : Nat) (t : StoredTime) (nanos : Nat) : Option StoredTime :=
  t.setNanosec fuel (if 10 ^ 9 ≤ nanos then nanos % 10 ^ 9 else nanos)

/-- `from_ns`. The remainder of `lldiv` has the sign of its first argument. -/
def fromNs (fuel : Nat) (t : StoredTime) (nanosecs : Int) : Option StoredTime :=
  if nanosecs = -1 then some infinite
  else if nanosecs = -2 then some invalid
  else
    let t := { t with seconds := (nanosecs.tdiv (10 ^ 9)).bmod (2 ^ 32) }
    t.assignNanosec fuel (nanosecs.tmod (10 ^ 9) % 2 ^ 32).toNat

end StoredTime

def acceptsTimestamp (timestamp : DdsTime) : Bool :=
  !(timestamp.isInfinite || decide (timestamp.seconds < 0))

def fractionOf (nanosec : Nat) : Nat := (nanosec * 2 ^ 32 + (10 ^ 9 - 1)) / 10 ^ 9

section Fractions

variable {fraction : Nat}

lemma fracToNano_eq (h : fraction < 2 ^ 32) : fracToNano fraction = fraction * 10 ^ 9 / 2 ^ 32 :=
  Nat.mod_eq_of_lt (by omega)

lemma fracToNano_lt (h : fraction < 2 ^ 32) : fracToNano fraction < 10 ^ 9 := by
  rw [fracToNano_eq h]
  omega

variable {n : Nat} (hn : n < 10 ^ 9)
include hn

lemma fractionOf_lt : fractionOf n < 0xffffffff := by
  rw [fractionOf]
  omega

lemma fracToNano_fractionOf : fracToNano (fractionOf n) = n := by
  have hlt := fractionOf_lt hn
  rw [fracToNano_eq (by omega), fractionOf]
  omega

lemma nanoToFrac_eq : nanoToFrac n = n * 2 ^ 32 / 10 ^ 9 := Nat.mod_eq_of_lt (by omega)

/-- The rounded fraction is the one that is searched, or next to it and before `n`. -/
theorem nanoToFrac_cases : nanoToFrac n = fractionOf n ∨
    nanoToFrac n + 1 = fractionOf n ∧ fracToNano (nanoToFrac n) ≠ n := by
  have hlt : nanoToFrac n < 2 ^ 32 := Nat.mod_lt _ (by omega)
  by_cases hexact : nanoToFrac n = fractionOf n
  · exact .inl hexact
  · have hnext : nanoToFrac n + 1 = fractionOf n := by
      rw [nanoToFrac_eq hn, fractionOf] at hexact ⊢
      omega
    have hbefore : nanoToFrac n * 10 ^ 9 < n * 2 ^ 32 := by
      rw [nanoToFrac_eq hn, fractionOf] at hnext
      rw [nanoToFrac_eq hn]
      omega
    refine .inr ⟨hnext, ?_⟩
    rw [fracToNano_eq hlt]
    exact (Nat.div_lt_of_lt_mul (by omega)).ne

lemma searchFraction_eq {fuel : Nat} (hfuel : 2 ≤ fuel) :
    searchFraction n fuel (nanoToFrac n) = some (fractionOf n) := by
  have hfound : ∀ k, searchFraction n (k + 1) (fractionOf n) = some (fractionOf n) := fun k => by
    rw [searchFraction, if_neg (not_not.2 (fracToNano_fractionOf hn))]
  obtain ⟨k, rfl⟩ := Nat.exists_eq_add_of_le' hfuel
  have hlt := fractionOf_lt hn
  rcases nanoToFrac_cases hn with heq | ⟨hnext, hne⟩
  · rw [heq]
    exact hfound (k + 1)
  · rw [searchFraction, if_pos hne, hnext, Nat.mod_eq_of_lt (by omega)]
    exact hfound k

lemma setNanosec_eq {fuel : Nat} (hfuel : 2 ≤ fuel) (t : StoredTime) :
    t.setNanosec fuel n = some { t with fraction := fractionOf n, nanosec := n } := by
  have hlt := fractionOf_lt hn
  have hrounded : nanoToFrac n ≠ 0xffffffff := by
    rcases nanoToFrac_cases hn with heq | ⟨hnext, -⟩ <;> omega
  have hmax : n ≠ 0xffffffff := by omega
  simp only [StoredTime.setNanosec, if_neg hmax, if_pos hrounded, searchFraction_eq hn hfuel,
    map_some]

end Fractions

/-- No fraction converts to a second or more: the loop goes on for ever, as the fraction wraps to
zero and the search starts again. -/
theorem searchFraction_none {n : Nat} (hn : 10 ^ 9 ≤ n) (fuel : Nat)
    (hfraction : fraction < 2 ^ 32) : searchFraction n fuel fraction = none := by
  induction fuel generalizing fraction with
  | zero => rfl
  | succ fuel ih =>
    have hlt := fracToNano_lt hfraction
    rw [searchFraction, if_pos (by omega)]
    exact ih (Nat.mod_lt _ (by omega))

lemma setNanosec_none {n : Nat} (hn : 10 ^ 9 ≤ n) (hne : n ≠ 0xffffffff) (fuel : Nat)
    (t : StoredTime) : t.setNanosec fuel n = none := by
  have hlt : nanoToFrac n < 2 ^ 32 := Nat.mod_lt _ (by omega)
  have hrounded : nanoToFrac n ≠ 0xffffffff := by
    rw [nanoToFrac]
    omega
  simp only [StoredTime.setNanosec, if_neg hne, if_pos hrounded, searchFraction_none hn fuel hlt,
    map_none]

lemma fractionOf_strictMono : StrictMono fractionOf := by
  intro n m hlt
  rw [fractionOf, fractionOf]
  omega

lemma searchFraction_mono {n fuel fraction found : Nat}
    (h : searchFraction n fuel fraction = some found) :
    searchFraction n (fuel + 2) fraction = some found := by
  induction fuel generalizing fraction with
  | zero => cases h
  | succ fuel ih =>
    rw [searchFraction] at h ⊢
    split_ifs at h ⊢
    · exact ih h
    · exact h

lemma ofDds_eq {fuel : Nat} {time : DdsTime} {t : StoredTime} (hlt : time.nanosec < 10 ^ 9)
    (h : StoredTime.ofDds fuel time = some t) :
    t = ⟨⟨time.seconds, fractionOf time.nanosec⟩, time.nanosec⟩ := by
  have hmore : StoredTime.ofDds (fuel + 2) time = some t := by
    have hmax : time.nanosec ≠ 0xffffffff := by omega
    simp only [StoredTime.ofDds, StoredTime.setNanosec, if_neg hmax, map_eq_some_iff] at h ⊢
    obtain ⟨found, hfound, ht⟩ := h
    refine ⟨found, ?_, ht⟩
    split_ifs at hfound ⊢
    · exact searchFraction_mono hfound
    · exact hfound
  rw [StoredTime.ofDds, setNanosec_eq hlt (by omega)] at hmore
  exact (some.inj hmore).symm

/-- The construction of a `Time_t` returns exactly for nanoseconds below a second. -/
theorem ofDds_returns_iff {time : DdsTime} (h : acceptsTimestamp time = true) :
    (∃ fuel, (StoredTime.ofDds fuel time).isSome = true) ↔ time.nanosec < 10 ^ 9 := by
  constructor
  · rintro ⟨fuel, hsome⟩
    by_contra hge
    have hne : time.nanosec ≠ 0xffffffff := by
      intro heq
      simp [acceptsTimestamp, DdsTime.isInfinite, heq] at h
    rw [StoredTime.ofDds, setNanosec_none (not_lt.1 hge) hne] at hsome
    cases hsome
  · intro hlt
    refine ⟨2, ?_⟩
    rw [StoredTime.ofDds, setNanosec_eq hlt le_rfl]
    rfl

lemma toNs_eq {t : StoredTime} (h : t.fraction < 0xffffffff) :
    t.toNs = t.seconds * 10 ^ 9 + t.nanosec := by
  have hother : ∀ sec, t.toTime ≠ (StoredTime.ofFraction sec 0xffffffff).toTime := by
    intro sec heq
    have : t.fraction = 0xffffffff := congrArg Time.fraction heq
    omega
  exact (if_neg (hother _)).trans (if_neg (hother _))

def storedNanosec (rem : Int) : Nat :=
  let nanos := (rem % 2 ^ 32).toNat
  if 10 ^ 9 ≤ nanos then nanos % 10 ^ 9 else nanos

lemma storedNanosec_lt (rem : Int) : storedNanosec rem < 10 ^ 9 := by
  rw [storedNanosec]
  split_ifs with hle
  · exact Nat.mod_lt _ (by omega)
  · exact not_le.1 hle

/-- A negative remainder is wrapped and reduced to another number of nanoseconds. -/
theorem storedNanosec_eq_iff {rem : Int} (hlow : -10 ^ 9 < rem) (hhigh : rem < 10 ^ 9) :
    (storedNanosec rem : Int) = rem ↔ 0 ≤ rem := by
  constructor
  · intro heq
    omega
  · intro hnonneg
    have hsame : (rem % 2 ^ 32).toNat = rem.toNat := by omega
    simp only [storedNanosec, hsame]
    rw [if_neg (by omega)]
    omega

lemma tmod_nonneg_iff (x : Int) : 0 ≤ x.tmod (10 ^ 9) ↔ 0 ≤ x ∨ 10 ^ 9 ∣ x := by
  rw [Int.dvd_iff_tmod_eq_zero]
  constructor
  · intro hrem
    by_cases hx : 0 ≤ x
    · exact .inl hx
    · have hneg := Int.tmod_nonneg (a := -x) (10 ^ 9) (by omega)
      rw [Int.neg_tmod] at hneg
      exact .inr (by omega)
  · rintro (hx | hzero)
    · exact Int.tmod_nonneg _ hx
    · rw [hzero]

/-- `from_ns` gives the count back exactly if it is not negative or a whole number of seconds. -/
theorem fromNs_toNs_iff {x : Int} (hinfinite : x ≠ -1) (hinvalid : x ≠ -2)
    (hlow : -2 ^ 31 ≤ x.tdiv (10 ^ 9)) (hhigh : x.tdiv (10 ^ 9) < 2 ^ 31) (start : StoredTime) :
    ∃ t, (∀ fuel ≥ 2, start.fromNs fuel x = some t) ∧ (t.toNs = x ↔ 0 ≤ x ∨ 10 ^ 9 ∣ x) := by
  have hlt := storedNanosec_lt (x.tmod (10 ^ 9))
  refine ⟨⟨⟨x.tdiv (10 ^ 9), fractionOf (storedNanosec (x.tmod (10 ^ 9)))⟩,
    storedNanosec (x.tmod (10 ^ 9))⟩, fun fuel hfuel => ?_, ?_⟩
  · have hseconds : (x.tdiv (10 ^ 9)).bmod (2 ^ 32) = x.tdiv (10 ^ 9) :=
      Int.bmod_eq_of_le (by omega) (by omega)
    rw [StoredTime.fromNs, if_neg hinfinite, if_neg hinvalid, hseconds]
    exact setNanosec_eq hlt hfuel _
  · have hdiv := Int.tdiv_mul_add_tmod x (10 ^ 9)
    rw [toNs_eq (fractionOf_lt hlt), ← tmod_nonneg_iff,
      ← storedNanosec_eq_iff (Int.lt_tmod_of_pos x (by omega)) (Int.tmod_lt_of_pos x (by omega))]
    dsimp only
    omega

/-- A `Time_t` can be built exactly from the nanoseconds below a second, without losing them or
their order, and counts of nanoseconds come back exactly unless they are negative parts of a
second. -/
theorem time_conversions (time time' : DdsTime) (start : StoredTime) (x : Int) :
    (acceptsTimestamp time = true →
      ((∃ fuel, (StoredTime.ofDds fuel time).isSome = true) ↔ time.nanosec < 10 ^ 9)) ∧
    (time.nanosec < 10 ^ 9 → ∃ t, (∀ fuel ≥ 2, StoredTime.ofDds fuel time = some t) ∧
      t.seconds = time.seconds ∧ fracToNano t.fraction = time.nanosec) ∧
    (∀ (fuel fuel' : Nat) (t t' : StoredTime), time.nanosec < 10 ^ 9 → time'.nanosec < 10 ^ 9 →
      StoredTime.ofDds fuel time = some t → StoredTime.ofDds fuel' time' = some t' →
      time.lt time' = true → t.lt t'.toTime = true) ∧
    (x ≠ -1 → x ≠ -2 → -2 ^ 31 ≤ x.tdiv (10 ^ 9) → x.tdiv (10 ^ 9) < 2 ^ 31 →
      ∃ t, (∀ fuel ≥ 2, start.fromNs fuel x = some t) ∧ (t.toNs = x ↔ 0 ≤ x ∨ 10 ^ 9 ∣ x)) := by
  refine ⟨ofDds_returns_iff, fun hlt => ?_, ?_, fun hinfinite hinvalid hlow hhigh => ?_⟩
  · exact ⟨_, fun fuel hfuel => setNanosec_eq hlt hfuel _, rfl, fracToNano_fractionOf hlt⟩
  · intro fuel fuel' t t' hlt hlt' ht ht' hless
    have hstored := ofDds_eq hlt ht
    have hstored' := ofDds_eq hlt' ht'
    rw [hstored, hstored', Time.lt]
    rw [DdsTime.lt] at hless
    split_ifs at hless ⊢
    · rfl
    · exact decide_eq_true (fractionOf_strictMono (of_decide_eq_true hless))
  · exact fromNs_toNs_iff hinfinite hinvalid hlow hhigh start

theorem time_conversions_half :
    let time : DdsTime := ⟨1, 5 * 10 ^ 8, by omega, by omega⟩
    acceptsTimestamp time = true ∧
      ((∃ fuel, (StoredTime.ofDds fuel time).isSome = true) ↔ 5 * 10 ^ 8 < 10 ^ 9) ∧
      ∃ t, (∀ fuel ≥ 2, StoredTime.zero.fromNs fuel (-3) = some t) ∧
        (t.toNs = -3 ↔ (0 : Int) ≤ -3 ∨ (10 ^ 9 : Int) ∣ -3) := by
  intro time
  obtain ⟨hreturns, -, -, hcounts⟩ := time_conversions time time StoredTime.zero (-3)
  exact ⟨by decide, hreturns (by decide), hcounts (by omega) (by omega) (by decide) (by decide)⟩

/-- A whole second in the nanoseconds is let through, and no fraction is found for it; three
nanoseconds before the epoch come back as a time after it. -/
theorem whole_second_never_stored : acceptsTimestamp ⟨0, 10 ^ 9, by omega, by omega⟩ = true ∧
      (∀ fuel, StoredTime.ofDds fuel ⟨0, 10 ^ 9, by omega, by omega⟩ = none) ∧
      (StoredTime.zero.fromNs 2 (-3)).map StoredTime.toNs = some 294967293 :=
  ⟨by decide, fun fuel => setNanosec_none le_rfl (by decide) fuel _, by decide⟩

end EasyDds.Rtps
