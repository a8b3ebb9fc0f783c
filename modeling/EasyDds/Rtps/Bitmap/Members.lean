import EasyDds.Rtps.Bitmap.Bits
import Mathlib.Data.List.Sort

/-!
A range as a set of distances from its base, and what its operations do to that set.
-/

namespace EasyDds.Rtps

open Bitmap List

open RangeItem

/-- The 256 items from `base` on exist and are told apart by their distance. -/
structure Window {T : Type} [RangeItem T] (base : T) : Prop where
  within : ∀ x, ∀ k < 256, le base x = true → le x (plus base k) = true → ∃ d ≤ k, x = plus base d
  le_plus : ∀ d < 256, le base (plus base d) = true
  plus_le_plus : ∀ d < 256, ∀ e < 256, le (plus base d) (plus base e) = decide (d ≤ e)
  diff_plus : ∀ d < 256, diff (plus base d) base = d
  plus_plus : ∀ d e, plus (plus base d) e = plus base (d + e)

/-- Sequence numbers do not wrap: a sum that leaves 64 bits is told by `inRange`, so every number
starts a window. -/
theorem window_int (base : Int) : Window base where
  within x k hk hlow hhigh := by
    simp only [le, plus, decide_eq_true_eq] at hlow hhigh ⊢
    exact ⟨(x - base).toNat, by omega, by omega⟩
  le_plus d hd := by
    simp only [le, plus, decide_eq_true_eq]
    omega
  plus_le_plus d hd e he := by
    simp only [le, plus, decide_eq_decide]
    omega
  diff_plus d hd := by
    simp only [diff, plus]
    omega
  plus_plus d e := by
    simp only [plus]
    omega

/-- Fragment numbers whose window does not pass `2^32`. -/
theorem window_nat {base : Nat} (h : base + 255 < 2 ^ 32) : Window base where
  within x k hk hlow hhigh := by
    simp only [le, plus, decide_eq_true_eq] at hlow hhigh ⊢
    exact ⟨x - base, by omega, by omega⟩
  le_plus d hd := by
    simp only [le, plus, decide_eq_true_eq]
    omega
  plus_le_plus d hd e he := by
    simp only [le, plus, decide_eq_decide]
    omega
  diff_plus d hd := by
    simp only [diff, plus]
    omega
  plus_plus d e := by
    simp only [plus]
    omega

namespace BitmapRange

variable {T : Type} [RangeItem T] {r : BitmapRange T}

def has (r : BitmapRange T) (d : Nat) : Bool := r.bitmap.bit d

/-- What all operations keep: the bits in use lie below `numBits` and inside the window. -/
structure WellFormed (r : BitmapRange T) : Prop where
  numBits_le : r.numBits ≤ 256
  clear : ∀ d, r.numBits ≤ d → r.has d = false
  rangeMax_eq : ∃ k < 256, r.rangeMax = plus r.base k
  inside : ∀ d, r.has d = true → le (plus r.base d) r.rangeMax = true

def Open (r : BitmapRange T) : Prop := r.rangeMax = plus r.base 255

def Exact (r : BitmapRange T) : Prop := r.numBits ≠ 0 → r.has (r.numBits - 1) = true

variable {d : Nat}

lemma WellFormed.lt_numBits (h : r.WellFormed) (hd : r.has d = true) : d < r.numBits := by
  by_contra hge
  simp [h.clear d (Nat.le_of_not_lt hge)] at hd

lemma WellFormed.lt_window (h : r.WellFormed) (hd : r.has d = true) : d < 256 :=
  Nat.lt_of_lt_of_le (h.lt_numBits hd) h.numBits_le

omit [RangeItem T] in
lemma has_of_ge (h : 256 ≤ d) : r.has d = false := bit_of_ge h

/-- An open range is well formed if no bit is set from `numBits` on. -/
theorem WellFormed.of_open (hw : Window r.base) (hopen : r.Open) (hle : r.numBits ≤ 256)
    (hclear : ∀ d, r.numBits ≤ d → r.has d = false) : r.WellFormed where
  numBits_le := hle
  clear := hclear
  rangeMax_eq := ⟨255, by omega, hopen⟩
  inside d hd := by
    have hlt : d < 256 := by
      by_contra hge
      simp [has_of_ge (Nat.le_of_not_lt hge)] at hd
    rw [hopen, hw.plus_le_plus d hlt 255 (by omega)]
    exact decide_eq_true (by omega)

@[simp] lemma has_setBase (base : T) (d : Nat) : (setBase base).has d = false :=
  bit_zero d

lemma open_setBase (base : T) : (setBase base).Open := rfl

lemma exact_setBase (base : T) : (setBase base).Exact := fun h => absurd rfl h

lemma wellFormed_setBase {base : T} (hw : Window base) : (setBase base).WellFormed :=
  .of_open hw rfl (Nat.zero_le _) fun d _ => has_setBase base d

lemma isSet_iff (hw : Window r.base) (h : r.WellFormed) (x : T) :
    r.isSet x = true ↔ ∃ d, r.has d = true ∧ x = plus r.base d := by
  rw [isSet]
  constructor
  · intro hset
    split at hset
    case isFalse => cases hset
    case isTrue hin =>
      rw [Bool.and_eq_true] at hin
      obtain ⟨k, hk, hmax⟩ := h.rangeMax_eq
      obtain ⟨d, hd, rfl⟩ := hw.within x k hk hin.1 (hmax ▸ hin.2)
      rw [hw.diff_plus d (by omega)] at hset
      dsimp only at hset
      split at hset
      case isFalse => cases hset
      case isTrue =>
        rw [and_mask_ne_zero (Nat.mod_lt _ (by omega))] at hset
        exact ⟨d, hset, rfl⟩
  · rintro ⟨d, hd, rfl⟩
    have hlt := h.lt_window hd
    rw [if_pos (by rw [hw.le_plus d hlt, h.inside d hd]; rfl), hw.diff_plus d hlt,
      if_pos (h.lt_numBits hd), and_mask_ne_zero (Nat.mod_lt _ (by omega))]
    exact hd

section Add

variable {d : Nat}

lemma add_eq (hw : Window r.base) (hopen : r.Open) (hd : d < 256) : r.add (plus r.base d) = { r with
      numBits := Max.max (d + 1) r.numBits
      bitmap := r.bitmap.setWord (d / 32) (r.bitmap.word (d / 32) ||| mask (d % 32)) } := by
  have hin : le (plus r.base d) r.rangeMax = true := by
    rw [hopen, hw.plus_le_plus d hd 255 (by omega)]
    exact decide_eq_true (by omega)
  rw [add, hw.le_plus d hd, hin, hw.diff_plus d hd]
  rfl

@[simp] lemma base_add (r : BitmapRange T) (x : T) : (r.add x).base = r.base := by
  rw [add]
  split <;> rfl

lemma Open.add (hopen : r.Open) (x : T) : (r.add x).Open := by
  rw [BitmapRange.add]
  split <;> exact hopen

lemma has_add (hw : Window r.base) (hopen : r.Open) (hd : d < 256) (e : Nat) :
    (r.add (plus r.base d)).has e = (r.has e || decide (e = d)) := by
  rw [add_eq hw hopen hd]
  exact bit_setBit r.bitmap hd e

lemma WellFormed.add (hw : Window r.base) (h : r.WellFormed) (hopen : r.Open) (hd : d < 256) :
    (r.add (plus r.base d)).WellFormed := by
  have hbits : (r.add (plus r.base d)).numBits = Max.max (d + 1) r.numBits := by
    rw [add_eq hw hopen hd]
  have hle := h.numBits_le
  refine .of_open (by rwa [base_add]) (hopen.add _) (by omega) fun e he => ?_
  rw [has_add hw hopen hd, h.clear e (by omega)]
  simp
  omega

end Add

section AddRange

/-- `add_range` between the distances `a` and `b`, once the ends have been cut to the window. -/
theorem addRange_eq (first last : T) {a b : Nat}
    (hlo : (if le first r.base then r.base else first) = plus r.base a)
    (hhi : (if le (plus r.base 256) last then plus r.base 256 else last) = plus r.base b)
    (hle : le (plus r.base b) (plus r.base a) = decide (b ≤ a))
    (hoff : diff (plus r.base a) r.base = a) (hdiff : diff (plus r.base b) (plus r.base a) =
      b - a) :
    r.addRange first last = if b ≤ a then r else { r with
      numBits := Max.max r.numBits (a + (b - a))
      bitmap := r.bitmap.addMasks (a / 32) (b - a) (BitVec.allOnes 32 >>> (a % 32))
        (32 - a % 32) 9 } := by
  simp only [addRange, hlo, hhi, hle, hoff, hdiff, decide_eq_true_eq]

variable {first last : T} {a b : Nat} (heq : r.addRange first last = if b ≤ a then r else { r with
      numBits := Max.max r.numBits (a + (b - a))
      bitmap := r.bitmap.addMasks (a / 32) (b - a) (BitVec.allOnes 32 >>> (a % 32))
        (32 - a % 32) 9 })
include heq

lemma has_addRange_of_eq (hb : b ≤ 256) (e : Nat) :
    (r.addRange first last).has e = (r.has e || decide (a ≤ e ∧ e < b)) := by
  rw [heq]
  split
  case isTrue hle =>
    have hnone : ¬ (a ≤ e ∧ e < b) := by omega
    simp [hnone]
  case isFalse hlt =>
    have hshift : a % 32 = 32 - (32 - a % 32) := by omega
    have hmasks := bit_addMasks r.bitmap (a / 32) (b - a) (32 - a % 32) 9 (by omega)
      (by omega) (by omega) e
    rw [← hshift] at hmasks
    refine hmasks.trans ?_
    congr 2
    rw [eq_iff_iff]
    omega

lemma numBits_addRange_of_eq (hab : ¬ b ≤ a) :
    (r.addRange first last).numBits = Max.max r.numBits b := by
  rw [heq, if_neg hab]
  change Max.max r.numBits (a + (b - a)) = _
  congr 1
  omega

lemma base_addRange_of_eq : (r.addRange first last).base = r.base := by
  rw [heq]
  split <;> rfl

lemma open_addRange_of_eq (hopen : r.Open) : (r.addRange first last).Open := by
  rw [heq]
  split <;> exact hopen

lemma wellFormed_addRange_of_eq (hw : Window r.base) (h : r.WellFormed) (hopen : r.Open)
    (hb : b ≤ 256) : (r.addRange first last).WellFormed := by
  by_cases hab : b ≤ a
  · rwa [heq, if_pos hab]
  have hbits := numBits_addRange_of_eq heq hab
  have hle := h.numBits_le
  refine .of_open ?_ (open_addRange_of_eq heq hopen) (by omega) fun e he => ?_
  · rwa [base_addRange_of_eq heq]
  · have hout : ¬ (a ≤ e ∧ e < b) := by omega
    rw [has_addRange_of_eq heq hb, h.clear e (by omega)]
    simp [hout]

lemma exact_addRange_of_eq (hexact : r.Exact) (hb : b ≤ 256) : (r.addRange first last).Exact := by
  by_cases hab : b ≤ a
  · rwa [heq, if_pos hab]
  intro _
  rw [numBits_addRange_of_eq heq hab, has_addRange_of_eq heq hb]
  by_cases hmax : r.numBits ≤ b
  · have hin : a ≤ b - 1 ∧ b - 1 < b := by omega
    simp [Nat.max_eq_right hmax, hin]
  · rw [Nat.max_eq_left (by omega), hexact (by omega)]
    rfl

end AddRange

lemma max_eq (h : r.WellFormed) (hne : r.numBits ≠ 0) : r.max = plus r.base (r.numBits - 1) := by
  have hle := h.numBits_le
  have hwrap : (r.numBits + 2 ^ 32 - 1) % 2 ^ 32 = r.numBits - 1 := by omega
  rw [max, hwrap]

section ForEach

lemma itemsFrom_eq (hw : Window r.base) (item : T) {i n : Nat}
    (hitem : ∀ d, plus item d = plus r.base (32 * i + d)) : itemsFrom r item i n =
      ((List.range (32 * n)).filter fun d => r.has (32 * i + d)).map
        fun d => plus r.base (32 * i + d) := by
  induction n generalizing item i with
  | zero => rfl
  | succ n ih =>
    have hstep : ∀ d, plus (plus item 32) d = plus r.base (32 * (i + 1) + d) := by
      intro d
      rw [hitem, hw.plus_plus, Nat.mul_succ]
    rw [itemsFrom, drainBits_word, ih _ hstep, show 32 * (n + 1) = 32 + 32 * n by omega,
      range_add, filter_append, map_append, filter_map, map_map]
    congr 1
    · have hword : ∀ d ∈ List.range 32, (r.bitmap.word i).getMsbD d = r.has (32 * i + d) :=
        fun d hd => (bit_mul_add _ _ (mem_range.mp hd)).symm
      rw [filter_congr hword]
      exact map_congr_left fun d _ => hitem d
    · have hshift : ∀ d, 32 * (i + 1) + d = 32 * i + (32 + d) := by
        intro d
        omega
      simp only [hshift, Function.comp_def]

/-- `for_each` visits the items in the order of their distances. -/
theorem forEach_eq (hw : Window r.base) (h : r.WellFormed) :
    r.forEach = ((List.range 256).filter r.has).map (plus r.base) := by
  have hle := h.numBits_le
  have hitems := itemsFrom_eq (i := 0) (n := r.nLongs) hw r.base (by simp)
  simp only [Nat.mul_zero, Nat.zero_add] at hitems
  rw [forEach, hitems]
  congr 1
  -- The words that are not visited hold no bits.
  obtain ⟨k, hk⟩ : ∃ k, 256 = 32 * r.nLongs + k := ⟨256 - 32 * r.nLongs, by rw [nLongs]; omega⟩
  rw [hk, range_add, filter_append]
  have hrest : ((List.range k).map (32 * r.nLongs + ·)).filter r.has = [] := by
    rw [filter_eq_nil_iff]
    intro d hd
    obtain ⟨j, -, rfl⟩ := mem_map.mp hd
    have hout := h.clear (32 * r.nLongs + j) (by rw [nLongs]; omega)
    simp [hout]
  rw [hrest, append_nil]

lemma mem_forEach (hw : Window r.base) (h : r.WellFormed) (x : T) :
    x ∈ r.forEach ↔ r.isSet x = true := by
  rw [isSet_iff hw h, forEach_eq hw h]
  simp only [mem_map, mem_filter, mem_range]
  constructor
  · rintro ⟨d, ⟨-, hd⟩, rfl⟩
    exact ⟨d, hd, rfl⟩
  · rintro ⟨d, hd, rfl⟩
    exact ⟨d, ⟨h.lt_window hd, hd⟩, rfl⟩

/-- `for_each` visits every item once, in increasing order. -/
theorem forEach_increasing (hw : Window r.base) (h : r.WellFormed) :
    r.forEach.Pairwise fun x y => le y x = false := by
  rw [forEach_eq hw h, pairwise_map]
  refine ((pairwise_lt_range.filter r.has).imp_of_mem ?_)
  intro d e hd he hlt
  rw [mem_filter, mem_range] at hd he
  rw [hw.plus_le_plus e he.1 d hd.1]
  simpa using hlt

lemma sumsFrom_int {r : BitmapRange Int} {item : Int} {i n : Nat} (h : item + 32 * n < 2 ^ 63) :
    sumsFrom r item i n = true := by
  induction n generalizing item i with
  | zero => rfl
  | succ n ih =>
    simp only [sumsFrom, Bool.and_eq_true, all_eq_true, drainBits_word, mem_filter, mem_range,
      inRange, decide_eq_true_eq]
    refine ⟨⟨fun d hd => by omega, by omega⟩, ih ?_⟩
    simp only [plus]
    omega

lemma forEachAsserts_nat (r : BitmapRange Nat) : r.forEachAsserts = true := by
  have hsums : ∀ n item i, sumsFrom r item i n = true := by
    intro n
    induction n with
    | zero => exact fun _ _ => rfl
    | succ n ih =>
      intro item i
      simp [sumsFrom, inRange, ih]
  exact hsums _ _ _

end ForEach

section BitmapSet

variable {m : Bitmap} {n : Nat} {words : List (BitVec 32)}

omit [RangeItem T] in
lemma word_bitmapSet (r : BitmapRange T) (hn : n ≤ 256)
    (hwords : ∀ i < (n + 31) / 32, words[i]? = some (m.word i)) {i : Nat} (hi : i < 8) :
    (r.bitmapSet n words).bitmap.word i =
      if i < (n + 31) / 32 then
        if n % 32 ≠ 0 ∧ i = n / 32 then m.word i &&& ~~~(BitVec.allOnes 32 >>> (n % 32))
        else m.word i
      else 0 := by
  have hcopied : ∀ j < 8, word (Vector.ofFn fun i : Fin 8 =>
      if i.val < (n + 31) / 32 then words[i.val]?.getD 0 else 0) j =
        if j < (n + 31) / 32 then m.word j else 0 := by
    intro j hj
    rw [word_ofFn _ hj]
    split
    case isTrue hlt => rw [hwords j hlt, Option.getD_some]
    case isFalse => rfl
  simp only [bitmapSet, Nat.min_eq_left hn]
  split
  case isTrue hcut =>
    have hlast : (n + 31) / 32 - 1 = n / 32 := by omega
    rw [hlast, word_setWord _ (by omega), hcopied i hi, hcopied (n / 32) (by omega),
      if_pos (show n / 32 < (n + 31) / 32 by omega)]
    by_cases hi' : n / 32 = i
    · subst hi'
      rw [if_pos rfl, if_pos (by omega), if_pos ⟨hcut.2, rfl⟩]
    · have hother : ¬ (n % 32 ≠ 0 ∧ i = n / 32) := fun h => hi' h.2.symm
      rw [if_neg hi', if_neg hother]
  case isFalse hwhole =>
    rw [hcopied i hi]
    split
    case isTrue hlt => rw [if_neg (by omega)]
    case isFalse => rfl

omit [RangeItem T] in
/-- `bitmap_set` keeps the first `n` of the bits it is given. -/
theorem has_bitmapSet (r : BitmapRange T) (hn : n ≤ 256)
    (hwords : ∀ i < (n + 31) / 32, words[i]? = some (m.word i)) (d : Nat) :
    (r.bitmapSet n words).has d = (decide (d < n) && m.bit d) := by
  by_cases hd : d < 256
  case neg => rw [has_of_ge (by omega), bit_of_ge (by omega), Bool.and_false]
  obtain ⟨i, j, hj, rfl⟩ := exists_mul_add d
  rw [has, bit_mul_add _ _ hj, bit_mul_add _ _ hj, word_bitmapSet r hn hwords (by omega)]
  split
  case isTrue hlt =>
    split
    case isTrue hlast =>
      have hcut : decide (32 * i + j < n) = !decide (n % 32 ≤ j) := by
        rw [← decide_not, decide_eq_decide]
        omega
      rw [BitVec.getMsbD_and, BitVec.getMsbD_not, getMsbD_allOnes_ushiftRight _ hj, hcut]
      simp [hj, Bool.and_comm]
    case isFalse hmid =>
      have hin : 32 * i + j < n := by omega
      simp [hin]
  case isFalse hout =>
    have hin : ¬ 32 * i + j < n := by omega
    simp [hin]

omit [RangeItem T] in
lemma exact_bitmapSet (r : BitmapRange T) (n : Nat) (words : List (BitVec 32)) :
    (r.bitmapSet n words).Exact :=
  (topBit_calcMaximumBitSet (r.bitmapSet n words).bitmap 0 ((Min.min n 256 + 31) / 32)).set

omit [RangeItem T] in
/-- The number of bits after `bitmap_set` stands right after the last of them. -/
theorem topBit_bitmapSet (r : BitmapRange T) (hn : n ≤ 256)
    (hwords : ∀ i < (n + 31) / 32, words[i]? = some (m.word i)) :
    (r.bitmapSet n words).numBits ≤ 256 ∧
      ∀ d, (r.bitmapSet n words).numBits ≤ d → (r.bitmapSet n words).has d = false := by
  have htop := topBit_calcMaximumBitSet (r.bitmapSet n words).bitmap 0 ((Min.min n 256 + 31) / 32)
  have hbits : (r.bitmapSet n words).numBits =
      (r.bitmapSet n words).bitmap.calcMaximumBitSet 0 ((Min.min n 256 + 31) / 32) := rfl
  have hle := htop.le
  refine ⟨by omega, fun d hd => ?_⟩
  by_cases hin : d < 32 * ((Min.min n 256 + 31) / 32)
  · exact htop.clear d (by omega) hd hin
  · have hout : ¬ d < n := by omega
    rw [has_bitmapSet r hn hwords d]
    simp [hout]

end BitmapSet

section FragmentNumbers

variable {r : BitmapRange Nat}

variable {base : Nat}

lemma plus_nat (h : base + d < 2 ^ 32) : plus base d = base + d :=
  Nat.mod_eq_of_lt h

lemma add_nat_of_gt (hbase : r.base + 255 < 2 ^ 32) (hopen : r.Open) {x : Nat}
    (hx : r.base + 255 < x) : r.add x = r := by
  have hout : le x r.rangeMax = false := by
    rw [hopen, plus_nat hbase]
    exact decide_eq_false (by omega)
  rw [add, hout, Bool.and_false]
  rfl

structure Collects (r : BitmapRange Nat) (base : Nat) (items : List Nat) : Prop where
  base_eq : r.base = base
  isOpen : r.Open
  wellFormed : r.WellFormed
  has_eq : ∀ d < 256, r.has d = decide (base + d ∈ items)

lemma collects_foldl_add (hbase : base + 255 < 2 ^ 32) {done items : List Nat}
    (hr : r.Collects base done) (hitems : ∀ x ∈ items, base ≤ x) :
    (items.foldl add r).Collects base (done ++ items) := by
  induction items generalizing r done with
  | nil => simpa using hr
  | cons x items ih =>
    obtain ⟨hb, hopen, hwf, hhas⟩ := hr
    have hw : Window r.base := hb ▸ window_nat hbase
    have hx := hitems x (by simp)
    rw [foldl_cons, append_cons done x items]
    refine ih ?_ fun y hy => hitems y (by simp [hy])
    by_cases hin : x ≤ base + 255
    · obtain ⟨e, rfl⟩ := Nat.exists_eq_add_of_le hx
      have hplus : base + e = plus r.base e := by rw [hb, plus_nat (by omega)]
      have he : e < 256 := by omega
      rw [hplus]
      refine ⟨by rw [base_add, hb], hopen.add _, hwf.add hw hopen he, fun d hd => ?_⟩
      rw [has_add hw hopen he, hhas d hd, ← Bool.decide_or, decide_eq_decide, ← hplus,
        mem_append, mem_singleton, Nat.add_left_cancel_iff]
    · rw [add_nat_of_gt (by rwa [hb]) hopen (by omega)]
      refine ⟨hb, hopen, hwf, fun d hd => ?_⟩
      have hne : base + d ≠ x := by omega
      rw [hhas d hd, decide_eq_decide, mem_append, mem_singleton]
      simp [hne]

/-- The set lists the collected fragments that lie inside its window. -/
theorem Collects.forEach_eq (hbase : base + 255 < 2 ^ 32) {items : List Nat}
    (hr : r.Collects base items) (hitems : ∀ x ∈ items, base ≤ x)
    (hsorted : items.Pairwise (· < ·)) : r.forEach = items.filter (· < base + 256) := by
  obtain ⟨hb, hopen, hwf, hhas⟩ := hr
  have hw : Window r.base := hb ▸ window_nat hbase
  have hincreasing : r.forEach.Pairwise (· < ·) := by
    refine (forEach_increasing hw hwf).imp fun {x y} hle => ?_
    simpa [le] using hle
  refine hincreasing.eq_of_mem_iff (hsorted.sublist filter_sublist) fun x => ?_
  rw [mem_forEach hw hwf, isSet_iff hw hwf, mem_filter, decide_eq_true_eq, hb]
  constructor
  · rintro ⟨d, hd, rfl⟩
    have hlt := hwf.lt_window hd
    rw [hhas d hlt, decide_eq_true_eq] at hd
    rw [plus_nat (by omega)]
    exact ⟨hd, by omega⟩
  · rintro ⟨hx, hlt⟩
    obtain ⟨d, rfl⟩ := Nat.exists_eq_add_of_le (hitems x hx)
    refine ⟨d, ?_, (plus_nat (by omega)).symm⟩
    rw [hhas d (by omega)]
    exact decide_eq_true hx

end FragmentNumbers

end BitmapRange

end EasyDds.Rtps
