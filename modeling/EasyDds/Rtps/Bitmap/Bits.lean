import EasyDds.Rtps.Bitmap.Range

/-!
What the word operations of a bitmap do to its single bits.
-/

namespace EasyDds.Rtps.Bitmap

def bit (m : Bitmap) (d : Nat) : Bool := (m.word (d / 32)).getMsbD (d % 32)

variable {m : Bitmap}

variable {d i : Nat}

lemma word_of_ge (h : 8 ≤ i) : m.word i = 0 := by simp [word, Vector.getElem?_eq_none h]

lemma bit_of_ge (h : 256 ≤ d) : m.bit d = false := by
  rw [bit, word_of_ge (by omega)]
  simp

@[simp] lemma word_zero (i : Nat) : zero.word i = 0 := by
  simp only [word, zero, Vector.getElem?_replicate]
  split <;> rfl

@[simp] lemma bit_zero (d : Nat) : zero.bit d = false := by simp [bit]

lemma word_setWord (m : Bitmap) (hi : i < 8) (w : BitVec 32) (j : Nat) :
    (m.setWord i w).word j = if i = j then w else m.word j := by
  simp only [word, setWord, Vector.getElem?_setIfInBounds]
  split
  · simp
  · rfl

lemma word_ofFn (f : Fin 8 → BitVec 32) (hi : i < 8) : word (Vector.ofFn f) i = f ⟨i, hi⟩ := by
  simp [word, hi]

lemma bit_mul_add (m : Bitmap) (i : Nat) {j : Nat} (hj : j < 32) :
    m.bit (32 * i + j) = (m.word i).getMsbD j := by
  have hdiv : (32 * i + j) / 32 = i := by omega
  have hmod : (32 * i + j) % 32 = j := by omega
  rw [bit, hdiv, hmod]

lemma exists_mul_add (d : Nat) : ∃ i j, j < 32 ∧ d = 32 * i + j :=
  ⟨d / 32, d % 32, by omega, by omega⟩

lemma getMsbD_mask (hd : d < 32) (i : Nat) : (mask d).getMsbD i = decide (i = d) := by
  rw [mask, BitVec.getMsbD_shiftLeft, BitVec.getMsbD_one]
  by_cases h : i = d
  · subst h
    have hsum : i + (31 - i) = 31 := by omega
    simp [hsum]
  · have hsum : i + (31 - d) ≠ 31 := by omega
    simp [h, hsum]

lemma and_mask_ne_zero {w : BitVec 32} (hd : d < 32) :
    decide (w &&& mask d ≠ 0) = w.getMsbD d := by
  cases hset : w.getMsbD d with
  | true =>
    have hbit : (w &&& mask d).getMsbD d = true := by
      rw [BitVec.getMsbD_and, getMsbD_mask hd, hset]
      simp
    rw [decide_eq_true_eq]
    intro hzero
    simp [hzero] at hbit
  | false =>
    rw [decide_eq_false_iff_not, not_not]
    refine BitVec.eq_of_getMsbD_eq fun i hi => ?_
    rw [BitVec.getMsbD_and, getMsbD_mask hd]
    by_cases h : i = d
    · simp [h, hset]
    · simp [h]

/-- Setting the word of a bit changes the bits of this word, and no others. -/
theorem bit_setWord (m : Bitmap) (hd : d < 256) {w : BitVec 32} (e : Nat) :
    (m.setWord (d / 32) w).bit e =
      if e / 32 = d / 32 then w.getMsbD (e % 32) else m.bit e := by
  rw [bit, word_setWord m (by omega)]
  by_cases h : e / 32 = d / 32
  · simp [h]
  · simp [h, Ne.symm h, bit]

lemma bit_setBit (m : Bitmap) (hd : d < 256) (e : Nat) :
    (m.setWord (d / 32) (m.word (d / 32) ||| mask (d % 32))).bit e =
      (m.bit e || decide (e = d)) := by
  rw [bit_setWord m hd]
  split
  case isTrue h =>
    have hiff : e % 32 = d % 32 ↔ e = d := by omega
    rw [BitVec.getMsbD_or, getMsbD_mask (by omega), bit, h]
    simp [hiff]
  case isFalse h =>
    have hne : e ≠ d := fun heq => h (by rw [heq])
    simp [hne]

/-- The highest set bit below a word, seen from above: `k` is the place after it. -/
structure TopBit (m : Bitmap) (low high k : Nat) : Prop where
  le : k ≤ high
  set : k ≠ 0 → m.bit (k - 1) = true
  clear : ∀ d, low ≤ d → k ≤ d → d < high → m.bit d = false

lemma topBit_calcMaximumBitSet (m : Bitmap) (minIndex starting : Nat) :
    TopBit m (32 * minIndex) (32 * starting) (m.calcMaximumBitSet minIndex starting) := by
  induction starting with
  | zero => exact ⟨Nat.le_refl _, by simp [calcMaximumBitSet], by omega⟩
  | succ i ih =>
    rw [calcMaximumBitSet]
    split
    case isFalse => exact ⟨by omega, by simp, by omega⟩
    case isTrue =>
      dsimp only
      split
      case isTrue hbits =>
        have hlast := lastBit_leadingZeros hbits
        have hlt := hlast.lt
        refine ⟨by omega, fun _ => ?_, fun d _ hk hd => ?_⟩
        · rw [← Nat.add_assoc, Nat.add_sub_cancel, bit_mul_add _ _ hlt]
          exact hlast.set
        · obtain ⟨j, rfl⟩ := Nat.exists_eq_add_of_le (show 32 * i ≤ d by omega)
          rw [bit_mul_add _ _ (by omega)]
          exact hlast.clear j (by omega)
      case isFalse hbits =>
        have hzero : m.word i = 0 := not_not.mp hbits
        refine ⟨by have := ih.le; omega, ih.set, fun d hlow hk hd => ?_⟩
        by_cases hin : d < 32 * i
        · exact ih.clear d hlow hk hin
        · obtain ⟨j, rfl⟩ := Nat.exists_eq_add_of_le (show 32 * i ≤ d by omega)
          rw [bit_mul_add _ _ (by omega), hzero]
          simp

lemma getMsbD_allOnes_ushiftRight (n : Nat) (hi : i < 32) :
    (BitVec.allOnes 32 >>> n).getMsbD i = decide (n ≤ i) := by
  rw [BitVec.getMsbD_ushiftRight, BitVec.getMsbD_allOnes]
  by_cases h : n ≤ i
  · have hlt : ¬ i < n := by omega
    have hsub : i - n < 32 := by omega
    simp [h, hlt, hi, hsub]
  · have hlt : i < n := by omega
    simp [h, hlt]

lemma getMsbD_allOnes_shiftLeft (n i : Nat) :
    (BitVec.allOnes 32 <<< n).getMsbD i = decide (i + n < 32) := by
  rw [BitVec.getMsbD_shiftLeft, BitVec.getMsbD_allOnes]

/-- The masks of `add_range` set the `nBits` bits from the first bit of the current mask on. The
induction is on the words: every mask but the first starts at its top bit. -/
theorem bit_addMasks (m : Bitmap) (pos nBits width fuel : Nat) (hwidth : 0 < width ∧ width ≤ 32)
    (hend : 32 * pos + (32 - width) + nBits ≤ 256) (hfuel : nBits + (32 - width) < 32 * fuel)
    (e : Nat) : (m.addMasks pos nBits (BitVec.allOnes 32 >>> (32 - width)) width fuel).bit e =
      (m.bit e || decide (32 * pos + (32 - width) ≤ e ∧ e < 32 * pos + (32 - width) + nBits)) := by
  induction fuel generalizing m pos nBits width with
  | zero => omega
  | succ fuel ih =>
    rw [addMasks]
    have hpos : 0 < nBits → pos < 8 := by omega
    have hmod : e % 32 < 32 := by omega
    split
    case isTrue hle =>
      have hdiv : 32 * pos / 32 = pos := by omega
      have hset := bit_setWord m (d := 32 * pos) (by omega)
        (w := m.word pos ||| BitVec.allOnes 32 >>> (32 - width)) e
      rw [hdiv] at hset
      have hnext := ih (m.setWord pos (m.word pos ||| BitVec.allOnes 32 >>> (32 - width)))
        (pos + 1) (nBits - width) 32 (by omega) (by omega) (by omega)
      rw [Nat.sub_self, BitVec.ushiftRight_zero] at hnext
      rw [hnext, hset]
      split
      case isTrue heq =>
        rw [BitVec.getMsbD_or, getMsbD_allOnes_ushiftRight _ hmod, bit, heq, Bool.or_assoc,
          ← Bool.decide_or]
        congr 2
        rw [eq_iff_iff]
        omega
      case isFalse hne =>
        congr 2
        rw [eq_iff_iff]
        omega
    case isFalse hlt =>
      split
      case isTrue hpos =>
        have hdiv : 32 * pos / 32 = pos := by omega
        have hset := bit_setWord m (d := 32 * pos) (by omega)
          (w := m.word pos ||| BitVec.allOnes 32 >>> (32 - width) &&&
            BitVec.allOnes 32 <<< (width - nBits)) e
        rw [hdiv] at hset
        rw [hset]
        split
        case isTrue heq =>
          rw [BitVec.getMsbD_or, BitVec.getMsbD_and, getMsbD_allOnes_ushiftRight _ hmod,
            getMsbD_allOnes_shiftLeft, bit, heq, ← Bool.decide_and]
          congr 2
          rw [eq_iff_iff]
          omega
        case isFalse hne =>
          have hout : ¬ (32 * pos + (32 - width) ≤ e ∧ e < 32 * pos + (32 - width) + nBits) := by
            omega
          simp [hout]
      case isFalse hzero =>
        have hout : ¬ (32 * pos + (32 - width) ≤ e ∧ e < 32 * pos + (32 - width) + nBits) := by
          omega
        simp [hout]

end EasyDds.Rtps.Bitmap
