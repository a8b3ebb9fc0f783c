import Mathlib.Algebra.Group.Nat.Defs
import Mathlib.Data.List.Basic
import Mathlib.Tactic.Common

/-!
Byte memory as a total map from addresses to bytes, with the block operations of C
(`memcpy` from a list, `memmove` inside the memory) and the byte images of fixed-width words.
`Matches` compares a region with a pattern in which some cells are left unspecified, as the
padding of an encoding is.
-/

namespace EasyDds

open List

abbrev Mem := Nat → UInt8

namespace Mem

def write (m : Mem) (i : Nat) (bs : List UInt8) : Mem := fun j =>
  if i ≤ j then (bs[j - i]?).getD (m j) else m j

def slice (m : Mem) (i n : Nat) : List UInt8 :=
  (range n).map fun k => m (i + k)

def move (m : Mem) (src dst n : Nat) : Mem :=
  m.write dst (m.slice src n)

variable (n k : Nat)

@[simp] lemma length_slice (m : Mem) (i n : Nat) : (m.slice i n).length = n := by simp [slice]

@[simp] lemma slice_zero (m : Mem) (i : Nat) : m.slice i 0 = [] := rfl

lemma getElem?_slice (m : Mem) (i n k : Nat) (hk : k < n) :
    (m.slice i n)[k]? = some (m (i + k)) := by
  simp [slice, hk]

variable {m : Mem} {i j : Nat} {bs : List UInt8} {cells : List (Option UInt8)}

lemma slice_congr {m' : Mem} {n : Nat} (h : ∀ k < n, m' (i + k) = m (i + k)) :
    m'.slice i n = m.slice i n := by
  refine map_congr_left fun k hk => h k (mem_range.mp hk)

lemma slice_add (m : Mem) (i n k : Nat) : m.slice i (n + k) = m.slice i n ++ m.slice (i + n) k := by
  simp [slice, range_add, Nat.add_assoc, Function.comp_def]

@[simp] lemma write_nil (m : Mem) (i : Nat) : m.write i [] = m := by
  funext j
  simp [write]

lemma write_of_lt (m : Mem) (bs : List UInt8) (h : j < i) : m.write i bs j = m j := by
  simp [write, Nat.not_le.mpr h]

lemma write_of_ge (m : Mem) (bs : List UInt8) (h : i + bs.length ≤ j) : m.write i bs j = m j := by
  have hnone : bs[j - i]? = none := getElem?_eq_none (by omega)
  simp [write, hnone]

lemma write_at (m : Mem) (i k : Nat) {b : UInt8} (h : bs[k]? = some b) :
    m.write i bs (i + k) = b := by
  simp [write, h]

lemma write_append (m : Mem) (i : Nat) (bs cs : List UInt8) :
    m.write i (bs ++ cs) = (m.write i bs).write (i + bs.length) cs := by
  funext j
  by_cases hlow : j < i + bs.length
  · rw [write_of_lt _ cs hlow]
    by_cases hi : i ≤ j
    · simp only [write, if_pos hi, getElem?_append_left (show j - i < bs.length by omega)]
    · simp only [write, if_neg hi]
  · have hi : i ≤ j := by omega
    have hj : i + bs.length ≤ j := by omega
    rw [show (m.write i bs).write (i + bs.length) cs j =
        (cs[j - (i + bs.length)]?).getD (m.write i bs j) by simp only [write, if_pos hj],
      write_of_ge m bs hj]
    simp only [write, if_pos hi]
    rw [getElem?_append_right (by omega), Nat.sub_sub]

lemma write_overwrite (m : Mem) (i : Nat) (as cs : List UInt8) {bs' : List UInt8}
    (h : bs'.length = bs.length) :
    (m.write i (as ++ (bs ++ cs))).write (i + as.length) bs' = m.write i (as ++ (bs' ++ cs)) := by
  funext j
  by_cases hlow : j < i + as.length
  · rw [write_of_lt _ _ hlow, write_append m i as (bs ++ cs), write_append m i as (bs' ++ cs),
      write_of_lt _ _ hlow, write_of_lt _ _ hlow]
  · obtain ⟨k, rfl⟩ := Nat.exists_eq_add_of_le (Nat.le_of_not_lt hlow)
    by_cases hmid : k < bs.length
    · obtain ⟨b, hb⟩ : ∃ b, bs'[k]? = some b := ⟨_, getElem?_eq_getElem (by omega)⟩
      have hright : (bs' ++ cs)[k]? = some b := by rw [getElem?_append_left (by omega), hb]
      rw [write_at _ _ k hb, write_append m i as, write_at _ _ k hright]
    · rw [write_of_ge _ _ (by omega), write_append m i as (bs ++ cs),
        write_append m i as (bs' ++ cs)]
      have hi : i + as.length ≤ i + as.length + k := by omega
      simp only [write, if_pos hi, Nat.add_sub_cancel_left]
      rw [getElem?_append_right (by omega), getElem?_append_right (by omega), h]

/-- The pattern `cells` holds from address `i` on; a `none` cell stands for any byte. -/
def Matches (m : Mem) (i : Nat) (cells : List (Option UInt8)) : Prop :=
  ∀ k b, cells[k]? = some (some b) → m (i + k) = b

@[simp] lemma matches_nil (m : Mem) (i : Nat) : Matches m i [] := by
  intro k b h
  simp at h

@[simp] lemma matches_padding (m : Mem) (i n : Nat) : Matches m i (replicate n none) := by
  intro k b h
  simp [getElem?_replicate] at h

lemma matches_append {c d : List (Option UInt8)} :
    Matches m i (c ++ d) ↔ Matches m i c ∧ Matches m (i + c.length) d := by
  constructor
  · intro h
    refine ⟨fun k b hk => h k b ?_, fun k b hk => ?_⟩
    · have hlt : k < c.length := (List.getElem?_eq_some_iff.mp hk).1
      rw [getElem?_append_left hlt, hk]
    · have hat : (c ++ d)[c.length + k]? = some (some b) := by
        rw [getElem?_append_right (by omega), Nat.add_sub_cancel_left, hk]
      rw [Nat.add_assoc]
      exact h (c.length + k) b hat
  · rintro ⟨hc, hd⟩ k b hk
    by_cases hlt : k < c.length
    · exact hc k b (by rwa [getElem?_append_left hlt] at hk)
    · rw [getElem?_append_right (by omega)] at hk
      have := hd (k - c.length) b hk
      rwa [show i + c.length + (k - c.length) = i + k by omega] at this

/-- A pattern only looks at its own addresses. -/
theorem Matches.congr {m' : Mem} (h : Matches m i cells)
    (hagree : ∀ k < cells.length, m' (i + k) = m (i + k)) : Matches m' i cells := by
  intro k b hk
  rw [hagree k (List.getElem?_eq_some_iff.mp hk).1]
  exact h k b hk

lemma matches_write (m : Mem) (i : Nat) (bs : List UInt8) :
    Matches (m.write i bs) i (bs.map some) := by
  intro k b hk
  refine write_at m i k ?_
  simpa using hk

/-- Writing what is already there changes nothing. -/
theorem write_of_matches (h : Matches m i (bs.map some)) : m.write i bs = m := by
  funext j
  unfold write
  split
  case isTrue hi =>
    rcases hb : bs[j - i]? with _ | b
    · rfl
    · have := h (j - i) b (by simp [hb])
      rw [show i + (j - i) = j by omega] at this
      simp [this]
  case isFalse => rfl

/-- Overwriting the bytes between the padding and the content of an image. -/
theorem matches_patch {k : Nat} (h : Matches m (i + k + bs.length) cells) :
    Matches (m.write (i + k) bs) i (replicate k none ++ bs.map some ++ cells) := by
  rw [append_assoc, matches_append, matches_append, length_replicate, length_map]
  refine ⟨matches_padding _ _ _, matches_write m (i + k) bs, h.congr fun j _ => ?_⟩
  exact write_of_ge m bs (by omega)

lemma slice_of_matches (h : Matches m i (bs.map some)) : m.slice i bs.length = bs := by
  refine ext_getElem? fun k => ?_
  by_cases hk : k < bs.length
  · rw [getElem?_slice m i _ k hk, h k bs[k] (by simp [hk])]
    simp [hk]
  · rw [getElem?_eq_none (by simp; omega), getElem?_eq_none (by omega)]

lemma slice_write_self (m : Mem) (i : Nat) (bs : List UInt8) :
    (m.write i bs).slice i bs.length = bs :=
  slice_of_matches (matches_write m i bs)

lemma move_of_lt (m : Mem) (src : Nat) {dst : Nat} (n : Nat) (h : j < dst) :
    m.move src dst n j = m j :=
  write_of_lt m _ h

lemma matches_move {src dst n : Nat} (h : Matches m src cells) (hn : cells.length ≤ n) :
    Matches (m.move src dst n) dst cells := by
  intro k b hk
  have hlt : k < cells.length := (List.getElem?_eq_some_iff.mp hk).1
  refine write_at m dst k ?_
  rw [getElem?_slice m src n k (by omega), h k b hk]

end Mem

def littleEndian : Nat → Nat → List UInt8
  | 0, _ => []
  | n + 1, x => UInt8.ofNat x :: littleEndian n (x / 256)

/-- The number whose bytes, least significant first, are `bs`. -/
def ofLittleEndian : List UInt8 → Nat
  | [] => 0
  | b :: bs => b.toNat + 256 * ofLittleEndian bs

variable (swap : Bool) (n x : Nat)

@[simp] lemma length_littleEndian : (littleEndian n x).length = n := by
  induction n generalizing x with
  | zero => rfl
  | succ n ih => simp [littleEndian, ih]

lemma ofLittleEndian_littleEndian : ofLittleEndian (littleEndian n x) = x % 256 ^ n := by
  induction n generalizing x with
  | zero => simp [littleEndian, ofLittleEndian, Nat.mod_one]
  | succ n ih =>
    have hbyte : (UInt8.ofNat x).toNat = x % 256 := by simp
    simp only [littleEndian, ofLittleEndian, ih, hbyte]
    rw [Nat.pow_succ', Nat.mod_mul]

lemma ofLittleEndian_lt (bs : List UInt8) : ofLittleEndian bs < 256 ^ bs.length := by
  induction bs with
  | nil => simp [ofLittleEndian]
  | cons b bs ih =>
    have hb : b.toNat < 256 := b.toNat_lt
    simp only [ofLittleEndian, length_cons, Nat.pow_succ]
    omega

/-- The byte image of a word of `n` bytes on a little-endian machine, reversed on request. -/
def wordBytes (swap : Bool) (n x : Nat) : List UInt8 :=
  if swap then (littleEndian n x).reverse else littleEndian n x

def ofWordBytes (swap : Bool) (bs : List UInt8) : Nat :=
  ofLittleEndian (if swap then bs.reverse else bs)

@[simp] lemma length_wordBytes : (wordBytes swap n x).length = n := by
  cases swap <;> simp [wordBytes]

@[simp] lemma ofWordBytes_wordBytes : ofWordBytes swap (wordBytes swap n x) = x % 256 ^ n := by
  cases swap <;> simp [ofWordBytes, wordBytes, ofLittleEndian_littleEndian]

@[simp] lemma length_flatMap_wordBytes (xs : List Nat) :
    (xs.flatMap (wordBytes swap n)).length = n * xs.length := by
  induction xs with
  | nil => rfl
  | cons x xs ih => simp only [flatMap_cons, length_append, length_wordBytes, ih,
      length_cons, Nat.mul_succ, Nat.add_comm]

lemma ofWordBytes_lt (bs : List UInt8) : ofWordBytes swap bs < 256 ^ bs.length := by
  cases swap
  · exact ofLittleEndian_lt bs
  · simpa [ofWordBytes] using ofLittleEndian_lt bs.reverse

end EasyDds
