import Mathlib.Algebra.Order.Ring.Int
import Mathlib.Data.Char
import Mathlib.Data.List.Lex
import EasyDds.Dds.Filter.Value

/-!
The order of the values of a filter. CHARs are compared as signed numbers, the characters of
STRINGs as unsigned ones.
-/

namespace EasyDds.Dds.Filter.Value

open Option

variable {F : Type}

def integer : Value F → Option Int
  | boolean b => some b.toInt
  | enum i | signedInteger i => some i
  | unsignedInteger n => some n
  | _ => none

def IsText : Value F → Prop
  | char c => c.toNat < 256
  | string _ => True
  | _ => False

def text : Value F → Text
  | char c => charText c
  | string s => s
  | _ => []

lemma compareNumbers_eq_sign (x y : Int) : compareNumbers x y = (x - y).sign := by
  rw [compareNumbers, compareValues]
  rcases lt_trichotomy x y with h | rfl | h
  · simp [h, Int.sign_eq_neg_one_of_neg (by omega : x - y < 0)]
  · simp
  · simp [h, Int.not_lt.mpr h.le, Int.sign_eq_one_of_pos (by omega : 0 < x - y)]

variable [LongDouble F] {a b c : Value F}

lemma comparePromoted_unsigned_integer (n : Nat) (i : Int) :
    (if decide (i < 0) then some 1 else some (compareNumbers n i.toNat)) =
      some (n - i : Int).sign := by
  split_ifs with hneg
  · rw [Int.sign_eq_one_of_pos (by simp at hneg; omega)]
  · rw [compareNumbers_eq_sign, Int.toNat_of_nonneg (by simpa using hneg)]

lemma comparePromoted_integers {x y : Int} (ha : a.integer = some x) (hb : b.integer = some y)
    (hkind : b.kind.ctorIdx < a.kind.ctorIdx) : a.comparePromoted b = some (x - y).sign := by
  have hbool : ∀ b : Bool, (b.toNat : Int) = b.toInt := by decide
  cases a <;> cases ha <;> cases b <;> cases hb <;> simp only [kind] at hkind <;> first
    | exact absurd hkind (by decide)
    | exact comparePromoted_unsigned_integer _ _
    | exact congrArg some (compareNumbers_eq_sign _ _)
    | exact congrArg some ((compareNumbers_eq_sign _ _).trans (by rw [hbool]))

lemma sign_compare_integers {x y : Int} (ha : a.integer = some x) (hb : b.integer = some y) :
    (a.compare b).map Int.sign = some (x - y).sign := by
  rw [compare]
  split_ifs with hkind hless
  · cases a <;> cases ha <;> cases b <;> cases hb <;> first
      | (simp [compareSame, compareNumbers_eq_sign]; done)
      | cases hkind
  · rw [comparePromoted_integers hb ha hless, ← Int.neg_sub, Int.sign_neg]
    simp
  · have hne : a.kind.ctorIdx ≠ b.kind.ctorIdx := fun h => hkind (by
      revert h
      cases a.kind <;> cases b.kind <;> decide)
    rw [comparePromoted_integers ha hb (by omega)]
    simp

lemma compareTexts_swap (l r : Text) : compareTexts r l = -compareTexts l r := by
  simp only [compareTexts, compareValues, decide_eq_true_eq]
  split_ifs with h h'
  · exact absurd h' (List.lt_asymm h)
  all_goals rfl

lemma sign_compareTexts (l r : Text) : (compareTexts l r).sign = compareTexts l r := by
  simp only [compareTexts, compareValues]
  split_ifs <;> rfl

lemma compareTexts_nonpos (l r : Text) : compareTexts l r ≤ 0 ↔ ¬ r < l := by
  simp only [compareTexts, compareValues, decide_eq_true_eq]
  split_ifs with h h'
  · exact iff_of_true (by decide) (List.lt_asymm h)
  · exact iff_of_false (by decide) (not_not_intro h')
  · exact iff_of_true le_rfl h'

lemma compareTexts_trans {l r t : Text} (h : compareTexts l r ≤ 0) (h' : compareTexts r t ≤ 0) :
    compareTexts l t ≤ 0 := by
  rw [compareTexts_nonpos] at *
  exact List.le_trans h h'

lemma sign_charValue {c d : Char} (hc : c.toNat < 256) (hd : d.toNat < 256) :
    (charValue c - charValue d).sign = (c.toNat - d.toNat : Int).sign ↔
      (c.toNat < 128 ↔ d.toNat < 128) := by
  unfold charValue
  split_ifs with h h' h'
  · exact iff_of_true rfl (iff_of_true h h')
  · rw [Int.sign_eq_one_of_pos (by omega), Int.sign_eq_neg_one_of_neg (by omega)]
    exact iff_of_false (by decide) fun hiff => h' (hiff.mp h)
  · rw [Int.sign_eq_neg_one_of_neg (by omega), Int.sign_eq_one_of_pos (by omega)]
    exact iff_of_false (by decide) fun hiff => h (hiff.mpr h')
  · exact iff_of_true (congrArg Int.sign (by omega)) (iff_of_false h h')

lemma charText_lt (c d : Char) : charText c < charText d ↔ c.toNat < d.toNat := by
  have hlt : c < d ↔ c.toNat < d.toNat := Iff.rfl
  unfold charText
  split_ifs with hc hd hd
  · simp [hc, hd]
  · simp; omega
  · simp [hd]
  · rw [List.cons_lt_cons_iff]
    simp [hlt]

lemma compareTexts_char (c d : Char) :
    compareTexts (charText c) (charText d) = (c.toNat - d.toNat : Int).sign := by
  rw [← compareNumbers_eq_sign]
  simp only [compareTexts, compareNumbers, compareValues, charText_lt, Int.ofNat_lt]

def sign (a b : Value F) : Option Int := (a.compare b).map Int.sign

lemma sign_texts_iff (ha : a.IsText) (hb : b.IsText) :
    a.sign b = some (compareTexts a.text b.text) ↔
      ∀ c d, a = char c → b = char d → (c.toNat < 128 ↔ d.toNat < 128) := by
  cases a <;> try cases ha
  all_goals cases b <;> try cases hb
  · simpa [sign, compare, kind, compareSame, text, compareTexts_char] using sign_charValue ha hb
  · rename_i c s
    refine iff_of_true (congrArg some ?_) (by simp)
    rw [Int.sign_neg, sign_compareTexts]
    exact (compareTexts_swap s (charText c)).symm
  all_goals exact iff_of_true (congrArg some (sign_compareTexts _ _)) (by simp)

def AtMost (a b : Value F) : Prop := ∃ n ≤ 0, a.compare b = some n

lemma atMost_iff {l r : Text} (h : a.sign b = some (compareTexts l r)) :
    a.AtMost b ↔ compareTexts l r ≤ 0 := by
  obtain ⟨n, hn, hsign⟩ := map_eq_some_iff.mp h
  rw [← hsign, AtMost, hn]
  simp [Int.sign_nonpos_iff]

/-- Integers are ordered by what they denote. The order of texts is that of their strings if no two
CHARs differ in their highest bit, and only then. -/
theorem compare_order_iff (S : Set { v : Value F // v.IsText }) :
    (∀ (a b : Value F) (x y : Int), a.integer = some x → b.integer = some y →
      a.sign b = some (x - y).sign) ∧
    (((∀ a ∈ S, ∀ b ∈ S, a.1.sign b = some (compareTexts a.1.text b.1.text) ∧
        b.1.sign a = (a.1.sign b).map (- ·)) ∧
      ∀ a ∈ S, ∀ b ∈ S, ∀ c ∈ S, a.1.AtMost b → b.1.AtMost c → a.1.AtMost c) ↔
    ∀ a ∈ S, ∀ b ∈ S, ∀ c d, a.1 = char c → b.1 = char d → (c.toNat < 128 ↔ d.toNat < 128)) := by
  refine ⟨fun a b x y => sign_compare_integers, fun h a ha b hb => ?_, fun h => ?_⟩
  · exact (sign_texts_iff a.2 b.2).mp (h.1 a ha b hb).1
  have hsign : ∀ a ∈ S, ∀ b ∈ S, a.1.sign b = some (compareTexts a.1.text b.1.text) :=
    fun a ha b hb => (sign_texts_iff a.2 b.2).mpr (h a ha b hb)
  refine ⟨fun a ha b hb => ⟨hsign a ha b hb, ?_⟩, fun a ha b hb c hc => ?_⟩
  · rw [hsign a ha b hb, hsign b hb a ha, compareTexts_swap]
    rfl
  · rw [atMost_iff (hsign a ha b hb), atMost_iff (hsign b hb c hc), atMost_iff (hsign a ha c hc)]
    exact compareTexts_trans

/-- The byte 200 comes before a letter as a CHAR, and behind it as a string. -/
theorem compare_not_order : ¬ (char (Char.ofNat 200) : Value Int).sign (char 'a') =
    some (compareTexts [Char.ofNat 200] ['a']) := by
  decide

end EasyDds.Dds.Filter.Value
