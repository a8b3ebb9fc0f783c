import Mathlib.Data.Int.Interval
import Mathlib.Data.Set.Card
import EasyDds.Rtps.Reader.WriterProxy

/-!
What a writer proxy tells about the changes it has not received: the set it asks for, and the
numbers of changes that are lost or unknown.
-/

namespace EasyDds.Rtps

open RangeItem List

structure Shows (sns : BitmapRange Int) (base : Int) (p : Int → Prop) : Prop where
  base_eq : sns.base = base
  isOpen : sns.Open
  wellFormed : sns.WellFormed
  exact : sns.Exact
  has_iff : ∀ d < 256, sns.has d = true ↔ p (base + d)

namespace Shows

variable {sns : BitmapRange Int} {base : Int} {p q : Int → Prop}

lemma setBase (base : Int) : Shows (BitmapRange.setBase base) base fun _ => False where
  base_eq := rfl
  isOpen := BitmapRange.open_setBase base
  wellFormed := BitmapRange.wellFormed_setBase (window_int base)
  exact := BitmapRange.exact_setBase base
  has_iff d _ := by simp

lemma congr (h : Shows sns base p) (heq : ∀ seq, p seq ↔ q seq) : Shows sns base q :=
  { h with has_iff := fun d hd => (h.has_iff d hd).trans (heq _) }

lemma addRange (h : Shows sns base p) {first last : Int} (hfirst : base ≤ first)
    (hle : first ≤ last) (hlast : last ≤ base + 256) :
    Shows (sns.addRange first last) base fun seq => p seq ∨ first ≤ seq ∧ seq < last := by
  obtain ⟨rfl, hopen, hwf, hexact, hhas⟩ := h
  obtain ⟨a, rfl⟩ : ∃ a : Nat, first = sns.base + a := ⟨(first - sns.base).toNat, by omega⟩
  obtain ⟨b, rfl⟩ : ∃ b : Nat, last = sns.base + b := ⟨(last - sns.base).toNat, by omega⟩
  have heq := BitmapRange.addRange_eq (r := sns) (sns.base + a) (sns.base + b) (a := a) (b := b)
    (by simp only [le, plus, decide_eq_true_eq]; split_ifs <;> omega)
    (by simp only [le, plus, decide_eq_true_eq]; split_ifs <;> omega)
    (by simp only [le, plus, decide_eq_decide]; omega) (by simp only [diff, plus]; omega)
    (by simp only [diff, plus]; omega)
  have hb : b ≤ 256 := by omega
  refine ⟨BitmapRange.base_addRange_of_eq heq, BitmapRange.open_addRange_of_eq heq hopen,
    BitmapRange.wellFormed_addRange_of_eq heq (window_int _) hwf hopen hb,
    BitmapRange.exact_addRange_of_eq heq hexact hb, fun d hd => ?_⟩
  rw [BitmapRange.has_addRange_of_eq heq hb, Bool.or_eq_true, hhas d hd, decide_eq_true_eq]
  have hrange : (a ≤ d ∧ d < b) ↔ sns.base + a ≤ sns.base + d ∧ sns.base + d < sns.base + b := by
    omega
  rw [hrange]

/-- The members lie in the window. -/
theorem isSet_iff (h : Shows sns base p) (seq : Int) :
    sns.isSet seq = true ↔ p seq ∧ base ≤ seq ∧ seq < base + 256 := by
  have hwindow : Window sns.base := window_int _
  rw [BitmapRange.isSet_iff hwindow h.wellFormed, h.base_eq]
  constructor
  · rintro ⟨d, hd, rfl⟩
    have hlt := h.wellFormed.lt_window hd
    simp only [plus]
    exact ⟨(h.has_iff d hlt).1 hd, by omega, by omega⟩
  · rintro ⟨hp, hlow, hhigh⟩
    obtain ⟨d, rfl⟩ : ∃ d : Nat, seq = base + d := ⟨(seq - base).toNat, by omega⟩
    exact ⟨d, (h.has_iff d (by omega)).2 hp, rfl⟩

/-- The set is empty if it has no member. -/
theorem empty_iff (h : Shows sns base p) :
    sns.empty = true ↔ ∀ seq, base ≤ seq → seq < base + 256 → ¬ p seq := by
  rw [BitmapRange.empty, decide_eq_true_eq]
  constructor
  · intro hzero seq hlow hhigh hp
    obtain ⟨d, rfl⟩ : ∃ d : Nat, seq = base + d := ⟨(seq - base).toNat, by omega⟩
    have hlt := h.wellFormed.lt_numBits ((h.has_iff d (by omega)).2 hp)
    omega
  · intro hnone
    by_contra hne
    have htop := h.exact hne
    have hlt := h.wellFormed.lt_window htop
    exact hnone _ (by omega) (by omega) ((h.has_iff _ hlt).1 htop)

end Shows

namespace WriterProxy

variable {w : WriterProxy}

lemma addRange_eq_some_iff {sns sns' : BitmapRange Int} {first last : Int} :
    addRange sns first last = some sns' ↔ sns.base + 256 ≤ top ∧
      sns' = sns.addRange first last := by
  refine checkedPlus_bind_eq_some_iff.trans (and_congr ?_ ?_)
  · rw [top]
    omega
  · rw [Option.some.injEq, eq_comm]

lemma newSet_eq_some_iff {sns : BitmapRange Int} {base : Int} :
    newSet base = some sns ↔ base + 255 ≤ top ∧ sns = .setBase base := by
  refine checkedPlus_bind_eq_some_iff.trans (and_congr ?_ ?_)
  · rw [top]
    omega
  · rw [Option.some.injEq, eq_comm]

/-- The loop adds the numbers below the end that were not received: each received number ends one
range, and the next range starts behind it. -/
theorem shows_missingFrom {sns sns' : BitmapRange Int} {base firstMissing maxMissing : Int}
    {p : Int → Prop} {received : List Int} (h : Shows sns base p) (hbase : base ≤ firstMissing)
    (hfirst : firstMissing ≤ maxMissing) (hmax : maxMissing ≤ base + 256)
    (hsorted : received.Pairwise (· < ·)) (habove : ∀ seq ∈ received, firstMissing ≤ seq)
    (hloop : missingFrom maxMissing sns firstMissing received = some sns') :
    Shows sns' base fun seq =>
      p seq ∨ firstMissing ≤ seq ∧ seq < maxMissing ∧ seq ∉ received := by
  induction received generalizing sns firstMissing p with
  | nil =>
    rw [missingFrom] at hloop
    split_ifs at hloop with hlt
    · obtain ⟨-, rfl⟩ := addRange_eq_some_iff.1 hloop
      exact (h.addRange hbase hfirst hmax).congr fun seq => by simp
    · obtain rfl := Option.some.inj hloop
      refine h.congr fun seq => ⟨.inl, fun hs => hs.elim id fun hin => ?_⟩
      omega
  | cons seq rest ih =>
    rw [pairwise_cons] at hsorted
    have hseq := habove seq mem_cons_self
    have hadded := h.addRange hbase (le_min hseq hfirst) ((min_le_right seq maxMissing).trans hmax)
    obtain ⟨added, hadd, hloop⟩ := Option.bind_eq_some_iff.1 hloop
    obtain ⟨-, rfl⟩ := addRange_eq_some_iff.1 hadd
    obtain ⟨-, hloop⟩ := checkedPlus_one_bind_eq_some_iff.1 hloop
    split_ifs at hloop with hstop
    · -- Nothing below the end is left.
      obtain rfl := Option.some.inj hloop
      refine hadded.congr fun s => or_congr Iff.rfl ?_
      simp only [mem_cons, not_or]
      constructor
      · rintro ⟨hlow, hhigh⟩
        refine ⟨hlow, by omega, by omega, fun hs => ?_⟩
        have := hsorted.1 s hs
        omega
      · rintro ⟨hlow, hhigh, hne, -⟩
        omega
    · have hmin : min seq maxMissing = seq := by omega
      rw [hmin] at hadded hstop hloop
      refine (ih hadded (by omega) (by omega) hsorted.2 (fun s hs => ?_) hloop).congr fun s => ?_
      · have := hsorted.1 s hs
        omega
      · simp only [mem_cons, not_or, or_assoc]
        refine or_congr Iff.rfl ?_
        have hbefore : s ∈ rest → seq < s := hsorted.1 s
        constructor
        · rintro (⟨hlow, hhigh⟩ | ⟨hlow, hhigh, hnot⟩)
          · exact ⟨hlow, by omega, by omega, fun hs => by have := hbefore hs; omega⟩
          · exact ⟨by omega, hhigh, by omega, hnot⟩
        · rintro ⟨hlow, hhigh, hne, hnot⟩
          by_cases hlt : s < seq
          · exact .inl ⟨hlow, hlt⟩
          · exact .inr ⟨by omega, hhigh, hnot⟩

lemma exists_missingFrom {sns : BitmapRange Int} {firstMissing maxMissing : Int}
    {received : List Int} (hbase : sns.base + 256 ≤ top) (hreceived : ∀ seq ∈ received, seq < top) :
    ∃ sns', missingFrom maxMissing sns firstMissing received = some sns' := by
  induction received generalizing sns firstMissing with
  | nil =>
    rw [missingFrom]
    split_ifs
    · exact ⟨_, addRange_eq_some_iff.2 ⟨hbase, rfl⟩⟩
    · exact ⟨_, rfl⟩
  | cons seq rest ih =>
    have hseq := hreceived seq mem_cons_self
    rw [top] at hseq
    have hkeeps : ∀ last, (sns.addRange firstMissing last).base = sns.base := by
      intro last
      rw [BitmapRange.addRange]
      dsimp only
      split_ifs <;> rfl
    rw [missingFrom, addRange_eq_some_iff.2 ⟨hbase, rfl⟩, Option.bind_eq_bind, Option.bind_some,
      checkedPlus_one_bind (by omega)]
    split_ifs
    · exact ⟨_, rfl⟩
    · exact ih ((hkeeps _).symm ▸ hbase) fun s hs => hreceived s (mem_cons_of_mem _ hs)

lemma missingChanges_eq_some_iff {sns : BitmapRange Int} : w.missingChanges = some sns ↔
    w.changesFromWriterLowMark + 257 ≤ top ∧ w.maxSequenceNumber < top ∧
      missingFrom (min (w.changesFromWriterLowMark + 257) (w.maxSequenceNumber + 1))
        (.setBase (w.changesFromWriterLowMark + 1)) (w.changesFromWriterLowMark + 1)
        w.changesReceived = some sns := by
  have hend : w.changesFromWriterLowMark + 1 + 256 = w.changesFromWriterLowMark + 257 := by omega
  simp only [missingChanges, newSet, Option.bind_eq_bind, Option.bind_assoc, Option.bind_some,
    checkedPlus_bind_eq_some_iff, Nat.cast_one, Nat.cast_ofNat, hend, top]
  constructor
  · rintro ⟨-, hwindow, hnext, -, hloop⟩
    exact ⟨by omega, by omega, hloop⟩
  · rintro ⟨hwindow, hmax, hloop⟩
    exact ⟨by omega, by omega, by omega, by omega, hloop⟩

lemma Inv.shows_missingChanges (h : w.Inv) {sns : BitmapRange Int}
    (hsns : w.missingChanges = some sns) :
    Shows sns (w.changesFromWriterLowMark + 1) fun seq =>
      w.changesFromWriterLowMark < seq ∧ seq < w.changesFromWriterLowMark + 257 ∧
        seq ≤ w.maxSequenceNumber ∧ seq ∉ w.changesReceived := by
  have hlow := h.low_le_max
  obtain ⟨-, -, hloop⟩ := missingChanges_eq_some_iff.1 hsns
  have hshows := shows_missingFrom (Shows.setBase (w.changesFromWriterLowMark + 1)) le_rfl
    (by omega) (by omega) h.sorted (fun seq hs => (h.above seq hs).le) hloop
  refine hshows.congr fun seq => ?_
  simp only [false_or, lt_min_iff]
  constructor
  · rintro ⟨hlow, ⟨hwindow, hmax⟩, hnot⟩
    exact ⟨by omega, by omega, by omega, hnot⟩
  · rintro ⟨hlow, hwindow, hmax, hnot⟩
    exact ⟨by omega, ⟨by omega, by omega⟩, hnot⟩

/-- The window and the number behind the maximum have to be sequence numbers: both are computed,
whether anything is missing or not. -/
theorem Inv.exists_missingChanges_iff (h : w.Inv) : (∃ sns, w.missingChanges = some sns) ↔
      w.changesFromWriterLowMark + 257 ≤ top ∧ w.maxSequenceNumber < top := by
  simp only [missingChanges_eq_some_iff, exists_and_left]
  refine and_congr_right fun hwindow => and_iff_left_of_imp fun hmax => ?_
  refine exists_missingFrom ?_ fun seq hs => (h.le_max seq hs).trans_lt hmax
  simp only [BitmapRange.setBase]
  omega

/-- `missing_changes` asks for exactly the changes of its window that were announced and not
received, and for none only if there are none. It fails where a number behind the window or behind
the maximum is none of 64 bits any more. -/
theorem missingChanges_exact (h : w.Reached) :
    (∀ sns, w.missingChanges = some sns →
      sns.base = w.changesFromWriterLowMark + 1 ∧
      (∀ seq, sns.isSet seq = true ↔ w.changesFromWriterLowMark < seq ∧
          seq ≤ min w.maxSequenceNumber (w.changesFromWriterLowMark + 256) ∧
          seq ∉ w.changesReceived) ∧
      (sns.empty = true ↔ w.areThereMissingChanges = false)) ∧
    ((∃ sns, w.missingChanges = some sns) ↔
      w.changesFromWriterLowMark + 257 ≤ top ∧ w.maxSequenceNumber < top) := by
  have hinv := h.inv
  refine ⟨fun sns hsns => ?_, hinv.exists_missingChanges_iff⟩
  have hshows := hinv.shows_missingChanges hsns
  refine ⟨hshows.base_eq, fun seq => ?_, ?_⟩
  · rw [hshows.isSet_iff, le_min_iff]
    constructor
    · rintro ⟨⟨hlow, hwindow, hmax, hnot⟩, -, -⟩
      exact ⟨hlow, ⟨hmax, by omega⟩, hnot⟩
    · rintro ⟨hlow, ⟨hmax, hwindow⟩, hnot⟩
      exact ⟨⟨hlow, by omega, hmax, hnot⟩, by omega, by omega⟩
  · rw [hshows.empty_iff, areThereMissingChanges, decide_eq_false_iff_not]
    constructor
    · -- The number next to the low mark has not been received.
      intro hnone hlt
      refine hnone (w.changesFromWriterLowMark + 1) le_rfl (by omega)
        ⟨by omega, by omega, by omega, fun hs => ?_⟩
      exact absurd (hinv.above _ hs) (lt_irrefl _)
    · rintro hnone seq - - ⟨hlow, -, hmax, -⟩
      omega

theorem missingChanges_exact_gap :
    ∃ w sns, (start 0).run [.received 2, .missing 4] = some w ∧ w.missingChanges = some sns ∧
      sns.base = w.changesFromWriterLowMark + 1 ∧
      (∀ seq, sns.isSet seq = true ↔
        w.changesFromWriterLowMark < seq ∧ seq ≤ min w.maxSequenceNumber
          (w.changesFromWriterLowMark + 256) ∧ seq ∉ w.changesReceived) ∧
      (sns.empty = true ↔ w.areThereMissingChanges = false) := by
  have hw : (WriterProxy.mk 0 4 [2]).Reached := ⟨0, [.received 2, .missing 4], rfl⟩
  obtain ⟨hexact, hreturns⟩ := missingChanges_exact hw
  obtain ⟨sns, hsns⟩ := hreturns.2 (by decide)
  exact ⟨_, sns, rfl, hsns, hexact sns hsns⟩

/-- After a HEARTBEAT for the numbers from `2^63-10` to `2^63-5`. -/
theorem missingChanges_not_exact :
    ∃ w, (start 0).run [.lost (top - 9), .missing (top - 4)] = some w ∧
      w.areThereMissingChanges = true ∧ w.missingChanges = none :=
  ⟨⟨top - 10, top - 4, []⟩, by decide, by decide, by decide⟩

def unreceived (w : WriterProxy) (seqNum : Int) : Set Int :=
  {seq | seq < seqNum ∧ w.changeWasReceived seq = false}

lemma not_changeWasReceived_iff (seq : Int) : w.changeWasReceived seq = false ↔
      w.changesFromWriterLowMark < seq ∧ seq ∉ w.changesReceived := by
  rw [changeWasReceived]
  split_ifs with hle
  · simp [hle]
  · simp [not_le.1 hle]

variable {seqNum : Int}

lemma unreceived_eq_empty (h : seqNum ≤ w.changesFromWriterLowMark + 1) :
    w.unreceived seqNum = ∅ := by
  ext seq
  simp only [unreceived, Set.mem_ofPred_eq, not_changeWasReceived_iff, Set.mem_empty_iff_false,
    iff_false]
  rintro ⟨hlt, hgt, -⟩
  omega

/-- All numbers between the low mark and `seqNum` but the received ones are unreceived. -/
theorem Inv.ncard_unreceived (h : w.Inv) {below rest : List Int}
    (hlow : w.changesFromWriterLowMark < seqNum) (hsplit : w.changesReceived = below ++ rest)
    (hbelow : ∀ seq ∈ below, seq < seqNum) (hrest : ∀ seq ∈ rest, seqNum ≤ seq) :
    ((w.unreceived seqNum).ncard : Int) =
      seqNum - (w.changesFromWriterLowMark + 1) - below.length := by
  have hset : w.unreceived seqNum =
      ↑(Finset.Ioo w.changesFromWriterLowMark seqNum \ below.toFinset) := by
    ext seq
    simp only [unreceived, Set.mem_ofPred_eq, not_changeWasReceived_iff, hsplit, mem_append,
      Finset.coe_sdiff, Finset.coe_Ioo, Set.mem_sdiff, Set.mem_Ioo, Finset.mem_coe,
      mem_toFinset, not_or]
    constructor
    · rintro ⟨hlt, hgt, hnot, -⟩
      exact ⟨⟨hgt, hlt⟩, hnot⟩
    · rintro ⟨⟨hgt, hlt⟩, hnot⟩
      exact ⟨hlt, hgt, hnot, fun hs => absurd (hrest seq hs) (not_le.2 hlt)⟩
  have hsub : below.toFinset ⊆ Finset.Ioo w.changesFromWriterLowMark seqNum := by
    intro seq hs
    rw [mem_toFinset] at hs
    have hmem : seq ∈ w.changesReceived := hsplit ▸ mem_append_left _ hs
    exact Finset.mem_Ioo.2 ⟨by have := h.above seq hmem; omega, hbelow seq hs⟩
  have hnodup : below.Nodup := by
    have hsorted := h.sorted
    rw [hsplit] at hsorted
    exact (pairwise_append.1 hsorted).1.imp ne_of_lt
  have hcard := toFinset_card_of_nodup hnodup
  have hle := Finset.card_le_card hsub
  rw [hset, Set.ncard_coe_finset, Finset.card_sdiff_of_subset hsub, hcard]
  rw [hcard, Int.card_Ioo] at hle
  rw [Int.card_Ioo]
  omega

/-- The loop counts what is between the received changes, up to `2^32`: it adds the length of each
gap to a counter of 32 bits. -/
theorem unknownFrom_append {value count : Nat} {firstMissing : Int} {below rest : List Int}
    (hvalue : value < 2 ^ 32) (hfirst : firstMissing ≤ seqNum) (hsorted : below.Pairwise (· < ·))
    (habove : ∀ seq ∈ below, firstMissing ≤ seq) (hbelow : ∀ seq ∈ below, seq < seqNum)
    (hrest : ∀ seq ∈ rest, seqNum ≤ seq)
    (hloop : unknownFrom seqNum value firstMissing (below ++ rest) = some count) :
    (count : Int) = (value + (seqNum - firstMissing) - below.length) % 2 ^ 32 := by
  induction below generalizing value firstMissing with
  | nil =>
    cases rest with
    | nil =>
      rw [append_nil, unknownFrom, Option.some.injEq] at hloop
      simp only [← hloop, diff, length_nil]
      split_ifs with hlt <;> omega
    | cons seq rest =>
      have hmin : min seq seqNum = seqNum := min_eq_right (hrest seq mem_cons_self)
      obtain ⟨-, hloop⟩ := checkedPlus_one_bind_eq_some_iff.1 hloop
      rw [hmin, if_pos (by omega), Option.some.injEq] at hloop
      simp only [← hloop, diff, length_nil]
      split_ifs with hlt <;> omega
  | cons seq below ih =>
    rw [pairwise_cons] at hsorted
    have hseq := habove seq mem_cons_self
    have hlt := hbelow seq mem_cons_self
    have hmin : min seq seqNum = seq := min_eq_left hlt.le
    have hadd : ((if firstMissing < seq then (value + diff seq firstMissing) % 2 ^ 32 else value :
        Nat) : Int) = (value + (seq - firstMissing)) % 2 ^ 32 := by
      simp only [diff]
      split_ifs with hgap <;> omega
    rw [cons_append, unknownFrom, hmin] at hloop
    generalize (if firstMissing < seq then (value + diff seq firstMissing) % 2 ^ 32 else value) =
      value' at hadd hloop
    obtain ⟨-, hloop⟩ := checkedPlus_one_bind_eq_some_iff.1 hloop
    rw [length_cons]
    split_ifs at hloop with hstop
    · -- The last change below the end.
      have hnil : below = [] := by
        cases below with
        | nil => rfl
        | cons next below =>
          have hnext := hsorted.1 next mem_cons_self
          have hbound := hbelow next (by simp)
          omega
      rw [← Option.some.inj hloop, hnil, length_nil]
      omega
    · rw [ih (by omega) (by omega) hsorted.2 (fun s hs => hsorted.1 s hs)
        (fun s hs => hbelow s (mem_cons_of_mem _ hs)) hloop]
      omega

/-- The loop fails only at the largest number, unless the one before it has ended it already. -/
theorem exists_unknownFrom_iff (value : Nat) (firstMissing : Int) {received : List Int}
    (hseq : seqNum ≤ top) (hsorted : received.Pairwise (· < ·))
    (htop : ∀ seq ∈ received, seq ≤ top) :
    (∃ n, unknownFrom seqNum value firstMissing received = some n) ↔
      (seqNum = top → top ∈ received → top - 1 ∈ received) := by
  induction received generalizing value firstMissing with
  | nil => exact iff_of_true ⟨_, rfl⟩ fun _ h => absurd h (not_mem_nil)
  | cons seq rest ih =>
    rw [pairwise_cons] at hsorted
    have hle := htop seq mem_cons_self
    by_cases hlt : seq < seqNum
    · have hroom : seq + 1 < 2 ^ 63 := by
        rw [top] at hseq
        omega
      simp only [unknownFrom, min_eq_left hlt.le, checkedPlus_one_bind hroom]
      by_cases hstop : seqNum ≤ seq + 1
      · refine iff_of_true ⟨_, if_pos hstop⟩ fun heq _ => ?_
        obtain rfl : seq = top - 1 := by omega
        exact mem_cons_self
      · rw [if_neg hstop, ih _ _ hsorted.2 fun s hs => htop s (mem_cons_of_mem _ hs)]
        refine forall_congr' fun heq => ?_
        have hfirst : top ≠ seq := by omega
        have hsecond : top - 1 ≠ seq := by omega
        simp only [mem_cons, hfirst, hsecond, false_or]
    · have hmin : min seq seqNum = seqNum := by omega
      constructor
      · rintro ⟨n, hn⟩ heq
        obtain ⟨hbound, -⟩ := checkedPlus_one_bind_eq_some_iff.1 hn
        rw [top] at heq
        omega
      · intro hall
        have hbelow : seqNum < top := by
          refine lt_of_le_of_ne hseq fun heq => ?_
          obtain rfl : seq = top := by omega
          rcases mem_cons.1 (hall heq mem_cons_self) with h | h
          · omega
          · have := hsorted.1 _ h
            omega
        rw [top] at hbelow
        simp only [unknownFrom, hmin, checkedPlus_one_bind (show seqNum + 1 < 2 ^ 63 by omega)]
        exact ⟨_, if_pos (by omega)⟩

lemma Inv.lostChangesUpdate_eq (h : w.Inv) (hlow : 0 ≤ w.changesFromWriterLowMark)
    (hseq : seqNum ≤ top) {r : Int × WriterProxy} (hr : w.lostChangesUpdate seqNum = some r) :
    r.1 = min ((w.unreceived seqNum).ncard : Int) (2 ^ 31 - 1) := by
  rw [top] at hseq
  obtain ⟨-, hr⟩ := checkedPlus_one_bind_eq_some_iff.1 hr
  split_ifs at hr with hlost
  · obtain ⟨lowMark, hminus, hr⟩ := Option.bind_eq_some_iff.1 hr
    obtain ⟨w', hcleanup, hr⟩ := Option.bind_eq_some_iff.1 hr
    obtain rfl := Option.some.inj hr
    obtain ⟨below, rest, hsplit, hbound, hbelow, hrest⟩ := h.split seqNum
    have hcard := h.ncard_unreceived (by omega) hsplit hbelow hrest
    generalize (w.unreceived seqNum).ncard = count at hcard
    have hsat : ∀ tmp : Int, tmp % 2 ^ 64 = count → saturate (tmp % 2 ^ 64) =
        min (count : Int) (2 ^ 31 - 1) := by
      rintro tmp htmp
      rw [saturate, htmp]
      split_ifs <;> omega
    apply hsat
    -- The wrapped differences add up to the count.
    split
    next => omega
    next hnil =>
      have hnone : below = [] := (append_eq_nil_iff.1 (hsplit.symm.trans hnil)).1
      rw [hnone, length_nil] at hcard
      omega
  · obtain rfl := Option.some.inj hr
    rw [unreceived_eq_empty (by omega), Set.ncard_empty]
    rfl

lemma Inv.unknownMissingChangesUpTo_eq (h : w.Inv) {count : Nat}
    (hcount : w.unknownMissingChangesUpTo seqNum = some count) :
    count = (w.unreceived seqNum).ncard % 2 ^ 32 := by
  rw [unknownMissingChangesUpTo] at hcount
  by_cases hlow : w.changesFromWriterLowMark < seqNum
  · rw [if_pos hlow] at hcount
    obtain ⟨-, hcount⟩ := checkedPlus_one_bind_eq_some_iff.1 hcount
    obtain ⟨-, -, hloop⟩ := Option.bind_eq_some_iff.1 hcount
    obtain ⟨below, rest, hsplit, -, hbelow, hrest⟩ := h.split seqNum
    have hcard := h.ncard_unreceived hlow hsplit hbelow hrest
    have hmem : ∀ seq ∈ below, seq ∈ w.changesReceived := fun seq hs =>
      hsplit ▸ mem_append_left _ hs
    have hsorted := h.sorted
    rw [hsplit] at hsorted hloop
    have hcount := unknownFrom_append (by omega) (by omega) (pairwise_append.1 hsorted).1
      (fun seq hs => (h.above seq (hmem seq hs)).le) hbelow hrest hloop
    omega
  · rw [if_neg hlow] at hcount
    rw [← Option.some.inj hcount, unreceived_eq_empty (by omega), Set.ncard_empty, Nat.zero_mod]

/-- The loop is reached with a set of the numbers behind the low mark, which has to end within 64
bits. -/
theorem Inv.exists_unknownMissingChangesUpTo_iff (h : w.Inv) (hmax : w.maxSequenceNumber ≤ top)
    (hseq : seqNum ≤ top) : (∃ n, w.unknownMissingChangesUpTo seqNum = some n) ↔
      seqNum ≤ w.changesFromWriterLowMark ∨ w.changesFromWriterLowMark + 256 ≤ top ∧
        (seqNum = top → top ∈ w.changesReceived → top - 1 ∈ w.changesReceived) := by
  have hloop := exists_unknownFrom_iff 0 (w.changesFromWriterLowMark + 1) hseq h.sorted
    fun seq hs => (h.le_max seq hs).trans hmax
  rw [unknownMissingChangesUpTo]
  by_cases hlow : w.changesFromWriterLowMark < seqNum
  · rw [if_pos hlow, ← hloop, or_iff_right (by omega)]
    have hroom : w.changesFromWriterLowMark + 1 < 2 ^ 63 := by
      rw [top] at hseq
      omega
    simp only [checkedPlus_one_bind hroom, Option.bind_eq_bind, Option.bind_eq_some_iff,
      newSet_eq_some_iff]
    constructor
    · rintro ⟨n, -, ⟨hend, -⟩, hn⟩
      exact ⟨by omega, n, hn⟩
    · rintro ⟨hend, n, hn⟩
      exact ⟨n, _, ⟨by omega, rfl⟩, hn⟩
  · rw [if_neg hlow]
    exact iff_of_true ⟨_, rfl⟩ (.inl (by omega))

/-- The counts are those of the changes that were not received. There is none where the number
behind the low mark, or the end of a set that begins there, is not a sequence number. -/
theorem counts_exact (h : w.Reached) (hlow : 0 ≤ w.changesFromWriterLowMark)
    (hmax : w.maxSequenceNumber ≤ top) {seqNum : Int} (hseq : seqNum ≤ top) :
    (∀ r, w.lostChangesUpdate seqNum = some r →
      r.1 = min (({seq | seq < seqNum ∧ w.changeWasReceived seq = false} : Set Int).ncard : Int)
          (2 ^ 31 - 1) ∧
        (seqNum ≤ w.changesFromWriterLowMark + 1 → r.1 = 0)) ∧
    ((∃ r, w.lostChangesUpdate seqNum = some r) ↔ w.changesFromWriterLowMark < top) ∧
    (∀ unknown : Set Int, unknown = {seq | w.changesFromWriterLowMark < seq ∧ seq < seqNum ∧
        w.changeWasReceived seq = false} → unknown.ncard < 2 ^ 32 →
      ∀ n, w.unknownMissingChangesUpTo seqNum = some n → n = unknown.ncard) ∧
    ((∃ n, w.unknownMissingChangesUpTo seqNum = some n) ↔
      seqNum ≤ w.changesFromWriterLowMark ∨ w.changesFromWriterLowMark + 256 ≤ top ∧
        (seqNum = top → top ∈ w.changesReceived → top - 1 ∈ w.changesReceived)) := by
  have hinv := h.inv
  refine ⟨fun r hr => ?_, exists_lostChangesUpdate_iff hinv hlow hmax hseq, ?_,
    hinv.exists_unknownMissingChangesUpTo_iff hmax hseq⟩
  · have hlost := hinv.lostChangesUpdate_eq hlow hseq hr
    refine ⟨hlost, fun hle => ?_⟩
    rw [hlost, unreceived_eq_empty hle, Set.ncard_empty]
    rfl
  · rintro unknown rfl hlt n hn
    have heq : {seq | w.changesFromWriterLowMark < seq ∧ seq < seqNum ∧
        w.changeWasReceived seq = false} = w.unreceived seqNum := by
      ext seq
      refine ⟨And.right, fun hs => ⟨?_, hs⟩⟩
      exact ((not_changeWasReceived_iff seq).1 hs.2).1
    rw [hinv.unknownMissingChangesUpTo_eq hn, ← heq, Nat.mod_eq_of_lt hlt]

theorem counts_exact_gap :
    ∃ w r, (start 0).run [.received 2] = some w ∧ w.lostChangesUpdate 5 = some r ∧ r.1 = 3 ∧
      r.1 = min (({seq | seq < 5 ∧ w.changeWasReceived seq = false} : Set Int).ncard : Int)
          (2 ^ 31 - 1) ∧
      w.unknownMissingChangesUpTo 5 = some 3 ∧
      3 = ({seq | w.changesFromWriterLowMark < seq ∧ seq < 5 ∧
        w.changeWasReceived seq = false} : Set Int).ncard := by
  have hw : (WriterProxy.mk 0 2 [2]).Reached := ⟨0, [.received 2], rfl⟩
  obtain ⟨hlost, -, hunknown, -⟩ :=
    counts_exact hw (le_refl 0) (by decide) (by decide : (5 : Int) ≤ top)
  have hr : (WriterProxy.mk 0 2 [2]).lostChangesUpdate 5 = some (3, ⟨4, 4, []⟩) := by decide
  have hn : (WriterProxy.mk 0 2 [2]).unknownMissingChangesUpTo 5 = some 3 := by decide
  refine ⟨_, _, rfl, hr, rfl, (hlost _ hr).1, hn, hunknown _ rfl ?_ 3 hn⟩
  refine (Set.ncard_le_ncard (t := (Finset.Ioo 0 5 : Finset Int)) ?_
    (Finset.finite_toSet _)).trans_lt ?_
  · exact fun seq h => Finset.mem_coe.2 (Finset.mem_Ioo.2 ⟨h.1, h.2.1⟩)
  · rw [Set.ncard_coe_finset]
    decide

/-- With the low mark at the largest number no lost changes can be counted, not even below it; with
the low mark 100 below it no unknown ones above it. -/
theorem counts_not_exact :
    (∃ w, (start 0).run [.lost top, .received top] = some w ∧ w.lostChangesUpdate 5 = none) ∧
      ∃ w, (start 0).run [.lost (top - 100)] = some w ∧
        w.unknownMissingChangesUpTo (top - 50) = none :=
  ⟨⟨⟨top, top, []⟩, by decide, by decide⟩, ⟨top - 101, top - 101, []⟩, by decide, by decide⟩

end WriterProxy

end EasyDds.Rtps
