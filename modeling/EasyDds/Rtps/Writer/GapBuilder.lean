import EasyDds.Rtps.Bitmap.Members

/-!
GAP submessages and `RTPSGapBuilder`, which packs sequence numbers into as few of them as possible.
-/

namespace EasyDds.Rtps

open BitmapRange List

/-- The contents of a GAP submessage: the numbers from `gapStart` up to the base of the list, and
the numbers in the list. -/
structure Gap where
  gapStart : Int
  gapList : BitmapRange Int
deriving DecidableEq

namespace Gap

def ofRange (first last : Int) : Gap := ⟨first, setBase last⟩

def Covers (g : Gap) (sn : Int) : Prop :=
  g.gapStart ≤ sn ∧ sn < g.gapList.base ∨ g.gapList.isSet sn = true

instance (g : Gap) (sn : Int) : Decidable (g.Covers sn) := by
  unfold Covers
  infer_instance

end Gap

/-- `RTPSGapBuilder`, with the submessages it has added to its group. -/
structure GapBuilder where
  isGapPending : Bool
  initialSequence : Int
  gapBitmap : BitmapRange Int
  added : List Gap
deriving DecidableEq

namespace GapBuilder

def new : GapBuilder := ⟨false, 0, setBase 0, []⟩

def flush (b : GapBuilder) : GapBuilder :=
  if b.isGapPending then
    { b with isGapPending := false, added := b.added ++ [⟨b.initialSequence, b.gapBitmap⟩] }
  else b

def restart (b : GapBuilder) (gapSequence : Int) : GapBuilder :=
  { b with
    isGapPending := true
    initialSequence := gapSequence
    gapBitmap := setBase (gapSequence + 1) }

def add (b : GapBuilder) (gapSequence : Int) : GapBuilder :=
  if !b.isGapPending then b.restart gapSequence
  else if gapSequence = b.gapBitmap.base then
    { b with gapBitmap := setBase (gapSequence + 1) }
  else if b.gapBitmap.base ≤ gapSequence ∧ gapSequence ≤ b.gapBitmap.rangeMax then
    { b with gapBitmap := b.gapBitmap.add gapSequence }
  else b.flush.restart gapSequence

def gapsFor (numbers : List Int) : List Gap := (numbers.foldl add new).flush.added

section Coverage

variable {b : GapBuilder} {done : List Int} {x : Int}

def Pending (b : GapBuilder) (sn : Int) : Prop :=
  b.isGapPending = true ∧ Gap.Covers ⟨b.initialSequence, b.gapBitmap⟩ sn

structure Collected (b : GapBuilder) (done : List Int) : Prop where
  covers_iff : ∀ sn, (∃ g ∈ b.added, g.Covers sn) ∨ b.Pending sn ↔ sn ∈ done
  starts : b.isGapPending = true → b.initialSequence < b.gapBitmap.base
  isOpen : b.gapBitmap.Open
  wellFormed : b.gapBitmap.WellFormed

lemma collected_new : new.Collected [] where
  covers_iff sn := by simp [new, Pending]
  starts h := by cases h
  isOpen := open_setBase 0
  wellFormed := wellFormed_setBase (window_int 0)

lemma isSet_setBase (base sn : Int) : (setBase base).isSet sn = false := by simp [isSet, setBase]

/-- A range is covered from its start up to the number behind it. -/
theorem covers_setBase (first last sn : Int) :
    Gap.Covers ⟨first, setBase last⟩ sn ↔ first ≤ sn ∧ sn < last := by
  rw [Gap.Covers, isSet_setBase]
  simp [setBase]

lemma isSet_add {r : BitmapRange Int} (hopen : r.Open) (hwf : r.WellFormed) {d : Nat}
    (hd : d < 256) (sn : Int) : (r.add (RangeItem.plus r.base d)).isSet sn = true ↔
      r.isSet sn = true ∨ sn = RangeItem.plus r.base d := by
  have hw := window_int r.base
  rw [isSet_iff (by rwa [base_add]) (hwf.add hw hopen hd), isSet_iff hw hwf]
  simp only [has_add hw hopen hd, base_add, Bool.or_eq_true, decide_eq_true_eq]
  constructor
  · rintro ⟨e, hset | rfl, rfl⟩
    · exact .inl ⟨e, hset, rfl⟩
    · exact .inr rfl
  · rintro (⟨e, hset, rfl⟩ | rfl)
    · exact ⟨e, .inl hset, rfl⟩
    · exact ⟨_, .inr rfl, rfl⟩

lemma covers_flush (b : GapBuilder) (sn : Int) :
    (∃ g ∈ b.flush.added, g.Covers sn) ↔ (∃ g ∈ b.added, g.Covers sn) ∨ b.Pending sn := by
  rw [flush]
  split
  · rename_i hpending
    simp only [mem_append, mem_singleton, Pending, hpending, true_and]
    constructor
    · rintro ⟨g, hg | rfl, hcovers⟩
      · exact .inl ⟨g, hg, hcovers⟩
      · exact .inr hcovers
    · rintro (⟨g, hg, hcovers⟩ | hcovers)
      · exact ⟨g, .inl hg, hcovers⟩
      · exact ⟨_, .inr rfl, hcovers⟩
  · rename_i hpending
    simp [Pending, hpending]

structure Takes (b : GapBuilder) (x : Int) (r : BitmapRange Int) : Prop where
  covers_iff : ∀ sn, Gap.Covers ⟨b.initialSequence, r⟩ sn ↔
    Gap.Covers ⟨b.initialSequence, b.gapBitmap⟩ sn ∨ sn = x
  starts : b.initialSequence < r.base
  isOpen : r.Open
  wellFormed : r.WellFormed

/-- The pending GAP runs on to the number right behind it. Its list is empty, as what it holds
was added before. -/
theorem Collected.extend (h : b.Collected done) (hpending : b.isGapPending = true)
    (hx : ∀ sn ∈ done, sn < x) (hbase : x = b.gapBitmap.base) : b.Takes x (setBase (x + 1)) := by
  have hstarts := h.starts hpending
  refine ⟨fun sn => ?_, ?_, open_setBase _, wellFormed_setBase (window_int _)⟩
  · have hempty : b.gapBitmap.isSet sn ≠ true := by
      intro hset
      have hlt := hx sn ((h.covers_iff sn).mp (.inr ⟨hpending, .inr hset⟩))
      obtain ⟨d, -, rfl⟩ := (isSet_iff (window_int _) h.wellFormed sn).mp hset
      simp only [RangeItem.plus] at hlt
      omega
    rw [covers_setBase, Gap.Covers, or_iff_left hempty]
    dsimp only
    omega
  · change b.initialSequence < x + 1
    omega

/-- A number inside the window goes to the list of the pending GAP. -/
theorem Collected.enlist (h : b.Collected done) (hpending : b.isGapPending = true)
    (hlow : b.gapBitmap.base ≤ x) (hhigh : x ≤ b.gapBitmap.rangeMax) :
    b.Takes x (b.gapBitmap.add x) := by
  obtain ⟨d, hd, hx⟩ : ∃ d < 256, x = RangeItem.plus b.gapBitmap.base d := by
    rw [h.isOpen] at hhigh
    simp only [RangeItem.plus] at hhigh ⊢
    exact ⟨(x - b.gapBitmap.base).toNat, by omega, by omega⟩
  have hwf := h.wellFormed.add (window_int _) h.isOpen hd
  refine ⟨fun sn => ?_, ?_, h.isOpen.add x, hx ▸ hwf⟩
  · rw [Gap.Covers, base_add, hx, isSet_add h.isOpen h.wellFormed hd, ← hx, ← or_assoc]
    rfl
  · rw [base_add]
    exact h.starts hpending

/-- A number goes to the pending GAP, or starts a new one behind it. -/
theorem Collected.add_cases (h : b.Collected done) (hx : ∀ sn ∈ done, sn < x) :
    (∃ r, b.isGapPending = true ∧ b.add x = { b with gapBitmap := r } ∧ b.Takes x r) ∨
      b.add x = b.flush.restart x := by
  rw [GapBuilder.add]
  split
  · rename_i hnone
    rw [flush, if_neg (by simpa using hnone)]
    exact .inr rfl
  · rename_i hpending
    have hpending : b.isGapPending = true := by simpa using hpending
    split
    · exact .inl ⟨_, hpending, rfl, h.extend hpending hx ‹_›⟩
    · split
      · rename_i hin
        exact .inl ⟨_, hpending, rfl, h.enlist hpending hin.1 hin.2⟩
      · exact .inr rfl

lemma Collected.add (h : b.Collected done) (hx : ∀ sn ∈ done, sn < x) :
    (b.add x).Collected (done ++ [x]) := by
  rcases h.add_cases hx with ⟨r, hpending, hadd, hr⟩ | hadd <;> rw [hadd]
  · refine ⟨fun sn => ?_, fun _ => hr.starts, hr.isOpen, hr.wellFormed⟩
    rw [mem_append, mem_singleton, ← h.covers_iff sn, or_assoc]
    simp only [Pending, hpending, true_and, hr.covers_iff]
  · refine ⟨fun sn => ?_, fun _ => Int.lt_succ x, open_setBase _, wellFormed_setBase (window_int _)⟩
    rw [mem_append, mem_singleton, ← h.covers_iff sn, ← covers_flush b]
    refine or_congr_right ((and_iff_right rfl).trans ((covers_setBase x _ sn).trans ?_))
    omega

end Coverage

section Order

variable {b : GapBuilder} {done ns : List Int} {x : Int} {front : List Gap} {g : Gap}

/-- Every GAP starts below its list, and covers only numbers above those of the GAPs before it. -/
structure Ordered (gaps : List Gap) : Prop where
  starts : ∀ g ∈ gaps, g.gapStart < g.gapList.base
  increasing : gaps.Pairwise fun g g' => ∀ sn sn', g.Covers sn → g'.Covers sn' → sn < sn'

lemma ordered_append : Ordered (front ++ [g]) ↔ Ordered front ∧ g.gapStart < g.gapList.base ∧
    ∀ g' ∈ front, ∀ sn sn', g'.Covers sn → g.Covers sn' → sn < sn' := by
  constructor
  · rintro ⟨hstarts, hincreasing⟩
    obtain ⟨hfront, -, hlast⟩ := pairwise_append.mp hincreasing
    exact ⟨⟨fun g' hg' => hstarts g' (by simp [hg']), hfront⟩, hstarts g (by simp),
      fun g' hg' => hlast g' hg' g (by simp)⟩
  · rintro ⟨⟨hstarts, hincreasing⟩, hstart, hlast⟩
    refine ⟨forall_mem_append.mpr ⟨hstarts, by simpa using hstart⟩, pairwise_append.mpr
      ⟨hincreasing, pairwise_singleton _ _, fun g' hg' => ?_⟩⟩
    simpa using hlast g' hg'

/-- The GAPs stay in order when a number above those added before is added. -/
theorem Collected.ordered_add (h : b.Collected done) (hx : ∀ sn ∈ done, sn < x)
    (hb : Ordered b.flush.added) : Ordered (b.add x).flush.added := by
  have hbelow : ∀ g ∈ b.flush.added, ∀ sn, g.Covers sn → sn < x := fun g hg sn hsn =>
    hx sn ((h.covers_iff sn).mp ((covers_flush b sn).mp ⟨g, hg, hsn⟩))
  rcases h.add_cases hx with ⟨r, hpending, hadd, hr⟩ | hadd <;> rw [hadd]
  · have hflush : ∀ r, ({ b with gapBitmap := r } : GapBuilder).flush.added =
        b.added ++ [⟨b.initialSequence, r⟩] := by simp [flush, hpending]
    rw [hflush b.gapBitmap] at hb hbelow
    obtain ⟨hfront, -, hlast⟩ := ordered_append.mp hb
    rw [hflush, ordered_append]
    refine ⟨hfront, hr.starts, fun g hg sn sn' hsn hsn' => ?_⟩
    rcases (hr.covers_iff sn').mp hsn' with hsn' | rfl
    · exact hlast g hg sn sn' hsn hsn'
    · exact hbelow g (mem_append_left _ hg) sn hsn
  · refine ordered_append.mpr ⟨hb, Int.lt_succ x, fun g hg sn sn' hsn hsn' => ?_⟩
    exact Int.lt_of_lt_of_le (hbelow g hg sn hsn) ((covers_setBase x _ sn').mp hsn').1

lemma Collected.foldl (h : b.Collected done) (hns : (done ++ ns).Pairwise (· < ·))
    (hb : Ordered b.flush.added) :
    (ns.foldl GapBuilder.add b).Collected (done ++ ns) ∧
      Ordered (ns.foldl GapBuilder.add b).flush.added := by
  induction ns generalizing b done with
  | nil => simpa using ⟨h, hb⟩
  | cons n ns ih =>
    have hlast : ∀ sn ∈ done, sn < n := by
      intro sn hsn
      exact (pairwise_append.mp hns).2.2 sn hsn n (by simp)
    have hstep := ih (h.add hlast) (by simpa using hns) (h.ordered_add hlast hb)
    simpa using hstep

lemma collected_gapsFor (hns : ns.Pairwise (· < ·)) :
    (ns.foldl GapBuilder.add new).Collected ns ∧ Ordered (gapsFor ns) :=
  collected_new.foldl (by simpa using hns) ⟨by simp [new, flush], by simp [new, flush]⟩

/-- Numbers added in increasing order are covered, and nothing else is: each addition covers one
number more, and the last flush loses none. -/
theorem covers_gapsFor (hns : ns.Pairwise (· < ·)) (sn : Int) :
    (∃ g ∈ gapsFor ns, g.Covers sn) ↔ sn ∈ ns := by
  rw [gapsFor, covers_flush, (collected_gapsFor hns).1.covers_iff]

/-- The GAPs for increasing numbers cover just these, each in one GAP, in their order. So a reader
is told of no number that the writer did not add. -/
theorem gapsFor_exact (hns : ns.Pairwise (· < ·)) :
    (∀ sn, (∃ g ∈ gapsFor ns, g.Covers sn) ↔ sn ∈ ns) ∧
      (∀ g ∈ gapsFor ns, g.gapStart < g.gapList.base) ∧
      (gapsFor ns).Pairwise fun g g' => ∀ sn sn', g.Covers sn → g'.Covers sn' → sn < sn' := by
  obtain ⟨hstarts, hincreasing⟩ := (collected_gapsFor hns).2
  exact ⟨covers_gapsFor hns, hstarts, hincreasing⟩

/-- A run, a number in its list, and one too far away for the list. -/
theorem gapsFor_exact_run : (gapsFor [3, 4, 6, 300]).length = 2 ∧
    ∀ sn, (∃ g ∈ gapsFor [3, 4, 6, 300], g.Covers sn) ↔ sn ∈ [3, 4, 6, 300] :=
  ⟨by decide, (gapsFor_exact (by decide)).1⟩

end Order

end GapBuilder

end EasyDds.Rtps
