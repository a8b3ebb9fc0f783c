import Mathlib.Algebra.Order.Ring.Int
import Mathlib.Data.List.Sort
import Mathlib.Data.Set.Basic
import EasyDds.Lib.Join
import EasyDds.Lib.LowerBound
import EasyDds.Rtps.Bitmap.Members

/-!
`WriterProxy`: what a reader knows about the changes of a writer. Sequence numbers stand for their
values. Where an assertion of `SequenceNumber_t` fails the result is `none`: sums have to stay in 64
bits, and a difference must not borrow from an upper half that is not positive.
-/

namespace EasyDds.Rtps

open List

/-- `WriterProxy`. `changesReceived` is the `std::set` in its order. -/
structure WriterProxy where
  changesFromWriterLowMark : Int
  maxSequenceNumber : Int
  changesReceived : List Int
deriving DecidableEq

namespace WriterProxy

def start (initialSequence : Int) : WriterProxy := ⟨initialSequence, initialSequence, []⟩

section Functions

variable (w : WriterProxy) (seqNum : Int)

/-- `operator -` of a sequence number and a `uint32_t`. -/
def checkedMinus (dec : Nat) : Option Int :=
  if seqNum % 2 ^ 32 < dec ∧ seqNum < 2 ^ 32 then none else some (seqNum - dec)

def cleanupFrom (lowMark : Int) : List Int → Option (Int × List Int)
  | [] => some (lowMark, [])
  | seq :: rest => do
    let next ← checkedPlus lowMark 1
    if seq = next then cleanupFrom next rest else some (lowMark, seq :: rest)

def cleanup : Option WriterProxy := do
  let r ← cleanupFrom w.changesFromWriterLowMark w.changesReceived
  some { w with changesFromWriterLowMark := r.1, changesReceived := r.2 }

def missingChangesUpdate : WriterProxy :=
  if w.changesFromWriterLowMark < seqNum then
    if w.maxSequenceNumber < seqNum then { w with maxSequenceNumber := seqNum } else w
  else w

def saturate (tmp : Int) : Int := if 2 ^ 31 - 1 < tmp then 2 ^ 31 - 1 else tmp

def lostChangesUpdate : Option (Int × WriterProxy) := do
  let next ← checkedPlus w.changesFromWriterLowMark 1
  if next < seqNum then
    let it := lowerBound (fun seq => decide (seq < seqNum)) w.changesReceived
    let lost :=
      match w.changesReceived with
      | first :: _ =>
        (first - (w.changesFromWriterLowMark + 1)) % 2 ^ 64 + (seqNum - first - it) % 2 ^ 64
      | [] => seqNum - (w.changesFromWriterLowMark + 1)
    let lowMark ← checkedMinus seqNum 1
    let w' ← cleanup {
      changesFromWriterLowMark := lowMark
      maxSequenceNumber := if w.maxSequenceNumber < lowMark then lowMark else w.maxSequenceNumber
      changesReceived := w.changesReceived.drop it }
    some (saturate (lost % 2 ^ 64), w')
  else some (0, w)

def insert (seq : Int) (received : List Int) : List Int :=
  if seq ∈ received then received else received.orderedInsert (· ≤ ·) seq

def receivedChangeSet : Option (Bool × WriterProxy) :=
  if seqNum ≤ w.changesFromWriterLowMark then some (false, w)
  else do
    let next ← checkedPlus w.changesFromWriterLowMark 1
    if w.maxSequenceNumber < seqNum then
      if seqNum = next then
        some (true, { w with changesFromWriterLowMark := seqNum, maxSequenceNumber := seqNum })
      else
        some (true, { w with
          changesReceived := insert seqNum w.changesReceived, maxSequenceNumber := seqNum })
    else if next = seqNum then do
      let w' ← cleanup { w with changesFromWriterLowMark := seqNum }
      some (true, w')
    else if seqNum ∈ w.changesReceived then some (false, w)
    else some (true, { w with changesReceived := insert seqNum w.changesReceived })

def irrelevantChangeSet : Option (Bool × WriterProxy) := w.receivedChangeSet seqNum

/-- `SequenceNumberSet_t(base)`. -/
def newSet (base : Int) : Option (BitmapRange Int) := do
  let _ ← checkedPlus base 255
  some (.setBase base)

/-- `add_range`, which computes the end of the window. -/
def addRange (sns : BitmapRange Int) (first last : Int) : Option (BitmapRange Int) := do
  let _ ← checkedPlus sns.base 256
  some (sns.addRange first last)

def missingFrom (maxMissing : Int) (sns : BitmapRange Int) (firstMissing : Int) :
    List Int → Option (BitmapRange Int)
  | [] => if firstMissing < maxMissing then addRange sns firstMissing maxMissing else some sns
  | seq :: rest => do
    let seq := min seq maxMissing
    let sns ← addRange sns firstMissing seq
    let firstMissing ← checkedPlus seq 1
    if maxMissing ≤ firstMissing then some sns else missingFrom maxMissing sns firstMissing rest

def missingChanges : Option (BitmapRange Int) := do
  let firstMissing ← checkedPlus w.changesFromWriterLowMark 1
  let windowEnd ← checkedPlus firstMissing 256
  let next ← checkedPlus w.maxSequenceNumber 1
  let sns ← newSet firstMissing
  missingFrom (min windowEnd next) sns firstMissing w.changesReceived

def changeWasReceived : Bool :=
  if seqNum ≤ w.changesFromWriterLowMark then true else decide (seqNum ∈ w.changesReceived)

def areThereMissingChanges : Bool := decide (w.changesFromWriterLowMark < w.maxSequenceNumber)

/-- The loop of `unknown_missing_changes_up_to` with the rest that is added behind it, in `uint32_t`
arithmetic. -/
def unknownFrom (seqNum : Int) (value : Nat) (firstMissing : Int) : List Int → Option Nat
  | [] => some <|
    if firstMissing < seqNum then (value + RangeItem.diff seqNum firstMissing) % 2 ^ 32 else value
  | seq :: rest => do
    let seq := min seq seqNum
    let value :=
      if firstMissing < seq then (value + RangeItem.diff seq firstMissing) % 2 ^ 32 else value
    let firstMissing ← checkedPlus seq 1
    if seqNum ≤ firstMissing then some value else unknownFrom seqNum value firstMissing rest

def unknownMissingChangesUpTo : Option Nat :=
  if w.changesFromWriterLowMark < seqNum then do
    let firstMissing ← checkedPlus w.changesFromWriterLowMark 1
    let _ ← newSet firstMissing
    unknownFrom seqNum 0 firstMissing w.changesReceived
  else some 0

inductive Event
  | received (seqNum : Int)
  | irrelevant (seqNum : Int)
  | lost (seqNum : Int)
  | missing (seqNum : Int)
deriving DecidableEq

def step : Event → Option WriterProxy
  | .received seqNum => (w.receivedChangeSet seqNum).map (·.2)
  | .irrelevant seqNum => (w.irrelevantChangeSet seqNum).map (·.2)
  | .lost seqNum => (w.lostChangesUpdate seqNum).map (·.2)
  | .missing seqNum => some (w.missingChangesUpdate seqNum)

def run (events : List Event) : Option WriterProxy := events.foldlM step w 
def Reached : Prop := ∃ initialSequence events, (start initialSequence).run events = some w

end Functions

/-- The received changes are in order, above the low mark and not next to it, and none is above the
maximum. -/
structure Inv (w : WriterProxy) : Prop where
  sorted : w.changesReceived.Pairwise (· < ·)
  above : ∀ seq ∈ w.changesReceived, w.changesFromWriterLowMark + 1 < seq
  le_max : ∀ seq ∈ w.changesReceived, seq ≤ w.maxSequenceNumber
  low_le_max : w.changesFromWriterLowMark ≤ w.maxSequenceNumber

/-- The numbers that are known, and the largest one that was announced. -/
@[ext]
structure Knowledge where
  numbers : Set Int
  largest : Int

instance : Max Knowledge := ⟨fun a b => ⟨a.numbers ∪ b.numbers, max a.largest b.largest⟩⟩

instance : SemilatticeSup Knowledge :=
  .mk' (fun _ _ => Knowledge.ext (Set.union_comm _ _) (max_comm _ _))
    (fun _ _ _ => Knowledge.ext (Set.union_assoc _ _ _) (max_assoc _ _ _))
    fun _ => Knowledge.ext (Set.union_self _) (max_self _)

@[simp] lemma Knowledge.numbers_sup (a b : Knowledge) :
    (a ⊔ b).numbers = a.numbers ∪ b.numbers :=
  rfl

def known (w : WriterProxy) : Knowledge :=
  ⟨{seq | seq ≤ w.changesFromWriterLowMark ∨ seq ∈ w.changesReceived}, w.maxSequenceNumber⟩

def Event.adds : Event → Knowledge
  | .received seqNum | .irrelevant seqNum => ⟨{seqNum}, seqNum⟩
  | .lost seqNum => ⟨{seq | seq < seqNum}, seqNum - 1⟩
  | .missing seqNum => ⟨∅, seqNum⟩

structure Loose (w : WriterProxy) : Prop where
  sorted : w.changesReceived.Pairwise (· < ·)
  above : ∀ seq ∈ w.changesReceived, w.changesFromWriterLowMark < seq
  le_max : ∀ seq ∈ w.changesReceived, seq ≤ w.maxSequenceNumber
  low_le_max : w.changesFromWriterLowMark ≤ w.maxSequenceNumber

variable {received : List Int}

lemma cleanupFrom_spec {lowMark : Int} {r : Int × List Int} (hsorted : received.Pairwise (· < ·))
    (habove : ∀ seq ∈ received, lowMark < seq) (h : cleanupFrom lowMark received = some r) :
    r.2.Pairwise (· < ·) ∧ (∀ seq ∈ r.2, r.1 + 1 < seq) ∧ (∀ seq ∈ r.2, seq ∈ received) ∧
      (r.1 = lowMark ∨ r.1 ∈ received) ∧
      ∀ seq, seq ≤ r.1 ∨ seq ∈ r.2 ↔ seq ≤ lowMark ∨ seq ∈ received := by
  induction received generalizing lowMark with
  | nil =>
    obtain rfl := Option.some.inj h
    simp
  | cons seq rest ih =>
    rw [pairwise_cons] at hsorted
    have hfirst := habove seq mem_cons_self
    obtain ⟨-, h⟩ := checkedPlus_one_bind_eq_some_iff.1 h
    split_ifs at h with hnext
    · have hrest : ∀ s ∈ rest, lowMark + 1 < s := fun s hs => hnext ▸ hsorted.1 s hs
      obtain ⟨hs, ha, hmem, hlow, hiff⟩ := ih hsorted.2 hrest h
      refine ⟨hs, ha, fun s h => mem_cons_of_mem _ (hmem s h), ?_, fun s => ?_⟩
      · rcases hlow with hlow | hlow
        · exact .inr (by rw [hlow, ← hnext]; exact mem_cons_self)
        · exact .inr (mem_cons_of_mem _ hlow)
      · rw [hiff, mem_cons]
        constructor
        · rintro (h | h)
          · omega
          · exact .inr (.inr h)
        · rintro (h | rfl | h)
          · omega
          · omega
          · exact .inr h
    · obtain rfl := Option.some.inj h
      refine ⟨pairwise_cons.2 hsorted, fun s hs => ?_, fun s hs => hs, .inl rfl, fun s => Iff.rfl⟩
      rcases mem_cons.1 hs with rfl | hs
      · omega
      · have := hsorted.1 s hs
        omega

/-- A sum is computed only in front of a received number, which is not smaller. -/
lemma exists_cleanupFrom {lowMark : Int} (hsorted : received.Pairwise (· < ·))
    (habove : ∀ seq ∈ received, lowMark < seq) (hlt : ∀ seq ∈ received, seq < 2 ^ 63) :
    ∃ r, cleanupFrom lowMark received = some r := by
  induction received generalizing lowMark with
  | nil => exact ⟨_, rfl⟩
  | cons seq rest ih =>
    rw [pairwise_cons] at hsorted
    have hfirst := habove seq mem_cons_self
    have hbound := hlt seq mem_cons_self
    rw [cleanupFrom, checkedPlus_one_bind (by omega)]
    split_ifs with hnext
    · exact ih hsorted.2 (fun s hs => hnext ▸ hsorted.1 s hs) fun s hs =>
        hlt s (mem_cons_of_mem _ hs)
    · exact ⟨_, rfl⟩

lemma Loose.cleanup {w w' : WriterProxy} (h : w.Loose) (hcleanup : w.cleanup = some w') :
    w'.Inv ∧ w'.known = w.known := by
  obtain ⟨r, hr, heq⟩ := Option.bind_eq_some_iff.1 hcleanup
  obtain rfl := Option.some.inj heq
  obtain ⟨hsorted, habove, hmem, hlow, hiff⟩ := cleanupFrom_spec h.sorted h.above hr
  refine ⟨⟨hsorted, habove, fun seq hs => h.le_max seq (hmem seq hs), ?_⟩, ?_⟩
  · rcases hlow with hlow | hlow
    · exact hlow.trans_le h.low_le_max
    · exact h.le_max _ hlow
  · exact Knowledge.ext (Set.ext hiff) rfl

lemma Loose.exists_cleanup {w : WriterProxy} (h : w.Loose) (hmax : w.maxSequenceNumber < 2 ^ 63) :
    ∃ w', w.cleanup = some w' := by
  obtain ⟨r, hr⟩ := exists_cleanupFrom h.sorted h.above fun seq hs =>
    (h.le_max seq hs).trans_lt hmax
  exact ⟨_, by rw [WriterProxy.cleanup, hr]; rfl⟩

lemma mem_insert {seq x : Int} : x ∈ insert seq received ↔ x = seq ∨ x ∈ received := by
  rw [insert]
  split
  · rename_i hmem
    exact ⟨.inr, fun h => h.elim (fun h => h ▸ hmem) id⟩
  · exact mem_orderedInsert _

lemma insert_sorted {seq : Int} (h : received.Pairwise (· < ·)) :
    (insert seq received).Pairwise (· < ·) := by
  rw [insert]
  split
  · exact h
  · rename_i hnew
    have hle := (h.imp le_of_lt).orderedInsert (r := (· ≤ ·)) seq
    have hnodup : (received.orderedInsert (· ≤ ·) seq).Nodup :=
      (perm_orderedInsert _ seq received).nodup_iff.2 (nodup_cons.2 ⟨hnew, h.imp ne_of_lt⟩)
    exact hle.imp₂ (fun _ _ hle hne => lt_of_le_of_ne hle hne) hnodup

variable {w : WriterProxy} {seqNum : Int}

lemma Inv.loose (h : w.Inv) : w.Loose :=
  ⟨h.sorted, fun seq hs => by have := h.above seq hs; omega, h.le_max, h.low_le_max⟩

lemma Inv.loose_next (h : w.Inv) (hnext : w.changesFromWriterLowMark + 1 = seqNum)
    (hle : seqNum ≤ w.maxSequenceNumber) : Loose { w with changesFromWriterLowMark := seqNum } :=
  ⟨h.sorted, fun seq hs => hnext ▸ h.above seq hs, h.le_max, hle⟩

/-- The low mark ends the known numbers that have no gap below them. -/
theorem Inv.not_mem_known (h : w.Inv) : w.changesFromWriterLowMark + 1 ∉ w.known.numbers := by
  rintro (hle | hmem)
  · omega
  · exact absurd (h.above _ hmem) (lt_irrefl _)

lemma inv_start (initialSequence : Int) : (start initialSequence).Inv :=
  ⟨.nil, by simp [start], by simp [start], le_rfl⟩

/-- Two descriptions of what is known, part by part. -/
theorem known_eq_sup {w' : WriterProxy} {numbers : Set Int} {top : Int}
    (hknown : ∀ seq, seq ∈ w'.known.numbers ↔ seq ∈ w.known.numbers ∨ seq ∈ numbers)
    (hmax : w'.maxSequenceNumber = max w.maxSequenceNumber top) :
    w'.known = w.known ⊔ ⟨numbers, top⟩ :=
  Knowledge.ext (Set.ext hknown) hmax

lemma Inv.missingChangesUpdate (h : w.Inv) : (w.missingChangesUpdate seqNum).Inv ∧
      (w.missingChangesUpdate seqNum).known = w.known ⊔ ⟨∅, seqNum⟩ := by
  have hlow := h.low_le_max
  rw [WriterProxy.missingChangesUpdate]
  split_ifs with hlt hmax
  · refine ⟨⟨h.sorted, h.above, fun seq hs => (h.le_max seq hs).trans hmax.le, hlt.le⟩, ?_⟩
    exact known_eq_sup (by simp [known]) (max_eq_right hmax.le).symm
  · exact ⟨h, known_eq_sup (by simp) (max_eq_left (by omega)).symm⟩
  · exact ⟨h, known_eq_sup (by simp) (max_eq_left (by omega)).symm⟩

lemma Inv.inserted (h : w.Inv) (hgap : w.changesFromWriterLowMark + 1 < seqNum) {largest : Int}
    (hlargest : largest = max w.maxSequenceNumber seqNum) : let inserted : WriterProxy := { w with
        maxSequenceNumber := largest
        changesReceived := insert seqNum w.changesReceived }
    inserted.Inv ∧ inserted.known = w.known ⊔ ⟨{seqNum}, seqNum⟩ := by
  have hlow := h.low_le_max
  refine ⟨⟨insert_sorted h.sorted, fun seq hs => ?_, fun seq hs => ?_, ?_⟩,
    known_eq_sup (fun seq => ?_) hlargest⟩
  · rcases mem_insert.1 hs with rfl | hs
    · exact hgap
    · exact h.above seq hs
  · rcases mem_insert.1 hs with rfl | hs
    · exact hlargest ▸ le_max_right _ _
    · exact (h.le_max seq hs).trans (hlargest ▸ le_max_left _ _)
  · exact hlow.trans (hlargest ▸ le_max_left _ _)
  · simp only [known, Set.mem_ofPred_eq, mem_insert, Set.mem_singleton_iff]
    tauto

lemma Inv.receivedChangeSet (h : w.Inv) {r : Bool × WriterProxy}
    (hr : w.receivedChangeSet seqNum = some r) :
    r.2.Inv ∧ r.2.known = w.known ⊔ ⟨{seqNum}, seqNum⟩ := by
  have hlow := h.low_le_max
  have hsame : seqNum ∈ w.known.numbers → w.known = w.known ⊔ ⟨{seqNum}, seqNum⟩ := by
    intro hmem
    refine known_eq_sup (fun seq => ?_) (max_eq_left ?_).symm
    · exact ⟨.inl, fun h => h.elim id fun h => h ▸ hmem⟩
    · exact hmem.elim (fun hle => hle.trans hlow) (h.le_max seqNum)
  rw [WriterProxy.receivedChangeSet] at hr
  by_cases hold : seqNum ≤ w.changesFromWriterLowMark
  · rw [if_pos hold] at hr
    obtain rfl := Option.some.inj hr
    exact ⟨h, hsame (.inl hold)⟩
  rw [if_neg hold] at hr
  obtain ⟨-, hr⟩ := checkedPlus_one_bind_eq_some_iff.1 hr
  split_ifs at hr with hnew hnext hnext hmem
  · -- Nothing can have been received above the maximum.
    obtain rfl := Option.some.inj hr
    have hnone : w.changesReceived = [] := by
      refine eq_nil_iff_forall_not_mem.2 fun seq hs => ?_
      have habove := h.above seq hs
      have hmax := h.le_max seq hs
      omega
    refine ⟨⟨h.sorted, by simp [hnone], by simp [hnone], le_rfl⟩, ?_⟩
    refine known_eq_sup (fun seq => ?_) (max_eq_right hnew.le).symm
    simp only [known, hnone, Set.mem_ofPred_eq, not_mem_nil, or_false, Set.mem_singleton_iff]
    omega
  · obtain rfl := Option.some.inj hr
    exact h.inserted (by omega) (max_eq_right hnew.le).symm
  · obtain ⟨w', hcleanup, hr⟩ := Option.bind_eq_some_iff.1 hr
    obtain rfl := Option.some.inj hr
    obtain ⟨hinv, hknown⟩ := (h.loose_next hnext (not_lt.1 hnew)).cleanup hcleanup
    refine ⟨hinv, hknown.trans ?_⟩
    refine known_eq_sup (fun seq => ?_) (max_eq_left (not_lt.1 hnew)).symm
    have hbelow : seq ≤ seqNum ↔ seq ≤ w.changesFromWriterLowMark ∨ seq = seqNum := by omega
    simp only [known, Set.mem_ofPred_eq, Set.mem_singleton_iff, hbelow]
    tauto
  · obtain rfl := Option.some.inj hr
    exact ⟨h, hsame (.inr hmem)⟩
  · obtain rfl := Option.some.inj hr
    exact h.inserted (by omega) (max_eq_left (not_lt.1 hnew)).symm

lemma Inv.split (h : w.Inv) (seqNum : Int) : ∃ below rest, w.changesReceived = below ++ rest ∧
      lowerBound (fun seq => decide (seq < seqNum)) w.changesReceived = below.length ∧
      (∀ seq ∈ below, seq < seqNum) ∧ ∀ seq ∈ rest, seqNum ≤ seq := by
  have horder : w.changesReceived.Pairwise fun x y =>
      decide (y < seqNum) = true → decide (x < seqNum) = true :=
    h.sorted.imp fun hlt => by simpa using fun hy => hlt.trans hy
  obtain ⟨below, rest, hsplit, hbound, hbelow, hrest⟩ := exists_lowerBound horder
  exact ⟨below, rest, hsplit, hbound, by simpa using hbelow, by simpa using hrest⟩

/-- The proxy after the low mark was moved up, before the cleanup. -/
theorem Inv.raised (h : w.Inv) {seqNum lowMark : Int} (hlowMark : lowMark = seqNum - 1)
    (hlost : w.changesFromWriterLowMark + 1 < seqNum) : let raised : WriterProxy := {
        changesFromWriterLowMark := lowMark
        maxSequenceNumber := if w.maxSequenceNumber < lowMark then lowMark else w.maxSequenceNumber
        changesReceived := w.changesReceived.drop
          (lowerBound (fun seq => decide (seq < seqNum)) w.changesReceived) }
    raised.Loose ∧ raised.known = w.known ⊔ ⟨{seq | seq < seqNum}, seqNum - 1⟩ := by
  subst hlowMark
  obtain ⟨below, rest, hsplit, hbound, hbelow, hrest⟩ := h.split seqNum
  have hmem : ∀ seq ∈ rest, seq ∈ w.changesReceived := by
    intro seq hs
    rw [hsplit]
    exact mem_append_right _ hs
  have hdrop : w.changesReceived.drop
      (lowerBound (fun seq => decide (seq < seqNum)) w.changesReceived) = rest := by
    rw [hbound, hsplit, drop_left]
  have hmax : (if w.maxSequenceNumber < seqNum - 1 then seqNum - 1 else w.maxSequenceNumber) =
      max w.maxSequenceNumber (seqNum - 1) := by
    split_ifs <;> omega
  rw [hdrop, hmax]
  refine ⟨⟨?_, fun seq hs => ?_, fun seq hs => ?_, le_max_right _ _⟩, ?_⟩
  · have hsorted := h.sorted
    rw [hsplit] at hsorted
    exact (pairwise_append.1 hsorted).2.1
  · have := hrest seq hs
    simp only
    omega
  · exact (h.le_max seq (hmem seq hs)).trans (le_max_left _ _)
  · refine known_eq_sup (fun seq => ?_) rfl
    simp only [known, Set.mem_ofPred_eq, hsplit, mem_append]
    have hless := hbelow seq
    constructor
    · rintro (hle | hmem)
      · exact .inr (by omega)
      · exact .inl (.inr (.inr hmem))
    · rintro ((hle | hmem | hmem) | hlt)
      · exact .inl (by omega)
      · have := hless hmem
        exact .inl (by omega)
      · exact .inr hmem
      · exact .inl (by omega)

lemma checkedMinus_eq_some {x : Int} {n : Nat} (h : checkedMinus seqNum n = some x) :
    x = seqNum - n := by
  rw [checkedMinus] at h
  split_ifs at h
  exact (Option.some.inj h).symm

lemma Inv.lostChangesUpdate (h : w.Inv) {r : Int × WriterProxy}
    (hr : w.lostChangesUpdate seqNum = some r) :
    r.2.Inv ∧ r.2.known = w.known ⊔ ⟨{seq | seq < seqNum}, seqNum - 1⟩ := by
  have hlow := h.low_le_max
  obtain ⟨-, hr⟩ := checkedPlus_one_bind_eq_some_iff.1 hr
  split_ifs at hr with hlost
  · obtain ⟨lowMark, hminus, hr⟩ := Option.bind_eq_some_iff.1 hr
    obtain ⟨w', hcleanup, hr⟩ := Option.bind_eq_some_iff.1 hr
    obtain rfl := Option.some.inj hr
    obtain ⟨hloose, hraised⟩ := h.raised (checkedMinus_eq_some hminus) hlost
    obtain ⟨hinv, hknown⟩ := hloose.cleanup hcleanup
    exact ⟨hinv, hknown.trans hraised⟩
  · obtain rfl := Option.some.inj hr
    have hbelow : seqNum - 1 ≤ w.maxSequenceNumber := by omega
    refine ⟨h, known_eq_sup (fun seq => ?_) (max_eq_left hbelow).symm⟩
    refine ⟨.inl, fun hseq => hseq.elim id fun hlt => .inl ?_⟩
    have : seq < seqNum := hlt
    change seq ≤ w.changesFromWriterLowMark
    omega

/-- An event joins what it says with what is known. So it makes no difference in which order events
come, and how often. -/
theorem Inv.step {w' : WriterProxy} (h : w.Inv) (e : Event) (hstep : w.step e = some w') :
    w'.Inv ∧ w'.known = w.known ⊔ e.adds := by
  cases e with
  | received seqNum | irrelevant seqNum =>
    obtain ⟨r, hr, rfl⟩ := Option.map_eq_some_iff.1 hstep
    exact h.receivedChangeSet hr
  | lost seqNum =>
    obtain ⟨r, hr, rfl⟩ := Option.map_eq_some_iff.1 hstep
    exact h.lostChangesUpdate hr
  | missing seqNum =>
    obtain rfl := Option.some.inj hstep
    exact h.missingChangesUpdate

lemma Inv.run {w' : WriterProxy} {events : List Event} (h : w.Inv)
    (hrun : w.run events = some w') : w'.Inv ∧ w'.known = joinAll Event.adds w.known events :=
  foldlM_eq_joinAll (fun _ e _ hw => hw.step e) h hrun

lemma Reached.inv (h : w.Reached) : w.Inv := by
  obtain ⟨initialSequence, events, hrun⟩ := h
  exact ((inv_start initialSequence).run hrun).1

/-- What is known determines the proxy: the low mark is the last number without a gap below it, and
the received changes are the rest. -/
theorem Inv.eq_of_known {w' : WriterProxy} (h : w.Inv) (h' : w'.Inv) (heq : w.known = w'.known) :
    w = w' := by
  have hmax : w.maxSequenceNumber = w'.maxSequenceNumber := congrArg Knowledge.largest heq
  have hset : ∀ seq, seq ∈ w.known.numbers ↔ seq ∈ w'.known.numbers := fun seq => by rw [heq]
  have hle : ∀ {v v' : WriterProxy}, v.Inv → v'.Inv →
      (∀ seq, seq ∈ v.known.numbers ↔ seq ∈ v'.known.numbers) →
      v.changesFromWriterLowMark ≤ v'.changesFromWriterLowMark := by
    intro v v' hv hv' hsame
    by_contra hlt
    exact hv'.not_mem_known ((hsame _).1 (.inl (by omega)))
  have hlow : w.changesFromWriterLowMark = w'.changesFromWriterLowMark :=
    le_antisymm (hle h h' hset) (hle h' h fun seq => (hset seq).symm)
  have hreceived : w.changesReceived = w'.changesReceived := by
    refine List.Perm.eq_of_pairwise (fun a b _ _ hab hba => absurd (hab.trans hba) (lt_irrefl a))
      h.sorted h'.sorted ?_
    refine (perm_ext_iff_of_nodup (h.sorted.imp ne_of_lt) (h'.sorted.imp ne_of_lt)).2 fun seq => ?_
    have habove : ∀ {v : WriterProxy}, v.Inv → (seq ∈ v.changesReceived ↔
        seq ∈ v.known.numbers ∧ v.changesFromWriterLowMark < seq) := by
      intro v hv
      refine ⟨fun hs => ⟨.inr hs, hv.loose.above seq hs⟩, fun ⟨hs, hlt⟩ => ?_⟩
      exact hs.resolve_left (by omega)
    rw [habove h, habove h', hset, hlow]
  cases w
  cases w'
  simp_all

lemma changeWasReceived_iff : w.changeWasReceived seqNum = true ↔ seqNum ∈ w.known.numbers := by
  rw [changeWasReceived]
  split <;> simp_all [known]

section Returns

def top : Int := 2 ^ 63 - 1

/-- A number is accepted if it is not known yet, and every number can be taken in. -/
theorem exists_receivedChangeSet (h : w.Inv) (hmax : w.maxSequenceNumber ≤ top)
    (hseq : seqNum ≤ top) :
    ∃ w', w.receivedChangeSet seqNum = some (!w.changeWasReceived seqNum, w') := by
  rw [top] at hmax hseq
  rw [WriterProxy.receivedChangeSet, changeWasReceived]
  by_cases hold : seqNum ≤ w.changesFromWriterLowMark
  · exact ⟨w, by rw [if_pos hold, if_pos hold]; rfl⟩
  rw [if_neg hold, if_neg hold, checkedPlus_one_bind (by omega)]
  by_cases hmem : seqNum ∈ w.changesReceived
  · have hle := h.le_max seqNum hmem
    have hgap := h.above seqNum hmem
    rw [if_neg (not_lt.2 hle), if_neg hgap.ne, if_pos hmem, decide_eq_true hmem]
    exact ⟨w, rfl⟩
  · rw [decide_eq_false hmem]
    split_ifs with hnew hfirst hnext
    · exact ⟨_, rfl⟩
    · exact ⟨_, rfl⟩
    · obtain ⟨w', hw'⟩ := (h.loose_next hnext (not_lt.1 hnew)).exists_cleanup (by simp only; omega)
      exact ⟨w', by rw [hw']; rfl⟩
    · exact ⟨_, rfl⟩

/-- A lost mark needs the number behind the low mark, whether it is above it or not. -/
theorem exists_lostChangesUpdate_iff (h : w.Inv) (hlow : 0 ≤ w.changesFromWriterLowMark)
    (hmax : w.maxSequenceNumber ≤ top) (hseq : seqNum ≤ top) :
    (∃ r, w.lostChangesUpdate seqNum = some r) ↔ w.changesFromWriterLowMark < top := by
  rw [top] at hmax hseq ⊢
  constructor
  · rintro ⟨r, hr⟩
    have := (checkedPlus_one_bind_eq_some_iff.1 hr).1
    omega
  · intro hroom
    rw [WriterProxy.lostChangesUpdate, checkedPlus_one_bind (by omega)]
    split_ifs with hlost
    · have hminus : checkedMinus seqNum 1 = some (seqNum - 1) := if_neg (by omega)
      obtain ⟨hloose, -⟩ := h.raised rfl hlost
      obtain ⟨w', hw'⟩ := hloose.exists_cleanup (by simp only; split_ifs <;> omega)
      exact ⟨_, by rw [hminus, Option.bind_eq_bind, Option.bind_some, hw']; rfl⟩
    · exact ⟨_, rfl⟩

/-- States from which no assertion fails as long as nothing is said about the largest number. -/
structure Roomy (w : WriterProxy) : Prop where
  nonneg : 0 ≤ w.changesFromWriterLowMark
  le_top : w.maxSequenceNumber ≤ top
  free : w.changeWasReceived top = false

def Event.BelowTop : Event → Prop
  | .received seqNum | .irrelevant seqNum => seqNum < top
  | .lost seqNum | .missing seqNum => seqNum ≤ top

lemma Event.BelowTop.adds {e : Event} (he : e.BelowTop) :
    top ∉ e.adds.numbers ∧ e.adds.largest ≤ top := by
  cases e with
  | received seqNum | irrelevant seqNum =>
    have hlt : seqNum < top := he
    exact ⟨fun h => absurd h hlt.ne', hlt.le⟩
  | lost seqNum =>
    have hle : seqNum ≤ top := he
    exact ⟨fun h => absurd h (not_lt.2 hle), by simp only [Event.adds]; omega⟩
  | missing seqNum => exact ⟨id, he⟩

lemma Roomy.low_lt_top (h : w.Roomy) : w.changesFromWriterLowMark < top := by
  by_contra hle
  have hknown : w.changeWasReceived top = true := changeWasReceived_iff.2 (.inl (not_lt.1 hle))
  rw [h.free] at hknown
  cases hknown

lemma Inv.exists_step (h : w.Inv) (hroomy : w.Roomy) {e : Event} (he : e.BelowTop) :
    ∃ w', w.step e = some w' := by
  cases e with
  | received seqNum | irrelevant seqNum =>
    have hlt : seqNum < top := he
    obtain ⟨w', hw'⟩ := exists_receivedChangeSet h hroomy.le_top hlt.le
    exact ⟨w', Option.map_eq_some_iff.2 ⟨_, hw', rfl⟩⟩
  | lost seqNum =>
    obtain ⟨r, hr⟩ := (exists_lostChangesUpdate_iff h hroomy.nonneg hroomy.le_top he).2
      hroomy.low_lt_top
    exact ⟨r.2, Option.map_eq_some_iff.2 ⟨r, hr, rfl⟩⟩
  | missing seqNum => exact ⟨_, rfl⟩

/-- The low mark never falls, and the largest number stays unknown. -/
lemma Roomy.step {w' : WriterProxy} {e : Event} (hroomy : w.Roomy) (he : e.BelowTop)
    (hinv : w'.Inv) (hknown : w'.known = w.known ⊔ e.adds) : w'.Roomy := by
  obtain ⟨hfree, hmax⟩ := he.adds
  have hmem : ∀ seq, seq ∈ w'.known.numbers ↔ seq ∈ w.known.numbers ∨ seq ∈ e.adds.numbers := by
    intro seq
    rw [hknown]
    rfl
  refine ⟨?_, ?_, ?_⟩
  · by_contra hneg
    refine hinv.not_mem_known ((hmem _).2 (.inl (.inl ?_)))
    have := hroomy.nonneg
    omega
  · have hsup : w'.maxSequenceNumber = max w.maxSequenceNumber e.adds.largest :=
      congrArg Knowledge.largest hknown
    rw [hsup]
    exact max_le hroomy.le_top hmax
  · have hnot : top ∉ w.known.numbers := fun htop => by
      rw [← changeWasReceived_iff, hroomy.free] at htop
      cases htop
    rw [← Bool.not_eq_true, changeWasReceived_iff, hmem]
    exact not_or.2 ⟨hnot, hfree⟩

lemma Inv.exists_run (h : w.Inv) (hroomy : w.Roomy) {events : List Event}
    (hevents : ∀ e ∈ events, e.BelowTop) : ∃ w', w.run events = some w' ∧ w'.Roomy := by
  have hstep : ∀ w : WriterProxy, ∀ e ∈ events, w.Inv ∧ w.Roomy →
      ∃ w', w.step e = some w' ∧ w'.Inv ∧ w'.Roomy := by
    rintro w e he ⟨hw, hroomy⟩
    obtain ⟨w', hstep⟩ := hw.exists_step hroomy (hevents e he)
    obtain ⟨hinv, hknown⟩ := hw.step e hstep
    exact ⟨w', hstep, hinv, hroomy.step (hevents e he) hinv hknown⟩
  obtain ⟨w', hrun, -, hroomy'⟩ := exists_foldlM hstep ⟨h, hroomy⟩
  exact ⟨w', hrun, hroomy'⟩

end Returns

/-- Sequences of the same events, in any order and number, lead to the same proxy, because every
event is a join and what is known determines the proxy. Both come to their ends as long as nothing
is said about the largest sequence number. -/
theorem events_confluent (h : w.Reached) {events events' : List Event}
    (hsame : ∀ e, e ∈ events ↔ e ∈ events') :
    (∀ w1 w2, w.run events = some w1 → w.run events' = some w2 →
      w1.changesFromWriterLowMark = w2.changesFromWriterLowMark ∧
      (∀ seqNum, w1.changeWasReceived seqNum = w2.changeWasReceived seqNum) ∧
      w1.missingChanges = w2.missingChanges) ∧
    (w.Roomy → (∀ e ∈ events, e.BelowTop) →
      (∃ w1, w.run events = some w1) ∧ ∃ w2, w.run events' = some w2) := by
  refine ⟨fun w1 w2 hrun1 hrun2 => ?_, fun hroomy hevents => ?_⟩
  · obtain ⟨h1, hknown1⟩ := h.inv.run hrun1
    obtain ⟨h2, hknown2⟩ := h.inv.run hrun2
    have heq : w1 = w2 := h1.eq_of_known h2 (by rw [hknown1, hknown2, joinAll_congr hsame])
    rw [heq]
    exact ⟨rfl, fun _ => rfl, rfl⟩
  · obtain ⟨w1, hrun1, -⟩ := h.inv.exists_run hroomy hevents
    obtain ⟨w2, hrun2, -⟩ := h.inv.exists_run hroomy fun e he => hevents e ((hsame e).2 he)
    exact ⟨⟨w1, hrun1⟩, w2, hrun2⟩

theorem events_confluent_duplicated : (start 0).Reached ∧
    ∃ w1 w2, (start 0).run [.received 2, .lost 4, .received 1, .received 2] = some w1 ∧
      (start 0).run [.received 1, .received 2, .lost 4] = some w2 ∧
      w1.changesFromWriterLowMark = w2.changesFromWriterLowMark ∧
      (∀ seqNum, w1.changeWasReceived seqNum = w2.changeWasReceived seqNum) ∧
      w1.missingChanges = w2.missingChanges := by
  have hw : (start 0).Reached := ⟨0, [], rfl⟩
  have hsame : ∀ e, e ∈ [Event.received 2, .lost 4, .received 1, .received 2] ↔
      e ∈ [Event.received 1, .received 2, .lost 4] := by
    intro e
    simp only [mem_cons, not_mem_nil, or_false]
    tauto
  exact ⟨hw, _, _, rfl, rfl, (events_confluent hw hsame).1 _ _ rfl rfl⟩

/-- A mark for lost changes has no number behind the largest one to compare with. If it comes first
nothing happens. -/
theorem events_not_confluent :
    (start 0).run [.lost top, .received top, .lost 5] = none ∧
      ((start 0).run [.lost 5, .lost top, .received top]).map (·.changesFromWriterLowMark) =
        some top := by
  decide

lemma joinAll_adds (a : Knowledge) (events : List Event) :
    (joinAll Event.adds a events).numbers =
      a.numbers ∪ {seqNum | ∃ e ∈ events, seqNum ∈ e.adds.numbers} := by
  induction events generalizing a with
  | nil => simp [joinAll]
  | cons e events ih =>
    rw [joinAll, foldl_cons, ← joinAll, ih]
    ext
    simp [or_assoc]

/-- After any events that say nothing of the largest number, a number was received if one of them
has told it, it is accepted only if none has, and the low mark ends the numbers without a hole. -/
theorem reception_exact {initialSequence : Int} {events : List Event} (hinit : 0 ≤ initialSequence)
    (htop : initialSequence < top) (hevents : ∀ e ∈ events, e.BelowTop) :
    ∃ w, (start initialSequence).run events = some w ∧
      (∀ seqNum, w.changeWasReceived seqNum = true ↔
        seqNum ≤ initialSequence ∨ ∃ e ∈ events, seqNum ∈ e.adds.numbers) ∧
      (∀ seqNum ≤ top,
        (w.receivedChangeSet seqNum).map (·.1) = some (!w.changeWasReceived seqNum)) ∧
      ∀ seqNum, seqNum ≤ w.changesFromWriterLowMark ↔
        ∀ seq ≤ seqNum, w.changeWasReceived seq = true := by
  have hroomy : (start initialSequence).Roomy := by
    exact ⟨hinit, htop.le, (if_neg (not_le.2 htop)).trans rfl⟩
  obtain ⟨w, hrun, hend⟩ := (inv_start initialSequence).exists_run hroomy hevents
  obtain ⟨hinv, hknown⟩ := (inv_start initialSequence).run hrun
  refine ⟨w, hrun, fun _ => ?_, fun _ hseq => ?_, fun _ => ⟨fun hle seq hseq => ?_, fun hall => ?_⟩⟩
  · rw [changeWasReceived_iff, hknown, joinAll_adds]
    simp [known, start]
  · obtain ⟨w', hw'⟩ := exists_receivedChangeSet hinv hend.le_top hseq
    rw [hw', Option.map_some]
  · exact changeWasReceived_iff.2 (.inl (hseq.trans hle))
  · by_contra hlt
    exact hinv.not_mem_known (changeWasReceived_iff.1 (hall _ (by omega)))

theorem reception_exact_hole :
    let events := [Event.received 3, .lost 2, .missing top]
    (∀ e ∈ events, e.BelowTop) ∧ ∃ w, (start 0).run events = some w ∧
      (∀ seqNum, w.changeWasReceived seqNum = true ↔
        seqNum ≤ 0 ∨ ∃ e ∈ events, seqNum ∈ e.adds.numbers) ∧
      (∀ seqNum ≤ top,
        (w.receivedChangeSet seqNum).map (·.1) = some (!w.changeWasReceived seqNum)) ∧
      ∀ seqNum, seqNum ≤ w.changesFromWriterLowMark ↔
        ∀ seq ≤ seqNum, w.changeWasReceived seq = true := by
  intro events
  have hevents : ∀ e ∈ events, e.BelowTop := by simp [events, Event.BelowTop, top]
  exact ⟨hevents, reception_exact (le_refl 0) (by decide) hevents⟩

end WriterProxy

end EasyDds.Rtps
