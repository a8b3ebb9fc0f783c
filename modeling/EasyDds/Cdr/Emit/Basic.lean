import EasyDds.Cdr.Layout

/-!
What it means for an encoder to write a layout, and the rules for composing such encoders.
-/

namespace EasyDds.Cdr

open Layout List

open Prog

lemma alignmentOnState_eq {origin offset n : Nat} (horigin : origin ≤ offset)
    (hn : n = 2 ∨ n = 4 ∨ n = 8) :
    alignmentOnState origin offset n = padTo n (offset - origin) := by
  have hcast : (((offset : Int) - origin) % n).toNat = (offset - origin) % n := by
    rw [← Nat.cast_sub horigin, ← Int.natCast_mod, Int.toNat_natCast]
  have hand : ∀ x, x &&& (n - 1) = x % n := by
    intro x
    rcases hn with rfl | rfl | rfl
    · exact Nat.and_two_pow_sub_one_eq_mod x 1
    · exact Nat.and_two_pow_sub_one_eq_mod x 2
    · exact Nat.and_two_pow_sub_one_eq_mod x 3
  rw [alignmentOnState, hcast, hand, padTo]

lemma iteratorDiff_eq {a b : Nat} (hle : b ≤ a) (hlt : a - b < 2 ^ 64) :
    iteratorDiff a b = a - b := by
  unfold iteratorDiff
  omega

structure Ready (P : Profile) (s : Cdr) : Prop where
  version : s.cdrVersion = P.version
  swap : s.swapBytes = P.swap
  align64 : s.align64 = P.align64
  origin_le : s.origin ≤ s.offset
  offset_le : s.offset ≤ s.size
  last_le : s.lastDataSize ≤ 1

def phase (P : Profile) (s : Cdr) : Phase :=
  ⟨(s.offset - s.origin) % P.align64, s.serializedMemberSize⟩

/-- The paddings of the primitives handled so far, latest first. -/
def notedPads (s : Cdr) : List Nat :=
  s.log.filterMap fun
    | .pad n => some n
    | _ => none

variable {s : Cdr} {m : CdrM Unit} {a : Layout}

lemma Ready.room_eq {P : Profile} (h : Ready P s) : s.room = s.size - s.offset := by
  have := s.size_lt
  exact iteratorDiff_eq h.offset_le (by omega)

lemma Ready.alignment_eq {P : Profile} (h : Ready P s) {n : Nat} (hn : P.IsAlign n) :
    s.alignment n = padTo n (phase P s).pos := by
  have hlast := h.last_le
  have hlow := hn.1
  rw [Cdr.alignment, if_pos (by omega), alignmentOnState_eq h.origin_le hn.cases, phase,
    padTo_mod hn.2]

structure Wrote (P : Profile) (p : Piece) (s s' : Cdr) : Prop where
  ready : Ready P s'
  offset : s'.offset = s.offset + p.cells.length
  phase : phase P s' = p.next
  cells : Mem.Matches s'.mem s.offset p.cells
  below : ∀ i < s.offset, s'.mem i = s.mem i
  size : s'.size = s.size
  encoding : s'.currentEncoding = s.currentEncoding
  origin_ge : s.origin ≤ s'.origin
  /-- Only XCDRv1 member headers move the origin. -/
  origin_eq : P.version = .xcdrV2 → s'.origin = s.origin
  pads : notedPads s' = p.pads.reverse ++ notedPads s

/-- With room for what it writes, `m` returns and has written the layout `L`. -/
def Emits (P : Profile) (e : EncodingAlgorithmFlag) (m : CdrM Unit) (L : Layout) : Prop :=
  ∀ s, Ready P s → s.currentEncoding = e → s.offset + (L (phase P s)).peak ≤ s.size →
    ∃ s', m.run s = (.ok (), s') ∧ Wrote P (L (phase P s)) s s'

variable {P : Profile} {e : EncodingAlgorithmFlag}

lemma Wrote.trans {p q : Piece} {s' s'' : Cdr} (hp : Wrote P p s s') (hq : Wrote P q s' s'')
    (r : Piece) (hcells : r.cells = p.cells ++ q.cells) (hnext : r.next = q.next)
    (hpads : r.pads = p.pads ++ q.pads) : Wrote P r s s'' where
  ready := hq.ready
  offset := by rw [hq.offset, hp.offset, hcells, length_append, Nat.add_assoc]
  phase := by rw [hq.phase, hnext]
  cells := by
    rw [hcells, Mem.matches_append]
    refine ⟨hp.cells.congr fun k hk => hq.below _ ?_, ?_⟩
    · rw [hp.offset]
      omega
    · rw [← hp.offset]
      exact hq.cells
  below := fun i hi => by rw [hq.below i (by rw [hp.offset]; omega), hp.below i hi]
  size := by rw [hq.size, hp.size]
  encoding := by rw [hq.encoding, hp.encoding]
  origin_ge := hp.origin_ge.trans hq.origin_ge
  origin_eq := fun hv => by rw [hq.origin_eq hv, hp.origin_eq hv]
  pads := by rw [hq.pads, hp.pads, hpads, reverse_append, append_assoc]

lemma Emits.seq {n : CdrM Unit} {b : Layout} (hm : Emits P e m a) (hn : Emits P e n b) :
    Emits P e (m >>= fun _ => n) (Layout.seq a b) := by
  intro s hs he hroom
  simp only [Layout.seq] at hroom
  obtain ⟨s', hrun, hw⟩ := hm s hs he (by omega)
  have hroom' : s'.offset + (b (phase P s')).peak ≤ s'.size := by
    rw [hw.phase, hw.offset, hw.size]
    omega
  obtain ⟨s'', hrun', hw'⟩ := hn s' hw.ready (by rw [hw.encoding, he]) hroom'
  rw [hw.phase] at hw'
  exact ⟨s'', by rw [bind_of_ok hrun, hrun'], hw.trans hw' _ rfl rfl rfl⟩

lemma Emits.empty : Emits P e (pure ()) empty := by
  intro s hs _ _
  exact ⟨s, rfl, hs, rfl, rfl, Mem.matches_nil _ _, fun _ _ => rfl, rfl, rfl, le_rfl,
    fun _ => rfl, rfl⟩

lemma Emits.each {α : Type} {f : α → CdrM Unit} {g : α → Layout} (xs : List α)
    (h : ∀ x ∈ xs, Emits P e (f x) (g x)) : Emits P e (each f xs) (all g xs) := by
  induction xs with
  | nil => exact Emits.empty
  | cons x xs ih =>
    exact (h x (mem_cons_self ..)).seq (ih fun y hy => h y (mem_cons_of_mem _ hy))

/-- A computation that behaves like `m` wherever the encoder can be. -/
theorem Emits.congr {n : CdrM Unit} (h : Emits P e m a)
    (hrun : ∀ s, Ready P s → s.currentEncoding = e → n.run s = m.run s) : Emits P e n a := by
  intro s hs he hroom
  rw [hrun s hs he]
  exact h s hs he hroom

/-- Reading the object first gives the rest of the computation its state to use. -/
theorem Emits.read {f : Cdr → CdrM Unit}
    (h : ∀ s, Ready P s → s.currentEncoding = e → Emits P e (f s) a) :
    Emits P e (read >>= f) a := by
  intro s hs he hroom
  exact h s hs he s hs he hroom

lemma Emits.onError {r : Cdr → Cdr} (h : Emits P e m a) : Emits P e (onError r m) a := by
  intro s hs he hroom
  obtain ⟨s', hrun, hw⟩ := h s hs he hroom
  exact ⟨s', onError_of_ok hrun, hw⟩

lemma Emits.thenFlag (f : SerializedMemberSizeForNextInt) (h : Emits P e m a) :
    Emits P e (m >>= fun _ => setSerializedMemberSize f) (Layout.thenFlag f a) := by
  intro s hs he hroom
  obtain ⟨s', hrun, hw⟩ := h s hs he hroom
  have hready := hw.ready
  have hphase := hw.phase
  refine ⟨{ s' with serializedMemberSize := f }, by rw [bind_of_ok hrun]; rfl, { hw with
      ready := { hready with }
      phase := ?_ }⟩
  simp only [Layout.thenFlag]
  rw [← hphase]
  rfl

lemma Emits.sequenceFlag (f : SerializedMemberSizeForNextInt) (v : CdrVersion)
    (hv : v = P.version) (h : Emits P e m a) :
    Emits P e (m >>= fun _ => if v = .xcdrV2 then setSerializedMemberSize f else pure ())
      (Layout.sequenceFlag P f a) := by
  subst hv
  unfold Layout.sequenceFlag
  split
  · exact h.thenFlag f
  · intro s hs he hroom
    obtain ⟨s', hrun, hw⟩ := h s hs he hroom
    exact ⟨s', by rw [bind_of_ok hrun]; rfl, hw⟩

/-- The identifier of the next member plays no part in what is written. -/
theorem Wrote.relabel {p : Piece} {s' : Cdr} (h : Wrote P p s s') (m m' : MemberId) :
    Wrote P p { s with nextMemberId := m } { s' with nextMemberId := m' } :=
  { h with ready := { h.ready with } }

lemma Ready.relabel (h : Ready P s) (m : MemberId) : Ready P { s with nextMemberId := m } :=
  { h with }

lemma Emits.relabel {value : CdrM Unit} (h : Emits P e value a) (m m' : MemberId) : Emits P e (do
        setNextMemberId m
        value
        setNextMemberId m') a := by
  intro s hs he hroom
  obtain ⟨s', hrun, hw⟩ := h { s with nextMemberId := m } (hs.relabel m) he hroom
  refine ⟨{ s' with nextMemberId := m' }, ?_, hw.relabel s.nextMemberId m'⟩
  rw [setNextMemberId, run_modify_bind, bind_of_ok hrun]
  rfl

end EasyDds.Cdr
