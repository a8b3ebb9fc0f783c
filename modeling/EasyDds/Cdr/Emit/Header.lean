import EasyDds.Cdr.Emit.Scalar

/-!
Headers that are written at an aligned position and patched later. An encoder writes a
provisional header, runs the content, goes back and writes the final header; the notions here
describe the buffer at each of these points, also where the content had to move.
-/

namespace EasyDds.Cdr

open Layout List

open Prog

variable {P : Profile} {e : EncodingAlgorithmFlag} {s : Cdr}

variable {t : Cdr}

lemma phase_withFlag (hoffset : t.offset = s.offset) (horigin : t.origin = s.origin) :
    phase P t = { phase P s with flag := t.serializedMemberSize } := by
  simp only [phase, hoffset, horigin]

/-- Going back to the state before an image that was written. -/
theorem Ready.setState_back (hs : Ready P s) (ht : Ready P t) (st : State) (hsize : t.size = s.size)
    (hst : st.offset = s.offset ∧ st.origin = s.origin ∧ st.swapBytes = s.swapBytes ∧
      st.lastDataSize = s.lastDataSize) :
    Ready P (setState st t) := by
  obtain ⟨hoffset, horigin, hswap, hlast⟩ := hst
  exact ⟨ht.version, by simpa [hswap] using hs.swap, ht.align64, by simpa [hoffset, horigin] using
    hs.origin_le, by simpa [hoffset, hsize] using hs.offset_le, by simpa [hlast] using hs.last_le⟩

lemma Ready.ahead (h : Ready P s) {n : Nat} (hroom : s.offset + n ≤ s.size) :
    Ready P (s.makeAlignment n) :=
  { h with
    origin_le := Nat.le_add_right_of_le h.origin_le, offset_le := hroom, last_le := Nat.zero_le _ }

lemma Ready.store (h : Ready P s) {bs : List UInt8}
    (hroom : s.offset + bs.length ≤ s.size) : Ready P (s.store bs) :=
  { h with origin_le := Nat.le_add_right_of_le h.origin_le, offset_le := hroom }

variable (x : Nat) (φ : Phase)

lemma Layout.u32_peak : (u32 P x φ).peak = padTo 4 φ.pos + 4 := by simp [u32, word, aligned]

lemma Layout.u32_length : (u32 P x φ).cells.length = padTo 4 φ.pos + 4 := by
  simp [u32, word, aligned]

lemma Layout.u32_next : (u32 P x φ).next = advance P φ (padTo 4 φ.pos + 4) := by
  simp [u32, word, aligned]

lemma Layout.u32_pads : (u32 P x φ).pads = [] := rfl

lemma serializeU32_run (hs : Ready P s) {x : Nat}
    (hroom : s.offset + (padTo 4 (phase P s).pos + 4) ≤ s.size) : (serializeU32 x).run s =
      (.ok (), (s.makeAlignment (padTo 4 (phase P s).pos)).store (wordBytes P.swap 4 x)) :=
  serializeWord_run hs P.isAlign_four (by rwa [← u32_peak x] at hroom)

/-- A state at a multiple of four from its origin, where words need no padding. -/
structure Aligned (P : Profile) (s : Cdr) : Prop where
  ready : Ready P s
  pad : padTo 4 (phase P s).pos = 0

lemma Aligned.dvd (h : Aligned P s) : 4 ∣ s.offset - s.origin := by
  have hpad := h.pad
  rw [Cdr.phase, padTo_mod P.isAlign_four.2, padTo] at hpad
  omega

lemma Aligned.of_dvd (h : Ready P s) (hdvd : 4 ∣ s.offset - s.origin) : Aligned P s :=
  ⟨h, by rw [Cdr.phase, padTo_mod P.isAlign_four.2]; exact padTo_eq_zero hdvd⟩

lemma Ready.makeAlignment (hs : Ready P s) (hroom : s.offset + padTo 4 (phase P s).pos ≤ s.size) :
    Aligned P (s.makeAlignment (padTo 4 (phase P s).pos)) := by
  have hle := hs.origin_le
  refine .of_dvd (hs.ahead hroom) ?_
  have hdvd := padTo_pos_add (n := 4) (by omega) (s.offset - s.origin)
  rw [Cdr.phase, padTo_mod P.isAlign_four.2]
  simp only [makeAlignment_origin, makeAlignment_offset]
  rwa [Nat.sub_add_comm hle]

lemma Aligned.serializeU32_run (h : Aligned P s) (x : Nat) (hroom : s.offset + 4 ≤ s.size) :
    (serializeU32 x).run s = (.ok (), (s.makeAlignment 0).store (wordBytes P.swap 4 x)) ∧
      Aligned P ((s.makeAlignment 0).store (wordBytes P.swap 4 x)) := by
  have hs := h.ready
  have hle := hs.origin_le
  have hdvd := h.dvd
  constructor
  · have hrun := Cdr.serializeU32_run hs (x := x) (by rw [h.pad]; omega)
    rwa [h.pad] at hrun
  · refine .of_dvd ((hs.ahead hs.offset_le).store (by simpa using hroom)) ?_
    simp only [store_offset, store_origin, makeAlignment_offset, makeAlignment_origin,
      length_wordBytes]
    omega

lemma Aligned.note (h : Aligned P s) (ev : Event) : Aligned P (s.note ev) :=
  .of_dvd h.ready.note h.dvd

lemma Aligned.memmove (h : Aligned P s) (dst src n : Nat) : Aligned P (s.memmove dst src n) :=
  have hs := h.ready
  .of_dvd { hs with } h.dvd

lemma jump_run {n : Nat} (hroom : s.offset + n ≤ s.size) :
    (jump n).run s = (.ok true, s.makeAlignment n) := by
  rw [jump, bind_of_ok (reserve_eq hroom)]
  rfl

/-- Bytes written at an aligned position, up to the next aligned position. -/
structure Put (P : Profile) (bs : List UInt8) (s s' : Cdr) : Prop where
  aligned : Aligned P s'
  mem : s'.mem = s.mem.write s.offset bs
  offset : s'.offset = s.offset + bs.length
  origin : s'.origin = s.origin
  size : s'.size = s.size
  encoding : s'.currentEncoding = s.currentEncoding
  flag : s'.serializedMemberSize = s.serializedMemberSize
  pads : notedPads s' = notedPads s

lemma Put.trans {bs cs : List UInt8} {s s' s'' : Cdr} (h : Put P bs s s')
    (h' : Put P cs s' s'') : Put P (bs ++ cs) s s'' where
  aligned := h'.aligned
  mem := by rw [h'.mem, h.mem, h.offset, Mem.write_append]
  offset := by rw [h'.offset, h.offset, length_append, Nat.add_assoc]
  origin := h'.origin.trans h.origin
  size := h'.size.trans h.size
  encoding := h'.encoding.trans h.encoding
  flag := h'.flag.trans h.flag
  pads := h'.pads.trans h.pads

lemma Aligned.put_u32 (h : Aligned P s) (x : Nat) (hroom : s.offset + 4 ≤ s.size) :
    ∃ s', (serializeU32 x).run s = (.ok (), s') ∧ Put P (wordBytes P.swap 4 x) s s' := by
  obtain ⟨hrun, hal⟩ := h.serializeU32_run x hroom
  exact ⟨_, hrun, hal, by simp, by simp, by simp, by simp, by simp, by simp, by simp [notedPads]⟩

lemma serializeU16_run (hs : Ready P s) (heven : 2 ∣ s.offset - s.origin) (x : Nat)
    (hroom : s.offset + 2 ≤ s.size) :
    (serializeU16 x).run s = (.ok (), (s.makeAlignment 0).store (wordBytes P.swap 2 x)) := by
  have hpad : padTo 2 (phase P s).pos = 0 := by
    rw [Cdr.phase, padTo_mod P.isAlign_two.2]
    exact padTo_eq_zero heven
  have hrun := serializeWord_run hs (n := 2) (x := x) P.isAlign_two
    (by simp only [word, aligned, hpad, length_wordBytes]; omega)
  rwa [hpad] at hrun

lemma Aligned.put_u16s (h : Aligned P s) (x y : Nat) (hroom : s.offset + 4 ≤ s.size) : ∃
    s1 s2, (serializeU16 x).run s = (.ok (), s1) ∧ (serializeU16 y).run s1 = (.ok (), s2) ∧
      Put P (wordBytes P.swap 2 x ++ wordBytes P.swap 2 y) s s2 := by
  have hs := h.ready
  have hle := hs.origin_le
  have hdvd := h.dvd
  have hrun1 := serializeU16_run hs (by omega) x (by omega)
  set s1 := (s.makeAlignment 0).store (wordBytes P.swap 2 x) with hs1
  have hready1 : Ready P s1 := (hs.ahead hs.offset_le).store (by simp; omega)
  have hrun2 := serializeU16_run hready1 (by simp [hs1]; omega) y (by simp [hs1]; omega)
  refine ⟨s1, _, hrun1, hrun2, ?_, ?_, by simp [hs1], by simp [hs1], by simp [hs1],
    by simp [hs1], by simp [hs1], by simp [hs1, notedPads]⟩
  · refine .of_dvd ((hready1.ahead hready1.offset_le).store ?_) ?_
    · simp [hs1]
      omega
    · simp [hs1]
      omega
  · rw [Mem.write_append]
    simp [hs1]

structure MemberState (s : Cdr) (m : MemberId) (selection serialized : XCdrHeaderSelection)
    (st : State) : Prop where
  offset : st.offset = s.offset
  origin : st.origin = s.origin
  swapBytes : st.swapBytes = s.swapBytes
  lastDataSize : st.lastDataSize = s.lastDataSize
  nextMemberId : st.nextMemberId = m
  headerSelection : st.headerSelection = selection
  headerSerialized : st.headerSerialized = serialized

/-- The position of a header during its patch: `u` is `t` moved back to where the header of
the member that began in `s` stands. -/
structure PatchSite (P : Profile) (s t u : Cdr) : Prop where
  aligned : Aligned P u
  offset : u.offset = s.offset + padTo 4 (phase P s).pos
  size : u.size = s.size
  mem : u.mem = t.mem
  origin : u.origin = s.origin
  encoding : u.currentEncoding = t.currentEncoding
  flag : u.serializedMemberSize = t.serializedMemberSize
  pads : notedPads u = notedPads t

lemma patchSite_run {st : State} {m : MemberId}
    {selection serialized : XCdrHeaderSelection} (hs : Ready P s) (ht : Ready P t)
    (hsize : t.size = s.size) (hst : MemberState s m selection serialized st)
    (hroom : s.offset + padTo 4 (phase P s).pos ≤ s.size) : ∃ u, PatchSite P s t u ∧
      (setState st t).makeAlignment ((setState st t).alignment 4) = u := by
  have hback : Ready P (setState st t) :=
    hs.setState_back ht _ hsize ⟨hst.offset, hst.origin, hst.swapBytes, hst.lastDataSize⟩
  have hpos : (phase P (setState st t)).pos = (phase P s).pos := by
    simp [Cdr.phase, hst.offset, hst.origin]
  have hal := hback.makeAlignment (by rw [hpos, setState_offset, hst.offset]; simpa [hsize])
  rw [hback.alignment_eq P.isAlign_four]
  refine ⟨_, ?_, rfl⟩
  rw [hpos] at hal ⊢
  exact ⟨hal, by simp [hst.offset], by simp [hsize], by simp, by simp [hst.origin], by simp,
    by simp, by simp [notedPads]⟩

/-- A header was written at `u`, with the content right behind it. -/
structure Rewritten (P : Profile) (header : List UInt8) (cells : List (Option UInt8))
    (u u' : Cdr) : Prop where
  ready : Ready P u'
  start : Mem.Matches u'.mem u.offset (header.map some)
  cells : Mem.Matches u'.mem (u.offset + header.length) cells
  below : ∀ i < u.offset, u'.mem i = u.mem i
  offset : u'.offset = u.offset + header.length
  origin : u'.origin = u.origin
  size : u'.size = u.size
  encoding : u'.currentEncoding = u.currentEncoding
  flag : u'.serializedMemberSize = u.serializedMemberSize
  pads : notedPads u' = notedPads u

/-- A header of the length it already had: it goes over the provisional one, and the content stays
where it is. -/
theorem Put.rewritten {header : List UInt8} {u u' : Cdr} (h : Put P header u u')
    (cells : List (Option UInt8)) (hcells : Mem.Matches u.mem (u.offset + header.length) cells) :
    Rewritten P header cells u u' where
  ready := h.aligned.ready
  start := by
    rw [h.mem]
    exact Mem.matches_write _ _ _
  cells := by
    rw [h.mem]
    exact hcells.congr fun k _ => Mem.write_of_ge _ _ (by omega)
  below := fun i hi => by rw [h.mem, Mem.write_of_lt _ _ hi]
  __ := h

structure Patched (P : Profile) (s t t' : Cdr) (cells : List (Option UInt8)) : Prop where
  offset : t'.offset = s.offset + cells.length
  cells : Mem.Matches t'.mem s.offset cells
  below : ∀ i < s.offset, t'.mem i = t.mem i
  size : t'.size = s.size
  encoding : t'.currentEncoding = t.currentEncoding
  flag : t'.serializedMemberSize = t.serializedMemberSize
  pads : notedPads t' = notedPads t
  ready : Ready P t'

/-- The step over the content completes a patch, with the cursor back at the end of the content. The
origin may have moved on the way, as it does in XCDRv1. -/
theorem Rewritten.patched {header : List UInt8} {cells : List (Option UInt8)} {s u u' : Cdr}
    (h : Rewritten P header cells u u') (hu : PatchSite P s t u) (o : Nat)
    (horigin : o ≤ u'.offset + cells.length) (hroom : u'.offset + cells.length ≤ u'.size) :
    Patched P s t ({ u' with origin := o }.makeAlignment cells.length)
      (replicate (padTo 4 (phase P s).pos) none ++ header.map some ++ cells) where
  offset := by
    rw [makeAlignment_offset, h.offset, hu.offset]
    simp
    omega
  cells := by
    rw [makeAlignment_mem, append_assoc, Mem.matches_append, Mem.matches_append,
      length_replicate, length_map, ← hu.offset]
    exact ⟨Mem.matches_padding _ _ _, h.start, h.cells⟩
  below := fun i hi => by rw [makeAlignment_mem, h.below i (by rw [hu.offset]; omega), hu.mem]
  size := h.size.trans hu.size
  encoding := h.encoding.trans hu.encoding
  flag := h.flag.trans hu.flag
  pads := by simpa [notedPads, hu.pads] using h.pads.trans hu.pads
  ready := ⟨h.ready.version, h.ready.swap, h.ready.align64, horigin, hroom, Nat.zero_le _⟩

end EasyDds.Cdr
