import EasyDds.Cdr.Emit.Header

/-!
XCDRv1 member headers. The content of a member starts a new alignment origin, and the origin
stays with the content when the header turns out longer or shorter than it was at first.
-/

namespace EasyDds.Cdr

open Layout List

open Prog

variable {P : Profile} {e : EncodingAlgorithmFlag} {s : Cdr}

lemma Aligned.put_long (h : Aligned P s) (m : MemberInfo) (n : Nat)
    (hroom : s.offset + 12 ≤ s.size) : ∃ s', (do
        serializeU16 (flagsAndPid m.memberId pidExtended)
        serializeU16 pidExtendedLength
        serializeU32 m.memberId.id
        serializeU32 n : CdrM Unit).run s = (.ok (), s') ∧
      Put P (header1 P m false n) s s' := by
  obtain ⟨s1, s2, hrun1, hrun2, hput2⟩ :=
    h.put_u16s (flagsAndPid m.memberId pidExtended) pidExtendedLength (by omega)
  have hlen2 := hput2.offset
  simp only [length_append, length_wordBytes] at hlen2
  obtain ⟨s3, hrun3, hput3⟩ := hput2.aligned.put_u32 m.memberId.id (by rw [hput2.size]; omega)
  have hlen3 := hput3.offset
  rw [length_wordBytes] at hlen3
  obtain ⟨s4, hrun4, hput4⟩ := hput3.aligned.put_u32 n (by rw [hput3.size, hput2.size]; omega)
  refine ⟨s4, ?_, (hput2.trans hput3).trans hput4⟩
  rw [bind_of_ok hrun1, bind_of_ok hrun2, bind_of_ok hrun3, hrun4]

lemma Layout.header1_length (P : Profile) (m : MemberInfo) (short : Bool) (n : Nat) :
    (header1 P m short n).length = if short then 4 else 12 := by
  unfold header1
  split <;> simp

structure Begun (P : Profile) (m : MemberInfo) (s s1 : Cdr) : Prop where
  ready : Ready P s1
  offset : s1.offset = s.offset + padTo 4 (phase P s).pos + startLength m
  origin : s1.origin = s1.offset
  header : Mem.Matches s1.mem (s.offset + padTo 4 (phase P s).pos)
    ((header1 P m (startsShort m) 0).map some)
  below : ∀ i < s.offset, s1.mem i = s.mem i
  size : s1.size = s.size
  encoding : s1.currentEncoding = s.currentEncoding
  flag : s1.serializedMemberSize = s.serializedMemberSize
  pads : notedPads s1 = notedPads s

def headerPosition (P : Profile) (s : Cdr) : Cdr :=
  (s.note (.headerAlign (s.alignment 4) s.room)).makeAlignment (padTo 4 (phase P s).pos)

lemma alignHeader_run (hs : Ready P s) : alignHeader.run s = (.ok (), headerPosition P s) := by
  rw [alignHeader, run_modify, headerPosition, hs.alignment_eq P.isAlign_four]

lemma headerPosition_aligned (hs : Ready P s)
    (hroom : s.offset + padTo 4 (phase P s).pos ≤ s.size) : Aligned P (headerPosition P s) :=
  hs.note.makeAlignment hroom

lemma Put.wrote {bs : List UInt8} {s s' : Cdr} (hs : Ready P s)
    (h : Put P bs (headerPosition P s) s') :
    Wrote P (Layout.aligned P 4 bs (Cdr.phase P s)) s s' where
  __ := h
  ready := h.aligned.ready
  offset := by simp [h.offset, headerPosition, Layout.aligned, Nat.add_assoc]
  phase := by
    simp only [Cdr.phase, h.offset, h.origin, h.flag, headerPosition, makeAlignment_offset,
      makeAlignment_origin, makeAlignment_serializedMemberSize, note_offset, note_origin,
      note_serializedMemberSize, Layout.aligned, Layout.advance]
    rw [Nat.add_assoc, phase_pos_add hs.origin_le]
  cells := by
    simp only [Layout.aligned, Mem.matches_append, Mem.matches_padding, true_and,
      length_replicate, h.mem]
    exact Mem.matches_write _ _ _
  below := fun i hi => by
    rw [h.mem, Mem.write_of_lt _ _ (by simp [headerPosition]; omega)]
    rfl
  origin_ge := h.origin.ge
  origin_eq := fun _ => h.origin
  pads := by simpa [notedPads, headerPosition, Layout.aligned] using h.pads

variable {m : MemberInfo} {u : Cdr} {cells : List (Option UInt8)} {st : State} {value : CdrM Unit}
  {a : Layout}

lemma Begun.of_put {s s' : Cdr}
    (h : Put P (header1 P m (startsShort m) 0) (headerPosition P s) s') :
    Begun P m s s'.resetAlignment where
  __ := h
  ready := { h.aligned.ready with origin_le := le_rfl, last_le := Nat.zero_le _ }
  offset := by simp [h.offset, headerPosition, header1_length, startLength]
  origin := rfl
  header := by
    rw [resetAlignment_mem, h.mem]
    exact Mem.matches_write _ _ _
  below := fun i hi => by
    rw [resetAlignment_mem, h.mem, Mem.write_of_lt _ _ (by simp [headerPosition]; omega)]
    rfl
  pads := by
    have hpads := h.pads
    simpa [notedPads, headerPosition] using hpads

lemma Begun.wrote {s s1 : Cdr} (hv : P.version = .xcdrV1) (hs : Ready P s) (h : Begun P m s s1) :
    Wrote P (absent1 P m (phase P s)) s s1 where
  __ := h
  offset := by simp [h.offset, absent1, header1_length, startLength, Nat.add_assoc]
  phase := by
    simp only [Cdr.phase, h.origin, Nat.sub_self, Nat.zero_mod]
    exact congrArg (Phase.mk 0) h.flag
  cells := by
    rw [absent1, Mem.matches_append, length_replicate]
    exact ⟨Mem.matches_padding _ _ _, h.header⟩
  origin_ge := by
    rw [h.origin, h.offset]
    have := hs.origin_le
    omega
  origin_eq := fun h' => absurd (hv.symm.trans h') (by decide)

lemma xcdr1SerializeMemberHeader_run (hs : Ready P s) (hsel : m.headerSelection ≠ .shortHeader)
    (st : State) (hroom : s.offset + (padTo 4 (phase P s).pos + startLength m) ≤ s.size) :
    ∃ s1, (xcdr1SerializeMemberHeader m.memberId st m.headerSelection).run s =
      (.ok { st with
        headerSerialized := if startsShort m then .shortHeader else .longHeader
        headerSelection := m.headerSelection }, s1) ∧ Begun P m s s1 := by
  have hal := headerPosition_aligned hs (by omega)
  have hoffset : (headerPosition P s).offset = s.offset + padTo 4 (phase P s).pos := by
    simp [headerPosition]
  have hsize : (headerPosition P s).size = s.size := by simp [headerPosition]
  unfold startLength at hroom
  by_cases hshort : startsShort m
  · rw [if_pos hshort] at hroom
    obtain ⟨s1, s2, hrun1, hrun2, hput⟩ := hal.put_u16s (flagsAndPid m.memberId m.memberId.id) 0
      (by rw [hoffset, hsize]; omega)
    refine ⟨s2.resetAlignment, ?_, .of_put (by simpa [hshort, header1] using hput)⟩
    obtain ⟨hid, hsel'⟩ : m.memberId.id ≤ 0x3F00 ∧
        m.headerSelection = .autoWithShortHeaderByDefault := by
      simpa [startsShort, hsel] using hshort
    simp only [xcdr1SerializeMemberHeader, if_pos hid, hsel', xcdr1SerializeShortMemberHeader,
      bind_assoc, if_pos hshort]
    rw [bind_of_ok (alignHeader_run hs), bind_of_ok hrun1, bind_of_ok hrun2]
    rfl
  · rw [if_neg hshort] at hroom
    obtain ⟨s2, hrun, hput⟩ := hal.put_long m 0 (by rw [hoffset, hsize]; omega)
    refine ⟨s2.resetAlignment, ?_, .of_put (by simpa [hshort] using hput)⟩
    have hlong : (xcdr1SerializeLongMemberHeader m.memberId).run s =
        (.ok (), s2.resetAlignment) := by
      simp only [xcdr1SerializeLongMemberHeader]
      rw [bind_of_ok (alignHeader_run hs)]
      have hassoc := bind_of_ok (f := fun _ => modify resetAlignment) hrun
      simpa only [bind_assoc, run_modify] using hassoc
    rw [if_neg hshort]
    unfold xcdr1SerializeMemberHeader
    split
    case isTrue hid =>
      rcases hm : m.headerSelection with _ | _ | _ | _
      · exact absurd hm hsel
      · rw [bind_of_ok hlong]
        rfl
      · exact absurd (by simp [startsShort, hid, hm]) hshort
      · rw [bind_of_ok hlong]
        rfl
    case isFalse =>
      rcases hm : m.headerSelection with _ | _ | _ | _
      · exact absurd hm hsel
      all_goals
        rw [bind_of_ok hlong]
        rfl

lemma Layout.header1_long (P : Profile) (m : MemberInfo) (n : Nat) : header1 P m false n =
      (wordBytes P.swap 2 (flagsAndPid m.memberId pidExtended) ++ wordBytes P.swap 2
        pidExtendedLength ++ wordBytes P.swap 4 m.memberId.id) ++ wordBytes P.swap 4 n := rfl

lemma Layout.header1_short (P : Profile) (m : MemberInfo) (n : Nat) : header1 P m true n =
      wordBytes P.swap 2 (flagsAndPid m.memberId m.memberId.id) ++ wordBytes P.swap 2 n := rfl

/-- The size word of a long header replaces the provisional one; the eight bytes in front of it
stay. -/
theorem xcdr1EndLong_run (n : Nat) (hu : Aligned P u)
    (hheader : Mem.Matches u.mem u.offset ((header1 P m false 0).map some))
    (hroom : u.offset + 12 ≤ u.size) : ∃ u', (xcdr1EndLongMemberHeader n).run u = (.ok (), u') ∧
      Put P (header1 P m false n) u u' := by
  have hs := hu.ready
  have hle := hs.origin_le
  have hdvd := hu.dvd
  have hal : Aligned P (u.makeAlignment 8) := .of_dvd (hs.ahead (by omega)) (by simp; omega)
  obtain ⟨u', hrun, hput⟩ := hal.put_u32 n (by simp; omega)
  rw [header1_long, map_append, Mem.matches_append] at hheader
  refine ⟨u', ?_, { hput with mem := ?_, offset := ?_ }⟩
  · rw [xcdr1EndLongMemberHeader, bind_of_ok (jump_run (by omega)), hrun]
  · rw [header1_long, Mem.write_append, Mem.write_of_matches hheader.1, hput.mem]
    simp
  · rw [hput.offset, header1_length]
    simp

/-- The size of a short header replaces the provisional one. -/
theorem xcdr1EndShort_run (n : Nat) (hu : Aligned P u)
    (hheader : Mem.Matches u.mem u.offset ((header1 P m true 0).map some))
    (hroom : u.offset + 4 ≤ u.size) : ∃ u', (xcdr1EndShortMemberHeader n).run u = (.ok (), u') ∧
      Put P (header1 P m true n) u u' := by
  have hs := hu.ready
  have hle := hs.origin_le
  have hdvd := hu.dvd
  have hpad : u.alignment 4 = 0 := by rw [hs.alignment_eq P.isAlign_four, hu.pad]
  have hready : Ready P ((u.makeAlignment 0).makeAlignment 2) :=
    (hs.ahead hs.offset_le).ahead (by simp; omega)
  have hjump : (jump 2).run (u.makeAlignment 0) = (.ok true, (u.makeAlignment 0).makeAlignment 2) :=
    jump_run (by simp only [makeAlignment_offset, makeAlignment_size]; omega)
  have hrun := serializeU16_run hready (by simp; omega) n (by simp; omega)
  rw [header1_short, map_append, Mem.matches_append] at hheader
  refine ⟨(((u.makeAlignment 0).makeAlignment 2).makeAlignment 0).store (wordBytes P.swap 2 n), ?_,
    ?_, ?_, by simp [header1_length], by simp, by simp, by simp, by simp, by simp [notedPads]⟩
  · rw [xcdr1EndShortMemberHeader, run_modify_bind, hpad, bind_of_ok hjump, hrun]
  · refine .of_dvd ((hready.ahead hready.offset_le).store ?_) ?_
    · simp
      omega
    · simp
      omega
  · rw [header1_short, Mem.write_append, Mem.write_of_matches hheader.1]
    simp

/-- `xcdr1_change_to_long_member_header` with room for the longer header: the content moves up by
eight bytes, and the header goes over its old place. -/
theorem xcdr1ChangeToLong_run (hu : Aligned P u) (hcells : Mem.Matches u.mem (u.offset + 4) cells)
    (hroom : u.offset + (12 + cells.length) ≤ u.size) :
    ∃ u', (xcdr1ChangeToLongMemberHeader m.memberId cells.length).run u = (.ok (), u') ∧
      Rewritten P (header1 P m false cells.length) cells u u' := by
  have hlt := u.size_lt
  have hcheck : 0 < iteratorDiff u.room (cells.length + 11) := by
    rw [hu.ready.room_eq, iteratorDiff_eq (by omega) (by omega)]
    omega
  set v := (u.note (.grow 12 cells.length u.room)).memmove (u.offset + 12) (u.offset + 4)
    cells.length with hv
  have hval : Aligned P v := (hu.note _).memmove _ _ _
  obtain ⟨v', hrun, hput⟩ := hval.put_long m cells.length (by simp [hv]; omega)
  have hmoved : Mem.Matches v.mem (v.offset + 12) cells := by
    simp only [hv, memmove_mem, memmove_offset, note_mem, note_offset]
    exact Mem.matches_move hcells le_rfl
  have hrw := hput.rewritten cells
    (by simpa only [header1_length, Bool.false_eq_true, if_false] using hmoved)
  refine ⟨v', ?_, { hrw with below i hi := ?_, pads := ?_ }⟩
  · have hroomNote : (u.note (.grow 12 cells.length u.room)).room = u.room := rfl
    simp only [xcdr1ChangeToLongMemberHeader, run_modify_bind, run_read_bind,
      hroomNote, if_pos hcheck, note_offset, ← hv]
    exact hrun
  · rw [hrw.below i hi, hv, memmove_mem]
    exact Mem.move_of_lt _ _ _ (by omega)
  · rw [hrw.pads]
    simp [hv, notedPads]

/-- `xcdr1_change_to_short_member_header` moves the content down to the shorter header. -/
theorem xcdr1ChangeToShort_run (hu : Aligned P u) (hcells : Mem.Matches u.mem (u.offset + 12) cells)
    (hroom : u.offset + 12 ≤ u.size) :
    ∃ u', (xcdr1ChangeToShortMemberHeader m.memberId cells.length).run u = (.ok (), u') ∧
      Rewritten P (header1 P m true cells.length) cells u u' := by
  obtain ⟨u1, u2, hrun1, hrun2, hput⟩ :=
    hu.put_u16s (flagsAndPid m.memberId m.memberId.id) cells.length (by omega)
  rw [← header1_short] at hput
  have hlen : (header1 P m true cells.length).length = 4 := by rw [header1_length, if_pos rfl]
  have hoffset := hput.offset
  rw [hlen] at hoffset
  have hcells2 : Mem.Matches u2.mem (u.offset + 12) cells := by
    rw [hput.mem]
    exact hcells.congr fun k _ => Mem.write_of_ge _ _ (by omega)
  refine ⟨u2.memmove u2.offset (u2.offset + 8) cells.length, ?_, (hput.aligned.memmove _ _ _).ready,
    ?_, ?_, fun i hi => ?_, hput.offset, hput.origin, hput.size, hput.encoding, hput.flag, ?_⟩
  · rw [xcdr1ChangeToShortMemberHeader, bind_of_ok hrun1, bind_of_ok hrun2]
    rfl
  · have hstart : Mem.Matches u2.mem u.offset ((header1 P m true cells.length).map some) := by
      rw [hput.mem]
      exact Mem.matches_write _ _ _
    rw [memmove_mem]
    refine hstart.congr fun k hk => Mem.move_of_lt _ _ _ ?_
    rw [length_map, hlen] at hk
    omega
  · rw [memmove_mem, hlen, ← hoffset]
    exact Mem.matches_move (by rwa [hoffset]) le_rfl
  · rw [memmove_mem, Mem.move_of_lt _ _ _ (by omega), hput.mem, Mem.write_of_lt _ _ hi]
  · have hpads := hput.pads
    simpa [notedPads] using hpads

abbrev Layout.startForm (m : MemberInfo) : XCdrHeaderSelection :=
  if startsShort m then .shortHeader else .longHeader

lemma Layout.startsShort_iff (hsel : m.headerSelection ≠ .shortHeader) : startsShort m ↔
      m.memberId.id ≤ 0x3F00 ∧ m.headerSelection = .autoWithShortHeaderByDefault := by
  simp [startsShort, hsel]

lemma Layout.endsShort_iff {n : Nat} : endsShort m n ↔
    n ≤ 0xFFFF ∧ m.memberId.id ≤ 0x3F00 ∧ m.headerSelection ≠ .longHeader := by
  simp [endsShort]

/-- The rewriting step of the patch picks the final form of the header; the origin moves with
the content. -/
theorem xcdr1RewriteMemberHeader_run (cells : List (Option UInt8)) (origin : Nat)
    (hsel : m.headerSelection ≠ .shortHeader)
    (hst : MemberState s m.memberId m.headerSelection (startForm m) st) (hu : Aligned P u)
    (hheader : Mem.Matches u.mem u.offset ((header1 P m (startsShort m) 0).map some))
    (hcells : Mem.Matches u.mem (u.offset + startLength m) cells)
    (hstart : u.offset + startLength m ≤ u.size)
    (hroom : u.offset + ((header1 P m (endsShort m cells.length) cells.length).length +
      cells.length) ≤ u.size)
    (horigin : u.offset + startLength m ≤ origin) :
    ∃ o u', (xcdr1RewriteMemberHeader st cells.length origin).run u = (.ok o, u') ∧
      o + startLength m = origin + (header1 P m (endsShort m cells.length) cells.length).length ∧
      Rewritten P (header1 P m (endsShort m cells.length) cells.length) cells u u' := by
  rw [header1_length] at hroom ⊢
  simp only [xcdr1RewriteMemberHeader, hst.headerSerialized, hst.headerSelection, hst.nextMemberId]
  by_cases hshort : startsShort m
  · obtain ⟨hid, hauto⟩ := (startsShort_iff hsel).mp hshort
    simp only [startLength, startForm, hshort, if_true] at *
    by_cases hbig : cells.length > 0xFFFF
    · have hends : endsShort m cells.length = false :=
        Bool.eq_false_iff.mpr fun h => absurd (endsShort_iff.mp h).1 (by omega)
      simp only [hends, Bool.false_eq_true, if_false] at hroom ⊢
      obtain ⟨u', hrun, hrw⟩ := xcdr1ChangeToLong_run (m := m) hu hcells hroom
      refine ⟨origin + 8, u', ?_, rfl, hrw⟩
      rw [if_pos hbig, if_pos hauto, bind_of_ok hrun]
      rfl
    · have hends : endsShort m cells.length = true :=
        endsShort_iff.mpr ⟨by omega, hid, by simp [hauto]⟩
      simp only [hends, if_true] at hroom ⊢
      obtain ⟨u', hrun, hput⟩ := xcdr1EndShort_run cells.length hu hheader (by omega)
      refine ⟨origin, u', ?_, rfl, hput.rewritten cells (by rwa [header1_length])⟩
      rw [if_neg hbig, bind_of_ok hrun]
      rfl
  · have hlong : m.memberId.id ≤ 0x3F00 →
        m.headerSelection ≠ .autoWithShortHeaderByDefault := fun hid hm =>
      hshort ((startsShort_iff hsel).mpr ⟨hid, hm⟩)
    simp only [startLength, startForm, hshort, Bool.false_eq_true, if_false, reduceCtorEq] at *
    obtain ⟨u1, hend, hput⟩ := xcdr1EndLong_run cells.length hu hheader hstart
    have hrw1 := hput.rewritten cells (by rwa [header1_length])
    by_cases hbig : cells.length > 0xFFFF
    · have hends : endsShort m cells.length = false :=
        Bool.eq_false_iff.mpr fun h => absurd (endsShort_iff.mp h).1 (by omega)
      simp only [hends, Bool.false_eq_true, if_false]
      refine ⟨origin, u1, ?_, rfl, hrw1⟩
      rw [if_pos hbig, bind_of_ok hend]
      rfl
    · by_cases hkeep : m.headerSelection = .longHeader ∨ 0x3F00 < m.memberId.id
      · have hends : endsShort m cells.length = false :=
          Bool.eq_false_iff.mpr fun h => by
            obtain ⟨-, hid, hne⟩ := endsShort_iff.mp h
            exact hkeep.elim hne (by omega)
        simp only [hends, Bool.false_eq_true, if_false]
        refine ⟨origin, u1, ?_, rfl, hrw1⟩
        rw [if_neg hbig, if_pos hkeep, bind_of_ok hend]
        rfl
      · have hends : endsShort m cells.length = true :=
          endsShort_iff.mpr ⟨by omega, by omega, fun h => hkeep (.inl h)⟩
        have hauto : m.headerSelection = .autoWithLongHeaderByDefault := by
          rcases hm : m.headerSelection with _ | _ | _ | _
          · exact absurd hm hsel
          · exact absurd (.inl hm) hkeep
          · exact absurd hm (hlong (by omega))
          · rfl
        simp only [hends, if_true] at hroom ⊢
        obtain ⟨u', hrun, hrw⟩ := xcdr1ChangeToShort_run (m := m) hu hcells hstart
        refine ⟨origin - 8, u', ?_, by omega, hrw⟩
        rw [if_neg hbig, if_neg hkeep, if_pos hauto, bind_of_ok hrun]
        rfl

/-- The back-patch of an XCDRv1 member header after its content. The form it had was chosen by the
selection, the one it gets by the size of the content, so all four changes come up. -/
theorem xcdr1PatchMemberHeader_run {s t : Cdr} (hsel : m.headerSelection ≠ .shortHeader)
    (hs : Ready P s) (ht : Ready P t) (hsize : t.size = s.size)
    (hst : MemberState s m.memberId m.headerSelection (startForm m) st)
    (hoffset : t.offset = s.offset + (padTo 4 (phase P s).pos + startLength m) + cells.length)
    (horigin : s.offset + (padTo 4 (phase P s).pos + startLength m) ≤ t.origin)
    (hheader : Mem.Matches t.mem (s.offset + padTo 4 (phase P s).pos)
      ((header1 P m (startsShort m) 0).map some))
    (hcells : Mem.Matches t.mem (s.offset + (padTo 4 (phase P s).pos + startLength m)) cells)
    (hroom : s.offset + (padTo 4 (phase P s).pos +
      ((header1 P m (endsShort m cells.length) cells.length).length + cells.length)) ≤ s.size) :
    ∃ t', (xcdr1PatchMemberHeader st).run t = (.ok (), t') ∧
      t'.origin + startLength m = t.origin +
        (header1 P m (endsShort m cells.length) cells.length).length ∧
      Patched P s t t' (replicate (padTo 4 (phase P s).pos) none ++
        (header1 P m (endsShort m cells.length) cells.length).map some ++
          cells) := by
  have hle := ht.offset_le
  have hge := ht.origin_le
  have hlt := t.size_lt
  obtain ⟨u, hu, hback⟩ := patchSite_run hs ht hsize hst (by omega)
  have huoffset := hu.offset
  have husize := hu.size
  obtain ⟨o, u', hrun, ho, hrw⟩ := xcdr1RewriteMemberHeader_run cells t.origin
    hsel hst hu.aligned (by rwa [hu.mem, huoffset])
    (by rw [hu.mem, huoffset, Nat.add_assoc]; exact hcells) (by omega) (by omega) (by omega)
  have hmemberSize : iteratorDiff (iteratorDiff t.offset u.offset) (startLength m) =
      cells.length := by
    rw [iteratorDiff_eq (a := t.offset) (by omega) (by omega),
      iteratorDiff_eq (by omega) (by omega)]
    omega
  have hform : (if startForm m = .shortHeader then 4 else 12) = startLength m := by
    by_cases h : startsShort m <;> simp [startForm, startLength, h]
  have hlen := hrw.offset
  have husize' := hrw.size
  have hjump : (jump cells.length).run { u' with origin := o } =
      (.ok true, { u' with origin := o }.makeAlignment cells.length) :=
    jump_run (by simp only; omega)
  refine ⟨{ u' with origin := o }.makeAlignment cells.length, ?_, ho,
    hrw.patched hu o (by omega) (by omega)⟩
  simp only [xcdr1PatchMemberHeader, run_read_bind, run_modify_bind, hback,
    hst.headerSerialized, hform, hmemberSize]
  rw [bind_of_ok hrun, run_modify_bind, bind_of_ok hjump]
  rfl

def memberStarted (s : Cdr) (m : MemberInfo) : State :=
  { s.getState with
    headerSerialized := startForm m
    headerSelection := m.headerSelection
    nextMemberId := m.memberId }

lemma Emits.member1_run (hv : P.version = .xcdrV1) (hsel : m.headerSelection ≠ .shortHeader)
    (h : Emits P e value a) (hst : MemberState s m.memberId m.headerSelection (startForm m) st)
    (hs : Ready P s) (he : s.currentEncoding = e)
    (hroom : s.offset + (member1 P m a (phase P s)).peak ≤ s.size) : ∃ s1 s2 s3,
      (xcdr1SerializeMemberHeader m.memberId s.getState m.headerSelection).run s =
        (.ok { s.getState with
          headerSerialized := startForm m, headerSelection := m.headerSelection },
          s1) ∧
      value.run { s1 with nextMemberId := memberIdInvalid } = (.ok (), s2) ∧
      s2.currentEncoding = e ∧ (xcdr1PatchMemberHeader st).run s2 = (.ok (), s3) ∧
      Wrote P (member1 P m a (phase P s)) s { s3 with nextMemberId := memberIdInvalid } := by
  simp only [member1] at hroom
  obtain ⟨s1, hrun1, hbegun⟩ := xcdr1SerializeMemberHeader_run hs hsel s.getState (by omega)
  set s1' := { s1 with nextMemberId := memberIdInvalid } with hs1'
  have hready1 : Ready P s1' := { hbegun.ready with }
  have hoffset1 : s1'.offset = s.offset + padTo 4 (phase P s).pos + startLength m :=
    hbegun.offset
  have horigin1 : s1'.origin = s1'.offset := hbegun.origin
  have hphase1 : phase P s1' = { phase P s with pos := 0 } := by
    simp only [Cdr.phase, horigin1, Nat.sub_self, Nat.zero_mod]
    exact congrArg (Phase.mk 0) hbegun.flag
  have hsize1 : s1'.size = s.size := hbegun.size
  have henc1 : s1'.currentEncoding = e := hbegun.encoding.trans he
  have hpeak : s1'.offset + (a (phase P s1')).peak ≤ s1'.size := by
    rw [hphase1, hoffset1, hsize1]
    exact le_trans (by simp only [Nat.add_assoc, Nat.add_le_add_iff_left]; omega) hroom
  obtain ⟨s2, hrun2, hw2⟩ := h s1' hready1 henc1 hpeak
  rw [hphase1] at hw2
  set p := a { phase P s with pos := 0 } with hp
  have hoffset2 := hw2.offset
  have horigin2 := hw2.origin_ge
  have hcells2 := hw2.cells
  rw [hoffset1, Nat.add_assoc s.offset] at hoffset2 hcells2
  have hheader2 : Mem.Matches s2.mem (s.offset + padTo 4 (phase P s).pos)
      ((header1 P m (startsShort m) 0).map some) := by
    refine hbegun.header.congr fun k hk => hw2.below _ ?_
    rw [length_map, header1_length, ← startLength] at hk
    omega
  obtain ⟨s3, hrun3, horigin3, hpatched⟩ := xcdr1PatchMemberHeader_run hsel hs hw2.ready
    (hw2.size.trans hsize1) hst hoffset2 (by omega) hheader2 hcells2 (by omega)
  have hready3 := hpatched.ready
  have hoffset3 := hpatched.offset
  simp only [length_append, length_replicate, length_map] at hoffset3
  have hle := hs.origin_le
  refine ⟨s1, s2, s3, hrun1, hrun2, hw2.encoding.trans henc1, hrun3,
    { hready3 with }, hpatched.offset, ?_, hpatched.cells, fun i hi => ?_, hpatched.size, ?_,
    ?_, ?_, ?_⟩
  · have hsame : s3.offset - s3.origin = s2.offset - s2.origin := by omega
    have hflag : s3.serializedMemberSize = s2.serializedMemberSize := hpatched.flag
    change Phase.mk ((s3.offset - s3.origin) % P.align64) s3.serializedMemberSize = p.next
    rw [hsame, hflag, ← hw2.phase]
    rfl
  · change s3.mem i = s.mem i
    rw [hpatched.below i hi, hw2.below i (by omega)]
    exact hbegun.below i hi
  · exact hpatched.encoding.trans (hw2.encoding.trans hbegun.encoding)
  · change s.origin ≤ s3.origin
    omega
  · exact fun h => absurd (hv.symm.trans h) (by decide)
  · have hpads1 : notedPads s1' = notedPads s := hbegun.pads
    exact hpatched.pads.trans (by rw [hw2.pads, hpads1]; rfl)

lemma Emits.member1 (hv : P.version = .xcdrV1) (hsel : m.headerSelection ≠ .shortHeader)
    (h : Emits P .plCdr value a) : Emits P .plCdr (do
        let st ← xcdr1BeginSerializeMember m.memberId (← Prog.read).getState m.headerSelection
        value
        xcdr1EndSerializeMember st)
      (member1 P m a) := by
  intro s hs he hroom
  have hst : MemberState s m.memberId m.headerSelection (startForm m)
      (memberStarted s m) := ⟨rfl, rfl, rfl, rfl, rfl, rfl, rfl⟩
  obtain ⟨s1, s2, s3, hrun1, hrun2, henc, hrun3, hw⟩ := h.member1_run hv hsel hst hs he hroom
  refine ⟨_, ?_, hw⟩
  have hbegin : (xcdr1BeginSerializeMember m.memberId s.getState m.headerSelection).run s =
      (.ok (memberStarted s m), { s1 with nextMemberId := memberIdInvalid }) := by
    simp only [xcdr1BeginSerializeMember, Prog.run_read_bind, if_pos he]
    rw [Prog.bind_of_ok hrun1]
    rfl
  rw [Prog.run_read_bind, Prog.bind_of_ok hbegin, Prog.bind_of_ok hrun2]
  simp only [xcdr1EndSerializeMember, Prog.run_read_bind, if_pos henc]
  rw [Prog.bind_of_ok hrun3]
  rfl

/-- A present optional member has a header in every encoding, since in XCDRv1 only the header says
that it is present. -/
theorem Emits.optMember1 (hv : P.version = .xcdrV1) (hsel : m.headerSelection ≠ .shortHeader)
    (h : Emits P e value a) : Emits P e (do
        let st ← xcdr1BeginSerializeOptMember m.memberId true (← Prog.read).getState
          m.headerSelection
        value
        xcdr1EndSerializeOptMember st)
      (Layout.member1 P m a) := by
  intro s hs he hroom
  have hst : MemberState s m.memberId m.headerSelection (Layout.startForm m)
      { memberStarted s m with memberSize := 1 } := ⟨rfl, rfl, rfl, rfl, rfl, rfl, rfl⟩
  obtain ⟨s1, s2, s3, hrun1, hrun2, -, hrun3, hw⟩ := h.member1_run hv hsel hst hs he hroom
  refine ⟨_, ?_, hw⟩
  have hbegin : (xcdr1BeginSerializeOptMember m.memberId true s.getState
      m.headerSelection).run s = (.ok { memberStarted s m with memberSize := 1 },
        { s1 with nextMemberId := memberIdInvalid }) := by
    simp only [xcdr1BeginSerializeOptMember, Prog.run_read_bind, if_true, true_or]
    rw [Prog.bind_of_ok hrun1]
    rfl
  rw [Prog.run_read_bind, Prog.bind_of_ok hbegin, Prog.bind_of_ok hrun2]
  simp only [xcdr1EndSerializeOptMember]
  rw [if_pos Nat.one_pos, Prog.bind_of_ok hrun3]
  rfl

/-- An absent optional member is a header alone: outside of PL_CDR there is no other way to say that
a member is missing. -/
theorem Emits.absent1 (hv : P.version = .xcdrV1) (hsel : m.headerSelection ≠ .shortHeader)
    (hplain : e ≠ .plCdr) (h : Emits P e value a) : Emits P e (do
        let st ← xcdr1BeginSerializeOptMember m.memberId false (← Prog.read).getState
          m.headerSelection
        value
        xcdr1EndSerializeOptMember st)
      (Layout.seq (Layout.absent1 P m) a) := by
  intro s hs he hroom
  simp only [Layout.seq] at hroom
  have hpeak : (Layout.absent1 P m (phase P s)).peak =
      padTo 4 (phase P s).pos + Layout.startLength m := by
    simp [Layout.absent1, Layout.header1_length, Layout.startLength]
  obtain ⟨s1, hrun1, hbegun⟩ := xcdr1SerializeMemberHeader_run hs hsel s.getState (by omega)
  have hw1 := hbegun.wrote hv hs
  obtain ⟨s2, hrun2, hw2⟩ := h.relabel memberIdInvalid memberIdInvalid s1 hw1.ready
    (hw1.encoding.trans he) (by rw [hw1.phase, hw1.offset, hw1.size]; omega)
  rw [hw1.phase] at hw2
  refine ⟨s2, ?_, hw1.trans hw2 _ rfl rfl rfl⟩
  have hbegin : (xcdr1BeginSerializeOptMember m.memberId false s.getState
      m.headerSelection).run s = (.ok { memberStarted s m with memberSize := 0 },
        { s1 with nextMemberId := memberIdInvalid }) := by
    simp only [xcdr1BeginSerializeOptMember, Prog.run_read_bind, he, hplain, ne_eq,
      not_false_eq_true, or_true, if_true]
    rw [Prog.bind_of_ok hrun1]
    rfl
  rw [Prog.run_read_bind, Prog.bind_of_ok hbegin]
  exact hrun2

/-- An absent optional member of a PL_CDR type has no header. -/
theorem Emits.missing1 (h : Emits P .plCdr value a) : Emits P .plCdr (do
        let st ← xcdr1BeginSerializeOptMember m.memberId false (← Prog.read).getState
          m.headerSelection
        value
        xcdr1EndSerializeOptMember st) a := by
  refine (h.relabel memberIdInvalid memberIdInvalid).congr fun s hs he => ?_
  have hbegin : (xcdr1BeginSerializeOptMember m.memberId false s.getState m.headerSelection).run s =
        (.ok { s.getState with memberSize := 0, nextMemberId := m.memberId },
          { s with nextMemberId := memberIdInvalid }) := by
    have hmissing : ¬(false = true ∨ s.currentEncoding ≠ .plCdr) := by simp [he]
    simp only [xcdr1BeginSerializeOptMember, Prog.run_read_bind, if_neg hmissing]
    rfl
  rw [Prog.run_read_bind, Prog.bind_of_ok hbegin]
  rfl

/-- A member of a PLAIN_CDR type has no header. -/
theorem Emits.plain1 (hplain : e ≠ .plCdr) (h : Emits P e value a) : Emits P e (do
        let st ← xcdr1BeginSerializeMember m.memberId (← Prog.read).getState m.headerSelection
        value
        xcdr1EndSerializeMember st) a := by
  intro s hs he hroom
  obtain ⟨s', hrun, hw⟩ := h { s with nextMemberId := memberIdInvalid } (hs.relabel _) he hroom
  refine ⟨{ s' with nextMemberId := memberIdInvalid }, ?_, hw.relabel s.nextMemberId _⟩
  have hbegin : (xcdr1BeginSerializeMember m.memberId s.getState m.headerSelection).run s =
      (.ok { s.getState with nextMemberId := m.memberId },
        { s with nextMemberId := memberIdInvalid }) := by
    have hplain' : ¬s.currentEncoding = .plCdr := fun h => hplain (he.symm.trans h)
    simp only [xcdr1BeginSerializeMember, Prog.run_read_bind, if_neg hplain']
    rfl
  have hout : ¬s'.currentEncoding = .plCdr := by
    rw [hw.encoding]
    exact fun h => hplain (he.symm.trans h)
  rw [Prog.run_read_bind, Prog.bind_of_ok hbegin, Prog.bind_of_ok hrun]
  simp only [xcdr1EndSerializeMember, Prog.run_read_bind, if_neg hout]
  rfl

/-- The end of a PL_CDR type. -/
theorem sentinel_emits : Emits P e (do
        alignHeader
        serializeU16 pidSentinel
        serializeU16 pidSentinelLength) (sentinel P) := by
  intro s hs he hroom
  have hroom' : s.offset + (padTo 4 (phase P s).pos + 4) ≤ s.size := by
    simpa [sentinel, aligned] using hroom
  have hal := headerPosition_aligned hs (by omega)
  obtain ⟨s1, s2, hrun1, hrun2, hput⟩ := hal.put_u16s pidSentinel pidSentinelLength
    (by simp [headerPosition]; omega)
  refine ⟨s2, ?_, hput.wrote hs⟩
  rw [bind_of_ok (alignHeader_run hs), bind_of_ok hrun1, hrun2]

end EasyDds.Cdr
