import EasyDds.Cdr.Emit.Header

/-!
DHEADERs and XCDRv2 member headers.
-/

namespace EasyDds.Cdr

open Layout List

open Prog

variable {P : Profile} {e : EncodingAlgorithmFlag} {s : Cdr}

/-- The length `n` of the content up to `t` was written in front of it, where `s` stands. -/
structure Sized (P : Profile) (n : Nat) (s t t' : Cdr) : Prop where
  ready : Ready P t'
  mem : t'.mem = t.mem.write (s.offset + padTo 4 (phase P s).pos) (wordBytes P.swap 4 n)
  offset : t'.offset = t.offset
  origin : t'.origin = t.origin
  size : t'.size = t.size
  flag : t'.serializedMemberSize = .serializedMemberSize
  pads : notedPads t' = notedPads t

variable {t : Cdr} {n : Nat} {a : Layout}

lemma lengthWord_run (st : State) (hs : Ready P s) (ht : Ready P t) (hsize : t.size = s.size)
    (hst : st.offset = s.offset ∧ st.origin = s.origin ∧ st.swapBytes = s.swapBytes ∧
      st.lastDataSize = s.lastDataSize)
    (hoffset : t.offset = s.offset + (padTo 4 (phase P s).pos + 4) + n) :
    iteratorDiff (iteratorDiff t.offset (setState st t).offset)
        (4 + (setState st t).alignment 4) = n ∧
      (serializeU32 n).run (setState st t) =
        (.ok (), ((setState st t).makeAlignment (padTo 4 (phase P s).pos)).store
          (wordBytes P.swap 4 n)) := by
  have hback : Ready P (setState st t) := hs.setState_back ht _ hsize hst
  obtain ⟨hstOffset, hstOrigin, -, -⟩ := hst
  have hpos : (phase P (setState st t)).pos = (phase P s).pos := by
    simp [Cdr.phase, hstOffset, hstOrigin]
  have hle := ht.offset_le
  have hlt := t.size_lt
  constructor
  · rw [hback.alignment_eq P.isAlign_four, hpos, setState_offset, hstOffset, iteratorDiff_eq
      (a := t.offset) (by omega) (by omega), iteratorDiff_eq (by omega) (by omega)]
    omega
  · have hrun := serializeU32_run hback (x := n)
      (by rw [hpos, setState_offset, setState_size, hstOffset]; omega)
    rwa [hpos] at hrun

/-- The run of `set_xcdrv2_dheader` after content of the given length. -/
theorem setXcdrv2Dheader_run (hv : P.version = .xcdrV2) (hs : Ready P s) (ht : Ready P t)
    (hsize : t.size = s.size) (hoffset : t.offset = s.offset + (padTo 4 (phase P s).pos + 4) + n) :
    ∃ t', (setXcdrv2Dheader s.getState).run t = (.ok (), t') ∧
      t'.currentEncoding = t.currentEncoding ∧ Sized P n s t t' := by
  obtain ⟨hlen, hrun⟩ := lengthWord_run s.getState hs ht hsize ⟨rfl, rfl, rfl, rfl⟩ hoffset
  have hver : t.cdrVersion = .xcdrV2 := by rw [ht.version, hv]
  refine ⟨{ setState t.getState (((setState s.getState t).makeAlignment
      (padTo 4 (phase P s).pos)).store (wordBytes P.swap 4 n)) with
      serializedMemberSize := .serializedMemberSize }, ?_, rfl,
    { ht with },
    rfl, rfl, rfl, rfl, rfl, by simp [notedPads]⟩
  simp only [setXcdrv2Dheader, run_read_bind, if_pos hver, run_modify_bind, hlen]
  rw [bind_of_ok hrun]
  rfl

/-- The run of `xcdr2_end_serialize_type` for a type with a DHEADER. -/
theorem xcdr2EndSerializeType_run (st : State) (hs : Ready P s) (ht : Ready P t)
    (hsize : t.size = s.size)
    (hst : st.offset = s.offset ∧ st.origin = s.origin ∧ st.swapBytes = s.swapBytes ∧
      st.lastDataSize = s.lastDataSize)
    (hne : t.currentEncoding ≠ .plainCdr2)
    (hoffset : t.offset = s.offset + (padTo 4 (phase P s).pos + 4) + n)
    (horigin : t.origin = s.origin) : ∃ t', (xcdr2EndSerializeType st).run t = (.ok (), t') ∧
      t'.currentEncoding = st.previousEncoding ∧ Sized P n s t t' := by
  obtain ⟨hlen, hrun⟩ := lengthWord_run st hs ht hsize hst hoffset
  obtain ⟨hstOffset, hstOrigin, hstSwap, -⟩ := hst
  have hle := ht.offset_le
  have hoff : (((setState st t).makeAlignment (padTo 4 (phase P s).pos)).store
      (wordBytes P.swap 4 n)).offset + n = t.offset := by
    simp [hstOffset]
    omega
  have hjump := jump_run (s := ((setState st t).makeAlignment (padTo 4 (phase P s).pos)).store
    (wordBytes P.swap 4 n)) (n := n) (by rw [hoff]; exact hle)
  refine ⟨{ (((setState st t).makeAlignment (padTo 4 (phase P s).pos)).store
      (wordBytes P.swap 4 n)).makeAlignment n with
      serializedMemberSize := .serializedMemberSize
      currentEncoding := st.previousEncoding }, ?_, rfl, ?_, ?_, hoff, ?_, rfl, rfl, ?_⟩
  · simp only [xcdr2EndSerializeType, run_read_bind, if_pos hne, run_modify_bind, hlen]
    rw [bind_of_ok hrun, bind_of_ok hjump]
    rfl
  · refine ⟨ht.version, hstSwap.trans hs.swap, ht.align64, ?_, hoff.le.trans hle, Nat.zero_le _⟩
    change st.origin ≤ _
    rw [hstOrigin, ← horigin]
    exact ht.origin_le.trans hoff.ge
  · simp [hstOffset]
  · exact hstOrigin.trans horigin.symm
  · simp [notedPads]

/-- A length word, content, and the length at last. The word is written as zero first, because the
length is known only behind the content. -/
theorem Sized.wrote {s s1 s2 s3 : Cdr} (s1' : Cdr) (hw1 : Wrote P (u32 P 0 (phase P s)) s s1)
    (hoffset1 : s1'.offset = s1.offset) (hmem1 : s1'.mem = s1.mem) (hsize1 : s1'.size = s1.size)
    (horigin1 : s1'.origin = s1.origin) (hpads1 : notedPads s1' = notedPads s1)
    (hw2 : Wrote P (a (advance P (phase P s) (padTo 4 (phase P s).pos + 4))) s1' s2)
    (h : Sized P (a (advance P (phase P s) (padTo 4 (phase P s).pos + 4))).cells.length s s2 s3)
    (henc : s3.currentEncoding = s.currentEncoding) : Wrote P (delimited P a (phase P s)) s s3 := by
  have hoffset := hw1.offset
  rw [u32_length] at hoffset
  have hoffset2 := hw2.offset
  rw [hoffset1, hoffset] at hoffset2
  refine ⟨h.ready, ?_, ?_, ?_, ?_, ?_, henc, ?_, ?_, ?_⟩
  · rw [h.offset, hoffset2]
    simp [delimited]
    omega
  · rw [phase_withFlag h.offset h.origin, hw2.phase, h.flag]
    rfl
  · rw [h.mem]
    refine Mem.matches_patch ?_
    rw [length_wordBytes, Nat.add_assoc, ← hoffset, ← hoffset1]
    exact hw2.cells
  · intro i hi
    rw [h.mem, Mem.write_of_lt _ _ (by omega), hw2.below i (by omega), hmem1, hw1.below i hi]
  · rw [h.size, hw2.size, hsize1, hw1.size]
  · rw [h.origin]
    exact hw1.origin_ge.trans (horigin1 ▸ hw2.origin_ge)
  · intro hv
    rw [h.origin, hw2.origin_eq hv, horigin1, hw1.origin_eq hv]
  · rw [h.pads, hw2.pads, hpads1, hw1.pads]
    simp [u32_pads, delimited]

lemma Emits.delimited {m : State → CdrM Unit} (hv : P.version = .xcdrV2)
    (h : ∀ st, Emits P e (m st) a) : Emits P e (do
        let dheaderState ← allocateXcdrv2Dheader
        m dheaderState
        setXcdrv2Dheader dheaderState)
      (Layout.delimited P a) := by
  intro s hs he hroom
  simp only [Layout.delimited] at hroom
  obtain ⟨s1, hrun1, hw1⟩ := serializeU32_emits (P := P) (e := e) 0 s hs he
    (by rw [Layout.u32_peak]; omega)
  have hnext := hw1.phase
  have hoffset1 := hw1.offset
  rw [Layout.u32_next] at hnext
  rw [Layout.u32_length] at hoffset1
  obtain ⟨s2, hrun2, hw2⟩ := h s.getState s1 hw1.ready (by rw [hw1.encoding, he])
    (by rw [hnext, hoffset1, hw1.size]; omega)
  rw [hnext] at hw2
  obtain ⟨s3, hrun3, henc, hsized⟩ := setXcdrv2Dheader_run hv hs hw2.ready
    (by rw [hw2.size, hw1.size]) (by rw [hw2.offset, hoffset1])
  have halloc : allocateXcdrv2Dheader.run s = (.ok s.getState, s1) := by
    simp only [allocateXcdrv2Dheader, run_read_bind, if_pos (hs.version.trans hv)]
    rw [bind_of_ok hrun1]
    rfl
  refine ⟨s3, ?_, hsized.wrote s1 hw1 rfl rfl rfl rfl rfl hw2
    (by rw [henc, hw2.encoding, hw1.encoding])⟩
  rw [bind_of_ok halloc, bind_of_ok hrun2, hrun3]

lemma Emits.withDheader {m : State → CdrM Unit} (h : ∀ st, Emits P e (m st) a) : Emits P e (do
        let dheaderState ← allocateXcdrv2Dheader
        m dheaderState
        setXcdrv2Dheader dheaderState)
      (Layout.withDheader P a) := by
  unfold Layout.withDheader
  split
  case isTrue hv => exact Emits.delimited hv h
  case isFalse hv =>
    intro s hs he hroom
    obtain ⟨s', hrun, hw⟩ := h s.getState s hs he hroom
    refine ⟨s', ?_, hw⟩
    have hbefore : ¬s.cdrVersion = .xcdrV2 := fun h => hv (hs.version.symm.trans h)
    have hafter : ¬s'.cdrVersion = .xcdrV2 := fun h => hv (hw.ready.version.symm.trans h)
    simp only [allocateXcdrv2Dheader, run_bind_bind, run_read_bind, if_neg hbefore, run_pure_bind]
    rw [bind_of_ok hrun]
    simp only [setXcdrv2Dheader, run_read_bind, if_neg hafter, run_pure]

lemma getShortLc_eq_invalid : (8 < n ∨ getShortLc n = 0xFFFFFFFF) ↔ getShortLc n = 0xFFFFFFFF := by
  constructor
  · rintro (h | h)
    · unfold getShortLc
      split <;> omega
    · exact h
  · exact .inr

/-- `xcdr2_change_to_long_member_header` with room for the longer header: the content moves up by
four bytes. -/
theorem xcdr2ChangeToLong_run {u : Cdr} {m : MemberId} {cells : List (Option UInt8)}
    (hu : Aligned P u) (hflag : u.serializedMemberSize = .noSerializedMemberSize)
    (hcells : Mem.Matches u.mem (u.offset + 4) cells)
    (hroom : u.offset + (8 + cells.length) ≤ u.size) :
    ∃ u', (xcdr2ChangeToLongMemberHeader m cells.length).run u = (.ok (), u') ∧
      Rewritten P (wordBytes P.swap 4 (flagsAndMemberId m 0x40000000) ++
        wordBytes P.swap 4 cells.length) cells u u' := by
  have hlt := u.size_lt
  have hcheck : 0 < iteratorDiff u.room (cells.length + 7) := by
    rw [hu.ready.room_eq, iteratorDiff_eq (by omega) (by omega)]
    omega
  set v := (u.note (.grow 8 cells.length u.room)).memmove (u.offset + 8) (u.offset + 4)
    cells.length with hv
  have hval : Aligned P v := (hu.note _).memmove _ _ _
  obtain ⟨v1, hrun1, hput1⟩ := hval.put_u32 (flagsAndMemberId m 0x40000000) (by simp [hv]; omega)
  obtain ⟨v2, hrun2, hput2⟩ := hput1.aligned.put_u32 cells.length
    (by rw [hput1.offset, hput1.size, length_wordBytes]; simp [hv]; omega)
  have hmoved : Mem.Matches v.mem (v.offset + 8) cells := by
    simp only [hv, memmove_mem, memmove_offset, note_mem, note_offset]
    exact Mem.matches_move hcells le_rfl
  have hrw := (hput1.trans hput2).rewritten cells
    (by simpa only [length_append, length_wordBytes] using hmoved)
  refine ⟨v2, ?_, { hrw with below i hi := ?_, pads := ?_ }⟩
  · have hroomNote : (u.note (.grow 8 cells.length u.room)).room = u.room := rfl
    have hlc : getLongLc v.serializedMemberSize = 0x40000000 := by simp [hv, hflag, getLongLc]
    simp only [xcdr2ChangeToLongMemberHeader, run_modify_bind, run_read_bind,
      hroomNote, if_pos hcheck, note_offset, ← hv]
    rw [hlc, bind_of_ok hrun1, hrun2]
  · rw [hrw.below i hi, hv, memmove_mem]
    exact Mem.move_of_lt _ _ _ (by omega)
  · rw [hrw.pads]
    simp [hv, notedPads]

lemma Layout.header2_length (P : Profile) (m : MemberId) (n : Nat)
    (flag : SerializedMemberSizeForNextInt) :
    (header2 P m n flag).length = 4 ∨ (header2 P m n flag).length = 8 := by
  unfold header2
  split
  · split <;> simp
  · simp

/-- The back-patch of an XCDRv2 member header after its content. The short header is kept if it can
tell the size; else the content makes room for a size word. -/
theorem xcdr2PatchMemberHeader_run {st : State} {m : MemberId}
    {cells : List (Option UInt8)} (hs : Ready P s) (ht : Ready P t) (hsize : t.size = s.size)
    (hst : MemberState s m .autoWithShortHeaderByDefault .shortHeader st)
    (hoffset : t.offset = s.offset + (padTo 4 (phase P s).pos + 4) + cells.length)
    (hcells : Mem.Matches t.mem (s.offset + (padTo 4 (phase P s).pos + 4)) cells)
    (hroom : s.offset + (padTo 4 (phase P s).pos +
      ((header2 P m cells.length t.serializedMemberSize).length + cells.length)) ≤ s.size) :
    ∃ t', (xcdr2PatchMemberHeader st).run t = (.ok (), t') ∧ t'.origin = s.origin ∧
      Patched P s t t' (replicate (padTo 4 (phase P s).pos) none ++
        (header2 P m cells.length t.serializedMemberSize).map some ++ cells) := by
  obtain ⟨u, hu, hback⟩ := patchSite_run hs ht hsize hst (by omega)
  have huoffset := hu.offset
  have hucells : Mem.Matches u.mem (u.offset + 4) cells := by
    rw [hu.mem, huoffset]
    rwa [← Nat.add_assoc] at hcells
  have hmemberSize : iteratorDiff (iteratorDiff t.offset u.offset) 4 = cells.length := by
    have hle := ht.offset_le
    have hlt := t.size_lt
    rw [iteratorDiff_eq (a := t.offset) (by omega) (by omega),
      iteratorDiff_eq (by omega) (by omega)]
    omega
  obtain ⟨u', hrw, hrun⟩ : ∃ u', Rewritten P (header2 P m cells.length t.serializedMemberSize) cells
      u u' ∧ (u'.offset + cells.length ≤ u'.size →
        (xcdr2PatchMemberHeader st).run t = (.ok (), u'.makeAlignment cells.length)) := by
    have hword : ∀ word, header2 P m cells.length t.serializedMemberSize = wordBytes P.swap 4 word →
        ∃ u', (serializeU32 word).run u = (.ok (), u') ∧ u'.offset = u.offset + 4 ∧
          Rewritten P (header2 P m cells.length t.serializedMemberSize) cells u u' := by
      intro word hheader
      rw [hheader, length_wordBytes] at hroom
      obtain ⟨u', hrun', hput⟩ := hu.aligned.put_u32 word (by rw [hu.size]; omega)
      exact ⟨u', hrun', by simpa using hput.offset,
        hheader ▸ hput.rewritten cells (by simpa using hucells)⟩
    simp only [xcdr2PatchMemberHeader, run_read_bind, run_modify_bind, hback, hu.flag, if_true,
      hst.headerSerialized, hmemberSize, getShortLc_eq_invalid, hst.headerSelection,
      hst.nextMemberId]
    by_cases hflag : t.serializedMemberSize = .noSerializedMemberSize
    · by_cases hlc : getShortLc cells.length = 0xFFFFFFFF
      · -- the header grows by a word and the content moves with it
        have hheader : header2 P m cells.length t.serializedMemberSize =
            wordBytes P.swap 4 (flagsAndMemberId m 0x40000000) ++
              wordBytes P.swap 4 cells.length := by
          simp [header2, hflag, hlc]
        rw [hheader, length_append, length_wordBytes, length_wordBytes] at hroom
        obtain ⟨u', hrun', hrw⟩ := xcdr2ChangeToLong_run (m := m) hu.aligned
          (hu.flag.trans hflag) hucells (by rw [hu.size]; omega)
        refine ⟨u', hheader ▸ hrw, fun hin => ?_⟩
        rw [if_pos hflag, if_pos hlc, bind_of_ok hrun', bind_of_ok (jump_run hin)]
        rfl
      · obtain ⟨u', hrun', -, hrw⟩ := hword (flagsAndMemberId m (getShortLc cells.length))
          (by simp [header2, hflag, hlc])
        refine ⟨u', hrw, fun hin => ?_⟩
        rw [if_pos hflag, if_neg hlc, xcdr2EndShortMemberHeader, bind_of_ok hrun',
          bind_of_ok (jump_run hin)]
        rfl
    · -- the first word of the content serves as the length
      obtain ⟨u', hrun', hoffset', hrw⟩ := hword
        (flagsAndMemberId m (getLongLc t.serializedMemberSize)) (by simp [header2, hflag])
      have hlast : t.offset = u'.offset + cells.length := by omega
      have hend : (xcdr2EndLongMemberHeader m 0).run u = (.ok (), u') := by
        simp only [xcdr2EndLongMemberHeader, run_read_bind, if_true, hu.flag]
        rw [bind_of_ok hrun']
        rfl
      refine ⟨u', hrw, fun _ => ?_⟩
      rw [if_neg hflag, bind_of_ok hend, run_modify_bind, run_modify, hlast]
      rfl
  have hlen := hrw.offset
  have hin : u'.offset + cells.length ≤ u'.size := by
    rw [hrw.size, hu.size]
    omega
  exact ⟨_, hrun hin, hrw.origin.trans hu.origin,
    hrw.patched hu u'.origin (hrw.ready.origin_le.trans (by omega)) hin⟩

lemma Emits.member2 {value : CdrM Unit} {m : MemberInfo} (hv : P.version = .xcdrV2)
    (hid : m.memberId.id < 0x10000000) (hsel : m.headerSelection = .autoWithShortHeaderByDefault)
    (h : Emits P .plCdr2 value a) : Emits P .plCdr2 (do
        let st ← xcdr2BeginSerializeMember m.memberId true (← Prog.read).getState m.headerSelection
        value
        xcdr2EndSerializeMember st)
      (Layout.member2 P m.memberId a) := by
  intro s hs he hroom
  simp only [Layout.member2] at hroom
  obtain ⟨s1, hrun1, hw1⟩ := serializeU32_emits (P := P) (e := .plCdr2)
    (flagsAndMemberId m.memberId 0) s hs he (by rw [Layout.u32_peak]; omega)
  have hnext := hw1.phase
  have hoffset1 := hw1.offset
  rw [Layout.u32_next] at hnext
  rw [Layout.u32_length] at hoffset1
  -- the content starts with the identifier of the member already consumed
  set s1' := { s1 with nextMemberId := memberIdInvalid } with hs1'
  have hready1 : Ready P s1' := { hw1.ready with }
  have hphase1 : phase P s1' = Layout.advance P (phase P s) (padTo 4 (phase P s).pos + 4) := hnext
  have hoffset1' : s1'.offset = s.offset + (padTo 4 (phase P s).pos + 4) := hoffset1
  have hsize1' : s1'.size = s.size := hw1.size
  obtain ⟨s2, hrun2, hw2⟩ := h s1' hready1 (by rw [hs1', hw1.encoding, he])
    (by rw [hphase1, hoffset1', hsize1']; omega)
  rw [hphase1] at hw2
  set p := a (Layout.advance P (phase P s) (padTo 4 (phase P s).pos + 4)) with hp
  have hflag2 : s2.serializedMemberSize = p.next.flag := by rw [← hw2.phase, Cdr.phase]
  have horigin2 : s2.origin = s.origin := by
    rw [hw2.origin_eq hv]
    exact hw1.origin_eq hv
  have hoffset2 := hw2.offset
  rw [hoffset1'] at hoffset2
  set st : State := { s.getState with
    headerSerialized := .shortHeader, headerSelection := .autoWithShortHeaderByDefault,
    memberSize := 1, nextMemberId := m.memberId } with hst
  have hstate : MemberState s m.memberId .autoWithShortHeaderByDefault .shortHeader st :=
    ⟨rfl, rfl, rfl, rfl, rfl, rfl, rfl⟩
  have hcells2 := hw2.cells
  rw [hoffset1'] at hcells2
  obtain ⟨s3, hrun3, horigin3, hpatched⟩ := xcdr2PatchMemberHeader_run hs hw2.ready
    (by rw [hw2.size, hsize1']) hstate hoffset2 hcells2 (by rw [hflag2]; omega)
  rw [hflag2] at hpatched
  have hheader := Layout.header2_length P m.memberId p.cells.length p.next.flag
  have hready3 := hpatched.ready
  have hoffset3 := hpatched.offset
  simp only [length_append, length_replicate, length_map] at hoffset3
  refine ⟨{ s3 with nextMemberId := memberIdInvalid,
                    serializedMemberSize := .noSerializedMemberSize }, ?_,
    { hready3 with }, hpatched.offset, ?_, hpatched.cells, ?_, ?_, ?_, ?_, ?_, ?_⟩
  · have hbegin : (xcdr2BeginSerializeMember m.memberId true s.getState m.headerSelection).run s
        = (.ok st, s1') := by
      simp only [xcdr2BeginSerializeMember, Prog.run_read_bind, he, and_self,
        if_true, if_neg (Nat.not_le.mpr hid), hsel, xcdr2SerializeShortMemberHeader]
      rw [Prog.bind_of_ok hrun1]
      rfl
    have henc2 : s2.currentEncoding = .plCdr2 := by
      rw [hw2.encoding]
      exact hw1.encoding.trans he
    rw [Prog.run_read_bind, Prog.bind_of_ok hbegin, Prog.bind_of_ok hrun2]
    simp only [xcdr2EndSerializeMember, Prog.run_read_bind]
    rw [if_pos ⟨Nat.one_pos, henc2⟩, Prog.bind_of_ok hrun3]
    rfl
  · have hpos : p.next.pos = (s2.offset - s.origin) % P.align64 := by
      rw [← hw2.phase, Cdr.phase, horigin2]
    have hfour : P.align64 = 4 := by simp [Profile.align64, hv]
    have hle := hs.origin_le
    have hsame : (s3.offset - s3.origin) % P.align64 = p.next.pos := by
      rw [horigin3, hpos, hfour, hoffset2, hoffset3]
      omega
    change Phase.mk ((s3.offset - s3.origin) % P.align64) _ = Phase.mk p.next.pos _
    rw [hsame]
  · intro i hi
    rw [hpatched.below i hi, hw2.below i (by omega)]
    exact hw1.below i hi
  · exact hpatched.size
  · exact hpatched.encoding.trans (hw2.encoding.trans hw1.encoding)
  · exact horigin3.ge
  · exact fun _ => horigin3
  · have hpads1 : notedPads s1' = notedPads s := hw1.pads
    exact hpatched.pads.trans (by rw [hw2.pads, hpads1]; rfl)

/-- In XCDRv2 the end of a member clears the flag, header or not, so that the size that one member
announces is not taken for that of the next. -/
theorem Emits.plain2 {value : CdrM Unit} {m : MemberInfo} {isPresent : Bool}
    (hplain : ¬(isPresent ∧ e = .plCdr2)) (h : Emits P e value a) : Emits P e (do
        let st ← xcdr2BeginSerializeMember m.memberId isPresent (← Prog.read).getState
          m.headerSelection
        value
        xcdr2EndSerializeMember st)
      (Layout.thenFlag .noSerializedMemberSize a) := by
  intro s hs he hroom
  obtain ⟨s', hrun, hw⟩ := (h.relabel memberIdInvalid memberIdInvalid).thenFlag
    .noSerializedMemberSize s hs he hroom
  refine ⟨s', ?_, hw⟩
  have hbegin : (xcdr2BeginSerializeMember m.memberId isPresent s.getState
      m.headerSelection).run s = (.ok { s.getState with
        memberSize := if isPresent then 1 else 0, nextMemberId := m.memberId },
        { s with nextMemberId := memberIdInvalid }) := by
    have hplain' : ¬(isPresent ∧ s.currentEncoding = .plCdr2) := by rwa [he]
    simp only [xcdr2BeginSerializeMember, Prog.run_read_bind, if_neg hplain']
    rfl
  obtain ⟨t, hvalue, ht⟩ := h { s with nextMemberId := memberIdInvalid } (hs.relabel _) he hroom
  have hout : ¬(0 < (if isPresent then 1 else 0) ∧ t.currentEncoding = .plCdr2) := by
    rintro ⟨hsize, henc⟩
    refine hplain ⟨?_, ?_⟩
    · by_contra habsent
      simp [habsent] at hsize
    · rw [← he, ← henc, ht.encoding]
  rw [Prog.run_read_bind, Prog.bind_of_ok hbegin, Prog.bind_of_ok hvalue, ← hrun]
  simp only [xcdr2EndSerializeMember, Prog.run_read_bind, if_neg hout, setNextMemberId,
    bind_assoc, Prog.run_modify_bind]
  rw [Prog.bind_of_ok hvalue]
  rfl

end EasyDds.Cdr
