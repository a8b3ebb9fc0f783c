import EasyDds.Cdr.Decode.Collection
import Mathlib.Data.Nat.Bitwise

/-!
Decoding of member headers: the fields of a header word come back, and the decoder stands in
front of the content with the size of the content in its state.
-/

namespace EasyDds.Cdr

open Layout List

open Prog

variable {P : Profile} {e : EncodingAlgorithmFlag} {φ : Phase} {α : Type}

variable {m : MemberId} {k : Nat} {s s' : Cdr}

lemma flagsAndMemberId_eq (hid : m.id < 2 ^ 28) (hk : k < 8) :
    flagsAndMemberId m (k * 2 ^ 28) = 2 ^ 28 * (8 * m.mustUnderstand.toNat + k) + m.id := by
  have hflag : (if m.mustUnderstand then 0x80000000 else 0x0) =
      2 ^ 31 * m.mustUnderstand.toNat := by
    cases m.mustUnderstand <;> rfl
  rw [flagsAndMemberId, hflag, ← Nat.two_pow_add_eq_or_of_lt (i := 31) (by omega),
    show 2 ^ 31 * m.mustUnderstand.toNat + k * 2 ^ 28 =
      2 ^ 28 * (8 * m.mustUnderstand.toNat + k) by omega,
    ← Nat.two_pow_add_eq_or_of_lt (i := 28) hid]

/-- The three fields of a header word. -/
theorem flagsAndMemberId_fields (hid : m.id < 2 ^ 28) (hk : k < 8) :
    flagsAndMemberId m (k * 2 ^ 28) < 2 ^ 32 ∧
      flagsAndMemberId m (k * 2 ^ 28) &&& 0x0FFFFFFF = m.id ∧
      (flagsAndMemberId m (k * 2 ^ 28) &&& 0x80000000 != 0) = m.mustUnderstand ∧
      (flagsAndMemberId m (k * 2 ^ 28) &&& 0x70000000) >>> 28 = k := by
  rw [flagsAndMemberId_eq hid hk]
  set w := 2 ^ 28 * (8 * m.mustUnderstand.toNat + k) + m.id with hw
  have hb : m.mustUnderstand.toNat ≤ 1 := Bool.toNat_le _
  refine ⟨by omega, ?_, ?_, ?_⟩
  · have h := Nat.and_two_pow_sub_one_eq_mod w 28
    norm_num at h
    omega
  · have hbit : w.testBit 31 = m.mustUnderstand := by
      rw [Nat.testBit_eq_decide_div_mod_eq]
      have hdiv : w / 2 ^ 31 = m.mustUnderstand.toNat := by omega
      rw [hdiv]
      cases m.mustUnderstand <;> rfl
    have h := Nat.and_two_pow w 31
    norm_num at h
    rw [h, hbit]
    cases m.mustUnderstand <;> rfl
  · rw [Nat.shiftRight_and_distrib, Nat.shiftRight_eq_div_pow]
    have h := Nat.and_two_pow_sub_one_eq_mod (w / 2 ^ 28) 3
    change w / 2 ^ 28 &&& 7 = k
    rw [h]
    omega

lemma flagsAndPid_fields (m : MemberId) (pid : Nat) (hpid : pid < 2 ^ 14) :
    flagsAndPid m pid < 2 ^ 16 ∧ (flagsAndPid m pid &&& 0x4000 != 0) = m.mustUnderstand ∧
      flagsAndPid m pid &&& 0x3FFF = pid := by
  have hflag : (if m.mustUnderstand then 0x4000 else 0x0) = 2 ^ 14 * m.mustUnderstand.toNat := by
    cases m.mustUnderstand <;> rfl
  have heq : flagsAndPid m pid = 2 ^ 14 * m.mustUnderstand.toNat + pid := by
    rw [flagsAndPid, hflag, Nat.mod_eq_of_lt (by omega),
      ← Nat.two_pow_add_eq_or_of_lt (i := 14) hpid]
  have hb : m.mustUnderstand.toNat ≤ 1 := Bool.toNat_le _
  rw [heq]
  set w := 2 ^ 14 * m.mustUnderstand.toNat + pid with hw
  refine ⟨by omega, ?_, ?_⟩
  · have hbit : w.testBit 14 = m.mustUnderstand := by
      rw [Nat.testBit_eq_decide_div_mod_eq]
      have hdiv : w / 2 ^ 14 = m.mustUnderstand.toNat := by omega
      rw [hdiv]
      cases m.mustUnderstand <;> rfl
    have h := Nat.and_two_pow w 14
    norm_num at h
    rw [h, hbit]
    cases m.mustUnderstand <;> rfl
  · have h := Nat.and_two_pow_sub_one_eq_mod w 14
    norm_num at h
    omega

lemma MemberId.ofNat_self (m : MemberId) : MemberId.ofNat m.id m.mustUnderstand = m := by
  simp only [MemberId.ofNat, Nat.mod_eq_of_lt m.id_lt]

def SerializedMemberSizeForNextInt.unit : SerializedMemberSizeForNextInt → Nat
  | .serializedMemberSize8 => 8
  | .serializedMemberSize4 => 4
  | _ => 1

/-- The header of a member with this content states the size of the content. -/
def Piece.Counted (P : Profile) (p : Piece) : Prop :=
  if p.next.flag = .noSerializedMemberSize then 0 < p.cells.length
  else ∃ x rest, p.cells = (wordBytes P.swap 4 x).map some ++ rest ∧
    4 + x * p.next.flag.unit = p.cells.length

structure HeaderRead2 (P : Profile) (e : EncodingAlgorithmFlag) (m : MemberId) (a : Layout)
    (φ : Phase) (st st' : State) (s s' : Cdr) : Prop where
  offset : st'.offset = st.offset
  origin : st'.origin = st.origin
  memberSize : st'.memberSize = (a (advance P φ (padTo 4 φ.pos + 4))).cells.length
  facing : Facing P e (advance P φ (padTo 4 φ.pos + 4)) (a (advance P φ (padTo 4 φ.pos + 4))) s'
  consumed : s'.offset = s.offset + (padTo 4 φ.pos +
    if st'.headerSerialized = .shortHeader then 4 else 8)
  nextMemberId : s'.nextMemberId = s.nextMemberId
  origin_eq : s'.origin = s.origin
  tracks : ∀ s'', Tracks P (a (advance P φ (padTo 4 φ.pos + 4))) s' s'' →
    Tracks P (member2 P m a φ) s s''

lemma getShortLc_cases (n : Nat) : getShortLc n = 0xFFFFFFFF ∨
    ∃ k < 4, getShortLc n = k * 2 ^ 28 ∧ n = 2 ^ k := by
  unfold getShortLc
  split
  · exact .inr ⟨0, by decide, rfl, rfl⟩
  · exact .inr ⟨1, by decide, rfl, rfl⟩
  · exact .inr ⟨2, by decide, rfl, rfl⟩
  · exact .inr ⟨3, by decide, rfl, rfl⟩
  · exact .inl rfl

lemma getLongLc_cases {f : SerializedMemberSizeForNextInt}
    (hf : f ≠ .noSerializedMemberSize) : ∃ k < 8, 4 < k ∧ getLongLc f = k * 2 ^ 28 ∧
      (if k = 5 then 1 else if k = 6 then 4 else 8) = f.unit := by
  cases f
  case noSerializedMemberSize => exact absurd rfl hf
  case serializedMemberSize => exact ⟨5, by decide, by decide, rfl, rfl⟩
  case serializedMemberSize4 => exact ⟨6, by decide, by decide, rfl, rfl⟩
  case serializedMemberSize8 => exact ⟨7, by decide, by decide, rfl, rfl⟩

structure Moved (P : Profile) (s s' : Cdr) : Prop where
  ready : Ready P s'
  mem : s'.mem = s.mem
  size : s'.size = s.size
  encoding : s'.currentEncoding = s.currentEncoding
  nextMemberId : s'.nextMemberId = s.nextMemberId
  origin : s'.origin = s.origin

lemma Tracks.moved {p : Piece} (h : Tracks P p s s') (hv : P.version = .xcdrV2) : Moved P s s' :=
  { h with origin := h.origin_eq hv }

lemma Moved.trans {s' s'' : Cdr} (h : Moved P s s') (h' : Moved P s' s'') : Moved P s s'' :=
  ⟨h'.ready, h'.mem.trans h.mem, h'.size.trans h.size, h'.encoding.trans h.encoding,
    h'.nextMemberId.trans h.nextMemberId, h'.origin.trans h.origin⟩

lemma Moved.back (h : Moved P s s') (hs : Ready P s) : Moved P s (s'.moveTo s.offset) := by
  obtain ⟨hready, hmem, hsize, hencoding, hnext, horigin⟩ := h
  refine ⟨{ hready with origin_le := ?_, offset_le := ?_ }, hmem, hsize, hencoding, hnext, horigin⟩
  · rw [moveTo_origin, moveTo_offset, horigin]
    exact hs.origin_le
  · rw [moveTo_offset, moveTo_size, hsize]
    exact hs.offset_le

section Header2

variable {a : Layout} {ψ : Phase} {p : Piece} (hv : P.version = .xcdrV2)
  (hψ : ψ = advance P φ (padTo 4 φ.pos + 4)) (hp : p = a ψ)
include hv hψ hp

/-- Behind the header the decoder faces the content, whichever of the forms it had: they differ in
their length only, four bytes or eight. -/
theorem HeaderRead2.of_moved {st st' : State} (hs : Facing P e φ (member2 P m a φ) s)
    (hmoved : Moved P s s') (hlen : (header2 P m p.cells.length p.next.flag).length =
      if st'.headerSerialized = .shortHeader then 4 else 8)
    (hoffset : s'.offset = s.offset + (padTo 4 φ.pos +
      if st'.headerSerialized = .shortHeader then 4 else 8))
    (hst : st'.offset = st.offset ∧ st'.origin = st.origin)
    (hsize : st'.memberSize = p.cells.length) :
    HeaderRead2 P e m a φ st st' s s' := by
  obtain ⟨hready, hencoding, hpos, hmatch, hfits, hsmall⟩ := hs
  have hcells : (member2 P m a φ).cells = (replicate (padTo 4 φ.pos) none ++
      (header2 P m p.cells.length p.next.flag).map some) ++ p.cells := by rw [hp, hψ]; rfl
  have hplace : s'.offset + p.cells.length = s.offset + (member2 P m a φ).cells.length := by
    simp only [hcells, length_append, length_replicate, length_map]
    omega
  rw [hcells, Mem.matches_append] at hmatch
  simp only [length_append, length_replicate, length_map, hlen] at hmatch
  have hphase : (phase P s').pos = ψ.pos := by
    have hfour : P.align64 = 4 := by simp [Profile.align64, hv]
    have hle := hready.origin_le
    simp only [Cdr.phase, hfour] at hpos
    simp only [Cdr.phase, hψ, advance, hfour, hmoved.origin, hoffset]
    split <;> omega
  subst hp
  subst hψ
  refine ⟨hst.1, hst.2, hsize, ⟨hmoved.ready, hmoved.encoding.trans hencoding, hphase, ?_, ?_,
    by omega⟩, hoffset, hmoved.nextMemberId, hmoved.origin, fun s'' h => ?_⟩
  · rw [hmoved.mem, hoffset]
    exact hmatch.2
  · rw [hplace, hmoved.size]
    exact hfits
  · exact ⟨h.ready, by rw [h.offset, hplace], h.pos, h.mem.trans hmoved.mem, h.size.trans
      hmoved.size, h.encoding.trans hmoved.encoding, h.nextMemberId.trans hmoved.nextMemberId, fun
      hv => (h.origin_eq hv).trans hmoved.origin, fun hv' => absurd (hv.symm.trans hv') (by decide)⟩

/-- The first word is common to all forms of the header. What it says decides how the rest is read,
so it is read before the forms are told apart. -/
theorem deserializeU32_header2 (hid : m.id < 0x10000000) (hk : k < 8) {tail : List UInt8}
    (hs : Facing P e φ (member2 P m a φ) s) (hheader : header2 P m p.cells.length p.next.flag =
      wordBytes P.swap 4 (flagsAndMemberId m (k * 2 ^ 28)) ++ tail) :
    ∃ s1, deserializeU32.run s = (.ok (flagsAndMemberId m (k * 2 ^ 28)), s1) ∧ Moved P s s1 ∧
      s1.offset = s.offset + (padTo 4 φ.pos + 4) ∧
      Facing P e ψ ⟨tail.map some ++ p.cells, φ, [], 0⟩ s1 := by
  have hrest : (member2 P m a φ).cells =
      (u32 P (flagsAndMemberId m (k * 2 ^ 28)) φ).cells ++ (tail.map some ++ p.cells) := by
    have hcells : (member2 P m a φ).cells = replicate (padTo 4 φ.pos) none ++
        (header2 P m p.cells.length p.next.flag).map some ++ p.cells := by rw [hp, hψ]; rfl
    rw [hcells, hheader]
    simp [u32, word, aligned]
  obtain ⟨s1, hrun, ht⟩ := deserializeU32_reads (flagsAndMemberId m (k * 2 ^ 28)) s
    (hs.left (q := ⟨tail.map some ++ p.cells, φ, [], 0⟩) hrest)
  rw [Nat.mod_eq_of_lt (flagsAndMemberId_fields hid hk).1] at hrun
  have hs1 := hs.right (q := ⟨tail.map some ++ p.cells, φ, [], 0⟩) hrest ht
  have hoffset := ht.offset
  rw [u32_length] at hoffset
  rw [u32_next, ← hψ] at hs1
  exact ⟨s1, hrun, ht.moved hv, hoffset, hs1⟩

end Header2

lemma xcdr2DeserializeMemberHeader_run {a : Layout} (st : State) (hv : P.version = .xcdrV2)
    (hid : m.id < 0x10000000) (hs : Facing P e φ (member2 P m a φ) s)
    (hcounted : Piece.Counted P (a (advance P φ (padTo 4 φ.pos + 4)))) :
    ∃ st' s', (xcdr2DeserializeMemberHeader st).run s = (.ok (m, st'), s') ∧
      HeaderRead2 P e m a φ st st' s s' := by
  obtain ⟨ψ, hψ⟩ : ∃ ψ, ψ = advance P φ (padTo 4 φ.pos + 4) := ⟨_, rfl⟩
  obtain ⟨p, hp⟩ : ∃ p, p = a ψ := ⟨_, rfl⟩
  rw [← hψ, ← hp, Piece.Counted] at hcounted
  have hpadψ : padTo 4 ψ.pos = 0 := by
    have h := padTo_aligned_next P.isAlign_four (wordBytes P.swap 4 0) (by simp) φ
    simpa [aligned, ← hψ] using h
  have hword : ∀ x, (u32 P x ψ).cells = (wordBytes P.swap 4 x).map some := by
    simp [u32, word, aligned, hpadψ]
  by_cases hflag : p.next.flag = .noSerializedMemberSize
  · rcases getShortLc_cases p.cells.length with hinvalid | ⟨k, hk, hlc, hn⟩
    · -- the size has a word of its own
      have hheader : header2 P m p.cells.length p.next.flag =
          wordBytes P.swap 4 (flagsAndMemberId m (4 * 2 ^ 28)) ++
            wordBytes P.swap 4 p.cells.length := by
        simp [header2, hflag, hinvalid]
      obtain ⟨-, hmid, hmust, hlc⟩ := flagsAndMemberId_fields (m := m) (k := 4) hid (by decide)
      obtain ⟨s1, hrun1, hmoved1, hoffset1, hs1⟩ := deserializeU32_header2 hv hψ hp hid (by decide)
        hs hheader
      rw [← hword] at hs1
      obtain ⟨s2, hrun2, ht2⟩ := deserializeU32_reads p.cells.length s1 (hs1.left (q := p) rfl)
      have hsmall := hs1.small
      rw [length_append] at hsmall
      rw [Nat.mod_eq_of_lt (by omega)] at hrun2
      have hoffset2 := ht2.offset
      rw [u32_length, hpadψ] at hoffset2
      refine ⟨{ st with memberSize := p.cells.length, headerSerialized := .longHeader }, s2, ?_,
        .of_moved hv hψ hp hs (hmoved1.trans (ht2.moved hv)) ?_ ?_ ⟨rfl, rfl⟩ rfl⟩
      · simp only [xcdr2DeserializeMemberHeader]
        rw [bind_of_ok hrun1]
        simp only [hmid, hmust, hlc, MemberId.ofNat_self, Nat.lt_irrefl, if_false, if_true]
        rw [bind_of_ok hrun2]
        rfl
      · rw [hheader]
        simp
      · simp only [reduceCtorEq, if_false]
        omega
    · -- the size is a small power of two
      have hheader : header2 P m p.cells.length p.next.flag =
          wordBytes P.swap 4 (flagsAndMemberId m (k * 2 ^ 28)) ++ [] := by
        have hvalid : ¬getShortLc p.cells.length = 0xFFFFFFFF := by
          omega
        rw [header2, if_pos hflag, if_neg hvalid, hlc, append_nil]
      obtain ⟨-, hmid, hmust, hlc'⟩ := flagsAndMemberId_fields (m := m) (k := k) hid (by omega)
      obtain ⟨s1, hrun1, hmoved1, hoffset1, -⟩ := deserializeU32_header2 hv hψ hp hid (by omega) hs
        hheader
      refine ⟨{ st with memberSize := 2 ^ k, headerSerialized := .shortHeader }, s1, ?_,
        .of_moved hv hψ hp hs hmoved1 (by rw [hheader]; simp) hoffset1 ⟨rfl, rfl⟩ hn.symm⟩
      simp only [xcdr2DeserializeMemberHeader]
      rw [bind_of_ok hrun1]
      simp only [hmid, hmust, hlc', MemberId.ofNat_self, if_pos hk]
      rfl
  · -- the first word of the content tells the size
    rw [if_neg hflag] at hcounted
    obtain ⟨x, rest, hpcells, hcount⟩ := hcounted
    obtain ⟨k, hk8, hk4, hlc, hunit⟩ := getLongLc_cases hflag
    have hheader : header2 P m p.cells.length p.next.flag =
        wordBytes P.swap 4 (flagsAndMemberId m (k * 2 ^ 28)) ++ [] := by
      simp only [header2, if_neg hflag, hlc, append_nil]
    obtain ⟨-, hmid, hmust, hlc'⟩ := flagsAndMemberId_fields (m := m) (k := k) hid hk8
    obtain ⟨s1, hrun1, hmoved1, hoffset1, hs1⟩ := deserializeU32_header2 hv hψ hp hid hk8 hs hheader
    have hlen : p.cells.length < 2 ^ 32 := hs1.small
    have hx : x < 2 ^ 32 := by
      have hunit_pos : 1 ≤ p.next.flag.unit := by cases p.next.flag <;> decide
      have := Nat.le_mul_of_pos_right x hunit_pos
      omega
    obtain ⟨s2, hrun2, ht2⟩ := deserializeU32_reads x s1
      (hs1.left (q := ⟨rest, φ, [], 0⟩) (hpcells.trans (by rw [hword])))
    rw [Nat.mod_eq_of_lt hx] at hrun2
    have hback : s2.offset - 4 = s1.offset := by
      rw [ht2.offset, u32_length, hpadψ]
      omega
    refine ⟨{ st with
        memberSize := (4 + x * (if k = 5 then 1 else if k = 6 then 4 else 8)) % 2 ^ 32
        headerSerialized := .shortHeader }, s2.moveTo s1.offset, ?_,
      .of_moved hv hψ hp hs (hmoved1.trans ((ht2.moved hv).back hs1.ready))
        (by rw [hheader]; simp) hoffset1 ⟨rfl, rfl⟩ ?_⟩
    · simp only [xcdr2DeserializeMemberHeader]
      rw [bind_of_ok hrun1]
      simp only [hmid, hmust, hlc', MemberId.ofNat_self, if_neg (show ¬k < 4 by omega),
        if_neg (show ¬k = 4 by omega)]
      rw [bind_of_ok hrun2, run_modify_bind, hback]
      rfl
    · rw [hunit, hcount, Nat.mod_eq_of_lt hlen]

lemma Layout.seq_aligned_word (bs : List UInt8) {n : Nat} (x : Nat) (hk : P.IsAlign k)
    (hfour : k ∣ 4) (hbs : k ∣ bs.length) : seq (aligned P 4 bs) (word P n k x) φ =
      aligned P 4 (bs ++ wordBytes P.swap n x) φ := by
  have hpad : padTo k (aligned P 4 bs φ).next.pos = 0 := by
    simp only [aligned, advance]
    rw [padTo_mod hk.2, ← Nat.add_assoc]
    exact padTo_eq_zero (Nat.dvd_add (hfour.trans (padTo_pos_add (by omega) φ.pos)) hbs)
  rw [word, seq_congr_right (aligned_of_pad_zero hpad _), seq_aligned_raw]

lemma alignHeader_reads : ReadsAt P e alignHeader (aligned P 4 []) φ () := by
  intro s hs
  have hroom := Facing.room_aligned hs
  have ht := Tracks.load_aligned hs.ready 4 [] hs.pos hroom
  have hready := ht.ready
  refine ⟨(s.note (.headerAlign (s.alignment 4) s.room)).makeAlignment (padTo 4 φ.pos), ?_,
    { hready with }, ht.offset, ht.pos, rfl, rfl, rfl, rfl, fun _ => rfl, fun _ => ?_⟩
  · rw [alignHeader, run_modify, hs.ready.alignment_eq P.isAlign_four, hs.pos]
  · simp [notedPads, aligned]

lemma deserializeU16_reads (x : Nat) (hx : x < 2 ^ 16) :
    ReadsAt P e deserializeU16 (word P 2 2 x) φ x := by
  have h := deserializeWord_reads (P := P) (e := e) (φ := φ) (n := 2) P.isAlign_two x
  rwa [Nat.mod_eq_of_lt (by simpa using hx)] at h

/-- The half words that start every XCDRv1 header. -/
theorem halfWords_run {x y : Nat} (hx : x < 2 ^ 16) (hy : y < 2 ^ 16)
    (hs : Facing P e φ (aligned P 4 (wordBytes P.swap 2 x ++ wordBytes P.swap 2 y) φ) s) :
    ∃ s0 s1 s2, alignHeader.run s = (.ok (), s0) ∧ deserializeU16.run s0 = (.ok x, s1) ∧
      deserializeU16.run s1 = (.ok y, s2) ∧
      Tracks P (aligned P 4 (wordBytes P.swap 2 x ++ wordBytes P.swap 2 y) φ) s s2 := by
  have h1 := seq_aligned_word (P := P) (φ := φ) [] (n := 2) x P.isAlign_two (by decide) (by simp)
  have h2 := seq_aligned_word (P := P) (φ := φ) (wordBytes P.swap 2 x) (n := 2) y
    P.isAlign_two (by decide) (by simp)
  rw [nil_append] at h1
  rw [← h2] at hs ⊢
  have hs1 := hs.left (p := aligned P 4 (wordBytes P.swap 2 x) φ) rfl
  rw [← h1] at hs1
  obtain ⟨s0, hrun0, ht0⟩ := alignHeader_reads s (hs1.left rfl)
  obtain ⟨s1, hrun1, ht1⟩ := hs1.step ht0 (deserializeU16_reads x hx)
  rw [h1] at ht1
  obtain ⟨s2, hrun2, ht2⟩ := hs.step ht1 (deserializeU16_reads y hy)
  exact ⟨s0, s1, s2, hrun0, hrun1, hrun2, ht2⟩

structure HeaderRead1 (P : Profile) (n : Nat) (s s' : Cdr) : Prop where
  ready : Ready P s'
  offset : s'.offset = s.offset + n
  origin : s'.origin = s'.offset
  mem : s'.mem = s.mem
  size : s'.size = s.size
  encoding : s'.currentEncoding = s.currentEncoding
  nextMemberId : s'.nextMemberId = s.nextMemberId
  pads : P.version = .xcdrV1 → notedPads s' = notedPads s

lemma HeaderRead1.of_tracks {header : List UInt8} (h : Tracks P (aligned P 4 header φ) s s') :
    HeaderRead1 P (padTo 4 φ.pos + header.length) s s'.resetAlignment where
  __ := h
  ready := { h.ready with origin_le := le_rfl, last_le := Nat.zero_le _ }
  offset := by
    rw [resetAlignment_offset, h.offset]
    simp [aligned]
  origin := rfl
  pads := fun hv => by
    have hpads := h.pads hv
    simpa [aligned, notedPads] using hpads

lemma xcdr1DeserializeMemberHeader_run {m : MemberInfo} {n : Nat} {short : Bool}
    (memberId : MemberId) (st : State) (hshort : short = true → m.memberId.id ≤ 0x3F00 ∧ n ≤ 0xFFFF)
    (hn : n < 2 ^ 32) (hs : Facing P e φ (aligned P 4 (header1 P m short n) φ) s) :
    ∃ st' s', (xcdr1DeserializeMemberHeader memberId st).run s =
        (.ok (true, m.memberId, st'), s') ∧ st'.memberSize = n ∧
      HeaderRead1 P (padTo 4 φ.pos + (header1 P m short n).length) s s' := by
  cases short with
  | true =>
    obtain ⟨hid, hsize⟩ := hshort rfl
    obtain ⟨hlt, hmust, hpid⟩ := flagsAndPid_fields m.memberId m.memberId.id (by omega)
    obtain ⟨s0, s1, s2, hrun0, hrun1, hrun2, ht⟩ := halfWords_run hlt (by omega) hs
    refine ⟨{ st with memberSize := n, headerSerialized := .shortHeader }, s2.resetAlignment,
      ?_, rfl, .of_tracks ht⟩
    simp only [xcdr1DeserializeMemberHeader]
    rw [bind_of_ok hrun0, bind_of_ok hrun1]
    simp only [hmust, hpid]
    rw [if_pos (show m.memberId.id < pidExtended by unfold pidExtended; omega),
      bind_of_ok hrun2, MemberId.ofNat_self]
    rfl
  | false =>
    obtain ⟨hlt, hmust, hpid⟩ := flagsAndPid_fields m.memberId pidExtended (by decide)
    rw [header1_long] at hs ⊢
    have h4 := seq_aligned_word (P := P) (φ := φ)
      (wordBytes P.swap 2 (flagsAndPid m.memberId pidExtended) ++
        wordBytes P.swap 2 pidExtendedLength ++ wordBytes P.swap 4 m.memberId.id) (n := 4) n
      P.isAlign_four (by decide) (by simp)
    have h3 := seq_aligned_word (P := P) (φ := φ)
      (wordBytes P.swap 2 (flagsAndPid m.memberId pidExtended) ++
        wordBytes P.swap 2 pidExtendedLength) (n := 4) m.memberId.id
      P.isAlign_four (by decide) (by simp)
    have hs4 := hs
    rw [← h4] at hs4
    have hs3 := hs4.left (p := aligned P 4 _ φ) rfl
    rw [← h3] at hs3
    obtain ⟨s0, s1, s2, hrun0, hrun1, hrun2, ht2⟩ := halfWords_run hlt (by decide)
      (hs3.left (p := aligned P 4 _ φ) rfl)
    obtain ⟨s3, hrun3, ht3⟩ := hs3.step ht2 (deserializeU32_reads m.memberId.id)
    rw [h3] at ht3
    obtain ⟨s4, hrun4, ht4⟩ := hs4.step ht3 (deserializeU32_reads n)
    rw [h4] at ht4
    rw [Nat.mod_eq_of_lt m.memberId.id_lt] at hrun3
    rw [Nat.mod_eq_of_lt hn] at hrun4
    refine ⟨{ st with memberSize := n, headerSerialized := .longHeader }, s4.resetAlignment,
      ?_, rfl, .of_tracks ht4⟩
    simp only [xcdr1DeserializeMemberHeader]
    rw [bind_of_ok hrun0, bind_of_ok hrun1]
    simp only [hmust, hpid, Nat.lt_irrefl, if_false, if_true]
    rw [bind_of_ok hrun2, if_neg (by decide), bind_of_ok hrun3,
      bind_of_ok hrun4, MemberId.ofNat_self]
    rfl

lemma sentinel_reads (memberId : MemberId) (st : State) (hs : Facing P e φ (sentinel P φ) s) :
    ∃ m st' s', (xcdr1DeserializeMemberHeader memberId st).run s = (.ok (false, m, st'), s') ∧
      Tracks P (sentinel P φ) s s' := by
  obtain ⟨s0, s1, s2, hrun0, hrun1, hrun2, ht⟩ := halfWords_run (x := pidSentinel)
    (y := pidSentinelLength) (by decide) (by decide) hs
  refine ⟨{ memberId with mustUnderstand := false }, { st with memberSize := pidSentinelLength },
    s2, ?_, ht⟩
  simp only [xcdr1DeserializeMemberHeader]
  rw [bind_of_ok hrun0, bind_of_ok hrun1]
  rw [if_neg (by decide), if_neg (by decide), if_pos (by decide), bind_of_ok hrun2,
    if_neg (by decide)]
  rfl

end EasyDds.Cdr
