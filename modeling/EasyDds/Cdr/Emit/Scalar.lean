import EasyDds.Cdr.Emit.Basic

/-!
The overloads for arithmetic types and strings write their layouts.
-/

namespace EasyDds.Cdr

open Layout List

open Prog

variable {P : Profile} {e : EncodingAlgorithmFlag} {s : Cdr}

lemma phase_pos_add (h : s.origin ≤ s.offset) (k a : Nat) :
    (s.offset + k - s.origin) % a = ((s.offset - s.origin) % a + k) % a := by
  rw [Nat.mod_add_mod, show s.offset + k - s.origin = s.offset - s.origin + k by omega]

variable {align n : Nat} {m : CdrM Unit} {a : Layout}

lemma Wrote.store_aligned (hs : Ready P s) (bs : List UInt8)
    (hroom : s.offset + (aligned P n bs (Cdr.phase P s)).peak ≤ s.size) :
    Wrote P (aligned P n bs (Cdr.phase P s)) s
      ((s.makeAlignment (padTo n (Cdr.phase P s).pos)).store bs) where
  ready := by
    simp only [aligned] at hroom
    have := hs.origin_le
    exact ⟨hs.version, hs.swap, hs.align64, by simp; omega, by simp; omega, Nat.zero_le _⟩
  offset := by simp [aligned, Nat.add_assoc]
  phase := by
    simp only [Cdr.phase, store_offset, store_origin, makeAlignment_offset, makeAlignment_origin,
      store_serializedMemberSize, makeAlignment_serializedMemberSize, aligned, advance]
    rw [Nat.add_assoc, phase_pos_add hs.origin_le]
  cells := by
    simp only [aligned, Mem.matches_append, Mem.matches_padding, true_and, length_replicate]
    exact Mem.matches_write _ _ _
  below := fun i hi => Mem.write_of_lt _ _ (by simp; omega)
  size := rfl
  encoding := rfl
  origin_ge := le_rfl
  origin_eq := fun _ => rfl
  pads := by simp [notedPads, aligned]

lemma Wrote.store_raw (hs : Ready P s) (bs : List UInt8) (hroom : s.offset + bs.length ≤ s.size) :
    Wrote P (raw P bs (Cdr.phase P s)) s ({ s with lastDataSize := 1 }.store bs) where
  ready := by
    have := hs.origin_le
    exact ⟨hs.version, hs.swap, hs.align64, by simp; omega, by simp; omega, le_rfl⟩
  offset := by simp [raw]
  phase := by
    simp only [Cdr.phase, store_offset, store_origin, store_serializedMemberSize, raw, advance]
    rw [phase_pos_add hs.origin_le]
  cells := Mem.matches_write _ _ _
  below := fun i hi => Mem.write_of_lt _ _ hi
  size := rfl
  encoding := rfl
  origin_ge := le_rfl
  origin_eq := fun _ => rfl
  pads := by simp [notedPads, raw]

lemma reserve_eq (hroom : s.offset + n ≤ s.size) : (reserve n).run s = (.ok true, s) := by
  have hlt := s.size_lt
  have hfits : n ≤ s.room := by
    rw [Cdr.room, iteratorDiff_eq (by omega) (by omega)]
    omega
  simp only [reserve, if_pos hfits]

lemma serializeWord_run (hs : Ready P s) {x : Nat} (halign : P.IsAlign align)
    (hroom : s.offset + (word P n align x (phase P s)).peak ≤ s.size) :
    (serializeWord n align x).run s =
      (.ok (), (s.makeAlignment (padTo align (phase P s).pos)).store (wordBytes P.swap n x)) := by
  simp only [word, aligned, length_wordBytes] at hroom
  have hres : (reserve (n + padTo align (phase P s).pos)).run s = (.ok true, s) :=
    reserve_eq (by omega)
  simp only [serializeWord, run_read_bind, hs.alignment_eq halign]
  rw [bind_of_ok hres]
  simp [hs.swap]

lemma serializeWord_emits {x : Nat} (halign : P.IsAlign align) :
    Emits P e (serializeWord n align x) (word P n align x) :=
  fun _ hs _ hroom => ⟨_, serializeWord_run hs halign hroom, Wrote.store_aligned hs _ hroom⟩

lemma serializeU32_emits (x : Nat) : Emits P e (serializeU32 x) (u32 P x) :=
  serializeWord_emits P.isAlign_four

lemma serializeOctetArray_emits (bs : List UInt8) :
    Emits P e (serializeOctetArray bs) (raw P bs) := by
  intro s hs _ hroom
  have hres : (reserve bs.length).run s = (.ok true, s) := reserve_eq hroom
  refine ⟨_, ?_, Wrote.store_raw hs bs hroom⟩
  rw [serializeOctetArray, bind_of_ok hres]
  rfl

lemma serializeOctet_emits (b : UInt8) : Emits P e (serializeOctet b) (raw P [b]) :=
  serializeOctetArray_emits [b]

/-- A step that only writes to the log or to fields the layout does not depend on. -/
theorem Wrote.of_same {p : Piece} {s t s' : Cdr} (h : Wrote P p t s')
    (hoffset : t.offset = s.offset) (hmem : t.mem = s.mem) (hsize : t.size = s.size)
    (hencoding : t.currentEncoding = s.currentEncoding) (horigin : t.origin = s.origin)
    (r : Piece) (hcells : r.cells = p.cells) (hnext : r.next = p.next)
    (hpads : notedPads s' = r.pads.reverse ++ notedPads s) : Wrote P r s s' where
  ready := h.ready
  offset := by rw [h.offset, hoffset, hcells]
  phase := by rw [h.phase, hnext]
  cells := by rw [hcells, ← hoffset]; exact h.cells
  below := fun i hi => by rw [h.below i (by omega), hmem]
  size := by rw [h.size, hsize]
  encoding := by rw [h.encoding, hencoding]
  origin_ge := by rw [← horigin]; exact h.origin_ge
  origin_eq := fun hv => by rw [h.origin_eq hv, horigin]
  pads := hpads

lemma Ready.note {ev : Event} (hs : Ready P s) : Ready P (s.note ev) :=
  { hs with }

lemma Emits.noted (hn : P.IsAlign n) (h : Emits P e m a) :
    Emits P e (notePad n >>= fun _ => m) (Layout.noted n a) := by
  intro s hs he hroom
  obtain ⟨s', hrun, hw⟩ := h (s.note (.pad (s.alignment n))) hs.note he hroom
  refine ⟨s', ?_, hw.of_same (s := s) rfl rfl rfl rfl rfl (Layout.noted n a (phase P s)) rfl rfl ?_⟩
  · rw [notePad, run_modify_bind, hrun]
  · rw [hw.pads]
    simp [notedPads, Layout.noted, hs.alignment_eq hn, Cdr.phase]

lemma notePrimPad_emits {p : Prim} (hp : p.wireSize ≠ 1) (h : Emits P e m a) :
    Emits P e (notePrimPad p >>= fun _ => m) (noted (p.alignOf P.align64) a) := by
  refine ((h.noted (p.isAlign_alignOf P hp))).congr fun s hs _ => ?_
  simp only [notePrimPad, if_pos hp, run_bind_bind, run_read_bind, hs.align64]

lemma serializePrim_emits (p : Prim) (x : p.denote) :
    Emits P e (do notePrimPad p; serializePrim p x) (prim P p x) := by
  by_cases hp : p.wireSize = 1
  · refine Emits.congr ?_ (n := _) (m := serializeOctet (UInt8.ofNat (p.toWire x))) ?_
    · simpa only [prim, if_pos hp] using serializeOctet_emits _
    · intro s _ _
      simp [notePrimPad, hp, serializePrim]
  · simp only [prim, if_neg hp]
    refine notePrimPad_emits hp ((serializeWord_emits (p.isAlign_alignOf P hp)).congr ?_)
    intro s hs _
    simp [serializePrim, hp, hs.align64]

/-- What follows an encoder in one block, with its own check for room. -/
theorem Emits.then_store (hm : Emits P e m a) (bs : List UInt8) (n : Nat) (hn : n = bs.length)
    (fail : CdrM Unit) : Emits P e (m >>= fun _ => reserve n >>= fun fits =>
        if fits then modify fun s => { s with lastDataSize := 1 }.store bs else fail)
      (Layout.seq a (Layout.raw P bs)) := by
  subst hn
  refine hm.seq fun s hs _ hroom => ⟨_, ?_, Wrote.store_raw hs bs hroom⟩
  have hres : (reserve bs.length).run s = (.ok true, s) := reserve_eq hroom
  rw [bind_of_ok hres]
  rfl

lemma serializeLength_emits (n : Nat) : Emits P e (serializeLength n) (length P n) :=
  (serializeU32_emits _).noted P.isAlign_four

lemma cString_take_length (v : List UInt8) :
    ((cString v ++ [0]).take (((cString v).length % 2 ^ 32 + 1) % 2 ^ 32)).length =
      ((cString v).length % 2 ^ 32 + 1) % 2 ^ 32 := by
  rw [length_take, length_append, length_singleton]
  omega

lemma serializeString_emits (v : List UInt8) :
    Emits P e (do notePad 4; serializeString v) (string P v) := by
  set length := ((cString v).length % 2 ^ 32 + 1) % 2 ^ 32 with hlength
  have hword : Emits P e (do notePad 4; serializeU32 length)
      (noted 4 (u32 P length)) := (serializeU32_emits _).noted P.isAlign_four
  by_cases hpos : length > 0
  · have hbody := (hword.then_store ((cString v ++ [0]).take length) length
      (cString_take_length v).symm · |>.thenFlag .serializedMemberSize)
    intro s hs he hroom
    obtain ⟨s', hrun, hw⟩ := hbody
      (do modify (setState (s.note (.pad (s.alignment 4))).getState); raise .notEnoughMemory)
      s hs he hroom
    refine ⟨s', ?_, hw⟩
    rw [← hrun]
    simp only [serializeString, notePad, ← hlength, if_pos hpos, bind_assoc, ite_bind,
      run_modify_bind, run_read_bind]
  · have hzero : length = 0 := by omega
    have hbody := hword.thenFlag .serializedMemberSize
    intro s hs he hroom
    have hsame : string P v (phase P s) = thenFlag .serializedMemberSize
          (noted 4 (u32 P length)) (phase P s) := by
      have hnil := seq_raw_nil (P := P) (a := noted 4 (u32 P length)) (φ := phase P s)
        (Nat.mod_lt _ (align64_pos P)) (by simp [noted, u32, word, aligned])
      simp only [string, thenFlag, ← hlength, hzero, take_zero]
      rw [← hzero, hnil]
    rw [hsame] at hroom ⊢
    obtain ⟨s', hrun, hw⟩ := hbody s hs he hroom
    refine ⟨s', ?_, hw⟩
    rw [← hrun]
    simp only [serializeString, notePad, ← hlength, if_neg hpos, run_bind_bind, run_modify_bind]

lemma serializeWordArray_emits (halign : P.IsAlign align) (xs : List Nat) (hne : xs.length ≠ 0) :
    Emits P e (serializeWordArray n align xs)
      (aligned P align (xs.flatMap (wordBytes P.swap n))) := by
  intro s hs _ hroom
  have hlen := length_flatMap_wordBytes P.swap n xs
  have hres : (reserve (n * xs.length + padTo align (phase P s).pos)).run s = (.ok true, s) := by
    simp only [aligned, hlen] at hroom
    exact reserve_eq (by omega)
  refine ⟨_, ?_, Wrote.store_aligned hs _ hroom⟩
  simp only [serializeWordArray, if_neg hne, run_read_bind, hs.alignment_eq halign]
  rw [bind_of_ok hres]
  simp [hs.swap]

lemma serializeWcharArray_emits (xs : List (Prim.denote .wchar)) (hne : xs ≠ []) :
    Emits P e (each (serializePrim .wchar) xs)
      (aligned P 2 ((xs.map (Prim.toWire .wchar)).flatMap (wordBytes P.swap 2))) := by
  obtain ⟨x, ys, rfl⟩ := exists_cons_of_ne_nil hne
  have hone : ∀ y : Prim.denote .wchar, Emits P e (serializePrim .wchar y)
      (word P 2 2 (Prim.toWire .wchar y)) := fun y =>
    (serializeWord_emits P.isAlign_two).congr fun s _ _ => rfl
  have hsame : all (fun y => word P 2 2 (Prim.toWire .wchar y)) (x :: ys) = aligned P 2
        (((x :: ys).map (Prim.toWire .wchar)).flatMap (wordBytes P.swap 2)) := by
    funext φ
    rw [← Layout.all_map, map_cons, all_word P.isAlign_two (dvd_refl 2)]
  rw [← hsame]
  exact Emits.each (x :: ys) fun y _ => hone y

lemma serializePrimArray_emits (p : Prim) (xs : List p.denote) : Emits P e (do
        if xs.length ≠ 0 then notePrimPad p
        serializePrimArray p xs)
      (primArray P p xs) := by
  by_cases hp : p.wireSize = 1
  · simp only [primArray, if_pos hp]
    refine (serializeOctetArray_emits _).congr fun s _ _ => ?_
    by_cases hx : xs.length = 0 <;> simp [hx, notePrimPad, hp, serializePrimArray]
  · by_cases hx : xs.length = 0
    · simp only [primArray, if_neg hp, if_pos hx]
      refine Emits.empty.congr fun s _ _ => ?_
      obtain rfl : xs = [] := length_eq_zero_iff.mp hx
      by_cases hw : p = .wchar
      · subst hw
        rfl
      · simp only [serializePrimArray, if_neg hp, if_neg hw, serializeWordArray]
        rfl
    · rw [if_pos hx]
      simp only [primArray, if_neg hp, if_neg hx]
      refine notePrimPad_emits hp ?_
      by_cases hw : p = .wchar
      · subst hw
        exact serializeWcharArray_emits xs (fun h => hx (by rw [h]; rfl))
      · refine (serializeWordArray_emits (p.isAlign_alignOf P hp) _
          (by simpa using hx)).congr fun s hs _ => ?_
        simp only [serializePrimArray, if_neg hp, if_neg hw, run_read_bind, hs.align64]

lemma Layout.padTo_noted_u32_next (x : Nat) (φ : Phase) :
    padTo 2 (noted 4 (u32 P x) φ).next.pos = 0 := by
  have hfour : padTo 4 (u32 P x φ).next.pos = 0 :=
    padTo_aligned_next P.isAlign_four _ (by simp) φ
  change padTo 2 (u32 P x φ).next.pos = 0
  simp only [padTo] at hfour ⊢
  omega

lemma serializeWstring_emits (v : List (BitVec 32)) :
    Emits P e (do notePad 4; serializeWstring v) (wstring P v) := by
  have hword : ∀ x, Emits P e (do notePad 4; serializeU32 x)
      (noted 4 (u32 P x)) := fun x => (serializeU32_emits _).noted P.isAlign_four
  by_cases hzero : (wcString v).length * 2 % 2 ^ 32 = 0
  · simp only [wstring, if_pos hzero]
    refine (hword 0).congr fun s _ _ => ?_
    simp only [serializeWstring, hzero, notePad, run_modify_bind, gt_iff_lt, Nat.lt_irrefl,
      if_false]
  · have hne : wcString v ≠ [] := by
      intro h
      simp [h] at hzero
    intro s hs he hroom
    simp only [wstring, if_neg hzero, seq] at hroom ⊢
    obtain ⟨s1, hrun1, hw1⟩ := hword ((wcString v).length % 2 ^ 32) s hs he (by omega)
    have hpad : padTo 2 (phase P s1).pos = 0 := by
      rw [hw1.phase]
      exact padTo_noted_u32_next _ _
    have hchars := serializeWcharArray_emits (P := P) (e := e) (wcString v) hne s1 hw1.ready
      (by rw [hw1.encoding, he])
    rw [aligned_of_pad_zero hpad, hw1.phase, hw1.offset, hw1.size] at hchars
    obtain ⟨s2, hrun2, hw2⟩ := hchars (by omega)
    have hres : (reserve ((wcString v).length * 2 % 2 ^ 32)).run s1 = (.ok true, s1) := by
      refine reserve_eq ?_
      have hlen : (raw P (((wcString v).map (Prim.toWire .wchar)).flatMap
          (wordBytes P.swap 2)) (noted 4 (u32 P ((wcString v).length % 2 ^ 32))
            (phase P s)).next).peak = (wcString v).length * 2 := by
        rw [raw, length_flatMap_wordBytes, length_map, Nat.mul_comm]
      have hmod := Nat.mod_le ((wcString v).length * 2) (2 ^ 32)
      rw [hw1.offset, hw1.size]
      omega
    refine ⟨s2, ?_, hw1.trans hw2 _ rfl rfl rfl⟩
    have hrun1' : (serializeU32 ((wcString v).length % 2 ^ 32)).run
        (s.note (.pad (s.alignment 4))) = (.ok (), s1) := hrun1
    simp only [serializeWstring, notePad, run_modify_bind]
    rw [if_pos (by omega), run_read_bind, bind_of_ok hrun1', bind_of_ok hres]
    exact hrun2

end EasyDds.Cdr
