import EasyDds.Cdr.Decode.Basic

/-!
Decoding of primitives, arrays of primitives and strings. The decoded value is the normal
form of the encoded one: what is left of it after the conversions of the encoder.
-/

namespace EasyDds.Cdr

open Layout List

open Prog

variable {P : Profile} {e : EncodingAlgorithmFlag} {φ : Phase} {s : Cdr} {α : Type}

/-- A value after encoding and decoding; only a `wchar_t` may lose bits. -/
def Prim.normal (p : Prim) (x : p.denote) : p.denote := p.ofWire (p.toWire x)

variable {n : Nat} {bs : List UInt8} {p : Prim}

lemma available_run (hroom : s.offset + n ≤ s.size) : (available n).run s = (.ok true, s) := by
  have hlt := s.size_lt
  have hfits : n ≤ s.room := by
    rw [Cdr.room, iteratorDiff_eq (by omega) (by omega)]
    omega
  simp only [available, run_read_bind, run_pure, hfits, decide_true]

lemma Tracks.load_aligned (hs : Ready P s) (n : Nat) (bs : List UInt8)
    (hpos : (Cdr.phase P s).pos = φ.pos) (hroom : s.offset + (padTo n φ.pos + bs.length) ≤ s.size) :
    Tracks P (aligned P n bs φ) s
      ((s.makeAlignment (padTo n φ.pos)).skipRead bs.length) where
  ready := by
    have := hs.origin_le
    exact ⟨hs.version, hs.swap, hs.align64, by simp; omega, by simp; omega, Nat.zero_le _⟩
  offset := by simp [aligned, Nat.add_assoc]
  pos := by
    simp only [aligned, advance, ← hpos, Cdr.phase, skipRead_offset,
      skipRead_origin, makeAlignment_offset, makeAlignment_origin]
    rw [Nat.add_assoc, phase_pos_add hs.origin_le]
  mem := rfl
  size := rfl
  encoding := rfl
  nextMemberId := rfl
  origin_eq := fun _ => rfl
  pads := fun _ => by simp [notedPads, aligned]

lemma Tracks.load_raw (hs : Ready P s) (hpos : (Cdr.phase P s).pos = φ.pos)
    (hroom : s.offset + bs.length ≤ s.size) :
    Tracks P (raw P bs φ) s ({ s with lastDataSize := 1 }.skipRead bs.length) where
  ready := by
    have := hs.origin_le
    exact ⟨hs.version, hs.swap, hs.align64, by simp; omega, by simp; omega, le_rfl⟩
  offset := by simp [raw]
  pos := by
    simp only [raw, advance, ← hpos, Cdr.phase, skipRead_offset, skipRead_origin]
    rw [phase_pos_add hs.origin_le]
  mem := rfl
  size := rfl
  encoding := rfl
  nextMemberId := rfl
  origin_eq := fun _ => rfl
  pads := fun _ => by simp [notedPads, raw]

/-- The bytes of an aligned block are those in memory behind the padding. -/
theorem Facing.slice_aligned (h : Facing P e φ (aligned P n bs φ) s) :
    s.mem.slice (s.offset + padTo n φ.pos) bs.length = bs := by
  have hcells := h.cells
  simp only [aligned] at hcells
  rw [Mem.matches_append, length_replicate] at hcells
  exact Mem.slice_of_matches hcells.2

lemma Facing.room_aligned (h : Facing P e φ (aligned P n bs φ) s) :
    s.offset + (padTo n φ.pos + bs.length) ≤ s.size := by
  have hfits := h.fits
  simpa [aligned] using hfits

lemma ofWordBytes_wordBytes_mod (swap : Bool) (n x : Nat) :
    ofWordBytes swap (wordBytes swap n x) = x % 256 ^ n := by
  cases swap <;> simp [ofWordBytes, wordBytes, ofLittleEndian_littleEndian]

lemma deserializeWord_reads {align : Nat} (halign : P.IsAlign align) (x : Nat) :
    ReadsAt P e (deserializeWord n align) (word P n align x) φ (x % 256 ^ n) := by
  intro s hs
  have hroom := Facing.room_aligned hs
  have hslice := Facing.slice_aligned hs
  rw [length_wordBytes] at hroom hslice
  have hav : (available (n + padTo align φ.pos)).run s = (.ok true, s) :=
    available_run (by omega)
  refine ⟨(s.makeAlignment (padTo align φ.pos)).skipRead n, ?_, ?_⟩
  · simp only [deserializeWord, run_read_bind, hs.ready.alignment_eq halign, hs.pos]
    rw [bind_of_ok hav]
    simp only [if_true, run_modify_bind, load, run_bind_bind, run_read_bind,
      run_pure_bind, makeAlignment_mem, makeAlignment_offset, hslice, skipRead_swapBytes,
      makeAlignment_swapBytes, hs.ready.swap, run_pure, ofWordBytes_wordBytes_mod]
  · have ht := Tracks.load_aligned hs.ready align (wordBytes P.swap n x) hs.pos
      (by rw [length_wordBytes]; exact hroom)
    rwa [length_wordBytes] at ht

lemma deserializeU32_reads (x : Nat) : ReadsAt P e deserializeU32 (u32 P x) φ (x % 2 ^ 32) :=
  deserializeWord_reads P.isAlign_four x

lemma deserializeOctetArray_reads (bs : List UInt8) (n : Nat) (hn : n = bs.length) :
    ReadsAt P e (deserializeOctetArray n) (raw P bs) φ bs := by
  subst hn
  intro s hs
  have hroom : s.offset + bs.length ≤ s.size := by simpa [raw] using hs.fits
  refine ⟨_, ?_, .load_raw hs.ready hs.pos hroom⟩
  rw [deserializeOctetArray, bind_of_ok (available_run hroom)]
  simp only [if_true, run_modify_bind, load, run_read_bind, run_pure, Mem.slice_of_matches hs.cells]

lemma deserializeOctet_reads (b : UInt8) : ReadsAt P e deserializeOctet (raw P [b]) φ b := by
  refine ((deserializeOctetArray_reads [b] 1 rfl).map (·.headD 0)).congr fun s _ _ => ?_
  simp only [deserializeOctet, deserializeOctetArray, bind_assoc, ite_bind]
  rfl

lemma Facing.note {p q : Piece} {ev : Event} (h : Facing P e φ p s)
    (hcells : q.cells = p.cells) : Facing P e φ q (s.note ev) :=
  ⟨h.ready.note, h.encoding, h.pos, hcells ▸ h.cells, hcells ▸ h.fits, hcells ▸ h.small⟩

lemma ReadsAt.noted {d : CdrM α} {L : Layout} {a : α} (hn : P.IsAlign n) (h : ReadsAt P e d L φ a) :
    ReadsAt P e (notePad n >>= fun _ => d) (Layout.noted n L) φ a := by
  intro s hs
  obtain ⟨s', hrun, ht⟩ := h (s.note (.pad (s.alignment n))) (hs.note rfl)
  refine ⟨s', by rw [notePad, run_modify_bind, hrun], { ht with pads := ?_ }⟩
  intro hv
  rw [ht.pads hv]
  simp [notedPads, Layout.noted, hs.ready.alignment_eq hn, hs.pos]

lemma notePrimPad_reads {d : CdrM α} {L : Layout} {a : α} (hp : p.wireSize ≠ 1)
    (h : ReadsAt P e d L φ a) :
    ReadsAt P e (notePrimPad p >>= fun _ => d) (noted (p.alignOf P.align64) L) φ a := by
  refine (h.noted (p.isAlign_alignOf P hp)).congr fun s hs _ => ?_
  simp only [notePrimPad, if_pos hp, run_bind_bind, run_read_bind, hs.align64]

lemma Prim.toWire_lt (p : Prim) (x : p.denote) : p.toWire x < 256 ^ p.wireSize := by
  cases p
  case bool => cases x <;> decide
  case wchar => exact Nat.mod_lt _ (by decide)
  all_goals exact BitVec.isLt x

lemma Prim.normal_of_ne (hp : p ≠ .wchar) (x : p.denote) : p.normal x = x := by
  cases p
  case bool => cases x <;> rfl
  case wchar => exact absurd rfl hp
  all_goals exact BitVec.ofNat_toNat ..

lemma Prim.toWire_octet (hp : p.wireSize = 1) (x : p.denote) :
    (UInt8.ofNat (p.toWire x)).toNat = p.toWire x := by
  have hlt := p.toWire_lt x
  rw [hp] at hlt
  exact Nat.mod_eq_of_lt hlt

lemma deserializeBool_reads (b : Bool) :
    ReadsAt P e deserializeBool (raw P [UInt8.ofNat (Prim.toWire .bool b)]) φ b := by
  intro s hs
  obtain ⟨s', hrun, ht⟩ := deserializeOctet_reads _ s hs
  refine ⟨s', ?_, ht⟩
  rw [deserializeBool, bind_of_ok hrun]
  cases b <;> rfl

lemma deserializePrim_eq (hp : p ≠ .bool) : deserializePrim p = (do
    if p.wireSize = 1 then return p.ofWire (← deserializeOctet).toNat
    else return p.ofWire (← deserializeWord p.wireSize (p.alignOf (← read).align64))) := by
  cases p <;> first | rfl | exact absurd rfl hp

lemma deserializeWordPrim_reads (hp : p.wireSize ≠ 1) (x : p.denote) :
    ReadsAt P e (deserializePrim p)
      (word P p.wireSize (p.alignOf P.align64) (p.toWire x)) φ (p.normal x) := by
  have hbool : p ≠ .bool := by
    rintro rfl
    exact hp rfl
  have hword := (deserializeWord_reads (e := e) (φ := φ) (n := p.wireSize)
    (p.isAlign_alignOf P hp) (p.toWire x)).map p.ofWire
  rw [Nat.mod_eq_of_lt (p.toWire_lt x)] at hword
  refine hword.congr fun s hs _ => ?_
  simp only [deserializePrim_eq hbool, if_neg hp, run_read_bind, hs.align64]

lemma deserializePrim_reads (p : Prim) (x : p.denote) :
    ReadsAt P e (do notePrimPad p; deserializePrim p) (prim P p x) φ (p.normal x) := by
  by_cases hp : p.wireSize = 1
  · simp only [prim, if_pos hp]
    by_cases hbool : p = .bool
    · subst hbool
      rw [Prim.normal_of_ne (by decide)]
      exact (deserializeBool_reads x).congr fun s _ _ => rfl
    · have hread := (deserializeOctet_reads (P := P) (e := e) (φ := φ)
        (UInt8.ofNat (p.toWire x))).map fun b => p.ofWire b.toNat
      rw [Prim.toWire_octet hp] at hread
      refine hread.congr fun s _ _ => ?_
      simp [notePrimPad, hp, deserializePrim_eq hbool]
  · simp only [prim, if_neg hp]
    exact notePrimPad_reads hp (deserializeWordPrim_reads hp x)

lemma wordsOf_flatMap (swap : Bool) (ws : List Nat) (hn : ∀ w ∈ ws, w < 256 ^ n) :
    wordsOf swap n ws.length (ws.flatMap (wordBytes swap n)) = ws := by
  induction ws with
  | nil => rfl
  | cons w ws ih =>
    have hlen : n = (wordBytes swap n w).length := by simp
    have htake : (wordBytes swap n w ++ ws.flatMap (wordBytes swap n)).take n =
        wordBytes swap n w := by
      conv_lhs => rw [hlen]
      simp
    have hdrop : (wordBytes swap n w ++ ws.flatMap (wordBytes swap n)).drop n =
        ws.flatMap (wordBytes swap n) := by
      conv_lhs => rw [hlen]
      simp
    rw [flatMap_cons, length_cons, wordsOf, htake, hdrop, ofWordBytes_wordBytes_mod,
      Nat.mod_eq_of_lt (hn w (mem_cons_self ..)), ih fun v hv => hn v (mem_cons_of_mem _ hv)]

lemma deserializeWordArray_reads {align : Nat} (halign : P.IsAlign align) (ws : List Nat)
    (hn : ∀ w ∈ ws, w < 256 ^ n) (hne : ws.length ≠ 0) :
    ReadsAt P e (deserializeWordArray n align ws.length)
      (aligned P align (ws.flatMap (wordBytes P.swap n))) φ ws := by
  intro s hs
  have hlen := length_flatMap_wordBytes P.swap n ws
  have hroom := Facing.room_aligned hs
  have hslice := Facing.slice_aligned hs
  rw [hlen] at hroom hslice
  have hav : (available (n * ws.length + padTo align φ.pos)).run s = (.ok true, s) :=
    available_run (by omega)
  refine ⟨(s.makeAlignment (padTo align φ.pos)).skipRead (n * ws.length), ?_, ?_⟩
  · simp only [deserializeWordArray, if_neg hne, run_read_bind,
      hs.ready.alignment_eq halign, hs.pos]
    rw [bind_of_ok hav]
    simp only [if_true, run_modify_bind, load, run_bind_bind, run_read_bind,
      run_pure_bind, makeAlignment_mem, makeAlignment_offset, hslice, skipRead_swapBytes,
      makeAlignment_swapBytes, hs.ready.swap, run_pure, wordsOf_flatMap _ ws hn]
  · have ht := Tracks.load_aligned hs.ready align (ws.flatMap (wordBytes P.swap n)) hs.pos
      (by rw [hlen]; exact hroom)
    rwa [hlen] at ht

/-- The characters of a wide array are read one by one. -/
theorem deserializeWcharArray_reads {β : Type} (xs : List β) (vs : List (Prim.denote .wchar))
    (hlen : xs.length = vs.length) (hne : vs ≠ []) :
    ReadsAt P e (collect (fun _ => deserializePrim .wchar) xs)
      (aligned P 2 ((vs.map (Prim.toWire .wchar)).flatMap (wordBytes P.swap 2))) φ
      (vs.map (Prim.normal .wchar)) := by
  have heach := ReadsAt.collect (P := P) (e := e) (f := fun _ : β => deserializePrim .wchar)
    (I := fun v => word P 2 2 (Prim.toWire .wchar v)) (g := Prim.normal .wchar)
    xs vs φ hlen fun x _ v _ ψ => deserializeWordPrim_reads (p := .wchar) (by decide) v
  obtain ⟨w, ws, rfl⟩ := exists_cons_of_ne_nil hne
  have hall := all_word (P := P) P.isAlign_two (dvd_refl 2) (Prim.toWire .wchar w)
    (ws.map (Prim.toWire .wchar)) φ
  rw [← map_cons (f := Prim.toWire .wchar), Layout.all_map] at hall
  exact heach.same rfl (congrArg Piece.cells hall.symm) (congrArg (·.next.pos) hall.symm)
    fun _ => congrArg Piece.pads hall.symm

lemma deserializePrimArray_eq (hbool : p ≠ .bool) (hwchar : p ≠ .wchar) (xs : List p.denote) :
    deserializePrimArray p xs = (do
      if p.wireSize = 1 then
        return (← deserializeOctetArray xs.length).map fun b => p.ofWire b.toNat
      else
        let ws ← deserializeWordArray p.wireSize (p.alignOf (← read).align64) xs.length
        return ws.map p.ofWire) := by
  cases p <;> first | rfl | exact absurd rfl hbool | exact absurd rfl hwchar

lemma deserializeOctets_reads (hp : p.wireSize = 1) (xs vs : List p.denote)
    (hlen : xs.length = vs.length) : ReadsAt P e (deserializePrimArray p xs)
      (raw P (vs.map fun x => UInt8.ofNat (p.toWire x))) φ (vs.map p.normal) := by
  have hread := deserializeOctetArray_reads (P := P) (e := e) (φ := φ)
    (vs.map fun x => UInt8.ofNat (p.toWire x)) xs.length (by simpa using hlen)
  by_cases hbool : p = .bool
  · subst hbool
    have hzip : ∀ xs vs : List Bool, xs.length = vs.length →
        zipWith (fun (b : UInt8) x => if b = 1 then true else if b = 0 then false else x)
          (vs.map fun x => UInt8.ofNat (Prim.toWire .bool x)) xs = vs := by
      intro xs
      induction xs with
      | nil =>
        intro vs h
        obtain rfl : vs = [] := length_eq_zero_iff.mp h.symm
        rfl
      | cons x xs ih =>
        rintro (_ | ⟨v, vs⟩) h
        · simp at h
        · rw [map_cons, zipWith_cons_cons, ih vs (Nat.succ.inj h)]
          cases v <;> rfl
    have hbools := hread.map fun bs =>
      zipWith (fun (b : UInt8) x => if b = 1 then true else if b = 0 then false else x) bs xs
    rw [hzip xs vs hlen] at hbools
    have hnormal : vs.map (Prim.normal .bool) = vs :=
      (map_congr_left fun v _ => Prim.normal_of_ne (by decide) v).trans (map_id vs)
    rw [hnormal]
    exact hbools
  · have hwchar : p ≠ .wchar := by
      rintro rfl
      exact absurd hp (by decide)
    have hbytes := hread.map fun bs => bs.map fun b => p.ofWire b.toNat
    have hnormal : ((vs.map fun x => UInt8.ofNat (p.toWire x)).map fun b => p.ofWire b.toNat) =
        vs.map p.normal := by
      rw [map_map]
      exact map_congr_left fun v _ => congrArg p.ofWire (Prim.toWire_octet hp v)
    rw [hnormal] at hbytes
    refine hbytes.congr fun s _ _ => ?_
    simp only [deserializePrimArray_eq hbool hwchar, if_pos hp]

lemma deserializePrimArray_reads (p : Prim) (xs vs : List p.denote) (hlen : xs.length = vs.length) :
    ReadsAt P e (do
        if xs.length ≠ 0 then notePrimPad p
        deserializePrimArray p xs)
      (primArray P p vs) φ (vs.map p.normal) := by
  by_cases hp : p.wireSize = 1
  · simp only [primArray, if_pos hp]
    refine (deserializeOctets_reads hp xs vs hlen).congr fun s _ _ => ?_
    by_cases hx : xs.length = 0 <;> simp [hx, notePrimPad, hp]
  · by_cases hx : xs.length = 0
    · obtain rfl : xs = [] := length_eq_zero_iff.mp hx
      obtain rfl : vs = [] := length_eq_zero_iff.mp hlen.symm
      simp only [primArray, if_neg hp]
      refine (ReadsAt.pure []).congr fun s _ _ => ?_
      cases p <;> first | rfl | exact absurd rfl hp
    · have hv : vs.length ≠ 0 := hlen ▸ hx
      rw [if_pos hx]
      simp only [primArray, if_neg hp, if_neg hv]
      refine notePrimPad_reads hp ?_
      by_cases hw : p = .wchar
      · subst hw
        exact deserializeWcharArray_reads xs vs hlen (fun h => hv (by rw [h]; rfl))
      · have hbool : p ≠ .bool := by
          rintro rfl
          exact hp rfl
        have hwords := (deserializeWordArray_reads (P := P) (e := e) (φ := φ) (n := p.wireSize)
          (p.isAlign_alignOf P hp) (vs.map p.toWire) (fun w hw => by
            obtain ⟨v, -, rfl⟩ := mem_map.mp hw
            exact p.toWire_lt v) (by simpa using hv)).map fun ws => ws.map p.ofWire
        rw [map_map] at hwords
        refine hwords.congr fun s hs _ => ?_
        simp only [deserializePrimArray_eq hbool hw, if_neg hp, run_read_bind, hs.align64,
          hlen, length_map]

/-- `read_string` and `read_wstring` drop one terminator. -/
def dropTerminator {β : Type} [DecidableEq β] (zero : β) (cs : List β) : List β :=
  if cs.getLast? = some zero then cs.dropLast else cs

/-- A string after encoding and decoding: cut at the first NUL. Strings whose length field
would overflow lose more. -/
def normalString (v : List UInt8) : List UInt8 :=
  dropTerminator 0 ((cString v ++ [0]).take (((cString v).length % 2 ^ 32 + 1) % 2 ^ 32))

def normalWstring (v : List (BitVec 32)) : List (BitVec 32) :=
  if (wcString v).length * 2 % 2 ^ 32 = 0 then []
  else dropTerminator 0 ((wcString v).map (Prim.normal .wchar))

lemma deserializeString_reads (v : List UInt8) :
    ReadsAt P e (do notePad 4; deserializeString) (string P v) φ (normalString v) := by
  set length := ((cString v).length % 2 ^ 32 + 1) % 2 ^ 32 with hlength
  have hlt : length % 2 ^ 32 = length := Nat.mod_mod _ _
  set bs := (cString v ++ [0]).take length with hbs
  have hbslen : bs.length = length := cString_take_length v
  have hword := deserializeU32_reads (P := P) (e := e) (φ := φ) length
  rw [hlt] at hword
  have hread : ReadsAt P e deserializeString
      (seq (u32 P length) (raw P bs)) φ (normalString v) := by
    intro s hs
    obtain ⟨s', hrun, ht⟩ := hword s (hs.left rfl)
    have hs' := hs.right (p := u32 P length φ) rfl ht
    simp only [deserializeString, run_read_bind]
    rw [bind_of_ok hrun]
    by_cases hzero : length = 0
    · have hnil : bs = [] := length_eq_zero_iff.mp (hbslen.trans hzero)
      refine ⟨s', ?_, ht.trans (.refl (p := raw P bs (u32 P length φ).next)
        ht.ready (by simp [hnil, raw]) ?_ rfl) rfl rfl rfl⟩
      · have hnormal : normalString v = [] := by
          rw [normalString, ← hlength, ← hbs, hnil]
          rfl
        rw [if_pos hzero, hnormal, run_pure]
      · rw [ht.pos]
        simp only [raw, advance, hnil, length_nil, Nat.add_zero]
        rw [u32_next]
        exact (Nat.mod_mod _ _).symm
    · have hroom : s'.offset + bs.length ≤ s'.size := by simpa [raw] using hs'.fits
      rw [hbslen] at hroom
      refine ⟨{ s' with lastDataSize := 1 }.skipRead bs.length, ?_,
        ht.trans (.load_raw ht.ready ht.pos (by rwa [hbslen])) rfl rfl rfl⟩
      rw [if_neg hzero, bind_of_ok (available_run hroom)]
      simp only [if_true, run_modify_bind, load, run_bind_bind, run_read_bind,
        run_pure_bind, run_pure, ← hbslen, Mem.slice_of_matches hs'.cells]
      rfl
  exact (hread.noted P.isAlign_four).thenFlag _

/-- The alignment that `read_wstring` skips is zero behind the length word, so that the characters
are read from where they were written. -/
theorem deserializeWord_lastDataSize (hs : Ready P s)
    (hpad : padTo 2 (phase P s).pos = 0) (hroom : s.offset + 2 ≤ s.size) :
    (deserializeWord 2 2).run { s with lastDataSize := 2 } = (deserializeWord 2 2).run s := by
  have halign : s.alignment 2 = 0 := by rw [hs.alignment_eq P.isAlign_two, hpad]
  have halign' : alignment { s with lastDataSize := 2 } 2 = 0 := rfl
  have hav := available_run (s := s) (n := 2 + 0) hroom
  have hav' := available_run (s := { s with lastDataSize := 2 }) (n := 2 + 0) hroom
  simp only [deserializeWord, run_read_bind, halign, halign']
  rw [bind_of_ok hav, bind_of_ok hav']
  rfl

lemma deserializeWstring_reads (v : List (BitVec 32)) :
    ReadsAt P e (do notePad 4; deserializeWstring) (wstring P v) φ
      (normalWstring v) := by
  by_cases hzero : (wcString v).length * 2 % 2 ^ 32 = 0
  · simp only [wstring, normalWstring, if_pos hzero]
    refine ReadsAt.noted P.isAlign_four fun s hs => ?_
    obtain ⟨s', hrun, ht⟩ := deserializeU32_reads 0 s hs
    refine ⟨s', ?_, ht⟩
    rw [deserializeWstring, run_read_bind, bind_of_ok hrun]
    rfl
  · have hsmallest : ReadsAt P e deserializeWstring (seq (u32 P ((wcString v).length % 2 ^ 32))
          (raw P (((wcString v).map (Prim.toWire .wchar)).flatMap (wordBytes P.swap 2)))) φ
        (dropTerminator 0 ((wcString v).map (Prim.normal .wchar))) := by
      intro s hs
      have hbytes : (((wcString v).map (Prim.toWire .wchar)).flatMap
          (wordBytes P.swap 2)).length = 2 * (wcString v).length := by
        rw [length_flatMap_wordBytes, length_map]
      have hsmall := hs.small
      simp only [seq, length_append, raw, length_map, hbytes] at hsmall
      have hmod : (wcString v).length % 2 ^ 32 = (wcString v).length :=
        Nat.mod_eq_of_lt (by omega)
      obtain ⟨s', hrun, ht⟩ := deserializeU32_reads _ s (hs.left rfl)
      rw [Nat.mod_mod, hmod] at hrun
      have hs' := hs.right (p := u32 P _ φ) rfl ht
      have hroom := hs'.fits
      simp only [raw, length_map, hbytes] at hroom
      -- the words follow the length at an even position
      have hpad : padTo 2 (u32 P ((wcString v).length % 2 ^ 32) φ).next.pos = 0 :=
        padTo_noted_u32_next _ φ
      have hne : wcString v ≠ [] := by
        intro h
        simp [h] at hzero
      have hread := deserializeWcharArray_reads (P := P) (e := e)
        (φ := (u32 P ((wcString v).length % 2 ^ 32) φ).next)
        (replicate (wcString v).length (0 : BitVec 32)) (wcString v) (by simp) hne
      have heq := aligned_of_pad_zero (P := P) hpad
        (((wcString v).map (Prim.toWire .wchar)).flatMap (wordBytes P.swap 2))
      obtain ⟨s'', hrun', ht'⟩ := hread s' (by rw [heq]; exact hs')
      rw [heq] at ht'
      refine ⟨s'', ?_, ht.trans ht' rfl rfl rfl⟩
      have hav : (available ((wcString v).length * 2 % 2 ^ 32)).run s' = (.ok true, s') :=
        available_run (le_trans (Nat.add_le_add_left (Nat.mod_le _ _) _) (by omega))
      rw [deserializeWstring, run_read_bind, bind_of_ok hrun, if_neg hzero, bind_of_ok hav]
      simp only [if_true, run_modify_bind, deserializePrimArray]
      have hfirst : (collect (fun _ => deserializePrim .wchar)
          (replicate (wcString v).length (0 : BitVec 32))).run
            { s' with lastDataSize := 2 } =
          (.ok ((wcString v).map (Prim.normal .wchar)), s'') := by
        rw [← hrun']
        obtain ⟨c, cs, hcs⟩ := exists_cons_of_ne_nil hne
        have hword : (deserializePrim .wchar).run { s' with lastDataSize := 2 } =
            (deserializePrim .wchar).run s' := by
          have hsame := deserializeWord_lastDataSize ht.ready (by rw [ht.pos]; exact hpad)
            (by rw [hcs] at hroom; simp only [length_cons] at hroom; omega)
          simp only [deserializePrim]
          change ((deserializeWord 2 2) >>= _).run _ = ((deserializeWord 2 2) >>= _).run _
          rw [run_bind, run_bind, hsame]
        rw [hcs, length_cons, replicate_succ, collect, run_bind, run_bind, hword]
      rw [bind_of_ok hfirst]
      rfl
    have hnoted := hsmallest.noted P.isAlign_four
    simp only [wstring, normalWstring, if_neg hzero]
    exact hnoted

end EasyDds.Cdr
