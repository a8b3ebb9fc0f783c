import EasyDds.Cdr.Decode.Shape

/-!
Decoding of sequences, arrays, maps and optionals, given decoders of their elements.
-/

namespace EasyDds.Cdr

open Layout List

open Prog

variable {P : Profile} {e : EncodingAlgorithmFlag} {φ : Phase} {α γ : Type}

variable {s : Cdr} {L : Layout} {init : α} {n : Nat} {many : List γ → Layout}
  {block : List α → CdrM (List α)} {image : γ → Layout} {g : γ → α}

lemma Facing.pos_lt {p : Piece} (h : Facing P e φ p s) : φ.pos < P.align64 := by
  rw [← h.pos]
  exact Nat.mod_lt _ (align64_pos P)

lemma Tracks.blank (h : Blank P L) (hs : Facing P e φ (L φ) s) : Tracks P (L φ) s s := by
  obtain ⟨hcells, hpos, hpads⟩ := h φ hs.pos_lt
  exact .refl hs.ready hcells (by rw [hs.pos, hpos]) hpads

lemma deserializeLength_reads (n : Nat) :
    ReadsAt P e deserializeLength (length P n) φ (n % 2 ^ 32) := by
  have h := (deserializeU32_reads (P := P) (e := e) (φ := φ) (n % 2 ^ 32)).noted P.isAlign_four
  rwa [Nat.mod_mod] at h

lemma length_resizeList (init : α) (n : Nat) (xs : List α) : (resizeList init n xs).length = n := by
  simp only [resizeList, length_append, length_take, length_replicate]
  omega

lemma mem_resizeList {y : α} {xs : List α} (h : y ∈ resizeList init n xs) : y ∈ xs ∨ y = init := by
  rcases mem_append.mp h with h | h
  · exact .inl (mem_of_mem_take h)
  · exact .inr (eq_of_mem_replicate h)

/-- Elements counted by a length word fit into 32 bits when each takes a byte: the image that holds
them all is shorter than that. -/
theorem length_mod_of_facing (h : AtLeast n L) (hs : Facing P e φ (L φ) s) : n % 2 ^ 32 = n :=
  Nat.mod_eq_of_lt ((h φ).trans_lt hs.small)

lemma deserializeBlockVector_reads {many : List α → CdrM (List α)} {image : List γ → Layout}
    (x : List α) (vs : List γ) (hcount : AtLeast vs.length (image vs)) (hnil : Blank P (image []))
    (hmany : ∀ xs, xs.length = vs.length → (∀ y ∈ xs, y ∈ x ∨ y = init) → ∀ ψ,
      ReadsAt P e (many xs) (image vs) ψ (vs.map g)) :
    ReadsAt P e (deserializeBlockVector init many x)
      (seq (length P vs.length) (image vs)) φ
      ((vs.take (vs.length % 2 ^ 32)).map g) := by
  intro s hs
  obtain ⟨s', hrun, ht⟩ := deserializeLength_reads vs.length s (hs.left rfl)
  have hs' := hs.right (p := length P vs.length φ) rfl ht
  have hmod := length_mod_of_facing hcount hs'
  rw [hmod] at hrun
  rw [hmod, take_length]
  simp only [deserializeBlockVector, run_read_bind]
  rw [bind_of_ok hrun]
  by_cases hzero : vs.length = 0
  · obtain rfl : vs = [] := length_eq_zero_iff.mp hzero
    exact ⟨s', rfl, ht.trans (.blank hnil hs') rfl rfl rfl⟩
  · have hroom : ¬s'.room < vs.length := by
      have := hcount (length P vs.length φ).next
      have := hs'.fits
      rw [hs'.ready.room_eq]
      omega
    obtain ⟨s'', hrun', ht'⟩ := hmany (resizeList init vs.length x) (length_resizeList _ _ _)
      (fun y hy => mem_resizeList hy) _ s' hs'
    refine ⟨s'', ?_, ht.trans ht' rfl rfl rfl⟩
    rw [if_neg hzero, run_read_bind, if_neg hroom, onError_of_ok hrun']

lemma load_reads (b : UInt8) : ReadsAt P e (load 1) (raw P [b]) φ [b] := by
  intro s hs
  have hroom : s.offset + 1 ≤ s.size := by simpa [raw] using hs.fits
  have hle := hs.ready.origin_le
  have hslice := Mem.slice_of_matches hs.cells
  refine ⟨s.skipRead 1, ?_, { hs.ready with origin_le := ?_, offset_le := hroom }, by simp [raw],
    ?_, rfl, rfl, rfl, rfl, fun _ => rfl,
    fun _ => by simp [notedPads, raw]⟩
  · rw [← hslice]
    rfl
  · simp
    omega
  · simp only [raw, advance, ← hs.pos, Cdr.phase, skipRead_offset,
      skipRead_origin, length_singleton]
    rw [phase_pos_add hle]

lemma Layout.all_raw (bs : List UInt8) (φ : Phase) (hφ : φ.pos < P.align64) :
    (all (fun b => raw P [b]) bs φ).cells = (raw P bs φ).cells ∧
      (all (fun b => raw P [b]) bs φ).next = (raw P bs φ).next ∧
      (all (fun b => raw P [b]) bs φ).pads = [] := by
  induction bs generalizing φ with
  | nil => simp [all, empty, raw, advance, Nat.mod_eq_of_lt hφ]
  | cons b bs ih =>
    obtain ⟨hcells, hnext, hpads⟩ := ih (raw P [b] φ).next (Nat.mod_lt _ (align64_pos P))
    refine ⟨?_, ?_, ?_⟩
    · simp only [all, seq, hcells]
      simp [raw]
    · simp only [all, seq, hnext]
      simp [raw, advance, Nat.add_assoc, Nat.add_comm 1]
    · simp only [all, seq, hpads]
      simp [raw]

lemma deserializeBoolSequence_reads (vs : List Bool) : ReadsAt P e deserializeBoolSequence
      (seq (length P vs.length) (primArray P .bool vs)) φ
      ((vs.take (vs.length % 2 ^ 32)).map (Prim.normal .bool)) := by
  intro s hs
  obtain ⟨s', hrun, ht⟩ := deserializeLength_reads vs.length s (hs.left rfl)
  have hs' := hs.right (p := length P vs.length φ) rfl ht
  have hmod := length_mod_of_facing (AtLeast.primArray .bool vs) hs'
  have hnormal : vs.map (Prim.normal .bool) = vs :=
    (map_congr_left fun v _ => Prim.normal_of_ne (by decide) v).trans (map_id vs)
  rw [hmod] at hrun
  rw [hmod, take_length, hnormal]
  have hread : ReadsAt P e (collect (fun _ => do
      let value := (← load 1).headD 0
      if value = 1 then pure true
      else if value = 0 then pure false
      else raise (.badParam
        "Unexpected byte value in Cdr::deserialize_bool_sequence, expected 0 or 1"))
      (range vs.length))
      (primArray P .bool vs) (length P vs.length φ).next vs := by
    have hall := ReadsAt.collect (P := P) (e := e) (f := fun _ : Nat => (do
        let value := (← load 1).headD 0
        if value = 1 then pure true
        else if value = 0 then pure false
        else raise (.badParam
          "Unexpected byte value in Cdr::deserialize_bool_sequence, expected 0 or 1") :
            CdrM Bool))
      (I := fun b => raw P [UInt8.ofNat (Prim.toWire .bool b)]) (g := id)
      (range vs.length) vs (length P vs.length φ).next (by simp)
      fun _ _ b _ ψ s hs => by
        obtain ⟨s', hrun, ht⟩ := load_reads _ s hs
        refine ⟨s', ?_, ht⟩
        rw [bind_of_ok hrun]
        cases b <;> rfl
    rw [map_id] at hall
    have hsame := all_raw (P := P) (vs.map fun b => UInt8.ofNat (Prim.toWire .bool b))
      (length P vs.length φ).next hs'.pos_lt
    rw [Layout.all_map] at hsame
    exact hall.same rfl hsame.1.symm (by rw [hsame.2.1]; rfl) fun _ => hsame.2.2.symm
  have hroom : s'.offset + vs.length ≤ s'.size := by
    simpa [primArray, Prim.wireSize, Prim.sizeof, raw] using hs'.fits
  have hready := hs'.ready
  obtain ⟨s'', hrun', ht'⟩ := hread { s' with lastDataSize := 1 }
    { hs' with ready := { hready with last_le := le_rfl } }
  refine ⟨s'', ?_, ht.trans { ht' with } rfl rfl rfl⟩
  simp only [deserializeBoolSequence, run_read_bind]
  rw [bind_of_ok hrun, bind_of_ok (available_run hroom), if_pos rfl, run_modify_bind, hrun']

/-- The loop below a DHEADER reads all the elements. As each of them takes a byte, the end that the
DHEADER sets comes behind the last one and not before. -/
theorem deserializeWhile_reads (hv : P.version = .xcdrV2) (one : α → CdrM α)
    (start dheader : Nat) (hnil : Blank P (many []))
    (hcons : ∀ v vs, SameCells (many (v :: vs)) (seq (image v) (many vs))) (xs : List α)
    (vs : List γ) (φ : Phase) (s : Cdr) (hlen : xs.length = vs.length)
    (hread : ∀ x ∈ xs, ∀ v ∈ vs, ∀ ψ, ReadsAt P e (one x) (image v) ψ (g v))
    (hsolid : ∀ v ∈ vs, AtLeast 1 (image v)) (hs : Facing P e φ (many vs φ) s)
    (hstart : start ≤ s.offset) (hend : s.offset + (many vs φ).cells.length = start + dheader) :
    ∃ s', (deserializeWhile start dheader one xs).run s = (.ok (vs.map g), s') ∧
      Tracks P (many vs φ) s s' := by
  induction xs generalizing vs φ s with
  | nil =>
    obtain rfl : vs = [] := length_eq_zero_iff.mp hlen.symm
    exact ⟨s, rfl, .blank hnil hs⟩
  | cons x xs ih =>
    obtain ⟨v, vs, rfl⟩ : ∃ v ws, vs = v :: ws := by
      cases vs with
      | nil => simp at hlen
      | cons v vs => exact ⟨v, vs, rfl⟩
    obtain ⟨hcells, hnext⟩ := hcons v vs φ
    have hone := hsolid v (mem_cons_self ..) φ
    have hle := hs.ready.offset_le
    have hlt := s.size_lt
    have htotal : s.offset + ((image v φ).cells.length +
        (many vs (image v φ).next).cells.length) = start + dheader := by
      rw [← hend, hcells]
      simp only [seq, length_append]
    have hmore : iteratorDiff s.offset start < dheader := by
      rw [iteratorDiff_eq hstart (by omega)]
      omega
    obtain ⟨s', hrun, ht⟩ := hread x (mem_cons_self ..) v (mem_cons_self ..) φ s (hs.left hcells)
    have hs' := hs.right (p := image v φ) hcells ht
    have hoffset := ht.offset
    obtain ⟨s'', hrun', ht'⟩ := ih vs (image v φ).next s' (Nat.succ.inj hlen)
      (fun y hy w hw => hread y (mem_cons_of_mem _ hy) w (mem_cons_of_mem _ hw))
      (fun w hw => hsolid w (mem_cons_of_mem _ hw)) hs' (by omega) (by omega)
    refine ⟨s'', ?_, (ht.trans ht' (r := seq (image v) (many vs) φ) rfl rfl rfl).congr
      hcells (by rw [hnext]) fun h => absurd (hv.symm.trans h) (by decide)⟩
    simp only [deserializeWhile, run_read_bind, if_pos hmore]
    rw [bind_of_ok hrun, bind_of_ok hrun']
    rfl

/-- Without bytes left the elements stay as they are: the loop is over before the first of them. -/
theorem deserializeWhile_stop {one : α → CdrM α} {start dheader : Nat} (xs : List α)
    (h : s.offset = start + dheader) (hd : dheader < 2 ^ 64) :
    (deserializeWhile start dheader one xs).run s = (.ok xs, s) := by
  have hstop : ¬iteratorDiff s.offset start < dheader := by
    rw [iteratorDiff_eq (by omega) (by omega)]
    omega
  cases xs with
  | nil => rfl
  | cons x xs =>
    simp only [deserializeWhile, run_read_bind, if_neg hstop]
    rfl

lemma checkDheader_run {start dheader : Nat} {message : String} (h : s.offset = start + dheader)
    (hd : dheader < 2 ^ 64) : (checkDheader start dheader message).run s = (.ok (), s) := by
  have hsame : ¬iteratorDiff s.offset start ≠ dheader := by
    rw [iteratorDiff_eq (by omega) (by omega)]
    omega
  simp only [checkDheader, run_read_bind, if_neg hsame, run_pure]

/-- The word in front of a delimited image, and the image behind it. -/
theorem delimited_reads (hv : P.version = .xcdrV2) {a : Layout}
    (hs : Facing P e φ (delimited P a φ) s) :
    ∃ n ψ s', deserializeU32.run s = (.ok n, s') ∧ n = (a ψ).cells.length ∧ n < 2 ^ 32 ∧
      padTo 4 ψ.pos = 0 ∧ ψ.flag = φ.flag ∧ Facing P e ψ (a ψ) s' ∧
      Tracks P (u32 P n φ) s s' ∧
      ∀ s'', Tracks P (a ψ) s' s'' → Tracks P (delimited P a φ) s s'' := by
  set ψ := advance P φ (padTo 4 φ.pos + 4) with hψ
  set n := (a ψ).cells.length with hn
  have hcells : (delimited P a φ).cells = (u32 P n φ).cells ++ (a ψ).cells := by
    simp only [delimited, u32, word, aligned, ← hψ, ← hn]
  have hnext : (u32 P n φ).next = ψ := by rw [u32_next, hψ]
  have hsmall : n < 2 ^ 32 := by
    have := hs.small
    rw [hcells, length_append] at this
    omega
  obtain ⟨s', hrun, ht⟩ := deserializeU32_reads n s (hs.left hcells)
  rw [Nat.mod_eq_of_lt hsmall] at hrun
  have hs' := hs.right hcells ht
  rw [hnext] at hs'
  refine ⟨n, ψ, s', hrun, rfl, hsmall, ?_, rfl, hs', ht, fun s'' ht' => ?_⟩
  · rw [← hnext]
    exact padTo_aligned_next P.isAlign_four _ (by simp) φ
  · refine (ht.trans ht' (r := seq (u32 P n) a φ) ?_ ?_ ?_).congr ?_ ?_ ?_
    · simp only [seq, hnext]
    · simp only [seq, hnext]
    · simp only [seq, hnext]
    · simp only [seq, hnext, hcells]
    · simp only [seq, hnext, delimited, ← hψ]
    · exact fun h => absurd (hv.symm.trans h) (by decide)

/-- Two lists of the same length over a type with one value. -/
theorem eq_of_subsingleton {xs ys : List α} (h : ∀ a b : α, a = b)
    (hlen : xs.length = ys.length) : xs = ys :=
  ext_getElem hlen fun _ _ _ => h _ _

/-- What the loops over elements of one kind need: either every element takes bytes, or the
elements take none and their type has one value. -/
def ElementsOk (P : Profile) (α : Type) (image : γ → Layout) (many : List γ → Layout)
    (vs : List γ) : Prop :=
  (∀ v ∈ vs, AtLeast 1 (image v)) ∨ (Blank P (many vs) ∧ ∀ a b : α, a = b)

lemma Layout.AtLeast.of_cons
    (hcons : ∀ v vs, Layout.SameCells (many (v :: vs)) (Layout.seq (image v) (many vs)))
    (vs : List γ) (h : ∀ v ∈ vs, Layout.AtLeast 1 (image v)) :
    Layout.AtLeast vs.length (many vs) := by
  induction vs with
  | nil => exact fun _ => Nat.zero_le _
  | cons v vs ih =>
    have hseq := (h v (mem_cons_self ..)).seq (ih fun w hw => h w (mem_cons_of_mem _ hw))
    intro φ
    rw [(hcons v vs φ).1, length_cons, Nat.add_comm]
    exact hseq φ

lemma deserializeObjectVector_reads (hv : P.version = .xcdrV2) {one : α → CdrM α}
    (x : List α) (vs : List γ) (hnil : Blank P (many []))
    (hcons : ∀ v vs, SameCells (many (v :: vs)) (seq (image v) (many vs)))
    (hok : ElementsOk P α image many vs)
    (hread : ∀ y, y ∈ x ∨ y = init → ∀ v ∈ vs, ∀ ψ, ReadsAt P e (one y) (image v) ψ (g v)) :
    ReadsAt P e (deserializeObjectVector init one block x)
      (delimited P (seq (length P vs.length) (many vs))) φ
      ((vs.take (vs.length % 2 ^ 32)).map g) := by
  intro s hs
  obtain ⟨n, ψ, s1, hrun1, hn, hsmall, -, -, hs1, -, hdone⟩ := delimited_reads hv hs
  obtain ⟨s2, hrun2, ht2⟩ := deserializeLength_reads vs.length s1 (hs1.left rfl)
  have hs2 := hs1.right (p := length P vs.length ψ) rfl ht2
  have hoffset2 := ht2.offset
  simp only [seq, length_append] at hn
  simp only [deserializeObjectVector, run_read_bind, if_pos (hs.ready.version.trans hv)]
  rw [bind_of_ok hrun1, run_read_bind, bind_of_ok hrun2]
  rcases hok with hsolid | ⟨hblank, huniq⟩
  · have hmod := length_mod_of_facing (AtLeast.of_cons hcons vs hsolid) hs2
    rw [hmod, take_length]
    by_cases hzero : vs.length = 0
    · obtain rfl : vs = [] := length_eq_zero_iff.mp hzero
      exact ⟨s2, rfl, hdone s2 (ht2.trans (.blank hnil hs2) rfl rfl rfl)⟩
    · obtain ⟨s3, hrun3, ht3⟩ := deserializeWhile_reads hv one s1.offset n hnil hcons
        (resizeList init vs.length x) vs (length P vs.length ψ).next s2 (length_resizeList _ _ _)
        (fun y hy => hread y (mem_resizeList hy)) hsolid hs2 (by omega) (by omega)
      have hoffset3 := ht3.offset
      refine ⟨s3, ?_, hdone s3 (ht2.trans ht3 rfl rfl rfl)⟩
      rw [if_neg hzero, bind_of_ok hrun3, bind_of_ok (checkDheader_run (by omega) (by omega))]
      rfl
  · obtain ⟨hcells, -, -⟩ := hblank _ hs2.pos_lt
    rw [hcells, length_nil, Nat.add_zero] at hn
    refine ⟨s2, ?_, hdone s2 (ht2.trans (.blank hblank hs2) rfl rfl rfl)⟩
    by_cases hzero : vs.length % 2 ^ 32 = 0
    · rw [if_pos hzero, hzero]
      rfl
    · have hsame : resizeList init (vs.length % 2 ^ 32) x =
          (vs.take (vs.length % 2 ^ 32)).map g := by
        refine eq_of_subsingleton huniq ?_
        rw [length_resizeList, length_map, length_take]
        exact (Nat.min_eq_left (Nat.mod_le _ _)).symm
      rw [if_neg hzero, bind_of_ok (deserializeWhile_stop _ (by omega) (by omega)),
        bind_of_ok (checkDheader_run (by omega) (by omega)), hsame]
      rfl

lemma assignVector_map (x : List.Vector α n) (v : List.Vector γ n) (g : γ → α) :
    assignVector x (v.toList.map g) = List.Vector.map g v := by
  have hlen : (v.toList.map g).length = n := by rw [length_map, v.toList_length]
  have hassign : assignVector x (v.toList.map g) = ⟨v.toList.map g, hlen⟩ := dif_pos hlen
  rw [hassign]
  exact List.Vector.eq _ _ (List.Vector.toList_map v g).symm

lemma deserializeArray_reads {isPrimitive : Bool} (hplain : ¬(P.version = .xcdrV2 ∧ !isPrimitive))
    (x : List.Vector α n) (v : List.Vector γ n)
    (hblock : ReadsAt P e (block x.toList) L φ (v.toList.map g)) :
    ReadsAt P e (deserializeArray isPrimitive block x) L φ (List.Vector.map g v) := by
  have h := hblock.map (assignVector x)
  rw [assignVector_map] at h
  refine h.congr fun s hs _ => ?_
  have hplain' : ¬(s.cdrVersion = .xcdrV2 ∧ !isPrimitive) := by rwa [hs.version]
  simp only [deserializeArray, run_read_bind, if_neg hplain']

/-- Arrays behind a DHEADER, read element by element. -/
theorem deserializeArray_reads_delimited (hv : P.version = .xcdrV2)
    (x : List.Vector α n) (v : List.Vector γ n) (hnil : Blank P (many []))
    (hcons : ∀ v vs, SameCells (many (v :: vs)) (seq (many [v]) (many vs)))
    (hok : ElementsOk P α (fun y => many [y]) many v.toList)
    (hblock : ∀ y ∈ x.toList, ∀ w ∈ v.toList, ∀ ψ, ReadsAt P e (block [y]) (many [w]) ψ [g w]) :
    ReadsAt P e (deserializeArray false block x) (delimited P (many v.toList)) φ
      (List.Vector.map g v) := by
  intro s hs
  have hlen : x.toList.length = v.toList.length := by rw [x.toList_length, v.toList_length]
  obtain ⟨k, ψ, s1, hrun1, hk, hsmall, -, -, hs1, -, hdone⟩ := delimited_reads hv hs
  have hver : s.cdrVersion = .xcdrV2 ∧ (!false) = true := ⟨hs.ready.version.trans hv, rfl⟩
  simp only [deserializeArray, run_read_bind, if_pos hver]
  rw [bind_of_ok hrun1, run_read_bind]
  rcases hok with hsolid | ⟨hblank, huniq⟩
  · obtain ⟨s2, hrun2, ht2⟩ := deserializeWhile_reads hv
      (fun y => do let ys ← block [y]; pure (ys.headD y)) s1.offset k hnil hcons (g := g)
      x.toList v.toList ψ s1 hlen
      (fun y hy w hw ψ => (hblock y hy w hw ψ).map (·.headD y)) hsolid hs1 le_rfl (by omega)
    have hoffset2 := ht2.offset
    refine ⟨s2, ?_, hdone s2 ht2⟩
    rw [bind_of_ok hrun2, bind_of_ok (checkDheader_run (by omega) (by omega)), assignVector_map]
    rfl
  · obtain ⟨hcells, -, -⟩ := hblank ψ hs1.pos_lt
    rw [hcells, length_nil] at hk
    refine ⟨s1, ?_, hdone s1 (.blank hblank hs1)⟩
    rw [bind_of_ok (deserializeWhile_stop _ (by omega) (by omega)),
      bind_of_ok (checkDheader_run (by omega) (by omega))]
    have hsame : assignVector x x.toList = List.Vector.map g v :=
      List.Vector.ext fun i => huniq _ _
    rw [hsame]
    rfl

lemma regroup_flatMap (xs : List (List.Vector α n)) (vs : List (List.Vector γ n))
    (hlen : xs.length = vs.length) (g : γ → α) :
    regroup xs ((vs.flatMap fun v => v.toList).map g) = vs.map (List.Vector.map g) := by
  induction xs generalizing vs with
  | nil =>
    obtain rfl : vs = [] := length_eq_zero_iff.mp hlen.symm
    rfl
  | cons x xs ih =>
    cases vs with
    | nil => simp at hlen
    | cons v vs =>
      have hn : (v.toList.map g).length = n := by rw [length_map, v.toList_length]
      rw [flatMap_cons, map_append, regroup, take_left' hn, drop_left' hn,
        ih vs (Nat.succ.inj hlen), assignVector_map, map_cons]

section Maps

variable {k : KeyTy} {value : CdrM α} {image : γ → Layout} {g : γ → α}

lemma deserializeKey_reads (k : KeyTy) (x : k.denote) :
    ReadsAt P e (deserializeKey k) (key P k x) φ (k.normal x) := by
  cases k with
  | prim p => exact deserializePrim_reads p x
  | string => exact deserializeString_reads x

def Layout.pair (P : Profile) (k : KeyTy) (image : γ → Layout) (d : k.denote × γ) : Layout :=
  seq (key P k d.1) (image d.2)

def normalPair (k : KeyTy) (g : γ → α) (d : k.denote × γ) : k.denote × α :=
  (k.normal d.1, g d.2)

lemma Layout.AtLeast.pair (d : k.denote × γ) :
    AtLeast 1 (pair P k image d) := (AtLeast.key k d.1).left

lemma deserializePair_reads (d : k.denote × γ)
    (hvalue : ∀ ψ, ReadsAt P e value (image d.2) ψ (g d.2)) :
    ReadsAt P e (deserializePair k value) (pair P k image d) φ (normalPair k g d) :=
  (deserializeKey_reads k d.1).bind ((hvalue _).map fun y => (k.normal d.1, y))

lemma deserializePairs_reads (ds : List (k.denote × γ)) (m : OrderedMap k.rank α)
    (hvalue : ∀ d ∈ ds, ∀ ψ, ReadsAt P e value (image d.2) ψ (g d.2)) :
    ReadsAt P e (deserializePairs k value ds.length m) (all (pair P k image) ds) φ
      ((ds.map (normalPair k g)).foldl OrderedMap.emplace m) := by
  induction ds generalizing m φ with
  | nil => exact ReadsAt.pure m
  | cons d ds ih =>
    exact (deserializePair_reads d (hvalue d (mem_cons_self ..))).bind
      (ih _ fun d' hd => hvalue d' (mem_cons_of_mem _ hd))

lemma deserializePairsWhile_reads (start dheader : Nat) (ds : List (k.denote × γ))
    (m : OrderedMap k.rank α) (s : Cdr)
    (hvalue : ∀ d ∈ ds, ∀ ψ, ReadsAt P e value (image d.2) ψ (g d.2))
    (hs : Facing P e φ (all (pair P k image) ds φ) s) (hstart : start ≤ s.offset)
    (hend : s.offset + (all (pair P k image) ds φ).cells.length =
      start + dheader) :
    ∃ s', (deserializePairsWhile k value start dheader ds.length m).run s =
        (.ok ((ds.map (normalPair k g)).foldl OrderedMap.emplace m), s') ∧
      Tracks P (all (pair P k image) ds φ) s s' := by
  induction ds generalizing m φ s with
  | nil => exact ⟨s, rfl, .blank .empty hs⟩
  | cons d ds ih =>
    have hone : 1 ≤ (pair P k image d φ).cells.length := AtLeast.pair d φ
    have hle := hs.ready.offset_le
    have hlt := s.size_lt
    simp only [Layout.all, seq, List.length_append] at hend
    have hmore : iteratorDiff s.offset start < dheader := by
      rw [iteratorDiff_eq hstart (by omega)]
      omega
    obtain ⟨s', hrun, ht⟩ := deserializePair_reads d (hvalue d (mem_cons_self ..)) s
      (hs.left (q := all (pair P k image) ds
        (pair P k image d φ).next) rfl)
    have hs' := hs.right (p := pair P k image d φ)
      (q := all (pair P k image) ds (pair P k image d φ).next) rfl ht
    have hoffset := ht.offset
    obtain ⟨s'', hrun', ht'⟩ := ih (m.emplace (normalPair k g d)) s'
      (fun d' hd => hvalue d' (mem_cons_of_mem _ hd)) hs' (by omega) (by omega)
    refine ⟨s'', ?_, ht.trans ht' rfl rfl rfl⟩
    rw [length_cons, map_cons, foldl_cons]
    simp only [deserializePairsWhile, run_read_bind, if_pos hmore]
    rw [bind_of_ok hrun, hrun']

/-- Maps without a DHEADER, into a map that is empty. -/
theorem deserializeMap_reads_plain (ds : List (k.denote × γ)) (st : State)
    (hvalue : ∀ d ∈ ds, ∀ ψ, ReadsAt P e value (image d.2) ψ (g d.2)) : ReadsAt P e (do
        let sequenceLength ← deserializeLength
        onError (setState st) (deserializePairs k value sequenceLength .empty))
      (seq (length P ds.length) (all (pair P k image) ds)) φ
      (OrderedMap.ofEntries (ds.map (normalPair k g))) := by
  intro s hs
  obtain ⟨s', hrun, ht⟩ := deserializeLength_reads ds.length s (hs.left rfl)
  have hs' := hs.right (p := length P ds.length φ) rfl ht
  rw [length_mod_of_facing (AtLeast.all ds fun d _ => .pair d) hs'] at hrun
  obtain ⟨s'', hrun', ht'⟩ := (deserializePairs_reads ds .empty hvalue).onError
    (r := setState st) s' hs'
  exact ⟨s'', by rw [bind_of_ok hrun, hrun']; rfl, ht.trans ht' rfl rfl rfl⟩

lemma deserializeMap_reads_delimited (hv : P.version = .xcdrV2) {message : String}
    (ds : List (k.denote × γ)) (hvalue : ∀ d ∈ ds, ∀ ψ, ReadsAt P e value (image d.2) ψ (g d.2)) :
    ReadsAt P e (do
        let dheader ← deserializeU32
        let start := (← read).offset
        let mapLength ← deserializeLength
        let m' ← deserializePairsWhile k value start dheader mapLength .empty
        checkDheader start dheader message
        pure m')
      (delimited P (seq (length P ds.length) (all (pair P k image) ds))) φ
      (OrderedMap.ofEntries (ds.map (normalPair k g))) := by
  intro s hs
  obtain ⟨n, ψ, s1, hrun1, hn, hsmall, -, -, hs1, -, hdone⟩ := delimited_reads hv hs
  obtain ⟨s2, hrun2, ht2⟩ := deserializeLength_reads ds.length s1 (hs1.left rfl)
  have hs2 := hs1.right (p := length P ds.length ψ) rfl ht2
  have hoffset2 := ht2.offset
  simp only [seq, length_append] at hn
  rw [length_mod_of_facing (AtLeast.all ds fun d _ => .pair d) hs2] at hrun2
  obtain ⟨s3, hrun3, ht3⟩ := deserializePairsWhile_reads s1.offset n
    ds .empty s2 hvalue hs2 (by omega) (by omega)
  have hoffset3 := ht3.offset
  refine ⟨s3, ?_, hdone s3 (ht2.trans ht3 rfl rfl rfl)⟩
  rw [bind_of_ok hrun1, run_read_bind, bind_of_ok hrun2, bind_of_ok hrun3,
    bind_of_ok (checkDheader_run (by omega) (by omega))]
  rfl

end Maps

lemma deserializeMap_reads {k : KeyTy} {t : Ty} {value : CdrM t.denote}
    {image : t.denote → Layout} {g : t.denote → t.denote}
    (x m : OrderedMap k.rank t.denote) (hx : t.isArithmetic → x.entries = [])
    (hvalue : ∀ d ∈ m.entries, ∀ ψ, ReadsAt P e value (image d.2) ψ (g d.2)) :
    ReadsAt P e (deserializeMap k t value x) (map P k t image m) φ
      (OrderedMap.ofEntries (m.entries.map (normalPair k g))) := by
  refine .read fun s hs _ => ?_
  by_cases harith : t.isArithmetic
  · obtain rfl : x = .empty := OrderedMap.ext (hx harith)
    simp only [Layout.map, if_pos harith]
    exact deserializeMap_reads_plain m.entries _ hvalue
  · simp only [Layout.map, if_neg harith]
    by_cases hv : P.version = .xcdrV2
    · simp only [withDheader, if_pos hv, if_pos (hs.version.trans hv)]
      exact deserializeMap_reads_delimited hv m.entries hvalue
    · have hv' : ¬s.cdrVersion = .xcdrV2 := by rwa [hs.version]
      simp only [withDheader, if_neg hv, if_neg hv']
      exact deserializeMap_reads_plain m.entries _ hvalue

lemma deserializeOptional_reads {value : CdrM α}
    (v : Option γ) (hflag : (P.version = .xcdrV2 ∧ e ≠ .plCdr2) ∨ v.isSome)
    (hvalue : ∀ x, v = some x → ∀ ψ, ReadsAt P e value (image x) ψ (g x)) :
    ReadsAt P e (deserializeOptional value) (Layout.optional P e image v) φ (v.map g) := by
  unfold deserializeOptional Layout.optional
  refine .read fun s hs he => ?_
  rw [hs.version, he]
  by_cases hbyte : P.version = .xcdrV2 ∧ e ≠ .plCdr2
  · simp only [if_pos hbyte]
    cases v with
    | none => exact (deserializeBool_reads false).bind (ReadsAt.pure none)
    | some x => exact (deserializeBool_reads true).bind ((hvalue x rfl _).map some)
  · simp only [if_neg hbyte]
    obtain ⟨x, rfl⟩ := Option.isSome_iff_exists.mp (hflag.resolve_left hbyte)
    exact (ReadsAt.pure true).bind ((hvalue x rfl _).map some)

end EasyDds.Cdr
