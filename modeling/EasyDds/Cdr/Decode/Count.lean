import EasyDds.Cdr.Decode.Header

/-!
In XCDRv2 the header of a member may leave the size of the member to the first word of its
content. `serialized_member_size_` decides on that, and this module shows when it is right:
the first word then counts the rest of the content.
-/

namespace EasyDds.Cdr

open Layout List

variable {P : Profile} {e : EncodingAlgorithmFlag} {φ : Phase}

/-- A layout that does not touch `serialized_member_size_`. -/
def Layout.KeepsFlag (L : Layout) : Prop := ∀ φ, (L φ).next.flag = φ.flag

lemma Layout.KeepsFlag.seq {a b : Layout} (ha : a.KeepsFlag) (hb : b.KeepsFlag) :
    (seq a b).KeepsFlag := fun φ => (hb _).trans (ha φ)

lemma Layout.KeepsFlag.all {α : Type} {f : α → Layout} :
    ∀ xs : List α, (∀ x ∈ xs, (f x).KeepsFlag) → (all f xs).KeepsFlag
  | [], _ => fun _ => rfl
  | x :: xs, h => (h x (mem_cons_self ..)).seq
      (KeepsFlag.all xs fun y hy => h y (mem_cons_of_mem _ hy))

lemma Layout.KeepsFlag.raw (bs : List UInt8) : (raw P bs).KeepsFlag := fun _ => rfl

lemma Layout.KeepsFlag.aligned (n : Nat) (bs : List UInt8) :
    (aligned P n bs).KeepsFlag := fun _ => rfl

lemma Layout.KeepsFlag.noted {a : Layout} (h : a.KeepsFlag) (n : Nat) : (noted n a).KeepsFlag := h

lemma Layout.KeepsFlag.length (n : Nat) : (length P n).KeepsFlag := fun _ => rfl

lemma Layout.KeepsFlag.prim (p : Prim) (x : p.denote) : (Layout.prim P p x).KeepsFlag := by
  unfold Layout.prim
  split
  · exact .raw _
  · exact .noted (.aligned _ _) _

lemma Layout.KeepsFlag.primArray (p : Prim) (xs : List p.denote) :
    (Layout.primArray P p xs).KeepsFlag := by
  unfold Layout.primArray
  split
  · exact .raw _
  · split
    · exact fun _ => rfl
    · exact .noted (.aligned _ _) _

/-- Multidimensional arrays of primitives are one block. -/
theorem Layout.KeepsFlag.many : (t : Ty) → t.isMultiArrayPrimitive = true → ∀ e vs,
    ((layout P t e).many vs).KeepsFlag
  | .prim p, _ => fun _ vs => by
    exact .primArray p vs
  | .array t _, h => fun e vs => by
    exact KeepsFlag.many t h e _
  | .string, h | .wstring, h | .vector _, h | .map _ _, h | .optional _, h | .struct _ _, h => by
    simp [Ty.isMultiArrayPrimitive] at h

/-- A structure ends with its last member, which clears the flag. -/
theorem membersLayout_flag (hv : P.version = .xcdrV2) (x : Extensibility) : (ms : Members) →
    ∀ v φ, φ.flag = .noSerializedMemberSize →
      (membersLayout P ms (x.encoding P.version) v φ).next.flag = .noSerializedMemberSize
  | .nil => fun _ _ h => by
    exact h
  | .cons m t ms => fun v φ _ => by
    refine membersLayout_flag hv x ms v.2 _ ?_
    simp only [member, hv]
    split
    · split <;> rfl
    · rfl

lemma Piece.Counted.of_none {p : Piece} (hflag : p.next.flag = .noSerializedMemberSize)
    (h : 0 < p.cells.length) : p.Counted P := by
  rw [Piece.Counted, if_pos hflag]
  exact h

lemma Piece.Counted.of_word {p : Piece} {f : SerializedMemberSizeForNextInt}
    (hflag : p.next.flag = f) (hf : f ≠ .noSerializedMemberSize) (x : Nat)
    (rest : List (Option UInt8)) (hcells : p.cells = (wordBytes P.swap 4 x).map some ++ rest)
    (hcount : x * f.unit = rest.length) : p.Counted P := by
  rw [Piece.Counted, hflag, if_neg hf]
  refine ⟨x, rest, hcells, ?_⟩
  rw [hcells, hcount]
  simp

lemma Piece.Counted.delimited (a : Layout) (hpad : padTo 4 φ.pos = 0) :
    (Layout.delimited P a φ).Counted P := by
  refine .of_word (f := .serializedMemberSize) rfl (by decide)
    (a (advance P φ (padTo 4 φ.pos + 4))).cells.length
    (a (advance P φ (padTo 4 φ.pos + 4))).cells ?_ (Nat.mul_one _)
  simp [Layout.delimited, hpad]

lemma Layout.u32_cells (x : Nat) (hpad : padTo 4 φ.pos = 0) :
    (u32 P x φ).cells = (wordBytes P.swap 4 x).map some := by
  simp [u32, word, aligned, hpad]

lemma Piece.Counted.string (v : List UInt8) (hpad : padTo 4 φ.pos = 0) :
    (Layout.string P v φ).Counted P := by
  set n := ((cString v).length % 2 ^ 32 + 1) % 2 ^ 32 with hn
  refine .of_word (f := .serializedMemberSize) rfl (by decide) n
    (((cString v ++ [0]).take n).map some) ?_ ?_
  · have hcells := u32_cells (P := P) n hpad
    simp only [Layout.string, thenFlag, seq, noted, raw, ← hn, hcells]
  · rw [length_map, cString_take_length, ← hn]
    exact Nat.mul_one _

/-- Behind a word no primitive needs padding in XCDRv2, where no alignment is larger than four. -/
theorem Layout.primArray_cells_length (hv : P.version = .xcdrV2) (p : Prim) (xs : List p.denote)
    (hpad : padTo 4 φ.pos = 0) : (primArray P p xs φ).cells.length = xs.length * p.wireSize := by
  have hzero : padTo (p.alignOf P.align64) φ.pos = 0 := by
    have hdvd : 4 ∣ φ.pos := by
      simp only [padTo] at hpad
      omega
    have halign : p.alignOf P.align64 ∣ 4 := by
      have hfour : P.align64 = 4 := by simp [Profile.align64, hv]
      rw [hfour]
      cases p <;> decide
    exact padTo_eq_zero (halign.trans hdvd)
  by_cases hp : p.wireSize = 1
  · simp [primArray, hp, raw]
  · by_cases hx : xs.length = 0
    · rw [hx, Nat.zero_mul]
      simp only [primArray, if_neg hp, if_pos hx, empty, length_nil]
    · simp only [primArray, if_neg hp, if_neg hx, noted, aligned,
        hzero, replicate_zero, nil_append, length_map]
      rw [length_flatMap_wordBytes, length_map, Nat.mul_comm]

lemma getSerializedMemberSize_unit {p : Prim} (hp : p ≠ .wchar)
    (h : getSerializedMemberSize p ≠ .noSerializedMemberSize) :
    (getSerializedMemberSize p).unit = p.wireSize := by
  cases p <;> first | rfl | exact absurd rfl hp | exact absurd rfl h

lemma Piece.Counted.primVector (hv : P.version = .xcdrV2) (p : Prim) (xs : List p.denote)
    (hwchar : p = .wchar → xs = []) (hpad : padTo 4 φ.pos = 0)
    (hsmall : (sequenceFlag P (getSerializedMemberSize p)
      (seq (length P xs.length) (primArray P p xs)) φ).cells.length < 2 ^ 32) :
    (sequenceFlag P (getSerializedMemberSize p)
      (seq (length P xs.length) (primArray P p xs)) φ).Counted P := by
  simp only [sequenceFlag, if_pos hv] at hsmall ⊢
  by_cases hnone : getSerializedMemberSize p = .noSerializedMemberSize
  · refine .of_none hnone ?_
    have hfour := ((AtLeast.length (P := P) xs.length).left (b := primArray P p xs)) φ
    simp only [thenFlag]
    omega
  · have hpadNext : padTo 4 (length P xs.length φ).next.pos = 0 :=
      padTo_aligned_next P.isAlign_four _ (by simp) φ
    have hlen := primArray_cells_length hv p xs hpadNext
    have hmod : xs.length % 2 ^ 32 = xs.length := by
      simp only [thenFlag, seq, length_append, hlen] at hsmall
      have := Nat.le_mul_of_pos_right xs.length p.wireSize_pos
      exact Nat.mod_eq_of_lt (by omega)
    refine .of_word (f := getSerializedMemberSize p) rfl hnone xs.length
      (primArray P p xs (length P xs.length φ).next).cells ?_ ?_
    · have hcells := u32_cells (P := P) xs.length hpad
      simp only [thenFlag, seq, ← hcells]
      simp only [Layout.length, noted, hmod]
    · rw [hlen]
      by_cases hw : p = .wchar
      · subst hw
        rw [hwchar rfl]
        rfl
      · rw [getSerializedMemberSize_unit hw hnone]

/-- The content of a sound member tells its own size where the header does not: if it leaves a flag,
its first word counts what follows in the unit of the flag. -/
theorem layout_counted (hv : P.version = .xcdrV2) : (t : Ty) → (v : t.denote) → t.isEmpty P.version
    = false → t.Sound P .plCdr2 false v → t.NextIntOk v → φ.flag = .noSerializedMemberSize → padTo 4
    φ.pos = 0 → ((layout P t .plCdr2).one v φ).cells.length < 2 ^ 32 →
    ((layout P t .plCdr2).one v φ).Counted P
  | .prim p, v, hne, hs, _, hflag, _, _ => by
    have hsize := AtLeast.one (.inr hv) (.prim p) hne .plCdr2 v hs φ
    exact .of_none ((KeepsFlag.prim p v φ).trans hflag) hsize
  | .string, v, _, _, _, _, hpad, _ => by
    exact .string v hpad
  | .wstring, v, hne, hs, _, hflag, _, _ => by
    have hsize := AtLeast.one (.inr hv) .wstring hne .plCdr2 v hs φ
    simp only [layout, LayoutOverloads.generic] at hsize ⊢
    refine .of_none ?_ hsize
    unfold wstring
    split <;> exact hflag
  | .array t n, v, hne, hs, _, hflag, hpad, _ => by
    have hsize := AtLeast.one (.inr hv) (.array t n) hne .plCdr2 v hs φ
    simp only [layout] at hsize ⊢
    by_cases hmulti : t.isMultiArrayPrimitive
    · simp only [if_pos hmulti] at hsize ⊢
      exact .of_none ((KeepsFlag.many t hmulti _ _ φ).trans hflag) hsize
    · simp only [if_neg hmulti, withDheader, if_pos hv]
      exact .delimited _ hpad
  | .vector t, v, hne, hs, hok, hflag, hpad, hsmall => by
    simp only [layout, LayoutOverloads.generic] at hsmall ⊢
    cases t with
    | prim p =>
      have himage : vector P (.prim p) (layout P (.prim p) .plCdr2).many v =
          sequenceFlag P (getSerializedMemberSize p)
            (seq (Layout.length P v.length) (primArray P p v)) := by
        cases p <;> rfl
      rw [himage] at hsmall ⊢
      refine .primVector hv p v ?_ hpad hsmall
      rintro rfl
      simpa only [Ty.NextIntOk] using hok
    | _ => simpa only [vector, withDheader, if_pos hv] using .delimited _ hpad
  | .map k t, m, _, _, hok, hflag, hpad, _ => by
    simp only [layout, LayoutOverloads.generic]
    by_cases harith : t.isArithmetic
    · have hsize := AtLeast.map (P := P) k t (layout P t .plCdr2).one m φ
      refine .of_none ?_ (by omega)
      obtain ⟨p, rfl⟩ : ∃ p, t = .prim p := by cases t <;> simp_all [Ty.isArithmetic]
      refine (KeepsFlag.seq (.length _) (.all _ fun d hd => ?_) φ).trans hflag
      cases k with
      | prim q => exact .seq (.prim q d.1) (.prim p d.2)
      | string =>
        rw [hok] at hd
        simp at hd
    · simp only [Layout.map, if_neg harith, withDheader, if_pos hv]
      exact .delimited _ hpad
  | .optional t, v, _, hs, hok, hflag, hpad, hsmall => by
    simp only [Ty.Sound, forall_const, Ty.OptionalOk, ne_eq, not_true_eq_false, and_false,
      false_or] at hs
    obtain ⟨⟨hsome, hne⟩, hsound⟩ := hs
    obtain ⟨x, rfl⟩ := Option.isSome_iff_exists.mp hsome
    have hplain : ¬(P.version = .xcdrV2 ∧ EncodingAlgorithmFlag.plCdr2 ≠ .plCdr2) := by simp
    simp only [layout, LayoutOverloads.generic, Layout.optional, if_neg hplain] at hsmall ⊢
    exact layout_counted hv t x hne (hsound x rfl) (hok x rfl) hflag hpad hsmall
  | .struct x ms, v, hne, hs, _, hflag, hpad, _ => by
    have hsize := AtLeast.one (.inr hv) (.struct x ms) hne .plCdr2 v hs φ
    simp only [layout, LayoutOverloads.generic] at hsize ⊢
    cases x with
    | final =>
      refine .of_none ?_ hsize
      simp only [type, hv, fromFlag]
      have hmembers := membersLayout_flag hv .final ms v
        { φ with flag := .noSerializedMemberSize } rfl
      rwa [hv] at hmembers
    | appendable | mutable => simpa only [type, hv] using Piece.Counted.delimited _ hpad

end EasyDds.Cdr
