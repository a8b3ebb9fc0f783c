import EasyDds.Cdr.Decode.Members

/-!
The decoder reads the image of every sound value back, for both versions of XCDR. Each clause
of `deserialize` meets the clause of `layout` for the same type.
-/

namespace EasyDds.Cdr

open Layout List

open Prog

variable {P : Profile} {e : EncodingAlgorithmFlag} {φ : Phase} {fuel : Nat}

mutual

/-- New objects have no old content. -/
theorem Ty.fresh_init : (t : Ty) → t.Fresh t.init
  | .prim _ | .string | .wstring => trivial
  | .array t n => by
    simp only [Ty.Fresh, Ty.init]
    intro y hy
    have hinit : y = t.init := eq_of_mem_replicate (n := n) hy
    rw [hinit]
    exact t.fresh_init
  | .vector _ => fun _ h => absurd h not_mem_nil
  | .map _ _ => fun _ => rfl
  | .optional _ => rfl
  | .struct _ ms => ms.fresh_init

lemma Members.fresh_init : (ms : Members) → ms.Fresh ms.init
  | .nil => trivial
  | .cons _ t ms => ⟨t.fresh_init, ms.fresh_init⟩

end

/-- In XCDRv2 an element of a vector looks as it does on its own. -/
theorem Layout.many_cons {t : Ty} (hok : t.VectorOk .xcdrV2) (hprim : t.isArithmetic = false)
    (v : t.denote) (vs : List t.denote) : SameCells ((layout P t e).many (v :: vs))
      (seq ((layout P t e).one v) ((layout P t e).many vs)) := by
  cases t with
  | prim => simp [Ty.isArithmetic] at hprim
  | array t n =>
    simp only [Ty.VectorOk] at hok
    simp only [layout, flatMap_cons, if_pos hok]
    exact many_append t e v.toList _
  | _ =>
    simp only [layout, LayoutOverloads.generic, all]
    exact fun _ => ⟨rfl, rfl⟩

/-- The decoders of a type read its values, one by one and in arrays. -/
structure Ty.ReadsAll (P : Profile) (fuel : Nat) (e : EncodingAlgorithmFlag) (t : Ty) : Prop where
  one : ∀ v, t.Sound P e true v →
    (t.hasValue v = true ∨ (P.version = .xcdrV2 ∧ e ≠ .plCdr2)) → t.Reads P fuel e v
  many : ∀ (vs xs : List t.denote) (φ : Phase), xs.length = vs.length →
    (∀ v ∈ vs, t.Sound P e false v) → (∀ x ∈ xs, t.Fresh x) →
    ReadsAt P e ((deserialize fuel t).many xs) ((layout P t e).many vs) φ (vs.map t.normal)

section Clauses

variable {t : Ty}

/-- Outside of a structure an optional leaves a trace, its value or the byte that says that there is
none. XCDRv1 and PL_CDR2 have no such byte. -/
theorem Ty.Sound.leaves_trace {v : t.denote} (hs : t.Sound P e false v) :
    t.Sound P e true v ∧ (t.hasValue v = true ∨ (P.version = .xcdrV2 ∧ e ≠ .plCdr2)) := by
  cases t with
  | optional t =>
    simp only [Ty.Sound, forall_const] at hs
    refine ⟨?_, hs.1.symm.imp (fun hsome => hsome.1) id⟩
    simp only [Ty.Sound]
    exact ⟨fun h => absurd h (by decide), hs.2⟩
  | _ => exact ⟨Ty.sound_asMember rfl v false true hs, .inl rfl⟩

lemma Ty.ReadsAll.element (h : t.ReadsAll P fuel e) {v : t.denote}
    (hs : t.Sound P e false v) : t.Reads P fuel e v :=
  h.one v hs.leaves_trace.1 hs.leaves_trace.2

/-- Types without an array overload of their own. -/
theorem generic_reads {one : t.denote → CdrM t.denote} {image : t.denote → Layout}
    (hone : deserialize fuel t = .generic one) (himage : layout P t e = .generic image)
    (h : ∀ v, t.Sound P e true v →
      (t.hasValue v = true ∨ (P.version = .xcdrV2 ∧ e ≠ .plCdr2)) → ∀ x φ, t.Fresh x →
      ReadsAt P e (one x) (image v) φ (t.normal v)) : t.ReadsAll P fuel e where
  one v hs hvalue x φ hx := by
    rw [hone, himage]
    exact h v hs hvalue x φ hx
  many vs xs φ hlen hs hx := by
    rw [hone, himage]
    exact ReadsAt.collect xs vs φ hlen fun x hx' v hv ψ =>
      h v (hs v hv).leaves_trace.1 (hs v hv).leaves_trace.2 x ψ (hx x hx')

lemma deserializeArray_one_reads {n : Nat} (hver : P.IsXcdr)
    (ih : t.ReadsAll P fuel e) (x : List.Vector t.denote n) (v : List.Vector t.denote n)
    (hs : ∀ y ∈ v.toList, t.Sound P e false y) (hx : ∀ y ∈ x.toList, t.Fresh y) :
    ReadsAt P e (deserializeArray t.isMultiArrayPrimitive (deserialize fuel t).many x)
      (if t.isMultiArrayPrimitive then (layout P t e).many v.toList
        else withDheader P ((layout P t e).many v.toList)) φ
      (List.Vector.map t.normal v) := by
  have hblock := ih.many v.toList x.toList φ (by rw [x.toList_length, v.toList_length]) hs hx
  by_cases hplain : P.version = .xcdrV2 ∧ !t.isMultiArrayPrimitive
  · obtain ⟨hv, hmulti⟩ := hplain
    simp only [Bool.not_eq_true'] at hmulti
    simp only [hmulti, Bool.false_eq_true, if_false, withDheader, if_pos hv]
    refine deserializeArray_reads_delimited hv x v (Blank.many_nil t e)
      (fun w ws => many_append t e [w] ws) ?_ fun y hy w hw ψ => ?_
    · cases hempty : t.isFlatEmpty P.version with
      | true => exact .inr ⟨.many t hempty e _, t.eq_of_isFlatEmpty hempty⟩
      | false =>
        exact .inl fun w hw => AtLeast.many hver t hempty e [w] (forall_mem_singleton.mpr (hs w hw))
    · exact ih.many [w] [y] ψ rfl (forall_mem_singleton.mpr (hs w hw))
        (forall_mem_singleton.mpr (hx y hy))
  · have hlayout : (if t.isMultiArrayPrimitive then (layout P t e).many v.toList
        else withDheader P ((layout P t e).many v.toList)) = (layout P t e).many v.toList := by
      unfold withDheader
      split
      · rfl
      · rw [if_neg (by simp_all)]
    rw [hlayout]
    exact deserializeArray_reads hplain x v hblock

lemma deserializeArray_many_reads {n : Nat} (ih : t.ReadsAll P fuel e)
    (xs vs : List (List.Vector t.denote n)) (hlen : xs.length = vs.length)
    (hs : ∀ v ∈ vs, ∀ y ∈ v.toList, t.Sound P e false y)
    (hx : ∀ x ∈ xs, ∀ y ∈ x.toList, t.Fresh y) : ReadsAt P e (do
        let l ← (deserialize fuel t).many (xs.flatMap fun x => x.toList)
        pure (regroup xs l))
      ((layout P t e).many (vs.flatMap fun v => v.toList)) φ
      (vs.map (List.Vector.map t.normal)) := by
  have hflat : (xs.flatMap fun x => x.toList).length = (vs.flatMap fun v => v.toList).length := by
    simp [length_flatMap, hlen]
  have hblock := ih.many (vs.flatMap fun v => v.toList) (xs.flatMap fun x => x.toList) φ hflat
    (fun y hy => by
      obtain ⟨v, hv, hy⟩ := mem_flatMap.mp hy
      exact hs v hv y hy)
    (fun y hy => by
      obtain ⟨x, hx', hy⟩ := mem_flatMap.mp hy
      exact hx x hx' y hy)
  rw [← regroup_flatMap xs vs hlen t.normal]
  exact hblock.map (regroup xs)

lemma deserializeBlock_reads (hver : P.IsXcdr)
    (ih : t.ReadsAll P fuel e) (x vs : List t.denote)
    (hcount : vs = [] ∨ t.isFlatEmpty P.version = false)
    (hs : ∀ v ∈ vs, t.Sound P e false v) (hx : ∀ y ∈ x, t.Fresh y) :
    ReadsAt P e (deserializeBlockVector t.init (deserialize fuel t).many x)
      (seq (length P vs.length) ((layout P t e).many vs)) φ
      ((vs.take (vs.length % 2 ^ 32)).map t.normal) := by
  refine deserializeBlockVector_reads x vs ?_ (Blank.many_nil t e) fun xs hlen hmem ψ => ?_
  · rcases hcount with rfl | hcount
    · exact fun _ => Nat.zero_le _
    · exact AtLeast.many hver t hcount e vs hs
  · refine ih.many vs xs ψ hlen hs fun y hy => ?_
    rcases hmem y hy with hy | rfl
    · exact hx y hy
    · exact t.fresh_init

lemma deserializeObjects_reads (hver : P.IsXcdr)
    (hprim : t.isArithmetic = false) (ih : t.ReadsAll P fuel e) (x vs : List t.denote)
    (hok : vs = [] ∨ t.VectorOk P.version) (hs : ∀ v ∈ vs, t.Sound P e false v)
    (hx : ∀ y ∈ x, t.Fresh y) : ReadsAt P e (deserializeObjectVector t.init (deserialize fuel t).one
        (deserialize fuel t).many x)
      (withDheader P (seq (length P vs.length) ((layout P t e).many vs))) φ
      ((vs.take (vs.length % 2 ^ 32)).map t.normal) := by
  rcases hver with hv | hv
  · have hne : ¬P.version = .xcdrV2 := by simp [hv]
    rw [withDheader, if_neg hne]
    refine ReadsAt.read fun s hr _ => ?_
    rw [if_neg (hr.version ▸ hne)]
    refine deserializeBlock_reads (.inl hv) ih x vs ?_ hs hx
    simpa only [Ty.VectorOk, hv] using hok
  · rw [withDheader, if_pos hv]
    rw [hv] at hok
    -- an empty vector says nothing about its elements, so their kind only matters otherwise
    rcases hok with rfl | hok
    · exact deserializeObjectVector_reads hv x [] (Blank.many_nil t e)
        (fun v vs => many_append t e [v] vs) (.inl fun _ h => absurd h not_mem_nil)
        fun _ _ _ h => absurd h not_mem_nil
    · refine deserializeObjectVector_reads hv x vs (Blank.many_nil t e)
        (many_cons hok hprim) ?_ fun y hy v hv ψ => ?_
      · cases hempty : t.isEmpty P.version with
        | true =>
          have hflat := Ty.isFlatEmpty_of_isEmpty hempty
          exact .inr ⟨.many t hflat e vs, t.eq_of_isFlatEmpty hflat⟩
        | false => exact .inl fun v hv' => AtLeast.one (.inr hv) t hempty e v (hs v hv')
      · refine ih.element (hs v hv) y ψ ?_
        rcases hy with hy | rfl
        · exact hx y hy
        · exact t.fresh_init

lemma deserializeVector_reads (hver : P.IsXcdr)
    (ih : t.ReadsAll P fuel e) (x vs : List t.denote) (hok : vs = [] ∨ t.VectorOk P.version)
    (hs : ∀ v ∈ vs, t.Sound P e false v) (hx : ∀ y ∈ x, t.Fresh y) : ReadsAt P e
    (deserializeVector t (deserialize fuel t) x)
      (vector P t (layout P t e).many vs) φ
      ((vs.take (vs.length % 2 ^ 32)).map t.normal) := by
  cases t with
  | prim p =>
    by_cases hbool : p = .bool
    · subst hbool
      simpa only [deserializeVector, vector, Ty.normal] using
        (deserializeBoolSequence_reads vs).sequenceFlag _
    · have hblock := deserializeBlock_reads (φ := φ) hver ih x vs (.inr rfl) hs hx
      simp only [layout, Ty.init] at hblock
      cases p <;> first
        | exact absurd rfl hbool
        | exact hblock.sequenceFlag _
  | _ => exact deserializeObjects_reads hver rfl ih x vs hok hs hx

/-- A structure, from what is known of its members. -/
theorem deserializeStruct_reads (hver : P.IsXcdr)
    {x : Extensibility} {ms : Members} (hheaders : ms.HeadersOk P x) (hnodup : ms.ids.Nodup)
    (hlen : ms.length < 2 ^ 32) (hfuel : ms.length < fuel) {v y : ms.denote} (hs : ms.Sound P x v)
    (hread : ms.Reads P fuel (x.encoding P.version) v) (hy : ms.Fresh y) : ReadsAt P e (do
        let encoding := x.encoding (← read).cdrVersion
        deserializeType fuel
          (fun mid => deserializeMembers fuel encoding.namesMembers ms 0 mid.id) encoding y)
      (type P x (membersLayout P ms (x.encoding P.version) v)) φ (ms.normal v) := by
  refine ReadsAt.read fun s hr _ => ?_
  rw [hr.version]
  dsimp only
  have hserves := deserializeMembers_serves fuel (x.encoding P.version).namesMembers ms
  generalize (fun mid : MemberId => deserializeMembers fuel
    (x.encoding P.version).namesMembers ms 0 mid.id) = functor at hserves ⊢
  have hinOrder : (x.encoding P.version).namesMembers = false → ∀ ψ,
      InOrder P (x.encoding P.version) functor ms.length 0 ψ
        (membersLayout P ms (x.encoding P.version) v) y (ms.normal v) := fun hpos ψ => by
    rw [hpos] at hserves
    exact ms.inOrder hver hpos v hs hread id 0 ψ y hserves hy (by omega)
  refine ReadsAt.read fun s hr _ => ?_
  rw [hr.version]
  rcases hver with hv | hv
  · simp only [hv, type] at hserves hinOrder hread ⊢
    cases x with
    | mutable =>
      exact xcdr1DeserializeType_reads_pl hv (ms.named1 hv hnodup v hread id 0 φ y hserves hy) hfuel
    | final | appendable => exact xcdr1DeserializeType_reads (by decide) (hinOrder rfl φ) hfuel hlen
  · simp only [hv, type] at hserves hinOrder hread ⊢
    cases x with
    | mutable =>
      exact xcdr2DeserializeType_reads_pl hv (fun ψ hψ =>
        ms.named2 hv hnodup hheaders v hs hread id 0 ψ y hserves hy hψ) hfuel
    | final => exact xcdr2DeserializeType_reads (hinOrder rfl _) hfuel hlen
    | appendable =>
      exact xcdr2DeserializeType_reads_delimit hv (fun ψ _ => hinOrder rfl ψ) hfuel hlen

end Clauses

mutual

/-- The decoder reads back the image of every sound value. By recursion over the type, for single
values and for C arrays at once, since an array of arrays is one block. -/
theorem deserialize_reads (hver : P.IsXcdr) : (t : Ty) →
    t.HeadersOk P → t.Distinct → t.rounds ≤ fuel → ∀ e, t.ReadsAll P fuel e
  | .prim p, _, _, _ => fun e => by
    refine ⟨fun v _ _ x φ _ => ?_, fun vs xs φ hlen _ _ => ?_⟩
    · simp only [deserialize, layout, Ty.normal]
      exact deserializePrim_reads p v
    · simp only [deserialize, layout]
      exact deserializePrimArray_reads p xs vs hlen
  | .string, _, _, _ => fun e =>
    generic_reads rfl rfl fun v _ _ _ _ _ => deserializeString_reads v
  | .wstring, _, _, _ => fun e =>
    generic_reads rfl rfl fun v _ _ _ _ _ => deserializeWstring_reads v
  | .array t n, hheaders, hdistinct, hfuel => fun e => by
    have ih := deserialize_reads hver t hheaders hdistinct hfuel e
    refine ⟨fun v hs _ x φ hx => ?_, fun vs xs φ hlen hs hx => ?_⟩
    · simp only [deserialize, layout, Ty.normal]
      exact deserializeArray_one_reads hver ih x v hs hx
    · simp only [deserialize, layout]
      exact deserializeArray_many_reads ih xs vs hlen hs hx
  | .vector t, hheaders, hdistinct, hfuel => fun e => by
    have ih := deserialize_reads hver t hheaders hdistinct hfuel e
    refine generic_reads (by rw [deserialize]) (by rw [layout]) fun v hs _ x φ hx => ?_
    simp only [Ty.Sound] at hs
    exact deserializeVector_reads hver ih x v hs.1 hs.2 hx
  | .map k t, hheaders, hdistinct, hfuel => fun e => by
    have ih := deserialize_reads hver t hheaders hdistinct hfuel e
    refine generic_reads (by rw [deserialize]) (by rw [layout]) fun m hs _ x φ hx => ?_
    simp only [Ty.Sound] at hs
    exact deserializeMap_reads x m hx fun d hd ψ => ih.element (hs d hd) _ ψ t.fresh_init
  | .optional t, hheaders, hdistinct, hfuel => fun e => by
    have ih := deserialize_reads hver t hheaders hdistinct hfuel e
    refine generic_reads (by rw [deserialize]) (by rw [layout]) fun v hs hvalue x φ _ => ?_
    simp only [Ty.Sound] at hs
    exact deserializeOptional_reads v hvalue.symm fun w hw ψ =>
      ih.element (hs.2 w hw) _ ψ t.fresh_init
  | .struct x ms, hheaders, hdistinct, hfuel => fun e => by
    simp only [Ty.Distinct] at hdistinct
    simp only [Ty.rounds] at hfuel
    refine generic_reads (by rw [deserialize]) (by rw [layout]) fun v hs _ y φ hy => ?_
    simp only [Ty.Sound] at hs
    exact deserializeStruct_reads hver hheaders hdistinct.1 hdistinct.2.1 (by omega) hs
      (deserializeMembers_reads hver ms x hheaders hdistinct.2.2 (by omega) v hs) hy

lemma deserializeMembers_reads (hver : P.IsXcdr) :
    (ms : Members) → (x : Extensibility) → ms.HeadersOk P x → ms.Distinct →
    ms.rounds ≤ fuel → ∀ v, ms.Sound P x v → ms.Reads P fuel (x.encoding P.version) v
  | .nil, _, _, _, _ => fun _ _ => trivial
  | .cons m t ms, x, hheaders, hdistinct, hfuel => fun v hs => by
    simp only [Members.HeadersOk] at hheaders
    simp only [Members.Distinct] at hdistinct
    simp only [Members.rounds] at hfuel
    simp only [Members.Sound] at hs
    have ih := deserialize_reads hver t hheaders.2.1 hdistinct.1 (by omega) (x.encoding P.version)
    exact ⟨ih.one v.1 hs.2.1,
      deserializeMembers_reads hver ms x hheaders.2.2 hdistinct.2 (by omega) v.2 hs.2.2⟩

end

end EasyDds.Cdr
