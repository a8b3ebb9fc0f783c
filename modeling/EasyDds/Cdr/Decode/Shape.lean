import EasyDds.Cdr.Decode.Spec

/-!
How long images are. A type is empty when its image has no bytes whatever the value; then it
has only one value, and a decoder that stops before it has nothing to lose.
-/

namespace EasyDds.Cdr

open LayoutOverloads List

open Layout

variable {P : Profile} {e : EncodingAlgorithmFlag}

def Layout.Blank (P : Profile) (L : Layout) : Prop :=
  ∀ φ, φ.pos < P.align64 → (L φ).cells = [] ∧ (L φ).next.pos = φ.pos ∧ (L φ).pads = []

def Layout.AtLeast (n : Nat) (L : Layout) : Prop := ∀ φ, n ≤ (L φ).cells.length

lemma Layout.Blank.empty : Blank P empty := fun _ _ => ⟨rfl, rfl, rfl⟩

variable {a b : Layout} {α : Type} {n : Nat} {version : CdrVersion} {t : Ty} {x : Extensibility}

lemma Layout.Blank.seq (ha : Blank P a) (hb : Blank P b) : Blank P (Layout.seq a b) := by
  intro φ hφ
  obtain ⟨hcells, hpos, hpads⟩ := ha φ hφ
  obtain ⟨hcells', hpos', hpads'⟩ := hb (a φ).next (by rwa [hpos])
  exact ⟨by simp [Layout.seq, hcells, hcells'], by simp [Layout.seq, hpos', hpos],
    by simp [Layout.seq, hpads, hpads']⟩

lemma Layout.Blank.all {f : α → Layout} :
    ∀ xs : List α, (∀ x ∈ xs, Blank P (f x)) → Blank P (all f xs)
  | [], _ => .empty
  | x :: xs, h => (h x (mem_cons_self ..)).seq (Blank.all xs fun y hy => h y (mem_cons_of_mem _ hy))

lemma Layout.Blank.thenFlag (h : Blank P a) (f : SerializedMemberSizeForNextInt) :
    Blank P (thenFlag f a) := h

lemma Layout.Blank.fromFlag (h : Blank P a) (f : SerializedMemberSizeForNextInt) :
    Blank P (fromFlag f a) :=
  fun φ hφ => h { φ with flag := f } hφ

lemma Layout.Blank.primArray (p : Prim) : Blank P (Layout.primArray P p []) := by
  intro φ hφ
  by_cases hp : p.wireSize = 1
  · simp [Layout.primArray, hp, raw, advance, Nat.mod_eq_of_lt hφ]
  · simp [Layout.primArray, hp, Layout.empty]

lemma Layout.AtLeast.left (h : AtLeast n a) : AtLeast n (seq a b) := by
  intro φ
  have := h φ
  simp only [seq, length_append]
  omega

lemma Layout.AtLeast.right (h : AtLeast n b) : AtLeast n (seq a b) := by
  intro φ
  have := h (a φ).next
  simp only [seq, length_append]
  omega

lemma Layout.AtLeast.seq {m : Nat} (ha : AtLeast m a) (hb : AtLeast n b) :
    AtLeast (m + n) (Layout.seq a b) := by
  intro φ
  have := ha φ
  have := hb (a φ).next
  simp only [Layout.seq, length_append]
  omega

lemma Layout.AtLeast.all {f : α → Layout} : ∀ xs : List α, (∀ x ∈ xs, AtLeast 1 (f x)) →
      AtLeast xs.length (all f xs)
  | [], _ => fun _ => Nat.zero_le _
  | x :: xs, h => by
    rw [length_cons, Nat.add_comm]
    exact (h x (mem_cons_self ..)).seq (AtLeast.all xs fun y hy => h y (mem_cons_of_mem _ hy))

lemma Layout.AtLeast.raw (bs : List UInt8) : AtLeast bs.length (Layout.raw P bs) := by
  intro φ
  simp [Layout.raw]

lemma Layout.AtLeast.aligned (n : Nat) (bs : List UInt8) :
    AtLeast bs.length (Layout.aligned P n bs) := by
  intro φ
  simp [Layout.aligned]

lemma Layout.AtLeast.u32 (x : Nat) : AtLeast 4 (u32 P x) := by
  have h := AtLeast.aligned (P := P) 4 (wordBytes P.swap 4 x)
  rwa [length_wordBytes] at h

lemma Layout.AtLeast.noted (h : AtLeast n a) (k : Nat) : AtLeast n (noted k a) := h

lemma Layout.AtLeast.thenFlag (h : AtLeast n a) (f : SerializedMemberSizeForNextInt) :
    AtLeast n (thenFlag f a) := h

lemma Layout.AtLeast.fromFlag (h : AtLeast n a) (f : SerializedMemberSizeForNextInt) :
    AtLeast n (fromFlag f a) :=
  fun φ => h { φ with flag := f }

lemma Layout.AtLeast.mono {m : Nat} (h : AtLeast n a) (hle : m ≤ n) :
    AtLeast m a := fun φ => hle.trans (h φ)

lemma Layout.AtLeast.delimited (a : Layout) : AtLeast 4 (Layout.delimited P a) := by
  intro φ
  simp [Layout.delimited]
  omega

lemma Layout.AtLeast.length (n : Nat) : AtLeast 4 (length P n) :=
  (AtLeast.u32 _).noted 4

lemma Layout.AtLeast.sequenceFlag (h : AtLeast n a) (f : SerializedMemberSizeForNextInt) :
    AtLeast n (Layout.sequenceFlag P f a) := by
  unfold Layout.sequenceFlag
  split
  · exact h.thenFlag f
  · exact h

lemma Layout.AtLeast.withDheader (h : AtLeast 4 a) : AtLeast 4 (Layout.withDheader P a) := by
  unfold Layout.withDheader
  split
  · exact .delimited a
  · exact h

lemma Prim.wireSize_pos (p : Prim) : 0 < p.wireSize := by cases p <;> decide

lemma Layout.AtLeast.prim (p : Prim) (x : p.denote) : AtLeast 1 (Layout.prim P p x) := by
  unfold Layout.prim
  split
  · exact AtLeast.raw [UInt8.ofNat (p.toWire x)]
  · have h := AtLeast.aligned (P := P) (p.alignOf P.align64)
      (wordBytes P.swap p.wireSize (p.toWire x))
    rw [length_wordBytes] at h
    exact (h.mono p.wireSize_pos).noted _

lemma Layout.AtLeast.primArray (p : Prim) (xs : List p.denote) :
    AtLeast xs.length (Layout.primArray P p xs) := by
  unfold Layout.primArray
  split
  · have h := AtLeast.raw (P := P) (xs.map fun x => UInt8.ofNat (p.toWire x))
    rwa [length_map] at h
  · split
    case isTrue hx => exact fun φ => by simp [hx]
    case isFalse =>
      have h := AtLeast.aligned (P := P) (p.alignOf P.align64)
        ((xs.map p.toWire).flatMap (wordBytes P.swap p.wireSize))
      rw [length_flatMap_wordBytes, length_map] at h
      exact (h.mono (Nat.le_mul_of_pos_left _ p.wireSize_pos)).noted _

lemma Layout.AtLeast.string (v : List UInt8) : AtLeast 4 (string P v) :=
  (((AtLeast.u32 _).noted 4).left).thenFlag _

lemma Layout.AtLeast.wstring (v : List (BitVec 32)) : AtLeast 4 (Layout.wstring P v) := by
  unfold Layout.wstring
  split
  · exact (AtLeast.u32 _).noted 4
  · exact ((AtLeast.u32 _).noted 4).left

lemma Layout.AtLeast.vector (t : Ty) (many : List t.denote → Layout) (v : List t.denote) :
    Layout.AtLeast 4 (Layout.vector P t many v) := by
  have hlength : ∀ a, Layout.AtLeast 4 (Layout.seq (Layout.length P v.length) a) :=
    fun a => (AtLeast.length _).left
  unfold Layout.vector
  split
  · exact (hlength _).sequenceFlag _
  · exact (hlength _).sequenceFlag _
  · exact (hlength _).withDheader

lemma Layout.AtLeast.map (k : KeyTy) (t : Ty) (one : t.denote → Layout)
    (m : OrderedMap k.rank t.denote) : AtLeast 4 (Layout.map P k t one m) := by
  unfold Layout.map
  split
  · exact (AtLeast.length _).left
  · exact (AtLeast.length _).left.withDheader

lemma Layout.AtLeast.key (k : KeyTy) (x : k.denote) : AtLeast 1 (key P k x) := by
  cases k with
  | prim p => exact .prim p x
  | string => exact (AtLeast.string x).mono (by decide)

lemma Ty.isFlatEmpty_of_isEmpty (h : t.isEmpty version = true) : t.isFlatEmpty version = true := by
  cases t <;> simp_all [Ty.isEmpty, Ty.isFlatEmpty]

mutual

/-- An empty type has one value, so it does not matter that its decoder reads nothing. -/
theorem Ty.eq_of_isFlatEmpty : (t : Ty) → t.isFlatEmpty version = true → ∀ x y : t.denote, x = y
  | .prim _, h | .string, h | .wstring, h | .vector _, h | .map _ _, h | .optional _, h => by
    simp [Ty.isFlatEmpty] at h
  | .array t n, h => by
    intro x y
    refine List.Vector.ext fun i => ?_
    simp only [Ty.isFlatEmpty, Bool.or_eq_true, decide_eq_true_eq] at h
    rcases h with rfl | h
    · exact i.elim0
    · exact Ty.eq_of_isFlatEmpty t h _ _
  | .struct _ ms, h => by
    simp only [Ty.isFlatEmpty, Bool.and_eq_true] at h
    exact Members.eq_of_isEmpty ms h.2

lemma Members.eq_of_isEmpty : (ms : Members) → ms.isEmpty version = true → ∀ x y : ms.denote, x = y
  | .nil, _ => fun _ _ => rfl
  | .cons _ t ms, h => by
    simp only [Members.isEmpty, Bool.and_eq_true] at h
    intro x y
    exact Prod.ext (Ty.eq_of_isFlatEmpty t (Ty.isFlatEmpty_of_isEmpty h.1) _ _)
      (Members.eq_of_isEmpty ms h.2 _ _)

end

lemma Ty.not_isOptional_of_isEmpty (h : t.isEmpty version = true) : t.isOptional = false := by
  cases t <;> simp_all [Ty.isEmpty, Ty.isOptional]

lemma Ty.hasValue_of_not_isOptional (h : t.isOptional = false) (v : t.denote) :
    t.hasValue v = true := by
  cases t <;> first | rfl | simp [Ty.isOptional] at h

lemma Layout.Blank.type (hx : x.isBare P.version = true) (h : Blank P a) :
    Blank P (Layout.type P x a) := by
  unfold Layout.type
  unfold Extensibility.isBare at hx
  rcases hv : P.version with _ | _ | _ | _ <;> simp only [hv] at hx ⊢
  case xcdrV2 =>
    obtain rfl : x = .final := by simpa using hx
    exact h.fromFlag _
  case xcdrV1 =>
    cases x with
    | mutable => simp at hx
    | final => exact h
    | appendable => exact h
  all_goals exact h

lemma Extensibility.positional_of_isBare (h : x.isBare version = true) :
    (x.encoding version).namesMembers = false := by
  cases version <;> cases x <;> first | rfl | simp [Extensibility.isBare] at h

lemma EncodingAlgorithmFlag.ne_of_positional
    (h : e.namesMembers = false) : e ≠ .plCdr ∧ e ≠ .plCdr2 := by
  cases e <;> simp_all [EncodingAlgorithmFlag.namesMembers]

lemma Layout.Blank.member {m : MemberInfo} (he : e.namesMembers = false)
    (h : Blank P a) : Blank P (Layout.member P e m false true a) := by
  obtain ⟨hpl, hpl2⟩ := EncodingAlgorithmFlag.ne_of_positional he
  unfold Layout.member
  rcases P.version with _ | _ | _ | _
  case xcdrV2 =>
    simp only [if_neg hpl2]
    exact h.thenFlag _
  case xcdrV1 =>
    simp only [if_neg hpl, Bool.false_eq_true, if_false]
    exact h
  all_goals exact h

mutual

lemma Layout.Blank.many : (t : Ty) → t.isFlatEmpty P.version = true →
    ∀ e vs, Blank P ((layout P t e).many vs)
  | .prim _, h | .string, h | .wstring, h | .vector _, h | .map _ _, h | .optional _, h => by
    simp [Ty.isFlatEmpty] at h
  | .array t n, h => by
    intro e vs
    simp only [Ty.isFlatEmpty, Bool.or_eq_true, decide_eq_true_eq] at h
    simp only [layout]
    rcases h with rfl | h
    · have hnil : (vs.flatMap fun v => v.toList) = [] := by
        rw [flatMap_eq_nil_iff]
        exact fun v _ => length_eq_zero_iff.mp v.toList_length
      rw [hnil]
      exact Blank.many_nil t e
    · exact Blank.many t h e _
  | .struct x ms, h => by
    intro e vs
    simp only [Ty.isFlatEmpty, Bool.and_eq_true] at h
    simp only [layout, generic]
    exact .all vs fun v _ => (Blank.members ms h.2 _
      (Extensibility.positional_of_isBare h.1) v).type h.1

lemma Layout.Blank.many_nil : (t : Ty) → ∀ e, Blank P ((layout P t e).many [])
  | .prim p => fun _ => by
    simp only [layout]
    exact .primArray p
  | .array t _ => fun e => by
    simp only [layout, flatMap_nil]
    exact Blank.many_nil t e
  | .string | .wstring | .vector _ | .map _ _ | .optional _ | .struct _ _ => fun _ => by
    simp only [layout, generic]
    exact .empty

lemma Layout.Blank.one : (t : Ty) → t.isEmpty P.version = true →
    ∀ e v, Blank P ((layout P t e).one v)
  | .prim _, h | .string, h | .wstring, h | .vector _, h | .map _ _, h | .optional _, h => by
    simp [Ty.isEmpty] at h
  | .array t n, h => by
    intro e v
    have hflat := Blank.many (.array t n) (Ty.isFlatEmpty_of_isEmpty h) e [v]
    simp only [Ty.isEmpty, Bool.and_eq_true, Bool.or_eq_true, decide_eq_true_eq] at h
    simp only [layout, flatMap_cons, flatMap_nil, append_nil] at hflat ⊢
    split
    · exact hflat
    case isFalse hmulti =>
      have hver : ¬P.version = .xcdrV2 := h.1.resolve_right hmulti
      simp only [withDheader, if_neg hver]
      exact hflat
  | .struct x ms, h => by
    intro e v
    simp only [Ty.isEmpty, Bool.and_eq_true] at h
    simp only [layout, generic]
    exact (Blank.members ms h.2 _ (Extensibility.positional_of_isBare h.1) v).type h.1

lemma Layout.Blank.members : (ms : Members) → ms.isEmpty P.version = true →
    ∀ e : EncodingAlgorithmFlag, e.namesMembers = false → ∀ v,
      Blank P (membersLayout P ms e v)
  | .nil, _ => fun _ _ _ => by
    simp only [membersLayout]
    exact .empty
  | .cons m t ms, h => fun e he v => by
    simp only [Members.isEmpty, Bool.and_eq_true] at h
    have hopt := Ty.not_isOptional_of_isEmpty h.1
    simp only [membersLayout, hopt, Ty.hasValue_of_not_isOptional hopt]
    exact (Blank.one t h.1 _ v.1).member he |>.seq (Blank.members ms h.2 e he v.2)

end

lemma Ty.sound_asMember (h : t.isOptional = false) (v : t.denote) (b c : Bool) :
    t.Sound P e b v → t.Sound P e c v := by
  cases t <;> simp_all [Ty.Sound, Ty.isOptional]

lemma Layout.AtLeast.sentinel : AtLeast 4 (Layout.sentinel P) := by
  have h := AtLeast.aligned (P := P) 4
    (wordBytes P.swap 2 pidSentinel ++ wordBytes P.swap 2 pidSentinelLength)
  simpa [Layout.sentinel] using h

lemma Layout.AtLeast.type (h : x.isBare P.version = true → AtLeast 1 a) :
    AtLeast 1 (Layout.type P x a) := by
  unfold Layout.type
  unfold Extensibility.isBare at h
  rcases hv : P.version with _ | _ | _ | _ <;> simp only [hv] at h ⊢
  case xcdrV2 =>
    cases x with
    | final => exact (h rfl).fromFlag _
    | appendable | mutable => exact (AtLeast.delimited _).mono (by decide)
  case xcdrV1 =>
    cases x with
    | mutable => exact (AtLeast.sentinel.mono (by decide)).right
    | final => exact h rfl
    | appendable => exact h rfl
  all_goals exact h trivial

lemma Layout.AtLeast.header (m : MemberInfo) (short : Bool) (n pad : Nat)
    (cells : List (Option UInt8)) : 1 ≤ (replicate pad none ++
      (header1 P m short n).map some ++ cells).length := by
  have h := header1_length P m short n
  simp only [length_append, length_replicate, length_map, h]
  split <;> omega

lemma Layout.AtLeast.member1 (m : MemberInfo) (a : Layout) :
    AtLeast 1 (member1 P m a) := fun _ => AtLeast.header ..

lemma Layout.AtLeast.absent1 (m : MemberInfo) : AtLeast 1 (absent1 P m) := by
  intro φ
  have h := AtLeast.header (P := P) m (startsShort m) 0 (padTo 4 φ.pos) []
  rwa [append_nil] at h

/-- A member that is known by its position takes bytes when its content does, or when it is
optional. -/
theorem Layout.AtLeast.member {m : MemberInfo} {v : t.denote}
    (hver : P.IsXcdr) (he : e.namesMembers = false)
    (h : t.isOptional = false → AtLeast 1 ((layout P t e).one v)) :
    AtLeast 1 (Layout.member P e m t.isOptional (t.hasValue v)
      ((layout P t e).one v)) := by
  obtain ⟨hpl, hpl2⟩ := EncodingAlgorithmFlag.ne_of_positional he
  rcases hver with hv | hv
  · simp only [Layout.member, hv, if_neg hpl] at h ⊢
    cases hopt : t.isOptional with
    | false => simpa using h hopt
    | true =>
      rw [if_pos rfl]
      split
      · exact AtLeast.member1 m _
      · exact (AtLeast.absent1 m).left
  · simp only [Layout.member, hv, if_neg hpl2] at h ⊢
    refine AtLeast.thenFlag ?_ _
    cases hopt : t.isOptional with
    | false => exact h hopt
    | true =>
      cases t <;> simp only [Ty.isOptional, Bool.false_eq_true] at hopt
      simp only [layout, generic, optional, hv, true_and, ne_eq, hpl2, not_false_eq_true, if_true]
      exact (AtLeast.raw [_]).left

mutual

lemma Layout.AtLeast.many (hver : P.IsXcdr) : (t : Ty) →
    t.isFlatEmpty P.version = false → ∀ e vs, (∀ v ∈ vs, t.Sound P e false v) →
      AtLeast vs.length ((layout P t e).many vs)
  | .prim p, _ => fun _ vs _ => by
    simp only [layout]
    exact .primArray p vs
  | .array t n, h => fun e vs hs => by
    simp only [Ty.isFlatEmpty, Bool.or_eq_false_iff, decide_eq_false_iff_not] at h
    simp only [layout]
    refine (AtLeast.many hver t h.2 e _ fun x hx => ?_).mono ?_
    · obtain ⟨v, hv, hx⟩ := mem_flatMap.mp hx
      have hsound := hs v hv
      simp only [Ty.Sound] at hsound
      exact hsound x hx
    · rw [length_flatMap]
      simp only [List.Vector.toList_length, map_const', sum_replicate_nat]
      exact Nat.le_mul_of_pos_right _ (Nat.pos_of_ne_zero h.1)
  | .string, _ => fun _ vs _ => by
    simp only [layout, generic]
    exact .all vs fun v _ => (AtLeast.string v).mono (by decide)
  | .wstring, _ => fun _ vs _ => by
    simp only [layout, generic]
    exact .all vs fun v _ => (AtLeast.wstring v).mono (by decide)
  | .vector t, _ => fun e vs _ => by
    simp only [layout, generic]
    exact .all vs fun v _ => (AtLeast.vector t _ v).mono (by decide)
  | .map k t, _ => fun e vs _ => by
    simp only [layout, generic]
    exact .all vs fun v _ => (AtLeast.map k t _ v).mono (by decide)
  | .optional t, h => fun e vs hs => by
    have hone := fun v hv => AtLeast.one hver (.optional t) (by simp [Ty.isEmpty]) e v (hs v hv)
    simp only [layout, generic] at hone ⊢
    exact .all vs hone
  | .struct x ms, h => fun e vs hs => by
    have hone := fun v hv => AtLeast.one hver (.struct x ms)
      (by simpa only [Ty.isEmpty, Ty.isFlatEmpty] using h) e v (hs v hv)
    simp only [layout, generic] at hone ⊢
    exact .all vs hone

lemma Layout.AtLeast.one (hver : P.IsXcdr) : (t : Ty) →
    t.isEmpty P.version = false → ∀ e v, t.Sound P e false v →
      AtLeast 1 ((layout P t e).one v)
  | .prim p, _ => fun _ v _ => by
    simp only [layout]
    exact .prim p v
  | .string, _ => fun _ v _ => by
    simp only [layout, generic]
    exact (AtLeast.string v).mono (by decide)
  | .wstring, _ => fun _ v _ => by
    simp only [layout, generic]
    exact (AtLeast.wstring v).mono (by decide)
  | .vector t, _ => fun e v _ => by
    simp only [layout, generic]
    exact (AtLeast.vector t _ v).mono (by decide)
  | .map k t, _ => fun e v _ => by
    simp only [layout, generic]
    exact (AtLeast.map k t _ v).mono (by decide)
  | .array t n, h => fun e v hs => by
    have hmany : (n = 0 || t.isFlatEmpty P.version) = false →
        AtLeast 1 ((layout P t e).many v.toList) := fun hflat => by
      simp only [Bool.or_eq_false_iff, decide_eq_false_iff_not] at hflat
      have hsound := hs
      simp only [Ty.Sound] at hsound
      have hlen := AtLeast.many hver t hflat.2 e v.toList hsound
      rw [List.Vector.toList_length] at hlen
      exact hlen.mono (Nat.pos_of_ne_zero hflat.1)
    simp only [Ty.isEmpty] at h
    simp only [layout]
    split
    case isTrue hmulti =>
      rw [hmulti, Bool.or_true, Bool.true_and] at h
      exact hmany h
    case isFalse hmulti =>
      unfold Layout.withDheader
      split
      · exact (AtLeast.delimited _).mono (by decide)
      case isFalse hv =>
        simp only [ne_eq, hv, not_false_eq_true, decide_true, Bool.true_or, Bool.true_and] at h
        exact hmany h
  | .optional t, _ => fun e v hs => by
    simp only [Ty.Sound, forall_const] at hs
    obtain ⟨hflag | ⟨hsome, hne⟩, hsound⟩ := hs
    · simp only [layout, generic, optional, if_pos hflag]
      exact (AtLeast.raw [_]).left
    · obtain ⟨x, rfl⟩ := Option.isSome_iff_exists.mp hsome
      simp only [layout, generic, optional]
      exact (AtLeast.one hver t hne e x (hsound x rfl)).right
  | .struct x ms, h => fun e v hs => by
    simp only [Ty.Sound] at hs
    simp only [Ty.isEmpty] at h
    simp only [layout, generic]
    refine AtLeast.type fun hx => ?_
    rw [hx, Bool.true_and] at h
    exact AtLeast.members hver ms h x (Extensibility.positional_of_isBare hx) v hs

lemma Layout.AtLeast.members (hver : P.IsXcdr) :
    (ms : Members) → ms.isEmpty P.version = false → ∀ x : Extensibility,
      (x.encoding P.version).namesMembers = false → ∀ v, ms.Sound P x v →
      AtLeast 1 (membersLayout P ms (x.encoding P.version) v)
  | .nil, h => by simp [Members.isEmpty] at h
  | .cons m t ms, h => fun x hx v hs => by
    simp only [Members.Sound] at hs
    simp only [membersLayout]
    simp only [Members.isEmpty, Bool.and_eq_false_iff] at h
    rcases h with h | h
    · refine (AtLeast.member hver hx fun hopt => ?_).left
      exact AtLeast.one hver t h _ v.1 (Ty.sound_asMember hopt _ _ _ hs.2.1)
    · exact (AtLeast.members hver ms h x hx v.2 hs.2.2).right

end

def Layout.SameCells (L M : Layout) : Prop :=
  ∀ φ, (L φ).cells = (M φ).cells ∧ (L φ).next = (M φ).next

lemma Layout.seq_assoc (a b c : Layout) : seq (seq a b) c = seq a (seq b c) := by
  funext φ
  simp only [seq, append_assoc, length_append, Piece.mk.injEq, true_and]
  omega

lemma Layout.empty_seq (a : Layout) : SameCells (seq empty a) a :=
  fun _ => ⟨rfl, rfl⟩

lemma Layout.SameCells.symm (h : SameCells a b) :
    SameCells b a := fun φ => ⟨(h φ).1.symm, (h φ).2.symm⟩

lemma Layout.SameCells.seq {a' b' : Layout} (ha : SameCells a a')
    (hb : SameCells b b') : SameCells (Layout.seq a b) (Layout.seq a' b') := by
  intro φ
  obtain ⟨hcells, hnext⟩ := ha φ
  simp only [Layout.seq, hcells, hnext]
  exact ⟨by rw [(hb _).1], (hb _).2⟩

lemma Layout.all_append (f : α → Layout) (xs ys : List α) :
    SameCells (all f (xs ++ ys)) (seq (all f xs) (all f ys)) := by
  induction xs with
  | nil => exact (empty_seq _).symm
  | cons x xs ih =>
    rw [cons_append, all, all, seq_assoc]
    exact SameCells.seq (fun _ => ⟨rfl, rfl⟩) ih

lemma Prim.alignOf_dvd (P : Profile) (p : Prim) : p.alignOf P.align64 ∣ p.wireSize := by
  rcases P.align64_cases with h | h <;> rw [h] <;> cases p <;> decide

lemma Layout.primArray_append (p : Prim) (xs ys : List p.denote) :
    SameCells (primArray P p (xs ++ ys))
      (seq (primArray P p xs) (primArray P p ys)) := by
  intro φ
  by_cases hp : p.wireSize = 1
  · simp [primArray, hp, seq, raw, advance, Nat.add_assoc]
  · rcases xs with _ | ⟨x, xs⟩
    · simp [primArray, hp, seq, empty]
    · rcases ys with _ | ⟨y, ys⟩
      · simp [primArray, hp, seq, empty]
      · have hpad := padTo_aligned_next (P := P) (p.isAlign_alignOf P hp)
          (((x :: xs).map p.toWire).flatMap (wordBytes P.swap p.wireSize))
          (by rw [length_flatMap_wordBytes]; exact (p.alignOf_dvd P).mul_right _) φ
        have hraw := aligned_of_pad_zero (P := P) hpad
          (((y :: ys).map p.toWire).flatMap (wordBytes P.swap p.wireSize))
        have hseq := seq_aligned_raw (P := P) (p.alignOf P.align64)
          (((x :: xs).map p.toWire).flatMap (wordBytes P.swap p.wireSize))
          (((y :: ys).map p.toWire).flatMap (wordBytes P.swap p.wireSize)) φ
        rw [← seq_congr_right hraw, ← flatMap_append, ← map_append] at hseq
        have hblock : ∀ zs : List p.denote, zs.length ≠ 0 → primArray P p zs =
            noted (p.alignOf P.align64) (aligned P (p.alignOf P.align64)
              ((zs.map p.toWire).flatMap (wordBytes P.swap p.wireSize))) := fun zs hz => by
          simp only [primArray, if_neg hp, if_neg hz]
        have hcells := congrArg Piece.cells hseq.symm
        have hnext := congrArg Piece.next hseq.symm
        rw [hblock _ (by simp), hblock _ (by simp), hblock _ (by simp)]
        exact ⟨hcells, hnext⟩

/-- An array is laid out like its parts one after the other: the phase carries the alignment from
one part to the next. -/
theorem Layout.many_append : (t : Ty) → ∀ e (xs ys : List t.denote),
    SameCells ((layout P t e).many (xs ++ ys))
      (seq ((layout P t e).many xs) ((layout P t e).many ys))
  | .prim p => fun _ xs ys => by
    simp only [layout]
    exact primArray_append p xs ys
  | .array t _ => fun e xs ys => by
    simp only [layout, flatMap_append]
    exact many_append t e _ _
  | .string | .wstring | .vector _ | .map _ _ | .optional _ | .struct _ _ => fun _ xs ys => by
    simp only [layout, generic]
    exact all_append _ xs ys

end EasyDds.Cdr
