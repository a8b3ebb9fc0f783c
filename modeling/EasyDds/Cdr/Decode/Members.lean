import EasyDds.Cdr.Decode.Struct

/-!
How the functor of a structure drives the loops of type decoding. While the loop is at a
member, the functor is seen through the members that are left, with the ones before it fixed.
-/

namespace EasyDds.Cdr

open Members

open Layout

open Prog

variable {P : Profile} {e : EncodingAlgorithmFlag} {φ : Phase} {σ : Type} {fuel : Nat}
  {functor : MemberFunctor σ} {t : Ty}

def Ty.Reads (P : Profile) (fuel : Nat) (e : EncodingAlgorithmFlag) (t : Ty) (v : t.denote) :
    Prop :=
  ∀ x φ, t.Fresh x → ReadsAt P e ((deserialize fuel t).one x) ((layout P t e).one v) φ (t.normal v)

def Members.Reads (P : Profile) (fuel : Nat) (e : EncodingAlgorithmFlag) :
    (ms : Members) → ms.denote → Prop
  | .nil, _ => True
  | .cons _ t ms, v =>
    (t.hasValue v.1 = true ∨ (P.version = .xcdrV2 ∧ e ≠ .plCdr2) → t.Reads P fuel e v.1) ∧
      ms.Reads P fuel e v.2

/-- The functor acts on the members `ms` from position `i` on, inside of a larger object. -/
def Serves (fuel : Nat) (names : Bool) (ms : Members) (i : Nat) (functor : MemberFunctor σ)
    (put : ms.denote → σ) : Prop :=
  ∀ (mid : MemberId) (y : ms.denote), (names = true → mid.id ∈ ms.ids) →
    (names = false → i ≤ mid.id) →
    functor mid (put y) = deserializeMembers fuel names ms i mid.id y >>= fun r =>
      pure (r.1, put r.2)

def deserializeAs (fuel : Nat) (t : Ty) (x : t.denote) : CdrM t.denote :=
  if t.isOptional then deserializeOptMember (deserialize fuel t).one x
  else (deserialize fuel t).one x

lemma deserializeMembers_serves (fuel : Nat) (names : Bool) (ms : Members) :
    Serves fuel names ms 0 (fun mid => deserializeMembers fuel names ms 0 mid.id) id := by
  intro mid y _ _
  exact (bind_pure _).symm

section Serves

variable {names : Bool} {m : MemberInfo} {t : Ty} {ms : Members} {i : Nat}
  {functor : MemberFunctor σ} {put : (cons m t ms).denote → σ}

lemma Serves.head (h : Serves fuel names (.cons m t ms) i functor put) (mid : MemberId)
    (hmid : mid.id = if names then m.memberId.id else i) (y : t.denote) (ys : ms.denote) :
    functor mid (put (y, ys)) =
      deserializeAs fuel t y >>= fun y' => pure (true, put (y', ys)) := by
  rw [h mid (y, ys)]
  · simp only [deserializeMembers, if_pos hmid, deserializeAs]
    split <;> simp only [bind_assoc, pure_bind]
  · rintro rfl
    simp [ids, hmid]
  · rintro rfl
    simp [hmid]

lemma Serves.tail (h : Serves fuel names (.cons m t ms) i functor put)
    (hnew : names = true → m.memberId.id ∉ ms.ids) (y : t.denote) :
    Serves fuel names ms (i + 1) functor fun ys => put (y, ys) := by
  intro mid ys hids hindex
  have hother : ¬mid.id = if names then m.memberId.id else i := by
    cases names with
    | true =>
      simp only [if_true]
      intro heq
      exact hnew rfl (heq ▸ hids rfl)
    | false =>
      have := hindex rfl
      simp only [Bool.false_eq_true, if_false]
      omega
  rw [h mid (y, ys)]
  · simp only [deserializeMembers, if_neg hother, bind_assoc, pure_bind]
  · exact fun hn => List.mem_cons_of_mem _ (hids hn)
  · exact fun hn => by have := hindex hn; omega

lemma Serves.unknown {put : nil.denote → σ}
    (h : Serves fuel false .nil i functor put) (hi : i < 2 ^ 32) (y : nil.denote)
    (s : Cdr) : (functor (.ofNat i false) (put y)).run s = (.ok (false, put y), s) := by
  rw [h (.ofNat i false) y]
  · simp [deserializeMembers]
  · simp
  · exact fun _ => (Nat.mod_eq_of_lt hi).ge

end Serves

/-- Outside of PLAIN_CDR an optional member is read as its value: whether it is there was told by
the header, or by a byte of the value itself. -/
theorem deserializeAs_reads (he : e ≠ .plainCdr) {x : t.denote} {L : Layout}
    {r : t.denote} (h : ReadsAt P e ((deserialize fuel t).one x) L φ r) :
    ReadsAt P e (deserializeAs fuel t x) L φ r := by
  unfold deserializeAs
  split
  · refine ReadsAt.read fun s _ henc => ?_
    rw [if_neg (henc ▸ he)]
    exact h
  · exact h

/-- A present member takes bytes, as it does outside of a structure. This is where an optional of an
empty type has to be excluded. -/
theorem Ty.sound_of_present {v : t.denote} (hvalue : t.hasValue v = true)
    (hs : t.Sound P e true v) (hne : t.isOptional = true → t.payload.isEmpty P.version = false) :
    t.Sound P e false v := by
  cases t with
  | optional t =>
    simp only [Ty.Sound] at hs ⊢
    exact ⟨fun _ => .inr ⟨hvalue, hne rfl⟩, hs.2⟩
  | _ => exact Ty.sound_asMember rfl v true false hs

lemma Layout.Blank.optional_none (hplain : ¬(P.version = .xcdrV2 ∧ e ≠ .plCdr2))
    {v : t.denote} (h : t.hasValue v = false) : Blank P ((layout P t e).one v) := by
  cases t with
  | optional t =>
    cases v with
    | some x => simp [Ty.hasValue] at h
    | none =>
      simp only [layout, LayoutOverloads.generic, optional, if_neg hplain]
      exact .seq .empty .empty
  | _ => simp [Ty.hasValue] at h

/-- An absent optional stays as it was, and it was absent: the decoder does not touch it, so the
object has to start without a value. -/
theorem Ty.normal_of_absent {v x : t.denote} (h : t.hasValue v = false)
    (hx : t.Fresh x) : x = t.normal v := by
  cases t with
  | optional t =>
    cases v with
    | some y => simp [Ty.hasValue] at h
    | none =>
      simp only [Ty.Fresh] at hx
      simp [Ty.normal, hx]
  | _ => simp [Ty.hasValue] at h

/-- An optional member of a PLAIN_CDR type has a header of its own. -/
theorem deserializeOptMember_reads (hv : P.version = .xcdrV1) {m : MemberInfo}
    {v x : t.denote} (hopt : t.isOptional = true) (hx : t.Fresh x)
    (hs : t.hasValue v = true → t.Sound P .plainCdr false v)
    (h : t.hasValue v = true → t.Reads P fuel .plainCdr v) :
    ReadsAt P .plainCdr (deserializeOptMember (deserialize fuel t).one x)
      (if t.hasValue v then member1 P m ((layout P t .plainCdr).one v)
        else seq (absent1 P m) ((layout P t .plainCdr).one v)) φ
      (t.normal v) := by
  intro s hfacing
  cases hvalue : t.hasValue v with
  | true =>
    set a := (layout P t .plainCdr).one v with ha
    simp only [hvalue, if_true] at hfacing ⊢
    obtain ⟨st', s1, hrun1, hsize, hheader⟩ := header1_run memberIdInvalid s.getState hfacing
    have hs1 := hfacing.content1 (member1_cells m a φ) hheader
    obtain ⟨s2, hrun2, ht2⟩ := h hvalue x { φ with pos := 0 } hx s1 hs1
    have hpos : 0 < (a { φ with pos := 0 }).cells.length := by
      refine AtLeast.one (.inl hv) t ?_ .plainCdr v (hs hvalue) _
      cases t <;> first | rfl | simp [Ty.isOptional] at hopt
    have hoffset := ht2.offset
    rw [← ha] at hoffset
    have hsmall := hs1.small
    refine ⟨s2, ?_, hheader.tracks hv (member1_cells m a φ) rfl rfl ht2⟩
    simp only [deserializeOptMember, run_read_bind, if_pos hfacing.encoding]
    rw [bind_of_ok hrun1, run_read_bind, hsize, if_pos hpos, bind_of_ok hrun2, run_read_bind,
      iteratorDiff_eq (by omega) (by omega), if_neg (by omega)]
    rfl
  | false =>
    have hplain : ¬(P.version = .xcdrV2 ∧ EncodingAlgorithmFlag.plainCdr ≠ .plCdr2) := by simp [hv]
    have hblank := Blank.optional_none (e := .plainCdr) hplain hvalue
    simp only [hvalue, Bool.false_eq_true, if_false] at hfacing ⊢
    obtain ⟨st', s1, hrun1, hsize, hheader⟩ := xcdr1DeserializeMemberHeader_run (n := 0)
      memberIdInvalid s.getState (fun hshort => ⟨by
        simp only [startsShort, decide_eq_true_eq] at hshort
        exact hshort.1, by omega⟩) (by omega)
      (hfacing.left (p := aligned P 4 _ φ) rfl)
    have hs1 := hfacing.content1 (q := (layout P t .plainCdr).one v { φ with pos := 0 }) rfl hheader
    have hoffset : iteratorDiff s1.offset s1.offset = 0 := by simp [iteratorDiff]
    refine ⟨s1, ?_, hheader.tracks hv rfl rfl rfl (Tracks.blank hblank hs1)⟩
    simp only [deserializeOptMember, run_read_bind, if_pos hfacing.encoding]
    rw [bind_of_ok hrun1, run_read_bind, hsize, if_neg (by omega), run_pure_bind, run_read_bind,
      hoffset, if_neg (by simp), ← Ty.normal_of_absent hvalue hx]
    rfl

/-- A member of a type whose members are known by position. -/
theorem deserializeMember_reads (hver : P.IsXcdr)
    {x : Extensibility} (he : (x.encoding P.version).namesMembers = false) {m : MemberInfo}
    {v y : t.denote} (hm : t.MemberOk P.version x v) (hs : t.Sound P (x.encoding P.version) true v)
    (hread : t.hasValue v = true ∨ (P.version = .xcdrV2 ∧ x.encoding P.version ≠ .plCdr2) →
      t.Reads P fuel (x.encoding P.version) v) (hy : t.Fresh y) :
    ReadsAt P (x.encoding P.version) (deserializeAs fuel t y)
      (member P (x.encoding P.version) m t.isOptional (t.hasValue v)
        ((layout P t (x.encoding P.version)).one v)) φ (t.normal v) := by
  obtain ⟨hpl, hpl2⟩ := EncodingAlgorithmFlag.ne_of_positional he
  rcases hver with hv | hv
  · have hx : x ≠ .mutable := by
      rintro rfl
      simp [hv, Extensibility.encoding] at hpl
    have henc : x.encoding P.version = .plainCdr := by
      rw [hv]
      cases x <;> first | rfl | exact absurd rfl hx
    simp only [henc] at hs hread ⊢
    simp only [member, hv, reduceCtorEq, if_false]
    cases hopt : t.isOptional with
    | false =>
      have hvalue := Ty.hasValue_of_not_isOptional hopt v
      simp only [deserializeAs, hopt, Bool.false_eq_true, if_false]
      exact hread (.inl hvalue) y φ hy
    | true =>
      simp only [deserializeAs, hopt, if_true]
      refine deserializeOptMember_reads hv hopt hy (fun hvalue => ?_) fun h => hread (.inl h)
      refine Ty.sound_of_present hvalue hs fun hopt => ?_
      simp only [Ty.MemberOk, hv] at hm
      rw [hv]
      exact hm hvalue hx hopt
  · have hplain : x.encoding P.version ≠ .plainCdr := by
      rw [hv]
      cases x <;> simp [Extensibility.encoding]
    simp only [member, hv] at hpl2 ⊢
    simp only [if_neg hpl2]
    rw [← hv]
    exact (deserializeAs_reads hplain (hread (.inr ⟨hv, by rwa [hv]⟩) y φ hy)).thenFlag _

lemma Members.inOrder (hver : P.IsXcdr)
    {x : Extensibility} (he : (x.encoding P.version).namesMembers = false)
    : (ms : Members) → ∀ (v : ms.denote), ms.Sound P x v →
      ms.Reads P fuel (x.encoding P.version) v → ∀ (put : ms.denote → σ) (i : Nat) (φ : Phase)
      (y : ms.denote), Serves fuel false ms i functor put → ms.Fresh y →
      i + ms.length < 2 ^ 32 →
      InOrder P (x.encoding P.version) functor ms.length i φ
        (membersLayout P ms (x.encoding P.version) v) (put y) (put (ms.normal v))
  | .cons m t ms => fun v hs hread put i φ y hserves hy hi => by
    have hsound := hs
    simp only [Sound] at hs
    simp only [Reads] at hread
    simp only [Fresh] at hy
    simp only [length] at hi
    have hmember := deserializeMember_reads (φ := φ) (m := m) hver he hs.1 hs.2.1 hread.1 hy.1
    have hrest := inOrder hver he ms v.2 hs.2.2 hread.2 (fun ys => put (t.normal v.1, ys))
      (i + 1) (member P (x.encoding P.version) m t.isOptional (t.hasValue v.1)
        ((layout P t (x.encoding P.version)).one v.1) φ).next y.2
      (hserves.tail (by simp) _) hy.2 (by omega)
    have hblank : (membersLayout P (.cons m t ms) (x.encoding P.version) v φ).cells = [] →
        Blank P (membersLayout P (.cons m t ms) (x.encoding P.version) v) ∧
          put y = put ((cons m t ms).normal v) := by
      intro hnil
      cases hempty : (cons m t ms).isEmpty P.version with
      | true =>
        exact ⟨Blank.members _ hempty _ he v, congrArg put (eq_of_isEmpty _ hempty _ _)⟩
      | false =>
        have hlen := AtLeast.members hver _ hempty x he v hsound φ
        rw [hnil] at hlen
        exact absurd hlen (by decide)
    simp only [membersLayout] at hblank
    simp only [membersLayout, length, normal]
    refine InOrder.next ?_ hrest ?_
    · rw [hserves.head (.ofNat i false) (Nat.mod_eq_of_lt (by omega)) y.1 y.2]
      exact hmember.map fun y' => (true, put (y', y.2))
    · simpa only [normal] using hblank
  | .nil => fun _ _ _ put i φ y hserves _ hi => by
    simp only [membersLayout, length]
    exact InOrder.done (hserves.unknown hi y)

/-- Members with identifiers, in XCDRv1. An absent optional leaves no trace, so the rounds of the
loop are those of the members that are present. -/
theorem Members.named1 (hv : P.version = .xcdrV1) :
    (ms : Members) → ms.ids.Nodup → ∀ (v : ms.denote), ms.Reads P fuel .plCdr v →
      ∀ (put : ms.denote → σ) (i : Nat) (φ : Phase) (y : ms.denote),
      Serves fuel true ms i functor put → ms.Fresh y →
      Rounds P (Member1 P .plCdr functor) ms.length φ (membersLayout P ms .plCdr v) (put y)
        (put (ms.normal v))
  | .cons m t ms => fun hnodup v hread put i φ y hserves hy => by
    simp only [Reads] at hread
    simp only [Fresh] at hy
    simp only [ids, List.nodup_cons] at hnodup
    have hrest : ∀ φ, Rounds P (Member1 P .plCdr functor) ms.length φ
        (membersLayout P ms .plCdr v.2) (put (t.normal v.1, y.2))
        (put (t.normal v.1, ms.normal v.2)) := fun φ =>
      named1 hv ms hnodup.2 v.2 hread.2 (fun ys => put (t.normal v.1, ys)) (i + 1) φ
        y.2 (hserves.tail (fun _ => hnodup.1) _) hy.2
    simp only [membersLayout, length, normal, member, hv, if_true]
    cases hvalue : t.hasValue v.1 with
    | true =>
      refine Rounds.next ⟨m, _, rfl, ?_⟩ (hrest _)
      rw [hserves.head m.memberId rfl y.1 y.2]
      exact (deserializeAs_reads (by decide)
        (hread.1 (.inl hvalue) y.1 _ hy.1)).map fun y' => (true, put (y', y.2))
    | false =>
      have hsame : put y = put (t.normal v.1, y.2) :=
        congrArg (fun y' => put (y', y.2)) (Ty.normal_of_absent hvalue hy.1)
      rw [hsame]
      exact Rounds.skip (Blank.optional_none (by simp [hv]) hvalue) (hrest _)
  | .nil => fun _ _ _ put i φ y _ _ => by
    simp only [membersLayout, length]
    exact Rounds.done

lemma Members.named2 (hv : P.version = .xcdrV2) :
    (ms : Members) → ms.ids.Nodup → ms.HeadersOk P .mutable → ∀ (v : ms.denote),
      ms.Sound P .mutable v → ms.Reads P fuel .plCdr2 v →
      ∀ (put : ms.denote → σ) (i : Nat) (φ : Phase) (y : ms.denote),
      Serves fuel true ms i functor put → ms.Fresh y → φ.flag = .noSerializedMemberSize →
      Rounds P (Member2 P .plCdr2 functor) ms.length φ (membersLayout P ms .plCdr2 v) (put y)
        (put (ms.normal v))
  | .cons m t ms => fun hnodup hheaders v hs hread put i φ y hserves hy hflag => by
    simp only [Sound, Ty.MemberOk, hv, forall_const, Extensibility.encoding] at hs
    simp only [HeadersOk, MemberInfo.HeaderOk, hv, forall_const] at hheaders
    simp only [Reads] at hread
    simp only [Fresh] at hy
    simp only [ids, List.nodup_cons] at hnodup
    have hrest : ∀ φ, φ.flag = .noSerializedMemberSize → Rounds P (Member2 P .plCdr2 functor)
        ms.length φ (membersLayout P ms .plCdr2 v.2) (put (t.normal v.1, y.2))
        (put (t.normal v.1, ms.normal v.2)) := fun φ =>
      named2 hv ms hnodup.2 hheaders.2.2 v.2 hs.2.2 hread.2 (fun ys => put (t.normal v.1, ys))
        (i + 1) φ y.2 (hserves.tail (fun _ => hnodup.1) _) hy.2
    simp only [membersLayout, length, normal, member, hv, if_true]
    cases hvalue : t.hasValue v.1 with
    | true =>
      obtain ⟨hne, hok⟩ := hs.1 hvalue
      have hsound : t.Sound P .plCdr2 false v.1 :=
        Ty.sound_of_present hvalue hs.2.1 fun _ => by rw [hv]; exact hne
      refine Rounds.next ⟨m.memberId, _, rfl, hheaders.1.1, fun hsmall => ?_, ?_⟩ (hrest _ rfl)
      · refine layout_counted hv t v.1 ?_ hsound hok hflag ?_ hsmall
        · rw [hv]
          cases t <;> first | rfl | exact hne
        · have h := padTo_aligned_next P.isAlign_four (wordBytes P.swap 4 0) (by simp) φ
          simpa [aligned] using h
      · rw [hserves.head m.memberId rfl y.1 y.2]
        exact (deserializeAs_reads (by decide)
          (hread.1 (.inl hvalue) y.1 _ hy.1)).map fun y' => (true, put (y', y.2))
    | false =>
      have hsame : put y = put (t.normal v.1, y.2) :=
        congrArg (fun y' => put (y', y.2)) (Ty.normal_of_absent hvalue hy.1)
      rw [hsame]
      exact Rounds.skip ((Blank.optional_none (by simp) hvalue).thenFlag _) (hrest _ rfl)
  | .nil => fun _ _ _ _ _ put i φ y _ _ _ => by
    simp only [membersLayout, length]
    exact Rounds.done

end EasyDds.Cdr
