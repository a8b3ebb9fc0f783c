import EasyDds.Cdr.Emit.Xcdr1
import EasyDds.Cdr.Emit.Xcdr2

/-!
The encoder writes the image of a value, for every version of the encoding. Each clause of
`serialize` meets the clause of `layout` for the same type.
-/

namespace EasyDds.Cdr

open Layout

open Prog

variable {P : Profile} {e : EncodingAlgorithmFlag} {s : Cdr}

/-- A member whose header the encoder can always write in its final form. -/
def MemberInfo.HeaderOk (P : Profile) (x : Extensibility) (m : MemberInfo) : Prop :=
  match P.version with
  | .xcdrV2 => x = .mutable →
      m.memberId.id < 0x10000000 ∧ m.headerSelection = .autoWithShortHeaderByDefault
  | .xcdrV1 => m.headerSelection ≠ .shortHeader
  | .ddsCdr | .corbaCdr => True

mutual

def Ty.HeadersOk (P : Profile) : Ty → Prop
  | .prim _ | .string | .wstring => True
  | .array t _ | .vector t | .map _ t | .optional t => t.HeadersOk P
  | .struct x ms => ms.HeadersOk P x

def Members.HeadersOk (P : Profile) (x : Extensibility) : Members → Prop
  | .nil => True
  | .cons m t ms => m.HeaderOk P x ∧ t.HeadersOk P ∧ ms.HeadersOk P x

end

variable {a : Layout} {x : Extensibility} {members : CdrM Unit} {α : Type} {one : α → CdrM Unit}
  {image : α → Layout}

lemma serializeMember_emits {value : CdrM Unit} {m : MemberInfo} (hm : m.HeaderOk P x)
    (h : Emits P (x.encoding P.version) value a) :
    Emits P (x.encoding P.version) (serializeMember m value)
      (member P (x.encoding P.version) m false true a) := by
  rcases hv : P.version with _ | _ | _ | _ <;> rw [hv] at h <;>
    simp only [MemberInfo.HeaderOk, hv] at hm <;> simp only [member, hv]
  case xcdrV2 =>
    have hrun : ∀ s, Ready P s → (serializeMember m value).run s = (do
        let st ← xcdr2BeginSerializeMember m.memberId true (← read).getState m.headerSelection
        value
        xcdr2EndSerializeMember st : CdrM Unit).run s := fun s hs => by
      simp only [serializeMember, run_read_bind, hs.version, hv]
    split
    case isTrue he =>
      rw [he] at h ⊢
      obtain ⟨hid, hsel⟩ := hm (by cases x <;> simp_all [Extensibility.encoding])
      exact (h.member2 hv hid hsel).congr fun s hs _ => hrun s hs
    case isFalse he => exact (h.plain2 (by simpa using he)).congr fun s hs _ => hrun s hs
  case xcdrV1 =>
    have hrun : ∀ s, Ready P s → (serializeMember m value).run s = (do
        let st ← xcdr1BeginSerializeMember m.memberId (← read).getState m.headerSelection
        value
        xcdr1EndSerializeMember st : CdrM Unit).run s := fun s hs => by
      simp only [serializeMember, run_read_bind, hs.version, hv]
    split
    case isTrue he =>
      rw [he] at h ⊢
      exact (h.member1 hv hm).congr fun s hs _ => hrun s hs
    case isFalse he => exact (h.plain1 he).congr fun s hs _ => hrun s hs
  all_goals
    refine (h.relabel memberIdInvalid memberIdInvalid).congr fun s hs _ => ?_
    simp only [serializeMember, run_read_bind, hs.version, hv]

lemma serializeOptMember_emits {value : CdrM Unit} {m : MemberInfo} (isPresent : Bool)
    (hm : m.HeaderOk P x) (h : Emits P (x.encoding P.version) value a) :
    Emits P (x.encoding P.version) (serializeOptMember m isPresent value)
      (member P (x.encoding P.version) m true isPresent a) := by
  rcases hv : P.version with _ | _ | _ | _ <;> rw [hv] at h <;>
    simp only [MemberInfo.HeaderOk, hv] at hm <;> simp only [member, hv]
  case xcdrV2 =>
    have hrun : ∀ s, Ready P s → (serializeOptMember m isPresent value).run s = (do
        let st ← xcdr2BeginSerializeMember m.memberId isPresent (← read).getState m.headerSelection
        value
        xcdr2EndSerializeMember st : CdrM Unit).run s := fun s hs => by
      simp only [serializeOptMember, run_read_bind, hs.version, hv]
    split
    case isTrue he =>
      rw [he] at h ⊢
      obtain ⟨hid, hsel⟩ := hm (by cases x <;> simp_all [Extensibility.encoding])
      cases isPresent with
      | true => exact (h.member2 hv hid hsel).congr fun s hs _ => hrun s hs
      | false => exact (h.plain2 (by simp)).congr fun s hs _ => hrun s hs
    case isFalse he => exact (h.plain2 fun hp => he hp.2).congr fun s hs _ => hrun s hs
  case xcdrV1 =>
    have hrun : ∀ s, Ready P s → (serializeOptMember m isPresent value).run s = (do
        let st ← xcdr1BeginSerializeOptMember m.memberId isPresent (← read).getState
          m.headerSelection
        value
        xcdr1EndSerializeOptMember st : CdrM Unit).run s := fun s hs => by
      simp only [serializeOptMember, run_read_bind, hs.version, hv]
    cases isPresent with
    | true =>
      simp only [if_true, ite_self]
      exact (h.optMember1 hv hm).congr fun s hs _ => hrun s hs
    | false =>
      simp only [Bool.false_eq_true, if_false, if_true]
      split
      case isTrue he =>
        rw [he] at h ⊢
        exact h.missing1.congr fun s hs _ => hrun s hs
      case isFalse he => exact (h.absent1 hv hm he).congr fun s hs _ => hrun s hs
  all_goals
    refine (h.relabel memberIdInvalid memberIdInvalid).congr fun s hs _ => ?_
    simp only [serializeOptMember, run_read_bind, hs.version, hv]

/-- The encoding in force matters to the encoder only, not to what it wrote. -/
theorem Wrote.reencode {p : Piece} {s s' : Cdr} (e : EncodingAlgorithmFlag)
    (h : Wrote P p { s with currentEncoding := e } s') :
    Wrote P p s { s' with currentEncoding := s.currentEncoding } :=
  { h with ready := { h.ready with }, encoding := rfl }

lemma Ready.reencode (h : Ready P s) (e : EncodingAlgorithmFlag)
    (f : SerializedMemberSizeForNextInt) :
    Ready P { s with currentEncoding := e, serializedMemberSize := f } :=
  { h with }

lemma beginSerializeType_run (hver : s.cdrVersion ≠ .xcdrV2) (st : State)
    (e : EncodingAlgorithmFlag) : (beginSerializeType st e).run s =
      (.ok { st with previousEncoding := s.currentEncoding }, { s with currentEncoding := e }) := by
  simp only [beginSerializeType, run_read_bind, if_neg hver]
  rfl

lemma endSerializeType_run (hver : s.cdrVersion ≠ .xcdrV2)
    (henc : s.currentEncoding ≠ .plCdr) (st : State) : (endSerializeType st).run s =
      (.ok (), { s with currentEncoding := st.previousEncoding }) := by
  rw [endSerializeType, run_read_bind]
  split
  case h_1 h => exact absurd h hver
  case h_2 h =>
    simp only [xcdr1EndSerializeType, run_read_bind, if_neg henc]
    rfl
  all_goals rfl

lemma endSerializeType_xcdr1 (hver : s.cdrVersion = .xcdrV1) (st : State) :
    (endSerializeType st).run s = (xcdr1EndSerializeType st).run s := by
  rw [endSerializeType, run_read_bind]
  split <;> simp_all

lemma endSerializeType_xcdr2 (hver : s.cdrVersion = .xcdrV2) (st : State) :
    (endSerializeType st).run s = (xcdr2EndSerializeType st).run s := by
  rw [endSerializeType, run_read_bind]
  split <;> simp_all

/-- Without a DHEADER or a sentinel a type only switches the encoding. -/
theorem serializeType_emits_plain (hv : P.version ≠ .xcdrV2)
    (hx : P.version = .xcdrV1 → x ≠ .mutable) (h : Emits P (x.encoding P.version) members a) :
    Emits P e (serializeType x members) a := by
  intro s hs he hroom
  obtain ⟨s', hrun, hw⟩ := h { s with currentEncoding := x.encoding P.version }
    (hs.reencode _ s.serializedMemberSize) rfl hroom
  refine ⟨{ s' with currentEncoding := s.currentEncoding }, ?_, hw.reencode _⟩
  have hver : ¬s.cdrVersion = .xcdrV2 := by rwa [hs.version]
  have henc : s'.currentEncoding ≠ .plCdr := by
    rw [hw.encoding]
    rcases hp : P.version with _ | _ | _ | _ <;> cases x <;> simp_all [Extensibility.encoding]
  have hx' : x.encoding s.cdrVersion = x.encoding P.version := by rw [hs.version]
  rw [serializeType, run_read_bind, hx', bind_of_ok (beginSerializeType_run hver _ _),
    bind_of_ok hrun, endSerializeType_run (by rwa [hw.ready.version]) henc]

/-- A PL_CDR type ends with the sentinel. -/
theorem serializeType_emits_sentinel (hv : P.version = .xcdrV1) (h : Emits P .plCdr members a) :
    Emits P e (serializeType .mutable members) (seq a (sentinel P)) := by
  intro s hs he hroom
  obtain ⟨s', hrun, hw⟩ := (h.seq sentinel_emits) { s with currentEncoding := .plCdr }
    (hs.reencode _ s.serializedMemberSize) rfl hroom
  obtain ⟨s1, hrun1, hw1⟩ := h { s with currentEncoding := .plCdr }
    (hs.reencode _ s.serializedMemberSize) rfl
    (le_trans (Nat.add_le_add_left (Nat.le_max_left _ _) _) hroom)
  rw [bind_of_ok hrun1] at hrun
  refine ⟨{ s' with currentEncoding := s.currentEncoding }, ?_, hw.reencode _⟩
  have hver : ¬s.cdrVersion = .xcdrV2 := by
    rw [hs.version, hv]
    decide
  have henc : s1.currentEncoding = .plCdr := hw1.encoding
  have hx : Extensibility.mutable.encoding s.cdrVersion = .plCdr := by
    rw [hs.version, hv]
    rfl
  rw [serializeType, run_read_bind, hx, bind_of_ok (beginSerializeType_run hver _ _),
    bind_of_ok hrun1, endSerializeType_xcdr1 (hw1.ready.version.trans hv)]
  simp only [xcdr1EndSerializeType, run_read_bind, if_pos henc]
  have hafter := bind_of_ok (f := fun _ => setCurrentEncoding s.currentEncoding) hrun
  simp only [bind_assoc] at hafter
  rw [hafter]
  rfl

/-- A PLAIN_CDR2 type starts without a pending flag. -/
theorem serializeType_emits_final2 (hv : P.version = .xcdrV2) (h : Emits P .plainCdr2 members a) :
    Emits P e (serializeType .final members)
      (fromFlag .noSerializedMemberSize a) := by
  intro s hs he hroom
  set t : Cdr := { s with
    currentEncoding := .plainCdr2, serializedMemberSize := .noSerializedMemberSize } with ht
  obtain ⟨s', hrun, hw⟩ := h t (hs.reencode _ _) rfl hroom
  have hready := hw.ready
  refine ⟨{ s' with currentEncoding := s.currentEncoding }, ?_, { hw with
      ready := { hready with }
      encoding := rfl }⟩
  have hver : s.cdrVersion = .xcdrV2 := hs.version.trans hv
  have henc : ¬s'.currentEncoding ≠ .plainCdr2 := by simp [hw.encoding, ht]
  have hbegin : (beginSerializeType s.getState (Extensibility.final.encoding s.cdrVersion)).run
      s = (.ok { s.getState with previousEncoding := s.currentEncoding }, t) := by
    simp only [beginSerializeType, run_read_bind, xcdr2BeginSerializeType,
      hver, Extensibility.encoding, ne_eq, if_true, not_true_eq_false, if_false]
    rfl
  rw [serializeType, run_read_bind, bind_of_ok hbegin, bind_of_ok hrun,
    endSerializeType_xcdr2 (hw.ready.version.trans hv)]
  simp only [xcdr2EndSerializeType, run_read_bind, if_neg henc]
  rfl

/-- The other XCDRv2 types stand behind a DHEADER. -/
theorem serializeType_emits_delimited (hv : P.version = .xcdrV2) (hx : x ≠ .final)
    (h : Emits P (x.encoding .xcdrV2) members a) : Emits P e (serializeType x members)
      (delimited P (fromFlag .noSerializedMemberSize a)) := by
  intro s hs he hroom
  simp only [delimited] at hroom
  have hne : x.encoding .xcdrV2 ≠ .plainCdr2 := by cases x <;> simp_all [Extensibility.encoding]
  obtain ⟨s1, hrun1, hw1⟩ := serializeU32_emits (P := P) (e := e) 0 s hs he
    (by rw [u32_peak]; omega)
  have hnext := hw1.phase
  have hoffset1 := hw1.offset
  rw [u32_next] at hnext
  rw [u32_length] at hoffset1
  set t : Cdr := { s1 with
    currentEncoding := x.encoding .xcdrV2
    serializedMemberSize := .noSerializedMemberSize } with ht
  have hphase : phase P t = ⟨(advance P (phase P s) (padTo 4 (phase P s).pos + 4)).pos,
      .noSerializedMemberSize⟩ := by
    rw [phase_withFlag (s := s1) (t := t) rfl rfl, hnext]
  obtain ⟨s2, hrun2, hw2⟩ := h t (hw1.ready.reencode _ _) rfl (by
    rw [hphase]
    change s1.offset + _ ≤ s1.size
    rw [hoffset1, hw1.size]
    simp only [fromFlag] at hroom
    omega)
  rw [hphase] at hw2
  have henc : s2.currentEncoding ≠ .plainCdr2 := by rwa [hw2.encoding]
  obtain ⟨s3, hrun3, henc3, hsized⟩ := xcdr2EndSerializeType_run
    { s.getState with previousEncoding := s.currentEncoding } hs hw2.ready (hw2.size.trans hw1.size)
    ⟨rfl, rfl, rfl, rfl⟩ henc (by rw [hw2.offset]; exact congrArg (· + _) hoffset1)
    ((hw2.origin_eq hv).trans (hw1.origin_eq hv))
  refine ⟨s3, ?_, hsized.wrote t hw1 rfl rfl rfl rfl rfl hw2 henc3⟩
  have hver : s.cdrVersion = .xcdrV2 := hs.version.trans hv
  have hbegin : (beginSerializeType s.getState (x.encoding s.cdrVersion)).run s =
      (.ok { s.getState with previousEncoding := s.currentEncoding }, t) := by
    simp only [beginSerializeType, run_read_bind, xcdr2BeginSerializeType, hver, if_true,
      if_pos hne]
    rw [bind_of_ok hrun1, ← hw1.encoding]
    rfl
  rw [serializeType, run_read_bind, bind_of_ok hbegin, bind_of_ok hrun2,
    endSerializeType_xcdr2 (hw2.ready.version.trans hv), hrun3]

/-- An aggregate type around its members. -/
theorem serializeType_emits (x : Extensibility) (h : Emits P (x.encoding P.version) members a) :
    Emits P e (serializeType x members) (type P x a) := by
  unfold type
  rcases hv : P.version with _ | _ | _ | _
  case xcdrV2 =>
    rw [hv] at h
    cases x with
    | final => exact serializeType_emits_final2 hv h
    | appendable | mutable => exact serializeType_emits_delimited hv (by decide) h
  case xcdrV1 =>
    cases x with
    | mutable =>
      rw [hv] at h
      exact serializeType_emits_sentinel hv h
    | final | appendable => exact serializeType_emits_plain (by simp [hv]) (by simp) h
  all_goals exact serializeType_emits_plain (by simp [hv]) (by simp [hv]) h

lemma serializeBoolSequence_emits (v : List Bool) :
    Emits P e (serializeBoolSequence v) (sequenceFlag P .serializedMemberSize
      (seq (length P v.length) (primArray P .bool v))) := by
  have hbytes : (v.map fun b : Bool => if b then (1 : UInt8) else 0) =
      v.map fun b => UInt8.ofNat (Prim.toWire .bool b) :=
    List.map_congr_left fun b _ => by cases b <;> rfl
  refine Emits.congr (m := do
    let s ← read
    (do
      serializeLength v.length
      if ← reserve v.length then
        modify fun s =>
          { s with lastDataSize := 1 }.store (v.map fun b : Bool => if b then 1 else 0)
      else do
        modify (setState s.getState)
        raise .notEnoughMemory)
    if s.cdrVersion = .xcdrV2 then setSerializedMemberSize .serializedMemberSize else pure ())
    ?_ fun s _ _ => ?_
  · refine .read fun s hs _ => ?_
    refine Emits.sequenceFlag _ _ hs.version ?_
    have hstore := (serializeLength_emits (P := P) (e := e) v.length).then_store
      (v.map fun b : Bool => if b then (1 : UInt8) else 0) v.length (by simp)
      (do modify (setState s.getState); raise .notEnoughMemory)
    rw [hbytes] at hstore ⊢
    exact hstore
  · simp only [serializeBoolSequence, bind_assoc, ite_bind, run_read_bind]

lemma serializePrimVector_emits (p : Prim) (v : List p.denote) :
    Emits P e (serializePrimVector p v) (sequenceFlag P (getSerializedMemberSize p)
      (seq (length P v.length) (primArray P p v))) := by
  refine Emits.congr (m := do
    let s ← read
    (do
      serializeLength v.length
      onError (setState s.getState) do
        if v.length ≠ 0 then notePrimPad p
        serializePrimArray p v)
    if s.cdrVersion = .xcdrV2 then setSerializedMemberSize (getSerializedMemberSize p)
    else pure ()) ?_ fun s _ _ => ?_
  · refine .read fun s hs _ => ?_
    refine Emits.sequenceFlag _ _ hs.version ?_
    exact (serializeLength_emits _).seq (serializePrimArray_emits p v).onError
  · simp only [serializePrimVector, bind_assoc, run_read_bind]

lemma serializeObjectVector_emits {many : List α → CdrM Unit} (v : List α)
    (h : Emits P e (many v) a) : Emits P e (serializeObjectVector many v)
      (withDheader P (seq (length P v.length) a)) := by
  refine (Emits.withDheader fun st =>
    (serializeLength_emits _).seq (h.onError (r := setState st))).congr fun s _ _ => ?_
  simp only [serializeObjectVector, bind_assoc]

lemma serializeVector_emits (t : Ty) {many : List t.denote → CdrM Unit}
    {image : List t.denote → Layout} (h : ∀ v, Emits P e (many v) (image v)) (v : List t.denote) :
    Emits P e (serializeVector t many v) (vector P t image v) := by
  cases t with
  | prim p =>
    by_cases hbool : p = .bool
    · subst hbool
      exact serializeBoolSequence_emits v
    · have hone : serializeVector (.prim p) many v = serializePrimVector p v := by
        cases p <;> first | rfl | exact absurd rfl hbool
      have himage : vector P (.prim p) image v = sequenceFlag P (getSerializedMemberSize p)
            (seq (length P v.length) (primArray P p v)) := by
        cases p <;> rfl
      rw [hone, himage]
      exact serializePrimVector_emits p v
  | _ => exact serializeObjectVector_emits v (h v)

lemma serializeKey_emits (k : KeyTy) (x : k.denote) : Emits P e (serializeKey k x) (key P k x) := by
  cases k with
  | prim p => exact serializePrim_emits p x
  | string => exact serializeString_emits x

lemma serializeMap_emits (k : KeyTy) (t : Ty) {one : t.denote → CdrM Unit}
    {image : t.denote → Layout} (h : ∀ x, Emits P e (one x) (image x))
    (m : OrderedMap k.rank t.denote) : Emits P e (serializeMap k t one m) (map P k t image m) := by
  have hpairs : ∀ st : State, Emits P e (do
      serializeLength m.entries.length
      onError (setState st) (each (fun e => do serializeKey k e.1; one e.2) m.entries))
      (seq (length P m.entries.length) (all (fun e => seq (key P k e.1) (image e.2)) m.entries)) :=
    fun st => (serializeLength_emits _).seq
      (Emits.each m.entries fun e _ => (serializeKey_emits k e.1).seq (h e.2)).onError
  unfold serializeMap map
  split
  · exact .read fun s _ _ => hpairs s.getState
  · refine (Emits.withDheader hpairs).congr fun s _ _ => ?_
    simp only [bind_assoc]

lemma serializeArray_emits (t : Ty) {many : List t.denote → CdrM Unit} (v : List t.denote)
    (h : Emits P e (many v) a) : Emits P e (serializeArray t many v)
      (if t.isMultiArrayPrimitive then a else withDheader P a) := by
  unfold serializeArray
  split
  · exact h
  · exact Emits.withDheader fun _ => h

lemma Emits.optional (h : ∀ x, Emits P e (one x) (image x)) (v : Option α) :
    Emits P e (match v with | some x => one x | none => pure ())
      (match v with | some x => image x | none => Layout.empty) := by
  cases v with
  | none => exact Emits.empty
  | some x => exact h x

lemma serializeOptional_emits (h : ∀ x, Emits P e (one x) (image x)) (v : Option α) :
    Emits P e (serializeOptional one v) (Layout.optional P e image v) := by
  unfold serializeOptional Layout.optional
  refine .read fun s hs he => ?_
  rw [hs.version, he]
  by_cases hflag : P.version = .xcdrV2 ∧ e ≠ .plCdr2
  · simp only [if_pos hflag]
    exact (serializeOctet_emits _).seq (.optional h v)
  · simp only [if_neg hflag]
    exact Emits.empty.seq (.optional h v)

lemma generic_emits (h : ∀ x, Emits P e (one x) (image x)) :
    (∀ x, Emits P e ((SerializeOverloads.generic one).one x)
        ((LayoutOverloads.generic image).one x)) ∧
      ∀ xs, Emits P e ((SerializeOverloads.generic one).many xs)
        ((LayoutOverloads.generic image).many xs) :=
  ⟨h, fun xs => Emits.each xs fun x _ => h x⟩

mutual

/-- The encoder writes the image of every value, single or in a C array. By recursion over the type,
like the layout: each case is the lemma for its constructor. -/
theorem serialize_emits : (t : Ty) → t.HeadersOk P → (e : EncodingAlgorithmFlag) →
    (∀ v, Emits P e ((serialize t).one v) ((layout P t e).one v)) ∧
      ∀ vs, Emits P e ((serialize t).many vs) ((layout P t e).many vs)
  | .prim p, _, _ => by
    simp only [serialize, layout]
    exact ⟨serializePrim_emits p, serializePrimArray_emits p⟩
  | .string, _, _ => by
    simp only [serialize, layout]
    exact generic_emits serializeString_emits
  | .wstring, _, _ => by
    simp only [serialize, layout]
    exact generic_emits serializeWstring_emits
  | .array t _, h, e => by
    have ih := serialize_emits t h e
    simp only [serialize, layout]
    exact ⟨fun v => serializeArray_emits t _ (ih.2 _), fun vs => ih.2 _⟩
  | .vector t, h, e => by
    have ih := serialize_emits t h e
    simp only [serialize, layout]
    exact generic_emits (serializeVector_emits t ih.2)
  | .map k t, h, e => by
    have ih := serialize_emits t h e
    simp only [serialize, layout]
    exact generic_emits (serializeMap_emits k t ih.1)
  | .optional t, h, e => by
    have ih := serialize_emits t h e
    simp only [serialize, layout]
    exact generic_emits (serializeOptional_emits ih.1)
  | .struct x ms, h, _ => by
    have ih := serializeMembers_emits ms x h
    simp only [serialize, layout]
    exact generic_emits fun v => serializeType_emits x (ih v)

lemma serializeMembers_emits : (ms : Members) → (x : Extensibility) → ms.HeadersOk P x →
    (v : ms.denote) → Emits P (x.encoding P.version) (serializeMembers ms v)
      (membersLayout P ms (x.encoding P.version) v)
  | .nil, _, _, _ => by
    simp only [serializeMembers, membersLayout]
    exact Emits.empty
  | .cons m t ms, x, h, v => by
    simp only [Members.HeadersOk] at h
    obtain ⟨hm, ht, hms⟩ := h
    have ih := (serialize_emits t ht (x.encoding P.version)).1 v.1
    have ihs := serializeMembers_emits ms x hms v.2
    simp only [serializeMembers, membersLayout]
    split
    case isTrue hopt =>
      rw [hopt]
      exact (serializeOptMember_emits _ hm ih).seq ihs
    case isFalse hopt =>
      have hvalue : t.hasValue v.1 = true := by cases t <;> first | rfl | exact absurd rfl hopt
      rw [Bool.not_eq_true] at hopt
      rw [hopt, hvalue]
      exact (serializeMember_emits hm ih).seq ihs

end

end EasyDds.Cdr
