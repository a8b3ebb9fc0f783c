import EasyDds.Cdr.Decode.Length

/-!
The DHEADER of an appendable type. The loop over the members stops at the first of them that starts
behind the DHEADER's end, and what is left is skipped by a jump whose result nobody looks at:
members that run over the end make its length wrap, and one that leaves the buffer does not move the
cursor.
-/

namespace EasyDds.Cdr

open Prog

section Decoders

inductive Scalar : Type → Type
  | prim (p : Prim) : Scalar p.denote
  | string : Scalar (List UInt8)
  | wstring : Scalar (List (BitVec 32))

def Scalar.run {α : Type} : Scalar α → CdrM α
  | prim p => deserializePrim p
  | string => deserializeString
  | wstring => deserializeWstring

/-- What a member functor does that only decodes primitives, strings and nested types. Of these the
appendable ones are delimited; mutable ones look ahead at the headers of their members and are left
out. -/
inductive Decoder : Type → Type 1
  | pure {α : Type} (a : α) : Decoder α
  | scalar {α β : Type} (m : Scalar β) (k : β → Decoder α) : Decoder α
  | nested {α τ : Type} (delimited : Bool) (functor : MemberId → τ → Decoder (Bool × τ)) (x : τ)
      (k : τ → Decoder α) : Decoder α

def encodingOf (delimited : Bool) : EncodingAlgorithmFlag :=
  if delimited then .delimitCdr2 else .plainCdr2

def Decoder.run (fuel : Nat) {α : Type} : Decoder α → CdrM α
  | .pure a => Pure.pure a
  | .scalar m k => m.run >>= fun b => (k b).run fuel
  | .nested delimited functor x k =>
    xcdr2DeserializeType fuel (fun mid x => (functor mid x).run fuel) (encodingOf delimited) x
      >>= fun y => (k y).run fuel

def functorOf {σ : Type} (fuel : Nat) (members : MemberId → σ → Decoder (Bool × σ)) :
    MemberFunctor σ := fun mid x => (members mid x).run fuel

/-- The state in which the members of a nested type are decoded. -/
def enter (e : EncodingAlgorithmFlag) (s : Cdr) : Cdr :=
  { s with currentEncoding := e, nextMemberId := .ofNat 0 false }

def AlongMembers {σ : Type} (functor : MemberFunctor σ) (condition : Cdr → Bool)
    (member : MemberId → σ → Cdr → Prop) : Nat → σ → Cdr → Prop
  | 0, _, _ => True
  | fuel + 1, x, s => condition s = true → member s.nextMemberId x s ∧
      ∀ r s', (functor s.nextMemberId x).run s = (.ok r, s') → r.1 = true →
        AlongMembers functor condition member fuel r.2 (incrementNextMemberId.run s').2

/-- A condition on a delimited call: its functor, its target, the end of the type around it and the
state it starts from. -/
abbrev CallCondition := ∀ σ : Type, MemberFunctor σ → σ → Nat → Cdr → Prop

/-- The condition at a delimited call, and in its members, which have to end by its DHEADER. -/
def AtCall {σ : Type} (P : CallCondition) (fuel : Nat) (functor : MemberFunctor σ)
    (member : MemberId → σ → Nat → Cdr → Prop) (x : σ) (limit : Nat) (s : Cdr) : Prop :=
  P σ functor x limit s ∧ ∀ dheader s1, deserializeU32.run s = (.ok dheader, s1) →
    AlongMembers functor (fun s => iteratorDiff s.offset s1.offset < dheader)
      (fun mid x => member mid x (s1.offset + dheader)) fuel x (enter .delimitCdr2 s1)

def Decoder.EveryCall (P : CallCondition) (fuel : Nat) {α : Type} :
    Decoder α → Nat → Cdr → Prop
  | .pure _, _, _ => True
  | .scalar m k, limit, s =>
    ∀ b s', m.run.run s = (.ok b, s') → (k b).EveryCall P fuel limit s'
  | .nested delimited functor x k, limit, s =>
    (if delimited then
      AtCall P fuel (functorOf fuel functor) (fun mid x => (functor mid x).EveryCall P fuel) x
        limit s
    else
      AlongMembers (functorOf fuel functor) (fun s => s.offset != s.size)
        (fun mid x => (functor mid x).EveryCall P fuel limit) fuel x (enter .plainCdr2 s)) ∧
    ∀ y s', (xcdr2DeserializeType fuel (functorOf fuel functor) (encodingOf delimited) x).run s =
      (.ok y, s') → (k y).EveryCall P fuel limit s'

/-- The condition at a delimited call from the whole buffer and at every call nested in it. -/
def AtEveryCall {σ : Type} (P : CallCondition) (fuel : Nat)
    (members : MemberId → σ → Decoder (Bool × σ)) (x : σ) (s : Cdr) : Prop :=
  AtCall P fuel (functorOf fuel members) (fun mid x => (members mid x).EveryCall P fuel) x s.size s

lemma Scalar.run_advances {α : Type} (m : Scalar α) : Advances true true m.run := by
  cases m with
  | prim p => exact deserializePrim_advances p
  | string => exact deserializeString_advances
  | wstring => exact deserializeWstring_advances

lemma Decoder.run_advances (fuel : Nat) {α : Type} (d : Decoder α) :
    Advances true true (d.run fuel) := by
  induction d with
  | pure a => exact .pure a
  | scalar m k ih => exact m.run_advances.bind ih
  | nested delimited functor x k ihf ihk =>
    refine Advances.bind (xcdr2DeserializeType_advances ?_ (fun _ => ?_) ihf x) ihk <;>
      cases delimited <;> decide

end Decoders

section Containment

variable {σ : Type} {inside : Bool} {fuel : Nat} {functor : MemberFunctor σ}
variable {x x' : σ} {s s' : Cdr}

/-- Each member that starts before `limit` stops by it. -/
def MembersFit (functor : MemberFunctor σ) (limit : Nat) : Nat → σ → Cdr → Prop
  | 0, _, _ => True
  | fuel + 1, x, s => s.offset < limit → ∀ r s', (functor s.nextMemberId x).run s = (.ok r, s') →
      s'.offset ≤ limit ∧
        (r.1 = true → MembersFit functor limit fuel r.2 (incrementNextMemberId.run s').2)

/-- What the members and the type around have to leave to a DHEADER. -/
def DelimitedFits (fuel : Nat) : CallCondition := fun _ functor x limit s =>
  ∀ dheader s1, deserializeU32.run s = (.ok dheader, s1) → s1.offset + dheader ≤ limit ∧
    MembersFit functor (s1.offset + dheader) fuel x (enter .delimitCdr2 s1)

/-- A call that returns has gone to the end of the DHEADER, which lies in the type around it, and
has looked at no byte behind that end. -/
def Contained (fuel : Nat) : CallCondition := fun _ functor x limit s =>
  ∀ x' s', (xcdr2DeserializeType fuel functor .delimitCdr2 x).run s = (.ok x', s') →
    ∃ dheader s1 new, deserializeU32.run s = (.ok dheader, s1) ∧
      s'.offset = s1.offset + dheader ∧ s1.offset + dheader ≤ limit ∧ s'.log = new ++ s.log ∧
        ∀ e ∈ new, e.Between s.offset (s1.offset + dheader)

/-- The loop over the members stops by the end exactly if each of them does. -/
theorem deserializeInOrder_le_iff (hfunctor : ∀ mid x, Advances true true (functor mid x))
    {start dheader : Nat} (hs : Standing true s) (hstart : start ≤ s.offset)
    (hbefore : s.offset ≤ start + dheader)
    (h : (deserializeInOrder fuel functor (fun s => iteratorDiff s.offset start < dheader) x).run
      s = (.ok x', s')) :
    s'.offset ≤ start + dheader ↔ MembersFit functor (start + dheader) fuel x s := by
  induction fuel generalizing x s with
  | zero => cases h
  | succ fuel ih =>
    have hlt := s.size_lt
    have hwithin := hs.within
    have hdiff : iteratorDiff s.offset start = s.offset - start := iteratorDiff_eq hstart (by omega)
    obtain ⟨r, s1, hround, hrest⟩ := bind_eq_ok.mp h
    rw [deserializeNext, run_read_bind] at hround
    by_cases hend : s.offset < start + dheader
    · rw [if_pos (decide_eq_true (by omega))] at hround
      obtain ⟨⟨known, y⟩, s2, hcall, hnext⟩ := bind_eq_ok.mp hround
      obtain ⟨hmove, hencoding⟩ := hfunctor _ _ _ _ _ hs hcall
      have hs2 := hmove.standing hencoding hs
      rw [MembersFit, forall_prop_of_true hend, forall_ok_iff hcall]
      cases known with
      | false =>
        obtain ⟨rfl, rfl⟩ := eq_of_ok (by rfl) hnext
        obtain ⟨-, rfl⟩ := eq_of_ok (by rfl) hrest
        exact ⟨fun hle => ⟨hle, fun hknown => by cases hknown⟩, And.left⟩
      | true =>
        obtain ⟨rfl, rfl⟩ := eq_of_ok (by rfl) hnext
        have hs1 : Standing true (incrementNextMemberId.run s2).2 :=
          ⟨hs2.version, hs2.within, hs2.encoding⟩
        by_cases hover : s2.offset ≤ start + dheader
        · rw [ih hs1 (hstart.trans hmove.le) hover hrest]
          exact ⟨fun hall => ⟨hover, fun _ => hall⟩, fun hall => hall.2 rfl⟩
        · have hmore : s2.offset ≤ s'.offset :=
            (deserializeInOrder_advances hfunctor _ _ _ _ _ hs1 hrest).1.le
          exact iff_of_false (by omega) fun hall => hover hall.1
    · rw [if_neg (by simp only [decide_eq_true_eq]; omega)] at hround
      obtain ⟨rfl, rfl⟩ := eq_of_ok (by rfl) hround
      obtain ⟨-, rfl⟩ := eq_of_ok (by rfl) hrest
      exact iff_of_true hbefore fun h => absurd h hend

/-- The run behind the DHEADER: the members, and the jump over what they left. -/
theorem xcdr2DeserializeType_delimited
    (hok : (xcdr2DeserializeType fuel functor .delimitCdr2 x).run s = (.ok x', s')) :
    ∃ dheader s1 s2 b s3, deserializeU32.run s = (.ok dheader, s1) ∧
      (deserializeInOrder fuel functor (fun s => iteratorDiff s.offset s1.offset < dheader) x).run
        (enter .delimitCdr2 s1) = (.ok x', s2) ∧
      (jump (iteratorDiff dheader (iteratorDiff s2.offset s1.offset))).run s2 = (.ok b, s3) ∧
      s'.offset = s3.offset := by
  obtain ⟨dheader, s1, hd, hrest⟩ := bind_eq_ok.mp hok
  rw [run_read_bind] at hrest
  simp only [if_neg (by decide : EncodingAlgorithmFlag.delimitCdr2 ≠ .plCdr2)] at hrest
  rw [setCurrentEncoding, run_modify_bind, setNextMemberId, run_modify_bind] at hrest
  obtain ⟨y, s2, hloop, hrest⟩ := bind_eq_ok.mp hrest
  rw [run_read_bind] at hrest
  obtain ⟨b, s3, hjump, hrest⟩ := bind_eq_ok.mp hrest
  obtain ⟨rfl, rfl⟩ := eq_of_ok (by rfl) hrest
  exact ⟨dheader, s1, s2, b, s3, hd, hloop, hjump, rfl⟩

/-- Behind the members the jump closes the gap to the end, or is lost. -/
theorem jump_to_end_iff (hs : Standing inside s) (hexternal : s.internalBuffer = false)
    {start dheader : Nat} {b : Bool} (hstart : start ≤ s.offset)
    (h : (jump (iteratorDiff dheader (iteratorDiff s.offset start))).run s = (.ok b, s')) :
    s'.offset = start + dheader ↔ start + dheader ≤ s.size ∧ s.offset ≤ start + dheader := by
  have hlt := s.size_lt
  obtain ⟨hmove, -⟩ : Moves false s s' ∧ _ := jump_advances _ _ _ _ hs h
  have hforward := hmove.le
  have hinside := hmove.within
  have hsize := (hmove.external hexternal).2
  rw [iteratorDiff_eq hstart (by omega)] at h
  constructor
  · intro hstop
    omega
  · rintro ⟨hend, hbefore⟩
    rw [iteratorDiff_eq (by omega) (by omega)] at h
    have hroom : dheader - (s.offset - start) ≤ s.room := by
      rw [hs.le_room]
      omega
    obtain ⟨-, rfl⟩ := eq_of_ok (jump_of_room hroom) h
    change s.offset + (dheader - (s.offset - start)) = start + dheader
    omega

lemma standing_enter {e : EncodingAlgorithmFlag} (he : e ≠ .plainCdr) (hs : Standing inside s) :
    Standing true (enter e s) :=
  ⟨hs.version, hs.within, fun _ => he⟩

/-- One call: it is contained if and only if the end of its DHEADER lies in the type around it and
no member runs over this end. -/
theorem contained_iff (hfunctor : ∀ mid x, Advances true true (functor mid x))
    (hs : Standing inside s) (hexternal : s.internalBuffer = false) {limit : Nat}
    (hlimit : limit ≤ s.size)
    (hok : (xcdr2DeserializeType fuel functor .delimitCdr2 x).run s = (.ok x', s')) :
    Contained fuel σ functor x limit s ↔ DelimitedFits fuel σ functor x limit s := by
  have hmoves := (xcdr2DeserializeType_advances (by decide) (fun _ => by decide) hfunctor x
    s x' s' hs hok).1
  obtain ⟨dheader, s1, s2, b, s3, hd, hloop, hjump, hoffset⟩ := xcdr2DeserializeType_delimited hok
  obtain ⟨hword, hencoding⟩ : Moves true s s1 ∧ _ := deserializeU32_advances s _ _ hs hd
  have hs1 := hword.standing hencoding hs
  have hfacing := standing_enter (e := .delimitCdr2) EncodingAlgorithmFlag.noConfusion hs1
  obtain ⟨hmembers, hencoding2⟩ := deserializeInOrder_advances hfunctor _ _ _ _ _ hfacing hloop
  have hs2 := hmembers.standing hencoding2 hfacing
  obtain ⟨hexternal1, hsize1⟩ := hword.external hexternal
  obtain ⟨hexternal2, hsize⟩ := hmembers.external hexternal1
  have hforward : s1.offset ≤ s2.offset := hmembers.le
  have hmembersFit : s2.offset ≤ s1.offset + dheader ↔ _ :=
    deserializeInOrder_le_iff hfunctor hfacing le_rfl (Nat.le_add_right _ _) hloop
  have hstop : s'.offset = s1.offset + dheader ↔ s1.offset + dheader ≤ s.size ∧
      MembersFit functor (s1.offset + dheader) fuel x (enter .delimitCdr2 s1) := by
    rw [hoffset, jump_to_end_iff hs2 hexternal2 hforward hjump, hmembersFit,
      hsize.trans hsize1]
  rw [Contained, DelimitedFits, forall_ok_iff hok, forall_ok_iff hd]
  constructor
  · rintro ⟨dheader', s1', -, hd', hend, hinside, -⟩
    obtain ⟨rfl, rfl⟩ := eq_of_ok hd hd'
    exact ⟨hinside, (hstop.mp hend).2⟩
  · rintro ⟨hinside, hmembers⟩
    have hend := hstop.mpr ⟨hinside.trans hlimit, hmembers⟩
    obtain ⟨new, hlog, hbetween⟩ := hmoves.log rfl
    exact ⟨dheader, s1, new, hd, hend, hinside, hlog, hend ▸ hbetween⟩

/-- Two conditions on the members that are the same wherever a member is decoded. -/
theorem alongMembers_iff (hfunctor : ∀ mid x, Advances true true (functor mid x))
    {condition : Cdr → Bool} {p q : MemberId → σ → Cdr → Prop} (hs : Standing true s)
    (hexternal : s.internalBuffer = false)
    (hmember : ∀ mid x t r t', Standing true t → t.internalBuffer = false → t.size = s.size →
      (functor mid x).run t = (.ok r, t') → (p mid x t ↔ q mid x t))
    (hok : (deserializeInOrder fuel functor condition x).run s = (.ok x', s')) :
    AlongMembers functor condition p fuel x s ↔ AlongMembers functor condition q fuel x s := by
  induction fuel generalizing x s with
  | zero => rfl
  | succ fuel ih =>
    obtain ⟨r, s1, hround, hrest⟩ := bind_eq_ok.mp hok
    rw [deserializeNext, run_read_bind] at hround
    refine imp_congr_right fun hcondition => ?_
    rw [if_pos hcondition] at hround
    obtain ⟨⟨known, y⟩, s2, hcall, hnext⟩ := bind_eq_ok.mp hround
    obtain ⟨hmove, hencoding⟩ := hfunctor _ _ _ _ _ hs hcall
    obtain ⟨hexternal2, hsize2⟩ := hmove.external hexternal
    rw [forall_ok_iff hcall, forall_ok_iff hcall]
    refine and_congr (hmember _ _ _ _ _ hs hexternal rfl hcall) (imp_congr_right fun hknown => ?_)
    obtain rfl : known = true := hknown
    obtain ⟨rfl, rfl⟩ := eq_of_ok (by rfl) hnext
    have hs2 := hmove.standing hencoding hs
    exact ih ⟨hs2.version, hs2.within, hs2.encoding⟩ hexternal2
      (fun mid x t r t' ht hexternal' hsize => hmember mid x t r t' ht hexternal'
        (hsize.trans hsize2)) hrest

/-- A call with its members, which may be held against the DHEADER as soon as this is held against
the type around it. -/
theorem atCall_iff (hfunctor : ∀ mid x, Advances true true (functor mid x))
    {p q : MemberId → σ → Nat → Cdr → Prop} (hs : Standing inside s)
    (hexternal : s.internalBuffer = false) {limit : Nat} (hlimit : limit ≤ s.size)
    (hmember : ∀ mid x limit t r t', Standing true t → t.internalBuffer = false → limit ≤ t.size →
      (functor mid x).run t = (.ok r, t') → (p mid x limit t ↔ q mid x limit t))
    (hok : (xcdr2DeserializeType fuel functor .delimitCdr2 x).run s = (.ok x', s')) :
    AtCall (Contained fuel) fuel functor p x limit s ↔
      AtCall (DelimitedFits fuel) fuel functor q x limit s := by
  obtain ⟨dheader, s1, s2, b, s3, hd, hloop, -, -⟩ := xcdr2DeserializeType_delimited hok
  rw [AtCall, AtCall, contained_iff hfunctor hs hexternal hlimit hok, forall_ok_iff hd,
    forall_ok_iff hd]
  refine and_congr_right fun hfits => ?_
  obtain ⟨hword, hencoding⟩ : Moves true s s1 ∧ _ := deserializeU32_advances s _ _ hs hd
  obtain ⟨hexternal1, hsize1⟩ := hword.external hexternal
  have hend : s1.offset + dheader ≤ s1.size := by
    rw [hsize1]
    exact (hfits dheader s1 hd).1.trans hlimit
  exact alongMembers_iff hfunctor (standing_enter (by decide) (hword.standing hencoding hs))
    hexternal1 (fun mid x t r t' ht hexternal' hsize hrun =>
      hmember mid x _ t r t' ht hexternal' (hend.trans_eq hsize.symm) hrun) hloop

/-- A final type has no DHEADER: its loop goes on until the buffer is empty. -/
theorem xcdr2DeserializeType_plain
    (hok : (xcdr2DeserializeType fuel functor .plainCdr2 x).run s = (.ok x', s')) :
    ∃ s2, (deserializeInOrder fuel functor (fun s => s.offset != s.size) x).run
      (enter .plainCdr2 s) = (.ok x', s2) := by
  rw [xcdr2DeserializeType, if_neg (by decide), run_read_bind] at hok
  rw [setCurrentEncoding, run_modify_bind, setNextMemberId, run_modify_bind] at hok
  obtain ⟨y, s2, hloop, hrest⟩ := bind_eq_ok.mp hok
  obtain ⟨rfl, -⟩ := eq_of_ok (by rfl) hrest
  exact ⟨s2, hloop⟩

theorem Decoder.everyCall_iff {α : Type} (d : Decoder α) {limit : Nat} {a : α}
    (hs : Standing true s) (hexternal : s.internalBuffer = false) (hlimit : limit ≤ s.size)
    (hok : (d.run fuel).run s = (.ok a, s')) :
    d.EveryCall (Contained fuel) fuel limit s ↔ d.EveryCall (DelimitedFits fuel) fuel limit s := by
  induction d generalizing limit s s' with
  | pure a => rfl
  | scalar m k ih =>
    obtain ⟨b, s1, hscalar, hrest⟩ := bind_eq_ok.mp hok
    obtain ⟨hmove, hencoding⟩ := Scalar.run_advances m _ _ _ hs hscalar
    obtain ⟨hexternal1, hsize1⟩ := hmove.external hexternal
    rw [Decoder.EveryCall, Decoder.EveryCall, forall_ok_iff hscalar, forall_ok_iff hscalar]
    exact ih b (hmove.standing hencoding hs) hexternal1 (hlimit.trans_eq hsize1.symm) hrest
  | nested delimited functor x k ihf ihk =>
    have hfunctor : ∀ mid x, Advances true true (functorOf fuel functor mid x) :=
      fun mid x => (functor mid x).run_advances fuel
    obtain ⟨y, s1, hcall, hrest⟩ := bind_eq_ok.mp hok
    change (xcdr2DeserializeType fuel (functorOf fuel functor) _ x).run s = _ at hcall
    obtain ⟨hmove, hencoding⟩ : Moves true s s1 ∧ _ :=
      xcdr2DeserializeType_advances (by cases delimited <;> decide)
        (fun _ => by cases delimited <;> decide) hfunctor x _ _ _ hs hcall
    obtain ⟨hexternal1, hsize1⟩ := hmove.external hexternal
    rw [Decoder.EveryCall, Decoder.EveryCall, forall_ok_iff hcall, forall_ok_iff hcall]
    refine and_congr ?_ (ihk y (hmove.standing hencoding hs) hexternal1
      (hlimit.trans_eq hsize1.symm) hrest)
    · cases delimited with
      | true =>
        exact atCall_iff hfunctor hs hexternal hlimit
          (fun mid x limit t r t' ht hexternal' hlimit' hrun =>
            ihf mid x ht hexternal' hlimit' hrun) hcall
      | false =>
        obtain ⟨s2, hloop⟩ := xcdr2DeserializeType_plain hcall
        exact alongMembers_iff hfunctor (standing_enter (by decide) hs) hexternal
          (fun mid x t r t' ht hexternal' hsize hrun =>
            ihf mid x ht hexternal' (hlimit.trans_eq hsize.symm) hrun) hloop

end Containment

section Samples

def primMembers (p : Prim) (mid : MemberId) (x : p.denote) : Decoder (Bool × p.denote) :=
  if mid.id = 0 then .scalar (.prim p) fun b => .pure (true, b) else .pure (false, x)

def nestedMembers (mid : MemberId) (x : Prim.uint32.denote × Prim.uint8.denote) :
    Decoder (Bool × Prim.uint32.denote × Prim.uint8.denote) :=
  if mid.id = 0 then .scalar (.prim .uint32) fun b => .pure (true, b, x.2)
  else if mid.id = 1 then .nested true (primMembers .uint8) x.2 fun b => .pure (true, x.1, b)
  else .pure (false, x)

def sampleNested (inner : UInt8) : Cdr :=
  ofBytes [9, 0, 0, 0, 7, 0, 0, 0, inner, 0, 0, 0, 5] (by simp)

def sampleWord (dheader : UInt8) : Cdr :=
  ofBytes [dheader, 0, 0, 0, 7, 0, 0, 0] (by simp)

lemma delimitedFits_sampleNested :
    AtEveryCall (DelimitedFits 3) 3 nestedMembers (0, 0) (sampleNested 1) := by
  have hd : deserializeU32.run (sampleNested 1) = (.ok 9, _) := rfl
  refine ⟨(forall_ok_iff hd).mpr ⟨by decide, fun _ => ?_⟩, (forall_ok_iff hd).mpr fun _ => ?_⟩
  · refine (forall_ok_iff rfl).mpr ⟨by decide, fun _ _ => ?_⟩
    exact (forall_ok_iff rfl).mpr ⟨by decide, fun _ h => absurd h (by decide)⟩
  · refine ⟨fun _ _ _ => trivial, (forall_ok_iff rfl).mpr fun _ _ => ?_⟩
    refine ⟨⟨⟨?_, ?_⟩, fun _ _ _ => trivial⟩, (forall_ok_iff rfl).mpr fun _ h =>
      absurd h (by decide)⟩
    · refine (forall_ok_iff rfl).mpr ⟨by decide, fun _ => ?_⟩
      exact (forall_ok_iff rfl).mpr ⟨by decide, fun _ h => absurd h (by decide)⟩
    · refine (forall_ok_iff rfl).mpr fun _ => ?_
      exact ⟨fun _ _ _ => trivial, (forall_ok_iff rfl).mpr fun _ h => absurd h (by decide)⟩

end Samples

end EasyDds.Cdr
