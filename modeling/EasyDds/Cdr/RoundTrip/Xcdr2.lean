import EasyDds.Cdr.RoundTrip.Basic

/-!
Mutable types in XCDRv2. The header of a member is completed after its content, and may leave
the size to the first word of the content.
-/

namespace EasyDds.Cdr

variable {P : Profile} {fuel : Nat}

/-- Where the decoder accepts the image of a PL_CDR2 structure, the clean values come back and
no others. -/
theorem plCdr2_roundTrip_iff_clean (hv : P.version = .xcdrV2) {ms : Members}
    (hheaders : ms.HeadersOk P .mutable) (hdistinct : (Ty.struct .mutable ms).Distinct)
    (hfuel : (Ty.struct .mutable ms).rounds ≤ fuel) {v : ms.denote} (hsound : ms.Sound P .mutable v)
    {s : Cdr} (hs : Ready P s) (hroom : s.offset + spareRoom P .mutable ms v s ≤ s.size)
    (hsmall : imageSize P .mutable ms v s < 2 ^ 32) :
    RoundTrips fuel .mutable ms v s ↔ ms.Clean v := by
  obtain ⟨s', hrun, -, hle, hdecode⟩ := decodeStruct_encodeStruct (.inr hv) hheaders hdistinct
    hfuel hsound hs hroom hsmall
  rw [← ms.normal_eq_iff v]
  constructor
  · rintro ⟨s1, hrun1, hround⟩
    obtain rfl : s' = s1 := by
      rw [hrun] at hrun1
      exact congrArg Prod.snd hrun1
    -- the encoder's own buffer, read again from where it started
    have hreceives : Receives s s' { s with mem := s'.mem } :=
      ⟨rfl, rfl, rfl, rfl, rfl, hs.last_le, hle, fun _ _ _ => rfl⟩
    obtain ⟨d', hdone, -⟩ := hdecode _ hreceives
    obtain ⟨d'', hdone', -⟩ := hround _ hreceives
    rw [hdone] at hdone'
    exact Except.ok.inj (congrArg Prod.fst hdone')
  · intro hnormal
    refine ⟨s', hrun, fun d hd => ?_⟩
    obtain ⟨d', hdone, hend, -⟩ := hdecode d hd
    rw [hnormal] at hdone
    exact ⟨d', hdone, hend⟩

def twoMembers : Members :=
  .cons ⟨⟨3, false, by decide⟩, .autoWithShortHeaderByDefault⟩ (.map (.prim .uint16) .string)
    (.cons ⟨⟨9, true, by decide⟩, .autoWithShortHeaderByDefault⟩ (.vector (.prim .uint64)) .nil)

theorem plCdr2_roundTrip_two : RoundTrips 4 .mutable twoMembers
      ((OrderedMap.ofEntries [(7, [97, 98])] : OrderedMap (KeyTy.prim .uint16).rank (List UInt8)),
        ([1, 2] : List (BitVec 64)), ())
      (ofFastBuffer (fun _ => 0) 128 (by decide) .xcdrV2 false) ↔
    Members.Clean twoMembers
      ((OrderedMap.ofEntries [(7, [97, 98])] : OrderedMap (KeyTy.prim .uint16).rank (List UInt8)),
        ([1, 2] : List (BitVec 64)), ()) :=
  plCdr2_roundTrip_iff_clean (P := ⟨.xcdrV2, false⟩) rfl
    (by simp [twoMembers, Members.HeadersOk, MemberInfo.HeaderOk, Ty.HeadersOk])
    (by simp [twoMembers, Ty.Distinct, Members.Distinct, Members.ids, Members.length]) (by decide)
    (by simp [twoMembers, Members.Sound, Ty.Sound, Ty.MemberOk, Ty.VectorOk, Ty.payload,
      Ty.isEmpty, Ty.NextIntOk])
    (ready_ofFastBuffer ⟨.xcdrV2, false⟩ _ _ _) (by decide) (by decide)

def stringMap : Members :=
  .cons firstMember (.map .string (.prim .uint32)) .nil

/-- The flag that the last key leaves behind makes the count of the map pass for its size. -/
theorem plCdr2_stringMap_fails : ¬RoundTrips 4 .mutable stringMap
    ((OrderedMap.ofEntries [([97], 1)] : OrderedMap KeyTy.string.rank (BitVec 32)), ())
    (ofFastBuffer (fun _ => 0) 64 (by decide) .xcdrV2 false) := by
  intro hround
  have hok := decodeEncoded_of_roundTrips (by decide) hround
  have hraises : (decodeEncoded 4 .mutable stringMap
      ((OrderedMap.ofEntries [([97], 1)] : OrderedMap KeyTy.string.rank (BitVec 32)), ()) 64
      (by decide) .xcdrV2).toBool = false := by
    decide
  rw [hok] at hraises
  exact Bool.noConfusion hraises

end EasyDds.Cdr
