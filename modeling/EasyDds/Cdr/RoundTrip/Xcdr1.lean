import EasyDds.Cdr.RoundTrip.Basic

/-!
Mutable types in XCDRv1. Members may start a new alignment origin at any depth; encoder and
decoder move it at the same places.
-/

namespace EasyDds.Cdr

variable {P : Profile} {fuel : Nat}

/-- A PL_CDR structure comes back with the padding it was written with: each member starts its own
alignment, so writer and reader agree on it from wherever they begin. -/
theorem plCdr_roundTrip (hv : P.version = .xcdrV1) {ms : Members}
    (hheaders : ms.HeadersOk P .mutable) (hdistinct : (Ty.struct .mutable ms).Distinct)
    (hfuel : (Ty.struct .mutable ms).rounds ≤ fuel) {v : ms.denote} (hsound : ms.Sound P .mutable v)
    (hclean : ms.Clean v) {s : Cdr} (hs : Ready P s)
    (hroom : s.offset + spareRoom P .mutable ms v s ≤ s.size)
    (hsmall : imageSize P .mutable ms v s < 2 ^ 32) : RoundTripsAligned fuel .mutable ms v s := by
  obtain ⟨s', hrun, -, -, hdecode⟩ := decodeStruct_encodeStruct (.inl hv) hheaders hdistinct hfuel
    hsound hs hroom hsmall
  rw [(ms.normal_eq_iff v).mpr hclean] at hdecode
  refine ⟨s', hrun, fun d hd => ?_⟩
  obtain ⟨d', hrun', hoffset, hpads⟩ := hdecode d hd
  obtain ⟨pads, hwritten, hread⟩ := hpads hv
  exact ⟨d', pads, hrun', hoffset, hwritten, hread⟩

def threeMembers : Members :=
  .cons ⟨⟨0x10000, false, by decide⟩, .longHeader⟩ (.prim .uint64)
    (.cons ⟨⟨5, true, by decide⟩, .autoWithLongHeaderByDefault⟩ (.optional (.prim .uint16))
      (.cons ⟨⟨7, false, by decide⟩, .autoWithShortHeaderByDefault⟩ .string .nil))

theorem plCdr_roundTrip_three : RoundTripsAligned 4 .mutable threeMembers
    ((5 : BitVec 64), (some 3 : Option (BitVec 16)), ([104, 105] : List UInt8), ())
    (ofFastBuffer (fun _ => 0) 128 (by decide) .xcdrV1 false) :=
  plCdr_roundTrip (P := ⟨.xcdrV1, false⟩) rfl
    (by simp [threeMembers, Members.HeadersOk, MemberInfo.HeaderOk, Ty.HeadersOk])
    (by simp [threeMembers, Ty.Distinct, Members.Distinct, Members.ids, Members.length]) (by decide)
    (by simp [threeMembers, Members.Sound, Ty.Sound, Ty.MemberOk])
    (by simp [threeMembers, Members.Clean, Ty.Clean, Prim.Clean, cleanString])
    (ready_ofFastBuffer ⟨.xcdrV1, false⟩ _ _ _) (by decide) (by decide)

def optionalSequence : Members :=
  .cons firstMember (.vector (.optional (.prim .uint32))) .nil

/-- Only a member header says that an optional is absent: inside a sequence nothing does. -/
theorem plCdr_optionalSequence_fails : ¬RoundTripsAligned 4 .mutable optionalSequence
    (([none] : List (Option (BitVec 32))), ())
    (ofFastBuffer (fun _ => 0) 64 (by decide) .xcdrV1 false) := by
  intro hround
  have hok := decodeEncoded_of_roundTrips (by decide) hround.roundTrips
  have hraises : (decodeEncoded 4 .mutable optionalSequence
      (([none] : List (Option (BitVec 32))), ()) 64 (by decide) .xcdrV1).toBool = false := by
    decide
  rw [hok] at hraises
  exact Bool.noConfusion hraises

end EasyDds.Cdr
