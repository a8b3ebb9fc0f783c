import EasyDds.Rtps.Fragment.Assembly

/-!
The copy made by `add_fragments`: where it goes and how much it reads. Nothing is assumed about
the list of missing fragments, so the results hold for any contents of the payload.
-/

namespace EasyDds.Rtps.CacheChange

open Option

/-- A change of the given payload length and fragment size, in any state of its reassembly. -/
structure Fragmented (c : CacheChange) (length fragmentSize : Nat) : Prop where
  length_eq : c.serializedPayload.length = length
  fragmentSize_eq : c.fragmentSize = fragmentSize
  fragmentCount_eq : c.fragmentCount =
    if 0 < fragmentSize then countFragments length fragmentSize else 0

def Copy.Inside (copy : Copy) (incomingLength length : Nat) : Prop :=
  copy.length ≤ incomingLength ∧ copy.offset + copy.length ≤ length

/-- Every fragment begins inside the payload: the count is the length divided by the size and
rounded up, and a sum that wraps only makes it smaller. -/
theorem countFragments_spec {length fragmentSize n : Nat} (hlen : length < 2 ^ 32)
    (hsize : fragmentSize < 2 ^ 16) (hn : n < countFragments length fragmentSize) :
    fragmentSize * n < length := by
  rw [countFragments] at hn
  have hpos : 0 < fragmentSize := by
    by_contra h
    simp [Nat.eq_zero_of_not_pos h] at hn
  -- A sum past `2^32` leaves less than one fragment.
  have hsum : length + fragmentSize - 1 < 2 ^ 32 := by
    by_contra hge
    have hsmall : (length + fragmentSize - 1) % 2 ^ 32 < fragmentSize := by omega
    rw [Nat.div_eq_of_lt hsmall] at hn
    omega
  rw [Nat.mod_eq_of_lt hsum, Nat.lt_div_iff_mul_lt hpos] at hn
  rw [Nat.mul_comm] at hn
  omega

variable {fuel : Nat} {c : CacheChange} {incoming : SerializedPayload} {added : Added} {copy : Copy}

/-- `received_fragments` reports a change only for a run that starts before its end. The end is a
sum that may wrap, so this says something. -/
theorem receivedFragments_changed {d : CacheChange} {initial num : Nat}
    (h : receivedFragments fuel c initial num = some (true, d)) :
    0 < c.fragmentSize ∧ initial < c.fragmentCount ∧ initial < (initial + num) % 2 ^ 32 := by
  rw [receivedFragments] at h
  split at h
  case isFalse => simp at h
  case isTrue hrange =>
    refine ⟨hrange.1, hrange.2, ?_⟩
    dsimp only at h
    split at h
    case isTrue hfirst =>
      split at h
      · cases h
      · have hlt : c.firstMissingFragment < min ((initial + num) % 2 ^ 32) c.fragmentCount := by
          simpa using congrArg (Option.map Prod.fst) h
        omega
    case isFalse =>
      rw [unlinkFragments] at h
      split at h
      · cases h
      · simp at h
      · rename_i current hfind
        dsimp only at h
        split at h
        · cases h
        · split at h
          case isFalse => simp at h
          case isTrue hlt =>
            have hge := (findBefore_found hfind).2
            omega

lemma storeFragments_copied {offset length initial num : Nat}
    (h : storeFragments fuel c incoming offset length initial num = some added)
    (hcopy : added.copied = some copy) :
    copy = ⟨offset, length⟩ ∧ ∃ d, receivedFragments fuel c initial num = some (true, d) := by
  rw [storeFragments] at h
  split at h
  · cases h
  · obtain rfl := some.inj h
    cases hcopy
  · rename_i d hreceived
    obtain rfl := some.inj h
    exact ⟨(some.inj hcopy).symm, d, hreceived⟩

/-- What a copy says about the call that made it. -/
theorem addFragments_copied {start num : Nat}
    (h : addFragments fuel c incoming start num = some added)
    (hcopy : added.copied = some copy) : ∃ initial last d, initial = (start + 2 ^ 32 - 1) % 2 ^ 32 ∧
      last = (start + num + 2 ^ 32 - 1) % 2 ^ 32 ∧
      receivedFragments fuel c initial num = some (true, d) ∧
      copy.offset = initial * c.fragmentSize % 2 ^ 32 ∧
      (last < c.fragmentCount ∧ copy.length = c.fragmentSize * num % 2 ^ 32 ∧
          copy.length ≤ incoming.length ∨
        last = c.fragmentCount ∧
          copy.length = (c.serializedPayload.length + 2 ^ 32 - copy.offset) % 2 ^ 32) := by
  refine ⟨(start + 2 ^ 32 - 1) % 2 ^ 32, (start + num + 2 ^ 32 - 1) % 2 ^ 32, ?_⟩
  simp only [addFragments] at h
  split at h
  case isTrue =>
    obtain rfl := some.inj h
    cases hcopy
  case isFalse hlast =>
    split at h
    case isTrue =>
      obtain rfl := some.inj h
      cases hcopy
    case isFalse hshort =>
      -- The length of the copy is that of whole fragments or what is left of the payload.
      split at h
      case isTrue hlt =>
        split at h
        case isTrue =>
          obtain rfl := some.inj h
          cases hcopy
        case isFalse =>
          obtain ⟨rfl, d, hreceived⟩ := storeFragments_copied h hcopy
          have hle := Nat.le_of_not_lt fun hless => hshort ⟨hlt, hless⟩
          exact ⟨d, rfl, rfl, hreceived, rfl, .inl ⟨hlt, rfl, hle⟩⟩
      case isFalse hge =>
        split at h
        case isTrue =>
          obtain rfl := some.inj h
          cases hcopy
        case isFalse =>
          obtain ⟨rfl, d, hreceived⟩ := storeFragments_copied h hcopy
          exact ⟨d, rfl, rfl, hreceived, rfl, .inr ⟨by omega, rfl⟩⟩

lemma getNextMissingFragment_setNextMissingFragment (c : CacheChange) (i : Nat) {next : Nat}
    (hnext : next < 2 ^ 32) :
    (c.setNextMissingFragment i next).getNextMissingFragment i = next := by
  have hslice := Mem.slice_write_self c.serializedPayload.data
    (nextFragmentPointer c.fragmentSize i) (littleEndian 4 next)
  calc (c.setNextMissingFragment i next).getNextMissingFragment i
      = ofLittleEndian (littleEndian 4 next) := congrArg ofLittleEndian hslice
    _ = next := by rw [ofLittleEndian_littleEndian, Nat.mod_eq_of_lt (by omega)]

section Bounds

variable {length fragmentSize incomingLength start num : Nat}

/-- The data of a run that ends with the last fragment reaches to the end of the payload. -/
def CarriesLastFragment (length fragmentSize incomingLength start num : Nat) : Prop :=
  1 ≤ start → start ≤ countFragments length fragmentSize → 1 ≤ num →
    start + num - 1 = countFragments length fragmentSize →
    length - fragmentSize * (start - 1) ≤ incomingLength

lemma inside_of_carriesLastFragment (hlen : length < 2 ^ 32) (hsize : fragmentSize < 2 ^ 16)
    (hstart : start < 2 ^ 32) (hnum : num < 2 ^ 32)
    (hlast : CarriesLastFragment length fragmentSize incomingLength start num)
    (hc : c.Fragmented length fragmentSize) (hincoming : incoming.length = incomingLength)
    (h : addFragments fuel c incoming start num = some added) (hcopy : added.copied = some copy) :
    copy.Inside incomingLength length := by
  obtain ⟨initial, last, d, hinitial, hlastIndex, hreceived, hoffset, hcases⟩ :=
    addFragments_copied h hcopy
  obtain ⟨hpos, hrange, hrun⟩ := receivedFragments_changed hreceived
  rw [hc.fragmentSize_eq] at hpos hoffset hcases
  rw [hc.fragmentCount_eq, if_pos hpos] at hrange hcases
  rw [hc.length_eq] at hcases
  -- The run does not wrap: otherwise it would end before it starts.
  have hend : last = initial + num := by omega
  have hbelow := countFragments_spec hlen hsize hrange
  have hoffset' : copy.offset = fragmentSize * initial := by
    rw [hoffset, Nat.mul_comm, Nat.mod_eq_of_lt (by omega)]
  rcases hcases with ⟨hlt, hlength, hle⟩ | ⟨hlt, hlength⟩
  · have hinner := countFragments_spec hlen hsize hlt
    rw [hend, Nat.mul_add] at hinner
    constructor
    · omega
    · omega
  · have hcarries := hlast (by omega) (by omega) (by omega) (by omega)
    rw [show start - 1 = initial by omega] at hcarries
    constructor
    · omega
    · omega

def lastMissing (length fragmentSize initial : Nat) : CacheChange :=
  setNextMissingFragment
    { kind := .alive
      writerGUID := Guid.unknown
      sequenceNumber := 1
      serializedPayload := ⟨length, fun _ => 0, length⟩
      sourceTimestamp := ⟨0, 0⟩
      fragmentSize := fragmentSize
      fragmentCount := countFragments length fragmentSize
      firstMissingFragment := initial }
    initial (countFragments length fragmentSize)

lemma fragmented_lastMissing (length fragmentSize initial : Nat) :
    (lastMissing length fragmentSize initial).Fragmented length fragmentSize := by
  refine ⟨rfl, rfl, ?_⟩
  split
  case isTrue => rfl
  case isFalse hzero =>
    rw [Nat.eq_zero_of_not_pos hzero]
    exact Nat.div_zero _

lemma receivedFragments_lastMissing {initial : Nat} (hsize : 0 < fragmentSize)
    (hrange : initial < countFragments length fragmentSize)
    (hend : initial + num = countFragments length fragmentSize) :
    ∃ d, receivedFragments 1 (lastMissing length fragmentSize initial) initial num =
      some (true, d) := by
  have hcount : countFragments length fragmentSize < 2 ^ 32 :=
    Nat.lt_of_le_of_lt (Nat.div_le_self _ _) (Nat.mod_lt _ (by decide))
  have hnext : (lastMissing length fragmentSize initial).getNextMissingFragment initial =
      countFragments length fragmentSize :=
    getNextMissingFragment_setNextMissingFragment _ initial hcount
  have hlast : min ((initial + num) % 2 ^ 32) (countFragments length fragmentSize) =
      countFragments length fragmentSize := by
    omega
  have hfirst : (lastMissing length fragmentSize initial).firstMissingFragment = initial := rfl
  have hfragments : (lastMissing length fragmentSize initial).fragmentCount =
      countFragments length fragmentSize := rfl
  have hskip : skipBelow (lastMissing length fragmentSize initial).getNextMissingFragment
      (countFragments length fragmentSize) 1 initial =
        some (countFragments length fragmentSize) := by
    rw [skipBelow, if_pos hrange, hnext]
    exact skipBelow_of_le 0 (Nat.le_refl _)
  have hguard : 0 < (lastMissing length fragmentSize initial).fragmentSize ∧
      initial < (lastMissing length fragmentSize initial).fragmentCount := ⟨hsize, hrange⟩
  simp only [receivedFragments, hguard, and_self, if_true, hfirst, Nat.le_refl, hfragments, hlast,
    hskip, hrange, decide_true]
  exact ⟨_, rfl⟩

/-- A run up to the last fragment copies to the end of the payload, whatever came in: the length of
what came in is not looked at. -/
theorem addFragments_lastMissing (length fragmentSize start num : Nat) (hlen : length < 2 ^ 32)
    (hsize : fragmentSize < 2 ^ 16) (hnum : 1 ≤ num) (hstart : 1 ≤ start)
    (hrange : start ≤ countFragments length fragmentSize)
    (hend : start + num - 1 = countFragments length fragmentSize) (incoming : SerializedPayload) :
    ∃ added, addFragments 1 (lastMissing length fragmentSize (start - 1)) incoming start num =
        some added ∧
      added.copied =
        some ⟨fragmentSize * (start - 1), length - fragmentSize * (start - 1)⟩ := by
  have hcount : countFragments length fragmentSize < 2 ^ 32 :=
    Nat.lt_of_le_of_lt (Nat.div_le_self _ _) (Nat.mod_lt _ (by decide))
  have hpos : 0 < fragmentSize := by
    by_contra hzero
    rw [Nat.eq_zero_of_not_pos hzero, countFragments, Nat.div_zero] at hrange
    omega
  have hbelow := countFragments_spec hlen hsize (n := start - 1) (by omega)
  have hinitial : (start + 2 ^ 32 - 1) % 2 ^ 32 = start - 1 := by omega
  have hlast : (start + num + 2 ^ 32 - 1) % 2 ^ 32 = countFragments length fragmentSize := by omega
  have hoffset : (start - 1) * fragmentSize % 2 ^ 32 = fragmentSize * (start - 1) := by
    rw [Nat.mul_comm, Nat.mod_eq_of_lt (by omega)]
  obtain ⟨d, hreceived⟩ :=
    receivedFragments_lastMissing hpos (by omega : start - 1 < countFragments length fragmentSize)
      (by omega : start - 1 + num = countFragments length fragmentSize)
  have hfields : (lastMissing length fragmentSize (start - 1)).fragmentSize = fragmentSize ∧
      (lastMissing length fragmentSize (start - 1)).fragmentCount =
        countFragments length fragmentSize ∧
      (lastMissing length fragmentSize (start - 1)).serializedPayload.length = length :=
    ⟨rfl, rfl, rfl⟩
  have hlength : (length + 2 ^ 32 - fragmentSize * (start - 1)) % 2 ^ 32 =
      length - fragmentSize * (start - 1) := by
    omega
  have hfits : ¬ length <
      (fragmentSize * (start - 1) + (length - fragmentSize * (start - 1))) % 2 ^ 32 := by
    omega
  simp only [addFragments, hinitial, hlast, hfields.1, hfields.2.1, hfields.2.2, hoffset,
    Nat.lt_irrefl, if_false, false_and, hlength, hfits, storeFragments, hreceived]
  exact ⟨_, rfl, rfl⟩

/-- The copies of a call with these numbers stay inside the incoming data and the payload, in
every state of the change, exactly if a run up to the last fragment carries its bytes. -/
theorem addFragments_inside_iff (length fragmentSize incomingLength start num : Nat)
    (hlen : length < 2 ^ 32) (hsize : fragmentSize < 2 ^ 16) (hstart : start < 2 ^ 32)
    (hnum : num < 2 ^ 32) :
    (∀ c, Fragmented c length fragmentSize →
      ∀ incoming : SerializedPayload, incoming.length = incomingLength →
      ∀ fuel added copy, addFragments fuel c incoming start num = some added →
        added.copied = some copy → copy.Inside incomingLength length) ↔
      CarriesLastFragment length fragmentSize incomingLength start num := by
  constructor
  · intro hall hstart hrange hnum hend
    obtain ⟨added, hadded, hcopied⟩ := addFragments_lastMissing length fragmentSize start num hlen
      hsize hnum hstart hrange hend ⟨incomingLength, fun _ => 0, incomingLength⟩
    exact (hall _ (fragmented_lastMissing ..) _ rfl _ _ _ hadded hcopied).1
  · intro hlast c hc incoming hincoming fuel added copy hadded hcopied
    exact inside_of_carriesLastFragment hlen hsize hstart hnum hlast hc hincoming hadded hcopied

theorem addFragments_inside_pair :
    CarriesLastFragment 8 4 4 2 1 ∧
      ∀ c, Fragmented c 8 4 → ∀ incoming : SerializedPayload, incoming.length = 4 →
      ∀ fuel added copy, addFragments fuel c incoming 2 1 = some added →
        added.copied = some copy → copy.Inside 4 8 := by
  have hcarries : CarriesLastFragment 8 4 4 2 1 := by
    unfold CarriesLastFragment
    decide
  exact ⟨hcarries, (addFragments_inside_iff 8 4 4 2 1 (by decide) (by decide) (by decide)
    (by decide)).mpr hcarries⟩

/-- The second of two fragments of four bytes, carried by a submessage with one byte: four bytes
are copied. -/
theorem addFragments_reads_past_incoming :
    ∃ (incoming : SerializedPayload) (added : Added) (copy : Copy),
      incoming.length = 1 ∧ addFragments 1 (lastMissing 8 4 1) incoming 2 1 = some added ∧
        added.copied = some copy ∧ copy.length = 4 := by
  obtain ⟨added, hadded, hcopied⟩ := addFragments_lastMissing 8 4 2 1 (by decide) (by decide)
    (by decide) (by decide) (by decide) (by decide) ⟨1, fun _ => 0, 1⟩
  exact ⟨_, added, _, rfl, hadded, hcopied, rfl⟩

end Bounds

end EasyDds.Rtps.CacheChange
