import EasyDds.Rtps.Fragment.Reassembly

/-!
Sizes for which the pointers of the missing fragments do not fit, and what goes wrong there. With
the results for sizes that fit this says exactly when reassembly works.
-/

namespace EasyDds.Rtps.CacheChange

open List Option

def reserved (length : Nat) : CacheChange where
  kind := .alive
  writerGUID := Guid.unknown
  sequenceNumber := 1
  serializedPayload := ⟨length, fun _ => 0, length⟩
  sourceTimestamp := ⟨0, 0⟩
  fragmentSize := 0
  fragmentCount := 0
  firstMissingFragment := 0

section Fresh

variable {length size : Nat}

def fresh (length size : Nat) : CacheChange := (reserved length).setFragmentSize size true

lemma fresh_eq (hsize : 1 ≤ size) : fresh length size =
      ({ reserved length with
        fragmentSize := size
        fragmentCount := countFragments length size
        firstMissingFragment := 0 } : CacheChange).linkUpTo (countFragments length size) :=
  setFragmentSize_true hsize

lemma fresh_fields (length : Nat) (hsize : 1 ≤ size) : (fresh length size).fragmentSize = size ∧
      (fresh length size).fragmentCount = countFragments length size ∧
      (fresh length size).firstMissingFragment = 0 ∧
      (fresh length size).serializedPayload.length = length := by
  rw [fresh_eq hsize]
  exact linkUpTo_fields _ _

lemma uncovered_nil (n : Nat) : uncovered [] n = range n := by simp [uncovered, covered]

/-- A sum that wraps leaves no fragments, and the change passes for assembled at once. So it does
not wrap where reassembly works. -/
theorem sum_le_of_reassembles (hlen : 1 ≤ length) (hlimit : length < 2 ^ 32) (hsize : 1 ≤ size)
    (hsmall : size < 2 ^ 16) (h : Reassembles length size) : length + size ≤ 2 ^ 32 := by
  by_contra hsum
  have hcount : countFragments length size = 0 :=
    Nat.div_eq_of_lt (by omega)
  obtain ⟨d, hrun, hd⟩ := h (replicate length 0) (by simp) (reserved length) rfl [] (by simp)
    (fragments length size + 1) (by omega)
  obtain rfl : fresh length size = d := some.inj hrun
  have hassembled : (fresh length size).isFullyAssembled = true := by
    rw [isFullyAssembled, (fresh_fields length hsize).2.1, hcount]
    exact decide_eq_true (Nat.zero_le _)
  have hpos := (fragments_bounds hlen hsize).1
  have hcovered := hd.assembled_iff.mp hassembled 0 (by simpa using hpos)
  cases hcovered

/-- A pointer whose offset wraps overwrites the one of the first fragment, and the list ends
there. -/
theorem offset_lt_of_reassembles (hlen : 1 ≤ length) (hlimit : length < 2 ^ 32)
    (hsize : 1 ≤ size) (hsum : length + size ≤ 2 ^ 32) (h : Reassembles length size) :
    size * (fragments length size - 1) + 3 < 2 ^ 32 := by
  by_contra hwrap
  obtain ⟨hpos, hlow, hhigh⟩ := fragments_bounds hlen hsize
  obtain ⟨d, hrun, hd⟩ := h (replicate length 0) (by simp) (reserved length) rfl [] (by simp)
    (fragments length size + 1) (by omega)
  obtain rfl : fresh length size = d := some.inj hrun
  obtain ⟨set, hset, hitems⟩ := hd.missing
  rw [length_replicate, uncovered_nil] at hitems
  have hcount : countFragments length size = fragments length size := countFragments_eq hsum
  have hfields := fresh_fields length hsize
  generalize hn : fragments length size = n at *
  obtain ⟨k, rfl⟩ : ∃ k, n = k + 1 := ⟨n - 1, by omega⟩
  rw [Nat.add_sub_cancel] at hwrap hlow
  have hk : 0 < k := by
    by_contra hzero
    rw [Nat.eq_zero_of_not_pos hzero] at hwrap
    omega
  have hsame : nextFragmentPointer size 0 = nextFragmentPointer size k := by
    simp only [nextFragmentPointer, Nat.mul_zero]
    omega
  have hnext : (fresh length size).getNextMissingFragment 0 = k + 1 := by
    have hle : k ≤ size * k := Nat.le_mul_of_pos_left k hsize
    have hlast : (fresh length size).getNextMissingFragment k = k + 1 := by
      rw [fresh_eq hsize, hcount, linkUpTo_succ]
      exact getNextMissingFragment_setNextMissingFragment _ k (by omega)
    rw [getNextMissingFragment, hfields.1] at hlast ⊢
    rwa [hsame]
  have hvisit : visitBelow (fresh length size).getNextMissingFragment
      (fresh length size).fragmentCount (k + 1 + 1) (fresh length size).firstMissingFragment =
        some [0] := by
    rw [hfields.2.1, hfields.2.2.1, hcount, visitBelow, if_pos (Nat.succ_pos k), hnext,
      visitBelow_of_le _ (Nat.le_refl _)]
    rfl
  obtain ⟨seen, hseen, hlisted⟩ := getMissingFragments_of_visit hvisit (by simp)
    (by simp [hfields.2.2.1]) (by rw [hfields.2.2.1]; decide)
  obtain rfl : seen = set := some.inj (hseen.symm.trans hset)
  have hsecond : 2 ∈ seen.forEach := by
    rw [hitems]
    refine mem_map.mpr ⟨1, mem_filter.mpr ⟨mem_range.mpr (by omega), ?_⟩, rfl⟩
    exact decide_eq_true (by omega)
  rw [hlisted] at hsecond
  obtain ⟨m, hm, hm1⟩ := mem_map.mp hsecond
  have hzero := mem_singleton.mp (mem_filter.mp hm).1
  omega

lemma pointer_five {i : Nat} (h : 5 * i + 3 < 2 ^ 32) :
    nextFragmentPointer 5 i = (5 * i + 3) / 4 * 4 := by
  rw [nextFragmentPointer, Nat.mod_eq_of_lt h]

lemma getNextMissingFragment_fresh_five (hsum : length + 5 ≤ 2 ^ 32)
    (hlow : 5 * (fragments length 5 - 1) + 3 < 2 ^ 32) {i : Nat} (hi : i < fragments length 5) :
    (fresh length 5).getNextMissingFragment i = i + 1 := by
  rw [fresh_eq (by decide), countFragments_eq hsum]
  refine getNextMissingFragment_linkUpTo (by omega) (fun i j hij hj => ?_) (Nat.le_refl _) hi
  rw [pointer_five (by omega), pointer_five (by omega)]
  omega

def thirdFragment : Call := ⟨⟨5, fun _ => 255, 5⟩, 3, 1⟩

lemma carries_thirdFragment (hfour : 4 ≤ fragments length 5) (hlong : 20 ≤ length) :
    thirdFragment.Carries (replicate length 255) 5 := by
  have hspan : thirdFragment.span length 5 = 5 := by
    simp only [Call.span, thirdFragment]
    omega
  refine ⟨by decide, by decide, ?_, ?_, ?_⟩
  · rw [length_replicate]
    exact Nat.le_trans (by decide) hfour
  · rw [length_replicate, hspan]
    exact Nat.le_refl 5
  · intro k hk
    rw [length_replicate, hspan] at hk
    rw [getElem?_replicate, if_pos (by simp only [thirdFragment]; omega)]
    rfl

/-- The third fragment alone is linked out behind the second, and its bytes are copied. -/
theorem addFragments_thirdFragment {c : CacheChange} {n fuel : Nat} (hsize : c.fragmentSize = 5)
    (hcount : c.fragmentCount = n) (hfirst : c.firstMissingFragment = 0)
    (hlength : c.serializedPayload.length = length) (hlong : 20 ≤ length) (hlimit : length < 2 ^ 32)
    (hfour : 4 ≤ n) (hfuel : 4 ≤ fuel) (hnext : ∀ i < n, c.getNextMissingFragment i = i + 1) : ∃
    added, addFragments fuel c thirdFragment.incoming thirdFragment.start thirdFragment.num =
        some added ∧
      added.change = (c.setNextMissingFragment 1 3).fill 10 (replicate 5 255) := by
  obtain ⟨fuel, rfl⟩ : ∃ k, fuel = k + 2 := ⟨fuel - 2, by omega⟩
  have hfind : findBefore c.getNextMissingFragment 2 (fuel + 2) 0 = some (some 1) := by
    simp [findBefore, hnext 0 (by omega), hnext 1 (by omega)]
  have hskip : skipBelow c.getNextMissingFragment 3 (fuel + 2) 2 = some 3 := by
    rw [skipBelow, if_pos (by decide), hnext 2 (by omega)]
    exact skipBelow_of_le _ (Nat.le_refl 3)
  have hlast : min ((2 + 1) % 2 ^ 32) n = 3 := by omega
  have hreceived : receivedFragments (fuel + 2) c 2 1 =
      some (true, c.setNextMissingFragment 1 3) := by
    have hrange : 0 < 5 ∧ 2 < n := ⟨by decide, by omega⟩
    simp only [receivedFragments, hsize, hcount, hrange, and_self, if_true, hfirst, hlast,
      unlinkFragments, hfind, hnext 1 (by omega), hskip]
    rfl
  have hchecks : ¬ n < 3 ∧ 3 < n ∧ ¬ length < 15 := by omega
  have hrun : addFragments (fuel + 2) c thirdFragment.incoming 3 1 =
      storeFragments (fuel + 2) c thirdFragment.incoming 10 5 2 1 := by
    simp only [addFragments, hsize, hcount, hlength]
    norm_num [hchecks, thirdFragment]
  refine ⟨⟨((c.setNextMissingFragment 1 3).fill 10 (replicate 5 255)).isFullyAssembled,
    (c.setNextMissingFragment 1 3).fill 10 (replicate 5 255), some ⟨10, 5⟩⟩, ?_, rfl⟩
  change addFragments (fuel + 2) c thirdFragment.incoming 3 1 = _
  rw [hrun, storeFragments, hreceived]
  rfl

/-- The pointer of the second fragment, overwritten by two bytes of the third. -/
theorem getNextMissingFragment_overwritten {c : CacheChange} (hsize : c.fragmentSize = 5) :
    ((c.setNextMissingFragment 1 3).fill 10 (replicate 5 255)).getNextMissingFragment 1 =
      4294901763 := by
  have hpointer : nextFragmentPointer 5 1 = 8 := by decide
  have hslice : ((c.setNextMissingFragment 1 3).fill 10
      (replicate 5 255)).serializedPayload.data.slice 8 4 = [3, 0, 255, 255] := by
    simp only [fill, setNextMissingFragment, hsize, hpointer, Mem.slice, Mem.write]
    rfl
  have hfield : ((c.setNextMissingFragment 1 3).fill 10 (replicate 5 255)).fragmentSize = 5 :=
    hsize
  rw [getNextMissingFragment, hfield, hpointer, hslice]
  decide

/-- In fragments of five bytes the second pointer reaches into the third fragment, whose bytes
then cut the list behind the second fragment. -/
theorem not_reassembles_five (hlimit : length < 2 ^ 32) (hsum : length + 5 ≤ 2 ^ 32)
    (hlong : 20 ≤ length) : ¬ Reassembles length 5 := by
  intro h
  obtain ⟨hpos, hlow, hhigh⟩ := fragments_bounds (by omega : 1 ≤ length) (by decide : 1 ≤ 5)
  have hfour : 4 ≤ fragments length 5 := by omega
  obtain ⟨hsize, hcount, hfirst, hlength⟩ := fresh_fields length (by decide : 1 ≤ 5)
  rw [countFragments_eq hsum] at hcount
  have hnext := fun i (hi : i < fragments length 5) =>
    getNextMissingFragment_fresh_five hsum (by omega) hi
  obtain ⟨d, hrun, hd⟩ := h (replicate length 255) (by simp) (reserved length) rfl
    [thirdFragment] (by simpa using carries_thirdFragment hfour hlong) (fragments length 5 + 1)
    (by omega)
  obtain ⟨added, hadded, hchange⟩ := addFragments_thirdFragment hsize hcount hfirst hlength hlong
    hlimit hfour (by omega : 4 ≤ fragments length 5 + 1) hnext
  have hadded' : addFragments (fragments length 5 + 1) ((reserved length).setFragmentSize 5 true)
      thirdFragment.incoming thirdFragment.start thirdFragment.num = some added := hadded
  rw [assemble, hadded', bind_some, assemble, hchange] at hrun
  obtain rfl := some.inj hrun
  obtain ⟨set, hset, hitems⟩ := hd.missing
  rw [length_replicate] at hitems
  generalize hn : fragments length 5 = n at *
  let d := ((fresh length 5).setNextMissingFragment 1 3).fill 10 (replicate 5 255)
  have hfirst' : d.firstMissingFragment = 0 := hfirst
  have hnext0 : d.getNextMissingFragment 0 = 1 := by
    refine Eq.trans ?_ (hnext 0 (by omega))
    apply getNextMissingFragment_congr
    · rfl
    intro k hk hlt
    rw [hsize] at hk hlt
    have hpointer : nextFragmentPointer 5 0 = 0 ∧ nextFragmentPointer 5 1 = 8 := by decide
    rw [data_fill _ (by omega), data_setNextMissingFragment _ _ _ (by rw [hsize]; omega)]
  have hnext1 : d.getNextMissingFragment 1 = 4294901763 := getNextMissingFragment_overwritten hsize
  have hvisit : visitBelow d.getNextMissingFragment d.fragmentCount (n + 1)
      d.firstMissingFragment = some [0, 1] := by
    obtain ⟨fuel, hfuel⟩ : ∃ k, n + 1 = k + 2 := ⟨n - 1, by omega⟩
    have hcount' : d.fragmentCount = n := hcount
    rw [hcount', hfirst', hfuel, visitBelow, if_pos (by omega), hnext0, visitBelow,
      if_pos (by omega), hnext1, visitBelow_of_le _ (by omega)]
    rfl
  obtain ⟨seen, hseen, hlisted⟩ := getMissingFragments_of_visit hvisit (by simp)
    (by simp [hfirst']) (by rw [hfirst']; decide)
  obtain rfl : seen = set := some.inj (hseen.symm.trans hset)
  -- Fragment 4 is missing but behind the cut.
  have hfourth : 4 ∈ seen.forEach := by
    rw [hitems]
    refine mem_map.mpr ⟨3, mem_filter.mpr ⟨?_, decide_eq_true (by omega)⟩, rfl⟩
    exact mem_filter.mpr ⟨mem_range.mpr (by omega), by decide⟩
  rw [hlisted] at hfourth
  obtain ⟨m, hm, hm1⟩ := mem_map.mp hfourth
  have hlow := (mem_filter.mp hm).1
  simp only [mem_cons, not_mem_nil, or_false] at hlow
  omega

end Fresh

/-- Reassembly works exactly for the sizes whose pointers fit. The list of missing fragments lives
in their own bytes, so a pointer that does not fit is lost or destroys a part of the payload. -/
theorem reassembles_iff_pointersFit (length size : Nat) (hlen : 1 ≤ length)
    (hlimit : length < 2 ^ 32) (hsize : 1 ≤ size) (hsmall : size < 2 ^ 16) :
    Reassembles length size ↔ PointersFit length size := by
  constructor
  · intro h
    have hsum := sum_le_of_reassembles hlen hlimit hsize hsmall h
    have hoffset := offset_lt_of_reassembles hlen hlimit hsize hsum h
    obtain ⟨hpos, hlow, hhigh⟩ := fragments_bounds hlen hsize
    obtain ⟨d, -, hd⟩ := h (replicate length 0) (by simp) (reserved length) rfl [] (by simp)
      (fragments length size + 1) (by omega)
    have hpointer := hd.pointers (fragments length size - 1) (by rw [length_replicate]; omega)
    rw [length_replicate, nextFragmentPointer, Nat.mod_eq_of_lt hoffset] at hpointer
    refine ⟨hsum, hpointer, ?_⟩
    rintro rfl
    by_contra hfive
    refine not_reassembles_five hlimit hsum ?_ h
    -- With two or three fragments of five bytes the last pointer does not end inside.
    by_contra hshort
    have hcount : fragments length 5 = 2 ∨ fragments length 5 = 3 ∨ fragments length 5 = 4 := by
      omega
    rcases hcount with hn | hn | hn <;> rw [hn] at hpointer hhigh <;> omega
  · exact reassembles_of_pointersFit hlen hsize

theorem reassembles_two_words : PointersFit 8 4 ∧ Reassembles 8 4 :=
  ⟨by unfold PointersFit; decide, (reassembles_iff_pointersFit 8 4 (by decide) (by decide)
    (by decide) (by decide)).mpr (by unfold PointersFit; decide)⟩

/-- Five bytes in fragments of four: the pointer of the second fragment takes the bytes 4 to 7. -/
theorem not_reassembles_short_tail :
    fragments 5 4 = 2 ∧ nextFragmentPointer 4 1 = 4 ∧ ¬ Reassembles 5 4 := by
  refine ⟨by decide, by decide, fun h => ?_⟩
  obtain ⟨d, -, hd⟩ := h (replicate 5 0) (by simp) (reserved 5) rfl [] (by simp) 3 (by decide)
  have hpointer := hd.pointers 1 (by decide)
  revert hpointer
  decide

end EasyDds.Rtps.CacheChange
