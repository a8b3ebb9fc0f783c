import EasyDds.Rtps.Fragment.Missing

/-!
Reassembly as a whole: any sequence of runs of fragments, in any order and with any overlaps, fills
the payload exactly if the pointers of the missing fragments fit.
-/

namespace EasyDds.Rtps.CacheChange

open List

structure Call where
  incoming : SerializedPayload
  start : Nat
  num : Nat

namespace Call

def hits (call : Call) (i : Nat) : Bool :=
  decide (call.start - 1 ≤ i ∧ i < call.start - 1 + call.num)

def span (call : Call) (length size : Nat) : Nat :=
  min (size * call.num) (length - size * (call.start - 1))

structure Carries (call : Call) (payload : List UInt8) (size : Nat) : Prop where
  start_pos : 1 ≤ call.start
  num_pos : 1 ≤ call.num
  end_le : call.start + call.num - 1 ≤ fragments payload.length size
  span_le : call.span payload.length size ≤ call.incoming.length
  bytes : ∀ k < call.span payload.length size,
    payload[size * (call.start - 1) + k]? = some (call.incoming.data k)

end Call

def assemble (fuel : Nat) (c : CacheChange) : List Call → Option CacheChange
  | [] => some c
  | call :: rest =>
    (addFragments fuel c call.incoming call.start call.num).bind fun added =>
      assemble fuel added.change rest

def covered (calls : List Call) (i : Nat) : Bool := calls.any fun call => call.hits i

def uncovered (calls : List Call) (n : Nat) : List Nat :=
  (range n).filter fun i => !covered calls i

section Step

variable {payload : List UInt8} {size : Nat} {ms : List Nat} {c d : CacheChange} {call : Call}

lemma region_of_hit {initial num i k : Nat} (hi : initial ≤ i) (hlt : i < initial + num)
    (hlow : size * i ≤ k) (hhigh : k < size * (i + 1)) :
    size * initial ≤ k ∧ k < size * initial + size * num := by
  have hfirst : size * initial ≤ size * i := Nat.mul_le_mul_left size hi
  have hlast : size * (i + 1) ≤ size * (initial + num) := Nat.mul_le_mul_left size hlt
  rw [Nat.mul_add size initial num] at hlast
  omega

/-- Without a copy the change holds what it held, less the run. -/
theorem Unlinked.holds {n initial num : Nat} (hg : Geometry payload.length size n)
    (hc : c.Holds payload size n ms)
    (hd : Unlinked c d size n (ms.filter fun m => decide (m < initial ∨ initial + num ≤ m)))
    (hquiet : ∀ m ∈ ms, m < initial ∨ initial + num ≤ m) :
    d.Holds payload size n (ms.filter fun m => decide (m < initial ∨ initial + num ≤ m)) := by
  have hsame : (ms.filter fun m => decide (m < initial ∨ initial + num ≤ m)) = ms := by
    rw [filter_eq_self]
    intro m hm
    exact decide_eq_true (hquiet m hm)
  rw [hsame] at hd ⊢
  refine ⟨hd.size_eq.trans hc.size_eq, hd.count_eq.trans hc.count_eq,
    hd.length_eq.trans hc.length_eq, hd.first_eq, hd.links, hc.sorted, hc.below, ?_⟩
  intro i hi hmem k hk hlow hhigh
  rw [hc.received i hi hmem k hk hlow hhigh, hd.data_eq k]
  intro p hp
  have hne : p ≠ i := fun heq => hmem (heq ▸ hp)
  exact hg.pointer_outside (hc.below p hp) hne hlow hhigh

lemma data_fill (d : CacheChange) {offset k : Nat} {bytes : List UInt8}
    (h : k < offset ∨ offset + bytes.length ≤ k) :
    (d.fill offset bytes).serializedPayload.data k = d.serializedPayload.data k := by
  rcases h with h | h
  · exact Mem.write_of_lt _ _ h
  · exact Mem.write_of_ge _ _ h

variable (hg : Geometry payload.length size (fragments payload.length size))
  (hc : c.Holds payload size (fragments payload.length size) ms)
include hg hc

/-- With the copy the change also holds the bytes of the run. The pointers of the fragments that are
still missing lie outside, and stay as they are. -/
theorem Unlinked.holds_fill (hcall : call.Carries payload size) {kept : List Nat}
    (hkept : kept = ms.filter fun m =>
      decide (m < call.start - 1 ∨ call.start - 1 + call.num ≤ m))
    (hd : Unlinked c d size (fragments payload.length size) kept) :
    (d.fill (size * (call.start - 1))
      (call.incoming.data.slice 0 (call.span payload.length size))).Holds payload size
        (fragments payload.length size) kept := by
  generalize hn : fragments payload.length size = n at hg hc hd ⊢
  have hspan : call.span payload.length size ≤ size * call.num := Nat.min_le_left _ _
  have hmem : ∀ m, m ∈ kept ↔ m ∈ ms ∧ (m < call.start - 1 ∨ call.start - 1 + call.num ≤ m) := by
    intro m
    rw [hkept, mem_filter, decide_eq_true_eq]
  have hbelow : ∀ m ∈ kept, m < n := fun m hm => hc.below m ((hmem m).mp hm).1
  refine ⟨hd.size_eq.trans hc.size_eq, hd.count_eq.trans hc.count_eq,
    hd.length_eq.trans hc.length_eq, hd.first_eq, ?_, ?_, hbelow, ?_⟩
  · apply hd.links.congr
    intro m hm
    apply getNextMissingFragment_congr
    · rfl
    intro k hk hlt
    have hsize : d.fragmentSize = size := hd.size_eq.trans hc.size_eq
    rw [hsize] at hk hlt
    apply data_fill
    rw [Mem.length_slice]
    obtain ⟨hstart, hend, -⟩ := hg.pointer m (hbelow m hm)
    rcases ((hmem m).mp hm).2 with hout | hout
    · have hmul : size * (m + 1) ≤ size * (call.start - 1) := Nat.mul_le_mul_left size hout
      omega
    · have hmul : size * (call.start - 1 + call.num) ≤ size * m := Nat.mul_le_mul_left size hout
      rw [Nat.mul_add size (call.start - 1) call.num] at hmul
      omega
  · rw [hkept]
    exact hc.sorted.sublist filter_sublist
  · intro i hi hout k hk hlow hhigh
    by_cases hhit : call.start - 1 ≤ i ∧ i < call.start - 1 + call.num
    · obtain ⟨hfrom, hto⟩ := region_of_hit hhit.1 hhit.2 hlow hhigh
      obtain ⟨j, rfl⟩ := Nat.exists_eq_add_of_le hfrom
      have hj : j < call.span payload.length size := by
        rw [Call.span]
        omega
      rw [hcall.bytes j hj]
      refine congrArg some (Mem.write_at _ _ _ ?_).symm
      rw [Mem.getElem?_slice _ _ _ _ hj, Nat.zero_add]
    · have hnot : i ∉ ms := fun hin => hout ((hmem i).mpr ⟨hin, by omega⟩)
      have hcopy : k < size * (call.start - 1) ∨
          size * (call.start - 1) + call.span payload.length size ≤ k := by
        rcases (by omega : i < call.start - 1 ∨ call.start - 1 + call.num ≤ i) with hlt | hge
        · have hmul : size * (i + 1) ≤ size * (call.start - 1) := Nat.mul_le_mul_left size hlt
          omega
        · have hmul : size * (call.start - 1 + call.num) ≤ size * i :=
            Nat.mul_le_mul_left size hge
          rw [Nat.mul_add size (call.start - 1) call.num] at hmul
          omega
      rw [hc.received i hi hnot k hk hlow hhigh, data_fill d (by rwa [Mem.length_slice]),
        hd.data_eq k]
      intro p hp
      have hne : p ≠ i := fun heq => hout (heq ▸ hp)
      exact hg.pointer_outside (hbelow p hp) hne hlow hhigh

/-- A call that carries its run passes the validations of `add_fragments`: the fragments of the run
exist, so that nothing wraps. -/
theorem addFragments_eq_store (hcall : call.Carries payload size) (fuel : Nat) :
    addFragments fuel c call.incoming call.start call.num =
      storeFragments fuel c call.incoming (size * (call.start - 1))
        (call.span payload.length size) (call.start - 1) call.num := by
  obtain ⟨hstart, hnum, hend, hspan, -⟩ := hcall
  have hlimit := hg.limit
  have hcount := hg.count_lt
  have hlow := hg.low
  have hhigh := hg.high
  generalize fragments payload.length size = n at hg hc hend hcount hlow hhigh
  have hinitial : (call.start + 2 ^ 32 - 1) % 2 ^ 32 = call.start - 1 := by omega
  have hlast : (call.start + call.num + 2 ^ 32 - 1) % 2 ^ 32 = call.start + call.num - 1 := by omega
  have hfirst : size * (call.start - 1) ≤ size * (n - 1) := Nat.mul_le_mul_left size (by omega)
  have hsum : size * (call.start - 1 + call.num) = size * (call.start - 1) + size * call.num :=
    Nat.mul_add ..
  have hoffset : (call.start - 1) * size % 2 ^ 32 = size * (call.start - 1) := by
    rw [Nat.mul_comm, Nat.mod_eq_of_lt (by omega)]
  rw [Call.span] at hspan ⊢
  rcases Nat.lt_or_ge (call.start + call.num - 1) n with hinner | houter
  · have hle : size * (call.start - 1 + call.num) ≤ size * (n - 1) :=
      Nat.mul_le_mul_left size (by omega)
    have hmin : min (size * call.num) (payload.length - size * (call.start - 1)) =
        size * call.num := by omega
    have hwhole : size * call.num % 2 ^ 32 = size * call.num := Nat.mod_eq_of_lt (by omega)
    have hshort : ¬ call.incoming.length < size * call.num := by omega
    have hfits : ¬ payload.length < (size * (call.start - 1) + size * call.num) % 2 ^ 32 := by omega
    simp only [addFragments, hc.size_eq, hc.count_eq, hc.length_eq, hinitial, hlast, hoffset,
      hwhole, hinner, hshort, hfits, hmin, Nat.not_lt.mpr hend, if_true, if_false, and_false]
  · have hsame : call.start - 1 + call.num = n := by omega
    have hmin : min (size * call.num) (payload.length - size * (call.start - 1)) =
        payload.length - size * (call.start - 1) := by
      rw [hsame] at hsum
      omega
    have hlength : (payload.length + 2 ^ 32 - size * (call.start - 1)) % 2 ^ 32 =
        payload.length - size * (call.start - 1) := by omega
    have hfits : ¬ payload.length <
        (size * (call.start - 1) + (payload.length - size * (call.start - 1))) % 2 ^ 32 := by
      omega
    simp only [addFragments, hc.size_eq, hc.count_eq, hc.length_eq, hinitial, hlast, hoffset,
      Nat.not_lt.mpr houter, hfits, hlength, hmin, Nat.not_lt.mpr hend, if_false, false_and]

variable {fuel : Nat}

/-- One call takes the fragments of its run out of the missing ones. If none of them was missing,
nothing is copied, and nothing has to be. -/
theorem Holds.addFragments (hlength : ms.length ≤ fragments payload.length size)
    (hcall : call.Carries payload size)
    (hfuel : fragments payload.length size < fuel) :
    ∃ added, CacheChange.addFragments fuel c call.incoming call.start call.num = some added ∧
      added.change.Holds payload size (fragments payload.length size)
        (ms.filter fun i => !call.hits i) := by
  have hrun : (fun i => !call.hits i) = fun m : Nat =>
      decide (m < call.start - 1 ∨ call.start - 1 + call.num ≤ m) := by
    funext m
    rw [Call.hits, ← decide_not, decide_eq_decide]
    omega
  have hstart := hcall.start_pos
  have hnum := hcall.num_pos
  have hend := hcall.end_le
  have hinitial : call.start - 1 < fragments payload.length size := by omega
  have hlast : call.start - 1 + call.num ≤ fragments payload.length size := by omega
  obtain ⟨changed, d, hreceived, hd, hquiet⟩ :=
    receivedFragments_run hg hc hinitial hlast hlength hfuel
  rw [hrun, addFragments_eq_store hg hc hcall, storeFragments, hreceived]
  cases changed with
  | false => exact ⟨_, rfl, hd.holds hg hc (hquiet rfl)⟩
  | true => exact ⟨_, rfl, hd.holds_fill hg hc hcall rfl⟩

/-- A sequence of calls takes the fragments they cover out of the missing ones, in whatever order
and however often they come. -/
theorem Holds.assemble (hlength : ms.length ≤ fragments payload.length size) {calls : List Call}
    (hcalls : ∀ call ∈ calls, call.Carries payload size)
    (hfuel : fragments payload.length size < fuel) : ∃ d, c.assemble fuel calls = some d ∧
      d.Holds payload size (fragments payload.length size)
        (ms.filter fun i => !covered calls i) := by
  induction calls generalizing c ms with
  | nil =>
    refine ⟨c, rfl, ?_⟩
    rwa [filter_eq_self.mpr (by simp [covered])]
  | cons call rest ih =>
    obtain ⟨added, hadd, hadded⟩ := hc.addFragments hg hlength (hcalls call (by simp)) hfuel
    obtain ⟨d, hrest, hd⟩ := ih hadded ((length_filter_le _ _).trans hlength)
      fun x hx => hcalls x (by simp [hx])
    refine ⟨d, ?_, ?_⟩
    · rw [CacheChange.assemble, hadd, Option.bind_some]
      exact hrest
    · rw [filter_filter] at hd
      have hboth : (fun i => !covered (call :: rest) i) =
          fun i => !covered rest i && !call.hits i := by
        funext i
        simp [covered, Bool.and_comm]
      rwa [hboth]

end Step

section Fresh

variable {payload : List UInt8} {size : Nat} {c : CacheChange}

/-- The count of `setFragmentSize` if its sum does not wrap. -/
theorem countFragments_eq {length : Nat} (hsum : length + size ≤ 2 ^ 32) :
    countFragments length size = fragments length size := by
  rw [countFragments, fragments, Nat.mod_eq_of_lt (by omega)]

lemma setFragmentSize_true (hsize : 0 < size) : c.setFragmentSize size true =
      ({ c with
        fragmentSize := size
        fragmentCount := countFragments c.serializedPayload.length size
        firstMissingFragment := 0 } : CacheChange).linkUpTo
          (countFragments c.serializedPayload.length size) := by
  simp only [setFragmentSize, hsize, if_true]
  rfl

/-- A change that starts its reassembly misses all fragments. -/
theorem holds_setFragmentSize (hsize : 1 ≤ size) (hlen : 1 ≤ payload.length)
    (hfit : PointersFit payload.length size) (hc : c.serializedPayload.length = payload.length) :
    (c.setFragmentSize size true).Holds payload size (fragments payload.length size)
      (range (fragments payload.length size)) := by
  have hg := geometry_of_pointersFit hlen hsize hfit
  have hcount : countFragments c.serializedPayload.length size = fragments payload.length size := by
    rw [hc]
    exact countFragments_eq hfit.1
  rw [setFragmentSize_true (by omega), hcount]
  generalize fragments payload.length size = n at hg hcount ⊢
  obtain ⟨hs, hn, hf, hl⟩ := linkUpTo_fields ({ c with
      fragmentSize := size, fragmentCount := n, firstMissingFragment := 0 } : CacheChange) n
  have hlt := hg.count_lt
  have hnext := fun i (hi : i < n) => getNextMissingFragment_linkUpTo
    (c := { c with fragmentSize := size, fragmentCount := n, firstMissingFragment := 0 })
    (by omega) (fun i j hij hj => hg.pointers_apart hij hj) (Nat.le_refl n) hi
  refine ⟨hs, hn, hl.trans hc, ?_, ?_, pairwise_lt_range, fun m hm => mem_range.mp hm, ?_⟩
  · rw [hf]
    obtain ⟨k, rfl⟩ : ∃ k, n = k + 1 := ⟨n - 1, by have := hg.count_pos; omega⟩
    rw [range_succ_eq_map]
    rfl
  · have hlinks := links_range' (k := 0) (n := n) fun i _ hi => hnext i (by omega)
    rwa [Nat.zero_add, ← range_eq_range'] at hlinks
  · intro i hi hout
    exact absurd (mem_range.mpr hi) hout

end Fresh

section Result

variable {payload : List UInt8} {size n : Nat} {ms : List Nat} {c : CacheChange}

lemma headD_le (hsorted : ms.Pairwise (· < ·)) {m : Nat} (hm : m ∈ ms) : ms.headD n ≤ m := by
  cases ms with
  | nil => cases hm
  | cons a rest =>
    rcases mem_cons.mp hm with rfl | hm
    · exact Nat.le_refl _
    · exact Nat.le_of_lt ((pairwise_cons.mp hsorted).1 m hm)

/-- `get_missing_fragments` lists the fragments it meets, numbered from 1, up to its window: a set
holds 256 numbers from the first missing one on. -/
theorem getMissingFragments_of_visit {xs : List Nat}
    (hvisit : visitBelow c.getNextMissingFragment c.fragmentCount fuel c.firstMissingFragment =
      some xs)
    (hsorted : xs.Pairwise (· < ·)) (hge : ∀ m ∈ xs, c.firstMissingFragment ≤ m)
    (hfirst : c.firstMissingFragment + 256 < 2 ^ 32) :
    ∃ set, c.getMissingFragments fuel = some set ∧
      set.forEach = (xs.filter (· < c.firstMissingFragment + 256)).map (· + 1) := by
  generalize hfirst_eq : c.firstMissingFragment = first at hvisit hge hfirst ⊢
  have hbase : (c.firstMissingFragment + 1) % 2 ^ 32 = first + 1 := by
    rw [hfirst_eq, Nat.mod_eq_of_lt (by omega)]
  have hfold : xs.foldl (fun set fragment => set.add (fragment + 1))
      (BitmapRange.setBase (first + 1)) =
        (xs.map (· + 1)).foldl BitmapRange.add (BitmapRange.setBase (first + 1)) := by
    rw [foldl_map]
  have hempty : (BitmapRange.setBase (first + 1)).Collects (first + 1) [] :=
    ⟨rfl, rfl, BitmapRange.wellFormed_setBase (window_nat (by omega)), fun d _ => by simp⟩
  have hge' : ∀ x ∈ xs.map (· + 1), first + 1 ≤ x := by
    intro x hx
    obtain ⟨m, hm, rfl⟩ := mem_map.mp hx
    have := hge m hm
    omega
  have hsorted' : (xs.map (· + 1)).Pairwise (· < ·) := by
    rw [pairwise_map]
    exact hsorted.imp fun h => by omega
  have hcollects := BitmapRange.collects_foldl_add (by omega) hempty hge'
  rw [nil_append] at hcollects
  refine ⟨_, by rw [CacheChange.getMissingFragments, hfirst_eq, hvisit, ← hfirst_eq, hbase,
    Option.map_some], ?_⟩
  rw [hfold, hcollects.forEach_eq (by omega) hge' hsorted', filter_map]
  congr 1
  refine filter_congr fun m _ => ?_
  simp only [Function.comp_apply, decide_eq_decide]
  omega

lemma Holds.getMissingFragments (hg : Geometry payload.length size n)
    (hc : c.Holds payload size n ms) (hfuel : ms.length ≤ fuel) :
    ∃ set, c.getMissingFragments fuel = some set ∧
      set.forEach = (ms.filter (· < ms.headD n + 256)).map (· + 1) := by
  have hlt := hg.count_lt
  have hfirst : ms.headD n ≤ n := by
    cases hcase : ms with
    | nil => exact Nat.le_refl _
    | cons m rest => exact Nat.le_of_lt (hc.below m (by simp [hcase]))
  have hvisit : visitBelow c.getNextMissingFragment c.fragmentCount fuel c.firstMissingFragment =
      some ms := by
    rw [hc.count_eq, hc.first_eq]
    exact visitBelow_links hc.links hc.below (Nat.le_refl n) hfuel
  rw [← hc.first_eq] at hfirst ⊢
  refine getMissingFragments_of_visit hvisit hc.sorted (fun m hm => ?_) (by omega)
  rw [hc.first_eq]
  exact headD_le hc.sorted hm

lemma Holds.isFullyAssembled_iff (hc : c.Holds payload size n ms) :
    c.isFullyAssembled = true ↔ ms = [] := by
  rw [isFullyAssembled, hc.count_eq, hc.first_eq, decide_eq_true_eq]
  cases hcase : ms with
  | nil => simp
  | cons m rest =>
    have hm := hc.below m (by simp [hcase])
    simpa using hm

/-- With nothing missing the payload is complete: every byte belongs to a fragment, and the change
holds the bytes of the fragments it does not miss. -/
theorem Holds.bytes_eq (hg : Geometry payload.length size n) (hc : c.Holds payload size n []) :
    c.serializedPayload.bytes = payload := by
  rw [SerializedPayload.bytes, hc.length_eq]
  refine ext_getElem? fun k => ?_
  by_cases hk : k < payload.length
  · have hpos := hg.size_pos
    have hhigh := hg.high
    have hdiv : size * (k / size) ≤ k := Nat.mul_div_le k size
    have hlt : k < size * (k / size + 1) := by
      rw [Nat.mul_comm]
      exact Nat.lt_mul_of_div_lt (Nat.lt_succ_self _) hpos
    have hi : k / size < n := by
      rw [Nat.div_lt_iff_lt_mul hpos, Nat.mul_comm]
      omega
    rw [hc.received (k / size) hi (by simp) k hk hdiv hlt, Mem.getElem?_slice _ _ _ _ hk,
      Nat.zero_add]
  · rw [getElem?_eq_none (by simpa using hk), getElem?_eq_none (by simpa using hk)]

end Result

structure Assembles (payload : List UInt8) (size fuel : Nat) (calls : List Call) (d : CacheChange) :
    Prop where
  pointers : ∀ i < fragments payload.length size, nextFragmentPointer size i + 4 ≤ payload.length
  missing : ∃ set, d.getMissingFragments fuel = some set ∧ set.forEach =
      ((uncovered calls (fragments payload.length size)).filter (· <
        (uncovered calls (fragments payload.length size)).headD
          (fragments payload.length size) + 256)).map (· + 1)
  assembled_iff : d.isFullyAssembled = true ↔
    ∀ i < fragments payload.length size, covered calls i = true
  bytes_eq : (∀ i < fragments payload.length size, covered calls i = true) →
    d.serializedPayload.bytes = payload

/-- Reassembly of payloads of the given length in fragments of the given size: every sequence of
calls that carry their runs ends, given enough rounds for the loops, in such a change. -/
def Reassembles (length size : Nat) : Prop :=
  ∀ payload : List UInt8, payload.length = length → ∀ c : CacheChange, c.serializedPayload.length =
    length → ∀ calls : List Call, (∀ call ∈ calls, call.Carries payload size) → ∀ fuel, fragments
    length size < fuel →
      ∃ d, (c.setFragmentSize size true).assemble fuel calls = some d ∧
        Assembles payload size fuel calls d

lemma uncovered_eq_nil_iff {calls : List Call} {n : Nat} :
    uncovered calls n = [] ↔ ∀ i < n, covered calls i = true := by
  simp [uncovered, filter_eq_nil_iff]

lemma reassembles_of_pointersFit {length size : Nat} (hlen : 1 ≤ length) (hsize : 1 ≤ size)
    (hfit : PointersFit length size) : Reassembles length size := by
  rintro payload rfl c hc calls hcalls fuel hfuel
  have hg := geometry_of_pointersFit hlen hsize hfit
  have hfresh := holds_setFragmentSize hsize hlen hfit hc
  obtain ⟨d, hrun, hd⟩ := hfresh.assemble hg (by simp) hcalls hfuel
  change d.Holds payload size _ (uncovered calls _) at hd
  have hshort : (uncovered calls (fragments payload.length size)).length ≤ fuel := by
    have := length_filter_le (fun i => !covered calls i)
      (range (fragments payload.length size))
    rw [length_range] at this
    exact this.trans (Nat.le_of_lt hfuel)
  refine ⟨d, hrun, fun i hi => (hg.pointer i hi).2.2, hd.getMissingFragments hg hshort, ?_, ?_⟩
  · rw [hd.isFullyAssembled_iff, uncovered_eq_nil_iff]
  · intro hall
    rw [uncovered_eq_nil_iff.mpr hall] at hd
    exact hd.bytes_eq hg

end EasyDds.Rtps.CacheChange
