import EasyDds.Rtps.Bitmap.Members
import EasyDds.Rtps.Message.Wire

/-!
The wire form of sequence number sets and fragment number sets: the base, the number of
significant bits and the words that hold them.
-/

namespace EasyDds.Rtps.CdrMessage

open BitmapRange List

open Prog

open RangeItem

/-- The words of a bitmap, one `addUInt32` each; failures are not reported. -/
def addWords : List (BitVec 32) → Reader Unit
  | [] => pure ()
  | w :: ws => do
    let _ ← addUInt32 w.toNat
    addWords ws

def addSet {T : Type} [RangeItem T] (s : BitmapRange T) : Reader Bool := do
  if s.empty then do
    let _ ← addUInt32 0
    pure true
  else do
    let (numBits, bitmap) := s.bitmapGet
    let _ ← addUInt32 numBits
    addWords bitmap
    pure true

def addSequenceNumberSet (sns : BitmapRange Int) : Reader Bool := do
  let _ ← addSequenceNumber sns.base
  addSet sns

def addFragmentNumberSet (fns : BitmapRange Nat) : Reader Bool := do
  if fns.base = 0 then pure false
  else do
    let _ ← addUInt32 fns.base
    addSet fns

def readWords (numBits : Nat) : Reader (List (BitVec 32)) := do
  let words ← times readUInt32 ((numBits + 31) / 32)
  pure (words.map (BitVec.ofNat 32))

/-- The number of bits `readSequenceNumberSet` keeps: it does not want the window to pass the end
of the numbers. -/
def clampBits (base : Int) (numBits : Nat) : Nat :=
  if base / 2 ^ 32 = 2 ^ 31 - 1 then min numBits (2 ^ 32 - 1 - (base % 2 ^ 32).toNat) else numBits

/-- The set at `c_SequenceNumber_Unknown`, the answer to a malformed set. -/
def unknownSet : BitmapRange Int := setBase (-2 ^ 32)

def readSequenceNumberSet : Reader (BitmapRange Int) := do
  let seqNum ← attempt readSequenceNumber
  let numBits ← attempt readUInt32
  match seqNum, numBits with
  | some base, some numBits =>
    if numBits ≤ 256 ∧ 0 ≤ base / 2 ^ 32 then do
      let bitmap ← attempt (readWords (clampBits base numBits))
      match bitmap with
      | some bitmap =>
        pure ((ofBase base (clampBits base numBits)).bitmapSet (clampBits base numBits) bitmap)
      | none => pure unknownSet
    else pure unknownSet
  | _, _ => pure unknownSet

def readFragmentNumberSet : Reader (BitmapRange Nat) := do
  let base ← attempt readUInt32
  let numBits ← attempt readUInt32
  match base, numBits with
  | some base, some numBits =>
    if numBits ≤ 256 then do
      let bitmap ← readWords numBits
      pure ((setBase base).bitmapSet numBits bitmap)
    else raise ()
  | _, _ => raise ()

section Encoding

variable {T : Type} [RangeItem T] {e : Endianness} {slack : Nat}

def wordsImage (e : Endianness) (words : List (BitVec 32)) : List UInt8 :=
  words.flatMap fun w => wordImage e 4 w.toNat

def setImage (e : Endianness) (s : BitmapRange T) : List UInt8 :=
  wordImage e 4 s.numBits ++ wordsImage e s.bitmapGet.2

lemma length_wordsImage (e : Endianness) (words : List (BitVec 32)) :
    (wordsImage e words).length = 4 * words.length := by
  induction words with
  | nil => rfl
  | cons w words ih =>
    rw [wordsImage, flatMap_cons, length_append, length_wordImage, length_cons, ← wordsImage, ih]
    omega

omit [RangeItem T] in
lemma length_setImage (e : Endianness) (s : BitmapRange T) :
    (setImage e s).length = 4 + 4 * s.nLongs := by
  simp [setImage, length_wordsImage, bitmapGet]

lemma emits_addWords (words : List (BitVec 32)) :
    Emits slack e (addWords words) () (wordsImage e words) := by
  induction words with
  | nil => exact Emits.pure ()
  | cons w words ih => exact (emits_addUInt32 w.toNat).bind ih

lemma emits_addSet (s : BitmapRange T) : Emits slack e (addSet s) true (setImage e s) := by
  unfold addSet
  split
  case isTrue hempty =>
    have hzero : s.numBits = 0 := by simpa [empty] using hempty
    have himage : setImage e s = wordImage e 4 0 := by
      simp [setImage, wordsImage, bitmapGet, nLongs, hzero]
    rw [himage]
    exact (emits_addUInt32 0).map
  case isFalse => exact (emits_addUInt32 _).bind (emits_addWords _).map

lemma reads_readWords {n : Nat} {words : List (BitVec 32)} (hlen : words.length = (n + 31) / 32) :
    Reads e (readWords n) words (wordsImage e words) := by
  have hword : ∀ x ∈ words.map BitVec.toNat, Reads e readUInt32 x (wordImage e 4 x) := by
    intro x hx
    obtain ⟨w, -, rfl⟩ := mem_map.mp hx
    exact reads_readUInt32 w.isLt
  have h := Reads.times (wordImage e 4) _ hword
  rw [length_map, hlen, flatMap_map] at h
  have hback : (words.map BitVec.toNat).map (BitVec.ofNat 32) = words := by simp [Function.comp_def]
  have hmap := h.map (f := List.map (BitVec.ofNat 32))
  rwa [hback] at hmap

end Encoding

section Decoding

variable {T : Type} [RangeItem T] {s : BitmapRange T}

/-- A decoded set is the encoded one, and `for_each` visits its members once, in order, without a
failing assertion. -/
structure Recovers (s decoded : BitmapRange T) : Prop where
  base_eq : decoded.base = s.base
  isSet_eq : ∀ x, decoded.isSet x = s.isSet x
  visits : ∀ x, x ∈ decoded.forEach ↔ s.isSet x = true
  increasing : decoded.forEach.Pairwise fun x y => le y x = false
  returns : decoded.forEachAsserts = true

/-- A range that takes `n` of the bits of `s` recovers it if these are all. -/
theorem recovers_bitmapSet (hw : Window s.base) (h : s.WellFormed) {r : BitmapRange T} {n k : Nat}
    (hbase : r.base = s.base) (hmax : r.rangeMax = plus s.base k) (hk : k < 256) (hnk : n ≤ k + 1)
    (hwords : (n + 31) / 32 ≤ s.nLongs) (hall : ∀ d, s.has d = true → d < n)
    (hsums : ∀ r' : BitmapRange T, r'.base = s.base → r'.WellFormed → r'.Exact →
      (∀ d, r'.has d = s.has d) → r'.forEachAsserts = true) :
    Recovers s (r.bitmapSet n s.bitmapGet.2) := by
  have hget : ∀ i < (n + 31) / 32, s.bitmapGet.2[i]? = some (s.bitmap.word i) := by
    intro i hi
    simp [bitmapGet, show i < s.nLongs by omega]
  have hhas : ∀ d, (r.bitmapSet n s.bitmapGet.2).has d = s.has d := by
    intro d
    rw [has_bitmapSet r (by omega) hget d]
    by_cases hd : d < n
    · simp [hd, has]
    · have hout : s.has d = false := Bool.eq_false_iff.mpr fun hset => hd (hall d hset)
      simp [hd, hout]
  have hbits := topBit_bitmapSet r (by omega) hget
  have hbase' : (r.bitmapSet n s.bitmapGet.2).base = s.base := hbase
  have hwf : (r.bitmapSet n s.bitmapGet.2).WellFormed := by
    refine ⟨hbits.1, hbits.2, ⟨k, hk, by rw [hbase']; exact hmax⟩, fun d hd => ?_⟩
    rw [hhas] at hd
    have hlt := hall d hd
    change le (plus r.base d) r.rangeMax = true
    rw [hbase, hmax, hw.plus_le_plus d (by omega) k hk]
    exact decide_eq_true (by omega)
  have hw' : Window (r.bitmapSet n s.bitmapGet.2).base := hbase'.symm ▸ hw
  have hset : ∀ x, (r.bitmapSet n s.bitmapGet.2).isSet x = s.isSet x := by
    intro x
    rw [Bool.eq_iff_iff, isSet_iff hw' hwf, isSet_iff hw h, hbase']
    simp only [hhas]
  refine ⟨hbase', hset, fun x => ?_, forEach_increasing hw' hwf,
    hsums _ hbase' hwf (exact_bitmapSet r n _) hhas⟩
  rw [mem_forEach hw' hwf, hset]

/-- What is written into `msg` and read back from where it was written is `s`, and the reader
stops where the writer stopped. -/
def RoundTrips (write : Reader Bool) (read : Reader (BitmapRange T)) (s : BitmapRange T)
    (msg : CdrMessage) : Prop :=
  ∃ bytes accesses decoded, write.run msg = (.ok true, msg.append bytes) ∧
    read.run ((msg.append bytes).rewound msg.pos) =
      (.ok decoded, { msg.append bytes with accesses := accesses }) ∧
    Recovers s decoded

lemma RoundTrips.results {write : Reader Bool} {read : Reader (BitmapRange T)} {msg : CdrMessage}
    (h : RoundTrips write read s msg) : (write.run msg).1 = .ok true ∧
      ∃ decoded, (read.run ((write.run msg).2.rewound msg.pos)).1 = .ok decoded ∧
        Recovers s decoded := by
  obtain ⟨bytes, accesses, decoded, hwrite, hread, hrec⟩ := h
  rw [hwrite]
  exact ⟨rfl, decoded, by rw [hread], hrec⟩

lemma roundTrips_of_image {write : Reader Bool} {read : Reader (BitmapRange T)}
    {decoded : BitmapRange T} {msg : CdrMessage} (bytes : List UInt8)
    (hwrite : Emits 0 msg.msgEndian write true bytes)
    (hread : Reads msg.msgEndian read decoded bytes)
    (hroom : msg.Room bytes.length) (hpos : msg.pos ≤ msg.length) (hrec : Recovers s decoded) :
    RoundTrips write read s msg := by
  obtain ⟨accesses, hrun⟩ := hread ((msg.append bytes).rewound msg.pos) rfl
    (ahead_append hroom hpos)
  exact ⟨bytes, accesses, decoded, hwrite msg rfl hroom, hrun, hrec⟩

end Decoding

section Sets

variable {e : Endianness} {msg : CdrMessage}

/-- Clamping drops at most the last bit of the window, and no word: only a window that ends with the
largest number is clamped. -/
theorem clampBits_spec {base : Int} (hhigh : base + 255 < 2 ^ 63) {n : Nat} (hn : n ≤ 256) :
    clampBits base n ≤ n ∧ (clampBits base n + 31) / 32 = (n + 31) / 32 ∧
      (clampBits base n ≠ n → base + 255 = 2 ^ 63 - 1 ∧ clampBits base n = 255) := by
  unfold clampBits
  split <;> omega

lemma reads_readSequenceNumberSet {sns : BitmapRange Int} (hbits : sns.numBits ≤ 256)
    (hlow : 0 ≤ sns.base) (hhigh : sns.base + 255 < 2 ^ 63) : Reads e readSequenceNumberSet
      ((ofBase sns.base (clampBits sns.base sns.numBits)).bitmapSet
        (clampBits sns.base sns.numBits) sns.bitmapGet.2)
      (sequenceNumberImage e sns.base ++ setImage e sns) := by
  obtain ⟨-, hwords, -⟩ := clampBits_spec hhigh hbits
  have hlen : sns.bitmapGet.2.length = (clampBits sns.base sns.numBits + 31) / 32 := by
    rw [hwords]
    simp [bitmapGet, nLongs]
  refine (reads_readSequenceNumber hlow (by omega)).attempt.bind ?_
  refine (reads_readUInt32 (by omega)).attempt.bind ?_
  rw [← List.append_nil (wordsImage e sns.bitmapGet.2)]
  dsimp only
  rw [if_pos ⟨hbits, by omega⟩]
  exact (reads_readWords hlen).attempt.bind (Reads.pure _)

lemma sequenceNumberSet_roundTrips {sns : BitmapRange Int} (h : sns.WellFormed)
    (hlow : 0 ≤ sns.base) (hhigh : sns.base + 255 < 2 ^ 63)
    (hlast : sns.base + 255 = 2 ^ 63 - 1 → ∀ x, sns.base + 224 ≤ x → sns.isSet x = false)
    (hpos : msg.pos ≤ msg.length) (hroom : msg.Room (12 + 4 * sns.nLongs)) :
    RoundTrips (addSequenceNumberSet sns) readSequenceNumberSet sns msg := by
  have hw := window_int sns.base
  have hbits := h.numBits_le
  obtain ⟨hle, hwords, hdrop⟩ := clampBits_spec hhigh hbits
  have hhas : sns.base + 255 = 2 ^ 63 - 1 → ∀ d, sns.has d = true → d < 224 := by
    intro htop d hd
    by_contra hge
    have hset : sns.isSet (sns.base + d) = true := (isSet_iff hw h _).mpr ⟨d, hd, rfl⟩
    rw [hlast htop _ (by omega)] at hset
    cases hset
  refine roundTrips_of_image _ ((emits_addSequenceNumber _).bind (emits_addSet _))
    (reads_readSequenceNumberSet hbits hlow hhigh) ?_ hpos ?_
  · rw [length_append, length_sequenceNumberImage, length_setImage]
    exact hroom.mono (by omega)
  · have hk : Min.min (clampBits sns.base sns.numBits) 255 < 256 := by omega
    apply recovers_bitmapSet (r := .ofBase sns.base (clampBits sns.base sns.numBits)) hw h rfl
      rfl hk
    · omega
    · exact Nat.le_of_eq hwords
    · intro d hd
      have hlt := h.lt_numBits hd
      by_contra hout
      obtain ⟨htop, hcut⟩ := hdrop (by omega)
      have := hhas htop d hd
      omega
    · -- Behind the last word in use there is one more sum, at the end of the window at most.
      intro r' hbase hwf hexact hsame
      refine sumsFrom_int ?_
      have hbits' := hwf.numBits_le
      rw [hbase, nLongs]
      by_cases htop : sns.base + 255 = 2 ^ 63 - 1
      · have hsmall : r'.numBits ≤ 224 := by
          by_contra hlarge
          have hset := hexact (by omega)
          rw [hsame] at hset
          have := hhas htop _ hset
          omega
        omega
      · omega

lemma reads_readFragmentNumberSet {fns : BitmapRange Nat} (hbits : fns.numBits ≤ 256)
    (hhigh : fns.base + 255 < 2 ^ 32) : Reads e readFragmentNumberSet
      ((setBase fns.base).bitmapSet fns.numBits fns.bitmapGet.2)
      (wordImage e 4 fns.base ++ setImage e fns) := by
  have hlen : fns.bitmapGet.2.length = (fns.numBits + 31) / 32 := by simp [bitmapGet, nLongs]
  refine (reads_readUInt32 (by omega)).attempt.bind ?_
  refine (reads_readUInt32 (by omega)).attempt.bind ?_
  dsimp only
  rw [if_pos hbits]
  exact (reads_readWords hlen).map

lemma fragmentNumberSet_roundTrips {fns : BitmapRange Nat} (h : fns.WellFormed)
    (hlow : 1 ≤ fns.base) (hhigh : fns.base + 255 < 2 ^ 32)
    (hpos : msg.pos ≤ msg.length) (hroom : msg.Room (8 + 4 * fns.nLongs)) :
    RoundTrips (addFragmentNumberSet fns) readFragmentNumberSet fns msg := by
  have hw := window_nat hhigh
  have hbits := h.numBits_le
  refine roundTrips_of_image (wordImage msg.msgEndian 4 fns.base ++ setImage msg.msgEndian fns) ?_
    (reads_readFragmentNumberSet hbits hhigh) ?_ hpos ?_
  · rw [addFragmentNumberSet, if_neg (by omega)]
    exact (emits_addUInt32 _).bind (emits_addSet _)
  · rw [length_append, length_wordImage, length_setImage]
    exact hroom.mono (by omega)
  · apply recovers_bitmapSet (r := .setBase fns.base) hw h rfl rfl (by omega : 255 < 256)
    · omega
    · exact Nat.le_refl _
    · exact fun d hd => h.lt_numBits hd
    · exact fun r' _ _ _ _ => forEachAsserts_nat r'

end Sets

/-- Both kinds of sets survive the wire in either byte order. Fragment sets start at 1. In the
window that ends at the largest sequence number the last 32 numbers stay unused: the decoder drops
the last one, and `for_each` looks for a number behind the window as soon as it comes to one of
them. -/
theorem numberSets_roundTrip (msg : CdrMessage) (hpos : msg.pos ≤ msg.length) :
    (∀ sns : BitmapRange Int, sns.WellFormed → 0 ≤ sns.base → sns.base + 255 < 2 ^ 63 →
      (sns.base + 255 = 2 ^ 63 - 1 → ∀ x, sns.base + 224 ≤ x → sns.isSet x = false) →
      msg.Room (12 + 4 * sns.nLongs) →
      RoundTrips (addSequenceNumberSet sns) readSequenceNumberSet sns msg) ∧
    ∀ fns : BitmapRange Nat, fns.WellFormed → 1 ≤ fns.base → fns.base + 255 < 2 ^ 32 → msg.Room
      (8 + 4 * fns.nLongs) → RoundTrips (addFragmentNumberSet fns) readFragmentNumberSet fns msg :=
  ⟨fun _ h hlow hhigh hlast hroom => sequenceNumberSet_roundTrips h hlow hhigh hlast hpos hroom,
    fun _ h hlow hhigh hroom => fragmentNumberSet_roundTrips h hlow hhigh hpos hroom⟩

theorem numberSets_roundTrip_two : (emptyMessage 64).pos ≤ (emptyMessage 64).length ∧
      RoundTrips (addSequenceNumberSet ((setBase 5).add 9)) readSequenceNumberSet
        ((setBase 5).add 9) (emptyMessage 64) ∧
      RoundTrips (addFragmentNumberSet ((setBase 1).add 40)) readFragmentNumberSet
        ((setBase 1).add 40) (emptyMessage 64) := by
  have hints : ((setBase (5 : Int)).add 9).WellFormed :=
    (wellFormed_setBase (window_int 5)).add (window_int 5) (open_setBase 5) (d := 4) (by omega)
  have hnats : ((setBase (1 : Nat)).add 40).WellFormed :=
    (wellFormed_setBase (window_nat (by omega))).add (window_nat (by decide))
      (open_setBase 1) (d := 39) (by omega)
  have hboth := numberSets_roundTrip (emptyMessage 64) (by decide)
  exact ⟨by decide,
    hboth.1 _ hints (by decide) (by decide) (fun htop => absurd htop (by decide))
      ⟨by decide, by decide, by decide⟩,
    hboth.2 _ hnats (by decide) (by decide) ⟨by decide, by decide, by decide⟩⟩

/-- The sets `{1}` at base 0, `{2^63 - 1}` and `{2^63 - 32}` at the base of the last window, and a
message without room. -/
theorem numberSets_not_roundTrip :
    (¬ RoundTrips (addFragmentNumberSet ((setBase 0).add 1)) readFragmentNumberSet
        ((setBase 0).add 1) (emptyMessage 64)) ∧
      (¬ RoundTrips (addSequenceNumberSet ((setBase (2 ^ 63 - 256)).add (2 ^ 63 - 1)))
        readSequenceNumberSet ((setBase (2 ^ 63 - 256)).add (2 ^ 63 - 1)) (emptyMessage 64)) ∧
      (¬ RoundTrips (addSequenceNumberSet ((setBase (2 ^ 63 - 256)).add (2 ^ 63 - 32)))
        readSequenceNumberSet ((setBase (2 ^ 63 - 256)).add (2 ^ 63 - 32)) (emptyMessage 64)) ∧
      ¬ RoundTrips (addSequenceNumberSet ((setBase 5).add 9)) readSequenceNumberSet
        ((setBase 5).add 9) (emptyMessage 0) := by
  refine ⟨fun h => ?_, fun h => ?_, fun h => ?_, fun h => ?_⟩
  · obtain ⟨hwrite, -⟩ := h.results
    simp [addFragmentNumberSet, setBase] at hwrite
  · obtain ⟨-, decoded, hread, hrec⟩ := h.results
    have heval : ((readSequenceNumberSet.run (((addSequenceNumberSet
        ((setBase (2 ^ 63 - 256)).add (2 ^ 63 - 1))).run (emptyMessage 64)).2.rewound
          (emptyMessage 64).pos)).1.toOption.map (·.isSet (2 ^ 63 - 1))) = some false := by
      decide
    rw [hread] at heval
    have hlost : decoded.isSet (2 ^ 63 - 1) = false := Option.some.inj heval
    rw [hrec.isSet_eq] at hlost
    revert hlost
    decide
  · obtain ⟨-, decoded, hread, hrec⟩ := h.results
    have heval : ((readSequenceNumberSet.run (((addSequenceNumberSet
        ((setBase (2 ^ 63 - 256)).add (2 ^ 63 - 32))).run (emptyMessage 64)).2.rewound
          (emptyMessage 64).pos)).1.toOption.map (·.forEachAsserts)) = some false := by
      decide
    rw [hread] at heval
    have hfails : decoded.forEachAsserts = false := Option.some.inj heval
    rw [hrec.returns] at hfails
    cases hfails
  · obtain ⟨-, decoded, hread, hrec⟩ := h.results
    have heval : ((readSequenceNumberSet.run (((addSequenceNumberSet
        ((setBase 5).add 9)).run (emptyMessage 0)).2.rewound
          (emptyMessage 0).pos)).1.toOption.map (·.base)) = some (-2 ^ 32) := by
      decide
    rw [hread] at heval
    have hbase : decoded.base = -2 ^ 32 := Option.some.inj heval
    rw [hrec.base_eq] at hbase
    revert hbase
    decide

end EasyDds.Rtps.CdrMessage
