import EasyDds.Cdr.Deserialize
import Mathlib.Tactic.IntervalCases

/-!
The byte image of a value, stated without a buffer. A layout is read left to right: it is
given the alignment phase and the pending `serialized_member_size_` at its start, and yields
the cells it occupies, the state it leaves behind, the paddings of the primitives inside, and
how far beyond its start the encoder reaches while it builds the image. The phase is kept
modulo the largest alignment, so moving an image by that amount does not change it.
-/

namespace EasyDds.Cdr

structure Profile where
  version : CdrVersion
  swap : Bool

def Profile.IsXcdr (P : Profile) : Prop := P.version = .xcdrV1 ∨ P.version = .xcdrV2

def Profile.align64 (P : Profile) : Nat := if P.version = .xcdrV2 then 4 else 8

structure Phase where
  /-- `(offset_ - origin_)` modulo the largest alignment. -/
  pos : Nat
  flag : SerializedMemberSizeForNextInt
deriving DecidableEq

structure Piece where
  cells : List (Option UInt8)
  next : Phase
  pads : List Nat
  peak : Nat

abbrev Layout := Phase → Piece

def padTo (n pos : Nat) : Nat := (n - pos % n) % n

namespace Layout

variable (P : Profile)

def advance (φ : Phase) (n : Nat) : Phase := { φ with pos := (φ.pos + n) % P.align64 }

def empty : Layout := fun φ => ⟨[], φ, [], 0⟩

def seq (a b : Layout) : Layout := fun φ =>
  let p := a φ
  let q := b p.next
  { cells := p.cells ++ q.cells
    next := q.next
    pads := p.pads ++ q.pads
    peak := max p.peak (p.cells.length + q.peak) }

def all {α : Type} (f : α → Layout) : List α → Layout
  | [] => empty
  | x :: xs => seq (f x) (all f xs)

def raw (bs : List UInt8) : Layout := fun φ =>
  { cells := bs.map some
    next := advance P φ bs.length
    pads := []
    peak := bs.length }

def aligned (n : Nat) (bs : List UInt8) : Layout := fun φ =>
  let pad := padTo n φ.pos
  { cells := List.replicate pad none ++ bs.map some
    next := advance P φ (pad + bs.length)
    pads := []
    peak := pad + bs.length }

def word (n align x : Nat) : Layout := aligned P align (wordBytes P.swap n x)

def u32 (x : Nat) : Layout := word P 4 4 x

def noted (n : Nat) (a : Layout) : Layout := fun φ =>
  let p := a φ
  { p with pads := padTo n φ.pos :: p.pads }

def thenFlag (f : SerializedMemberSizeForNextInt) (a : Layout) : Layout := fun φ =>
  let p := a φ
  { p with next := { p.next with flag := f } }

def fromFlag (f : SerializedMemberSizeForNextInt) (a : Layout) : Layout := fun φ =>
  a { φ with flag := f }

/-- An image after a word with its length, with a member size flag for both ends. -/
def delimited (a : Layout) : Layout := fun φ =>
  let pad := padTo 4 φ.pos
  let p := a (advance P φ (pad + 4))
  { cells := List.replicate pad none ++ (wordBytes P.swap 4 p.cells.length).map some ++ p.cells
    next := { p.next with flag := .serializedMemberSize }
    pads := p.pads
    peak := pad + 4 + p.peak }

def withDheader (a : Layout) : Layout :=
  if P.version = .xcdrV2 then delimited P a else a

/-- The header words of an XCDRv2 member whose content has the given length and flag. -/
def header2 (m : MemberId) (size : Nat) (flag : SerializedMemberSizeForNextInt) : List UInt8 :=
  if flag = .noSerializedMemberSize then
    if getShortLc size = 0xFFFFFFFF then
      wordBytes P.swap 4 (flagsAndMemberId m 0x40000000) ++ wordBytes P.swap 4 size
    else wordBytes P.swap 4 (flagsAndMemberId m (getShortLc size))
  else wordBytes P.swap 4 (flagsAndMemberId m (getLongLc flag))

def member2 (m : MemberId) (a : Layout) : Layout := fun φ =>
  let pad := padTo 4 φ.pos
  let p := a (advance P φ (pad + 4))
  let header := header2 P m p.cells.length p.next.flag
  { cells := List.replicate pad none ++ header.map some ++ p.cells
    next := { p.next with flag := .noSerializedMemberSize }
    pads := p.pads
    peak := pad + max (4 + p.peak) (header.length + p.cells.length) }

def startsShort (m : MemberInfo) : Bool :=
  m.memberId.id ≤ 0x3F00 ∧
    (m.headerSelection = .autoWithShortHeaderByDefault ∨ m.headerSelection = .shortHeader)

def startLength (m : MemberInfo) : Nat := if startsShort m then 4 else 12

/-- Whether the header of a member of the given length ends up in its short form. -/
def endsShort (m : MemberInfo) (size : Nat) : Bool :=
  size ≤ 0xFFFF ∧ m.memberId.id ≤ 0x3F00 ∧ m.headerSelection ≠ .longHeader

def header1 (m : MemberInfo) (short : Bool) (size : Nat) : List UInt8 :=
  if short then
    wordBytes P.swap 2 (flagsAndPid m.memberId m.memberId.id) ++ wordBytes P.swap 2 size
  else
    wordBytes P.swap 2 (flagsAndPid m.memberId pidExtended) ++ wordBytes P.swap 2 pidExtendedLength
      ++ wordBytes P.swap 4 m.memberId.id ++ wordBytes P.swap 4 size

/-- A member with an XCDRv1 header. The content starts a new alignment origin. -/
def member1 (m : MemberInfo) (a : Layout) : Layout := fun φ =>
  let pad := padTo 4 φ.pos
  let p := a { φ with pos := 0 }
  let header := header1 P m (endsShort m p.cells.length) p.cells.length
  { cells := List.replicate pad none ++ header.map some ++ p.cells
    next := p.next
    pads := p.pads
    peak := pad + max (startLength m + p.peak) (header.length + p.cells.length) }

/-- The header that stands for an absent optional member of a PLAIN_CDR type. -/
def absent1 (m : MemberInfo) : Layout := fun φ =>
  let pad := padTo 4 φ.pos
  let header := header1 P m (startsShort m) 0
  { cells := List.replicate pad none ++ header.map some
    next := { φ with pos := 0 }
    pads := []
    peak := pad + header.length }

/-- The end of a PL_CDR type. -/
def sentinel : Layout :=
  aligned P 4 (wordBytes P.swap 2 pidSentinel ++ wordBytes P.swap 2 pidSentinelLength)

def prim (p : Prim) (x : p.denote) : Layout :=
  if p.wireSize = 1 then raw P [UInt8.ofNat (p.toWire x)]
  else noted (p.alignOf P.align64) (word P p.wireSize (p.alignOf P.align64) (p.toWire x))

def primArray (p : Prim) (xs : List p.denote) : Layout :=
  if p.wireSize = 1 then raw P (xs.map fun x => UInt8.ofNat (p.toWire x))
  else if xs.length = 0 then empty
  else noted (p.alignOf P.align64) (aligned P (p.alignOf P.align64)
    ((xs.map p.toWire).flatMap (wordBytes P.swap p.wireSize)))

def string (v : List UInt8) : Layout :=
  let length := ((cString v).length % 2 ^ 32 + 1) % 2 ^ 32
  thenFlag .serializedMemberSize
    (seq (noted 4 (u32 P length)) (raw P ((cString v ++ [0]).take length)))

def wstring (v : List (BitVec 32)) : Layout :=
  if (wcString v).length * 2 % 2 ^ 32 = 0 then noted 4 (u32 P 0)
  else seq (noted 4 (u32 P ((wcString v).length % 2 ^ 32)))
    (raw P (((wcString v).map (Prim.toWire .wchar)).flatMap (wordBytes P.swap 2)))

def length (n : Nat) : Layout := noted 4 (u32 P (n % 2 ^ 32))

/-- In XCDRv2 a sequence of arithmetic values records how its count can be reused. -/
def sequenceFlag (f : SerializedMemberSizeForNextInt) (a : Layout) : Layout :=
  if P.version = .xcdrV2 then thenFlag f a else a

def vector : (t : Ty) → (List t.denote → Layout) → List t.denote → Layout
  | .prim .bool, _, v => sequenceFlag P .serializedMemberSize
      (seq (length P v.length) (primArray P .bool v))
  | .prim p, _, v => sequenceFlag P (getSerializedMemberSize p)
      (seq (length P v.length) (primArray P p v))
  | _, many, v => withDheader P (seq (length P v.length) (many v))

def key : (k : KeyTy) → k.denote → Layout
  | .prim p, x => prim P p x
  | .string, x => string P x

def map (k : KeyTy) (t : Ty) (one : t.denote → Layout) (m : OrderedMap k.rank t.denote) :
    Layout :=
  let body := seq (length P m.entries.length) (all (fun e => seq (key P k e.1) (one e.2)) m.entries)
  if t.isArithmetic then body else withDheader P body

def optional (e : EncodingAlgorithmFlag) {α : Type} (one : α → Layout) (v : Option α) :
    Layout :=
  seq (if P.version = .xcdrV2 ∧ e ≠ .plCdr2 then raw P [if v.isSome then 1 else 0] else empty)
    (match v with
      | some x => one x
      | none => empty)

def type (e : Extensibility) (body : Layout) : Layout :=
  match P.version with
  | .xcdrV2 => match e with
    | .final => fromFlag .noSerializedMemberSize body
    | .appendable | .mutable => delimited P (fromFlag .noSerializedMemberSize body)
  | .xcdrV1 => match e with
    | .mutable => seq body (sentinel P)
    | .final | .appendable => body
  | .ddsCdr | .corbaCdr => body

def member (e : EncodingAlgorithmFlag) (m : MemberInfo) (isOptional isPresent : Bool)
    (content : Layout) : Layout :=
  match P.version with
  | .xcdrV2 => if e = .plCdr2
      then if isPresent then member2 P m.memberId content
        else thenFlag .noSerializedMemberSize content
      else thenFlag .noSerializedMemberSize content
  | .xcdrV1 => if e = .plCdr
      then if isPresent then member1 P m content else content
      else if isOptional
        then if isPresent then member1 P m content else seq (absent1 P m) content
        else content
  | .ddsCdr | .corbaCdr => content

end Layout

structure LayoutOverloads (α : Type) where
  one : α → Layout
  many : List α → Layout

def LayoutOverloads.generic {α : Type} (one : α → Layout) : LayoutOverloads α :=
  ⟨one, Layout.all one⟩

mutual

def layout (P : Profile) : (t : Ty) → EncodingAlgorithmFlag → LayoutOverloads t.denote
  | .prim p, _ => ⟨Layout.prim P p, Layout.primArray P p⟩
  | .string, _ => .generic (Layout.string P)
  | .wstring, _ => .generic (Layout.wstring P)
  | .array t _, e =>
    { one := fun v =>
        if t.isMultiArrayPrimitive then (layout P t e).many v.toList
        else Layout.withDheader P ((layout P t e).many v.toList)
      many := fun vs => (layout P t e).many (vs.flatMap fun v => v.toList) }
  | .vector t, e => .generic (Layout.vector P t (layout P t e).many)
  | .map k t, e => .generic (Layout.map P k t (layout P t e).one)
  | .optional t, e => .generic (Layout.optional P e (layout P t e).one)
  | .struct x ms, _ => .generic fun v =>
      Layout.type P x (membersLayout P ms (x.encoding P.version) v)

def membersLayout (P : Profile) : (ms : Members) → EncodingAlgorithmFlag → ms.denote → Layout
  | .nil, _, _ => Layout.empty
  | .cons m t ms, e, v =>
    Layout.seq (Layout.member P e m t.isOptional (t.hasValue v.1) ((layout P t e).one v.1))
      (membersLayout P ms e v.2)

end

def Profile.IsAlign (P : Profile) (n : Nat) : Prop := 2 ≤ n ∧ n ∣ P.align64

lemma Profile.align64_cases (P : Profile) : P.align64 = 4 ∨ P.align64 = 8 := by
  unfold Profile.align64
  split <;> simp

variable {n : Nat} {φ : Phase}

lemma Profile.IsAlign.cases {P : Profile} (h : P.IsAlign n) : n = 2 ∨ n = 4 ∨ n = 8 := by
  obtain ⟨hlow, hdvd⟩ := h
  have hle : n ≤ P.align64 := Nat.le_of_dvd (by rcases P.align64_cases with h | h <;> omega) hdvd
  rcases P.align64_cases with h8 | h8 <;> rw [h8] at hdvd hle <;> interval_cases n <;> omega

lemma Profile.isAlign_two (P : Profile) : P.IsAlign 2 := by
  rcases P.align64_cases with h | h <;> simp [Profile.IsAlign, h]

lemma Profile.isAlign_four (P : Profile) : P.IsAlign 4 := by
  rcases P.align64_cases with h | h <;> simp [Profile.IsAlign, h]

lemma Profile.isAlign_align64 (P : Profile) : P.IsAlign P.align64 := by
  rcases P.align64_cases with h | h <;> simp [Profile.IsAlign, h]

lemma Prim.isAlign_alignOf (P : Profile) (p : Prim) (h : p.wireSize ≠ 1) :
    P.IsAlign (p.alignOf P.align64) := by
  cases p <;> simp_all [Prim.alignOf, Prim.wireSize, Prim.sizeof, Profile.isAlign_two,
    Profile.isAlign_four, Profile.isAlign_align64]

lemma padTo_mod {a pos : Nat} (h : n ∣ a) : padTo n (pos % a) = padTo n pos := by
  rw [padTo, Nat.mod_mod_of_dvd _ h, padTo]

variable {P : Profile}

lemma padTo_pos_add (hn : n = 2 ∨ n = 4 ∨ n = 8) (pos : Nat) : n ∣ pos + padTo n pos := by
  rcases hn with rfl | rfl | rfl <;> simp only [padTo] <;> omega

lemma padTo_eq_zero {pos : Nat} (h : n ∣ pos) : padTo n pos = 0 := by
  rw [padTo, Nat.mod_eq_zero_of_dvd h, Nat.sub_zero, Nat.mod_self]

lemma Layout.seq_raw_nil {a : Layout} (h : (a φ).next.pos < P.align64)
    (hpeak : (a φ).cells.length ≤ (a φ).peak) : Layout.seq a (Layout.raw P []) φ = a φ := by
  simp [Layout.seq, Layout.raw, Layout.advance, Nat.mod_eq_of_lt h, Nat.max_eq_left hpeak]

lemma align64_pos (P : Profile) : 0 < P.align64 := by rcases P.align64_cases with h | h <;> omega

/-- After a whole number of aligned words the next word needs no padding. -/
theorem Layout.padTo_aligned_next (hn : P.IsAlign n) (bs : List UInt8) (hbs : n ∣ bs.length)
    (φ : Phase) : padTo n (Layout.aligned P n bs φ).next.pos = 0 := by
  simp only [Layout.aligned, Layout.advance]
  rw [padTo_mod hn.2, ← Nat.add_assoc]
  exact padTo_eq_zero (Nat.dvd_add (padTo_pos_add hn.cases φ.pos) hbs)

lemma Layout.aligned_of_pad_zero (h : padTo n φ.pos = 0) (bs : List UInt8) :
    Layout.aligned P n bs φ = Layout.raw P bs φ := by
  simp [Layout.aligned, Layout.raw, h]

lemma Layout.seq_aligned_raw (n : Nat) (bs cs : List UInt8) (φ : Phase) :
    Layout.seq (Layout.aligned P n bs) (Layout.raw P cs) φ =
      Layout.aligned P n (bs ++ cs) φ := by
  simp [Layout.seq, Layout.aligned, Layout.raw, Layout.advance, Nat.add_assoc]

lemma Layout.seq_congr_right {a b c : Layout} (h : b (a φ).next = c (a φ).next) :
    Layout.seq a b φ = Layout.seq a c φ := by
  simp only [Layout.seq, h]

lemma Layout.all_map {α β : Type} (f : β → Layout) (g : α → β) (xs : List α) :
    Layout.all f (xs.map g) = Layout.all (fun x => f (g x)) xs := by
  induction xs with
  | nil => rfl
  | cons x xs ih => simp only [List.map_cons, Layout.all, ih]

/-- Element by element or in one block: words of one size give the same image, as no word but the
first needs padding. -/
theorem Layout.all_word (hn : P.IsAlign n) {k : Nat} (hk : n ∣ k) (x : Nat) (xs : List Nat)
    (φ : Phase) : Layout.all (Layout.word P k n) (x :: xs) φ =
      Layout.aligned P n ((x :: xs).flatMap (wordBytes P.swap k)) φ := by
  induction xs generalizing x φ with
  | nil =>
    simp [Layout.all, Layout.seq, Layout.empty, Layout.word, Layout.aligned]
  | cons y ys ih =>
    have hnext : padTo n (Layout.word P k n x φ).next.pos = 0 :=
      Layout.padTo_aligned_next hn _ (by simpa using hk) φ
    have htail : Layout.all (Layout.word P k n) (y :: ys) (Layout.word P k n x φ).next =
        Layout.raw P ((y :: ys).flatMap (wordBytes P.swap k))
          (Layout.word P k n x φ).next := by
      rw [ih, Layout.aligned_of_pad_zero hnext]
    calc Layout.all (Layout.word P k n) (x :: y :: ys) φ = Layout.seq (Layout.word P k n x)
            (Layout.raw P ((y :: ys).flatMap (wordBytes P.swap k))) φ :=
          Layout.seq_congr_right htail
      _ = _ := by rw [Layout.word, Layout.seq_aligned_raw, ← List.flatMap_cons]

end EasyDds.Cdr
