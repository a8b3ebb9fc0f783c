import EasyDds.Rtps.Message.CdrMessage

/-!
What writers put into a message and readers take out of it, as bytes. `Emits` and `Reads` follow
the structure of the programs, so that an encoder and its decoder are compared by the bytes alone.
-/

namespace EasyDds.Rtps.CdrMessage

open Prog List

variable {α β : Type} {e : Endianness} {slack : Nat}

def emptyMessage (maxSize : Nat) : CdrMessage where
  buffer := fun _ => 0
  pos := 0
  maxSize := maxSize
  length := 0
  msgEndian := .bigend
  defaultEndian := .littleend
  accesses := []

def append (msg : CdrMessage) (bytes : List UInt8) : CdrMessage :=
  { msg with
    buffer := msg.buffer.write msg.pos bytes
    pos := msg.pos + bytes.length
    length := msg.length + bytes.length }

def rewound (msg : CdrMessage) (p : Nat) : CdrMessage := { msg with pos := p }

lemma append_nil (msg : CdrMessage) : msg.append [] = msg := by simp [append]

lemma append_append (msg : CdrMessage) (bs cs : List UInt8) :
    (msg.append bs).append cs = msg.append (bs ++ cs) := by
  simp only [append, length_append, Mem.write_append, Nat.add_assoc]

/-- There is room for `n` bytes and no 32-bit counter wraps. -/
structure Room (msg : CdrMessage) (n : Nat) : Prop where
  fits : msg.pos + n ≤ msg.maxSize
  maxSize_lt : msg.maxSize < 2 ^ 32
  length_lt : msg.length + n < 2 ^ 32

variable {msg : CdrMessage} {n x : Nat} {bs bytes cs : List UInt8} {m : Reader α} {f : α → Reader β}
  {a : α} {b : β}

lemma Room.mono {m : Nat} (h : msg.Room n) (hle : m ≤ n) : msg.Room m :=
  ⟨by have := h.fits; omega, h.maxSize_lt, by have := h.length_lt; omega⟩

lemma Room.append (h : msg.Room (bytes.length + n)) : (msg.append bytes).Room n :=
  ⟨by have := h.fits; simp only [CdrMessage.append]; omega, h.maxSize_lt,
    by have := h.length_lt; simp only [CdrMessage.append]; omega⟩

/-- The program adds `bytes` and returns `a` wherever there is room for them and `slack` more. -/
def Emits (slack : Nat) (e : Endianness) (m : Reader α) (a : α) (bytes : List UInt8) : Prop :=
  ∀ msg : CdrMessage, msg.msgEndian = e → msg.Room (bytes.length + slack) →
    m.run msg = (.ok a, msg.append bytes)

lemma Emits.pure (a : α) : Emits slack e (pure a) a [] := by
  intro msg _ _
  rw [run_pure, append_nil]

lemma Emits.bind (hm : Emits slack e m a bs) (hf : Emits slack e (f a) b cs) :
    Emits slack e (m >>= f) b (bs ++ cs) := by
  intro msg hend hroom
  rw [length_append, Nat.add_assoc] at hroom
  rw [bind_of_ok (hm msg hend (hroom.mono (by omega))), hf (msg.append bs) hend hroom.append,
    append_append]

lemma Emits.map {f : α → β} (hm : Emits slack e m a bs) :
    Emits slack e (do let x ← m; Pure.pure (f x)) (f a) bs := by
  have h := hm.bind (f := fun x => Pure.pure (f x)) (Emits.pure (f a))
  rwa [List.append_nil] at h

lemma Emits.read {f : CdrMessage → Reader α}
    (hf : ∀ msg, msg.msgEndian = e → Emits slack e (f msg) a bs) :
    Emits slack e (read >>= f) a bs := by
  intro msg hend hroom
  exact hf msg hend msg hend hroom

lemma emits_addData (bytes : List UInt8) : Emits slack e (addData bytes) true bytes := by
  intro msg _ hroom
  have hfits := hroom.fits
  have hmax := hroom.maxSize_lt
  have hlen := hroom.length_lt
  have hpos : wrap32 (msg.pos + bytes.length) = msg.pos + bytes.length :=
    Nat.mod_eq_of_lt (by omega)
  have hlength : wrap32 (msg.length + bytes.length) = msg.length + bytes.length :=
    Nat.mod_eq_of_lt (by omega)
  have hspace : msg.hasSpace bytes.length = true := by
    exact decide_eq_true (by omega)
  simp only [addData, copyToBuffer, run_read_bind, hspace, if_true, run_modify_bind,
    run_pure, hpos, hlength, append]

lemma emits_addPrimitive (n x : Nat) : Emits slack e (addPrimitive n x) true (wordImage e n x) := by
  apply Emits.read
  intro msg hend
  rw [hend]
  exact emits_addData _

lemma emits_addUInt32 (x : Nat) : Emits slack e (addUInt32 x) true (wordImage e 4 x) :=
  emits_addPrimitive 4 x

lemma wordImage_one (e : Endianness) (x : Nat) : wordImage e 1 x = [UInt8.ofNat x] := by
  cases e <;> rfl

lemma emits_addOctet (x : Nat) : Emits slack e (addOctet x) true [UInt8.ofNat x] := by
  rw [← wordImage_one e]
  exact emits_addPrimitive 1 x

lemma emits_addPadding (n : Nat) : Emits slack e (addPadding n) true (replicate n 0) := by
  induction n with
  | zero => exact Emits.pure true
  | succ n ih => exact (emits_addOctet 0).bind ih.map

/-- The bytes of a sequence number: the high half first, in either byte order. -/
def sequenceNumberImage (e : Endianness) (sn : Int) : List UInt8 :=
  wordImage e 4 (sn / 2 ^ 32 % 2 ^ 32).toNat ++ wordImage e 4 (sn % 2 ^ 32).toNat

@[simp] lemma length_wordImage (e : Endianness) (n x : Nat) : (wordImage e n x).length = n :=
  length_wordBytes _ n x

lemma length_sequenceNumberImage (e : Endianness) (sn : Int) :
    (sequenceNumberImage e sn).length = 8 := by
  simp [sequenceNumberImage]

lemma emits_addSequenceNumber (sn : Int) :
    Emits slack e (addSequenceNumber sn) true (sequenceNumberImage e sn) := by
  exact (emits_addPrimitive 4 _).bind (emits_addUInt32 _).map

/-- `addEntityId` needs the one byte of slack. -/
theorem emits_addEntityId (id : EntityId) : Emits 1 e (addEntityId id) true id.toList := by
  intro msg _ hroom
  have hfour : id.toList.length = 4 := by simp
  have hfits := hroom.fits
  have hmax := hroom.maxSize_lt
  have hlen := hroom.length_lt
  have hpos : wrap32 (msg.pos + 4) = msg.pos + 4 := Nat.mod_eq_of_lt (by omega)
  have hlength : wrap32 (msg.length + 4) = msg.length + 4 := Nat.mod_eq_of_lt (by omega)
  have hspace : ¬ msg.maxSize ≤ msg.pos + 4 := by omega
  simp only [addEntityId, copyToBuffer, run_read_bind, hpos, hspace, if_false,
    run_modify_bind, run_pure, hfour, hlength, append]

structure Ahead (msg : CdrMessage) (bytes : List UInt8) : Prop where
  bytes_eq : msg.buffer.slice msg.pos bytes.length = bytes
  inside : msg.pos + bytes.length ≤ msg.length
  length_lt : msg.length < 2 ^ 32

def moved (msg : CdrMessage) (n : Nat) (accesses : List Access) : CdrMessage :=
  { msg with pos := msg.pos + n, accesses := accesses }

/-- Bytes just added are ahead once the cursor goes back. -/
theorem ahead_append (hroom : msg.Room bytes.length) (hpos : msg.pos ≤ msg.length) :
    ((msg.append bytes).rewound msg.pos).Ahead bytes where
  bytes_eq := Mem.slice_write_self _ _ _
  inside := by
    simp only [append, rewound]
    omega
  length_lt := hroom.length_lt

/-- The program takes `a` from `bytes` and moves the cursor over exactly these. -/
def Reads (e : Endianness) (m : Reader α) (a : α) (bytes : List UInt8) : Prop :=
  ∀ msg : CdrMessage, msg.msgEndian = e → msg.Ahead bytes →
    ∃ accesses, m.run msg = (.ok a, msg.moved bytes.length accesses)

lemma Reads.pure (a : α) : Reads e (pure a) a [] := fun msg _ _ => ⟨msg.accesses, rfl⟩

lemma Ahead.left (h : msg.Ahead (bs ++ cs)) : msg.Ahead bs := by
  obtain ⟨heq, hin, hlt⟩ := h
  rw [length_append] at heq hin
  rw [Mem.slice_add] at heq
  exact ⟨(append_inj heq (by simp)).1, by omega, hlt⟩

lemma Ahead.right (h : msg.Ahead (bs ++ cs)) (accesses : List Access) :
    (msg.moved bs.length accesses).Ahead cs := by
  obtain ⟨heq, hin, hlt⟩ := h
  rw [length_append] at heq hin
  rw [Mem.slice_add] at heq
  exact ⟨(append_inj heq (by simp)).2, by simp only [moved]; omega, hlt⟩

/-- A run goes on behind the bytes its first reader took. -/
theorem Reads.step (hm : Reads e m a bs) (hahead : msg.Ahead (bs ++ cs))
    (hend : msg.msgEndian = e) :
    ∃ accesses, (m >>= f).run msg = (f a).run (msg.moved bs.length accesses) ∧
      (msg.moved bs.length accesses).Ahead cs := by
  obtain ⟨accesses, hrun⟩ := hm msg hend hahead.left
  exact ⟨accesses, bind_of_ok hrun, hahead.right accesses⟩

lemma Reads.bind (hm : Reads e m a bs) (hf : Reads e (f a) b cs) :
    Reads e (m >>= f) b (bs ++ cs) := by
  intro msg hend hahead
  obtain ⟨accesses, hrun, hrest⟩ := hm.step (f := f) hahead hend
  obtain ⟨accesses', hrun'⟩ := hf (msg.moved bs.length accesses) hend hrest
  refine ⟨accesses', ?_⟩
  rw [hrun, hrun', length_append]
  simp only [moved, Nat.add_assoc]

lemma Reads.bind_nil (hm : Reads e m a bs) (hf : Reads e (f a) b []) :
    Reads e (m >>= f) b bs := by
  have h := hm.bind hf
  rwa [List.append_nil] at h

lemma Reads.map {f : α → β} (hm : Reads e m a bs) :
    Reads e (do let x ← m; Pure.pure (f x)) (f a) bs :=
  hm.bind_nil (Reads.pure (f a))

lemma Reads.attempt (hm : Reads e m a bs) : Reads e (attempt m) (some a) bs := by
  intro msg hend hahead
  obtain ⟨accesses, hrun⟩ := hm msg hend hahead
  exact ⟨accesses, attempt_of_ok hrun⟩

lemma Reads.times (image : α → List UInt8) (as : List α) (hm : ∀ a ∈ as, Reads e m a (image a)) :
    Reads e (times m as.length) as (as.flatMap image) := by
  induction as with
  | nil => exact Reads.pure []
  | cons a as ih =>
    exact (hm a (by simp)).bind (ih fun b hb => hm b (by simp [hb])).map

lemma run_fits (hn : msg.pos + n ≤ msg.length) (hlt : msg.length < 2 ^ 32) :
    ∃ accesses, (fits n).run msg = (.ok (), { msg with accesses := accesses }) := by
  have hpos : wrap32 (msg.pos + n) = msg.pos + n := Nat.mod_eq_of_lt (by omega)
  refine ⟨msg.accesses ++ [.accepted msg.pos n], ?_⟩
  simp only [fits, record, run_read_bind, hpos, if_neg (Nat.not_lt.mpr hn), run_modify]

lemma map_span (buffer : Mem) (p n : Nat) : (span p n).map buffer = buffer.slice p n := by
  simp [span, Mem.slice, Function.comp_def]

lemma map_indexedSpan (buffer : Mem) {p : Nat} (h : p + n ≤ 2 ^ 32) :
    (indexedSpan p n).map buffer = buffer.slice p n := by
  simp only [indexedSpan, Mem.slice, map_map]
  refine map_congr_left fun k hk => ?_
  have hlt := mem_range.mp hk
  simp only [Function.comp_apply]
  rw [wrap32, Nat.mod_eq_of_lt (by omega)]

/-- The readers of a fixed number of bytes: a check, a fetch and a step of the cursor. -/
theorem reads_fetch (e : Endianness) (bytes : List UInt8) (places : CdrMessage → List Nat)
    (f : Endianness → List UInt8 → α)
    (hplaces : ∀ msg : CdrMessage, msg.pos + bytes.length ≤ 2 ^ 32 →
      (places msg).map msg.buffer = msg.buffer.slice msg.pos bytes.length) :
    Reads e (do
      fits bytes.length
      let msg ← read
      let taken ← fetch (places msg)
      advance bytes.length
      Pure.pure (f msg.msgEndian taken)) (f e bytes) bytes := by
  rintro msg rfl ⟨heq, hin, hlt⟩
  obtain ⟨accesses, hfits⟩ := run_fits hin hlt
  have hpos : wrap32 (msg.pos + bytes.length) = msg.pos + bytes.length :=
    Nat.mod_eq_of_lt (by omega)
  have htaken : (places { msg with accesses := accesses }).map msg.buffer = bytes :=
    (hplaces { msg with accesses := accesses } (by change msg.pos + _ ≤ _; omega)).trans heq
  refine ⟨accesses ++ [.read (places { msg with accesses := accesses })], ?_⟩
  rw [bind_of_ok hfits]
  simp only [fetch, record, advance, run_read_bind, run_bind_bind, run_modify_bind,
    run_pure_bind, run_pure, hpos, htaken, moved]

lemma word_wordImage (e : Endianness) (n x : Nat) : word e (wordImage e n x) = x % 256 ^ n :=
  ofWordBytes_wordBytes _ n x

lemma reads_readWord (n x : Nat) : Reads e (readWord n) (x % 256 ^ n) (wordImage e n x) := by
  have h := reads_fetch e (wordImage e n x)
    (fun msg => if msg.msgEndian = msg.defaultEndian then indexedSpan msg.pos n else span msg.pos n)
    word (fun msg hin => by
      rw [length_wordImage] at hin ⊢
      split
      · exact map_indexedSpan _ hin
      · exact map_span _ _ _)
  rw [length_wordImage, word_wordImage] at h
  exact h

lemma reads_readUInt32 (hx : x < 2 ^ 32) : Reads e readUInt32 x (wordImage e 4 x) := by
  have h := reads_readWord (e := e) 4 x
  rwa [show (256 : Nat) ^ 4 = 2 ^ 32 by decide, Nat.mod_eq_of_lt hx] at h

lemma reads_readInt32 (hx : x < 2 ^ 31) : Reads e readInt32 (x : Int) (wordImage e 4 x) := by
  have hsigned : signed 4 x = x := if_pos (show x < 256 ^ 4 / 2 by omega)
  rw [← hsigned]
  exact (reads_readUInt32 (show x < 2 ^ 32 by omega)).map

lemma reads_uint16 (hbytes : bytes.length = 2) : Reads e readUInt16 (word e bytes) bytes := by
  have h := reads_fetch e bytes (fun msg => indexedSpan msg.pos 2) word fun msg hin => by
    rw [hbytes] at hin ⊢
    exact map_indexedSpan _ hin
  rw [hbytes] at h
  exact h

lemma reads_readUInt16 (hx : x < 2 ^ 16) : Reads e readUInt16 x (wordImage e 2 x) := by
  have h := reads_uint16 (e := e) (length_wordImage e 2 x)
  rwa [word_wordImage, Nat.mod_eq_of_lt (show x < 256 ^ 2 by omega)] at h

lemma reads_readInt16 (hx : x < 2 ^ 15) : Reads e readInt16 (x : Int) (wordImage e 2 x) := by
  have hsigned : signed 2 x = x := if_pos (show x < 256 ^ 2 / 2 by omega)
  rw [← hsigned]
  exact (reads_readUInt16 (show x < 2 ^ 16 by omega)).map

lemma reads_readData (hne : bytes ≠ []) : Reads e (readData true bytes.length) bytes bytes := by
  have hpos := length_pos_iff.mpr hne
  have h := reads_fetch e bytes (fun msg => span msg.pos bytes.length) (fun _ taken => taken)
    fun msg _ => map_span _ _ _
  simp only [readData, hpos, if_true]
  exact h

lemma reads_readEntityId (id : EntityId) : Reads e readEntityId id.toList id.toList := by
  have hfour : id.toList.length = 4 := by simp
  have h := reads_fetch e id.toList (fun msg => span msg.pos 4) (fun _ taken => taken)
    fun msg _ => by rw [map_span, hfour]
  rw [hfour] at h
  exact h

/-- A check of bytes that are ahead, in front of the reader that takes them. -/
theorem Reads.after_fits (hm : Reads e m a bs) (hn : n ≤ bs.length) :
    Reads e (do fits n; m) a bs := by
  intro msg hend hahead
  have hin := hahead.inside
  obtain ⟨accesses, hfits⟩ := run_fits (by omega : msg.pos + n ≤ msg.length) hahead.length_lt
  obtain ⟨accesses', hrun⟩ := hm { msg with accesses := accesses } hend
    ⟨hahead.bytes_eq, hahead.inside, hahead.length_lt⟩
  refine ⟨accesses', ?_⟩
  rw [bind_of_ok hfits, hrun]
  rfl

lemma reads_readSequenceNumber {sn : Int} (hlow : 0 ≤ sn) (hhigh : sn < 2 ^ 63) :
    Reads e readSequenceNumber sn (sequenceNumberImage e sn) := by
  have hsplit : ((sn / 2 ^ 32 % 2 ^ 32).toNat : Int) * 2 ^ 32 + ((sn % 2 ^ 32).toNat : Nat) =
    sn := by
    omega
  refine Reads.after_fits ?_ (by simp [length_sequenceNumberImage])
  refine (reads_readInt32 (by omega)).bind ?_
  have hlast := (reads_readUInt32 (e := e) (x := (sn % 2 ^ 32).toNat) (by omega)).map
    (f := fun low : Nat => ((sn / 2 ^ 32 % 2 ^ 32).toNat : Int) * 2 ^ 32 + low)
  rwa [hsplit] at hlast

end EasyDds.Rtps.CdrMessage
