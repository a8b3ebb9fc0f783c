import EasyDds.Rtps.Message.Sequences
import EasyDds.Rtps.Message.Wire

/-!
Strings and octet vectors. A writer pads what it adds to a multiple of four bytes, a reader moves
the cursor to the next multiple of four in the message: the two agree where the first byte stands at
such a place.
-/

namespace EasyDds.Rtps.CdrMessage

open Prog List

variable {α β : Type} {e : Endianness} {slack : Nat} {bytes : List UInt8} {m : Reader α}

section Reading

/-- The program takes `a` from `bytes` wherever these start at a multiple of four, and stops at
one. -/
structure ReadsAligned (e : Endianness) (m : Reader α) (a : α) (bytes : List UInt8) : Prop where
  whole : bytes.length % 4 = 0
  run : ∀ msg : CdrMessage, msg.msgEndian = e → msg.pos % 4 = 0 → msg.Ahead bytes →
    ∃ accesses, m.run msg = (.ok a, msg.moved bytes.length accesses)

lemma Reads.aligned {a : α} (h : Reads e m a bytes)
    (hwhole : bytes.length % 4 = 0) : ReadsAligned e m a bytes :=
  ⟨hwhole, fun msg hend _ => h msg hend⟩

namespace ReadsAligned

lemma pure (a : α) : ReadsAligned e (pure a) a [] := (Reads.pure a).aligned rfl

variable {m : Reader α} {a : α}

lemma bind {f : α → Reader β} {b : β} {bs cs : List UInt8} (hm : ReadsAligned e m a bs)
    (hf : ReadsAligned e (f a) b cs) : ReadsAligned e (m >>= f) b (bs ++ cs) := by
  have hbs := hm.whole
  have hcs := hf.whole
  refine ⟨by rw [length_append]; omega, fun msg hend hpos hahead => ?_⟩
  obtain ⟨accesses, hrun⟩ := hm.run msg hend hpos hahead.left
  have hpos' : (msg.moved bs.length accesses).pos % 4 = 0 := by
    change (msg.pos + bs.length) % 4 = 0
    omega
  obtain ⟨accesses', hrun'⟩ := hf.run (msg.moved bs.length accesses) hend hpos'
    (hahead.right accesses)
  refine ⟨accesses', ?_⟩
  rw [bind_of_ok hrun, hrun', length_append]
  simp only [moved, Nat.add_assoc]

lemma map {f : α → β} {bs : List UInt8} (hm : ReadsAligned e m a bs) :
    ReadsAligned e (do let x ← m; Pure.pure (f x)) (f a) bs := by
  have h := hm.bind (f := fun x => Pure.pure (f x)) (.pure (f a))
  rwa [List.append_nil] at h

lemma times (image : β → List UInt8) (f : β → α) (bs : List β)
    (hm : ∀ b ∈ bs, ReadsAligned e m (f b) (image b)) :
    ReadsAligned e (times m bs.length) (bs.map f) (bs.flatMap image) := by
  induction bs with
  | nil => exact .pure []
  | cons b bs ih =>
    exact (hm b (mem_cons_self ..)).bind (ih fun c hc => hm c (mem_cons_of_mem _ hc)).map

/-- What stands in a message is shorter than 4 GB. -/
theorem of_lt (hwhole : bytes.length % 4 = 0)
    (h : bytes.length < 2 ^ 32 → ReadsAligned e m a bytes) : ReadsAligned e m a bytes := by
  refine ⟨hwhole, fun msg hend hpos hahead => ?_⟩
  have hinside := hahead.inside
  have hlt := hahead.length_lt
  exact (h (by omega)).run msg hend hpos hahead

end ReadsAligned

/-- The cursor goes to the next multiple of four. -/
theorem run_align {msg : CdrMessage} {k : Nat} (hk : k < 4) (hpos : (msg.pos + k) % 4 = 0)
    (hlt : msg.pos + k < 2 ^ 32) : align.run msg = (.ok (), { msg with pos := msg.pos + k }) := by
  have hwrap : wrap32 (msg.pos + 3) = msg.pos + 3 := Nat.mod_eq_of_lt (by omega)
  have hround : (msg.pos + 3) / 4 * 4 = msg.pos + k := by omega
  rw [align, run_modify, hwrap, hround]

lemma run_advance {msg : CdrMessage} {n : Nat} (hlt : msg.pos + n < 2 ^ 32) :
    (advance n).run msg = (.ok (), { msg with pos := msg.pos + n }) := by
  rw [advance, run_modify, wrap32, Nat.mod_eq_of_lt hlt]

end Reading

def padding (n : Nat) : List UInt8 := replicate ((4 - n % 4) % 4) 0

lemma length_padding (n : Nat) : (padding n).length = (4 - n % 4) % 4 := length_replicate

lemma padding_word (e : Endianness) (x : Nat) (bytes : List UInt8) :
    padding (wordImage e 4 x ++ bytes).length = padding bytes.length := by
  simp [padding]

def octetsImage (e : Endianness) (ocvec : List UInt8) : List UInt8 :=
  wordImage e 4 ocvec.length ++ (ocvec ++ padding ocvec.length)

def stringImage (e : Endianness) (s : List UInt8) : List UInt8 := octetsImage e (cString s ++ [0])

lemma octetsImage_whole (e : Endianness) (ocvec : List UInt8) :
    (octetsImage e ocvec).length % 4 = 0 := by
  simp only [octetsImage, length_append, length_wordImage, length_padding]
  omega

lemma four_le_octetsImage (e : Endianness) (ocvec : List UInt8) :
    4 ≤ (octetsImage e ocvec).length := by
  simp only [octetsImage, length_append, length_wordImage]
  omega

lemma stringImage_whole (e : Endianness) (s : List UInt8) : (stringImage e s).length % 4 = 0 :=
  octetsImage_whole e _

lemma eight_le_stringImage (e : Endianness) (s : List UInt8) : 8 ≤ (stringImage e s).length := by
  have hwhole := stringImage_whole e s
  simp only [stringImage, octetsImage, length_append, length_wordImage, length_singleton]
    at hwhole ⊢
  omega

section Strings

/-- A reader that looks for the next multiple of four behind its last byte finds the one behind the
padding. -/
theorem Reads.then_align {a : α} (hm : Reads e m a bytes)
    {f : α → Reader β} {b : β} (hf : f a = Pure.pure b) :
    ReadsAligned e (m >>= fun x => align >>= fun _ => f x) b (bytes ++ padding bytes.length) := by
  have hpadding := length_padding bytes.length
  refine ⟨by rw [length_append]; omega, fun msg hend hpos hahead => ?_⟩
  have hinside := hahead.inside
  have hlt := hahead.length_lt
  rw [length_append] at hinside
  obtain ⟨accesses, hrun⟩ := hm msg hend hahead.left
  have hpos' : (msg.pos + bytes.length + (padding bytes.length).length) % 4 = 0 := by omega
  have halign : align.run (msg.moved bytes.length accesses) = (.ok (),
      { msg.moved bytes.length accesses with
        pos := msg.pos + bytes.length + (padding bytes.length).length }) :=
    run_align (by omega) hpos' (by change msg.pos + bytes.length + _ < _; omega)
  refine ⟨accesses, ?_⟩
  rw [bind_of_ok hrun, bind_of_ok halign, hf, run_pure, length_append]
  simp only [moved, Nat.add_assoc]

lemma reads_readData_nil : Reads e (readData true 0) [] [] := by
  intro msg _ hahead
  have hinside := hahead.inside
  obtain ⟨accesses, hfits⟩ := run_fits (n := 0) (by simpa using hinside) hahead.length_lt
  exact ⟨accesses, by rw [readData, bind_of_ok hfits]; rfl⟩

lemma reads_readOctets (ocvec : List UInt8) : Reads e (readData true ocvec.length) ocvec ocvec := by
  cases ocvec with
  | nil => exact reads_readData_nil
  | cons b bs => exact reads_readData (cons_ne_nil b bs)

lemma Reads.recorded {m : Reader α} {a : α} {bytes : List UInt8} {access : CdrMessage → Access}
    (hm : Reads e m a bytes) :
    Reads e (read >>= fun msg => record (access msg) >>= fun _ => m) a bytes :=
  fun msg hend hahead => hm { msg with accesses := msg.accesses ++ [access msg] } hend
    ⟨hahead.bytes_eq, hahead.inside, hahead.length_lt⟩

/-- The error of `readOctetVector` is raised only behind the alignment. -/
theorem Reads.octets_align {m : Reader (Option (List UInt8))} {a bytes : List UInt8}
    (hm : Reads e m (some a) bytes) : ReadsAligned e (m >>= fun x => align >>= fun _ =>
      match x with
      | some octets => (Pure.pure octets : Reader _)
      | none => raise ()) a (bytes ++ padding bytes.length) :=
  hm.then_align rfl

lemma readOctetVector_readsAligned (e : Endianness) (ocvec : List UInt8) :
    ReadsAligned e readOctetVector ocvec (octetsImage e ocvec) := by
  refine .of_lt (octetsImage_whole e ocvec) fun hlt => ?_
  simp only [octetsImage, length_append] at hlt
  have hsize : Reads e readUInt32 ocvec.length (wordImage e 4 ocvec.length) :=
    reads_readUInt32 (by omega)
  have hread : Reads e (fits 4 >>= fun _ => readUInt32 >>= fun n => read >>= fun msg =>
        record (.accepted msg.pos n) >>= fun _ => attempt (readData true n))
      (some ocvec) (wordImage e 4 ocvec.length ++ ocvec) :=
    (hsize.bind (reads_readOctets ocvec).attempt.recorded).after_fits (by simp)
  have h := hread.octets_align
  simp only [bind_assoc] at h
  rw [padding_word, append_assoc] at h
  exact h

def readChars (size : Option Nat) : Reader (Option Nat × List UInt8) := do
  fits (size.getD 1)
  let msg ← read
  let text ←
    if 1 < size.getD 1 then fetch (indexedSpan msg.pos (size.getD 1 - 1)) else Pure.pure []
  advance (size.getD 1)
  Pure.pure (size, text)

lemma reads_readChars (hne : bytes ≠ []) :
    Reads e (readChars (some bytes.length)) (some bytes.length, bytes.dropLast) bytes := by
  rw [readChars, Option.getD_some]
  rintro msg - hahead
  have hinside := hahead.inside
  have hlt := hahead.length_lt
  have hpos := length_pos_iff.mpr hne
  obtain ⟨accesses, hfits⟩ := run_fits hinside hlt
  have htext : (indexedSpan msg.pos (bytes.length - 1)).map msg.buffer = bytes.dropLast := by
    rw [map_indexedSpan _ (by omega)]
    have hsplit : bytes.length = bytes.length - 1 + 1 := by omega
    calc msg.buffer.slice msg.pos (bytes.length - 1)
        = (msg.buffer.slice msg.pos (bytes.length - 1 + 1)).dropLast := by
          rw [Mem.slice_add]
          exact dropLast_concat.symm
      _ = bytes.dropLast := by rw [← hsplit, hahead.bytes_eq]
  rw [bind_of_ok hfits, run_read_bind]
  split
  · refine ⟨accesses ++ [.read (indexedSpan msg.pos (bytes.length - 1))], ?_⟩
    simp only [fetch, record, run_bind_bind, run_read_bind, run_modify_bind, run_pure_bind, htext]
    rw [bind_of_ok (run_advance (by change msg.pos + _ < _; omega))]
    rfl
  · refine ⟨accesses, ?_⟩
    obtain ⟨b, rfl⟩ := length_eq_one_iff.mp (by omega : bytes.length = 1)
    rw [run_pure_bind, bind_of_ok (run_advance (by change msg.pos + _ < _; omega))]
    rfl

lemma Reads.chars_align {m : Reader (Option Nat × List UInt8)} {n : Nat} {text bytes : List UInt8}
    (hm : Reads e m (some n, text) bytes) : ReadsAligned e (m >>= fun r => align >>= fun _ =>
      match r.1 with
      | some _ => (Pure.pure r.2 : Reader _)
      | none => raise ()) text (bytes ++ padding bytes.length) :=
  hm.then_align rfl

lemma readString_readsAligned (e : Endianness) (s : List UInt8) :
    ReadsAligned e readString (cString s) (stringImage e s) := by
  apply ReadsAligned.of_lt (stringImage_whole e s)
  intro hlt
  simp only [stringImage, octetsImage, length_append] at hlt
  have hsize : Reads e (attempt readUInt32) (some (cString s ++ [0]).length)
      (wordImage e 4 (cString s ++ [0]).length) :=
    (reads_readUInt32 (by rw [length_append]; omega)).attempt
  have hread := hsize.bind (reads_readChars (concat_ne_nil 0 (cString s)))
  rw [dropLast_concat] at hread
  have h := hread.chars_align
  simp only [readChars, bind_assoc, pure_bind, ite_bind] at h
  rw [padding_word, append_assoc] at h
  exact h

end Strings

section Writing

/-- What is added to a message is shorter than 4 GB. -/
theorem Emits.of_lt {a : α}
    (h : bytes.length < 2 ^ 32 → Emits slack e m a bytes) : Emits slack e m a bytes := by
  intro msg hend hroom
  have hlt := hroom.length_lt
  exact h (by omega) msg hend hroom

lemma Emits.andThen {first second : Reader Bool} {b : Bool} {bs cs : List UInt8}
    (hfirst : Emits slack e first true bs) (hsecond : Emits slack e second b cs) :
    Emits slack e (andThen first second) b (bs ++ cs) :=
  hfirst.bind hsecond

/-- A length, the bytes and zeros up to a multiple of four. -/
theorem emits_octets (hlt : bytes.length < 2 ^ 32) :
    Emits slack e (addUInt32 (wrap32 bytes.length) >>= fun size =>
      addData (bytes.take (wrap32 bytes.length)) >>= fun data =>
        addPadding ((4 - wrap32 bytes.length % 4) % 4) >>= fun pad =>
          Pure.pure (size && data && pad))
      true (octetsImage e bytes) := by
  rw [wrap32, Nat.mod_eq_of_lt hlt, take_length]
  exact (emits_addUInt32 _).bind ((emits_addData bytes).bind (emits_addPadding _).map)

lemma emits_addString (s : List UInt8) : Emits slack e (addString s) true (stringImage e s) := by
  apply Emits.of_lt
  intro hlt
  have hshort : (cString s ++ [0]).length < 2 ^ 32 := by
    simp only [stringImage, octetsImage, length_append] at hlt ⊢
    omega
  have hlength : (cString s).length + 1 = (cString s ++ [0]).length := by simp
  simp only [addString, hlength]
  exact emits_octets hshort

/-- The check of `addOctetVector` needs the one byte of slack: it refuses a vector that would end
just where the message does. -/
theorem emits_addOctetVector (ocvec : List UInt8) :
    Emits 1 e (addOctetVector ocvec true) true (octetsImage e ocvec) := by
  intro msg hend hroom
  have hfits := hroom.fits
  have hlength := hroom.length_lt
  simp only [octetsImage, length_append, length_wordImage] at hfits hlength
  have hwrap : wrap32 ocvec.length = ocvec.length := Nat.mod_eq_of_lt (by omega)
  have hpadded := emits_octets (by omega : ocvec.length < 2 ^ 32) msg hend hroom
  simp only [hwrap] at hpadded
  have hspace : ¬ msg.maxSize ≤ msg.pos + ocvec.length + 4 := by omega
  simp only [addOctetVector, run_read_bind, if_true, if_neg hspace, hwrap]
  exact hpadded

end Writing

end EasyDds.Rtps.CdrMessage
