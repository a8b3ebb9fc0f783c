import EasyDds.Cdr.Types
import EasyDds.Lib.Memory
import EasyDds.Lib.Prog
import Mathlib.Tactic.Simps.Basic

/-!
The mutable part of `Cdr` over its `FastBuffer`, and the cursor operations every encoder and
decoder is written with. Positions are indices into the buffer, so `begin()` is `0`. The log
is not part of the object: it records the accesses of a run for statements about them.
-/

namespace EasyDds.Cdr

open Prog

/-- What a run did. `limit` is the size of the buffer at that moment. -/
inductive Event
  /-- `n` bytes from index `i` were read. -/
  | read (i n limit : Nat)
  /-- `n` bytes from index `i` were written. -/
  | write (i n limit : Nat)
  /-- `memmove` of `n` bytes from index `src` to index `dst`. -/
  | move (src dst n limit : Nat)
  /-- `offset_` became `o`. -/
  | cursor (o limit : Nat)
  /-- `pad` bytes were skipped without a check before a member header, with `room` bytes left. -/
  | headerAlign (pad room : Nat)
  /-- A header was about to become `header` bytes long before `size` bytes of content. -/
  | grow (header size room : Nat)
  /-- The padding before a primitive of a value. -/
  | pad (n : Nat)
deriving DecidableEq, Repr

inductive CdrError
  | notEnoughMemory
  | badParam (message : String)
  /-- The bound of a modelled loop was reached; not an exception of the source. -/
  | outOfFuel
deriving DecidableEq, Repr

end EasyDds.Cdr

namespace EasyDds

/-- The `Cdr` object together with the `FastBuffer` it works on. -/
structure Cdr where
  /-- The bytes of the buffer, and of the memory around it. -/
  mem : Mem
  /-- `end_ - begin()`. -/
  size : Nat
  /-- Whether the buffer owns its memory, and so can grow. -/
  internalBuffer : Bool
  cdrVersion : Cdr.CdrVersion
  currentEncoding : Cdr.EncodingAlgorithmFlag
  swapBytes : Bool
  lastDataSize : Nat
  offset : Nat
  origin : Nat
  nextMemberId : Cdr.MemberId
  align64 : Nat
  serializedMemberSize : Cdr.SerializedMemberSizeForNextInt
  log : List Cdr.Event
  /-- No object is larger than `PTRDIFF_MAX`. -/
  size_lt : size < 2 ^ 63

namespace Cdr

abbrev CdrM := Prog Cdr CdrError

def memberIdInvalid : MemberId := ⟨0xFFFFFFFF, false, by decide⟩

def ofFastBuffer (mem : Mem) (size : Nat) (size_lt : size < 2 ^ 63) (version : CdrVersion)
    (swap : Bool) : Cdr where
  mem := mem
  size := size
  internalBuffer := false
  cdrVersion := version
  currentEncoding := if version = .xcdrV2 then .plainCdr2 else .plainCdr
  swapBytes := swap
  lastDataSize := 0
  offset := 0
  origin := 0
  nextMemberId := memberIdInvalid
  align64 := if version = .xcdrV2 then 4 else 8
  serializedMemberSize := .noSerializedMemberSize
  log := []
  size_lt := size_lt

def iteratorDiff (a b : Nat) : Nat := (((a : Int) - b) % 2 ^ 64).toNat

/-- `end_ - offset_`. -/
def room (s : Cdr) : Nat := iteratorDiff s.size s.offset

def alignmentOnState (origin offset dataSize : Nat) : Nat :=
  (dataSize - (((offset : Int) - origin) % dataSize).toNat) &&& (dataSize - 1)

def alignment (s : Cdr) (dataSize : Nat) : Nat :=
  if dataSize > s.lastDataSize then alignmentOnState s.origin s.offset dataSize else 0

@[simps -fullyApplied] def moveTo (s : Cdr) (o : Nat) : Cdr :=
  { s with offset := o, log := .cursor o s.size :: s.log }

@[simps! -fullyApplied] def makeAlignment (s : Cdr) (align : Nat) : Cdr :=
  { s.moveTo (s.offset + align) with lastDataSize := 0 }

@[simps -fullyApplied] def resetAlignment (s : Cdr) : Cdr :=
  { s with origin := s.offset, lastDataSize := 0 }

/-- `offset_ << data; offset_ += sizeof(data)`. -/
@[simps -fullyApplied] def store (s : Cdr) (bs : List UInt8) : Cdr :=
  { s with
    mem := s.mem.write s.offset bs
    offset := s.offset + bs.length
    log := .cursor (s.offset + bs.length) s.size :: .write s.offset bs.length s.size :: s.log }

/-- The state after `offset_ >> data; offset_ += n` for data of `n` bytes. -/
@[simps -fullyApplied] def skipRead (s : Cdr) (n : Nat) : Cdr :=
  { s with
    offset := s.offset + n
    log := .cursor (s.offset + n) s.size :: .read s.offset n s.size :: s.log }

@[simps -fullyApplied] def memmove (s : Cdr) (dst src n : Nat) : Cdr :=
  { s with mem := s.mem.move src dst n, log := .move src dst n s.size :: s.log }

@[simps -fullyApplied] def note (s : Cdr) (e : Event) : Cdr := { s with log := e :: s.log }

/-- `Cdr::state`, with the fields that member and type encoding store in it. -/
structure State where
  offset : Nat
  origin : Nat
  swapBytes : Bool
  lastDataSize : Nat
  nextMemberId : MemberId
  memberSize : Nat
  headerSelection : XCdrHeaderSelection
  headerSerialized : XCdrHeaderSelection
  previousEncoding : EncodingAlgorithmFlag

@[simps -fullyApplied] def getState (s : Cdr) : State where
  offset := s.offset
  origin := s.origin
  swapBytes := s.swapBytes
  lastDataSize := s.lastDataSize
  nextMemberId := s.nextMemberId
  memberSize := 0
  headerSelection := .autoWithShortHeaderByDefault
  headerSerialized := .shortHeader
  previousEncoding := s.currentEncoding

@[simps! -fullyApplied] def setState (st : State) (s : Cdr) : Cdr :=
  { s.moveTo st.offset with
    origin := st.origin
    swapBytes := st.swapBytes
    lastDataSize := st.lastDataSize
    nextMemberId := st.nextMemberId }

/-- `FastBuffer::resize`; an allocation above `PTRDIFF_MAX` fails. -/
def resize (s : Cdr) (minSizeInc : Nat) : Option Cdr :=
  if s.internalBuffer then
    let incBufferSize := if minSizeInc > 200 then minSizeInc else 200
    if h : s.size + incBufferSize < 2 ^ 63 then
      some { s with size := s.size + incBufferSize, size_lt := h }
    else none
  else none

def reserve (n : Nat) : CdrM Bool := ⟨fun s =>
  if n ≤ s.room then (.ok true, s)
  else match s.resize n with
    | some s' => (.ok true, s')
    | none => (.ok false, s)⟩

def available (n : Nat) : CdrM Bool := do
  return n ≤ (← Prog.read).room

def jump (numBytes : Nat) : CdrM Bool := do
  if ← reserve numBytes then
    Prog.modify fun s => { s.moveTo (s.offset + numBytes) with lastDataSize := 0 }
    pure true
  else pure false

/-- `make_alignment(alignment(4))` where no room was checked for. -/
def alignHeader : CdrM Unit := Prog.modify fun s =>
  (s.note (.headerAlign (s.alignment 4) s.room)).makeAlignment (s.alignment 4)

def setSerializedMemberSize (f : SerializedMemberSizeForNextInt) : CdrM Unit :=
  Prog.modify fun s => { s with serializedMemberSize := f }

def setNextMemberId (m : MemberId) : CdrM Unit :=
  Prog.modify fun s => { s with nextMemberId := m }

def setCurrentEncoding (e : EncodingAlgorithmFlag) : CdrM Unit :=
  Prog.modify fun s => { s with currentEncoding := e }

/-- Records the padding that a primitive of the given alignment gets next. -/
def notePad (dataSize : Nat) : CdrM Unit :=
  Prog.modify fun s => s.note (.pad (s.alignment dataSize))

end Cdr

end EasyDds
