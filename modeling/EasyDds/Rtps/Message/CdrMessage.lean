import EasyDds.Lib.Prog
import EasyDds.Rtps.Common

/-!
`CDRMessage_t` and the functions of `CDRMessage` that read and write its scalars. A reader that
returns `false` raises; what it did to the cursor before stays done, as in the source.
-/

namespace EasyDds.Rtps

open Prog

inductive Endianness
  | bigend
  | littleend
deriving DecidableEq, Repr

/-- What a reader does with a message, in the order it does it. -/
inductive Access
  /-- This amount is taken to be there behind the cursor. -/
  | accepted (cursor amount : Nat)
  /-- The bytes at these places of the buffer are read. -/
  | read (indices : List Nat)
deriving DecidableEq, Repr

/-- `CDRMessage_t`. `defaultEndian` is `DEFAULT_ENDIAN`, a constant of the build. `accesses` is no
part of the source: it records what the readers did with the buffer. -/
structure CdrMessage where
  buffer : Mem
  pos : Nat
  maxSize : Nat
  length : Nat
  msgEndian : Endianness
  defaultEndian : Endianness
  accesses : List Access

namespace CdrMessage

abbrev Reader := Prog CdrMessage Unit

def record (a : Access) : Reader Unit :=
  modify fun msg => { msg with accesses := msg.accesses ++ [a] }

/-- `if (pos + amount > length) return false`. -/
def fits (amount : Nat) : Reader Unit := do
  let msg ← read
  if msg.length < wrap32 (msg.pos + amount) then raise ()
  else record (.accepted msg.pos amount)

/-- `if (start + factor * amount > limit) return false`. -/
def countFits (amount start factor limit : Nat) : Reader Unit := do
  let msg ← read
  if limit < wrap32 (start + factor * amount) then raise ()
  else record (.accepted msg.pos amount)

def span (p n : Nat) : List Nat := (List.range n).map (p + ·)

/-- The places `buffer[p + i]`, where the sum is a `uint32_t`. -/
def indexedSpan (p n : Nat) : List Nat := (List.range n).map fun i => wrap32 (p + i)

def fetch (indices : List Nat) : Reader (List UInt8) := do
  let msg ← read
  record (.read indices)
  pure (indices.map msg.buffer)

/-- `pos += n`. -/
def advance (n : Nat) : Reader Unit :=
  modify fun msg => { msg with pos := wrap32 (msg.pos + n) }

/-- `pos = (pos + 3u) & ~3u`. -/
def align : Reader Unit :=
  modify fun msg => { msg with pos := wrap32 (msg.pos + 3) / 4 * 4 }

def word (endian : Endianness) (bytes : List UInt8) : Nat :=
  ofWordBytes (decide (endian = .bigend)) bytes

/-- `readInt32`, `readUInt32`, `readInt64`: `n` bytes, taken in order by index or
reversed through a pointer. -/
def readWord (n : Nat) : Reader Nat := do
  fits n
  let msg ← read
  let bytes ← fetch
    (if msg.msgEndian = msg.defaultEndian then indexedSpan msg.pos n else span msg.pos n)
  advance n
  pure (word msg.msgEndian bytes)

def readUInt32 : Reader Nat := readWord 4

def signed (n : Nat) (x : Nat) : Int :=
  if x < 256 ^ n / 2 then x else (x : Int) - 256 ^ n

def readInt32 : Reader Int := do
  let x ← readWord 4
  pure (signed 4 x)

def readInt64 : Reader Int := do
  let x ← readWord 8
  pure (signed 8 x)

def readUInt16 : Reader Nat := do
  fits 2
  let msg ← read
  let bytes ← fetch (indexedSpan msg.pos 2)
  advance 2
  pure (word msg.msgEndian bytes)

def readInt16 : Reader Int := do
  let x ← readUInt16
  pure (signed 2 x)

/-- `readData`; `dest` tells whether there is a destination. -/
def readData (dest : Bool) (length : Nat) : Reader (List UInt8) := do
  fits length
  if 0 < length then
    if dest then do
      let msg ← read
      let bytes ← fetch (span msg.pos length)
      advance length
      pure bytes
    else raise ()
  else pure []

def readEntityId : Reader (List UInt8) := do
  fits 4
  let msg ← read
  let bytes ← fetch (span msg.pos 4)
  advance 4
  pure bytes

def readSequenceNumber : Reader Int := do
  fits 8
  let high ← readInt32
  let low ← readUInt32
  pure (high * 2 ^ 32 + low)

/-- `readOctetVector`. The vector is resized before anything is checked, and the cursor is aligned
also if the bytes are not there. -/
def readOctetVector : Reader (List UInt8) := do
  fits 4
  let vecsize ← readUInt32
  let msg ← read
  record (.accepted msg.pos vecsize)
  let bytes ← attempt (readData true vecsize)
  align
  match bytes with
  | some bytes => pure bytes
  | none => raise ()

/-- The frame of both `readString`s around the characters of a string of a length above 1. Where
the length is missing the source goes on with 1. -/
def readStringWith (chars : CdrMessage → Nat → Reader (List UInt8)) : Reader (List UInt8) := do
  let size ← attempt readUInt32
  let strSize := size.getD 1
  fits strSize
  let msg ← read
  let text ← if 1 < strSize then chars msg strSize else pure []
  advance strSize
  align
  match size with
  | some _ => pure text
  | none => raise ()

def readString : Reader (List UInt8) :=
  readStringWith fun msg strSize => fetch (indexedSpan msg.pos (strSize - 1))

def memccpySpan (buffer : Mem) (p : Nat) : Nat → Nat
  | 0 => 0
  | n + 1 => if buffer p = 0 then 1 else memccpySpan buffer (p + 1) n + 1

/-- `readString` into a `string_255`: the characters are those up to the first null, whatever the
length says. -/
def readString255 : Reader (List UInt8) :=
  readStringWith fun msg _ => do
    let bytes ← fetch (span msg.pos (memccpySpan msg.buffer msg.pos 255))
    pure (bytes.takeWhile (· ≠ 0))

def hasSpace (msg : CdrMessage) (length : Nat) : Bool :=
  decide (wrap32 (msg.pos + length) ≤ msg.maxSize)

/-- `copyToBuffer`, for bytes that are already in the order they are stored in. -/
def copyToBuffer (bytes : List UInt8) : Reader Unit :=
  modify fun msg => { msg with
    buffer := msg.buffer.write msg.pos bytes
    pos := wrap32 (msg.pos + bytes.length)
    length := wrap32 (msg.length + bytes.length) }

def addData (bytes : List UInt8) : Reader Bool := do
  let msg ← read
  if msg.hasSpace bytes.length then do
    copyToBuffer bytes
    pure true
  else pure false

def wordImage (endian : Endianness) (n x : Nat) : List UInt8 :=
  wordBytes (decide (endian = .bigend)) n x

def addPrimitive (n x : Nat) : Reader Bool := do
  let msg ← read
  addData (wordImage msg.msgEndian n x)

def addOctet (x : Nat) : Reader Bool := addPrimitive 1 x

def addPadding : Nat → Reader Bool
  | 0 => pure true
  | n + 1 => do
    let ok ← addOctet 0
    let rest ← addPadding n
    pure (ok && rest)

def addUInt16 (x : Nat) : Reader Bool := addPrimitive 2 x

def addUInt32 (x : Nat) : Reader Bool := addPrimitive 4 x

def addInt32 (x : Int) : Reader Bool := addPrimitive 4 (x % 2 ^ 32).toNat

def addInt64 (x : Int) : Reader Bool := addPrimitive 8 (x % 2 ^ 64).toNat

/-- `addEntityId`, which wants one byte more than it writes. -/
def addEntityId (id : EntityId) : Reader Bool := do
  let msg ← read
  if msg.maxSize ≤ wrap32 (msg.pos + 4) then pure false
  else do
    copyToBuffer id.toList
    pure true

def addSequenceNumber (sn : Int) : Reader Bool := do
  let _ ← addInt32 (sn / 2 ^ 32)
  let _ ← addUInt32 (sn % 2 ^ 32).toNat
  pure true

end CdrMessage

end EasyDds.Rtps
