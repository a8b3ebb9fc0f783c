import EasyDds.Cdr.State

/-!
Overloads for arithmetic types, arrays of them, and strings. The overloads of one width do
the same in the source and are one definition here, applied to the width and alignment of the
type. Where an overload differs from its siblings (`bool`, `wchar_t`, the one-byte arrays that
do not return early) it keeps its own body.
-/

namespace EasyDds.Cdr

open Prog

def Prim.alignOf (align64 : Nat) (p : Prim) : Nat :=
  if p.wireSize < 8 then p.wireSize else align64

/-- `serialize(char)`, and `serialize(bool)` with the byte it writes. -/
def serializeOctet (b : UInt8) : CdrM Unit := do
  if ← reserve 1 then
    modify fun s => { s with lastDataSize := 1 }.store [b]
  else raise .notEnoughMemory

/-- `serialize` of an integer or floating-point word of `n` bytes. -/
def serializeWord (n align x : Nat) : CdrM Unit := do
  let a := (← read).alignment align
  if ← reserve (n + a) then
    modify fun s => (s.makeAlignment a).store (wordBytes s.swapBytes n x)
  else raise .notEnoughMemory

def serializeU16 (x : Nat) : CdrM Unit := serializeWord 2 2 x

def serializeU32 (x : Nat) : CdrM Unit := serializeWord 4 4 x

def serializePrim (p : Prim) (x : p.denote) : CdrM Unit := do
  if p.wireSize = 1 then serializeOctet (UInt8.ofNat (p.toWire x))
  else serializeWord p.wireSize (p.alignOf (← read).align64) (p.toWire x)

def serializeOctetArray (bs : List UInt8) : CdrM Unit := do
  if ← reserve bs.length then
    modify fun s => { s with lastDataSize := 1 }.store bs
  else raise .notEnoughMemory

def serializeWordArray (n align : Nat) (xs : List Nat) : CdrM Unit := do
  if xs.length = 0 then pure ()
  else
    let a := (← read).alignment align
    if ← reserve (n * xs.length + a) then
      modify fun s => (s.makeAlignment a).store (xs.flatMap (wordBytes s.swapBytes n))
    else raise .notEnoughMemory

def serializePrimArray (p : Prim) (xs : List p.denote) : CdrM Unit := do
  if p.wireSize = 1 then
    serializeOctetArray (xs.map fun x => UInt8.ofNat (p.toWire x))
  else if p = .wchar then each (serializePrim p) xs
  else
    serializeWordArray p.wireSize (p.alignOf (← read).align64) (xs.map p.toWire)

def cString (v : List UInt8) : List UInt8 := v.takeWhile (· != 0)

def wcString (v : List (BitVec 32)) : List (BitVec 32) := v.takeWhile (· != 0)

/-- `serialize(const char*)` on the `c_str()` of a `std::string`. -/
def serializeString (v : List UInt8) : CdrM Unit := do
  let length := ((cString v).length % 2 ^ 32 + 1) % 2 ^ 32
  if length > 0 then
    let stateBeforeError := (← read).getState
    serializeU32 length
    if ← reserve length then
      modify fun s => { s with lastDataSize := 1 }.store ((cString v ++ [0]).take length)
    else
      modify (setState stateBeforeError)
      raise .notEnoughMemory
  else serializeU32 length
  setSerializedMemberSize .serializedMemberSize

/-- `serialize(const wchar_t*)` on the `c_str()` of a `std::wstring`. -/
def serializeWstring (v : List (BitVec 32)) : CdrM Unit := do
  let bytesLength := (wcString v).length * 2 % 2 ^ 32
  if bytesLength > 0 then
    let state := (← read).getState
    serializeU32 ((wcString v).length % 2 ^ 32)
    if ← reserve bytesLength then serializePrimArray .wchar (wcString v)
    else
      modify (setState state)
      raise .notEnoughMemory
  else serializeU32 bytesLength

def load (n : Nat) : CdrM (List UInt8) := do
  let s ← read
  modify (skipRead · n)
  pure (s.mem.slice s.offset n)

def deserializeOctet : CdrM UInt8 := do
  if ← available 1 then
    modify fun s => { s with lastDataSize := 1 }
    let bs ← load 1
    pure (bs.headD 0)
  else raise .notEnoughMemory

def deserializeWord (n align : Nat) : CdrM Nat := do
  let a := (← read).alignment align
  if ← available (n + a) then
    modify (makeAlignment · a)
    let bs ← load n
    pure (ofWordBytes (← read).swapBytes bs)
  else raise .notEnoughMemory

def deserializeU16 : CdrM Nat := deserializeWord 2 2

def deserializeU32 : CdrM Nat := deserializeWord 4 4

def deserializeBool : CdrM Bool := do
  let value ← deserializeOctet
  if value = 1 then pure true
  else if value = 0 then pure false
  else raise (.badParam "Unexpected byte value in Cdr::deserialize(bool), expected 0 or 1")

def deserializePrim : (p : Prim) → CdrM p.denote
  | .bool => deserializeBool
  | p => do
    if p.wireSize = 1 then return p.ofWire (← deserializeOctet).toNat
    else return p.ofWire (← deserializeWord p.wireSize (p.alignOf (← read).align64))

def deserializeOctetArray (numElements : Nat) : CdrM (List UInt8) := do
  if ← available numElements then
    modify fun s => { s with lastDataSize := 1 }
    load numElements
  else raise .notEnoughMemory

def wordsOf (swap : Bool) (n : Nat) : Nat → List UInt8 → List Nat
  | 0, _ => []
  | k + 1, bs => ofWordBytes swap (bs.take n) :: wordsOf swap n k (bs.drop n)

def deserializeWordArray (n align numElements : Nat) : CdrM (List Nat) := do
  if numElements = 0 then pure []
  else
    let a := (← read).alignment align
    if ← available (n * numElements + a) then
      modify (makeAlignment · a)
      let bs ← load (n * numElements)
      pure (wordsOf (← read).swapBytes n numElements bs)
    else raise .notEnoughMemory

/-- `deserialize_array` into the given elements. A `bool` keeps its old value when the byte
is neither 0 nor 1. -/
def deserializePrimArray : (p : Prim) → List p.denote → CdrM (List p.denote)
  | .bool, xs => do
    let bs ← deserializeOctetArray xs.length
    pure (List.zipWith (fun b x => if b = 1 then true else if b = 0 then false else x) bs xs)
  | .wchar, xs => collect (fun _ => deserializePrim .wchar) xs
  | p, xs => do
    if p.wireSize = 1 then
      return (← deserializeOctetArray xs.length).map fun b => p.ofWire b.toNat
    else
      let ws ← deserializeWordArray p.wireSize (p.alignOf (← read).align64) xs.length
      return ws.map p.ofWire

def deserializeString : CdrM (List UInt8) := do
  let stateBeforeError := (← read).getState
  let length ← deserializeU32
  if length = 0 then pure []
  else if ← available length then
    modify fun s => { s with lastDataSize := 1 }
    let bs ← load length
    pure (if bs.getLast? = some 0 then bs.dropLast else bs)
  else
    modify (setState stateBeforeError)
    raise .notEnoughMemory

def deserializeWstring : CdrM (List (BitVec 32)) := do
  let state := (← read).getState
  let length ← deserializeU32
  let bytesLength := length * 2 % 2 ^ 32
  if bytesLength = 0 then pure []
  else if ← available bytesLength then
    modify fun s => { s with lastDataSize := 2 }
    let cs ← deserializePrimArray .wchar (List.replicate length 0)
    pure (if cs.getLast? = some 0 then cs.dropLast else cs)
  else
    modify (setState state)
    raise .notEnoughMemory

end EasyDds.Cdr
