import EasyDds.Cdr.Member

/-!
Type encoding and the `serialize` overloads for class templates. `serialize` is by recursion
on the description of a type; each clause is the overload the compiler selects for it. An
overload set has two entries: the one for a single value and the one for a C array of
values, since arrays of arrays are flattened and arrays of arithmetic types go in one block.
-/

namespace EasyDds.Cdr

open Prog

def xcdr1EndSerializeType (currentState : State) : CdrM Unit := do
  if (← read).currentEncoding = .plCdr then
    alignHeader
    serializeU16 pidSentinel
    serializeU16 pidSentinelLength
  setCurrentEncoding currentState.previousEncoding

def xcdr2BeginSerializeType (currentState : State) (typeEncoding : EncodingAlgorithmFlag) :
    CdrM State := do
  if typeEncoding ≠ .plainCdr2 then serializeU32 0
  setSerializedMemberSize .noSerializedMemberSize
  let previousEncoding := (← read).currentEncoding
  setCurrentEncoding typeEncoding
  pure { currentState with previousEncoding }

def xcdr2EndSerializeType (currentState : State) : CdrM Unit := do
  if (← read).currentEncoding ≠ .plainCdr2 then
    let lastOffset := (← read).offset
    modify (setState currentState)
    let s ← read
    let memberSerializedSize :=
      iteratorDiff (iteratorDiff lastOffset s.offset) (4 + s.alignment 4)
    serializeU32 memberSerializedSize
    let _ ← jump memberSerializedSize
    setSerializedMemberSize .serializedMemberSize
  setCurrentEncoding currentState.previousEncoding

/-- `begin_serialize_type`; the XCDRv1 and the plain callbacks only switch the encoding. -/
def beginSerializeType (currentState : State) (typeEncoding : EncodingAlgorithmFlag) :
    CdrM State := do
  let s ← read
  if s.cdrVersion = .xcdrV2 then xcdr2BeginSerializeType currentState typeEncoding
  else
    setCurrentEncoding typeEncoding
    pure { currentState with previousEncoding := s.currentEncoding }

def endSerializeType (currentState : State) : CdrM Unit := do
  match (← read).cdrVersion with
  | .xcdrV2 => xcdr2EndSerializeType currentState
  | .xcdrV1 => xcdr1EndSerializeType currentState
  | .ddsCdr | .corbaCdr => setCurrentEncoding currentState.previousEncoding

def serializeMember (m : MemberInfo) (value : CdrM Unit) : CdrM Unit := do
  let s ← read
  let currentState := s.getState
  match s.cdrVersion with
  | .xcdrV2 =>
    let st ← xcdr2BeginSerializeMember m.memberId true currentState m.headerSelection
    value
    xcdr2EndSerializeMember st
  | .xcdrV1 =>
    let st ← xcdr1BeginSerializeMember m.memberId currentState m.headerSelection
    value
    xcdr1EndSerializeMember st
  | .ddsCdr | .corbaCdr =>
    setNextMemberId memberIdInvalid
    value
    setNextMemberId memberIdInvalid

def serializeOptMember (m : MemberInfo) (isPresent : Bool) (value : CdrM Unit) : CdrM Unit := do
  let s ← read
  let currentState := s.getState
  match s.cdrVersion with
  | .xcdrV2 =>
    let st ← xcdr2BeginSerializeMember m.memberId isPresent currentState m.headerSelection
    value
    xcdr2EndSerializeMember st
  | .xcdrV1 =>
    let st ← xcdr1BeginSerializeOptMember m.memberId isPresent currentState m.headerSelection
    value
    xcdr1EndSerializeOptMember st
  | .ddsCdr | .corbaCdr =>
    setNextMemberId memberIdInvalid
    value
    setNextMemberId memberIdInvalid

structure SerializeOverloads (α : Type) where
  one : α → CdrM Unit
  many : List α → CdrM Unit

/-- Overloads of a type whose arrays are encoded element by element. -/
def SerializeOverloads.generic {α : Type} (one : α → CdrM Unit) : SerializeOverloads α :=
  ⟨one, each one⟩

def notePrimPad (p : Prim) : CdrM Unit := do
  if p.wireSize ≠ 1 then notePad (p.alignOf (← read).align64)

def serializeLength (n : Nat) : CdrM Unit := do
  notePad 4
  serializeU32 (n % 2 ^ 32)

def serializeBoolSequence (v : List Bool) : CdrM Unit := do
  let s ← read
  serializeLength v.length
  if ← reserve v.length then
    modify fun s => { s with lastDataSize := 1 }.store (v.map fun b : Bool => if b then 1 else 0)
  else
    modify (setState s.getState)
    raise .notEnoughMemory
  if s.cdrVersion = .xcdrV2 then setSerializedMemberSize .serializedMemberSize

/-- `serialize(const std::vector<_T>&)` for an arithmetic `_T`. -/
def serializePrimVector (p : Prim) (v : List p.denote) : CdrM Unit := do
  let s ← read
  serializeLength v.length
  onError (setState s.getState) do
    if v.length ≠ 0 then notePrimPad p
    serializePrimArray p v
  if s.cdrVersion = .xcdrV2 then setSerializedMemberSize (getSerializedMemberSize p)

/-- `serialize(const std::vector<_T>&)` for any other `_T`. -/
def serializeObjectVector {α : Type} (many : List α → CdrM Unit) (v : List α) : CdrM Unit := do
  let dheaderState ← allocateXcdrv2Dheader
  serializeLength v.length
  onError (setState dheaderState) (many v)
  setXcdrv2Dheader dheaderState

def serializeVector : (t : Ty) → (List t.denote → CdrM Unit) → List t.denote → CdrM Unit
  | .prim .bool, _, v => serializeBoolSequence v
  | .prim p, _, v => serializePrimVector p v
  | _, many, v => serializeObjectVector many v

def serializeKey : (k : KeyTy) → k.denote → CdrM Unit
  | .prim p, x => do
    notePrimPad p
    serializePrim p x
  | .string, x => do
    notePad 4
    serializeString x

/-- `serialize(const std::map<_K, _T>&)`; only maps to other than arithmetic values get a
DHEADER. -/
def serializeMap (k : KeyTy) (t : Ty) (one : t.denote → CdrM Unit)
    (m : OrderedMap k.rank t.denote) : CdrM Unit := do
  let pairs : CdrM Unit := each (fun e => do serializeKey k e.1; one e.2) m.entries
  if t.isArithmetic then
    let state := (← read).getState
    serializeLength m.entries.length
    onError (setState state) pairs
  else
    let dheaderState ← allocateXcdrv2Dheader
    serializeLength m.entries.length
    onError (setState dheaderState) pairs
    setXcdrv2Dheader dheaderState

/-- `serialize(const std::array<_T, _Size>&)`. -/
def serializeArray (t : Ty) (many : List t.denote → CdrM Unit) (v : List t.denote) : CdrM Unit := do
  if t.isMultiArrayPrimitive then many v
  else
    let dheaderState ← allocateXcdrv2Dheader
    many v
    setXcdrv2Dheader dheaderState

def serializeOptional {α : Type} (one : α → CdrM Unit) (v : Option α) : CdrM Unit := do
  let s ← read
  if s.cdrVersion = .xcdrV2 ∧ s.currentEncoding ≠ .plCdr2 then
    serializeOctet (if v.isSome then 1 else 0)
  match v with
  | some x => one x
  | none => pure ()

def serializeType (e : Extensibility) (members : CdrM Unit) : CdrM Unit := do
  let s ← read
  let currentState ← beginSerializeType s.getState (e.encoding s.cdrVersion)
  members
  endSerializeType currentState

def Ty.isOptional : Ty → Bool
  | .optional _ => true
  | _ => false

def Ty.hasValue : (t : Ty) → t.denote → Bool
  | .optional _, v => Option.isSome v
  | _, _ => true

mutual

def serialize : (t : Ty) → SerializeOverloads t.denote
  | .prim p =>
    { one := fun x => do
        notePrimPad p
        serializePrim p x
      many := fun xs => do
        if xs.length ≠ 0 then notePrimPad p
        serializePrimArray p xs }
  | .string => .generic fun v => do
      notePad 4
      serializeString v
  | .wstring => .generic fun v => do
      notePad 4
      serializeWstring v
  | .array t _ =>
    { one := fun v => serializeArray t (serialize t).many v.toList
      many := fun vs => (serialize t).many (vs.flatMap fun v => v.toList) }
  | .vector t => .generic (serializeVector t (serialize t).many)
  | .map k t => .generic (serializeMap k t (serialize t).one)
  | .optional t => .generic (serializeOptional (serialize t).one)
  | .struct e ms => .generic fun v => serializeType e (serializeMembers ms v)

def serializeMembers : (ms : Members) → ms.denote → CdrM Unit
  | .nil, _ => pure ()
  | .cons m t ms, v => do
    if t.isOptional then serializeOptMember m (t.hasValue v.1) ((serialize t).one v.1)
    else serializeMember m ((serialize t).one v.1)
    serializeMembers ms v.2

end

end EasyDds.Cdr
