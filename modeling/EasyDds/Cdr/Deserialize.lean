import EasyDds.Cdr.Serialize

/-!
Type decoding and the `deserialize` overloads. A decoder takes the object it writes into and
returns its new value, so what it leaves untouched keeps the old value. The loops of type
decoding end when the functor or the input says so; they carry a bound on their rounds.
-/

namespace EasyDds.Cdr

open Prog

abbrev MemberFunctor (σ : Type) := MemberId → σ → CdrM (Bool × σ)

section DeserializeType

variable {σ : Type} (fuel : Nat) (functor : MemberFunctor σ)

/-- `++next_member_id_.id`. -/
def incrementNextMemberId : CdrM Unit := modify fun s =>
  { s with nextMemberId := .ofNat (s.nextMemberId.id + 1) s.nextMemberId.mustUnderstand }

/-- One round of the loop over members known by their position. -/
def deserializeNext (condition : Cdr → Bool) (x : σ) : CdrM (σ ⊕ σ) := do
  let s ← read
  if condition s then
    let (known, x') ← functor s.nextMemberId x
    if known then
      incrementNextMemberId
      pure (.inl x')
    else pure (.inr x')
  else pure (.inr x)

/-- `while (condition && functor(*this, next_member_id_)) ++next_member_id_.id;` -/
def deserializeInOrder (condition : Cdr → Bool) (x : σ) : CdrM σ :=
  loop .outOfFuel (deserializeNext functor condition) fuel x

/-- Calls the functor for the member whose header was read and skips unknown members. -/
def deserializeOrSkip (memberSize : Nat) (x : σ) : CdrM σ := do
  let (known, x') ← functor (← read).nextMemberId x
  if !known then
    if (← read).nextMemberId.mustUnderstand then
      raise (.badParam "Cannot deserialize a member with flag must_understand")
    else
      let _ ← jump memberSize
  pure x'

/-- One round of the XCDRv1 loop over parameterized members. -/
def xcdr1DeserializeMember (arg : σ × State) : CdrM (σ × State ⊕ σ) := do
  let (more, memberId, st) ← xcdr1DeserializeMemberHeader (← read).nextMemberId arg.2
  setNextMemberId memberId
  if more then
    let prevOffset := (← read).offset
    let x' ← deserializeOrSkip functor st.memberSize arg.1
    if st.memberSize ≠ iteratorDiff (← read).offset prevOffset then
      raise (.badParam
        "Member size provided by member header is not equal to the real decoded member size")
    else pure (.inl (x', st))
  else pure (.inr arg.1)

def xcdr1DeserializeType (typeEncoding : EncodingAlgorithmFlag) (x : σ) : CdrM σ := do
  let currentState := (← read).getState
  setCurrentEncoding typeEncoding
  let x' ←
    if typeEncoding = .plCdr then
      loop .outOfFuel (xcdr1DeserializeMember functor) fuel (x, currentState)
    else do
      setNextMemberId (.ofNat 0 false)
      deserializeInOrder fuel functor (fun s => s.offset != s.size) x
  setNextMemberId currentState.nextMemberId
  setCurrentEncoding currentState.previousEncoding
  pure x'

/-- One round of the XCDRv2 loop over parameterized members. -/
def xcdr2DeserializeMember (dheader : Nat) (arg : σ × State) : CdrM (σ × State ⊕ σ) := do
  let start := (← read).offset
  let decoded := iteratorDiff start arg.2.offset
  if decoded = dheader then pure (.inr arg.1)
  else if decoded > dheader then
    raise (.badParam "Member size greater than size specified by DHEADER")
  else
    let (memberId, st) ← xcdr2DeserializeMemberHeader arg.2
    setNextMemberId memberId
    let x' ← deserializeOrSkip functor st.memberSize arg.1
    let consumed := iteratorDiff (← read).offset start
    let headerSize := alignmentOnState st.origin start 4 +
      (if st.headerSerialized = .shortHeader then 4 else 8)
    if ¬(st.memberSize = 0 ∧ consumed = 0) ∧
        ¬(0 < st.memberSize ∧ st.memberSize = iteratorDiff consumed headerSize) then
      raise (.badParam
        "Member size provided by member header is not equal to the real decoded size")
    else pure (.inl (x', st))

def xcdr2DeserializeType (typeEncoding : EncodingAlgorithmFlag) (x : σ) : CdrM σ := do
  if typeEncoding ≠ .plainCdr2 then
    let dheader ← deserializeU32
    let currentState := (← read).getState
    setCurrentEncoding typeEncoding
    let x' ←
      if typeEncoding = .plCdr2 then
        loop .outOfFuel (xcdr2DeserializeMember functor dheader) fuel (x, currentState)
      else do
        setNextMemberId (.ofNat 0 false)
        let x' ← deserializeInOrder fuel functor
          (fun s => iteratorDiff s.offset currentState.offset < dheader) x
        let _ ← jump (iteratorDiff dheader (iteratorDiff (← read).offset currentState.offset))
        pure x'
    setNextMemberId currentState.nextMemberId
    setCurrentEncoding currentState.previousEncoding
    pure x'
  else
    let currentState := (← read).getState
    setCurrentEncoding typeEncoding
    setNextMemberId (.ofNat 0 false)
    let x' ← deserializeInOrder fuel functor (fun s => s.offset != s.size) x
    setNextMemberId currentState.nextMemberId
    setCurrentEncoding currentState.previousEncoding
    pure x'

def cdrDeserializeType (x : σ) : CdrM σ := do
  let currentState := (← read).getState
  setNextMemberId (.ofNat 0 false)
  let x' ← deserializeInOrder fuel functor (fun s => s.offset != s.size) x
  setNextMemberId currentState.nextMemberId
  pure x'

def deserializeType (typeEncoding : EncodingAlgorithmFlag) (x : σ) : CdrM σ := do
  match (← read).cdrVersion with
  | .xcdrV2 => xcdr2DeserializeType fuel functor typeEncoding x
  | .xcdrV1 => xcdr1DeserializeType fuel functor typeEncoding x
  | .ddsCdr | .corbaCdr => cdrDeserializeType fuel functor x

end DeserializeType

section Collections

variable {α : Type}

/-- `while (offset_ - offset < dheader && count < size)` over the given objects. -/
def deserializeWhile (start dheader : Nat) (one : α → CdrM α) : List α → CdrM (List α)
  | [] => pure []
  | x :: xs => do
    if iteratorDiff (← read).offset start < dheader then
      let x' ← one x
      let xs' ← deserializeWhile start dheader one xs
      pure (x' :: xs')
    else pure (x :: xs)

/-- `if (offset_ - offset != dheader) throw`. -/
def checkDheader (start dheader : Nat) (message : String) : CdrM Unit := do
  if iteratorDiff (← read).offset start ≠ dheader then raise (.badParam message)

def deserializeLength : CdrM Nat := do
  notePad 4
  deserializeU32

/-- `vector_t.resize(n)`. -/
def resizeList (init : α) (n : Nat) (xs : List α) : List α :=
  xs.take n ++ List.replicate (n - xs.length) init

/-- The path of arithmetic elements, and of all elements before XCDRv2. -/
def deserializeBlockVector (init : α) (many : List α → CdrM (List α)) (v : List α) :
    CdrM (List α) := do
  let stateBeforeError := (← read).getState
  let sequenceLength ← deserializeLength
  if sequenceLength = 0 then pure []
  else if (← read).room < sequenceLength then
    modify (setState stateBeforeError)
    raise .notEnoughMemory
  else onError (setState stateBeforeError) (many (resizeList init sequenceLength v))

def deserializeObjectVector (init : α) (one : α → CdrM α) (many : List α → CdrM (List α))
    (v : List α) : CdrM (List α) := do
  if (← read).cdrVersion = .xcdrV2 then
    let dheader ← deserializeU32
    let start := (← read).offset
    let sequenceLength ← deserializeLength
    if sequenceLength = 0 then pure []
    else
      let v' ← deserializeWhile start dheader one (resizeList init sequenceLength v)
      checkDheader start dheader "Member size differs from the size specified by DHEADER"
      pure v'
  else deserializeBlockVector init many v

def deserializeBoolSequence : CdrM (List Bool) := do
  let stateBeforeError := (← read).getState
  let sequenceLength ← deserializeLength
  if ← available sequenceLength then
    modify fun s => { s with lastDataSize := 1 }
    collect (fun _ => do
      let value := (← load 1).headD 0
      if value = 1 then pure true
      else if value = 0 then pure false
      else raise (.badParam
        "Unexpected byte value in Cdr::deserialize_bool_sequence, expected 0 or 1"))
      (List.range sequenceLength)
  else
    modify (setState stateBeforeError)
    raise .notEnoughMemory

end Collections

def assignVector {α : Type} {n : Nat} (x : List.Vector α n) (l : List α) : List.Vector α n :=
  if h : l.length = n then ⟨l, h⟩ else x

def regroup {α : Type} {n : Nat} : List (List.Vector α n) → List α → List (List.Vector α n)
  | [], _ => []
  | x :: xs, l => assignVector x (l.take n) :: regroup xs (l.drop n)

structure DeserializeOverloads (α : Type) where
  one : α → CdrM α
  many : List α → CdrM (List α)

def DeserializeOverloads.generic {α : Type} (one : α → CdrM α) : DeserializeOverloads α :=
  ⟨one, collect one⟩

def deserializeArray {α : Type} {n : Nat} (isPrimitive : Bool)
    (many : List α → CdrM (List α)) (x : List.Vector α n) : CdrM (List.Vector α n) := do
  if (← read).cdrVersion = .xcdrV2 ∧ !isPrimitive then
    let dheader ← deserializeU32
    let start := (← read).offset
    let l ← deserializeWhile start dheader (fun y => do
      let ys ← many [y]
      pure (ys.headD y)) x.toList
    checkDheader start dheader "Member size greater than size specified by DHEADER"
    pure (assignVector x l)
  else return assignVector x (← many x.toList)

def deserializeVector : (t : Ty) → DeserializeOverloads t.denote → List t.denote →
    CdrM (List t.denote)
  | .prim .bool, _, _ => deserializeBoolSequence
  | .prim p, o, v => deserializeBlockVector p.init o.many v
  | t, o, v => deserializeObjectVector t.init o.one o.many v

def deserializeKey : (k : KeyTy) → CdrM k.denote
  | .prim p => do
    notePrimPad p
    deserializePrim p
  | .string => do
    notePad 4
    deserializeString

section Maps

variable (k : KeyTy) {α : Type} (value : CdrM α)

def deserializePair : CdrM (k.denote × α) := do
  let key ← deserializeKey k
  let val ← value
  pure (key, val)

def deserializePairsWhile (start dheader : Nat) :
    Nat → OrderedMap k.rank α → CdrM (OrderedMap k.rank α)
  | 0, m => pure m
  | n + 1, m => do
    if iteratorDiff (← read).offset start < dheader then
      let e ← deserializePair k value
      deserializePairsWhile start dheader n (m.emplace e)
    else pure m

def deserializePairs : Nat → OrderedMap k.rank α → CdrM (OrderedMap k.rank α)
  | 0, m => pure m
  | n + 1, m => do
    let e ← deserializePair k value
    deserializePairs n (m.emplace e)

end Maps

/-- `deserialize(std::map<_K, _T>&)`. With arithmetic values the old entries are kept. -/
def deserializeMap (k : KeyTy) (t : Ty) (value : CdrM t.denote)
    (m : OrderedMap k.rank t.denote) : CdrM (OrderedMap k.rank t.denote) := do
  let s ← read
  if t.isArithmetic then
    let sequenceLength ← deserializeLength
    onError (setState s.getState) (deserializePairs k value sequenceLength m)
  else if s.cdrVersion = .xcdrV2 then
    let dheader ← deserializeU32
    let start := (← read).offset
    let mapLength ← deserializeLength
    let m' ← deserializePairsWhile k value start dheader mapLength .empty
    checkDheader start dheader "Member size greater than size specified by DHEADER"
    pure m'
  else
    let sequenceLength ← deserializeLength
    onError (setState s.getState) (deserializePairs k value sequenceLength .empty)

def deserializeOptional {α : Type} (value : CdrM α) : CdrM (Option α) := do
  let s ← read
  let isPresent ← if s.cdrVersion = .xcdrV2 ∧ s.currentEncoding ≠ .plCdr2
    then deserializeBool else pure true
  if isPresent then return some (← value) else pure none

/-- `deserialize_member(optional<_T>&)`; in PLAIN_CDR an optional has a header of its own. -/
def deserializeOptMember {α : Type} (one : α → CdrM α) (x : α) : CdrM α := do
  let s ← read
  if s.currentEncoding = .plainCdr then
    let (_, _, st) ← xcdr1DeserializeMemberHeader memberIdInvalid s.getState
    let prevOffset := (← read).offset
    let x' ← if 0 < st.memberSize then one x else pure x
    if st.memberSize ≠ iteratorDiff (← read).offset prevOffset then
      raise (.badParam
        "Member size provided by member header is not equal to the real decoded member size")
    else pure x'
  else one x

/-- Parameterized encodings name members by identifier, the others by position. -/
def EncodingAlgorithmFlag.namesMembers : EncodingAlgorithmFlag → Bool
  | .plCdr | .plCdr2 => true
  | _ => false

mutual

def deserialize (fuel : Nat) : (t : Ty) → DeserializeOverloads t.denote
  | .prim p =>
    { one := fun _ => do
        notePrimPad p
        deserializePrim p
      many := fun xs => do
        if xs.length ≠ 0 then notePrimPad p
        deserializePrimArray p xs }
  | .string => .generic fun _ => do
      notePad 4
      deserializeString
  | .wstring => .generic fun _ => do
      notePad 4
      deserializeWstring
  | .array t _ =>
    { one := deserializeArray t.isMultiArrayPrimitive (deserialize fuel t).many
      many := fun xs => do
        let l ← (deserialize fuel t).many (xs.flatMap fun x => x.toList)
        pure (regroup xs l) }
  | .vector t => .generic (deserializeVector t (deserialize fuel t))
  | .map k t => .generic (deserializeMap k t ((deserialize fuel t).one t.init))
  | .optional t => .generic fun _ => deserializeOptional ((deserialize fuel t).one t.init)
  | .struct e ms => .generic fun x => do
      let encoding := e.encoding (← read).cdrVersion
      deserializeType fuel
        (fun mid => deserializeMembers fuel encoding.namesMembers ms 0 mid.id) encoding x

/-- The `switch` of a structure's member functor. The labels are the member identifiers, or
the positions from `index` on. -/
def deserializeMembers (fuel : Nat) (namesMembers : Bool) :
    (ms : Members) → (index label : Nat) → ms.denote → CdrM (Bool × ms.denote)
  | .nil, _, _, x => pure (false, x)
  | .cons m t ms, index, label, x => do
    if label = (if namesMembers then m.memberId.id else index) then
      let y ← if t.isOptional then deserializeOptMember (deserialize fuel t).one x.1
        else (deserialize fuel t).one x.1
      pure (true, (y, x.2))
    else
      let (known, ys) ← deserializeMembers fuel namesMembers ms (index + 1) label x.2
      pure (known, (x.1, ys))

end

def deserializeStringSequence : CdrM (List (List UInt8)) := do
  let s ← read
  let one : List UInt8 → CdrM (List UInt8) := fun _ => do
    notePad 4
    deserializeString
  if s.cdrVersion = .xcdrV2 then
    let dheader ← deserializeU32
    let start := (← read).offset
    let sequenceLength ← deserializeLength
    let l ← deserializeWhile start dheader one (List.replicate sequenceLength [])
    checkDheader start dheader "Member size greater than size specified by DHEADER"
    pure l
  else
    let sequenceLength ← deserializeLength
    onError (setState s.getState) (collect one (List.replicate sequenceLength []))

end EasyDds.Cdr
