import EasyDds.Lib.OrderedMap
import Mathlib.Data.List.Lex
import Mathlib.Data.Vector.Basic

/-!
The C++ types the encoder is instantiated at, as a small universe: `Ty` describes a type,
`Ty.denote` its values, `Ty.init` the value-initialised object a decoder writes into. A
structure is described by its extensibility and its members, the way generated type support
code presents it to the encoder.
-/

namespace EasyDds.Cdr

inductive CdrVersion
  | corbaCdr
  | ddsCdr
  | xcdrV1
  | xcdrV2
deriving DecidableEq, Repr

inductive EncodingAlgorithmFlag
  | plainCdr
  | plCdr
  | plainCdr2
  | delimitCdr2
  | plCdr2
deriving DecidableEq, Repr

inductive XCdrHeaderSelection
  | shortHeader
  | longHeader
  | autoWithShortHeaderByDefault
  | autoWithLongHeaderByDefault
deriving DecidableEq, Repr

inductive SerializedMemberSizeForNextInt
  | noSerializedMemberSize
  | serializedMemberSize
  | serializedMemberSize4
  | serializedMemberSize8
deriving DecidableEq, Repr

/-- A `MemberId`: a 32-bit identifier and the flag that forbids skipping the member. -/
structure MemberId where
  id : Nat
  mustUnderstand : Bool
  id_lt : id < 2 ^ 32
deriving DecidableEq, Repr

/-- How a structure may evolve; it selects the encoding algorithm of its type. -/
inductive Extensibility
  | final
  | appendable
  | mutable
deriving DecidableEq, Repr

/-- The `type_encoding` that type support code passes to `begin_serialize_type`. -/
def Extensibility.encoding : Extensibility → CdrVersion → EncodingAlgorithmFlag
  | .final, .xcdrV2 => .plainCdr2
  | .appendable, .xcdrV2 => .delimitCdr2
  | .mutable, .xcdrV2 => .plCdr2
  | .mutable, .xcdrV1 => .plCdr
  | _, _ => .plainCdr

inductive Prim
  | char
  | int8
  | uint8
  | bool
  | int16
  | uint16
  | wchar
  | int32
  | uint32
  | int64
  | uint64
  | float
  | double
  | longDouble
deriving DecidableEq, Repr

namespace Prim

/-- `sizeof` on the 64-bit Linux ABI. -/
def sizeof : Prim → Nat
  | char | int8 | uint8 | bool => 1
  | int16 | uint16 => 2
  | wchar | int32 | uint32 | float => 4
  | int64 | uint64 | double => 8
  | longDouble => 16

/-- Bytes in the encoding; a `wchar_t` is encoded as a `uint16_t`. -/
def wireSize : Prim → Nat
  | wchar => 2
  | p => p.sizeof

@[reducible] def denote : Prim → Type
  | bool => Bool
  | char | int8 | uint8 => BitVec 8
  | int16 | uint16 => BitVec 16
  | wchar | int32 | uint32 | float => BitVec 32
  | int64 | uint64 | double => BitVec 64
  | longDouble => BitVec 128

def toWire : (p : Prim) → p.denote → Nat
  | bool, b => b.toNat
  | wchar, x => x.toNat % 2 ^ 16
  | char, x | int8, x | uint8, x | int16, x | uint16, x | int32, x | uint32, x
  | int64, x | uint64, x | float, x | double, x | longDouble, x => x.toNat

def ofWire : (p : Prim) → Nat → p.denote
  | bool, n => n != 0
  | wchar, n | char, n | int8, n | uint8, n | int16, n | uint16, n | int32, n | uint32, n
  | int64, n | uint64, n | float, n | double, n | longDouble, n => BitVec.ofNat _ n

def init : (p : Prim) → p.denote
  | bool => false
  | wchar | char | int8 | uint8 | int16 | uint16 | int32 | uint32
  | int64 | uint64 | float | double | longDouble => 0

/-- An IEEE pattern of `w` bits as an integer in the order of the numbers. -/
def signMagnitude (w x : Nat) : Int :=
  if x < 2 ^ (w - 1) then x else -((x - 2 ^ (w - 1) : Nat) : Int)

/-- The position of a value in the order of `operator<`. -/
def rank : (p : Prim) → p.denote → Int
  | bool, b => b.toNat
  | char, x | int8, x | int16, x | int32, x | int64, x | wchar, x => x.toInt
  | uint8, x | uint16, x | uint32, x | uint64, x => x.toNat
  | float, x => signMagnitude 32 x.toNat
  | double, x => signMagnitude 64 x.toNat
  -- the x87 format keeps 80 of the 128 bits
  | longDouble, x => signMagnitude 80 (x.toNat % 2 ^ 80)

end Prim

inductive KeyTy
  | prim (p : Prim)
  | string
deriving DecidableEq, Repr

@[reducible] def KeyTy.denote : KeyTy → Type
  | prim p => p.denote
  | string => List UInt8

/-- The order of keys under `std::less`: numbers by value, strings bytewise. -/
def KeyTy.rank : (k : KeyTy) → k.denote → List Int
  | prim p, x => [p.rank x]
  | string, x => x.map fun c => (c.toNat : Int)

def KeyTy.init : (k : KeyTy) → k.denote
  | prim p => p.init
  | string => []

structure MemberInfo where
  memberId : MemberId
  headerSelection : XCdrHeaderSelection
deriving DecidableEq, Repr

mutual

/-- The C++ types that have `serialize` and `deserialize` overloads. -/
inductive Ty
  | prim (p : Prim)
  | string
  | wstring
  | array (t : Ty) (n : Nat)
  | vector (t : Ty)
  | map (k : KeyTy) (t : Ty)
  | optional (t : Ty)
  | struct (e : Extensibility) (ms : Members)

inductive Members
  | nil
  | cons (m : MemberInfo) (t : Ty) (ms : Members)

end

mutual

@[reducible] def Ty.denote : Ty → Type
  | .prim p => p.denote
  | .string => List UInt8
  | .wstring => List (BitVec 32)
  | .array t n => List.Vector t.denote n
  | .vector t => List t.denote
  | .map k t => OrderedMap k.rank t.denote
  | .optional t => Option t.denote
  | .struct _ ms => ms.denote

@[reducible] def Members.denote : Members → Type
  | .nil => Unit
  | .cons _ t ms => t.denote × ms.denote

end

mutual

def Ty.init : (t : Ty) → t.denote
  | .prim p => p.init
  | .string => ([] : List UInt8)
  | .wstring => ([] : List (BitVec 32))
  | .array t n => List.Vector.replicate n t.init
  | .vector t => ([] : List t.denote)
  | .map k t => (OrderedMap.empty : OrderedMap k.rank t.denote)
  | .optional t => (none : Option t.denote)
  | .struct _ ms => ms.init

def Members.init : (ms : Members) → ms.denote
  | .nil => ()
  | .cons _ t ms => (t.init, ms.init)

end

def Ty.isArithmetic : Ty → Bool
  | .prim _ => true
  | _ => false

def Ty.isMultiArrayPrimitive : Ty → Bool
  | .prim _ => true
  | .array t _ => t.isMultiArrayPrimitive
  | _ => false

def Members.ids : Members → List Nat
  | .nil => []
  | .cons m _ ms => m.memberId.id :: ms.ids

def Members.length : Members → Nat
  | .nil => 0
  | .cons _ _ ms => ms.length + 1

end EasyDds.Cdr
