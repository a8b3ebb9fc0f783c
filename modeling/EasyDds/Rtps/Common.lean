import Mathlib.Data.Prod.Lex
import Mathlib.Data.Vector.Basic
import EasyDds.Lib.Memory

/-!
Identifiers, times and changes shared by writers and readers.
-/

namespace EasyDds.Rtps

def wrap32 (n : Nat) : Nat := n % 2 ^ 32

def sub32 (a b : Nat) : Nat := if b ≤ a then a - b else 2 ^ 32 - (b - a)

lemma sub32_of_le {a b : Nat} (hle : b ≤ a) : sub32 a b = a - b := if_pos hle

def ofBytes (n : Nat) (bytes : List UInt8) : Vector UInt8 n :=
  Vector.ofFn fun i => bytes.getD i 0

@[simp] lemma ofBytes_toList {n : Nat} (v : Vector UInt8 n) : ofBytes n v.toList = v := by
  apply Vector.ext
  intro i hi
  simp [ofBytes]

abbrev GuidPrefix := Vector UInt8 12

abbrev EntityId := Vector UInt8 4

def EntityId.sample (kind : UInt8) : EntityId := #v[0, 0, 1, kind]

structure Guid where
  guidPrefix : GuidPrefix
  entityId : EntityId
deriving DecidableEq

def Guid.unknown : Guid := ⟨Vector.replicate 12 0, Vector.replicate 4 0⟩

def Guid.bytes (g : Guid) : List Nat :=
  (g.guidPrefix.toList ++ g.entityId.toList).map UInt8.toNat

def Guid.lt (a b : Guid) : Bool := decide (a.bytes < b.bytes)

lemma Guid.bytes_injective : Function.Injective Guid.bytes := by
  intro a b hbytes
  have hall := List.map_injective_iff.mpr (fun _ _ h => UInt8.toNat_inj.mp h) hbytes
  obtain ⟨hlead, hentity⟩ := List.append_inj hall (by simp)
  cases a
  cases b
  simp_all [Vector.toList_inj]

/-- `Time_t`; the order of the source ignores the nanoseconds. -/
structure Time where
  seconds : Int
  fraction : Nat
deriving DecidableEq

namespace Time

def lt (a b : Time) : Bool :=
  if a.seconds < b.seconds then true
  else if b.seconds < a.seconds then false
  else decide (a.fraction < b.fraction)

def rank (t : Time) : Int ×ₗ Nat := toLex (t.seconds, t.fraction)

lemma lt_iff {a b : Time} : a.lt b = true ↔ a.rank < b.rank := by
  simp only [lt, rank, Prod.Lex.toLex_lt_toLex]
  split
  · simp [*]
  · split
    · simp
      omega
    · have hsame : a.seconds = b.seconds := by omega
      simp [hsame]

end Time

inductive TopicKind
  | noKey
  | withKey
deriving DecidableEq, Repr

inductive ChangeKind
  | alive
  | notAliveDisposed
  | notAliveUnregistered
  | notAliveDisposedUnregistered
deriving DecidableEq, Repr

/-- `SerializedPayload_t`: `length` bytes of `data` are in use and `maxSize` are reserved. -/
structure SerializedPayload where
  length : Nat
  data : Mem
  maxSize : Nat

def SerializedPayload.bytes (p : SerializedPayload) : List UInt8 := p.data.slice 0 p.length

@[simp] lemma SerializedPayload.length_bytes (p : SerializedPayload) : p.bytes.length = p.length :=
  Mem.length_slice ..

/-- The fields of `CacheChange_t` that histories, writers and readers look at. A `SequenceNumber_t`
stands for its value `high * 2^32 + low`: the source compares `high` first and `low` next, which
is the order of the values. -/
structure CacheChange where
  kind : ChangeKind
  writerGUID : Guid
  sequenceNumber : Int
  serializedPayload : SerializedPayload
  sourceTimestamp : Time
  fragmentSize : Nat
  fragmentCount : Nat
  firstMissingFragment : Nat

def CacheChange.isFullyAssembled (c : CacheChange) : Bool :=
  decide (c.fragmentCount ≤ c.firstMissingFragment)

end EasyDds.Rtps
