import EasyDds.Lib.Unordered
import EasyDds.Rtps.Common

/-!
`DataReaderInstance`: the state of one instance of a topic in a reader, and how the events of its
writers change it. The counters of the history are left out with the assertions about them, as
nothing here reads them; the vectors are taken to have room for all matched writers.
-/

namespace EasyDds.Dds

open Rtps (Guid ChangeKind)

inductive ViewState
  | new
  | notNew
deriving DecidableEq, Repr

inductive InstanceState
  | alive
  | notAliveDisposed
  | notAliveNoWriters
deriving DecidableEq, Repr

abbrev WriterOwnership := Guid × Nat

/-- The strength of all writers under shared ownership, and of the owner that nobody has been
yet. -/
def maxStrength : Nat := 2 ^ 32 - 1

/-- The test of `update_owner`: a greater strength, or the same and a lower GUID. -/
def outranks (a b : WriterOwnership) : Bool :=
  decide (b.2 < a.2) || (decide (a.2 = b.2) && a.1.lt b.1)

/-- `DataReaderInstance`, over the entries of `cache_changes`. -/
structure DataReaderInstance (C : Type) where
  cacheChanges : List C
  aliveWriters : List WriterOwnership
  currentOwner : WriterOwnership
  viewState : ViewState
  instanceState : InstanceState
  disposedGenerationCount : Int
  noWritersGenerationCount : Int
  hasBeenAccounted : Bool
deriving DecidableEq

namespace DataReaderInstance

variable {C : Type}

variable (i : DataReaderInstance C) (writerGuid : Guid) (strength : Nat)

def new : DataReaderInstance C where
  cacheChanges := []
  aliveWriters := []
  currentOwner := (Guid.unknown, maxStrength)
  viewState := .new
  instanceState := .alive
  disposedGenerationCount := 0
  noWritersGenerationCount := 0
  hasBeenAccounted := false

def setStrength (writerGuid : Guid) (strength : Nat) : List WriterOwnership → List WriterOwnership
  | [] => []
  | w :: rest =>
    if w.1 = writerGuid then (w.1, strength) :: rest else w :: setStrength writerGuid strength rest

def writerSet : DataReaderInstance C :=
  { i with
    aliveWriters :=
      if i.aliveWriters.any fun w => decide (w.1 = writerGuid) then
        setStrength writerGuid strength i.aliveWriters
      else i.aliveWriters ++ [(writerGuid, strength)] }

def updateOwner : DataReaderInstance C :=
  { i with currentOwner := elect outranks i.currentOwner i.aliveWriters }

/-- `writer_update_its_ownership_strength`. Writers other than the owner are not looked at. -/
def writerUpdateItsOwnershipStrength : DataReaderInstance C :=
  if writerGuid = i.currentOwner.1 then
    { i with
      aliveWriters := setStrength writerGuid strength i.aliveWriters
      currentOwner := (i.currentOwner.1, strength) }.updateOwner
  else i

def ownerAfterAlive (owner : WriterOwnership) (writerGuid : Guid) (strength : Nat) :
    Option WriterOwnership :=
  if writerGuid = owner.1 then some (owner.1, strength)
  else if owner.2 < strength then some (writerGuid, strength)
  else if strength = owner.2 ∧ writerGuid.lt owner.1 then some (writerGuid, owner.2)
  else if strength = maxStrength then some owner
  else if owner.1 = Guid.unknown then some (writerGuid, strength)
  else none

def revive : DataReaderInstance C :=
  match i.instanceState with
  | .notAliveDisposed =>
    { i with
      disposedGenerationCount := i.disposedGenerationCount + 1
      aliveWriters := []
      viewState := .new
      instanceState := .alive }
  | .notAliveNoWriters =>
    { i with
      noWritersGenerationCount := i.noWritersGenerationCount + 1
      viewState := .new
      instanceState := .alive }
  | .alive => i

/-- The assertions of `writer_alive`: the strength of shared ownership meets no owner, and an
accepted sample no writers where there should be none. -/
def WriterAliveAsserts : Prop :=
  (writerGuid ≠ i.currentOwner.1 → strength ≤ i.currentOwner.2 →
    ¬(strength = i.currentOwner.2 ∧ writerGuid.lt i.currentOwner.1) → strength = maxStrength →
      i.currentOwner = (Guid.unknown, maxStrength)) ∧
  (i.instanceState = .notAliveNoWriters →
    (ownerAfterAlive i.currentOwner writerGuid strength).isSome → i.aliveWriters = [])

instance : Decidable (i.WriterAliveAsserts writerGuid strength) :=
  inferInstanceAs (Decidable (_ ∧ _))

def writerAlive : Bool × DataReaderInstance C :=
  match ownerAfterAlive i.currentOwner writerGuid strength with
  | some owner => (true, { i with currentOwner := owner }.revive.writerSet writerGuid strength)
  | none => (false, i.writerSet writerGuid strength)

/-- `writer_dispose`. The first comparison already lets equal strengths through. -/
def writerDispose : Bool × DataReaderInstance C :=
  if i.currentOwner.2 ≤ strength ∨ (strength = i.currentOwner.2 ∧ writerGuid.lt i.currentOwner.1)
  then
    let owned :=
      if strength ≠ maxStrength then { i with currentOwner := (writerGuid, strength) } else i
    if i.instanceState = .alive then
      (true, { owned with instanceState := .notAliveDisposed }.writerSet writerGuid strength)
    else (false, owned.writerSet writerGuid strength)
  else (false, i.writerSet writerGuid strength)

def writerUnregister : Bool × DataReaderInstance C :=
  match swapRemove (fun w => decide (w.1 = writerGuid)) i.aliveWriters with
  | none => (false, i)
  | some rest =>
    let left := { i with aliveWriters := rest }
    let disowned :=
      if writerGuid = i.currentOwner.1 then
        let unowned := { left with currentOwner := (Guid.unknown, 0) }
        if i.instanceState = .alive then unowned.updateOwner else unowned
      else left
    (true,
      if rest.isEmpty ∧ i.instanceState = .alive then
        { disowned with instanceState := .notAliveNoWriters }
      else disowned)

def updateState (kind : ChangeKind) (writerGuid : Guid)
    (strength : Nat) : Bool × DataReaderInstance C :=
  let accounted := { i with hasBeenAccounted := true }
  match kind with
  | .alive => accounted.writerAlive writerGuid strength
  | .notAliveDisposed => accounted.writerDispose writerGuid strength
  | .notAliveDisposedUnregistered =>
    let disposed := accounted.writerDispose writerGuid strength
    let unregistered := disposed.2.writerUnregister writerGuid
    (disposed.1 || unregistered.1, unregistered.2)
  | .notAliveUnregistered => accounted.writerUnregister writerGuid

def writerRemoved : Bool × DataReaderInstance C :=
  if i.hasBeenAccounted then i.writerUnregister writerGuid else (false, i)

def deadlineMissed : DataReaderInstance C :=
  if i.currentOwner.1 ≠ Guid.unknown then
    match swapRemove (fun w => decide (w.1 = i.currentOwner.1)) i.aliveWriters with
    | none => i
    | some rest =>
      let unowned :=
        { i with
          aliveWriters := rest
          currentOwner := (Guid.unknown, 0)
          instanceState :=
            if rest.isEmpty ∧ i.instanceState = .alive then .notAliveNoWriters
            else i.instanceState }
      if unowned.instanceState = .alive then unowned.updateOwner else unowned
  else i

inductive Event
  | change (kind : ChangeKind) (writerGuid : Guid) (strength : Nat)
  | writerRemoved (writerGuid : Guid)
  | deadlineMissed
  | strengthUpdated (writerGuid : Guid) (strength : Nat)
deriving DecidableEq

def step : Event → Bool × DataReaderInstance C
  | .change kind writerGuid strength => i.updateState kind writerGuid strength
  | .writerRemoved writerGuid => i.writerRemoved writerGuid
  | .deadlineMissed => (false, i.deadlineMissed)
  | .strengthUpdated writerGuid strength =>
    (false, i.writerUpdateItsOwnershipStrength writerGuid strength)

def Asserts : Event → Prop
  | .change .alive writerGuid strength => i.WriterAliveAsserts writerGuid strength
  | .strengthUpdated writerGuid _ =>
    writerGuid = i.currentOwner.1 → writerGuid ∈ i.aliveWriters.map Prod.fst
  | _ => True

def run (events : List Event) : DataReaderInstance C := events.foldl (fun i e => (i.step e).2) i

end DataReaderInstance

end EasyDds.Dds
