import EasyDds.Lib.Loop
import Mathlib.Data.List.FinRange
import Mathlib.Algebra.Group.Nat.Defs

/-!
Recovery of the buffers that the listeners of a zombie port were processing.
-/

namespace EasyDds.Rtps.SharedMem

open List

structure BufferDescriptor where
  sourceSegmentId : Nat
  bufferNodeOffset : Nat
  validityId : Nat
deriving DecidableEq

structure ListenerStatus where
  isInUse : Bool
  isProcessing : Bool
  descriptor : BufferDescriptor

structure BufferStatus where
  validityId : BitVec 24
  enqueuedCount : BitVec 20
  processingCount : BitVec 20

def BufferStatus.decProcessingCount (status : BufferStatus) (listenerValidityId : Nat) :
    BufferStatus :=
  if listenerValidityId = status.validityId.toNat then
    { status with processingCount := status.processingCount - 1 }
  else status

/-- What `find_segment` gives, and the buffer nodes of each segment by their offset. -/
abbrev Segments := Nat → Option (Nat → BufferStatus)

/-- The count of the named buffer is decremented unless its segment is gone. -/
def Segments.decProcessingCount (segments : Segments) (d : BufferDescriptor) : Segments := fun id =>
  (segments id).map fun nodes offset =>
    if id = d.sourceSegmentId ∧ offset = d.bufferNodeOffset then
      (nodes offset).decProcessingCount d.validityId
    else nodes offset

def Segments.StillValid (segments : Segments) (d : BufferDescriptor) : Prop :=
  ∃ nodes, segments d.sourceSegmentId = some nodes ∧
    (nodes d.bufferNodeOffset).validityId.toNat = d.validityId

def listenersStatusSize : Nat := 1024

structure PortNode where
  /-- `empty_cv_mutex` is locked. -/
  locked : Bool
  listenersStatus : Fin listenersStatusSize → ListenerStatus

namespace PortNode

def blocked (node : PortNode) (i : Fin listenersStatusSize) : Bool :=
  (node.listenersStatus i).isInUse && (node.listenersStatus i).isProcessing

@[simp] lemma blocked_locked (node : PortNode) (locked : Bool) :
    { node with locked }.blocked = node.blocked := rfl

/-- A `try` block under a `lock_guard`. The mutex is not recursive: while it is locked, locking
throws in every thread, also in the one that holds it, and the exception is swallowed. -/
def lockGuard {α : Type} (node : PortNode) (body : PortNode → α × PortNode) (timeout : α) :
    α × PortNode :=
  if node.locked then (timeout, node)
  else
    let result := body { node with locked := true }
    (result.1, { result.2 with locked := false })

def listenerProcessingStop (node : PortNode) (i : Fin listenersStatusSize) : PortNode :=
  (node.lockGuard (fun node => ((), { node with
    listenersStatus := Function.update node.listenersStatus i
      { node.listenersStatus i with isProcessing := false } })) ()).2

def getAndRemoveBlockedProcessing (node : PortNode) : Option BufferDescriptor × PortNode :=
  node.lockGuard (fun node =>
    match (List.finRange listenersStatusSize).find? node.blocked with
    | some i => (some (node.listenersStatus i).descriptor, node.listenerProcessingStop i)
    | none => (none, node)) none

/-- One round of the loop of `recover_blocked_processing`. -/
def recoverStep (state : PortNode × Segments) : PortNode × Segments ⊕ PortNode × Segments :=
  let found := state.1.getAndRemoveBlockedProcessing
  match found.1 with
  | some d => .inl (found.2, state.2.decProcessingCount d)
  | none => .inr (found.2, state.2)

def recoverBlockedProcessing (isZombie : Bool) (node : PortNode) (segments : Segments)
    (fuel : Nat) : Option (PortNode × Segments) :=
  if isZombie then runLoop recoverStep fuel (node, segments) else some (node, segments)

def blockedOn (node : PortNode) (d : BufferDescriptor) : List (Fin listenersStatusSize) :=
  (List.finRange listenersStatusSize).filter fun i =>
    node.blocked i && (node.listenersStatus i).descriptor = d

/-- The recovery of a zombie port ends, and it has taken one off the processing count of every
buffer for each listener that died while it processed it. -/
def Recovers (node : PortNode) (segments : Segments) : Prop :=
  ∃ node' segments', Returns (recoverBlockedProcessing true node segments) (node', segments') ∧
    ∀ id, segments' id = (segments id).map fun nodes offset => { nodes offset with
      processingCount := (nodes offset).processingCount -
        BitVec.ofNat 20 (node.blockedOn ⟨id, offset, (nodes offset).validityId.toNat⟩).length }

variable {node : PortNode} {i : Fin listenersStatusSize}

/-- The helper cannot lock the mutex that its caller holds, so the listener stays marked. -/
theorem listenerProcessingStop_locked (h : node.locked = true) (i : Fin listenersStatusSize) :
    node.listenerProcessingStop i = node := by
  rw [listenerProcessingStop, lockGuard, if_pos h]

lemma getAndRemoveBlockedProcessing_blocked (hfree : node.locked = false)
    (hi : node.blocked i = true) : ∃ d, node.getAndRemoveBlockedProcessing = (some d, node) := by
  rw [getAndRemoveBlockedProcessing, lockGuard, hfree]
  cases hfind : (List.finRange listenersStatusSize).find? node.blocked with
  | none => exact absurd hi (find?_eq_none.mp hfind i (mem_finRange i))
  | some j =>
    refine ⟨(node.listenersStatus j).descriptor, ?_⟩
    simp only [blocked_locked, hfind, listenerProcessingStop_locked]
    obtain ⟨locked, listenersStatus⟩ := node
    obtain rfl : locked = false := hfree
    rfl

/-- The first listener found is found again in every round, since nothing in a round takes its mark
away. -/
theorem recover_diverges (segments : Segments) (hfree : node.locked = false)
    (hi : node.blocked i = true) : Diverges (recoverBlockedProcessing true node segments) := by
  refine runLoop_diverges (fun state => state.1 = node) ?_ (s := (node, segments)) rfl
  rintro ⟨_, segments⟩ rfl
  obtain ⟨d, hd⟩ := getAndRemoveBlockedProcessing_blocked hfree hi
  exact ⟨(_, segments.decProcessingCount d), by rw [recoverStep, hd], rfl⟩

/-- If the mutex cannot be locked or no listener is found, the loop ends at once. -/
theorem recover_returns (segments : Segments)
    (h : ∀ i, node.blocked i = true → node.locked = true) :
    Returns (recoverBlockedProcessing true node segments) (node, segments) := by
  have hnone : node.getAndRemoveBlockedProcessing = (none, node) := by
    rw [getAndRemoveBlockedProcessing, lockGuard]
    split
    · rfl
    · next hfree =>
      have hfind : (List.finRange listenersStatusSize).find? node.blocked = none :=
        find?_eq_none.mpr fun i _ hi => hfree (h i hi)
      simp only [blocked_locked, hfind]
      obtain ⟨locked, listenersStatus⟩ := node
      obtain rfl : locked = false := Bool.eq_false_of_not_eq_true hfree
      rfl
  have hstep : recoverStep (node, segments) = .inr (node, segments) := by rw [recoverStep, hnone]
  obtain ⟨_, rfl, hreturns⟩ := runLoop_returns (· = (node, segments)) (· = (node, segments))
    (fun _ => 0) (by rintro _ rfl; exact .inr ⟨_, hstep, rfl⟩) rfl
  exact hreturns

lemma blockedOn_eq_nil_iff {d : BufferDescriptor} : node.blockedOn d = [] ↔
    ∀ i, node.blocked i = true → (node.listenersStatus i).descriptor ≠ d := by
  simp [blockedOn]

lemma length_blockedOn_lt (node : PortNode) (d : BufferDescriptor) :
    (node.blockedOn d).length < 2 ^ 20 := by
  apply Nat.lt_of_le_of_lt (length_filter_le ..)
  rw [length_finRange]
  decide

lemma eq_zero_of_sub_eq {count : BitVec 20} {n : Nat} (h : count = count - BitVec.ofNat 20 n)
    (hn : n < 2 ^ 20) : n = 0 := by
  have hsum := congrArg BitVec.toNat h
  rw [BitVec.toNat_sub, BitVec.toNat_ofNat, Nat.mod_eq_of_lt hn] at hsum
  omega

/-- The recovery does what it is for only if there is nothing to recover: no listener is marked, or
the mutex was left locked and no buffer that a marked listener names is valid any more. -/
theorem recovers_iff (node : PortNode) (segments : Segments) :
    node.Recovers segments ↔ ∀ i, node.blocked i = true →
      node.locked = true ∧ ¬ segments.StillValid (node.listenersStatus i).descriptor := by
  constructor
  · rintro ⟨node', segments', hreturns, hcounts⟩
    have hlocked : ∀ i, node.blocked i = true → node.locked = true := by
      intro i hi
      by_contra hfree
      exact hreturns.not_diverges
        (recover_diverges segments (Bool.eq_false_of_not_eq_true hfree) hi)
    obtain ⟨rfl, rfl⟩ := Prod.mk.inj ((recover_returns segments hlocked).eq hreturns)
    refine fun i hi => ⟨hlocked i hi, ?_⟩
    rintro ⟨nodes, hnodes, hvalid⟩
    -- The counts did not change, so no listener can have been counted for the buffer.
    have hnode := hcounts (node.listenersStatus i).descriptor.sourceSegmentId
    rw [hnodes, Option.map_some, Option.some.injEq] at hnode
    have hsame := congrArg BufferStatus.processingCount
      (congrFun hnode (node.listenersStatus i).descriptor.bufferNodeOffset)
    have hzero := eq_zero_of_sub_eq hsame (length_blockedOn_lt ..)
    exact blockedOn_eq_nil_iff.mp (eq_nil_of_length_eq_zero hzero) i hi (by rw [hvalid])
  · intro h
    refine ⟨node, segments, recover_returns segments fun i hi => (h i hi).1, fun id => ?_⟩
    cases hnodes : segments id with
    | none => rfl
    | some nodes =>
      have hnil : ∀ offset, node.blockedOn ⟨id, offset, (nodes offset).validityId.toNat⟩ = [] := by
        intro offset
        refine blockedOn_eq_nil_iff.mpr fun i hi heq => (h i hi).2 ⟨nodes, ?_, ?_⟩
        · rw [heq, hnodes]
        · rw [heq]
      simp [hnil]

/-- A port whose only listener died while it processed the buffer at offset 0 of segment 1. -/
def deadListener : PortNode where
  locked := false
  listenersStatus i := ⟨decide (i.val = 0), decide (i.val = 0), ⟨1, 0, 5⟩⟩

theorem deadListener_not_recovered : ¬ deadListener.Recovers fun _ => some fun _ => ⟨5, 0, 1⟩ := by
  rintro ⟨node', segments', hreturns, -⟩
  exact hreturns.not_diverges (recover_diverges _ rfl (i := ⟨0, by decide⟩) rfl)

end PortNode

end EasyDds.Rtps.SharedMem
