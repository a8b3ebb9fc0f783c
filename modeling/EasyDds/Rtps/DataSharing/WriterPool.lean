import EasyDds.Lib.Ring
import EasyDds.Rtps.Common

/-!
`WriterPool`: the payload nodes of a data-sharing writer, those that are free, and the history that
is shared with the readers. An index to the history has the slot in its lower half and a loop
counter in its upper half.
-/

namespace EasyDds.Rtps.DataSharing

def slot (index : Nat) : Nat := index % 2 ^ 32

def advance (historySize index : Nat) : Nat :=
  let index := if wrap32 (slot index + 1) ≤ historySize then (index + 1) % 2 ^ 64 else index
  if slot index % historySize = 0 then (((index >>> 32) + 1) <<< 32) % 2 ^ 64 else index

def indexOf (historySize i : Nat) : Nat := i / historySize % 2 ^ 32 * 2 ^ 32 + i % historySize

section Index

variable {n i j : Nat}

lemma slot_indexOf (hn : 0 < n) (hmax : n < 2 ^ 32) (i : Nat) : slot (indexOf n i) = i % n := by
  have := Nat.mod_lt i hn
  rw [slot, indexOf]
  omega

lemma advance_indexOf (hn : 0 < n) (hmax : n < 2 ^ 32) (i : Nat) :
    advance n (indexOf n i) = indexOf n (i + 1) := by
  have hlt := Nat.mod_lt i hn
  have hwrap : wrap32 (slot (indexOf n i) + 1) ≤ n := by
    rw [slot_indexOf hn hmax, wrap32, Nat.mod_eq_of_lt (by omega)]
    omega
  have hnext : (indexOf n i + 1) % 2 ^ 64 = i / n % 2 ^ 32 * 2 ^ 32 + (i % n + 1) := by
    rw [indexOf, Nat.mod_eq_of_lt (by omega), Nat.add_assoc]
  have hslot : slot (i / n % 2 ^ 32 * 2 ^ 32 + (i % n + 1)) % n = (i + 1) % n := by
    rw [slot, show (i / n % 2 ^ 32 * 2 ^ 32 + (i % n + 1)) % 2 ^ 32 = i % n + 1 by omega,
      Nat.mod_add_mod]
  simp only [advance, if_pos hwrap, hnext, hslot]
  rw [indexOf, Ring.succ_div]
  split
  case isTrue hzero =>
    omega
  case isFalse hne =>
    have hmod : (i + 1) % n = i % n + 1 := by
      have h1 := Nat.mod_add_mod i n 1
      rcases Nat.lt_or_ge (i % n + 1) n with h | h
      · rw [← h1, Nat.mod_eq_of_lt h]
      · rw [show i % n + 1 = n by omega, Nat.mod_self] at h1
        omega
    rw [hmod]

/-- Indices are ordered as their places, up to the wrap of the loop counter. -/
theorem indexOf_lt_iff (hn : 0 < n) (hmax : n < 2 ^ 32) :
    indexOf n i < indexOf n j ↔ i % (n * 2 ^ 32) < j % (n * 2 ^ 32) := by
  have hi := Nat.mod_lt i hn
  have hj := Nat.mod_lt j hn
  rw [Nat.mod_mul, Nat.mod_mul, indexOf, indexOf]
  generalize i / n % 2 ^ 32 = a
  generalize j / n % 2 ^ 32 = c
  rcases Nat.lt_trichotomy a c with hac | rfl | hac
  · have hle : n * (a + 1) ≤ n * c := Nat.mul_le_mul_left n hac
    rw [Nat.mul_succ] at hle
    constructor <;> intro <;> omega
  · omega
  · have hle : n * (c + 1) ≤ n * a := Nat.mul_le_mul_left n hac
    rw [Nat.mul_succ] at hle
    constructor <;> intro <;> omega

lemma indexOf_eq_iff (hn : 0 < n) (hmax : n < 2 ^ 32) :
    indexOf n i = indexOf n j ↔ i % (n * 2 ^ 32) = j % (n * 2 ^ 32) := by
  have hij := @indexOf_lt_iff n i j hn hmax
  have hji := @indexOf_lt_iff n j i hn hmax
  omega

/-- Places in one round have different indices. -/
theorem indexOf_inj (hn : 0 < n) (hmax : n < 2 ^ 32) (hle : i ≤ j) (hnear : j < i + n) :
    indexOf n i = indexOf n j ↔ i = j := by
  refine ⟨fun h => ?_, fun h => h ▸ rfl⟩
  by_contra hne
  exact Ring.mod_ne_of_near (by omega) (by omega) ((indexOf_eq_iff hn hmax).1 h)

end Index

/-- What a pool uses of `PayloadNode`; `none` is `c_SequenceNumber_Unknown`. -/
structure PayloadNode where
  sequenceNumber : Option Nat
  hasBeenRemoved : Bool
deriving DecidableEq, Repr

structure WriterPool where
  poolSize : Nat
  nodes : Nat → PayloadNode
  freePayloads : List Nat
  history : Nat → Nat
  notifiedBegin : Nat
  notifiedEnd : Nat
  freeHistorySize : Nat

namespace WriterPool

def init (poolSize : Nat) : WriterPool :=
  ⟨poolSize, fun _ => ⟨none, false⟩, List.range poolSize, fun _ => 0, 0, 0, poolSize⟩

def historySize (p : WriterPool) : Nat := p.poolSize + 1

/-- `free_payloads_.push_back`: nothing happens if the queue is full. -/
def pushBack (p : WriterPool) (node : Nat) : WriterPool :=
  if p.freePayloads.length < p.poolSize then
    { p with freePayloads := p.freePayloads ++ [node] }
  else p

def setNode (p : WriterPool) (node : Nat) (v : PayloadNode) : WriterPool :=
  { p with nodes := Function.update p.nodes node v }

def getPayload (p : WriterPool) : Option (Nat × WriterPool) :=
  match p.freePayloads with
  | [] => none
  | node :: rest => some (node, { p with freePayloads := rest }.setNode node ⟨none, false⟩)

def addToSharedHistory (p : WriterPool) (node sequenceNumber : Nat) : WriterPool :=
  { p.setNode node { p.nodes node with sequenceNumber := some sequenceNumber } with
    history := Function.update p.history (slot p.notifiedEnd) node
    notifiedEnd := advance p.historySize p.notifiedEnd
    freeHistorySize := sub32 p.freeHistorySize 1 }

def removeFromSharedHistory (p : WriterPool) (node : Nat) : WriterPool :=
  p.setNode node { p.nodes node with hasBeenRemoved := true }

/-- The loop of `advance_till_first_non_removed`, of which there are no more rounds than slots. -/
def advanceLoop : Nat → WriterPool → WriterPool
  | 0, p => p
  | fuel + 1, p =>
    if p.notifiedBegin = p.notifiedEnd then p
    else
      let node := p.history (slot p.notifiedBegin)
      if (p.nodes node).hasBeenRemoved then
        let p := (p.setNode node { p.nodes node with hasBeenRemoved := false }).pushBack node
        advanceLoop fuel { p with
          notifiedBegin := advance p.historySize p.notifiedBegin
          freeHistorySize := wrap32 (p.freeHistorySize + 1) }
      else p

def advanceTillFirstNonRemoved (p : WriterPool) : WriterPool := advanceLoop p.historySize p

def releasePayload (p : WriterPool) (node : Nat) : WriterPool :=
  if (p.nodes node).hasBeenRemoved then p.advanceTillFirstNonRemoved else p.pushBack node

def entries (p : WriterPool) : Nat → Nat → List Nat
  | 0, _ => []
  | fuel + 1, index =>
    if index = p.notifiedEnd then []
    else p.history (slot index) :: p.entries fuel (advance p.historySize index)

def sharedHistory (p : WriterPool) : List Nat := p.entries p.historySize p.notifiedBegin

end WriterPool

end EasyDds.Rtps.DataSharing
