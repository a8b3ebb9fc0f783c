import EasyDds.Lib.Ring
import EasyDds.Rtps.Common

/-!
`MultiProducerConsumerRingBuffer`. A pointer has its index in bits 0 to 30 and a flag in bit 31 that
tells one loop over the cells from the next.
-/

namespace EasyDds.Rtps.SharedMem

def getPointerValue (pointer : Nat) : Nat := pointer &&& 0x7FFFFFFF

def incPointer (totalCells pointer : Nat) : Nat :=
  let value := wrap32 ((pointer &&& 0x7FFFFFFF) + 1) % totalCells
  let loopFlag := pointer >>> 31
  let loopFlag := if value = 0 then loopFlag ^^^ 1 else loopFlag
  wrap32 (loopFlag <<< 31) ||| value

def pointerToHead (totalCells writeP freeCells : Nat) : Nat :=
  let head := writeP ^^^ 0x80000000
  let value := head &&& 0x7FFFFFFF
  let loopFlag := head >>> 31
  let loopFlag := if totalCells ≤ wrap32 (value + freeCells) then loopFlag ^^^ 1 else loopFlag
  wrap32 (loopFlag <<< 31) ||| wrap32 (value + freeCells) % totalCells

def pointerOf (totalCells i : Nat) : Nat := i / totalCells % 2 * 2 ^ 31 + i % totalCells

section Pointers

variable {n i j : Nat}

lemma and_mask (x : Nat) : x &&& 0x7FFFFFFF = x % 2 ^ 31 := Nat.and_two_pow_sub_one_eq_mod x 31

variable {flag value : Nat}

lemma flag_or_value (hflag : flag < 2) (hvalue : value < 2 ^ 31) :
    wrap32 (flag <<< 31) ||| value = flag * 2 ^ 31 + value := by
  have hwrap : wrap32 (flag <<< 31) = flag <<< 31 := by
    rw [wrap32, Nat.shiftLeft_eq, Nat.mod_eq_of_lt]
    omega
  rw [hwrap, ← Nat.shiftLeft_add_eq_or_of_lt hvalue, Nat.shiftLeft_eq]

lemma flag_value_div (hvalue : value < 2 ^ 31) : (flag * 2 ^ 31 + value) >>> 31 = flag := by
  omega

lemma flag_value_mod (hvalue : value < 2 ^ 31) :
    (flag * 2 ^ 31 + value) &&& 0x7FFFFFFF = value := by
  rw [and_mask]
  omega

lemma flip_flag (hflag : flag < 2) : flag ^^^ 1 = 1 - flag := by
  rcases (by omega : flag = 0 ∨ flag = 1) with rfl | rfl <;> rfl

lemma flip_pointer (hflag : flag < 2) (hvalue : value < 2 ^ 31) :
    (flag * 2 ^ 31 + value) ^^^ 0x80000000 = (1 - flag) * 2 ^ 31 + value := by
  have hor (f : Nat) : f * 2 ^ 31 + value = f <<< 31 ||| value := by
    rw [← Nat.shiftLeft_add_eq_or_of_lt hvalue, Nat.shiftLeft_eq]
  rw [hor, hor, ← flip_flag hflag, show 0x80000000 = 1 <<< 31 from rfl]
  refine Nat.eq_of_testBit_eq fun k => ?_
  simp only [Nat.testBit_xor, Nat.testBit_or, Nat.testBit_shiftLeft]
  by_cases hk : 31 ≤ k
  · have hzero : value.testBit k = false :=
      Nat.testBit_lt_two_pow (Nat.lt_of_lt_of_le hvalue (Nat.pow_le_pow_right (by decide) hk))
    simp [hk, hzero]
  · simp [hk]

lemma value_lt (hn : 0 < n) (hmax : n ≤ 2 ^ 31) (i : Nat) : i % n < 2 ^ 31 :=
  Nat.lt_of_lt_of_le (Nat.mod_lt i hn) hmax

lemma getPointerValue_pointerOf (hn : 0 < n) (hmax : n ≤ 2 ^ 31) (i : Nat) :
    getPointerValue (pointerOf n i) = i % n := by
  rw [getPointerValue, pointerOf, flag_value_mod (value_lt hn hmax i)]

lemma incPointer_pointerOf (hn : 0 < n) (hmax : n ≤ 2 ^ 31) (i : Nat) :
    incPointer n (pointerOf n i) = pointerOf n (i + 1) := by
  have hvalue := value_lt hn hmax i
  have hmod : (i % n + 1) % n = (i + 1) % n := Nat.mod_add_mod i n 1
  have hdiv : (i + 1) / n % 2 = if (i + 1) % n = 0 then 1 - i / n % 2 else i / n % 2 := by
    rw [Ring.succ_div]
    split <;> omega
  have hwrap : wrap32 (i % n + 1) = i % n + 1 := Nat.mod_eq_of_lt (by omega)
  have hflag : i / n % 2 < 2 := Nat.mod_lt _ (by decide)
  simp only [incPointer, pointerOf, flag_value_mod hvalue, flag_value_div hvalue, hwrap, hmod,
    flip_flag hflag, ← hdiv]
  exact flag_or_value (Nat.mod_lt _ (by decide)) (value_lt hn hmax _)

/-- Positions at most one loop apart have different pointers: either their cells differ or their
flags do. -/
theorem pointerOf_inj (hn : 0 < n) (hmax : n ≤ 2 ^ 31) (hle : i ≤ j) (hnear : j ≤ i + n) :
    pointerOf n i = pointerOf n j ↔ i = j := by
  refine ⟨fun h => ?_, fun h => h ▸ rfl⟩
  have hvi := value_lt hn hmax i
  have hvj := value_lt hn hmax j
  have hvalue : i % n = j % n := by simp only [pointerOf] at h; omega
  have hflag : i / n % 2 = j / n % 2 := by simp only [pointerOf] at h; omega
  have hi := Nat.div_add_mod i n
  have hj := Nat.div_add_mod j n
  have hloops : j / n = i / n := by
    have hle' := Nat.div_le_div_right (c := n) hle
    have hnear' := Nat.div_le_div_right (c := n) hnear
    rw [Nat.add_div_right i hn] at hnear'
    omega
  rw [hloops, ← hvalue] at hj
  omega

lemma pointerToHead_pointerOf (hn : 0 < n) (hmax : n ≤ 2 ^ 31) {free : Nat} (hfree : free ≤ n)
    (h : i + n = j + free) : pointerToHead n (pointerOf n j) free = pointerOf n i := by
  have hvalue := value_lt hn hmax j
  have hflag : j / n % 2 < 2 := Nat.mod_lt _ (by decide)
  have hflip : 1 - j / n % 2 < 2 := by omega
  have hwrap : wrap32 (j % n + free) = j % n + free := Nat.mod_eq_of_lt (by omega)
  have hmod : (j % n + free) % n = i % n := by rw [Nat.mod_add_mod, ← h, Nat.add_mod_right]
  have hdiv : (if n ≤ j % n + free then 1 - (1 - j / n % 2) else 1 - j / n % 2) = i / n % 2 := by
    have hloops : i / n + 1 = (j + free) / n := by rw [← h, Nat.add_div_right i hn]
    have hsplit : j + free = j % n + free + n * (j / n) := by have := Nat.div_add_mod j n; omega
    rw [hsplit, Nat.add_mul_div_left _ _ hn] at hloops
    have hlt := Nat.mod_lt j hn
    split
    case isTrue hge =>
      have hone : (j % n + free) / n = 1 := Nat.div_eq_of_lt_le (by omega) (by omega)
      omega
    case isFalse hlt' =>
      have hzero : (j % n + free) / n = 0 := Nat.div_eq_of_lt (by omega)
      omega
  simp only [pointerToHead, pointerOf, flip_pointer hflag hvalue, flag_value_mod hvalue,
    flag_value_div hvalue, hwrap, hmod, flip_flag hflip, hdiv]
  exact flag_or_value (Nat.mod_lt _ (by decide)) (value_lt hn hmax i)

end Pointers

/-- `Cell`. There is no data before the first element. -/
structure Cell (T : Type) where
  refCounter : Nat
  data : Option T

structure RingBuffer (T : Type) where
  totalCells : Nat
  writeP : Nat
  freeCells : Nat
  registeredListeners : Nat
  cells : Nat → Cell T

inductive PushResult (T : Type)
  | noListeners
  | full
  | pushed (b : RingBuffer T)

namespace RingBuffer

variable {T : Type}

def initNode (totalCells : Nat) : RingBuffer T := ⟨totalCells, 0, totalCells, 0, fun _ => ⟨0, none⟩⟩

/-- `push`: without listeners it returns false, with all the cells in use it throws. -/
def push (b : RingBuffer T) (data : T) : PushResult T :=
  if b.registeredListeners = 0 then .noListeners
  else if b.freeCells = 0 then .full
  else .pushed { b with
    writeP := incPointer b.totalCells b.writeP
    freeCells := b.freeCells - 1
    cells := Function.update b.cells (getPointerValue b.writeP) ⟨b.registeredListeners, some data⟩ }

def head (b : RingBuffer T) (readP : Nat) : Option Nat :=
  if readP = b.writeP then none
  else if (b.cells (getPointerValue readP)).refCounter ≠ 0 then some (getPointerValue readP)
  else none

def seen (b : RingBuffer T) (readP : Nat) : Option (Option T) :=
  (b.head readP).map fun i => (b.cells i).data

/-- `Listener::pop`, with what it returns and the new read pointer; `none` where it throws. -/
def pop (b : RingBuffer T) (readP : Nat) : Option (Bool × RingBuffer T × Nat) :=
  (b.head readP).map fun i =>
    let counter := (b.cells i).refCounter
    let cells := Function.update b.cells i { b.cells i with refCounter := sub32 counter 1 }
    let freeCells := if counter = 1 then wrap32 (b.freeCells + 1) else b.freeCells
    (counter == 1, { b with cells := cells, freeCells := freeCells }, incPointer b.totalCells readP)

def registerListener (b : RingBuffer T) : RingBuffer T × Nat :=
  ({ b with registeredListeners := wrap32 (b.registeredListeners + 1) }, b.writeP)

/-- The loop of `unregister_listener`; `none` if it has not come to its end after so many calls. -/
def drain : Nat → RingBuffer T → Nat → Option (RingBuffer T)
  | 0, _, _ => none
  | fuel + 1, b, readP =>
    match b.pop readP with
    | none => some b
    | some (_, b', readP') => drain fuel b' readP'

def unregisterListener (b : RingBuffer T) (readP : Nat) : Option (RingBuffer T) :=
  (b.drain (b.totalCells + 1) readP).map fun b' =>
    { b' with registeredListeners := sub32 b'.registeredListeners 1 }

/-- The loop of `copy`; `none` if it has not come to its end after so many cells. -/
def copyFrom (b : RingBuffer T) : Nat → Nat → Option (List (Option T))
  | 0, _ => none
  | fuel + 1, p =>
    if p = b.writeP then some []
    else
      let cell := b.cells (getPointerValue p)
      (b.copyFrom fuel (incPointer b.totalCells p)).map fun rest =>
        if 0 < cell.refCounter then cell.data :: rest else rest

def copy (b : RingBuffer T) : Option (List (Option T)) :=
  if 0 < b.registeredListeners then
    b.copyFrom (b.totalCells + 1) (pointerToHead b.totalCells b.writeP b.freeCells)
  else some []

end RingBuffer

end EasyDds.Rtps.SharedMem
