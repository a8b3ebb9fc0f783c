import EasyDds.Rtps.SharedMem.Delivery

/-!
The ring buffer in use by several threads: calls of `push`, and one loop of `head` and `pop` for
each listener, as interleavings of their atomic steps. A compare-exchange may fail without a reason.
-/

namespace EasyDds.Rtps.SharedMem

variable {T : Type}

/-- A call of `push` before its next step. A cell that was reserved comes with the place of the
element in the order of the compare-exchanges. -/
inductive Producer (T : Type)
  | started (data : T)
  | loading (data : T)
  | trying (data : T) (writeP freeCells : Nat)
  | reserved (data : T) (writeP place : Nat)
  | writing (data : T) (writeP place : Nat)
  | storing (data : T) (writeP place : Nat)
  | returned (enqueued : Bool)
  | full

namespace Producer

/-- The element, the pointer and the place, between the compare-exchange and the store of the
counter. -/
def reservation : Producer T → Option (T × Nat × Nat)
  | reserved data writeP place | writing data writeP place | storing data writeP place =>
    some (data, writeP, place)
  | started _ | loading _ | trying _ _ _ | returned _ | full => none

def place (q : Producer T) : Option Nat := q.reservation.map (·.2.2)

/-- One step of `push`, with the elements of the successful compare-exchanges. -/
def step (b : RingBuffer T) (pushed : List T) (spurious : Bool) :
    Producer T → RingBuffer T × List T × Producer T
  | started data =>
    (b, pushed, if b.registeredListeners = 0 then .returned false else .loading data)
  | loading data => (b, pushed, .trying data b.writeP b.freeCells)
  | trying data writeP freeCells =>
    if freeCells = 0 then (b, pushed, .full)
    else if b.writeP = writeP ∧ b.freeCells = freeCells ∧ !spurious then
      (b.reserve, pushed ++ [data], .reserved data writeP pushed.length)
    else (b, pushed, .trying data b.writeP b.freeCells)
  | reserved data writeP place =>
    (b.setData (getPointerValue writeP) none, pushed, .writing data writeP place)
  | writing data writeP place =>
    (b.setData (getPointerValue writeP) (some data), pushed, .storing data writeP place)
  | storing _ writeP _ =>
    (b.setCounter (getPointerValue writeP) b.registeredListeners, pushed, .returned true)
  | returned enqueued => (b, pushed, .returned enqueued)
  | full => (b, pushed, .full)

end Producer

/-- Where a listener is in its loop: before `head`, with a head it may read, inside of `pop` with
what it has read, and after the `fetch_sub`. -/
inductive Phase (T : Type)
  | idle
  | checking
  | reading
  | popping (x : Option T)
  | popChecking (x : Option T)
  | subtracting (x : Option T)
  | loading
  | freeing (writeP freeCells : Nat)
  | advancing
  | failed

namespace Phase

def owes : Phase T → Bool
  | loading | freeing _ _ => true
  | _ => false

def popped : Phase T → Bool
  | loading | freeing _ _ | advancing => true
  | _ => false

/-- Between a `head` that was not null and the `fetch_sub`. -/
def hasHead : Phase T → Bool
  | reading | popping _ | popChecking _ | subtracting _ => true
  | _ => false

def read : Phase T → Option (Option T)
  | popping x | popChecking x | subtracting x => some x
  | _ => none

end Phase

structure Consumer (T : Type) extends Listener T where
  phase : Phase T

namespace Consumer

/-- One step of `head`, of the read of the data, or of `pop`. -/
def step (b : RingBuffer T) (spurious : Bool) (l : Consumer T) : RingBuffer T × Consumer T :=
  let cell := getPointerValue l.readP
  match l.phase with
  | .idle => (b, { l with phase := if l.readP = b.writeP then .idle else .checking })
  | .checking =>
    (b, { l with phase := if (b.cells cell).refCounter ≠ 0 then .reading else .idle })
  | .reading => (b, { l with phase := .popping (b.cells cell).data })
  | .popping x => (b, { l with phase := if l.readP = b.writeP then .failed else .popChecking x })
  | .popChecking x =>
    (b, { l with phase := if (b.cells cell).refCounter ≠ 0 then .subtracting x else .failed })
  | .subtracting x =>
    let counter := (b.cells cell).refCounter
    (b.setCounter cell (sub32 counter 1), { l with
        obtained := l.obtained ++ [x]
        phase := if counter = 1 then .loading else .advancing })
  | .loading => (b, { l with phase := .freeing b.writeP b.freeCells })
  | .freeing writeP freeCells =>
    if b.writeP = writeP ∧ b.freeCells = freeCells ∧ !spurious then
      (b.release, { l with phase := .advancing })
    else (b, { l with phase := .freeing b.writeP b.freeCells })
  | .advancing => (b, { l with readP := incPointer b.totalCells l.readP, phase := .idle })
  | .failed => (b, l)

end Consumer

/-- The buffer, its listeners, the calls of `push` so far and the elements whose compare-exchanges
were successful. -/
structure Concurrent (T : Type) where
  buffer : RingBuffer T
  listeners : List (Option (Consumer T))
  producers : List (Producer T)
  pushed : List T

inductive Action (T : Type)
  | call (data : T)
  | producer (i : Nat) (spurious : Bool)
  | listener (i : Nat) (spurious : Bool)

namespace Concurrent

/-- The threads are started on a buffer that was set up by single calls. -/
def start (s : Session T) : Concurrent T :=
  ⟨s.buffer, s.listeners.map (·.map fun l => ⟨l, .idle⟩), [], s.pushed⟩

def listener (s : Concurrent T) (i : Nat) : Option (Consumer T) := Slots.occupant s.listeners i

def step (s : Concurrent T) : Action T → Concurrent T
  | .call data => { s with producers := s.producers ++ [.started data] }
  | .producer i spurious =>
    match s.producers[i]? with
    | none => s
    | some q =>
      let r := q.step s.buffer s.pushed spurious
      { s with buffer := r.1, pushed := r.2.1, producers := s.producers.set i r.2.2 }
  | .listener i spurious =>
    match s.listener i with
    | none => s
    | some l =>
      let r := l.step s.buffer spurious
      { s with buffer := r.1, listeners := s.listeners.set i (some r.2) }

end Concurrent

end EasyDds.Rtps.SharedMem
