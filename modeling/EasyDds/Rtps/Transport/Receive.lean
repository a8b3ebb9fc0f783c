import EasyDds.Lib.Loop
import EasyDds.Rtps.Message.CdrMessage

/-!
`TCPTransportInterface::Receive`: the header of a message is searched in the bytes of a connection
and its body is read, or dropped if it is larger than the buffer.
-/

namespace EasyDds.Rtps

/-- How a connection ends: its reads fail with an error code, or without one because the channel
has been disconnected, which a reader may not have noticed before. -/
inductive Loss
  | error
  | disconnected
  | unnoticed
deriving DecidableEq

/-- What is left of a connection: the answers to the reads to come, any of which may be shorter
than what is asked for, and what happens behind them. -/
structure Channel where
  segments : List (List UInt8)
  loss : Loss

namespace Channel

def stream (ch : Channel) : List UInt8 := ch.segments.flatten

def connectionStatus (ch : Channel) : Bool :=
  !ch.stream.isEmpty || decide (ch.loss ≠ .disconnected)

def read (ch : Channel) (size : Nat) : List UInt8 × Bool × Channel :=
  match ch.segments with
  | segment :: rest =>
    (segment.take size, false,
      { ch with segments := if segment.length ≤ size then rest else segment.drop size :: rest })
  | [] =>
    match ch.loss with
    | .error => ([], true, ch)
    | .disconnected => ([], false, ch)
    | .unnoticed => ([], false, { ch with loss := .disconnected })

end Channel

def sync : List UInt8 := [82, 84, 67, 80]

/-- How far the next place is where a header may begin. -/
def skipOf (text : List UInt8) : Nat :=
  if text[0]? ≠ some 82 then 1
  else if text[1]? ≠ some 84 then 1
  else if text[2]? ≠ some 67 then 2
  else if text[3]? ≠ some 80 then 3
  else 0

/-- What a part of `receive_header` ends with: the bytes that were read, or whether there is an
error code. -/
inductive HeaderRead
  | found (text : List UInt8) (ch : Channel)
  | failed (ec : Bool) (ch : Channel)

/-- A round of a loop of `receive_header` that waits for `size` bytes: `complete` says what is done
with them once they are there. -/
def headerStep (size : Nat) (complete : List UInt8 → Channel → List UInt8 × Channel ⊕ HeaderRead) :
    List UInt8 × Channel → List UInt8 × Channel ⊕ HeaderRead
  | (text, ch) =>
    match ch.read (size - text.length) with
    | (bytes, ec, ch) =>
      if bytes ≠ [] then
        let text := text ++ bytes
        if text.length = size then complete text ch else .inl (text, ch)
      else if ec then .inr (.failed true ch)
      else if ch.connectionStatus = false then .inr (.failed false ch)
      else .inl (text, ch)

def syncStep : List UInt8 × Channel → List UInt8 × Channel ⊕ HeaderRead :=
  headerStep 4 fun text ch =>
    let skip := skipOf text
    if skip ≠ 0 then .inl (text.drop skip, ch) else .inr (.found text ch)

def restStep : List UInt8 × Channel → List UInt8 × Channel ⊕ HeaderRead :=
  headerStep 10 fun text ch => .inr (.found text ch)

def receiveHeader (fuel : Nat) (ch : Channel) : Option HeaderRead := do
  match ← runLoop syncStep fuel ([], ch) with
  | .failed ec ch => pure (.failed ec ch)
  | .found text ch =>
    match ← runLoop restStep fuel ([], ch) with
    | .failed ec ch => pure (.failed ec ch)
    | .found rest ch => pure (.found (text ++ rest) ch)

def findHeader : Nat → Channel → Option HeaderRead
  | 0, _ => none
  | fuel + 1, ch => do
    match ← receiveHeader fuel ch with
    | .failed ec ch =>
      if ec = false ∧ ch.connectionStatus = true then findHeader fuel ch else pure (.failed ec ch)
    | .found header ch => pure (.found header ch)

def headerField (msgEndian : Endianness) (header : List UInt8) (i n : Nat) : Nat :=
  ofWordBytes (decide (msgEndian ≠ .littleend)) ((header.drop i).take n)

/-- `body_size`, an unsigned difference of 32 bits. -/
def bodySize (msgEndian : Endianness) (header : List UInt8) : Nat :=
  (headerField msgEndian header 4 4 + 2 ^ 32 - 14) % 2 ^ 32

/-- A round of the loop that drops a message: the bytes left and the size of the next read. -/
def dropStep (capacity : Nat) : Nat × Nat × Channel → (Nat × Nat × Channel) ⊕ Channel
  | (toRead, readBlock, ch) =>
    if 0 < readBlock then
      match ch.read readBlock with
      | (readed, _, ch) =>
        let toRead := toRead - readed.length
        .inl (toRead, if capacity ≤ toRead then capacity else toRead, ch)
    else .inr ch

inductive Outcome
  | headerError
  | disconnected
  | dropped
  | badBody
  | control (body : List UInt8)
  | data (logicalPort : Nat) (body : List UInt8)
deriving DecidableEq

/-- `Receive` for a body that fits into the buffer. -/
def readMessage (msgEndian : Endianness) (header : List UInt8) (ch : Channel) : Outcome × Channel :=
  let size := bodySize msgEndian header
  match ch.read size with
  | (body, ec, ch) =>
    if ec then (.badBody, ch)
    else if body.length ≠ size then (.badBody, ch)
    else
      let logicalPort := headerField msgEndian header 12 2
      if logicalPort = 0 then (.control body, ch) else (.data logicalPort body, ch)

def receiveBody (fuel capacity : Nat) (msgEndian : Endianness) (header : List UInt8)
    (ch : Channel) : Option (Outcome × Channel) :=
  if ch.connectionStatus = false then some (.disconnected, ch)
  else
    let size := bodySize msgEndian header
    if capacity < size then do
      let ch ← runLoop (dropStep capacity) fuel (size, capacity, ch)
      pure (.dropped, ch)
    else some (readMessage msgEndian header ch)

/-- `Receive` once the loop that looks for a header has ended. -/
def receiveFrom (fuel capacity : Nat) (msgEndian : Endianness) :
    HeaderRead → Option (Outcome × Channel)
  | .failed true ch => some (.headerError, ch)
  | .failed false ch => some (.disconnected, ch)
  | .found header ch => receiveBody fuel capacity msgEndian header ch

/-- `Receive`, up to the processing of a control message. -/
def receive (fuel capacity : Nat) (msgEndian : Endianness) (ch : Channel) :
    Option (Outcome × Channel) := do
  let r ← findHeader fuel ch
  receiveFrom fuel capacity msgEndian r

end EasyDds.Rtps
