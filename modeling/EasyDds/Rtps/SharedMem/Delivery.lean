import Mathlib.Data.List.Infix
import EasyDds.Lib.Run
import EasyDds.Lib.Slots
import EasyDds.Rtps.SharedMem.Ledger

/-!
What the listeners of a ring buffer obtain when its operations are called one at a time.
-/

namespace EasyDds.Rtps.SharedMem

open RingBuffer List

variable {T : Type} {b : RingBuffer T} {cs : Cursors} {log : List T} {h i p : Nat}

abbrev Tracks (b : RingBuffer T) (cs : Cursors) (log : List T) (h : Nat) : Prop :=
  Ledger b cs log h 0 fun _ => False

namespace Tracks

section Operations

variable (ht : Tracks b cs log h)
include ht

lemma cells (j : Nat) (hj : j < log.length) (hge : h ≤ j) :
    b.cells (j % b.totalCells) = ⟨cs.behind j, some log[j]⟩ := ht.stored j hj hge id

lemma push (hactive : 0 < cs.active) (hfree : b.freeCells ≠ 0) (x : T) :
    ∃ b', b.push x = .pushed b' ∧ b'.totalCells = b.totalCells ∧ Tracks b' cs (log ++ [x]) h := by
  have hregistered : b.registeredListeners ≠ 0 := by rw [ht.registered]; omega
  have hcell : getPointerValue b.writeP = log.length % b.totalCells := by
    rw [ht.writeP, getPointerValue_pointerOf ht.positive ht.max]
  have hwritten := (ht.reserve hactive hfree x).setData (.inr rfl) (some x)
  have hpublished := hwritten.publish (.inr rfl) (by simp) (by simp [setData])
  refine ⟨_, (if_neg hregistered).trans (if_neg hfree), rfl, ?_⟩
  convert hpublished using 1
  · simp [setCounter, setData, reserve, hcell]
  · funext j
    simp

lemma pop (hi : cs[i]? = some (some p)) (hlt : p < log.length) :
    ∃ r b' h', b.pop (pointerOf b.totalCells p) = some (r, b', pointerOf b.totalCells (p + 1)) ∧
      b'.totalCells = b.totalCells ∧ Tracks b' (cs.set i (some (p + 1))) log h' := by
  have hmem := Cursors.mem_of_get hi
  have hpop : b.pop (pointerOf b.totalCells p) = some (cs.behind p == 1,
      { b.setCounter (p % b.totalCells) (sub32 (cs.behind p) 1) with
        freeCells := if cs.behind p = 1 then wrap32 (b.freeCells + 1) else b.freeCells },
      pointerOf b.totalCells (p + 1)) := by
    simp only [RingBuffer.pop, RingBuffer.setCounter, ht.head_eq hmem id, if_pos hlt,
      Option.map_some, ht.stored_cell hmem hlt id, incPointer_pointerOf ht.positive ht.max]
  have hsubtract := ht.subtract hi hlt id
  by_cases hone : cs.behind p = 1
  · rw [if_pos hone] at hsubtract
    refine ⟨_, _, p + 1, hpop, rfl, ?_⟩
    rw [if_pos hone]
    exact hsubtract.2.release
  · rw [if_neg hone] at hsubtract
    refine ⟨_, _, h, hpop, rfl, ?_⟩
    rw [if_neg hone]
    exact hsubtract

lemma pop_eq_none (hp : some log.length ∈ cs) :
    b.pop (pointerOf b.totalCells log.length) = none := by
  rw [RingBuffer.pop, ht.head_eq hp id, if_neg (Nat.lt_irrefl _), Option.map_none]

/-- `copy` goes from one entry that is waited for to the next. -/
theorem copyFrom (fuel : Nat) (hge : h ≤ p) (hle : p ≤ log.length) (hfuel : log.length - p < fuel) :
    b.copyFrom fuel (pointerOf b.totalCells p) = some ((log.drop p).map some) := by
  have hnear := ht.near
  induction fuel generalizing p with
  | zero => omega
  | succ fuel ih =>
    simp only [copyFrom, ht.writeP, incPointer_pointerOf ht.positive ht.max,
      getPointerValue_pointerOf ht.positive ht.max, pointerOf_inj ht.positive ht.max hle (by omega)]
    by_cases hlt : p < log.length
    · have hpos : 0 < cs.behind p :=
        Cursors.behind_pos (ht.oldest.reached (by omega)) hge
      rw [if_neg (by omega), ih (by omega) hlt (by omega), ht.cells p hlt hge,
        drop_eq_getElem_cons hlt, map_cons, Option.map_some, if_pos hpos]
    · rw [if_pos (by omega), drop_of_length_le (by omega), map_nil]

lemma copy : b.copy = some ((log.drop h).map some) := by
  have hle := ht.oldest.le
  have hfree := ht.free
  rw [RingBuffer.copy]
  by_cases hactive : 0 < cs.active
  · rw [if_pos (ht.registered ▸ hactive), ht.writeP,
      pointerToHead_pointerOf (i := h) ht.positive ht.max (by omega) (by omega)]
    exact ht.copyFrom _ (Nat.le_refl h) hle (by omega)
  · rw [if_neg (ht.registered ▸ hactive), drop_of_length_le, map_nil]
    by_contra hlt
    exact hactive (Cursors.active_pos (ht.oldest.reached (by omega)))

end Operations

/-- The loop of `unregister_listener` ends when the listener has read everything. -/
theorem drain (ht : Tracks b cs log h) (hi : cs[i]? = some (some p)) (fuel : Nat)
    (hfuel : log.length - p < fuel) :
    ∃ b' h', b.drain fuel (pointerOf b.totalCells p) = some b' ∧ b'.totalCells = b.totalCells ∧
      Tracks b' (cs.set i (some log.length)) log h' := by
  induction fuel generalizing b cs p h with
  | zero => omega
  | succ fuel ih =>
    rcases (ht.bounded p (Cursors.mem_of_get hi)).lt_or_eq with hlt | rfl
    · obtain ⟨r, b', h', hpop, htotal, ht'⟩ := ht.pop hi hlt
      have hlen := (List.getElem?_eq_some_iff.1 hi).1
      obtain ⟨b'', h'', hdrain, htotal', ht''⟩ := ih ht' (getElem?_set_self hlen) (by omega)
      refine ⟨b'', h'', ?_, htotal'.trans htotal, ?_⟩
      · rw [drain, hpop]
        rwa [htotal] at hdrain
      · rwa [set_set] at ht''
    · refine ⟨b, h, ?_, rfl, ?_⟩
      · rw [drain, ht.pop_eq_none (Cursors.mem_of_get hi)]
      · have hself := List.set_getElem_self (List.getElem?_eq_some_iff.1 hi).1
        rw [(List.getElem?_eq_some_iff.1 hi).2] at hself
        rwa [hself]

lemma unregisterListener (ht : Tracks b cs log h) (hi : cs[i]? = some (some p)) :
    ∃ b' h', b.unregisterListener (pointerOf b.totalCells p) = some b' ∧
      b'.totalCells = b.totalCells ∧ Tracks b' (cs.set i none) log h' := by
  have hnear := ht.near
  have hge := ht.oldest.first p (Cursors.mem_of_get hi)
  obtain ⟨b', h', hdrain, htotal, ht'⟩ := ht.drain hi (b.totalCells + 1) (by omega)
  have hlen := (List.getElem?_eq_some_iff.1 hi).1
  have hclose := ht'.close (getElem?_set_self hlen) fun _ => id
  rw [set_set] at hclose
  refine ⟨{ b' with registeredListeners := sub32 b'.registeredListeners 1 }, h', ?_, htotal, hclose⟩
  rw [RingBuffer.unregisterListener, hdrain, Option.map_some]

end Tracks

/-- A listener: where it stands, and with what it has obtained since its registration. -/
structure Listener (T : Type) where
  readP : Nat
  since : Nat
  obtained : List (Option T)

def Listener.position (l : Listener T) : Nat := l.since + l.obtained.length

/-- A buffer with its listeners, in the order of their registration, and the elements pushed. -/
structure Session (T : Type) where
  buffer : RingBuffer T
  listeners : List (Option (Listener T))
  pushed : List T

inductive Operation (T : Type)
  | push (data : T)
  | head (i : Nat)
  | pop (i : Nat)
  | registerListener
  | unregisterListener (i : Nat)

namespace Session

def initial (totalCells : Nat) : Session T := ⟨.initNode totalCells, [], []⟩

def listener (s : Session T) (i : Nat) : Option (Listener T) := Slots.occupant s.listeners i

/-- One call. A listener reads the data of its head before it calls `pop`. -/
def step (s : Session T) : Operation T → Session T
  | .push data =>
    match s.buffer.push data with
    | .pushed b => { s with buffer := b, pushed := s.pushed ++ [data] }
    | .noListeners | .full => s
  | .head _ => s
  | .pop i =>
    match s.listener i with
    | none => s
    | some l =>
      match s.buffer.seen l.readP, s.buffer.pop l.readP with
      | some x, some (_, b, readP) =>
        { s with
          buffer := b
          listeners := s.listeners.set i (some ⟨readP, l.since, l.obtained ++ [x]⟩) }
      | _, _ => s
  | .registerListener =>
    let r := s.buffer.registerListener
    { s with buffer := r.1, listeners := s.listeners ++ [some ⟨r.2, s.pushed.length, []⟩] }
  | .unregisterListener i =>
    match s.listener i with
    | none => s
    | some l =>
      match s.buffer.unregisterListener l.readP with
      | none => s
      | some b => { s with buffer := b, listeners := s.listeners.set i none }

def cursors (s : Session T) : Cursors := s.listeners.map (·.map (·.position))

/-- The callers register fewer than 2^32 listeners at a time: a port has room for 1024. -/
def Permitted (s : Session T) : Operation T → Prop
  | .registerListener => s.listeners.countP (·.isSome) + 1 < 2 ^ 32
  | _ => True

def awaited (s : Session T) (j : Nat) : Bool := s.listeners.any (·.any (·.position ≤ j))

def waiting (s : Session T) : List Nat := (List.range s.pushed.length).filter s.awaited

structure Inv (n : Nat) (s : Session T) : Prop where
  total : s.buffer.totalCells = n
  tracks : ∃ h, Tracks s.buffer s.cursors s.pushed h
  pointer : ∀ i l, s.listener i = some l → l.readP = pointerOf n l.position
  obtained : ∀ i l, s.listener i = some l → l.obtained <+: (s.pushed.drop l.since).map some

variable {n : Nat} {s : Session T}

lemma cursors_get {l : Listener T} (hl : s.listener i = some l) :
    s.cursors[i]? = some (some l.position) := Slots.map_get Listener.position hl

lemma active_cursors (s : Session T) : s.cursors.active = s.listeners.countP (·.isSome) := by
  rw [Cursors.active, cursors, countP_map]
  congr
  funext o
  cases o <;> rfl

lemma cursors_set (o : Option (Listener T)) (b : RingBuffer T) :
    ({ s with buffer := b, listeners := s.listeners.set i o } : Session T).cursors =
      s.cursors.set i (o.map (·.position)) := map_set

namespace Inv

lemma initial (hn : 0 < n) (hmax : n ≤ 2 ^ 31) : Inv n (initial n : Session T) where
  total := rfl
  tracks := ⟨0, .initNode hn hmax⟩
  pointer := by simp [Session.initial, listener]
  obtained := by simp [Session.initial, listener]

section

variable (hs : Inv n s)
include hs

lemma seen_eq {l : Listener T} (hl : s.listener i = some l) :
    s.buffer.seen l.readP = s.pushed[l.position]?.map some := by
  obtain ⟨h, ht⟩ := hs.tracks
  rw [hs.pointer i l hl, ← hs.total, ht.seen_eq (Cursors.mem_of_get (cursors_get hl)) id]

lemma push (x : T) : Inv n (s.step (.push x)) := by
  obtain ⟨h, ht⟩ := hs.tracks
  rw [step]
  by_cases hactive : 0 < s.cursors.active
  · by_cases hfree : s.buffer.freeCells = 0
    · have hfull : s.buffer.push x = .full := by
        rw [RingBuffer.push, if_neg (by rw [ht.registered]; omega), if_pos hfree]
      rwa [hfull]
    · obtain ⟨b', hpush, htotal, ht'⟩ := ht.push hactive hfree x
      rw [hpush]
      refine ⟨htotal.trans hs.total, ⟨h, ht'⟩, hs.pointer, fun k l hl => ?_⟩
      have hle := ht.bounded _ (Cursors.mem_of_get (cursors_get hl))
      rw [Listener.position] at hle
      rw [drop_append_of_le_length (by omega), map_append]
      exact (hs.obtained k l hl).trans (prefix_append _ _)
  · have hnone : s.buffer.push x = .noListeners := by
      rw [RingBuffer.push, if_pos (by rw [ht.registered]; omega)]
    rwa [hnone]

lemma pop (i : Nat) : Inv n (s.step (.pop i)) := by
  obtain ⟨h, ht⟩ := hs.tracks
  rw [step]
  cases hl : s.listener i with
  | none => exact hs
  | some l =>
    have hseen := hs.seen_eq hl
    have hcursor := cursors_get hl
    by_cases hlt : l.position < s.pushed.length
    · obtain ⟨r, b', h', hpop, htotal, ht'⟩ := ht.pop hcursor hlt
      rw [hs.total, ← hs.pointer i l hl] at hpop
      simp only [hseen, hpop, getElem?_eq_getElem hlt, Option.map_some]
      refine ⟨htotal.trans hs.total, ⟨h', ?_⟩, fun k m hm => ?_, fun k m hm => ?_⟩
      · rw [cursors_set]
        simpa [Listener.position, Nat.add_assoc] using ht'
      · rcases Slots.occupant_set hm with ⟨-, hm⟩ | ⟨-, hm⟩
        · cases hm
          simp [Listener.position, Nat.add_assoc]
        · exact hs.pointer k m hm
      · rcases Slots.occupant_set hm with ⟨-, hm⟩ | ⟨-, hm⟩
        · cases hm
          have hread := hs.obtained i l hl
          have hlen : l.obtained.length < ((s.pushed.drop l.since).map some).length := by
            rw [Listener.position] at hlt
            rw [length_map, length_drop]
            omega
          simpa [Listener.position] using concat_get_prefix hread hlen
        · exact hs.obtained k m hm
    · simp only [hseen, getElem?_eq_none (Nat.not_lt.1 hlt), Option.map_none]
      exact hs

lemma registerListener (hfew : s.Permitted .registerListener) :
    Inv n (s.step .registerListener) := by
  obtain ⟨h, ht⟩ := hs.tracks
  have hlast : ∀ k l, (s.step .registerListener).listener k = some l →
      s.listener k = some l ∨ l = ⟨s.buffer.writeP, s.pushed.length, []⟩ := by
    intro k l hl
    rcases Slots.occupant_append.1 hl with hl | ⟨-, hl⟩
    · exact .inl hl
    · exact .inr hl.symm
  refine ⟨hs.total, ⟨h, ?_⟩, fun k l hl => ?_, fun k l hl => ?_⟩
  · have hcursors : (s.step .registerListener).cursors = s.cursors ++ [some s.pushed.length] := by
      simp [step, cursors, Listener.position]
    rw [hcursors]
    exact ht.registerListener (by rw [active_cursors]; exact hfew) fun _ => id
  · rcases hlast k l hl with hl | rfl
    · exact hs.pointer k l hl
    · exact hs.total ▸ ht.writeP
  · rcases hlast k l hl with hl | rfl
    · exact hs.obtained k l hl
    · exact nil_prefix

lemma unregisterListener (i : Nat) : Inv n (s.step (.unregisterListener i)) := by
  obtain ⟨h, ht⟩ := hs.tracks
  rw [step]
  cases hl : s.listener i with
  | none => exact hs
  | some l =>
    obtain ⟨b', h', hunregister, htotal, ht'⟩ := ht.unregisterListener (cursors_get hl)
    rw [hs.total, ← hs.pointer i l hl] at hunregister
    simp only [hunregister]
    refine ⟨htotal.trans hs.total, ⟨h', by rwa [cursors_set]⟩, fun k m hm => ?_, fun k m hm => ?_⟩
    · exact hs.pointer k m (Slots.occupant_clear hm).2
    · exact hs.obtained k m (Slots.occupant_clear hm).2

end

lemma step (s : Session T) (op : Operation T) (hs : Inv n s) (hop : s.Permitted op) :
    Inv n (s.step op) := by
  cases op with
  | push x => exact hs.push x
  | head i => exact hs
  | pop i => exact hs.pop i
  | registerListener => exact hs.registerListener hop
  | unregisterListener i => exact hs.unregisterListener i

end Inv

lemma awaited_iff {j : Nat} : s.awaited j ↔ ∃ p, some p ∈ s.cursors ∧ p ≤ j := by
  simp only [awaited, any_eq_true, cursors, mem_map, Option.map_eq_some_iff]
  constructor
  · rintro ⟨_ | l, hmem, hle⟩
    · cases hle
    · exact ⟨l.position, ⟨_, hmem, l, rfl, rfl⟩, by simpa using hle⟩
  · rintro ⟨p, ⟨_, hmem, l, rfl, rfl⟩, hle⟩
    exact ⟨some l, hmem, by simpa using hle⟩

section Waiting

variable {h : Nat} (ht : Tracks s.buffer s.cursors s.pushed h)
include ht

lemma awaited_iff_le {j : Nat} (hj : j < s.pushed.length) : s.awaited j ↔ h ≤ j := by
  rw [awaited_iff]
  constructor
  · rintro ⟨p, hp, hle⟩
    exact (ht.oldest.first p hp).trans hle
  · intro hle
    exact ⟨h, ht.oldest.reached (by omega), hle⟩

lemma waiting_eq : s.waiting = List.range' h (s.pushed.length - h) := by
  have hle := ht.oldest.le
  have hsplit : List.range s.pushed.length = List.range h ++
    List.range' h (s.pushed.length - h) := by
    have happend := @List.range'_append_1 0 h (s.pushed.length - h)
    rw [Nat.zero_add, Nat.add_sub_cancel' hle] at happend
    rw [range_eq_range', range_eq_range', happend]
  rw [waiting, hsplit, filter_append, filter_eq_nil_iff.2, filter_eq_self.2, nil_append]
  · intro j hj
    rw [mem_range'_1] at hj
    exact (awaited_iff_le ht (by omega)).2 hj.1
  · intro j hj
    rw [mem_range] at hj
    rw [awaited_iff_le ht (by omega)]
    omega

lemma length_waiting : s.waiting.length = s.pushed.length - h := by
  rw [waiting_eq ht, length_range']

end Waiting

end Session

open Session in
/-- Whatever is called: each listener has obtained the first of the elements pushed since it was
registered and has the next one before it; the buffer is full if all its cells hold elements that
are waiting for a listener; these elements are where they were put, and `copy` lists them. -/
theorem ringBuffer_delivers {n : Nat} (hn : 1 ≤ n) (hmax : n ≤ 2 ^ 31) {ops : List (Operation T)}
    (hrun : RunsWith step Permitted (initial n) ops) :
    let s := ops.foldl step (initial n)
    (∀ i l, s.listener i = some l → l.obtained <+: (s.pushed.drop l.since).map some ∧
      s.buffer.seen l.readP = (s.pushed.drop l.since)[l.obtained.length]?.map some ∧
      (s.buffer.unregisterListener l.readP).isSome) ∧
    (∀ x, s.buffer.push x = .full ↔ s.waiting.length = n) ∧
    (∀ j ∈ s.waiting, (s.buffer.cells (j % n)).data = s.pushed[j]?) ∧
    s.buffer.copy = some (s.waiting.map fun j => s.pushed[j]?) := by
  intro s
  have hs : Inv n s := hrun.keeps Inv.step (.initial hn hmax)
  obtain ⟨h, ht⟩ := hs.tracks
  have hfree := ht.free
  rw [hs.total] at hfree
  refine ⟨fun i l hl => ⟨hs.obtained i l hl, ?_, ?_⟩, fun x => ?_, fun j hj => ?_, ?_⟩
  · rw [hs.seen_eq hl, getElem?_drop, Listener.position]
  · obtain ⟨b', h', hunregister, -⟩ := ht.unregisterListener (cursors_get hl)
    rw [hs.pointer i l hl, ← hs.total, hunregister]
    rfl
  · rw [length_waiting ht, push, ht.registered]
    by_cases hactive : s.cursors.active = 0
    · have hnobody : ¬h < s.pushed.length := fun hlt =>
        (Cursors.active_pos (ht.oldest.reached hlt)).ne' hactive
      simp only [if_pos hactive, reduceCtorEq, false_iff]
      omega
    · rw [if_neg hactive]
      split
      · simp only [true_iff]
        omega
      · simp only [reduceCtorEq, false_iff]
        omega
  · rw [waiting_eq ht, mem_range'_1] at hj
    have hlt : j < s.pushed.length := by omega
    rw [← hs.total, ht.cells j hlt hj.1, getElem?_eq_getElem hlt]
  · rw [ht.copy, waiting_eq ht]
    refine congrArg some (ext_getElem (by simp) fun k hk _ => ?_)
    rw [length_map, length_drop] at hk
    simp [getElem?_eq_getElem (show h + k < s.pushed.length by omega)]

open Session in
theorem ringBuffer_delivers_two :
    let ops : List (Operation Nat) :=
      [.registerListener, .push 5, .push 6, .registerListener, .pop 0, .push 7, .push 8]
    let s := ops.foldl step (initial 2)
    (1 ≤ 2 ∧ 2 ≤ 2 ^ 31 ∧ RunsWith step Permitted (initial 2) ops) ∧ s.waiting = [1, 2] ∧ s.pushed =
      [5, 6, 7] ∧ s.buffer.copy = some (s.waiting.map fun j => s.pushed[j]?) := by
  have hrun : RunsWith step Permitted (initial 2)
      [.registerListener, .push 5, .push 6, .registerListener, .pop 0, .push 7, .push 8] := by
    refine ⟨?_, trivial, trivial, ?_, trivial, trivial, trivial, trivial⟩ <;>
      (rw [Permitted]; decide)
  exact ⟨⟨by decide, by decide, hrun⟩, by decide, by decide,
    (ringBuffer_delivers (by decide) (by decide) hrun).2.2.2⟩

end EasyDds.Rtps.SharedMem
