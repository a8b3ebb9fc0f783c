import EasyDds.Rtps.Transport.Receive

/-!
Where a header is found in the bytes of a connection, when `Receive` returns, and what it leaves.
-/

namespace EasyDds.Rtps

open List Option

namespace Channel

def size (ch : Channel) : Nat := ch.stream.length + ch.segments.length

lemma connectionStatus_eq_false_iff {ch : Channel} :
    ch.connectionStatus = false ↔ ch.stream = [] ∧ ch.loss = .disconnected := by
  simp [connectionStatus]

variable (ch : Channel) (n : Nat)

lemma read_stream : (ch.read n).1 ++ (ch.read n).2.2.stream = ch.stream := by
  obtain ⟨segments, loss⟩ := ch
  cases segments with
  | nil => cases loss <;> rfl
  | cons segment rest =>
    by_cases hle : segment.length ≤ n
    · simp [read, stream, hle, take_of_length_le hle]
    · simp only [read, stream, if_neg hle, flatten_cons]
      rw [← append_assoc, take_append_drop]

lemma length_read_le : (ch.read n).1.length ≤ n := by
  obtain ⟨segments, loss⟩ := ch
  cases segments with
  | nil => cases loss <;> simp [read]
  | cons segment rest => simp [read]

lemma read_of_segments (h : ch.segments ≠ []) (hn : 0 < n) :
    (ch.read n).2.1 = false ∧ (ch.read n).2.2.loss = ch.loss ∧ (ch.read n).2.2.size < ch.size := by
  obtain ⟨segments, loss⟩ := ch
  cases segments with
  | nil => exact absurd rfl h
  | cons segment rest =>
    refine ⟨rfl, rfl, ?_⟩
    by_cases hle : segment.length ≤ n
    · simp only [read, size, stream, if_pos hle, flatten_cons, length_append, length_cons]
      omega
    · simp only [read, size, stream, if_neg hle, flatten_cons, length_append,
        length_cons, length_drop]
      omega

lemma read_of_nil (h : ch.segments = []) :
    (ch.read n).1 = [] ∧ ((ch.read n).2.1 = true ∨ (ch.read n).2.2.connectionStatus = false) := by
  obtain ⟨segments, loss⟩ := ch
  subst h
  cases loss
  · exact ⟨rfl, .inl rfl⟩
  · exact ⟨rfl, .inr rfl⟩
  · exact ⟨rfl, .inr rfl⟩

lemma segments_ne_nil (h : ch.stream ≠ []) : ch.segments ≠ [] := by
  rintro heq
  rw [stream, heq] at h
  exact h rfl

end Channel

variable {text : List UInt8} {i : Nat}

/-- A round reads some bytes, or none, or ends because there are no more. -/
theorem headerStep_cases {size : Nat}
    (complete : List UInt8 → Channel → List UInt8 × Channel ⊕ HeaderRead) (ch : Channel)
    (hlt : text.length < size) :
    (∃ bytes ch', bytes ≠ [] ∧ bytes ++ ch'.stream = ch.stream ∧ (text ++ bytes).length ≤ size ∧
      ch'.loss = ch.loss ∧ ch'.size < ch.size ∧ headerStep size complete (text, ch) =
        if (text ++ bytes).length = size then complete (text ++ bytes) ch'
        else .inl (text ++ bytes, ch')) ∨
    (∃ ch', ch'.stream = ch.stream ∧ ch'.loss = ch.loss ∧ ch'.size < ch.size ∧
      headerStep size complete (text, ch) = .inl (text, ch')) ∨
    ch.stream = [] ∧ ∃ ec ch', (ec = true ∨ ch'.connectionStatus = false) ∧
      headerStep size complete (text, ch) = .inr (.failed ec ch') := by
  have hstream := Channel.read_stream ch (size - text.length)
  have hle := Channel.length_read_le ch (size - text.length)
  have hsegments := Channel.read_of_segments ch (size - text.length)
  have hnil := Channel.read_of_nil ch (size - text.length)
  rw [headerStep]
  generalize ch.read (size - text.length) = r at hstream hle hsegments hnil ⊢
  obtain ⟨bytes, ec, ch'⟩ := r
  simp only at hstream hle hsegments hnil ⊢
  by_cases hbytes : bytes = []
  · subst hbytes
    rw [if_neg (not_not.2 rfl)]
    by_cases hmore : ch.segments = []
    · have hempty : ch.stream = [] := by rw [Channel.stream, hmore]; rfl
      refine .inr (.inr ⟨hempty, ?_⟩)
      rcases (hnil hmore).2 with hec | hstatus
      · exact ⟨true, ch', .inl rfl, if_pos hec⟩
      · by_cases hec : ec = true
        · exact ⟨true, ch', .inl rfl, if_pos hec⟩
        · exact ⟨false, ch', .inr hstatus, by rw [if_neg hec, if_pos hstatus]⟩
    · obtain ⟨hec, hloss, hsize⟩ := hsegments hmore (by omega)
      rw [if_neg (by simp [hec])]
      by_cases hstatus : ch'.connectionStatus = false
      · rw [if_pos hstatus]
        have hempty := (Channel.connectionStatus_eq_false_iff.1 hstatus).1
        exact .inr (.inr ⟨by rw [← hstream, hempty]; rfl, false, ch', .inr hstatus, rfl⟩)
      · rw [if_neg hstatus]
        exact .inr (.inl ⟨ch', hstream, hloss, hsize, rfl⟩)
  · rw [if_pos hbytes]
    have hmore : ch.segments ≠ [] := fun heq => hbytes (hnil heq).1
    obtain ⟨-, hloss, hsize⟩ := hsegments hmore (by omega)
    refine .inl ⟨bytes, ch', hbytes, hstream, ?_, hloss, hsize, rfl⟩
    rw [length_append]
    omega

def SyncAt (s : List UInt8) (i : Nat) : Prop := (s.drop i).take 4 = sync

/-- The first place where a header may begin. -/
structure FirstSync (s : List UInt8) (i : Nat) : Prop where
  sync : SyncAt s i
  first : ∀ j < i, ¬ SyncAt s j

lemma FirstSync.unique {s : List UInt8} {i j : Nat} (hi : FirstSync s i) (hj : FirstSync s j) :
    i = j := by
  rcases Nat.lt_trichotomy i j with hlt | heq | hgt
  · exact absurd hi.sync (hj.first i hlt)
  · exact heq
  · exact absurd hj.sync (hi.first j hgt)

lemma SyncAt.length_le {s : List UInt8} (h : SyncAt s i) : i + 4 ≤ s.length := by
  have hlen := congrArg List.length h
  simp [sync] at hlen
  omega

/-- No header begins at the places that are skipped: what was read there does not go on as `RTCP`
does. -/
theorem not_sync_of_skip {junk rest : List UInt8} (hlen : text.length = 4) {j : Nat}
    (hj : j < skipOf text) : ¬ SyncAt (junk ++ (text ++ rest)) (junk.length + j) := by
  obtain ⟨a, b, c, d, rfl⟩ : ∃ a b c d, text = [a, b, c, d] := by
    match text, hlen with
    | [a, b, c, d], _ => exact ⟨a, b, c, d, rfl⟩
  rw [SyncAt, drop_append, drop_of_length_le (by omega), nil_append, Nat.add_sub_cancel_left]
  simp only [skipOf, getElem?_cons_zero, getElem?_cons_succ, some.injEq, ne_eq] at hj
  have hcases : j = 0 ∨ j = 1 ∨ j = 2 := by split_ifs at hj <;> omega
  rcases hcases with rfl | rfl | rfl <;> split_ifs at hj <;> simp_all [sync]

lemma sync_of_skip (hlen : text.length = 4) (h : skipOf text = 0) : text = sync := by
  obtain ⟨a, b, c, d, rfl⟩ : ∃ a b c d, text = [a, b, c, d] := by
    match text, hlen with
    | [a, b, c, d], _ => exact ⟨a, b, c, d, rfl⟩
  simp only [skipOf, getElem?_cons_zero, getElem?_cons_succ, some.injEq, ne_eq] at h
  split_ifs at h
  simp_all [sync]

section Header

variable {s : List UInt8} {loss : Loss}

/-- While `sync` is searched, no header begins in the bytes that were left behind. -/
def SyncInv (s : List UInt8) (loss : Loss) : List UInt8 × Channel → Prop
  | (text, ch) => ∃ junk, s = junk ++ (text ++ ch.stream) ∧ (∀ j < junk.length, ¬ SyncAt s j) ∧
      text.length < 4 ∧ ch.loss = loss

def SyncFound (s : List UInt8) (loss : Loss) : HeaderRead → Prop
  | .found text ch => text = sync ∧
      ∃ junk, s = junk ++ (sync ++ ch.stream) ∧ FirstSync s junk.length ∧ ch.loss = loss
  | .failed ec ch => (∀ i, ¬ SyncAt s i) ∧ (ec = true ∨ ch.connectionStatus = false)

lemma SyncInv.step {state : List UInt8 × Channel} (h : SyncInv s loss state) :
    (∃ state', syncStep state = .inl state' ∧ SyncInv s loss state' ∧
      state'.2.size < state.2.size) ∨
    ∃ r, syncStep state = .inr r ∧ SyncFound s loss r := by
  obtain ⟨text, ch⟩ := state
  obtain ⟨junk, hs, hfirst, hlt, hloss⟩ := h
  rcases headerStep_cases _ ch hlt with
    ⟨bytes, ch', -, hstream, hle, hloss', hsize, hstep⟩ | ⟨ch', hstream, hloss', hsize, hstep⟩ |
    ⟨hempty, ec, ch', hend, hstep⟩
  · have hs' : s = junk ++ (text ++ bytes ++ ch'.stream) := by rw [hs, ← hstream, append_assoc]
    rw [syncStep, hstep]
    by_cases hfour : (text ++ bytes).length = 4
    · rw [if_pos hfour]
      by_cases hskip : skipOf (text ++ bytes) = 0
      · have hsync := sync_of_skip hfour hskip
        refine .inr ⟨_, if_neg (not_not.2 hskip), hsync, junk, hsync ▸ hs', ⟨?_, hfirst⟩,
          hloss'.trans hloss⟩
        rw [SyncAt, hs', hsync, drop_left]
        rfl
      · -- The next place is the first one where a header may begin.
        refine .inl ⟨_, if_pos hskip, ⟨junk ++ (text ++ bytes).take (skipOf (text ++ bytes)), ?_,
          fun j hj => ?_, ?_, hloss'.trans hloss⟩, hsize⟩
        · rw [append_assoc, ← append_assoc (List.take _ _), take_append_drop]
          exact hs'
        · rw [length_append, length_take] at hj
          by_cases hbefore : j < junk.length
          · exact hfirst j hbefore
          · obtain ⟨k, rfl⟩ := Nat.exists_eq_add_of_le (not_lt.1 hbefore)
            rw [hs']
            exact not_sync_of_skip hfour (by omega)
        · rw [length_drop]
          omega
    · rw [if_neg hfour]
      exact .inl ⟨_, rfl, ⟨junk, hs', hfirst, by omega, hloss'.trans hloss⟩, hsize⟩
  · exact .inl ⟨_, hstep, ⟨junk, by rw [hs, hstream], hfirst, hlt, hloss'.trans hloss⟩, hsize⟩
  · refine .inr ⟨_, hstep, fun i hi => ?_, hend⟩
    by_cases hbefore : i < junk.length
    · exact hfirst i hbefore hi
    · have hlen := hi.length_le
      rw [hs, hempty, append_nil, length_append] at hlen
      omega

/-- While the rest of a header is read, its bytes stand at the front of the stream. -/
def RestInv (s : List UInt8) (loss : Loss) : List UInt8 × Channel → Prop
  | (text, ch) => s = text ++ ch.stream ∧ text.length < 10 ∧ ch.loss = loss

def RestFound (s : List UInt8) (loss : Loss) : HeaderRead → Prop
  | .found text ch => s = text ++ ch.stream ∧ text.length = 10 ∧ ch.loss = loss
  | .failed ec ch => s.length < 10 ∧ (ec = true ∨ ch.connectionStatus = false)

lemma RestInv.step {state : List UInt8 × Channel} (h : RestInv s loss state) :
    (∃ state', restStep state = .inl state' ∧ RestInv s loss state' ∧
      state'.2.size < state.2.size) ∨
    ∃ r, restStep state = .inr r ∧ RestFound s loss r := by
  obtain ⟨text, ch⟩ := state
  obtain ⟨hs, hlt, hloss⟩ := h
  rcases headerStep_cases _ ch hlt with
    ⟨bytes, ch', -, hstream, hle, hloss', hsize, hstep⟩ | ⟨ch', hstream, hloss', hsize, hstep⟩ |
    ⟨hempty, ec, ch', hend, hstep⟩
  · have hs' : s = text ++ bytes ++ ch'.stream := by rw [hs, ← hstream, append_assoc]
    rw [restStep, hstep]
    by_cases hten : (text ++ bytes).length = 10
    · exact .inr ⟨_, if_pos hten, hs', hten, hloss'.trans hloss⟩
    · exact .inl ⟨_, if_neg hten, ⟨hs', by omega, hloss'.trans hloss⟩, hsize⟩
  · exact .inl ⟨_, hstep, ⟨by rw [hs, hstream], hlt, hloss'.trans hloss⟩, hsize⟩
  · exact .inr ⟨_, hstep, by rw [hs, hempty, append_nil]; exact hlt, hend⟩

/-- What `receive_header` ends with: the header at the first place where one may begin. -/
def HeaderSpec (s : List UInt8) (loss : Loss) : HeaderRead → Prop
  | .found header ch => ∃ i, FirstSync s i ∧ i + 14 ≤ s.length ∧ header = (s.drop i).take 14 ∧
      ch.stream = s.drop (i + 14) ∧ ch.loss = loss
  | .failed ec ch => (∀ i, FirstSync s i → s.length < i + 14) ∧
      (ec = true ∨ ch.connectionStatus = false)

/-- `receive_header` returns what the stream holds: the first header that is complete, or a failure
if there is none. -/
theorem receiveHeader_returns (ch : Channel) :
    ∃ r, HeaderSpec ch.stream ch.loss r ∧ Returns (fun fuel => receiveHeader fuel ch) r := by
  have hsync : SyncInv ch.stream ch.loss ([], ch) :=
    ⟨[], rfl, fun j hj => absurd hj (by simp), by simp, rfl⟩
  obtain ⟨r, hr, hreturns⟩ := runLoop_returns _ _ (fun state => state.2.size)
    (fun _ => SyncInv.step) hsync
  cases r with
  | failed ec ch' =>
    exact ⟨.failed ec ch', ⟨fun i hi => absurd hi.sync (hr.1 i), hr.2⟩, hreturns.bind (.pure _)⟩
  | found text ch' =>
    obtain ⟨rfl, junk, hs, hfirst, hloss⟩ := hr
    have hrest : RestInv ch'.stream ch.loss ([], ch') := ⟨rfl, by simp, hloss⟩
    obtain ⟨r, hr, hreturns'⟩ := runLoop_returns _ _ (fun state => state.2.size)
      (fun _ => RestInv.step) hrest
    cases r with
    | failed ec ch'' =>
      refine ⟨.failed ec ch'', ⟨fun i hi => ?_, hr.2⟩, hreturns.bind (hreturns'.bind (.pure _))⟩
      have hlt := hr.1
      rw [hi.unique hfirst, hs]
      simp only [length_append, sync, length_cons, length_nil]
      omega
    | found rest ch'' =>
      obtain ⟨hrest, hten, hloss'⟩ := hr
      refine ⟨.found (sync ++ rest) ch'', ⟨junk.length, hfirst, ?_, ?_, ?_, hloss'⟩,
        hreturns.bind (hreturns'.bind (.pure _))⟩
      · rw [hs, hrest]
        simp only [length_append, sync, length_cons, length_nil]
        omega
      · rw [hs, drop_left, hrest, ← append_assoc, take_left' (by simp [sync, hten])]
      · rw [hs, hrest, ← append_assoc sync, ← append_assoc, drop_left' (by simp [sync, hten])]

/-- A stream with `RTCP` in it has a first one. -/
theorem SyncAt.exists_firstSync (h : SyncAt s i) : ∃ j ≤ i, FirstSync s j := by
  induction i using Nat.strong_induction_on with
  | _ i ih =>
    by_cases hearlier : ∃ j < i, SyncAt s j
    · obtain ⟨j, hlt, hj⟩ := hearlier
      obtain ⟨k, hk, hfirst⟩ := ih j hlt hj
      exact ⟨k, by omega, hfirst⟩
    · exact ⟨i, Nat.le_refl i, h, fun j hlt hj => hearlier ⟨j, hlt, hj⟩⟩

/-- However the bytes arrive, `receive_header` returns, and it finds a header exactly if `RTCP`
with ten more bytes is in the stream: the fourteen bytes from the first `RTCP` on. -/
theorem receiveHeader_resynchronises (ch : Channel) :
    ∃ r, Returns (fun fuel => receiveHeader fuel ch) r ∧
      ((∃ header ch', r = .found header ch') ↔
        ∃ i, SyncAt ch.stream i ∧ i + 14 ≤ ch.stream.length) ∧
      ∀ header ch', r = .found header ch' → ∃ i, FirstSync ch.stream i ∧ header =
        (ch.stream.drop i).take 14 ∧ header.length = 14 ∧ ch'.stream = ch.stream.drop (i + 14) := by
  obtain ⟨r, hr, hreturns⟩ := receiveHeader_returns ch
  refine ⟨r, hreturns, ?_⟩
  cases r with
  | found header ch' =>
    obtain ⟨i, hfirst, hlen, hheader, hrest, -⟩ := hr
    refine ⟨⟨fun _ => ⟨i, hfirst.sync, hlen⟩, fun _ => ⟨header, ch', rfl⟩⟩, ?_⟩
    rintro _ _ ⟨⟩
    refine ⟨i, hfirst, hheader, ?_, hrest⟩
    rw [hheader, length_take, length_drop]
    omega
  | failed ec ch' =>
    refine ⟨⟨by simp, ?_⟩, by simp⟩
    rintro ⟨i, hi, hlen⟩
    obtain ⟨j, hle, hfirst⟩ := hi.exists_firstSync
    have hshort := hr.1 j hfirst
    omega

/-- The loop around `receive_header` does not go round again. -/
theorem findHeader_returns (ch : Channel) :
    ∃ r, HeaderSpec ch.stream ch.loss r ∧ Returns (fun fuel => findHeader fuel ch) r := by
  obtain ⟨r, hr, ⟨n, hn⟩, hunique⟩ := receiveHeader_returns ch
  have hstep : ∀ fuel, receiveHeader fuel ch = some r → findHeader (fuel + 1) ch = some r := by
    intro fuel h
    rw [findHeader, h]
    cases r with
    | found header ch' => rfl
    | failed ec ch' =>
      change (if _ then _ else _) = _
      rw [if_neg]
      · rfl
      · rintro ⟨hec, hstatus⟩
        rcases hr.2 with h | h
        · simp [hec] at h
        · simp [hstatus] at h
  refine ⟨r, hr, ⟨n + 1, fun fuel hlt => ?_⟩, fun fuel r' h => ?_⟩
  · obtain ⟨k, rfl⟩ := Nat.exists_eq_add_of_lt hlt
    exact hstep _ (hn _ (by omega))
  · cases fuel with
    | zero => cases h
    | succ fuel =>
      rcases hread : receiveHeader fuel ch with _ | r0
      · rw [findHeader, hread] at h
        cases h
      · obtain rfl := hunique fuel r0 hread
        exact some.inj (h.symm.trans (hstep fuel hread))

end Header

section Drop

variable {capacity : Nat}

def nextBlock (capacity toRead : Nat) : Nat := if capacity ≤ toRead then capacity else toRead

variable {toRead : Nat} {ch : Channel}

lemma dropStep_eq {readBlock : Nat} (hblock : 0 < readBlock) :
    dropStep capacity (toRead, readBlock, ch) =
      .inl (toRead - (ch.read readBlock).1.length,
        nextBlock capacity (toRead - (ch.read readBlock).1.length), (ch.read readBlock).2.2) := by
  rw [dropStep, if_pos hblock]
  rfl

lemma nextBlock_pos (hcapacity : 0 < capacity) (h : 0 < toRead) :
    0 < nextBlock capacity toRead := by
  rw [nextBlock]
  split_ifs <;> omega

/-- A message that is there is dropped as a whole: every read takes something as long as the stream
has something, so the loop comes to its end. -/
theorem drop_returns (hcapacity : 0 < capacity) (henough : toRead ≤ ch.stream.length) :
    ∃ ch', ch'.stream = ch.stream.drop toRead ∧
      Returns (fun fuel => runLoop (dropStep capacity) fuel (toRead, nextBlock capacity toRead, ch))
        ch' := by
  refine runLoop_returns (fun s => s.2.1 = nextBlock capacity s.1 ∧ s.1 ≤ s.2.2.stream.length ∧
      s.2.2.stream.drop s.1 = ch.stream.drop toRead) _ (fun state => state.2.2.size) ?_
    ⟨rfl, henough, rfl⟩
  rintro ⟨t, b, c⟩ ⟨hb, hle, hdrop⟩
  obtain rfl : b = nextBlock capacity t := hb
  dsimp only at hle hdrop
  by_cases ht : 0 < t
  · have hblock := nextBlock_pos hcapacity ht
    have hbound : nextBlock capacity t ≤ t := by
      rw [nextBlock]
      split_ifs <;> omega
    have hmore : c.segments ≠ [] := Channel.segments_ne_nil _ (length_pos_iff.1 (by omega))
    have hstream := Channel.read_stream c (nextBlock capacity t)
    have hread := Channel.length_read_le c (nextBlock capacity t)
    have hsize := (Channel.read_of_segments _ _ hmore hblock).2.2
    refine .inl ⟨_, dropStep_eq hblock, ⟨rfl, ?_, ?_⟩, hsize⟩
    · rw [← hstream, length_append] at hle
      dsimp only
      omega
    · have hall : (c.read (nextBlock capacity t)).1.drop t = [] :=
        drop_of_length_le (by omega)
      rw [← hdrop, ← hstream, drop_append, hall, nil_append]
  · have hzero : t = 0 := by omega
    subst hzero
    refine .inr ⟨c, ?_, hdrop⟩
    rw [dropStep, if_neg]
    rw [nextBlock]
    split_ifs <;> omega

/-- A message that is cut off keeps the loop going for ever: a read that fails takes nothing from
what is still to be dropped. -/
theorem drop_diverges (hcapacity : 0 < capacity) (hshort : ch.stream.length < toRead) :
    Diverges fun fuel => runLoop (dropStep capacity) fuel (toRead, nextBlock capacity toRead,
      ch) := by
  refine runLoop_diverges (fun s => s.2.1 = nextBlock capacity s.1 ∧ s.2.2.stream.length < s.1) ?_
    ⟨rfl, hshort⟩
  rintro ⟨t, b, c⟩ ⟨hb, hlt⟩
  obtain rfl : b = nextBlock capacity t := hb
  have hstream := Channel.read_stream c (nextBlock capacity t)
  refine ⟨_, dropStep_eq (nextBlock_pos hcapacity (by omega)), rfl, ?_⟩
  rw [← hstream, length_append] at hlt
  dsimp only
  omega

lemma drop_zero (toRead : Nat) (ch : Channel) :
    Returns (fun fuel => runLoop (dropStep 0) fuel (toRead, nextBlock 0 toRead, ch)) ch := by
  have hstep : ∀ s, s = (toRead, 0, ch) → (∃ s', dropStep 0 s = .inl s' ∧ s' = (toRead, 0, ch) ∧
    0 < 0) ∨
      ∃ c, dropStep 0 s = .inr c ∧ c = ch := fun s hs => .inr ⟨ch, hs ▸ rfl, rfl⟩
  obtain ⟨ch', rfl, hreturns⟩ := runLoop_returns (· = (toRead, 0, ch)) (· = ch)
    (fun _ => 0) hstep rfl
  exact hreturns

end Drop

section Receive

variable {capacity : Nat} {msgEndian : Endianness} {ch : Channel}

/-- `Receive` returns, and when it drops a message it has read all of it. -/
def ReceivesFrames (capacity : Nat) (msgEndian : Endianness) (ch : Channel) : Prop :=
  (∃ fuel, (receive fuel capacity msgEndian ch).isSome = true) ∧
    ∀ fuel ch', receive fuel capacity msgEndian ch = some (.dropped, ch') →
      ∀ i, FirstSync ch.stream i →
        let size := bodySize msgEndian ((ch.stream.drop i).take 14)
        i + 14 + size ≤ ch.stream.length ∧ ch'.stream = ch.stream.drop (i + 14 + size)

lemma ReceivesFrames.of_returns {r : Outcome × Channel}
    (h : Returns (fun fuel => receive fuel capacity msgEndian ch) r)
    (hdropped : r.1 = .dropped → ∀ i, FirstSync ch.stream i →
      let size := bodySize msgEndian ((ch.stream.drop i).take 14)
      i + 14 + size ≤ ch.stream.length ∧ r.2.stream = ch.stream.drop (i + 14 + size)) :
    ReceivesFrames capacity msgEndian ch := by
  obtain ⟨⟨n, hn⟩, hunique⟩ := h
  refine ⟨⟨n + 1, by rw [hn _ (Nat.lt_succ_self n)]; rfl⟩, fun fuel ch' hrun => ?_⟩
  obtain rfl := hunique fuel _ hrun
  exact hdropped rfl

lemma ReceivesFrames.not_diverges (h : ReceivesFrames capacity msgEndian ch) :
    ¬ Diverges fun fuel => receive fuel capacity msgEndian ch := by
  intro hnever
  obtain ⟨fuel, hsome⟩ := h.1
  obtain ⟨r, hr⟩ := isSome_iff_exists.1 hsome
  cases hr.symm.trans (hnever fuel)

lemma readMessage_ne_dropped (msgEndian : Endianness) (header : List UInt8) (ch : Channel) :
    (readMessage msgEndian header ch).1 ≠ .dropped := by
  simp only [readMessage]
  split_ifs <;> simp

variable {header : List UInt8} (hstatus : ch.connectionStatus = true)
include hstatus

lemma receiveBody_of_le (hle : bodySize msgEndian header ≤ capacity) (fuel : Nat) :
    receiveBody fuel capacity msgEndian header ch = some (readMessage msgEndian header ch) := by
  rw [receiveBody, if_neg (by simp [hstatus])]
  exact if_neg (not_lt.2 hle)

lemma receiveBody_of_lt (hlt : capacity < bodySize msgEndian header) (fuel : Nat) :
    receiveBody fuel capacity msgEndian header ch =
      (runLoop (dropStep capacity) fuel (bodySize msgEndian header,
        nextBlock capacity (bodySize msgEndian header), ch)).bind fun ch =>
          some (.dropped, ch) := by
  have hblock : nextBlock capacity (bodySize msgEndian header) = capacity := if_pos hlt.le
  rw [receiveBody, if_neg (by simp [hstatus]), hblock]
  exact if_pos hlt

/-- Without a buffer no byte of the body is skipped. -/
theorem receiveBody_of_zero (hlt : 0 < bodySize msgEndian header) :
    Returns (fun fuel => receiveBody fuel 0 msgEndian header ch) (.dropped, ch) := by
  simp only [receiveBody_of_lt hstatus hlt]
  exact (drop_zero _ ch).bind (.pure _)

lemma receiveBody_returns (hlt : capacity < bodySize msgEndian header) (hpos : 0 < capacity)
    (henough : bodySize msgEndian header ≤ ch.stream.length) :
    ∃ ch', ch'.stream = ch.stream.drop (bodySize msgEndian header) ∧
      Returns (fun fuel => receiveBody fuel capacity msgEndian header ch) (.dropped, ch') := by
  simp only [receiveBody_of_lt hstatus hlt]
  obtain ⟨ch', hstream, hreturns⟩ := drop_returns hpos henough
  exact ⟨ch', hstream, hreturns.bind (.pure _)⟩

lemma receiveBody_diverges (hlt : capacity < bodySize msgEndian header) (hpos : 0 < capacity)
    (hshort : ch.stream.length < bodySize msgEndian header) :
    Diverges fun fuel => receiveBody fuel capacity msgEndian header ch := by
  simp only [receiveBody_of_lt hstatus hlt]
  exact fun fuel => congrArg (Option.bind · _) (drop_diverges hpos hshort fuel)

omit hstatus

variable {ch' : Channel}

lemma receive_returns {r : Outcome × Channel}
    (hreturns : Returns (fun fuel => findHeader fuel ch) (.found header ch'))
    (hbody : Returns (fun fuel => receiveBody fuel capacity msgEndian header ch') r) :
    Returns (fun fuel => receive fuel capacity msgEndian ch) r :=
  Returns.bind (g := fun r fuel => receiveFrom fuel capacity msgEndian r) hreturns hbody

lemma receive_diverges (hreturns : Returns (fun fuel => findHeader fuel ch) (.found header ch'))
    (hbody : Diverges fun fuel => receiveBody fuel capacity msgEndian header ch') :
    Diverges fun fuel => receive fuel capacity msgEndian ch :=
  Diverges.bind (g := fun r fuel => receiveFrom fuel capacity msgEndian r) hreturns hbody

lemma receivesFrames_of_found (hi : FirstSync ch.stream i)
    (hlen : i + 14 ≤ ch.stream.length) (hstream : ch'.stream = ch.stream.drop (i + 14))
    (hheader : header = (ch.stream.drop i).take 14)
    (hreturns : Returns (fun fuel => findHeader fuel ch) (.found header ch')) :
    ReceivesFrames capacity msgEndian ch ↔ (ch'.connectionStatus = true →
      bodySize msgEndian header ≤ capacity ∨
        0 < capacity ∧ bodySize msgEndian header ≤ ch'.stream.length) := by
  have hlength : ch'.stream.length = ch.stream.length - (i + 14) := by rw [hstream, length_drop]
  have hplace : ∀ j, FirstSync ch.stream j → j = i ∧ (ch.stream.drop j).take 14 = header := by
    intro j hj
    obtain rfl := hj.unique hi
    exact ⟨rfl, hheader.symm⟩
  cases hstatus : ch'.connectionStatus with
  | false =>
    have hbody : Returns (fun fuel => receiveBody fuel capacity msgEndian header ch')
        (.disconnected, ch') := by
      simp only [receiveBody, if_pos hstatus]
      exact .pure _
    exact ⟨fun _ h => Bool.noConfusion h, fun _ => .of_returns (receive_returns hreturns hbody)
      (by simp)⟩
  | true =>
    simp only [forall_const]
    by_cases hle : bodySize msgEndian header ≤ capacity
    · have hbody : Returns (fun fuel => receiveBody fuel capacity msgEndian header ch')
          (readMessage msgEndian header ch') := by
        simp only [receiveBody_of_le hstatus hle]
        exact .pure _
      exact ⟨fun _ => .inl hle, fun _ => .of_returns (receive_returns hreturns hbody)
        fun h => absurd h (readMessage_ne_dropped _ _ _)⟩
    have hlt := not_le.1 hle
    rcases Nat.eq_zero_or_pos capacity with rfl | hpos
    · obtain ⟨n, hn⟩ := (receive_returns hreturns (receiveBody_of_zero hstatus hlt)).enough
      refine ⟨fun h => ?_, fun h => by omega⟩
      obtain ⟨hend, hrest⟩ := h.2 _ ch' (hn (n + 1) (Nat.lt_succ_self n)) i hi
      rw [← hheader] at hend hrest
      have hrest' := congrArg List.length hrest
      rw [hlength, length_drop] at hrest'
      omega
    · by_cases henough : bodySize msgEndian header ≤ ch'.stream.length
      · obtain ⟨ch'', hdropped, hbody⟩ := receiveBody_returns hstatus hlt hpos henough
        refine ⟨fun _ => .inr ⟨hpos, henough⟩, fun _ =>
          .of_returns (receive_returns hreturns hbody) ?_⟩
        intro _ j hj
        obtain ⟨rfl, hsame⟩ := hplace j hj
        rw [hsame]
        refine ⟨by omega, ?_⟩
        rw [hdropped, hstream, drop_drop]
      · have hnever := receive_diverges hreturns
          (receiveBody_diverges hstatus hlt hpos (not_le.1 henough))
        exact ⟨fun h => absurd hnever h.not_diverges, fun h => by omega⟩

/-- Reception returns and stays aligned exactly if no message that is larger than the buffer is cut
off, and the buffer has a size. -/
theorem receives_frames_iff (capacity : Nat) (msgEndian : Endianness) (ch : Channel) :
    ReceivesFrames capacity msgEndian ch ↔
      ∀ i, FirstSync ch.stream i → i + 14 ≤ ch.stream.length →
        i + 14 < ch.stream.length ∨ ch.loss ≠ .disconnected →
        let size := bodySize msgEndian ((ch.stream.drop i).take 14)
        size ≤ capacity ∨ 0 < capacity ∧ i + 14 + size ≤ ch.stream.length := by
  obtain ⟨r, hr, hreturns⟩ := findHeader_returns ch
  cases r with
  | failed ec ch' =>
    refine ⟨fun _ i hi hlen => absurd (hr.1 i hi) (by omega), fun _ => ?_⟩
    cases ec with
    | true => exact .of_returns (hreturns.bind (.pure (Outcome.headerError, ch'))) (by simp)
    | false => exact .of_returns (hreturns.bind (.pure (Outcome.disconnected, ch'))) (by simp)
  | found header ch' =>
    obtain ⟨i, hi, hlen, hheader, hstream, hloss⟩ := hr
    have hlength : ch'.stream.length = ch.stream.length - (i + 14) := by rw [hstream, length_drop]
    have hstatus : ch'.connectionStatus = true ↔
        i + 14 < ch.stream.length ∨ ch.loss ≠ .disconnected := by
      rw [← not_iff_not, Bool.not_eq_true, Channel.connectionStatus_eq_false_iff, hloss,
        ← length_eq_zero_iff, hlength, not_or, not_not]
      refine and_congr ?_ Iff.rfl
      omega
    rw [receivesFrames_of_found hi hlen hstream hheader hreturns, hstatus]
    constructor
    · rintro h j hj - hmore
      obtain rfl := hj.unique hi
      rw [← hheader]
      exact (h hmore).imp id (And.imp id (by omega))
    · intro h hmore
      have hsize := h i hi hlen hmore
      rw [← hheader] at hsize
      exact hsize.imp id (And.imp id (by omega))

def cutOff : Channel := ⟨[sync ++ [100, 0, 0, 0, 0, 0, 0, 0, 1, 0]], .error⟩

/-- The rest of a message is waited for although no read can succeed any more. -/
theorem cut_off_never_received :
    ¬ ReceivesFrames 16 .littleend cutOff ∧ ∀ fuel, receive fuel 16 .littleend cutOff = none := by
  obtain ⟨r, -, hreturns⟩ := findHeader_returns cutOff
  have hfound : Returns (fun fuel => findHeader fuel cutOff)
      (.found (sync ++ [100, 0, 0, 0, 0, 0, 0, 0, 1, 0]) ⟨[], .error⟩) :=
    hreturns.of_run 5 rfl
  have hnever : Diverges fun fuel => receive fuel 16 .littleend cutOff :=
    receive_diverges hfound (receiveBody_diverges rfl (by decide) (by decide) (by decide))
  exact ⟨fun h => h.not_diverges hnever, hnever⟩

end Receive

end EasyDds.Rtps
