import EasyDds.Rtps.SharedMem.Concurrent

/-!
What holds in every interleaving of the producers and listeners of a ring buffer.
-/

namespace EasyDds.Rtps.SharedMem

open List Option

variable {T : Type} {n h i j k : Nat} {s : Concurrent T} {held held' : Nat → Prop}

def Producer.Fits (b : RingBuffer T) (log : List T) : Producer T → Prop
  | .started _ | .returned _ | .full => True
  | .loading _ | .trying _ _ _ => b.registeredListeners ≠ 0
  | .reserved x w j | .writing x w j => w = pointerOf b.totalCells j ∧ log[j]? = some x
  | .storing x w j => w = pointerOf b.totalCells j ∧ log[j]? = some x ∧
    (b.cells (j % b.totalCells)).data = some x

/-- What a listener relies on between its steps, `pos` being the first place it has not popped. -/
def Phase.Fits (log : List T) (reserved : Nat → Prop) (pos : Nat) : Phase T → Prop
  | .idle | .loading | .freeing _ _ | .advancing => True
  | .checking => pos < log.length
  | .reading => pos < log.length ∧ ¬reserved pos
  | .popping x | .popChecking x | .subtracting x =>
    pos < log.length ∧ ¬reserved pos ∧ x = log[pos]?
  | .failed => False

structure Consumer.Fits (n : Nat) (log : List T) (reserved : Nat → Prop) (l : Consumer T) :
    Prop where
  pointer : ∃ r, l.readP = pointerOf n r ∧ l.position = r + if l.phase.popped then 1 else 0
  obtained : l.obtained <+: (log.drop l.since).map some
  phase : l.phase.Fits log reserved l.position

namespace Phase

variable {log : List T} {pos : Nat} {phase : Phase T}

lemma Fits.mono (hp : phase.Fits log held pos) (hr : held' pos → held pos) :
    phase.Fits log held' pos := by
  cases phase <;> simp only [Fits] at hp ⊢ <;> tauto

lemma Fits.append (hp : phase.Fits log held pos) (x : T) :
    phase.Fits (log ++ [x]) (fun k => held k ∨ k = log.length) pos := by
  have hget (hlt : pos < log.length) : (log ++ [x])[pos]? = log[pos]? :=
    getElem?_append_left hlt
  have hfresh (hlt : pos < log.length) (hr : ¬held pos) : ¬(held pos ∨ pos = log.length) :=
    fun h => h.elim hr (by omega)
  cases phase with
  | idle | loading | freeing | advancing => trivial
  | checking =>
    simp only [Fits, length_append] at hp ⊢
    omega
  | reading =>
    have hlt : pos < (log ++ [x]).length := by have := hp.1; simp; omega
    exact ⟨hlt, hfresh hp.1 hp.2⟩
  | popping d | popChecking d | subtracting d =>
    have hlt : pos < (log ++ [x]).length := by have := hp.1; simp; omega
    exact ⟨hlt, hfresh hp.1 hp.2.1, hp.2.2.trans (hget hp.1).symm⟩
  | failed => exact hp

end Phase

namespace Concurrent

def cursors (s : Concurrent T) : Cursors := s.listeners.map (·.map (·.position))

/-- The number of cells that nobody has to read and that are not counted as free. -/
def owed (s : Concurrent T) : Nat := s.listeners.countP (·.any (·.phase.owes))

def places (s : Concurrent T) : List (Option Nat) := s.producers.map (·.place)

def reserved (s : Concurrent T) (k : Nat) : Prop := some k ∈ s.places

def Distinct (ps : List (Option Nat)) : Prop :=
  ∀ i j k : Nat, ps[i]? = some (some k) → ps[j]? = some (some k) → i = j

/-- What holds between the steps. A cell that is not yet counted as free is the one before the
oldest entry, and there is at most one. -/
structure Inv (n : Nat) (s : Concurrent T) (h : Nat) : Prop where
  total : s.buffer.totalCells = n
  ledger : Ledger s.buffer s.cursors s.pushed h s.owed s.reserved
  debtor : ∀ i l, s.listener i = some l → l.phase.owes → l.position = h
  single : s.owed ≤ 1
  distinct : Distinct s.places
  producers : ∀ q ∈ s.producers, q.Fits s.buffer s.pushed
  consumers : ∀ i l, s.listener i = some l → l.Fits n s.pushed s.reserved

variable {l l' : Consumer T} {q q' : Producer T} {b : RingBuffer T}

lemma cursors_get (hl : s.listener i = some l) : s.cursors[i]? = some (some l.position) :=
  Slots.map_get (fun l : Consumer T => l.position) hl

lemma places_get (hq : s.producers[i]? = some q) : s.places[i]? = some q.place := by
  rw [places, getElem?_map, hq, map_some]

lemma reserved_of_place (hq : s.producers[i]? = some q) (hplace : q.place = some k) :
    s.reserved k := by
  rw [reserved, ← hplace]
  exact mem_of_getElem? (places_get hq)

def withListener (s : Concurrent T) (b : RingBuffer T) (i : Nat) (l : Consumer T) : Concurrent T :=
  { s with buffer := b, listeners := s.listeners.set i (some l) }

lemma listener_withListener (hl : (s.withListener b i l').listener k = some l) :
    (k = i ∧ l = l') ∨ (k ≠ i ∧ s.listener k = some l) :=
  (Slots.occupant_set hl).imp_left fun h => ⟨h.1, (some.inj h.2).symm⟩

lemma cursors_withListener :
    (s.withListener b i l').cursors = s.cursors.set i (some l'.position) := map_set

lemma owed_withListener (hl : s.listener i = some l) : (s.withListener b i l').owed =
      s.owed - (if l.phase.owes then 1 else 0) + if l'.phase.owes then 1 else 0 := by
  obtain ⟨hlt, hget⟩ := List.getElem?_eq_some_iff.1 (Slots.occupant_eq_some.1 hl)
  simp [owed, withListener, countP_set hlt, hget]

lemma owed_pos (hl : s.listener i = some l) (howes : l.phase.owes) : 0 < s.owed :=
  countP_pos_iff.2 ⟨some l, Slots.mem_of_occupant hl, by simpa using howes⟩

lemma exists_of_owed (hpos : 0 < s.owed) : ∃ i l, s.listener i = some l ∧ l.phase.owes := by
  obtain ⟨o, ho, hany⟩ := countP_pos_iff.1 hpos
  cases o with
  | none => simp at hany
  | some l =>
    obtain ⟨i, hi⟩ := Slots.exists_occupant ho
    exact ⟨i, l, hi, by simpa using hany⟩

def withProducer (s : Concurrent T) (b : RingBuffer T) (pushed : List T) (i : Nat)
    (q : Producer T) : Concurrent T :=
  { s with buffer := b, pushed := pushed, producers := s.producers.set i q }

lemma places_withProducer {pushed : List T} :
    (s.withProducer b pushed i q').places = s.places.set i q'.place := map_set

lemma reserved_eq : s.reserved = fun k => some k ∈ s.places := rfl

variable {ps : List (Option Nat)}

lemma mem_set_none {p : Nat} (hi : ps[i]? = some (some p)) (hdistinct : Distinct ps) :
    some k ∈ ps.set i none ↔ some k ∈ ps ∧ k ≠ p := by
  constructor
  · intro hk
    obtain ⟨m, hm⟩ := mem_iff_getElem?.1 hk
    have hne : i ≠ m := by
      rintro rfl
      rw [List.getElem?_set_self (List.getElem?_eq_some_iff.1 hi).1] at hm
      cases hm
    rw [getElem?_set_ne hne] at hm
    refine ⟨mem_of_getElem? hm, ?_⟩
    rintro rfl
    exact hne (hdistinct i m k hi hm)
  · rintro ⟨hk, hne⟩
    exact Cursors.mem_set_of_ne hi hk hne

lemma mem_set_some {p : Nat} (hi : ps[i]? = some none) :
    some k ∈ ps.set i (some p) ↔ some k ∈ ps ∨ k = p := by
  constructor
  · intro hk
    rcases mem_or_eq_of_mem_set hk with hk | hk
    · exact .inl hk
    · exact .inr (some.inj hk)
  · rintro (hk | rfl)
    · obtain ⟨m, hm⟩ := mem_iff_getElem?.1 hk
      have hne : i ≠ m := by
        rintro rfl
        cases hi.symm.trans hm
      exact mem_iff_getElem?.2 ⟨m, by rw [getElem?_set_ne hne, hm]⟩
    · exact List.mem_set (List.getElem?_eq_some_iff.1 hi).1 _

lemma Distinct.set (hdistinct : Distinct ps) {o : Option Nat}
    (hfresh : ∀ k, o = some k → some k ∉ ps) : Distinct (ps.set i o) := by
  have hold : ∀ a k : Nat, (ps.set i o)[a]? = some (some k) →
      (a = i ∧ o = some k) ∨ ps[a]? = some (some k) := by
    intro a k ha
    by_cases hai : i = a
    · subst hai
      have hlt := (List.getElem?_eq_some_iff.1 ha).1
      rw [length_set] at hlt
      rw [getElem?_set_self hlt] at ha
      exact .inl ⟨rfl, some.inj ha⟩
    · rw [getElem?_set_ne hai] at ha
      exact .inr ha
  intro a c k ha hc
  rcases hold a k ha with ⟨rfl, ha'⟩ | ha'
  · rcases hold c k hc with ⟨rfl, -⟩ | hc'
    · rfl
    · exact absurd (mem_of_getElem? hc') (hfresh k ha')
  · rcases hold c k hc with ⟨-, hc'⟩ | hc'
    · exact absurd (mem_of_getElem? ha') (hfresh k hc')
    · exact hdistinct a c k ha' hc'

lemma fits_of_mem {log : List T} {m : Producer T} (hm : m ∈ s.producers.set i q')
    (hothers : ∀ k m, k ≠ i → s.producers[k]? = some m → m.Fits b log) (hfits : q'.Fits b log) :
    m.Fits b log := by
  obtain ⟨k, hk⟩ := mem_iff_getElem?.1 hm
  by_cases hki : k = i
  · subst hki
    have hlt : k < s.producers.length := by
      have := (List.getElem?_eq_some_iff.1 hk).1
      rwa [length_set] at this
    rw [getElem?_set_self hlt] at hk
    exact some.inj hk ▸ hfits
  · rw [getElem?_set_ne (Ne.symm hki)] at hk
    exact hothers k m hki hk

namespace Inv

section Listeners

variable (hs : Inv n s h) (hl : s.listener i = some l)
include hs hl

omit hl in
lemma listen {b' : RingBuffer T} {h' : Nat} (htotal : b'.totalCells = n)
    (hledger : Ledger b' (s.withListener b' i l').cursors s.pushed h' (s.withListener b' i l').owed
      s.reserved)
    (hdebtor : l'.phase.owes → l'.position = h')
    (hothers : ∀ k m, k ≠ i → s.listener k = some m → m.phase.owes → m.position = h')
    (hsingle : (s.withListener b' i l').owed ≤ 1) (hproducers : ∀ q ∈ s.producers,
      q.Fits b' s.pushed)
    (hfits : l'.Fits n s.pushed s.reserved) : Inv n (s.withListener b' i l') h' := by
  refine ⟨htotal, hledger, fun k m hm howes => ?_, hsingle, hs.distinct, hproducers,
    fun k m hm => ?_⟩
  · rcases listener_withListener hm with ⟨-, rfl⟩ | ⟨hne, hm⟩
    · exact hdebtor howes
    · exact hothers k m hne hm howes
  · rcases listener_withListener hm with ⟨-, rfl⟩ | ⟨-, hm⟩
    · exact hfits
    · exact hs.consumers k m hm

omit hs in
lemma cursors_set (hposition : l'.position = l.position) :
    (s.withListener b i l').cursors = s.cursors := by
  obtain ⟨hlt, hget⟩ := List.getElem?_eq_some_iff.1 (cursors_get hl)
  rw [cursors_withListener, hposition, ← hget, set_getElem_self]

omit hl in
lemma fits_setCounter (hq : q ∈ s.producers) (cell counter : Nat) :
    q.Fits (s.buffer.setCounter cell counter) s.pushed := by
  have hq' := hs.producers q hq
  cases q with
  | storing x w j => exact ⟨hq'.1, hq'.2.1, (RingBuffer.data_setCounter ..).trans hq'.2.2⟩
  | _ => exact hq'

lemma quiet (hposition : l'.position = l.position) (howes : l'.phase.owes = l.phase.owes)
    (hfits : l'.Fits n s.pushed s.reserved) : Inv n (s.withListener s.buffer i l') h := by
  have howed : (s.withListener s.buffer i l').owed = s.owed := by
    rw [owed_withListener hl, howes]
    have hpos := @owed_pos _ _ _ _ hl
    split
    · have := hpos (by assumption)
      omega
    · rfl
  refine hs.listen hs.total ?_ (fun hm => ?_) (fun k m _ => hs.debtor k m) (howed.symm ▸ hs.single)
    hs.producers hfits
  · rw [cursors_set hl hposition, howed]
    exact hs.ledger
  · exact hposition.trans (hs.debtor i l hl (howes ▸ hm))

lemma enter {old phase : Phase T} (hphase : l.phase = old) (hpopped : phase.popped = old.popped)
    (howes : phase.owes = old.owes) (hready : phase.Fits s.pushed s.reserved l.position) :
    Inv n (s.withListener s.buffer i { l with phase := phase }) h := by
  subst hphase
  have hfits := hs.consumers i l hl
  exact hs.quiet hl rfl howes ⟨hpopped ▸ hfits.pointer, hfits.obtained, hready⟩

lemma subtract {x : Option T} (hphase : l.phase = .subtracting x) (spurious : Bool) :
    ∃ h', Inv n (s.withListener (l.step s.buffer spurious).1 i (l.step s.buffer spurious).2)
      h' := by
  have hfits := hs.consumers i l hl
  obtain ⟨r, hpointer, hposition⟩ := hfits.pointer
  have hready := hfits.phase
  rw [hphase] at hposition hready
  obtain ⟨hlt, hstored, hx⟩ := hready
  have hr : r = l.position := by simpa [Phase.popped] using hposition.symm
  have hmem := Cursors.mem_of_get (cursors_get hl)
  have hcell : getPointerValue l.readP = l.position % s.buffer.totalCells := by
    rw [hpointer, hr, ← hs.total, getPointerValue_pointerOf hs.ledger.positive hs.ledger.max]
  have hcounter : (s.buffer.cells (l.position % s.buffer.totalCells)).refCounter =
      s.cursors.behind l.position := by rw [hs.ledger.stored_cell hmem hlt hstored]
  have hsubtract := hs.ledger.subtract (cursors_get hl) hlt hstored
  have hobtained : l.obtained ++ [x] <+: (s.pushed.drop l.since).map some := by
    have hlen : l.obtained.length < ((s.pushed.drop l.since).map some).length := by
      rw [Listener.position] at hlt
      rw [length_map, length_drop]
      omega
    rw [getElem?_eq_getElem hlt] at hx
    simpa [Listener.position, hx] using concat_get_prefix hfits.obtained hlen
  simp only [Consumer.step, hphase, hcell, hcounter]
  have hposition : Listener.position ⟨l.readP, l.since, l.obtained ++ [x]⟩ = l.position + 1 := by
    simp [Listener.position, Nat.add_assoc]
  have hnext : ∀ phase : Phase T, phase.popped → phase.Fits s.pushed s.reserved (l.position + 1) →
      Consumer.Fits n s.pushed s.reserved ⟨⟨l.readP, l.since, l.obtained ++ [x]⟩, phase⟩ := by
    intro phase hpopped hready
    refine ⟨⟨l.position, hr ▸ hpointer, ?_⟩, hobtained, ?_⟩
    · simp [hpopped, hposition]
    · rwa [hposition]
  by_cases hone : s.cursors.behind l.position = 1
  · -- nobody else owes a cell: it would be at this place too
    rw [if_pos hone] at hsubtract
    have hnone : ∀ k m, k ≠ i → s.listener k = some m → ¬m.phase.owes := by
      intro k m hne hm howes
      have hplace := hs.debtor k m hm howes
      refine Cursors.ne_one_of_two (cursors_get hl) ?_ hne hone
      rw [cursors_get hm, hplace, hsubtract.1]
    have hzero : s.owed = 0 := by
      by_contra hpos
      obtain ⟨k, m, hm, howes⟩ := exists_of_owed (Nat.pos_of_ne_zero hpos)
      by_cases hk : k = i
      · subst hk
        rw [some.inj (hm.symm.trans hl), hphase] at howes
        cases howes
      · exact hnone k m hk hm howes
    rw [if_pos hone]
    refine ⟨l.position + 1, hs.listen hs.total ?_ (fun _ => hposition)
      (fun k m hk hm howes => absurd howes (hnone k m hk hm)) ?_
      (fun _ hq => hs.fits_setCounter hq ..) (hnext _ rfl trivial)⟩
    · rw [cursors_withListener, owed_withListener hl, hphase, hposition]
      exact hsubtract.2
    · rw [owed_withListener hl, hphase, hzero]
      rfl
  · rw [if_neg hone] at hsubtract
    rw [if_neg hone]
    refine ⟨h, hs.listen hs.total ?_ (by simp [Phase.owes]) (fun k m _ => hs.debtor k m) ?_
      (fun _ hq => hs.fits_setCounter hq ..) (hnext _ rfl trivial)⟩
    · rw [cursors_withListener, owed_withListener hl, hphase, hposition]
      exact hsubtract
    · rw [owed_withListener hl, hphase]
      exact hs.single

lemma release (howes : l.phase.owes) :
    Inv n (s.withListener s.buffer.release i { l with phase := .advancing }) h := by
  have hfits := hs.consumers i l hl
  have hpos := owed_pos hl howes
  have hsingle := hs.single
  have hpopped : l.phase.popped := by cases hphase : l.phase <;> simp_all [Phase.owes, Phase.popped]
  have howed : (s.withListener s.buffer.release i { l with phase := .advancing }).owed = 0 := by
    rw [owed_withListener hl, if_pos howes]
    exact (Nat.sub_eq_zero_of_le hsingle :)
  refine hs.listen hs.total ?_ nofun (fun k m _ => hs.debtor k m) (by omega) (fun q hq => ?_) ?_
  · have hledger := hs.ledger
    rw [show s.owed = 0 + 1 by omega] at hledger
    rw [cursors_set hl (by rfl), howed]
    exact hledger.release
  · have := hs.producers q hq
    cases q <;> exact this
  · have hpointer := hfits.pointer
    rw [hpopped] at hpointer
    exact ⟨hpointer, hfits.obtained, trivial⟩

lemma listener_step (spurious : Bool) :
    ∃ h', Inv n (s.withListener (l.step s.buffer spurious).1 i (l.step s.buffer spurious).2)
      h' := by
  have hfits := hs.consumers i l hl
  obtain ⟨r, hpointer, hposition⟩ := hfits.pointer
  have hready := hfits.phase
  have hmem := Cursors.mem_of_get (cursors_get hl)
  have hle := hs.ledger.bounded _ hmem
  have hcell (hr : r = l.position) :
      getPointerValue l.readP = l.position % s.buffer.totalCells := by
    rw [hpointer, hr, ← hs.total, getPointerValue_pointerOf hs.ledger.positive hs.ledger.max]
  have hempty (hr : r = l.position) : l.readP = s.buffer.writeP ↔ l.position = s.pushed.length := by
    rw [hpointer, hr, ← hs.total, hs.ledger.readP_eq_writeP hmem]
  cases hphase : l.phase with
  | idle =>
    rw [hphase] at hposition
    simp only [Consumer.step, hphase, hempty hposition.symm]
    split
    · exact ⟨h, hs.enter hl hphase rfl rfl trivial⟩
    · exact ⟨h, hs.enter hl hphase rfl rfl (by
        simp only [Phase.Fits]; omega)⟩
  | checking =>
    rw [hphase] at hposition hready
    simp only [Consumer.step, hphase, hcell hposition.symm]
    split
    · rename_i hcounter
      refine ⟨h, hs.enter hl hphase rfl rfl ⟨hready, fun hr => ?_⟩⟩
      exact hcounter (hs.ledger.pending _ hr).2.2.1
    · exact ⟨h, hs.enter hl hphase rfl rfl trivial⟩
  | reading =>
    rw [hphase] at hposition hready
    simp only [Consumer.step, hphase, hcell hposition.symm]
    refine ⟨h, hs.enter hl hphase rfl rfl ⟨hready.1, hready.2, ?_⟩⟩
    rw [hs.ledger.stored_cell hmem hready.1 hready.2, getElem?_eq_getElem hready.1]
  | popping x =>
    rw [hphase] at hposition hready
    have hlt := hready.1
    simp only [Consumer.step, hphase, hempty hposition.symm, if_neg hlt.ne]
    exact ⟨h, hs.enter hl hphase rfl rfl hready⟩
  | popChecking x =>
    rw [hphase] at hposition hready
    have hpos := Cursors.behind_pos hmem (Nat.le_refl _)
    simp only [Consumer.step, hphase, hcell hposition.symm,
      hs.ledger.stored_cell hmem hready.1 hready.2.1, if_pos hpos.ne']
    exact ⟨h, hs.enter hl hphase rfl rfl hready⟩
  | subtracting x => exact hs.subtract hl hphase spurious
  | loading =>
    simp only [Consumer.step, hphase]
    exact ⟨h, hs.enter hl hphase rfl rfl trivial⟩
  | freeing w f =>
    simp only [Consumer.step, hphase]
    split
    · exact ⟨h, hs.release hl (by rw [hphase]; rfl)⟩
    · exact ⟨h, hs.enter hl hphase rfl rfl trivial⟩
  | advancing =>
    rw [hphase] at hposition
    simp only [Consumer.step, hphase]
    refine ⟨h, hs.quiet hl rfl (by rw [hphase]; rfl) ⟨⟨r + 1, ?_, hposition⟩, hfits.obtained,
      trivial⟩⟩
    rw [hpointer, hs.total, incPointer_pointerOf] <;> rw [← hs.total]
    · exact hs.ledger.positive
    · exact hs.ledger.max
  | failed =>
    rw [hphase] at hready
    exact hready.elim

end Listeners

section Producers

variable (hs : Inv n s h) (hq : s.producers[i]? = some q)
include hs hq

omit hs in
lemma places_set (hplace : q'.place = q.place) : s.places.set i q'.place = s.places := by
  obtain ⟨hlt, hget⟩ := List.getElem?_eq_some_iff.1 (places_get hq)
  rw [hplace, ← hget, set_getElem_self]

/-- A step of a producer that keeps or does not have a reservation. -/
theorem produce (hplace : q'.place = q.place) (htotal : b.totalCells = s.buffer.totalCells)
    (hledger : Ledger b s.cursors s.pushed h s.owed s.reserved)
    (hothers : ∀ k m, k ≠ i → s.producers[k]? = some m → m.Fits b s.pushed)
    (hfits : q'.Fits b s.pushed) : Inv n (s.withProducer b s.pushed i q') h := by
  have hplaces : (s.withProducer b s.pushed i q').places = s.places := by
    rw [places_withProducer, places_set hq hplace]
  have hreserved : (s.withProducer b s.pushed i q').reserved = s.reserved := by
    rw [reserved_eq, hplaces, reserved_eq]
  refine ⟨htotal.trans hs.total, ?_, hs.debtor, hs.single, ?_, fun m hm => ?_, ?_⟩
  · rw [hreserved]
    exact hledger
  · rw [hplaces]
    exact hs.distinct
  · exact fits_of_mem hm hothers hfits
  · rw [hreserved]
    exact hs.consumers

lemma fits : q.Fits s.buffer s.pushed := hs.producers q (mem_of_getElem? hq)

lemma enterProducer (hplace : q'.place = q.place) (hfits : q'.Fits s.buffer s.pushed) :
    Inv n (s.withProducer s.buffer s.pushed i q') h :=
  hs.produce hq hplace rfl hs.ledger (fun _ _ _ hm => hs.fits hm) hfits

variable {p w : Nat} {x : T}

/-- Producers have different places. -/
theorem place_ne {m : Producer T} (hm : s.producers[k]? = some m) (hne : k ≠ i) {p' : Nat}
    (hp : q.place = some p) (hp' : m.place = some p') : p' ≠ p := by
  rintro rfl
  exact hne (hs.distinct k i p' (hp' ▸ places_get hm) (hp ▸ places_get hq))

lemma write (hreservation : q.reservation = some (x, w, p))
    (hw : w = pointerOf s.buffer.totalCells p) (data : Option T) (hplace : q'.place = q.place)
    (hfits : q'.Fits (s.buffer.setData (p % s.buffer.totalCells) data) s.pushed) :
    Inv n (s.withProducer (s.buffer.setData (getPointerValue w) data) s.pushed i q') h := by
  have hp : q.place = some p := by rw [Producer.place, hreservation, map_some]
  have hreserved := reserved_of_place hq hp
  rw [hw, getPointerValue_pointerOf hs.ledger.positive hs.ledger.max]
  refine hs.produce hq hplace rfl (hs.ledger.setData hreserved data) (fun k m hk hm => ?_) hfits
  have hm' := hs.fits hm
  cases m with
  | storing x' w' p' =>
    obtain ⟨hge, hlt, -⟩ := hs.ledger.pending p hreserved
    obtain ⟨hge', hlt', -⟩ := hs.ledger.pending p' (reserved_of_place hm rfl)
    have hnear := hs.ledger.near
    have hcell : p' % s.buffer.totalCells ≠ p % s.buffer.totalCells :=
      Ring.mod_ne hge' hge (by omega) (by omega) (hs.place_ne hq hm hk hp rfl)
    refine ⟨hm'.1, hm'.2.1, ?_⟩
    rw [RingBuffer.totalCells_setData, RingBuffer.cells_setData_of_ne hcell]
    exact hm'.2.2
  | _ => exact hm'

lemma store (hstoring : q = .storing x w p) :
    Inv n (s.withProducer (s.buffer.setCounter (getPointerValue w) s.buffer.registeredListeners)
      s.pushed i (.returned true)) h := by
  subst hstoring
  obtain ⟨hw, hx, hdata⟩ := hs.fits hq
  have hreserved : s.reserved p := reserved_of_place hq rfl
  obtain ⟨hlt, hget⟩ := List.getElem?_eq_some_iff.1 hx
  have hplace : s.places[i]? = some (some p) := places_get hq
  rw [hw, getPointerValue_pointerOf hs.ledger.positive hs.ledger.max]
  have hleft : (s.withProducer (s.buffer.setCounter (p % s.buffer.totalCells)
      s.buffer.registeredListeners) s.pushed i (.returned true)).reserved =
        fun k => s.reserved k ∧ k ≠ p := by
    funext k
    rw [reserved_eq, places_withProducer]
    exact propext (mem_set_none hplace hs.distinct)
  refine ⟨hs.total, ?_, hs.debtor, hs.single, ?_, fun m hm => ?_, fun k l hl => ?_⟩
  · rw [hleft]
    exact hs.ledger.publish hreserved hlt (by rw [hdata, hget])
  · rw [places_withProducer]
    exact hs.distinct.set nofun
  · exact fits_of_mem hm (fun _ _ _ hm => hs.fits_setCounter (mem_of_getElem? hm) ..) trivial
  · obtain ⟨hpointer, hobtained, hphase⟩ := hs.consumers k l hl
    rw [hleft]
    exact ⟨hpointer, hobtained, hphase.mono fun hr => hr.1⟩

lemma reserve {f : Nat} (htrying : q = .trying x w f) (hw : s.buffer.writeP = w)
    (hf : s.buffer.freeCells ≠ 0) : Inv n (s.withProducer s.buffer.reserve (s.pushed ++ [x]) i
      (.reserved x w s.pushed.length)) h := by
  subst htrying
  have hregistered : s.buffer.registeredListeners ≠ 0 := hs.fits hq
  rw [hs.ledger.registered] at hregistered
  have hplace : s.places[i]? = some none := places_get hq
  have hreserved : (s.withProducer s.buffer.reserve (s.pushed ++ [x]) i
      (.reserved x w s.pushed.length)).reserved = fun k => s.reserved k ∨ k = s.pushed.length := by
    funext k
    rw [reserved_eq, places_withProducer]
    exact propext (mem_set_some hplace)
  refine ⟨hs.total, ?_, hs.debtor, hs.single, ?_, fun m hm => ?_, fun k l hl => ?_⟩
  · rw [hreserved]
    exact hs.ledger.reserve (Nat.pos_of_ne_zero hregistered) hf x
  · rw [places_withProducer]
    refine hs.distinct.set fun k hk hmem => ?_
    exact (hs.ledger.pending k hmem).2.1.ne (some.inj hk).symm
  · have happend : ∀ (p : Nat) y, s.pushed[p]? = some y → (s.pushed ++ [x])[p]? = some y := by
      intro p y hp
      rw [List.getElem?_append_left (List.getElem?_eq_some_iff.1 hp).1, hp]
    have hothers : ∀ k m, k ≠ i → s.producers[k]? = some m →
        m.Fits s.buffer.reserve (s.pushed ++ [x]) := by
      intro k m _ hm
      have hm' := hs.fits hm
      cases m with
      | reserved y w' p' | writing y w' p' => exact ⟨hm'.1, happend _ _ hm'.2⟩
      | storing y w' p' => exact ⟨hm'.1, happend _ _ hm'.2.1, hm'.2.2⟩
      | _ => exact hm'
    exact fits_of_mem hm hothers ⟨hw ▸ hs.ledger.writeP, getElem?_concat_length⟩
  · obtain ⟨hpointer, hobtained, hphase⟩ := hs.consumers k l hl
    have hle := hs.ledger.bounded _ (Cursors.mem_of_get (cursors_get hl))
    rw [Listener.position] at hle
    refine ⟨hpointer, ?_, hreserved ▸ hphase.append x⟩
    change _ <+: ((s.pushed ++ [x]).drop l.since).map some
    rw [drop_append_of_le_length (by omega), map_append]
    exact hobtained.trans (prefix_append _ _)

lemma producer_step (spurious : Bool) : Inv n (s.withProducer (q.step s.buffer s.pushed spurious).1
      (q.step s.buffer s.pushed spurious).2.1 i (q.step s.buffer s.pushed spurious).2.2) h := by
  have hfits := hs.fits hq
  cases q with
  | started x =>
    rw [Producer.step]
    split
    · exact hs.enterProducer hq rfl trivial
    · exact hs.enterProducer hq rfl (by assumption)
  | loading x => exact hs.enterProducer hq rfl hfits
  | trying x w f =>
    rw [Producer.step]
    split
    · exact hs.enterProducer hq rfl trivial
    · split
      · rename_i hf hcas
        exact hs.reserve hq rfl hcas.1 (hcas.2.1 ▸ hf)
      · exact hs.enterProducer hq rfl hfits
  | reserved x w p => exact hs.write hq rfl hfits.1 none rfl hfits
  | writing x w p =>
    refine hs.write hq rfl hfits.1 (some x) rfl ⟨hfits.1, hfits.2, ?_⟩
    simp [RingBuffer.setData]
  | storing x w p => exact hs.store hq rfl
  | returned r | full => exact hs.enterProducer hq rfl trivial

end Producers

lemma call (hs : Inv n s h) (x : T) : Inv n (s.step (.call x)) h := by
  have hplaces : (s.step (.call x)).places = s.places ++ [none] := map_append
  have hreserved : (s.step (.call x)).reserved = s.reserved := by
    funext k
    rw [reserved_eq, reserved_eq, hplaces]
    simp
  refine ⟨hs.total, ?_, hs.debtor, hs.single, fun a c k ha hc => ?_, fun q hq => ?_, ?_⟩
  · rw [hreserved]
    exact hs.ledger
  · have hold : ∀ m : Nat, (s.step (.call x)).places[m]? = some (some k) →
        s.places[m]? = some (some k) := by
      intro m hm
      rw [hplaces, getElem?_append] at hm
      split at hm
      · exact hm
      · cases mem_singleton.1 (mem_of_getElem? hm)
    exact hs.distinct a c k (hold a ha) (hold c hc)
  · rcases mem_append.1 hq with hq | hq
    · exact hs.producers q hq
    · rw [mem_singleton.1 hq]
      trivial
  · rw [hreserved]
    exact hs.consumers

lemma step (s : Concurrent T) (a : Action T) (hs : ∃ h, Inv n s h) : ∃ h, Inv n (s.step a) h := by
  obtain ⟨h, hs⟩ := hs
  cases a with
  | call x => exact ⟨h, hs.call x⟩
  | producer i spurious =>
    rw [Concurrent.step]
    cases hq : s.producers[i]? with
    | none => exact ⟨h, hs⟩
    | some q => exact ⟨h, hs.producer_step hq spurious⟩
  | listener i spurious =>
    rw [Concurrent.step]
    cases hl : s.listener i with
    | none => exact ⟨h, hs⟩
    | some l => exact hs.listener_step hl spurious

lemma run (actions : List (Action T)) (hs : ∃ h, Inv n s h) :
    ∃ h, Inv n (actions.foldl Concurrent.step s) h := by
  induction actions generalizing s with
  | nil => exact hs
  | cons a actions ih => exact ih (step s a hs)

lemma start {t : Session T} (ht : Session.Inv n t) : ∃ h, Inv n (start t) h := by
  obtain ⟨h, hledger⟩ := ht.tracks
  have hcursors : (Concurrent.start t).cursors = t.cursors := by
    simp only [cursors, Concurrent.start, List.map_map, Session.cursors]
    congr
    funext o
    cases o <;> rfl
  have howed : (Concurrent.start t).owed = 0 := by
    rw [owed, countP_eq_zero]
    intro o ho
    obtain ⟨o', -, rfl⟩ := mem_map.1 ho
    cases o' <;> simp [Phase.owes]
  have hlistener : ∀ i l, (Concurrent.start t).listener i = some l →
      t.listener i = some l.toListener ∧ l.phase = .idle := by
    intro i l hl
    rw [listener, Slots.occupant_eq_some, Concurrent.start, getElem?_map] at hl
    obtain ⟨o, ho, hmap⟩ := map_eq_some_iff.1 hl
    obtain ⟨m, rfl, rfl⟩ := map_eq_some_iff.1 hmap
    exact ⟨Slots.occupant_eq_some.2 ho, rfl⟩
  refine ⟨h, ht.total, ?_, fun i l hl howes => ?_, by omega, ?_, ?_, fun i l hl => ?_⟩
  · have hreserved : (Concurrent.start t).reserved = fun _ => False := by
      funext k
      simp [reserved_eq, places, Concurrent.start]
    rw [hcursors, howed, hreserved]
    exact hledger
  · rw [(hlistener i l hl).2] at howes
    cases howes
  · simp [Distinct, places, Concurrent.start]
  · simp [Concurrent.start]
  · obtain ⟨hl', hphase⟩ := hlistener i l hl
    refine ⟨⟨l.position, ht.pointer i _ hl', ?_⟩, ht.obtained i _ hl', ?_⟩
    · rw [hphase]
      rfl
    · rw [hphase]
      trivial

section

variable (hs : Inv n s h)
include hs

lemma readP_eq (hl : s.listener i = some l) (hpopped : l.phase.popped = false) :
    l.readP = pointerOf s.buffer.totalCells l.position := by
  obtain ⟨r, hpointer, hposition⟩ := (hs.consumers i l hl).pointer
  rw [hpopped] at hposition
  rw [hpointer, hs.total, show l.position = r from hposition]

lemma hasHead (hl : s.listener i = some l) (hhead : l.phase.hasHead) :
    ∃ x, s.pushed[l.position]? = some x ∧
      (s.buffer.cells (getPointerValue l.readP)).data = some x ∧
      ∀ read, l.phase.read = some read → read = some x := by
  have hready := (hs.consumers i l hl).phase
  have hstored : l.position < s.pushed.length ∧ ¬s.reserved l.position := by
    cases hphase : l.phase <;> rw [hphase] at hhead hready <;> first
      | exact ⟨hready.1, hready.2.1⟩
      | exact hready
      | cases hhead
  have hpopped : l.phase.popped = false := by
    cases hphase : l.phase <;> rw [hphase] at hhead <;> first | rfl | cases hhead
  refine ⟨_, getElem?_eq_getElem hstored.1, ?_, fun read hread => ?_⟩
  · rw [hs.readP_eq hl hpopped, getPointerValue_pointerOf hs.ledger.positive hs.ledger.max,
      hs.ledger.stored_cell (Cursors.mem_of_get (cursors_get hl)) hstored.1 hstored.2]
  · rw [← getElem?_eq_getElem hstored.1]
    cases hphase : l.phase <;> rw [hphase] at hready hread <;> first
      | exact (some.inj hread) ▸ hready.2.2
      | cases hread

lemma seen_eq (hl : s.listener i = some l) (hphase : l.phase = .idle)
    (hstored : ¬s.reserved l.position) : s.buffer.seen l.readP =
      s.pushed[l.position]?.map some := by
  rw [hs.readP_eq hl (by rw [hphase]; rfl),
    hs.ledger.seen_eq (Cursors.mem_of_get (cursors_get hl)) hstored]

/-- The cell of a producer is that of no other element that somebody has yet to pop: all these
places are within one round of the ring. -/
theorem reservation (hq : q ∈ s.producers) {x : T} {w p : Nat}
    (hreservation : q.reservation = some (x, w, p)) :
    s.pushed[p]? = some x ∧ ∀ i l, s.listener i = some l → ∀ k, l.position ≤ k →
      k < s.pushed.length → k ≠ p → k % n ≠ getPointerValue w := by
  obtain ⟨a, ha⟩ := mem_iff_getElem?.1 hq
  have hp : q.place = some p := by rw [Producer.place, hreservation, map_some]
  obtain ⟨hge, hlt, -⟩ := hs.ledger.pending p (reserved_of_place ha hp)
  have hfits : w = pointerOf s.buffer.totalCells p ∧ s.pushed[p]? = some x := by
    have hfits := hs.producers q hq
    cases q with
    | reserved _ _ _ | writing _ _ _ =>
      cases hreservation
      exact hfits
    | storing _ _ _ =>
      cases hreservation
      exact ⟨hfits.1, hfits.2.1⟩
    | _ => cases hreservation
  refine ⟨hfits.2, fun i l hl k hk hk' hne => ?_⟩
  have hfirst := hs.ledger.oldest.first _ (Cursors.mem_of_get (cursors_get hl))
  have hnear := hs.ledger.near
  rw [hfits.1, getPointerValue_pointerOf hs.ledger.positive hs.ledger.max, ← hs.total]
  exact Ring.mod_ne (by omega) hge (by omega) (by omega) hne

end

end Inv

end Concurrent

open Concurrent in
/-- Whatever the interleaving: the listeners have obtained the elements in the order of the
compare-exchanges, from their registration on; what they may read is the whole next element, which
they do find once its producer has stored it; no producer writes to a cell with another element that
a listener has yet to pop; and no more cells are counted as free than there are. -/
theorem ringBuffer_interleaved {n : Nat} (hn : 1 ≤ n) (hmax : n ≤ 2 ^ 31) {ops : List (Operation T)}
    (hrun : RunsWith Session.step Session.Permitted (Session.initial n) ops)
    (actions : List (Action T)) :
    let s := actions.foldl step (start (ops.foldl Session.step (Session.initial n)))
    (∀ i l, s.listener i = some l → l.obtained <+: (s.pushed.drop l.since).map some ∧
      (l.phase.hasHead → ∃ x, s.pushed[l.position]? = some x ∧
        (s.buffer.cells (getPointerValue l.readP)).data = some x ∧
        ∀ read, l.phase.read = some read → read = some x) ∧
      (l.phase = .idle → (∀ q ∈ s.producers, q.place ≠ some l.position) →
        s.buffer.seen l.readP = s.pushed[l.position]?.map some) ∧
      l.phase ≠ .failed) ∧
    (∀ q ∈ s.producers, ∀ x w p, q.reservation = some (x, w, p) → s.pushed[p]? = some x ∧
      ∀ i l, s.listener i = some l → ∀ k, l.position ≤ k → k < s.pushed.length → k ≠ p →
        k % n ≠ getPointerValue w) ∧
    s.buffer.freeCells ≤ n := by
  intro s
  have hstart := Inv.start (hrun.keeps Session.Inv.step (.initial hn hmax))
  obtain ⟨h, hs⟩ : ∃ h, Inv n s h := Inv.run actions hstart
  refine ⟨fun i l hl => ⟨(hs.consumers i l hl).obtained, hs.hasHead hl, fun hidle hplaces => ?_,
    fun hfailed => ?_⟩, fun q hq x w p => hs.reservation hq, hs.total ▸ hs.ledger.free_le⟩
  · refine hs.seen_eq hl hidle fun hreserved => ?_
    obtain ⟨q, hq, hplace⟩ := mem_map.1 hreserved
    exact hplaces q hq hplace
  · have hready := (hs.consumers i l hl).phase
    rw [hfailed] at hready
    exact hready

/-- Two producers of which the second one overtakes the first, and a listener that is not finished
with the first element. -/
def overtaking : List (Action Nat) :=
  [.call 5, .call 6] ++ replicate 3 (.producer 0 false) ++ replicate 6 (.producer 1 false) ++
    replicate 3 (.producer 0 false) ++ replicate 7 (.listener 0 false)

open Concurrent in
theorem ringBuffer_interleaved_overtaking :
    let ops : List (Operation Nat) := [.registerListener]
    let s := overtaking.foldl step (start (ops.foldl Session.step (Session.initial 2)))
    (1 ≤ 2 ∧ 2 ≤ 2 ^ 31 ∧ RunsWith Session.step Session.Permitted (Session.initial 2) ops) ∧
      s.pushed = [5, 6] ∧ (s.listener 0).map (·.obtained) = some [some 5] ∧
      s.buffer.freeCells ≤ 2 := by
  have hrun : RunsWith Session.step Session.Permitted (Session.initial (T := Nat) 2)
      [.registerListener] := by
    refine ⟨?_, trivial⟩
    rw [Session.Permitted]
    decide
  exact ⟨⟨by decide, by decide, hrun⟩, by decide, by decide,
    (ringBuffer_interleaved (by decide) (by decide) hrun overtaking).2.2⟩

open Concurrent in
/-- Of what two listeners have obtained since the later registration, one is the beginning of the
other, and one that finds nothing while nobody pushes has obtained all. -/
theorem listeners_agree {n : Nat} (hn : 1 ≤ n) (hmax : n ≤ 2 ^ 31) {ops : List (Operation T)}
    (hrun : RunsWith Session.step Session.Permitted (Session.initial n) ops)
    (actions : List (Action T)) :
    let s := actions.foldl step (start (ops.foldl Session.step (Session.initial n)))
    (∀ i j l m, s.listener i = some l → s.listener j = some m → l.since ≤ m.since →
      l.obtained.drop (m.since - l.since) <+: m.obtained ∨
        m.obtained <+: l.obtained.drop (m.since - l.since)) ∧
    ((∀ q ∈ s.producers, q.place = none) → ∀ i l, s.listener i = some l → l.phase = .idle →
      s.buffer.seen l.readP = none → l.obtained = (s.pushed.drop l.since).map some) := by
  intro s
  have hstart := Inv.start (hrun.keeps Session.Inv.step (.initial hn hmax))
  obtain ⟨h, hs⟩ : ∃ h, Inv n s h := Inv.run actions hstart
  refine ⟨fun i j l m hl hm hle => ?_, fun hplaces i l hl hidle hseen => ?_⟩
  · have hfirst := (hs.consumers i l hl).obtained.drop (m.since - l.since)
    rw [← map_drop, drop_drop, Nat.add_sub_of_le hle] at hfirst
    exact prefix_or_prefix_of_prefix hfirst (hs.consumers j m hm).obtained
  · have hstored : ¬s.reserved l.position := fun hreserved => by
      obtain ⟨q, hq, hplace⟩ := mem_map.1 hreserved
      simp [hplaces q hq] at hplace
    rw [hs.seen_eq hl hidle hstored, Option.map_eq_none_iff, getElem?_eq_none_iff,
      Listener.position] at hseen
    refine (hs.consumers i l hl).obtained.eq_of_length_le ?_
    rw [length_map, length_drop]
    omega

open Concurrent in
theorem listeners_agree_overtaking :
    let actions := overtaking ++ replicate 11 (Action.listener 0 false)
    let s := actions.foldl step (start (Session.step (Session.initial 2) .registerListener))
    ∃ l, s.listener 0 = some l ∧ l.obtained = (s.pushed.drop l.since).map some := by
  intro actions s
  have hrun : RunsWith Session.step Session.Permitted (Session.initial (T := Nat) 2)
      [.registerListener] := ⟨by rw [Session.Permitted]; decide, trivial⟩
  have hall := (listeners_agree (by decide) (by decide) hrun actions).2 (by decide)
  exact ⟨_, rfl, hall 0 _ rfl rfl rfl⟩

end EasyDds.Rtps.SharedMem
