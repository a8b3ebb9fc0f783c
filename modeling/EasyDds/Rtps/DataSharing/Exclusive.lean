import Mathlib.Data.List.Nodup
import Mathlib.Data.List.Perm.Subperm
import Mathlib.Data.List.TakeWhile
import EasyDds.Lib.Run
import EasyDds.Lib.Slots
import EasyDds.Rtps.DataSharing.SharedHistory

/-!
Who holds the payload nodes of a `WriterPool`: the free queue, the shared history, and the
`SerializedPayload_t` objects that were not released yet.
-/

namespace EasyDds.Rtps.DataSharing

open WriterPool List

/-- What a payload is: one handed out for a size, that of a change in the shared history, or a copy
made for a gather-send. -/
inductive Role
  | loan
  | listed
  | copy
deriving DecidableEq, Repr

structure Payload where
  node : Nat
  role : Role
deriving DecidableEq, Repr

/-- The pool, and the payloads in the order they were obtained; `none` are those released. -/
structure Holders where
  pool : WriterPool
  payloads : List (Option Payload)

inductive Use
  | getPayload
  | copyPayload (i : Nat)
  | addToSharedHistory (i sequenceNumber : Nat)
  | removeFromSharedHistory (i : Nat)
  | releasePayload (i : Nat)

namespace Holders

def initial (poolSize : Nat) : Holders := ⟨.init poolSize, []⟩

def payload (s : Holders) (i : Nat) : Option Payload := Slots.occupant s.payloads i

/-- One call. The payload of a change is released with the removal of the change, each other one by
its destructor. -/
def step (s : Holders) : Use → Holders
  | .getPayload =>
    match s.pool.getPayload with
    | none => s
    | some (node, pool) => ⟨pool, s.payloads ++ [some ⟨node, .loan⟩]⟩
  | .copyPayload i =>
    match s.payload i with
    | none => s
    | some p => { s with payloads := s.payloads ++ [some ⟨p.node, .copy⟩] }
  | .addToSharedHistory i sequenceNumber =>
    match s.payload i with
    | some ⟨node, .loan⟩ =>
      ⟨s.pool.addToSharedHistory node sequenceNumber, s.payloads.set i (some ⟨node, .listed⟩)⟩
    | _ => s
  | .removeFromSharedHistory i =>
    match s.payload i with
    | some ⟨node, .listed⟩ =>
      ⟨(s.pool.removeFromSharedHistory node).releasePayload node, s.payloads.set i none⟩
    | _ => s
  | .releasePayload i =>
    match s.payload i with
    | some ⟨node, .loan⟩ | some ⟨node, .copy⟩ =>
      ⟨s.pool.releasePayload node, s.payloads.set i none⟩
    | _ => s

def Holds (s : Holders) (node : Nat) : Prop := ∃ i p, s.payload i = some p ∧ p.node = node

/-- What `get_payload` hands out next is not in use, there is nothing twice in the free queue, and
the room in the history is counted. -/
structure Sound (s : Holders) : Prop where
  exclusive : ∀ node ∈ s.pool.freePayloads, ¬s.Holds node ∧ node ∉ s.pool.sharedHistory
  nodup : s.pool.freePayloads.Nodup
  room : s.pool.freeHistorySize + s.pool.sharedHistory.length = s.pool.poolSize

def Shared (s : Holders) (i node : Nat) : Prop := ∃ j p, j ≠ i ∧ s.payload j = some p ∧
    p.node = node

def leaves (s : Holders) (node m : Nat) : Bool := (s.pool.nodes m).hasBeenRemoved || m = node

/-- A payload is released only if nobody else has it, unless it stays in the history as removed.
With the removal of a change this goes for all the nodes that leave the history: those at its
beginning that are removed. -/
def Careful (s : Holders) : Use → Prop
  | .releasePayload i =>
    match s.payload i with
    | some p => p.role = .listed ∨ (s.pool.nodes p.node).hasBeenRemoved ∨ ¬s.Shared i p.node
    | none => True
  | .removeFromSharedHistory i =>
    match s.payload i with
    | some p => p.role = .listed →
      ∀ node ∈ s.pool.sharedHistory.takeWhile (s.leaves p.node), ¬s.Shared i node
    | none => True
  | .getPayload | .copyPayload _ | .addToSharedHistory _ _ => True

/-- What holds between the calls, the shared history being `w`: a node is in one place only, and one
of a change that is not removed belongs to the payload of the change. -/
structure Inv (s : Holders) (b : Nat) (w : List Nat) : Prop where
  lists : s.pool.Lists b w
  nodup : (w ++ s.pool.freePayloads).Nodup
  below : ∀ node ∈ w ++ s.pool.freePayloads, node < s.pool.poolSize
  held : ∀ i p, s.payload i = some p → p.node < s.pool.poolSize ∧ p.node ∉ s.pool.freePayloads
  room : s.pool.freeHistorySize + w.length = s.pool.poolSize
  marked : ∀ node, (s.pool.nodes node).hasBeenRemoved → node ∈ w
  first : ∀ node, w.head? = some node → ¬(s.pool.nodes node).hasBeenRemoved
  listed : ∀ i p, s.payload i = some p → p.role = .listed →
    p.node ∈ w ∧ ¬(s.pool.nodes p.node).hasBeenRemoved
  loaned : ∀ i p, s.payload i = some p → p.role = .loan → p.node ∉ w
  owner : ∀ node ∈ w, ¬(s.pool.nodes node).hasBeenRemoved → ∃ i, s.payload i = some ⟨node, .listed⟩
  unique : ∀ i j p q, s.payload i = some p → s.payload j = some q → p.role ≠ .copy →
    q.role ≠ .copy → p.node = q.node → i = j

lemma length_le_of_nodup {l : List Nat} {n : Nat} (hnodup : l.Nodup) (hlt : ∀ x ∈ l, x < n) :
    l.length ≤ n := by
  have hsub := subperm_of_subset hnodup fun x hx => mem_range.2 (hlt x hx)
  simpa using hsub.length_le

variable {s : Holders} {b i : Nat} {w : List Nat} {node : Nat} {p : Payload}

lemma hasBeenRemoved_remove (s : Holders) (node m : Nat) :
    ((s.pool.removeFromSharedHistory node).nodes m).hasBeenRemoved = s.leaves node m := by
  by_cases hm : m = node
  · subst hm
    simp [removeFromSharedHistory, setNode, leaves]
  · simp [removeFromSharedHistory, setNode, leaves, hm]

namespace Inv

lemma initial {n : Nat} (hn : n + 1 < 2 ^ 32) : Inv (initial n) 0 [] where
  lists := .init hn
  nodup := by simpa [Holders.initial, init] using nodup_range
  below := by simp [Holders.initial, init]
  held := by simp [Holders.initial, payload]
  room := rfl
  marked := by simp [Holders.initial, init]
  first := by simp
  listed := by simp [Holders.initial, payload]
  loaned := by simp [Holders.initial, payload]
  owner := by simp
  unique := by simp [Holders.initial, payload]

section

variable (hs : Inv s b w)
include hs

lemma sharedHistory_eq : s.pool.sharedHistory = w := hs.lists.sharedHistory_eq

lemma disjoint (hw : node ∈ w) (hfree : node ∈ s.pool.freePayloads) : False :=
  (nodup_append.1 hs.nodup).2.2 node hw node hfree rfl

lemma not_removed_of_not_mem (hw : node ∉ w) : ¬(s.pool.nodes node).hasBeenRemoved :=
  fun h => hw (hs.marked node h)

lemma sound : Sound s := by
  refine ⟨fun node hfree => ⟨?_, fun hw => ?_⟩, (nodup_append.1 hs.nodup).2.1, ?_⟩
  · rintro ⟨i, p, hp, rfl⟩
    exact (hs.held i p hp).2 hfree
  · exact hs.disjoint (hs.sharedHistory_eq ▸ hw) hfree
  · rw [hs.sharedHistory_eq]
    exact hs.room

/-- A node that somebody holds leaves room in the free queue, and in the history if it is not
there. -/
theorem capacity (hp : s.payload i = some p) :
    s.pool.freePayloads.length < s.pool.poolSize ∧ (p.node ∉ w → w.length < s.pool.poolSize) := by
  obtain ⟨hlt, hfree⟩ := hs.held i p hp
  obtain ⟨hw, hfree', -⟩ := nodup_append.1 hs.nodup
  constructor
  · refine length_le_of_nodup (nodup_cons.2 ⟨hfree, hfree'⟩) fun x hx => ?_
    rcases mem_cons.1 hx with rfl | hx
    · exact hlt
    · exact hs.below x (mem_append_right _ hx)
  · intro hnot
    refine length_le_of_nodup (nodup_cons.2 ⟨hnot, hw⟩) fun x hx => ?_
    rcases mem_cons.1 hx with rfl | hx
    · exact hlt
    · exact hs.below x (mem_append_left _ hx)

lemma copyPayload (i : Nat) : Inv (s.step (.copyPayload i)) b w := by
  rw [step]
  cases hp : s.payload i with
  | none => exact hs
  | some p =>
    have hpayload : ∀ k q, Slots.occupant (s.payloads ++ [some ⟨p.node, .copy⟩]) k = some q →
        s.payload k = some q ∨ q = ⟨p.node, .copy⟩ := fun k q hq =>
      (Slots.occupant_append.1 hq).imp_right fun h => h.2.symm
    refine { hs with
      held := fun k q hq => ?_
      listed := fun k q hq hrole => ?_
      loaned := fun k q hq hrole => ?_
      owner := fun node hw hremoved => ?_
      unique := fun k m q r hq hr hq' hr' heq => ?_ }
    · rcases hpayload k q hq with hq | rfl
      · exact hs.held k q hq
      · exact hs.held i p hp
    · rcases hpayload k q hq with hq | rfl
      · exact hs.listed k q hq hrole
      · cases hrole
    · rcases hpayload k q hq with hq | rfl
      · exact hs.loaned k q hq hrole
      · cases hrole
    · obtain ⟨k, hk⟩ := hs.owner node hw hremoved
      exact ⟨k, Slots.occupant_append.2 (.inl hk)⟩
    · rcases hpayload k q hq with hq | rfl
      · rcases hpayload m r hr with hr | rfl
        · exact hs.unique k m q r hq hr hq' hr' heq
        · exact absurd rfl hr'
      · exact absurd rfl hq'

lemma getPayload : Inv (s.step .getPayload) b w := by
  rw [step, WriterPool.getPayload]
  cases hfree : s.pool.freePayloads with
  | nil => exact hs
  | cons node rest =>
    have hnode : node ∈ s.pool.freePayloads := hfree ▸ mem_cons_self
    have hnodup := hs.nodup
    rw [hfree] at hnodup
    obtain ⟨hw, hfree', hdisjoint⟩ := nodup_append.1 hnodup
    obtain ⟨hfresh, hrest⟩ := nodup_cons.1 hfree'
    have hsub : ∀ m ∈ rest, m ∈ s.pool.freePayloads := fun m hm =>
      hfree ▸ mem_cons_of_mem _ hm
    have hnotw : node ∉ w := fun h => hs.disjoint h hnode
    have hother : ∀ m, m ≠ node →
        Function.update s.pool.nodes node ⟨none, false⟩ m = s.pool.nodes m := fun m hm =>
      Function.update_of_ne hm _ _
    have hnew : ¬(Function.update s.pool.nodes node ⟨none, false⟩ node).hasBeenRemoved := by simp
    have hheld : ∀ k q, s.payload k = some q → q.node ≠ node := fun k q hq heq =>
      (hs.held k q hq).2 (heq ▸ hnode)
    refine ⟨{ hs.lists with }, ?_, fun m hm => ?_, fun k q hq => ?_, hs.room, fun m hm => ?_,
      fun m hm => ?_, fun k q hq hrole => ?_, fun k q hq hrole => ?_, fun m hm hremoved => ?_,
      fun k m q r hq hr hq' hr' heq => ?_⟩
    · exact nodup_append.2 ⟨hw, hrest, fun a ha c hc =>
        hdisjoint a ha c (mem_cons_of_mem _ hc)⟩
    · refine hs.below m ?_
      rcases mem_append.1 hm with hm | hm
      · exact mem_append_left _ hm
      · exact mem_append_right _ (hsub m hm)
    · rcases Slots.occupant_append.1 hq with hq | ⟨-, rfl⟩
      · exact ⟨(hs.held k q hq).1, fun h => (hs.held k q hq).2 (hsub _ h)⟩
      · exact ⟨hs.below node (mem_append_right _ hnode), hfresh⟩
    · by_cases hmn : m = node
      · exact absurd hm (hmn ▸ hnew)
      · exact hs.marked m (by rwa [← hother m hmn])
    · have hmn : m ≠ node := fun h => hnotw (h ▸ mem_of_mem_head? hm)
      intro hremoved
      exact hs.first m hm (by rwa [← hother m hmn])
    · rcases Slots.occupant_append.1 hq with hq | ⟨-, rfl⟩
      · obtain ⟨hmem, hnot⟩ := hs.listed k q hq hrole
        refine ⟨hmem, fun hremoved => hnot ?_⟩
        rwa [← hother _ (hheld k q hq)]
      · cases hrole
    · rcases Slots.occupant_append.1 hq with hq | ⟨-, rfl⟩
      · exact hs.loaned k q hq hrole
      · exact hnotw
    · have hmn : m ≠ node := fun h => hnotw (h ▸ hm)
      obtain ⟨k, hk⟩ := hs.owner m hm (by rwa [← hother m hmn])
      exact ⟨k, Slots.occupant_append.2 (.inl hk)⟩
    · rcases Slots.occupant_append.1 hq with hq | ⟨hk, rfl⟩
      · rcases Slots.occupant_append.1 hr with hr | ⟨-, rfl⟩
        · exact hs.unique k m q r hq hr hq' hr' heq
        · exact absurd heq (hheld k q hq)
      · rcases Slots.occupant_append.1 hr with hr | ⟨hm, -⟩
        · exact absurd heq.symm (hheld m r hr)
        · exact hk.trans hm.symm

lemma addToSharedHistory (i sn : Nat) : ∃ b w, Inv (s.step (.addToSharedHistory i sn)) b w := by
  rw [step]
  rcases hp : s.payload i with _ | ⟨node, role⟩
  · exact ⟨b, w, hs⟩
  cases role with
  | listed | copy => exact ⟨b, w, hs⟩
  | loan =>
    have hnotw : node ∉ w := hs.loaned i _ hp rfl
    obtain ⟨hbelow, hfree⟩ := hs.held i _ hp
    have hshort := (hs.capacity hp).2 hnotw
    have hroom := hs.room
    obtain ⟨hw, hfree', hdisjoint⟩ := nodup_append.1 hs.nodup
    have hflag : ∀ m, ((s.pool.addToSharedHistory node sn).nodes m).hasBeenRemoved =
        (s.pool.nodes m).hasBeenRemoved := by
      intro m
      by_cases hm : m = node
      · subst hm
        simp [WriterPool.addToSharedHistory, WriterPool.setNode]
      · simp [WriterPool.addToSharedHistory, WriterPool.setNode, Function.update_of_ne hm]
    refine ⟨b, w ++ [node], ?_, ?_, fun m hm => ?_, fun k q hq => ?_, ?_, fun m hm => ?_,
      fun m hm => ?_, fun k q hq hrole => ?_, fun k q hq hrole => ?_, fun m hm hremoved => ?_,
      fun k m q r hq hr hq' hr' heq => ?_⟩
    · exact hs.lists.add hshort sn
    · rw [append_assoc, singleton_append]
      refine nodup_append.2 ⟨hw, nodup_cons.2 ⟨hfree, hfree'⟩, fun a ha c hc hac => ?_⟩
      rcases mem_cons.1 hc with rfl | hc
      · exact hnotw (hac ▸ ha)
      · exact hdisjoint a ha c hc hac
    · rcases mem_append.1 hm with hm | hm
      · rcases mem_append.1 hm with hm | hm
        · exact hs.below m (mem_append_left _ hm)
        · rw [mem_singleton.1 hm]
          exact hbelow
      · exact hs.below m (mem_append_right _ hm)
    · rcases Slots.occupant_set hq with ⟨-, hq⟩ | ⟨-, hq⟩
      · cases hq
        exact ⟨hbelow, hfree⟩
      · exact hs.held k q hq
    · rw [length_append, length_singleton]
      change sub32 s.pool.freeHistorySize 1 + _ = s.pool.poolSize
      rw [sub32_of_le (by omega)]
      omega
    · rw [hflag] at hm
      exact mem_append_left _ (hs.marked m hm)
    · rw [hflag]
      cases w with
      | nil =>
        cases hm
        exact hs.not_removed_of_not_mem hnotw
      | cons a w => exact hs.first m hm
    · rw [hflag]
      rcases Slots.occupant_set hq with ⟨-, hq⟩ | ⟨-, hq⟩
      · cases hq
        exact ⟨mem_append_right _ mem_cons_self, hs.not_removed_of_not_mem hnotw⟩
      · obtain ⟨hmem, hnot⟩ := hs.listed k q hq hrole
        exact ⟨mem_append_left _ hmem, hnot⟩
    · rcases Slots.occupant_set hq with ⟨-, hq⟩ | ⟨hk, hq⟩
      · cases hq
        cases hrole
      · intro hmem
        rcases mem_append.1 hmem with hmem | hmem
        · exact hs.loaned k q hq hrole hmem
        · refine hk (hs.unique k i q _ hq hp ?_ (by simp) (mem_singleton.1 hmem))
          rw [hrole]
          simp
    · rw [hflag] at hremoved
      rcases mem_append.1 hm with hm | hm
      · obtain ⟨k, hk⟩ := hs.owner m hm hremoved
        have hki : k ≠ i := by
          rintro rfl
          cases hk.symm.trans hp
        exact ⟨k, (Slots.occupant_set_of_ne hki).trans hk⟩
      · rw [mem_singleton.1 hm]
        exact ⟨i, Slots.occupant_set_self hp⟩
    · rcases Slots.occupant_set hq with ⟨hk, hq⟩ | ⟨hk, hq⟩
      · cases hq
        rcases Slots.occupant_set hr with ⟨hm, -⟩ | ⟨hm, hr⟩
        · exact hk.trans hm.symm
        · exact absurd (hs.unique m i r _ hr hp hr' (by simp) heq.symm) hm
      · rcases Slots.occupant_set hr with ⟨hm, hr⟩ | ⟨-, hr⟩
        · cases hr
          exact absurd (hs.unique k i q _ hq hp hq' (by simp) heq) hk
        · exact hs.unique k m q r hq hr hq' hr' heq

lemma remove_eq (node : Nat) : (s.pool.removeFromSharedHistory node).releasePayload node =
      (s.pool.removeFromSharedHistory node).giveBack b (w.takeWhile (s.leaves node)) := by
  have hremoved : ((s.pool.removeFromSharedHistory node).nodes node).hasBeenRemoved := by
    simp [hasBeenRemoved_remove, leaves]
  have hcapacity := length_le_of_nodup hs.nodup hs.below
  rw [length_append] at hcapacity
  have hshort := hs.lists.short
  rw [releasePayload, if_pos hremoved, advanceTillFirstNonRemoved,
    advanceLoop_eq hs.lists.remove (nodup_append.1 hs.nodup).1 (by
      change s.pool.freePayloads.length + w.length ≤ s.pool.poolSize
      omega) hs.room (by rw [historySize]; exact hshort.trans (Nat.le_succ _))]
  congr 1
  exact takeWhile_congr fun m _ => hasBeenRemoved_remove s node m

lemma removeFromSharedHistory (hp : s.payload i = some ⟨node, .listed⟩)
    (hcareful : ∀ m ∈ w.takeWhile (s.leaves node), ¬s.Shared i m) :
    Inv ⟨(s.pool.removeFromSharedHistory node).giveBack b (w.takeWhile (s.leaves node)),
      s.payloads.set i none⟩ (b + (w.takeWhile (s.leaves node)).length)
      (w.dropWhile (s.leaves node)) := by
  have hsplit : w.takeWhile (s.leaves node) ++ w.dropWhile (s.leaves node) = w :=
    takeWhile_append_dropWhile
  have hleaves : ∀ m ∈ w.takeWhile (s.leaves node), s.leaves node m := fun m =>
    mem_takeWhile_imp
  have hfirst : ∀ m, (w.dropWhile (s.leaves node)).head? = some m → ¬s.leaves node m := by
    intro m hm
    have := head?_dropWhile_not (s.leaves node) w
    rw [hm] at this
    simpa using this
  generalize w.takeWhile (s.leaves node) = t at *
  generalize w.dropWhile (s.leaves node) = w' at *
  subst hsplit
  have hlisted := hs.listed i _ hp rfl
  have hflag : ∀ m, (((s.pool.removeFromSharedHistory node).giveBack b t).nodes m).hasBeenRemoved =
      (s.leaves node m && m ∉ t) := by
    intro m
    by_cases hm : m ∈ t
    · simp [giveBack, unmark, hm]
    · simp [giveBack, unmark, hm, hasBeenRemoved_remove]
  have hperm : (w' ++ (s.pool.freePayloads ++ t)).Perm (t ++ w' ++ s.pool.freePayloads) := by
    rw [← append_assoc, append_assoc t]
    exact perm_append_comm
  refine ⟨hs.lists.remove.giveBack, hperm.nodup_iff.2 hs.nodup, fun m hm =>
    hs.below m (hperm.mem_iff.1 hm), fun k q hq => ?_, ?_, fun m hm => ?_, fun m hm => ?_,
    fun k q hq hrole => ?_, fun k q hq hrole => ?_, fun m hm hremoved => ?_,
    fun k m q r hq hr => hs.unique k m q r (Slots.occupant_clear hq).2 (Slots.occupant_clear hr).2⟩
  · obtain ⟨hk, hq⟩ := Slots.occupant_clear hq
    refine ⟨(hs.held k q hq).1, fun hmem => ?_⟩
    rcases mem_append.1 hmem with hmem | hmem
    · exact (hs.held k q hq).2 hmem
    · exact hcareful _ hmem ⟨k, q, hk, hq, rfl⟩
  · have hroom := hs.room
    rw [length_append] at hroom
    change s.pool.freeHistorySize + t.length + w'.length = s.pool.poolSize
    omega
  · rw [hflag, Bool.and_eq_true, decide_eq_true_eq, leaves, Bool.or_eq_true,
      decide_eq_true_eq] at hm
    have hmem : m ∈ t ++ w' := by
      rcases hm.1 with hremoved | rfl
      · exact hs.marked m hremoved
      · exact hlisted.1
    exact (mem_append.1 hmem).resolve_left hm.2
  · rw [hflag, Bool.and_eq_true]
    exact fun h => hfirst m hm h.1
  · obtain ⟨hk, hq⟩ := Slots.occupant_clear hq
    obtain ⟨hmem, hremoved⟩ := hs.listed k q hq hrole
    have hne : q.node ≠ node := fun heq =>
      hk (hs.unique k i q _ hq hp (by rw [hrole]; simp) (by simp) heq)
    have hstays : s.leaves node q.node = false := by simp [leaves, hremoved, hne]
    rw [hflag, hstays]
    refine ⟨(mem_append.1 hmem).resolve_left fun ht => ?_, by simp⟩
    rw [hleaves _ ht] at hstays
    cases hstays
  · exact fun hmem => hs.loaned k q (Slots.occupant_clear hq).2 hrole (mem_append_right _ hmem)
  · have hdisjoint := (nodup_append.1 (nodup_append.1 hs.nodup).1).2.2
    have hnott : m ∉ t := fun ht => hdisjoint m ht m hm rfl
    rw [hflag, leaves] at hremoved
    simp only [hnott, not_false_eq_true, decide_true, Bool.and_true, Bool.or_eq_true,
      decide_eq_true_eq, not_or] at hremoved
    obtain ⟨k, hk⟩ := hs.owner m (mem_append_right _ hm) hremoved.1
    have hki : k ≠ i := by
      rintro rfl
      rw [hp] at hk
      cases hk
      exact hremoved.2 rfl
    exact ⟨k, (Slots.occupant_set_of_ne hki).trans hk⟩

lemma drop (hp : s.payload i = some p) (hrole : p.role ≠ .listed) {free : List Nat}
    (hnodup : (w ++ free).Nodup) (hbelow : ∀ m ∈ free, m < s.pool.poolSize)
    (hheld : ∀ k q, k ≠ i → s.payload k = some q → q.node ∉ free) :
    Inv ⟨{ s.pool with freePayloads := free }, s.payloads.set i none⟩ b w := by
  refine ⟨{ hs.lists with }, hnodup, fun m hm => ?_, fun k q hq => ?_, hs.room, hs.marked, hs.first,
    fun k q hq => hs.listed k q (Slots.occupant_clear hq).2,
    fun k q hq => hs.loaned k q (Slots.occupant_clear hq).2,
    fun m hm hremoved => ?_, fun k m q r hq hr => hs.unique k m q r (Slots.occupant_clear hq).2
    (Slots.occupant_clear hr).2⟩
  · rcases mem_append.1 hm with hm | hm
    · exact hs.below m (mem_append_left _ hm)
    · exact hbelow m hm
  · obtain ⟨hk, hq⟩ := Slots.occupant_clear hq
    exact ⟨(hs.held k q hq).1, hheld k q hk hq⟩
  · obtain ⟨k, hk⟩ := hs.owner m hm hremoved
    have hki : k ≠ i := by
      rintro rfl
      rw [hp] at hk
      cases hk
      exact hrole rfl
    exact ⟨k, (Slots.occupant_set_of_ne hki).trans hk⟩

/-- The release of a node that stays in the history: the first one there is not removed, so the loop
gives nothing back. -/
theorem release_removed_eq (hremoved : (s.pool.nodes node).hasBeenRemoved) :
    s.pool.releasePayload node = s.pool := by
  have hcapacity := length_le_of_nodup hs.nodup hs.below
  rw [length_append] at hcapacity
  have hnone : (w.takeWhile fun m => (s.pool.nodes m).hasBeenRemoved) = [] := by
    cases w with
    | nil => rfl
    | cons m w => rw [takeWhile_cons, if_neg (hs.first m rfl)]
  rw [releasePayload, if_pos hremoved, advanceTillFirstNonRemoved,
    advanceLoop_eq hs.lists (nodup_append.1 hs.nodup).1 (by omega) hs.room
      (by rw [historySize]; omega), hnone,
    giveBack_nil hs.lists.notifiedBegin]

lemma release_eq (hp : s.payload i = some p)
    (hremoved : ¬(s.pool.nodes p.node).hasBeenRemoved) : s.pool.releasePayload p.node =
      { s.pool with freePayloads := s.pool.freePayloads ++ [p.node] } := by
  rw [releasePayload, if_neg hremoved, pushBack, if_pos (hs.capacity hp).1]

lemma release_removed (hp : s.payload i = some p) (hrole : p.role ≠ .listed)
    (hremoved : (s.pool.nodes p.node).hasBeenRemoved) :
    Inv ⟨s.pool.releasePayload p.node, s.payloads.set i none⟩ b w := by
  rw [hs.release_removed_eq hremoved]
  exact hs.drop hp hrole hs.nodup (fun m hm => hs.below m (mem_append_right _ hm))
    fun k q _ hq => (hs.held k q hq).2

lemma release_unshared (hp : s.payload i = some p) (hrole : p.role ≠ .listed)
    (hremoved : ¬(s.pool.nodes p.node).hasBeenRemoved) (hshared : ¬s.Shared i p.node) :
    Inv ⟨s.pool.releasePayload p.node, s.payloads.set i none⟩ b w := by
  obtain ⟨hbelow, hfree⟩ := hs.held i p hp
  have hnotw : p.node ∉ w := by
    intro hmem
    obtain ⟨k, hk⟩ := hs.owner p.node hmem hremoved
    refine hshared ⟨k, _, ?_, hk, rfl⟩
    rintro rfl
    rw [hp] at hk
    exact hrole (congrArg Payload.role (Option.some.inj hk))
  rw [hs.release_eq hp hremoved]
  refine hs.drop hp hrole ?_ (fun m hm => ?_) fun k q hk hq hmem => ?_
  · rw [← append_assoc]
    refine nodup_append.2 ⟨hs.nodup, nodup_singleton _, fun a ha c hc hac => ?_⟩
    rw [mem_singleton.1 hc] at hac
    subst hac
    exact (mem_append.1 ha).elim hnotw hfree
  · rcases mem_append.1 hm with hm | hm
    · exact hs.below m (mem_append_right _ hm)
    · rw [mem_singleton.1 hm]
      exact hbelow
  · rcases mem_append.1 hmem with hmem | hmem
    · exact (hs.held k q hq).2 hmem
    · exact hshared ⟨k, q, hk, hq, mem_singleton.1 hmem⟩

lemma releasePayload (i : Nat) (hcareful : s.Careful (.releasePayload i)) :
    Inv (s.step (.releasePayload i)) b w := by
  rw [Careful] at hcareful
  rw [step]
  rcases hp : s.payload i with _ | ⟨node, role⟩
  · exact hs
  rw [hp] at hcareful
  have hrelease : role ≠ .listed → Inv ⟨s.pool.releasePayload node, s.payloads.set i none⟩ b w := by
    intro hrole
    rcases hcareful with h | hremoved | hshared
    · exact absurd h hrole
    · exact hs.release_removed hp hrole hremoved
    · by_cases hremoved : (s.pool.nodes node).hasBeenRemoved
      · exact hs.release_removed hp hrole hremoved
      · exact hs.release_unshared hp hrole hremoved hshared
  cases role with
  | listed => exact hs
  | loan | copy => exact hrelease (by simp)

end

lemma step (s : Holders) (u : Use) (hs : ∃ b w, Inv s b w) (hcareful : s.Careful u) :
    ∃ b w, Inv (s.step u) b w := by
  obtain ⟨b, w, hs⟩ := hs
  cases u with
  | getPayload => exact ⟨b, w, hs.getPayload⟩
  | copyPayload i => exact ⟨b, w, hs.copyPayload i⟩
  | addToSharedHistory i sn => exact hs.addToSharedHistory i sn
  | releasePayload i => exact ⟨b, w, hs.releasePayload i hcareful⟩
  | removeFromSharedHistory i =>
    rw [Careful, hs.sharedHistory_eq] at hcareful
    rw [Holders.step]
    rcases hp : s.payload i with _ | ⟨node, role⟩
    · exact ⟨b, w, hs⟩
    rw [hp] at hcareful
    cases role with
    | loan | copy => exact ⟨b, w, hs⟩
    | listed =>
      simp only [hs.remove_eq node]
      exact ⟨_, _, hs.removeFromSharedHistory hp (hcareful rfl)⟩

/-- A step that keeps what is free apart from what is in use is a careful one: any other release
makes a node free that somebody still has. -/
theorem careful_of_sound (s : Holders) (u : Use) (hs : ∃ b w, Inv s b w)
    (hsound : Sound (s.step u)) : s.Careful u := by
  obtain ⟨b, w, hs⟩ := hs
  cases u with
  | getPayload | copyPayload _ | addToSharedHistory _ _ => trivial
  | releasePayload i =>
    rw [Holders.step] at hsound
    rw [Careful]
    rcases hp : s.payload i with _ | ⟨node, role⟩
    · trivial
    rw [hp] at hsound
    by_cases hremoved : (s.pool.nodes node).hasBeenRemoved
    · exact .inr (.inl hremoved)
    have hrelease : Sound ⟨s.pool.releasePayload node, s.payloads.set i none⟩ →
        ¬s.Shared i node := by
      rintro hsound ⟨k, q, hk, hq, rfl⟩
      rw [hs.release_eq hp hremoved] at hsound
      exact (hsound.exclusive q.node (mem_append_right _ mem_cons_self)).1
        ⟨k, q, (Slots.occupant_set_of_ne hk).trans hq, rfl⟩
    cases role with
    | listed => exact .inl rfl
    | loan | copy => exact .inr (.inr (hrelease hsound))
  | removeFromSharedHistory i =>
    rw [Holders.step] at hsound
    rw [Careful, hs.sharedHistory_eq]
    rcases hp : s.payload i with _ | ⟨node, role⟩
    · trivial
    rw [hp] at hsound
    rintro rfl m hm ⟨k, q, hk, hq, rfl⟩
    simp only [hs.remove_eq node] at hsound
    exact (hsound.exclusive q.node (mem_append_right _ hm)).1
      ⟨k, q, (Slots.occupant_set_of_ne hk).trans hq, rfl⟩

end Inv

end Holders

open Holders in
/-- On a run of calls nothing in use is ever handed out, and the free queue and the room in the
history are as they should be, if and only if the payloads are released with care. -/
theorem payloads_exclusive_iff {n : Nat} (hn : n + 1 < 2 ^ 32) (uses : List Use) :
    (∀ k, Sound ((uses.take k).foldl step (initial n))) ↔ RunsWith step Careful (initial n) uses :=
  RunsWith.iff_always ⟨0, [], Inv.initial hn⟩ (fun _ h => h.choose_spec.choose_spec.sound) Inv.step
    Inv.careful_of_sound

open Holders in
theorem payloads_exclusive_iff_removed :
    let uses : List Use := [.getPayload, .addToSharedHistory 0 1, .removeFromSharedHistory 0]
    1 + 1 < 2 ^ 32 ∧ RunsWith step Careful (initial 1) uses ∧
      ∀ k, Sound ((uses.take k).foldl step (initial 1)) := by
  have hrun : RunsWith step Careful (initial 1)
      [.getPayload, .addToSharedHistory 0 1, .removeFromSharedHistory 0] := by
    refine ⟨trivial, trivial, ?_, trivial⟩
    rintro - m - ⟨k, q, hk, hq, -⟩
    have hlt := Slots.lt_length hq
    exact hk (Nat.lt_one_iff.1 hlt)
  exact ⟨by decide, hrun, (payloads_exclusive_iff (by decide) _).2 hrun⟩

/-- The copy for a gather-send is released, and the next payload is the one the writer still has. -/
theorem payloads_exclusive_lost :
    let s := [Use.getPayload, .copyPayload 0, .releasePayload 1].foldl Holders.step
      (Holders.initial 1)
    s.pool.getPayload.map (·.1) = some 0 ∧ s.payload 0 = some ⟨0, .loan⟩ := by
  decide

end EasyDds.Rtps.DataSharing
