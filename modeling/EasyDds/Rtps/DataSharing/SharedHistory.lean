import EasyDds.Lib.Counting
import EasyDds.Rtps.DataSharing.WriterPool

/-!
The shared history of a `WriterPool` as a list of nodes, and what the operations do to it.
-/

namespace EasyDds.Rtps.DataSharing

open List

namespace WriterPool

structure Lists (p : WriterPool) (b : Nat) (w : List Nat) : Prop where
  max : p.historySize < 2 ^ 32
  notifiedBegin : p.notifiedBegin = indexOf p.historySize b
  notifiedEnd : p.notifiedEnd = indexOf p.historySize (b + w.length)
  short : w.length ≤ p.poolSize
  history : ∀ k (hk : k < w.length), p.history ((b + k) % p.historySize) = w[k]

variable {p : WriterPool} {b : Nat} {w : List Nat} {node : Nat}

lemma historySize_pos (p : WriterPool) : 0 < p.historySize := Nat.succ_pos _

namespace Lists

lemma init {n : Nat} (hn : n + 1 < 2 ^ 32) : Lists (WriterPool.init n) 0 [] where
  max := hn
  notifiedBegin := by simp [WriterPool.init, indexOf]
  notifiedEnd := by simp [WriterPool.init, indexOf]
  short := by simp
  history := by simp

lemma begin_eq_end (hp : p.Lists b w) : p.notifiedBegin = p.notifiedEnd ↔ w = [] := by
  have hshort := hp.short
  rw [hp.notifiedBegin, hp.notifiedEnd, indexOf_inj p.historySize_pos hp.max (by omega)
    (by rw [historySize]; omega), ← length_eq_zero_iff]
  omega

lemma entries (hp : p.Lists b w) {k fuel : Nat} (hk : k ≤ w.length) (hfuel : w.length - k ≤ fuel) :
    p.entries fuel (indexOf p.historySize (b + k)) = w.drop k := by
  have hshort := hp.short
  induction fuel generalizing k with
  | zero => rw [WriterPool.entries, drop_of_length_le (by omega)]
  | succ fuel ih =>
    rw [WriterPool.entries, hp.notifiedEnd]
    by_cases hlt : k < w.length
    · rw [if_neg, slot_indexOf p.historySize_pos hp.max, hp.history k hlt, advance_indexOf
        p.historySize_pos hp.max, Nat.add_assoc, ih hlt (by omega), drop_eq_getElem_cons hlt]
      rw [indexOf_inj p.historySize_pos hp.max (by omega) (by rw [historySize]; omega)]
      omega
    · rw [if_pos (by rw [show k = w.length by omega]), drop_of_length_le (by omega)]

lemma sharedHistory_eq (hp : p.Lists b w) : p.sharedHistory = w := by
  have hshort := hp.short
  rw [sharedHistory, hp.notifiedBegin]
  exact hp.entries (k := 0) (Nat.zero_le _) (by rw [historySize]; omega)

end Lists

def unmark (nodes : Nat → PayloadNode) (t : List Nat) (node : Nat) : PayloadNode :=
  if node ∈ t then { nodes node with hasBeenRemoved := false } else nodes node

def giveBack (p : WriterPool) (b : Nat) (t : List Nat) : WriterPool :=
  { p with
    nodes := unmark p.nodes t
    freePayloads := p.freePayloads ++ t
    notifiedBegin := indexOf p.historySize (b + t.length)
    freeHistorySize := p.freeHistorySize + t.length }

lemma giveBack_nil (hb : p.notifiedBegin = indexOf p.historySize b) : p.giveBack b [] = p := by
  have hnodes : unmark p.nodes [] = p.nodes := funext fun _ => if_neg not_mem_nil
  rw [giveBack, hnodes, append_nil, length_nil, Nat.add_zero, Nat.add_zero, ← hb]

lemma unmark_cons (nodes : Nat → PayloadNode) (t : List Nat) :
    unmark (Function.update nodes node { nodes node with hasBeenRemoved := false }) t =
      unmark nodes (node :: t) := by
  funext m
  by_cases hm : m = node
  · subst hm
    simp [unmark]
  · simp [unmark, hm]

lemma giveBack_cons {t : List Nat} : (p.giveBack b [node]).giveBack (b + 1) t =
    p.giveBack b (node :: t) := by
  have hnodes : unmark (unmark p.nodes [node]) t = unmark p.nodes (node :: t) := by
    funext m
    by_cases hm : m = node <;> by_cases ht : m ∈ t <;> simp [unmark, hm, ht]
  simp only [giveBack, hnodes, historySize, append_assoc, length_cons, length_nil,
    singleton_append, Nat.zero_add]
  rw [Nat.add_assoc b, Nat.add_assoc p.freeHistorySize, Nat.add_comm 1]

lemma Lists.giveBack {t : List Nat} (hp : p.Lists b (t ++ w)) :
    (p.giveBack b t).Lists (b + t.length) w := by
  have hshort := hp.short
  rw [length_append] at hshort
  refine ⟨hp.max, rfl, ?_, (Nat.le_add_left _ _).trans hshort, fun k hk => ?_⟩
  · change p.notifiedEnd = indexOf p.historySize (b + t.length + w.length)
    rw [hp.notifiedEnd, length_append, Nat.add_assoc]
  · change p.history ((b + t.length + k) % p.historySize) = w[k]
    have hget := hp.history (t.length + k) (by rw [length_append]; omega)
    simpa [Nat.add_assoc] using hget

lemma Lists.remove (hp : p.Lists b w) : (p.removeFromSharedHistory node).Lists b w :=
  { hp with }

lemma Lists.add (hp : p.Lists b w) (hshort : w.length < p.poolSize) (sn : Nat) :
    (p.addToSharedHistory node sn).Lists b (w ++ [node]) := by
  have hpos := p.historySize_pos
  refine ⟨hp.max, hp.notifiedBegin, ?_, ?_, fun k hk => ?_⟩
  · change DataSharing.advance p.historySize p.notifiedEnd = _
    rw [hp.notifiedEnd, advance_indexOf hpos hp.max, length_append, length_singleton, Nat.add_assoc]
    rfl
  · rw [length_append, length_singleton]
    exact hshort
  · rw [length_append, length_singleton] at hk
    change Function.update p.history (slot p.notifiedEnd) node ((b + k) % p.historySize) = _
    rw [hp.notifiedEnd, slot_indexOf hpos hp.max]
    by_cases hkw : k < w.length
    · rw [Function.update_of_ne, hp.history k hkw, getElem_append_left hkw]
      exact Ring.mod_ne_of_near (by omega) (by rw [historySize]; omega)
    · obtain rfl : k = w.length := by omega
      simp

lemma advanceLoop_succ (hp : p.Lists b (node :: w))
    (hcapacity : p.freePayloads.length < p.poolSize) (hroom : p.freeHistorySize < p.poolSize)
    (fuel : Nat) : advanceLoop (fuel + 1) p =
      if (p.nodes node).hasBeenRemoved then advanceLoop fuel (p.giveBack b [node]) else p := by
  have hnode : p.history (slot p.notifiedBegin) = node := by
    rw [hp.notifiedBegin, slot_indexOf p.historySize_pos hp.max]
    exact hp.history 0 (by simp)
  have hne : ¬p.notifiedBegin = p.notifiedEnd := by simp [hp.begin_eq_end]
  have hmax := hp.max
  have hnodes : Function.update p.nodes node { p.nodes node with hasBeenRemoved := false } =
      unmark p.nodes [node] := by
    rw [← unmark_cons]
    exact funext fun m => (if_neg not_mem_nil).symm
  have hwrap : wrap32 (p.freeHistorySize + 1) = p.freeHistorySize + 1 := by
    rw [historySize] at hmax
    exact Nat.mod_eq_of_lt (by omega)
  rw [advanceLoop, if_neg hne, hnode]
  refine if_congr Iff.rfl (congrArg _ ?_) rfl
  simp only [pushBack, setNode, if_pos hcapacity, hnodes, historySize, hwrap, hp.notifiedBegin,
    giveBack]
  rw [advance_indexOf (Nat.succ_pos _) hp.max]
  rfl

/-- The loop gives back the nodes at the beginning of the history that are removed. It stops at the
first one that is not, so removed nodes behind it stay. -/
theorem advanceLoop_eq (hp : p.Lists b w) (hw : w.Nodup)
    (hcapacity : p.freePayloads.length + w.length ≤ p.poolSize)
    (hroom : p.freeHistorySize + w.length = p.poolSize) {fuel : Nat} (hfuel : w.length ≤ fuel) :
    advanceLoop fuel p = p.giveBack b (w.takeWhile fun m => (p.nodes m).hasBeenRemoved) := by
  induction w generalizing p b fuel with
  | nil =>
    rw [takeWhile_nil, giveBack_nil hp.notifiedBegin]
    cases fuel with
    | zero => rfl
    | succ fuel => rw [advanceLoop, if_pos (hp.begin_eq_end.2 rfl)]
  | cons node w ih =>
    obtain ⟨hfresh, hw'⟩ := nodup_cons.1 hw
    rw [length_cons] at hcapacity hroom hfuel
    obtain ⟨fuel, rfl⟩ : ∃ f, fuel = f + 1 := ⟨fuel - 1, by omega⟩
    rw [advanceLoop_succ hp (by omega) (by omega)]
    by_cases hremoved : (p.nodes node).hasBeenRemoved
    · have hmarks : (w.takeWhile fun m => ((p.giveBack b [node]).nodes m).hasBeenRemoved) =
          w.takeWhile fun m => (p.nodes m).hasBeenRemoved := by
        refine takeWhile_congr fun m hm => ?_
        have hne : m ≠ node := fun h => hfresh (h ▸ hm)
        simp [giveBack, unmark, hne]
      rw [if_pos hremoved, ih (hp.giveBack (t := [node])) hw' ?_ ?_ (by omega), hmarks,
        length_singleton, giveBack_cons, takeWhile_cons, if_pos hremoved]
      · simp only [giveBack, length_append, length_singleton]
        omega
      · simp only [giveBack, length_singleton]
        omega
    · rw [if_neg hremoved, takeWhile_cons, if_neg hremoved, giveBack_nil hp.notifiedBegin]

end WriterPool

end EasyDds.Rtps.DataSharing
