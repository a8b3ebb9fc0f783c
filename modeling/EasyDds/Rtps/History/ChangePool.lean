import EasyDds.Lib.Unordered
import EasyDds.Rtps.History.ReaderHistory

/-!
`CacheChangePool` and the changes that its users hold.
-/

namespace EasyDds.Rtps

open List

structure PoolConfig where
  memoryPolicy : MemoryPolicy
  initialSize : Nat
  maximumSize : Nat

def MemoryPolicy.inGroups : MemoryPolicy → Bool
  | .preallocated | .preallocatedWithRealloc => true
  | _ => false

/-- The pool. Changes are numbered in the order in which they are created. -/
structure CacheChangePool where
  memoryMode : MemoryPolicy
  currentPoolSize : Nat
  maxPoolSize : Nat
  freeCaches : List Nat
  allCaches : List Nat
  created : Nat

namespace CacheChangePool

def allocateGroup (p : CacheChangePool) (groupSize : Nat) : Bool × CacheChangePool :=
  let desiredSize := min (wrap32 (p.currentPoolSize + groupSize)) p.maxPoolSize
  let groupSize := if p.maxPoolSize < wrap32 (p.currentPoolSize + groupSize) then
    sub32 p.maxPoolSize p.currentPoolSize else groupSize
  if groupSize = 0 then (false, p)
  else
    let changes := range' p.created (desiredSize - p.currentPoolSize)
    (true, { p with
      currentPoolSize := p.currentPoolSize + changes.length
      freeCaches := p.freeCaches ++ changes
      allCaches := p.allCaches ++ changes
      created := p.created + changes.length })

def allocateSingle (p : CacheChangePool) : Option Nat × CacheChangePool :=
  if p.currentPoolSize < p.maxPoolSize then
    (some p.created, { p with
      currentPoolSize := p.currentPoolSize + 1
      allCaches := p.allCaches ++ [p.created]
      created := p.created + 1 })
  else (none, p)

def init (config : PoolConfig) : CacheChangePool :=
  let p : CacheChangePool := {
    memoryMode := config.memoryPolicy
    currentPoolSize := 0
    maxPoolSize := if 0 < config.maximumSize then max config.initialSize config.maximumSize
      else 2 ^ 32 - 1
    freeCaches := []
    allCaches := []
    created := 0 }
  if p.memoryMode.inGroups then (p.allocateGroup (max config.initialSize 1)).2 else p

/-- `(uint16_t)(ceil((float)n / 10) + 10)`. -/
def growth (n : Nat) : Nat := ((n + 9) / 10 + 10) % 2 ^ 16

def takeFree (p : CacheChangePool) : Option Nat × CacheChangePool :=
  (p.freeCaches.getLast?, { p with freeCaches := p.freeCaches.dropLast })

def reserveCache (p : CacheChangePool) : Option Nat × CacheChangePool :=
  if p.freeCaches = [] then
    if p.memoryMode.inGroups then
      let group := p.allocateGroup (growth p.currentPoolSize)
      if group.1 then group.2.takeFree else (none, p)
    else p.allocateSingle
  else p.takeFree

def releaseCache (p : CacheChangePool) (change : Nat) : CacheChangePool :=
  if p.memoryMode = .dynamicReserve then
    match swapRemove (· == change) p.allCaches with
    | some rest => { p with allCaches := rest, currentPoolSize := sub32 p.currentPoolSize 1 }
    | none => p
  else { p with freeCaches := p.freeCaches ++ [change] }

def Exact (p : CacheChangePool) : Prop := p.memoryMode.inGroups = true → p.currentPoolSize < 2 ^ 24

/-- The pools and the changes in use that calls lead to. A change is released by its holder. -/
inductive Reached (config : PoolConfig) : CacheChangePool → List Nat → Prop
  | init : Reached config (init config) []
  | reserve {p : CacheChangePool} {held : List Nat} (h : Reached config p held) (hexact : p.Exact) :
      Reached config p.reserveCache.2 (p.reserveCache.1.toList ++ held)
  | release {p : CacheChangePool} {held : List Nat} {change : Nat} (h : Reached config p held)
      (hheld : change ∈ held) : Reached config (p.releaseCache change) (held.erase change)

structure Inv (p : CacheChangePool) (held : List Nat) : Prop where
  parts : p.allCaches.Perm (p.freeCaches ++ held)
  nodup : p.allCaches.Nodup
  earlier : ∀ c ∈ p.allCaches, c < p.created
  size : p.currentPoolSize = p.allCaches.length
  bounded : p.currentPoolSize ≤ p.maxPoolSize
  max_lt : p.maxPoolSize < 2 ^ 32
  unshared : p.memoryMode = .dynamicReserve → p.freeCaches = []

variable {p : CacheChangePool} {held : List Nat}

lemma Inv.held_length (h : p.Inv held) : p.currentPoolSize = p.freeCaches.length + held.length := by
  rw [h.size, h.parts.length_eq, length_append]

/-- New changes differ from all others. -/
theorem Inv.nodup_append (h : p.Inv held) (n : Nat) :
    (p.allCaches ++ range' p.created n).Nodup := by
  refine nodup_append'.mpr ⟨h.nodup, nodup_range', fun c hold hnew => ?_⟩
  have hlt := h.earlier c hold
  rw [mem_range'_1] at hnew
  omega

/-- A group is allocated unless its size is zero or the pool is full: the size is cut to what the
maximum leaves, which is zero for a full pool only. -/
theorem allocateGroup_spec (h : p.Inv held) {n : Nat} (hn : p.currentPoolSize + n < 2 ^ 32)
    (hmode : p.memoryMode.inGroups = true) :
    ((p.allocateGroup n).1 = false ↔ n = 0 ∨ p.currentPoolSize = p.maxPoolSize) ∧
      (p.allocateGroup n).2.Inv held ∧
      ((p.allocateGroup n).1 = true → (p.allocateGroup n).2.freeCaches ≠ []) := by
  have hbounded := h.bounded
  have hmax := h.max_lt
  have hshared : p.memoryMode ≠ .dynamicReserve := by
    rintro hd
    rw [hd] at hmode
    cases hmode
  have hsub : sub32 p.maxPoolSize p.currentPoolSize = p.maxPoolSize - p.currentPoolSize :=
    sub32_of_le hbounded
  simp only [allocateGroup, wrap32, Nat.mod_eq_of_lt hn, hsub]
  split_ifs with hclip hzero hzero
  case pos | pos => exact ⟨by simp; omega, h, by simp⟩
  all_goals
    refine ⟨by simp; omega, ⟨?_, h.nodup_append _, fun c hc => ?_, ?_, ?_, hmax,
      fun hd => absurd hd hshared⟩, fun _ hnil => ?_⟩
    · rw [append_assoc]
      exact (h.parts.append_right _).trans ((append_assoc ..).symm ▸ perm_append_comm.append_left _)
    · rw [mem_append, mem_range'_1] at hc
      rcases hc with hold | hnew
      · exact Nat.lt_add_right _ (h.earlier c hold)
      · simpa using hnew.2
    · simp [h.size]
    · simp only [length_range']
      omega
    · have hlen := congrArg List.length hnil
      simp only [length_append, length_range', length_nil] at hlen
      omega

lemma takeFree_spec (h : p.Inv held) (hne : p.freeCaches ≠ []) :
    p.takeFree.1 ≠ none ∧ p.takeFree.2.Inv (p.takeFree.1.toList ++ held) := by
  rw [takeFree, getLast?_eq_some_getLast hne]
  refine ⟨by simp, { h with parts := ?_, unshared hd := absurd (h.unshared hd) hne }⟩
  refine h.parts.trans ?_
  conv_lhs => rw [← dropLast_append_getLast hne]
  rw [append_assoc]
  rfl

lemma allocateSingle_spec (h : p.Inv held) (hfree : p.freeCaches = []) :
    (p.allocateSingle.1 = none ↔ p.currentPoolSize = p.maxPoolSize) ∧
      p.allocateSingle.2.Inv (p.allocateSingle.1.toList ++ held) := by
  have hbounded := h.bounded
  have hparts := h.parts
  rw [hfree, nil_append] at hparts
  rw [allocateSingle]
  split_ifs with hroom
  · refine ⟨by simp; omega, ?_, h.nodup_append 1, fun c hc => ?_, by simp [h.size], hroom,
      h.max_lt, fun _ => hfree⟩
    · rw [hfree]
      exact (hparts.append_right _).trans perm_append_comm
    · rcases mem_append.mp hc with hold | hnew
      · exact Nat.lt_succ_of_lt (h.earlier c hold)
      · rw [mem_singleton.mp hnew]
        exact Nat.lt_succ_self _
  · exact ⟨by simp; omega, h⟩

/-- Reserving fails if the pool is full, or if the size of the next group is zero, which is what a
`uint16_t` makes of the growth of some large pools. -/
theorem reserveCache_spec (h : p.Inv held) (hexact : p.Exact) :
    (p.reserveCache.1 = none ↔ p.freeCaches = [] ∧ (p.currentPoolSize = p.maxPoolSize ∨
      p.memoryMode.inGroups = true ∧ growth p.currentPoolSize = 0)) ∧
      p.reserveCache.2.Inv (p.reserveCache.1.toList ++ held) := by
  rw [reserveCache]
  dsimp only
  by_cases hfree : p.freeCaches = []
  · by_cases hmode : p.memoryMode.inGroups = true
    · have hsmall := hexact hmode
      have hgrowth : growth p.currentPoolSize < 2 ^ 16 := Nat.mod_lt _ (by decide)
      obtain ⟨hfails, hinv, hne⟩ := allocateGroup_spec h (n := growth p.currentPoolSize)
        (by omega) hmode
      cases hgroup : (p.allocateGroup (growth p.currentPoolSize)).1 with
      | true =>
        have htaken := takeFree_spec hinv (hne hgroup)
        simp only [hgroup, Bool.true_eq_false, false_iff] at hfails
        simp only [hmode, if_true, htaken.1, hfree, true_and, false_iff]
        exact ⟨by tauto, htaken.2⟩
      | false =>
        have hwhy := hfails.mp hgroup
        simp only [hmode, if_true, hfree, true_and, Bool.false_eq_true, if_false, true_iff]
        exact ⟨hwhy.symm, h⟩
    · simpa [hfree, hmode] using allocateSingle_spec h hfree
  · rw [if_neg hfree]
    have htaken := takeFree_spec h hfree
    exact ⟨iff_of_false htaken.1 (by tauto), htaken.2⟩

lemma releaseCache_spec (h : p.Inv held) {change : Nat} (hheld : change ∈ held) :
    (p.releaseCache change).Inv (held.erase change) := by
  have hperm := perm_cons_erase hheld
  rw [releaseCache]
  split_ifs with hmode
  · have hparts := h.parts
    rw [h.unshared hmode, nil_append] at hparts
    rcases swapRemove_spec (· == change) p.allCaches with ⟨-, hall⟩ | ⟨x, rest, heq, hx, hrest⟩
    · simpa using hall change (hparts.mem_iff.mpr hheld)
    rw [heq]
    obtain rfl : x = change := by simpa using hx
    have hlen := hrest.length_eq
    have hsize := h.size
    have hbounded := h.bounded
    have hmax := h.max_lt
    rw [length_cons] at hlen
    have hsub : sub32 p.currentPoolSize 1 = p.currentPoolSize - 1 := sub32_of_le (by omega)
    refine ⟨?_, (nodup_cons.mp (hrest.nodup_iff.mp h.nodup)).2,
      fun c hc => h.earlier c (hrest.mem_iff.mpr (mem_cons_of_mem _ hc)), ?_, ?_, hmax, h.unshared⟩
    · rw [h.unshared hmode]
      exact (perm_cons x).mp ((hrest.symm.trans hparts).trans hperm)
    all_goals dsimp only; omega
  · refine { h with parts := h.parts.trans ?_, unshared hd := absurd hd hmode }
    rw [append_assoc]
    exact hperm.append_left _

section

variable {config : PoolConfig} (hinitial : config.initialSize < 2 ^ 24)
  (hmaximum : config.maximumSize < 2 ^ 24)
include hinitial hmaximum

lemma init_inv : (init config).Inv [] := by
  rw [init]
  have hmax : (if 0 < config.maximumSize then max config.initialSize config.maximumSize
      else 2 ^ 32 - 1) < 2 ^ 32 := by
    split_ifs <;> omega
  generalize (if 0 < config.maximumSize then _ else _) = m at hmax ⊢
  have hempty : Inv ⟨config.memoryPolicy, 0, m, [], [], 0⟩ [] :=
    ⟨.refl _, nodup_nil, by simp, rfl, Nat.zero_le _, hmax, fun _ => rfl⟩
  split_ifs with hmode
  · exact (allocateGroup_spec hempty (by dsimp only; omega) hmode).2.1
  · exact hempty

lemma Reached.inv (h : Reached config p held) : p.Inv held := by
  induction h with
  | init => exact init_inv hinitial hmaximum
  | reserve _ hexact ih => exact (reserveCache_spec ih hexact).2
  | release _ hheld ih => exact releaseCache_spec ih hheld

/-- The free changes and those in use are the changes of the pool, each of them once. Reserving
fails exactly if all changes that the pool may have are in use, unless the pool has a size for
which the size of the next group is zero as a `uint16_t`. -/
theorem Reached.reserveCache_fails_iff (h : Reached config p held) (hexact : p.Exact) :
    p.allCaches.Perm (p.freeCaches ++ held) ∧ (p.freeCaches ++ held).Nodup ∧
      ((p.reserveCache.1 = none ↔ held.length = p.maxPoolSize) ↔
        ¬(p.memoryMode.inGroups = true ∧ p.freeCaches = [] ∧ p.currentPoolSize < p.maxPoolSize ∧
          655251 ≤ p.currentPoolSize % 655360 ∧ p.currentPoolSize % 655360 ≤ 655260)) := by
  have hinv := h.inv hinitial hmaximum
  have hbounded := hinv.bounded
  have hlen := hinv.held_length
  refine ⟨hinv.parts, hinv.parts.nodup_iff.mp hinv.nodup, ?_⟩
  have hzero : growth p.currentPoolSize = 0 ↔
      655251 ≤ p.currentPoolSize % 655360 ∧ p.currentPoolSize % 655360 ≤ 655260 := by
    rw [growth]
    omega
  rw [(reserveCache_spec hinv hexact).1, ← hzero, ← length_eq_zero_iff]
  constructor
  · rintro hiff ⟨hmode, hfree, hroom, hgrowth⟩
    have := hiff.mp ⟨hfree, .inr ⟨hmode, hgrowth⟩⟩
    omega
  · refine fun hgrows => ⟨?_, fun hall => ⟨by omega, .inl (by omega)⟩⟩
    rintro ⟨hfree, hfull | ⟨hmode, hgrowth⟩⟩
    · omega
    · by_contra hne
      exact hgrows ⟨hmode, hfree, by omega, hgrowth⟩

end

/-- A pool of at most two changes that has grown by a group, and got one of its changes back. -/
theorem reserveCache_fails_iff_grown :
    ∃ p : CacheChangePool, Reached ⟨.preallocated, 1, 2⟩ p [0, 1] ∧ p.Exact ∧
      p.memoryMode.inGroups = true ∧ p.currentPoolSize = 2 ∧
      (p.reserveCache.1 = none ↔ [0, 1].length = p.maxPoolSize) := by
  have hfirst : Reached ⟨.preallocated, 1, 2⟩ _ [0] := Reached.init.reserve fun _ => by decide
  have hsecond : Reached ⟨.preallocated, 1, 2⟩ _ [1, 0] := hfirst.reserve fun _ => by decide
  have hback : Reached ⟨.preallocated, 1, 2⟩ _ [1] := hsecond.release (by decide : 0 ∈ [1, 0])
  have hagain : Reached ⟨.preallocated, 1, 2⟩ _ [0, 1] := hback.reserve fun _ => by decide
  refine ⟨_, hagain, fun _ => by decide, by decide, by decide, ?_⟩
  exact (Reached.reserveCache_fails_iff (by decide) (by decide) hagain fun _ => by decide).2.2.mpr
    (by decide)

/-- All free changes can be reserved, one after the other, without a group being allocated on the
way. -/
theorem Reached.exhausted {config : PoolConfig} (h : Reached config p held) (hexact : p.Exact) :
    ∃ q held', Reached config q held' ∧ q.freeCaches = [] ∧ q.memoryMode = p.memoryMode ∧
      q.currentPoolSize = p.currentPoolSize ∧ q.maxPoolSize = p.maxPoolSize := by
  induction hn : p.freeCaches.length generalizing p held with
  | zero => exact ⟨p, held, h, length_eq_zero_iff.mp hn, rfl, rfl, rfl⟩
  | succ n ih =>
    have htake : p.reserveCache = p.takeFree := if_neg (by rintro hnil; simp [hnil] at hn)
    have hnext := h.reserve hexact
    rw [htake] at hnext
    exact ih (p := p.takeFree.2) hnext hexact (by simp [takeFree, hn])

lemma init_unlimited {n : Nat} (hpos : 0 < n) (hn : n < 2 ^ 24) :
    (init ⟨.preallocated, n, 0⟩).currentPoolSize = n ∧
      (init ⟨.preallocated, n, 0⟩).maxPoolSize = 2 ^ 32 - 1 := by
  have hwrap : wrap32 (max n 1) = n := by
    rw [wrap32]
    omega
  have hle : ¬2 ^ 32 - 1 < n := by omega
  have hmin : min n (2 ^ 32 - 1) = n := by omega
  have hne : max n 1 ≠ 0 := by omega
  simp only [init, allocateGroup, MemoryPolicy.inGroups, hwrap, Nat.lt_irrefl, if_true, if_false,
    if_neg hle, if_neg hne, hmin, length_range', Nat.sub_zero, Nat.zero_add, and_self]

/-- With 655260 changes the next group is to have 65536 of them, which a `uint16_t` has as zero. -/
theorem reserveCache_fails_early : ∃ p held, Reached ⟨.preallocated, 655260, 0⟩ p held ∧
    p.reserveCache.1 = none ∧ held.length ≠ p.maxPoolSize := by
  obtain ⟨hcurrent, hunlimited⟩ := init_unlimited (n := 655260) (by decide) (by decide)
  have hinit : Reached ⟨.preallocated, 655260, 0⟩ _ _ := .init
  obtain ⟨p, held, hreached, hfree, hmode, hsize, hmax⟩ :=
    hinit.exhausted fun _ => by rw [hcurrent]; decide
  rw [hcurrent] at hsize
  have hinv := hreached.inv (by decide) (by decide)
  have hlen := hinv.held_length
  refine ⟨p, held, hreached, ?_, by omega⟩
  exact (reserveCache_spec hinv fun _ => by omega).1.mpr
    ⟨hfree, .inr ⟨by rw [hmode]; rfl, by rw [hsize]; decide⟩⟩

end CacheChangePool

end EasyDds.Rtps
