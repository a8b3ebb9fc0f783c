import EasyDds.Dds.Publisher.Consistency
import EasyDds.Lib.Run

/-!
Which samples a keyed history with `KEEP_LAST` retains. A full history gives up its oldest sample
whatever instance the new one belongs to.
-/

namespace EasyDds.Dds.DataWriterHistory

open List

open Rtps (SerializedPayload)

def written {H : Type} (writes : List (H × SerializedPayload)) : List (WriterSample H) :=
  writes.zipIdx.map fun write => ⟨write.1.1, write.2 + 1, write.1.2⟩

lemma written_concat {H : Type} (writes : List (H × SerializedPayload))
    (write : H × SerializedPayload) :
    written (writes ++ [write]) = written writes ++ [⟨write.1, writes.length + 1, write.2⟩] := by
  simp [written, zipIdx_append]

variable {H : Type} [LinearOrder H] {cfg : WriterHistoryConfig} {w : DataWriterHistory H}
  {write : H × SerializedPayload} {writes : List (H × SerializedPayload)}

variable (cfg) in
/-- Every instance has its last samples, in the history and in its own list. -/
def Retains (writes : List (H × SerializedPayload)) (w : DataWriterHistory H) : Prop :=
  ∀ h, ofInstance h w.changes = (ofInstance h (written writes)).rtake cfg.depth ∧
    w.instanceChanges h = (ofInstance h (written writes)).rtake cfg.depth

variable (cfg) in
def Succeeds (w : DataWriterHistory H) (write : H × SerializedPayload) : Prop :=
  (w.addPubChange cfg write.1 write.2).1 = true

def OldestFirst (w : DataWriterHistory H) (write : H × SerializedPayload) : Prop :=
  w.isHistoryFull = true → w.changes.head?.map WriterSample.instanceHandle = some write.1

variable (cfg) in
structure Numbered (writes : List (H × SerializedPayload)) (w : DataWriterHistory H) : Prop where
  consistent : Consistent cfg w
  last : w.lastCacheChangeSeqNum = writes.length

namespace Numbered

lemma retains_iff (hw : Numbered cfg writes w) : Retains cfg writes w ↔
    ∀ h, ofInstance h w.changes = (ofInstance h (written writes)).rtake cfg.depth := by
  simp only [Retains, hw.consistent.instances, and_self]

lemma step (hcfg : KeepsLast cfg) (hw : Numbered cfg writes w) (hok : Succeeds cfg w write) :
    Numbered cfg (writes ++ [write]) (step cfg w write) := by
  obtain ⟨hconsistent, hlast, -⟩ := hw.consistent.addPubChange hcfg hok
  refine ⟨hconsistent, hlast.trans ?_⟩
  rw [hw.last, length_append, length_singleton]
  rfl

lemma run (hcfg : KeepsLast cfg)
    (hok : RunsWith (DataWriterHistory.step cfg) (Succeeds cfg) new writes) :
    Numbered cfg writes (run cfg writes) := by
  induction writes using List.reverseRecOn with
  | nil => exact ⟨.new hcfg, rfl⟩
  | append_singleton writes write ih =>
    obtain ⟨hbefore, hlast, -⟩ := RunsWith.append.mp hok
    rw [DataWriterHistory.run, foldl_append]
    exact (ih hbefore).step hcfg hlast

/-- What the samples of an instance should be after one more write: the oldest gives way once there
are `depth` of them, and the new one goes to the end. -/
theorem rtake_concat (hcfg : KeepsLast cfg) (write : H × SerializedPayload) :
    (ofInstance write.1 (written (writes ++ [write]))).rtake cfg.depth =
      (if ((ofInstance write.1 (written writes)).rtake cfg.depth).length < cfg.depth then
        (ofInstance write.1 (written writes)).rtake cfg.depth
      else ((ofInstance write.1 (written writes)).rtake cfg.depth).tail) ++
        [⟨write.1, writes.length + 1, write.2⟩] := by
  obtain ⟨k, hk⟩ : ∃ k, cfg.depth = k + 1 := ⟨cfg.depth - 1, by have := hcfg.depth; omega⟩
  rw [hk, ← rtake_of_rtake_succ, ← rtake_concat_succ, written_concat, ofInstance_append]
  simp [ofInstance]

lemma ofInstance_concat_of_ne {h : H} (hne : h ≠ write.1) :
    ofInstance h (written (writes ++ [write])) = ofInstance h (written writes) := by
  rw [written_concat, ofInstance_append]
  simp [ofInstance, hne.symm]

/-- A write to a full history leaves one sample less of the instance of the oldest one, and needs
one less of its own. -/
theorem retains_step_iff (hcfg : KeepsLast cfg) (hw : Numbered cfg writes w)
    (hok : Succeeds cfg w write) (hretains : Retains cfg writes w) :
    Retains cfg (writes ++ [write]) (DataWriterHistory.step cfg w write) ↔ OldestFirst w write := by
  obtain ⟨-, -, hothers, hown⟩ := hw.consistent.addPubChange hcfg hok
  rw [hw.retains_iff] at hretains
  rw [(hw.step hcfg hok).retains_iff]
  rw [hw.last] at hown
  cases hfull : w.isHistoryFull with
  | false =>
    rw [show w.afterMakeRoom = w.changes by simp [afterMakeRoom, hfull]] at hothers hown
    refine iff_of_true (fun h => ?_) (by simp [OldestFirst, hfull])
    by_cases hh : h = write.1
    · subst hh
      rw [rtake_concat hcfg, ← hretains]
      exact hown
    · rw [ofInstance_concat_of_ne hh, ← hretains]
      exact hothers h hh
  | true =>
    rw [show w.afterMakeRoom = w.changes.tail by simp [afterMakeRoom, hfull]] at hothers hown
    cases hchanges : w.changes with
    | nil =>
      have hcapacity := (Consistent.new (H := H) hcfg).full.mpr
        (by simpa [hchanges, new] using hw.consistent.full.mp hfull)
      cases hcapacity
    | cons oldest rest =>
      have hcount := hw.consistent.length_ofInstance_of_full hfull
        (hchanges ▸ mem_cons_self : oldest ∈ w.changes)
      have hsplit : ofInstance oldest.instanceHandle w.changes =
          oldest :: ofInstance oldest.instanceHandle rest := by
        rw [hchanges]
        simp [ofInstance]
      rw [hsplit, length_cons] at hcount
      rw [hchanges, tail_cons] at hothers hown
      have holdest : OldestFirst w write ↔ oldest.instanceHandle = write.1 := by
        simp [OldestFirst, hfull, hchanges]
      rw [holdest]
      constructor
      · intro hkept
        by_contra hne
        -- the instance of the oldest sample has one sample less than it should have
        have hlost := hothers _ hne
        rw [← DataWriterHistory.step, hkept, ofInstance_concat_of_ne hne, ← hretains,
          hsplit] at hlost
        have hlength := congrArg List.length hlost
        rw [length_cons] at hlength
        omega
      · intro heq h
        by_cases hh : h = write.1
        · subst hh
          rw [heq] at hsplit hcount
          rw [if_pos (by omega)] at hown
          rw [rtake_concat hcfg, ← hretains, hsplit, if_neg (by rw [length_cons]; omega), tail_cons]
          exact hown
        · rw [ofInstance_concat_of_ne hh, ← hretains, hchanges]
          refine (hothers h hh).trans ?_
          simp [ofInstance, show oldest.instanceHandle ≠ h from fun h' => hh (h' ▸ heq)]

end Numbered

/-- After each of the successful writes every instance has its last samples, exactly if each write
to a full history is one to the instance of the oldest sample. -/
theorem retains_last_samples_iff (hcfg : KeepsLast cfg)
    (hok : RunsWith (step cfg) (Succeeds cfg) new writes) :
    (∀ sofar, sofar <+: writes → Retains cfg sofar (run cfg sofar)) ↔
      RunsWith (step cfg) OldestFirst new writes := by
  induction writes using List.reverseRecOn with
  | nil =>
    refine iff_of_true (fun sofar hsofar => ?_) trivial
    obtain rfl := prefix_nil.mp hsofar
    exact (Numbered.run hcfg hok).retains_iff.mpr fun h => by simp [run, new, ofInstance, written]
  | append_singleton writes write ih =>
    obtain ⟨hbefore, hlast, -⟩ := RunsWith.append.mp hok
    have hrun : run cfg (writes ++ [write]) = step cfg (run cfg writes) write := by
      rw [run, foldl_append]
      rfl
    have hnumbered := Numbered.run hcfg hbefore
    rw [RunsWith.append, ← ih hbefore]
    constructor
    · intro hall
      have hleades := fun sofar hsofar =>
        hall sofar (List.IsPrefix.trans hsofar (prefix_append ..))
      have hafter := hall _ prefix_rfl
      rw [hrun, hnumbered.retains_step_iff hcfg hlast (hleades _ prefix_rfl)] at hafter
      exact ⟨hleades, hafter, trivial⟩
    · rintro ⟨hall, holdest, -⟩ sofar hsofar
      rcases prefix_concat_iff.mp hsofar with rfl | hsofar
      · rw [hrun]
        exact (hnumbered.retains_step_iff hcfg hlast (hall _ prefix_rfl)).mpr holdest
      · exact hall sofar hsofar

def sampleConfig : WriterHistoryConfig where
  kind := .keepLast
  depth := 1
  topicKind := .withKey
  maxSamples := 2
  maxInstances := 2
  maxSamplesPerInstance := 1
  isPreallocated := false
  payloadMaxSize := 8
  acknowledged := fun _ => true

lemma keepsLast_sampleConfig : KeepsLast sampleConfig where
  kind := rfl
  topicKind := rfl
  depth := by decide
  maxInstances := by decide

def sampleWrites (writes : List (Nat × UInt8)) : List (Nat × SerializedPayload) :=
  writes.map fun write => (write.1, ⟨1, fun _ => write.2, 1⟩)

theorem retains_last_samples_in_turn : RunsWith (step sampleConfig) (Succeeds sampleConfig) new
        (sampleWrites [(1, 10), (2, 20), (1, 11)]) ∧
      RunsWith (step sampleConfig) OldestFirst new (sampleWrites [(1, 10), (2, 20), (1, 11)]) ∧
      Retains sampleConfig (sampleWrites [(1, 10), (2, 20), (1, 11)])
        (run sampleConfig (sampleWrites [(1, 10), (2, 20), (1, 11)])) := by
  have hok : RunsWith (step sampleConfig) (Succeeds sampleConfig) new
      (sampleWrites [(1, 10), (2, 20), (1, 11)]) := by
    simp only [RunsWith, Succeeds, sampleWrites, List.map]
    decide
  have holdest : RunsWith (step sampleConfig) OldestFirst new
      (sampleWrites [(1, 10), (2, 20), (1, 11)]) := by
    simp only [RunsWith, OldestFirst, sampleWrites, List.map]
    decide
  exact ⟨hok, holdest,
    (retains_last_samples_iff keepsLast_sampleConfig hok).mpr holdest _ prefix_rfl⟩

/-- The second sample of instance 2 removes the only one of instance 1. -/
theorem retains_last_samples_lost : RunsWith (step sampleConfig) (Succeeds sampleConfig) new
        (sampleWrites [(1, 10), (2, 20), (2, 21)]) ∧
      (ofInstance 1 (run sampleConfig
        (sampleWrites [(1, 10), (2, 20), (2, 21)])).changes).length = 0 ∧
      (ofInstance 1 (written (sampleWrites [(1, 10), (2, 20), (2, 21)]))).length = 1 ∧
      ¬ Retains sampleConfig (sampleWrites [(1, 10), (2, 20), (2, 21)])
        (run sampleConfig (sampleWrites [(1, 10), (2, 20), (2, 21)])) := by
  refine ⟨?_, by decide, by decide, fun hretains => ?_⟩
  · simp only [RunsWith, Succeeds, sampleWrites, List.map]
    decide
  · exact absurd (congrArg List.length (hretains 1).1) (by decide)

end EasyDds.Dds.DataWriterHistory
