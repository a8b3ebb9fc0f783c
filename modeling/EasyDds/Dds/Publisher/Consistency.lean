import EasyDds.Dds.Publisher.WriterHistory
import EasyDds.Lib.Counting

/-!
How the changes of a keyed history with `KEEP_LAST` and the lists of its instances stay together,
and what a write does to them.
-/

namespace EasyDds.Dds.DataWriterHistory

open DataWriterHistory List Option

open Rtps (SerializedPayload)

variable {H : Type} [LinearOrder H] {cfg : WriterHistoryConfig} {w : DataWriterHistory H}
  {c : WriterSample H} {handle h : H} {payload : SerializedPayload}

def ofInstance (h : H) (samples : List (WriterSample H)) : List (WriterSample H) :=
  samples.filter fun c => decide (c.instanceHandle = h)

def without (sequenceNumber : Int) (samples : List (WriterSample H)) : List (WriterSample H) :=
  samples.filter fun c => decide (c.sequenceNumber ≠ sequenceNumber)

lemma ofInstance_without (h : H) (n : Int) (samples : List (WriterSample H)) :
    ofInstance h (without n samples) = without n (ofInstance h samples) := by
  simp [ofInstance, without, List.filter_filter, Bool.and_comm]

lemma mem_ofInstance {samples : List (WriterSample H)} :
    c ∈ ofInstance h samples ↔ c ∈ samples ∧ c.instanceHandle = h := by
  simp [ofInstance]

lemma ofInstance_append (samples more : List (WriterSample H)) :
    ofInstance h (samples ++ more) = ofInstance h samples ++ ofInstance h more :=
  filter_append ..

section Numbers

variable {samples : List (WriterSample H)}

omit [LinearOrder H] in
/-- In a list in the order of the numbers, erasing a number is filtering it out, as it is there at
most once. -/
theorem eraseP_isNumber (hsorted : samples.Pairwise fun a b => a.sequenceNumber < b.sequenceNumber)
    (n : Int) : samples.eraseP (isNumber n) = without n samples := by
  induction samples with
  | nil => rfl
  | cons a samples ih =>
    rw [pairwise_cons] at hsorted
    by_cases ha : a.sequenceNumber = n
    · have hrest : without n samples = samples := by
        rw [without, filter_eq_self]
        intro b hb
        have hlt := hsorted.1 b hb
        simp only [decide_eq_true_eq]
        omega
      rw [eraseP_cons_of_pos (by simpa [isNumber] using ha), without,
        filter_cons_of_neg (by simpa using ha)]
      exact hrest.symm
    · rw [eraseP_cons_of_neg (by simpa [isNumber] using ha), ih hsorted.2, without, without,
        filter_cons_of_pos (by simpa using ha)]

omit [LinearOrder H] in
/-- Without its first number, such a list is its tail. -/
theorem without_head (hsorted : (c :: samples).Pairwise fun a b => a.sequenceNumber <
    b.sequenceNumber) : without c.sequenceNumber (c :: samples) = samples := by
  rw [← eraseP_isNumber hsorted, eraseP_cons_of_pos (by simp [isNumber])]

end Numbers

variable (cfg) in
structure Consistent (w : DataWriterHistory H) : Prop where
  sorted : w.changes.Pairwise fun a b => a.sequenceNumber < b.sequenceNumber
  written : ∀ c ∈ w.changes, c.sequenceNumber ≤ w.lastCacheChangeSeqNum
  instances : ∀ h, w.instanceChanges h = ofInstance h w.changes
  known : ∀ c ∈ w.changes, (w.keyedChanges.find? c.instanceHandle).isSome
  instancesLimit : (w.keyedChanges.entries.length : Int) ≤ cfg.maxInstances
  depth : ∀ h, (ofInstance h w.changes).length ≤ cfg.depth
  full : w.isHistoryFull = true ↔ (w.changes.length : Int) = cfg.depth * cfg.maxInstances

def afterMakeRoom (w : DataWriterHistory H) : List (WriterSample H) :=
  if w.isHistoryFull then w.changes.tail else w.changes

structure KeepsLast (cfg : WriterHistoryConfig) : Prop where
  kind : cfg.kind = .keepLast
  topicKind : cfg.topicKind = .withKey
  depth : 1 ≤ cfg.depth
  maxInstances : 1 ≤ cfg.maxInstances

namespace Consistent

lemma new (hcfg : KeepsLast cfg) : Consistent cfg (new : DataWriterHistory H) where
  sorted := .nil
  written := by simp [DataWriterHistory.new]
  instances h := by simp [instanceChanges, DataWriterHistory.new, OrderedMap.find?, ofInstance]
  known := by simp [DataWriterHistory.new]
  instancesLimit := by
    have h := hcfg.maxInstances
    simp only [DataWriterHistory.new, OrderedMap.entries_empty, length_nil]
    omega
  depth h := by simp [DataWriterHistory.new, ofInstance]
  full := by
    have hdepth := hcfg.depth
    have hinstances := hcfg.maxInstances
    have hpos : 0 < (cfg.depth : Int) * cfg.maxInstances := Int.mul_pos (by omega) (by omega)
    simp only [DataWriterHistory.new, length_nil, Bool.false_eq_true, false_iff]
    omega

/-- A number belongs to one change. -/
theorem eq_of_number (hw : Consistent cfg w) {d : WriterSample H} (hc : c ∈ w.changes)
    (hd : d ∈ w.changes) (hnumber : d.sequenceNumber = c.sequenceNumber) : d = c := by
  have hnodup : (w.changes.map WriterSample.sequenceNumber).Nodup := by
    rw [List.Nodup, pairwise_map]
    exact hw.sorted.imp fun hlt => ne_of_lt hlt
  exact inj_on_of_nodup_map hnodup hd hc hnumber

lemma handles_nodup (w : DataWriterHistory H) : (w.keyedChanges.entries.map Prod.fst).Nodup := by
  rw [List.Nodup, pairwise_map]
  exact w.keyedChanges.sorted.imp fun hlt => ne_of_lt hlt

lemma length_eq (hw : Consistent cfg w) : w.changes.length =
      ((w.keyedChanges.entries.map Prod.fst).map fun h => (ofInstance h w.changes).length).sum := by
  refine length_eq_sum_fibers (f := WriterSample.instanceHandle) (handles_nodup w) fun c hc => ?_
  obtain ⟨cached, hfind⟩ := isSome_iff_exists.mp (hw.known c hc)
  obtain ⟨e, he, hkey, -⟩ := OrderedMap.find?_eq_some.mp hfind
  exact mem_map.mpr ⟨e, he, hkey⟩

lemma fiber_le (hw : Consistent cfg w) :
    ∀ n ∈ (w.keyedChanges.entries.map Prod.fst).map fun h => (ofInstance h w.changes).length,
      n ≤ cfg.depth := by
  intro n hn
  obtain ⟨h, -, rfl⟩ := mem_map.mp hn
  exact hw.depth h

/-- A history does not outgrow its instances; if it has the size of all of them, they are full. Its
changes are counted by instance, and none has more than `depth`. -/
theorem length_le (hw : Consistent cfg w) (hc : c ∈ w.changes) :
    (w.changes.length : Int) + (cfg.depth - (ofInstance c.instanceHandle w.changes).length) ≤
      cfg.depth * cfg.maxInstances := by
  obtain ⟨cached, hfind⟩ := isSome_iff_exists.mp (hw.known c hc)
  obtain ⟨e, he, hkey, -⟩ := OrderedMap.find?_eq_some.mp hfind
  have hsum := sum_add_sub_le hw.fiber_le (x := (ofInstance c.instanceHandle w.changes).length)
    (mem_map.mpr ⟨c.instanceHandle, mem_map.mpr ⟨e, he, hkey⟩, rfl⟩)
  rw [← hw.length_eq, length_map, length_map] at hsum
  have hlimit : (cfg.depth : Int) * w.keyedChanges.entries.length ≤ cfg.depth * cfg.maxInstances :=
    Int.mul_le_mul_of_nonneg_left hw.instancesLimit (by omega)
  omega

section KeepsLast

variable (hcfg : KeepsLast cfg)
include hcfg

/-- A change of the history is removed from it and from its instance, so the two still have the same
changes, and the history has room again. -/
theorem removeChangePub (hw : Consistent cfg w) (hc : c ∈ w.changes) :
    ∃ w' : DataWriterHistory H, w.removeChangePub cfg c = (true, w') ∧ Consistent cfg w' ∧
      w'.changes = without c.sequenceNumber w.changes ∧ w'.isHistoryFull = false ∧
      w'.lastCacheChangeSeqNum = w.lastCacheChangeSeqNum ∧
      ∀ h, (w'.keyedChanges.find? h).isSome = (w.keyedChanges.find? h).isSome := by
  have hisSome : ∀ h, ((w.keyedChanges.modify c.instanceHandle fun cached =>
      cached.eraseP (isNumber c.sequenceNumber)).find? h).isSome =
        (w.keyedChanges.find? h).isSome := by
    intro h
    rw [OrderedMap.find?_modify]
    split <;> simp
  have hinstance : (w.instanceChanges c.instanceHandle).any (isNumber c.sequenceNumber) = true := by
    rw [hw.instances, List.any_eq_true]
    exact ⟨c, mem_ofInstance.mpr ⟨hc, rfl⟩, by simp [isNumber]⟩
  have hany : w.changes.any (isNumber c.sequenceNumber) = true :=
    any_eq_true.mpr ⟨c, hc, by simp [isNumber]⟩
  have hshorter : (without c.sequenceNumber w.changes).length < w.changes.length := by
    rw [without, length_filter_lt_length_iff_exists]
    exact ⟨c, hc, by simp⟩
  refine ⟨⟨without c.sequenceNumber w.changes, false, w.keyedChanges.modify c.instanceHandle
    fun cached => cached.eraseP (isNumber c.sequenceNumber), w.lastCacheChangeSeqNum⟩, ?_, ?_, rfl,
    rfl, rfl, hisSome⟩
  · rw [DataWriterHistory.removeChangePub, hcfg.topicKind]
    simp only [hinstance, if_true, removeChange, hany, eraseP_isNumber hw.sorted]
  · refine ⟨hw.sorted.sublist filter_sublist, fun d hd => hw.written d (mem_filter.mp hd).1, fun h
      => ?_, fun d hd => ?_, ?_, fun h => ?_, ?_⟩
    · have hold := hw.instances h
      rw [instanceChanges] at hold ⊢
      rw [OrderedMap.find?_modify, ofInstance_without]
      split
      · rename_i hsame
        obtain rfl : h = c.instanceHandle := hsame
        cases hfind : w.keyedChanges.find? c.instanceHandle with
        | none =>
          rw [hfind] at hold
          simp [← hold, without]
        | some cached =>
          rw [hfind, getD_some] at hold
          rw [map_some, getD_some, hold]
          exact eraseP_isNumber (hw.sorted.sublist filter_sublist) _
      · rename_i hother
        rw [hold, without, filter_eq_self.mpr]
        intro d hd
        obtain ⟨hmem, rfl⟩ := mem_ofInstance.mp hd
        have hne : d.sequenceNumber ≠ c.sequenceNumber :=
          fun hnumber => hother (by rw [hw.eq_of_number hc hmem hnumber])
        simpa using hne
    · exact (hisSome _).trans (hw.known d (mem_filter.mp hd).1)
    · simpa [OrderedMap.modify] using hw.instancesLimit
    · rw [ofInstance_without]
      exact Nat.le_trans (length_filter_le _ _) (hw.depth h)
    · have hlength := hw.length_le hc
      have hdepth := hw.depth c.instanceHandle
      simp only [Bool.false_eq_true, false_iff]
      omega

/-- `find_or_add_key` changes nothing but the set of known instances. -/
theorem findOrAddKey (hw : Consistent cfg w) {known : DataWriterHistory H}
    (hknown : w.findOrAddKey cfg handle = some known) :
    Consistent cfg known ∧ known.changes = w.changes ∧ known.isHistoryFull = w.isHistoryFull ∧
      known.lastCacheChangeSeqNum = w.lastCacheChangeSeqNum ∧
      (known.keyedChanges.find? handle).isSome := by
  rw [DataWriterHistory.findOrAddKey] at hknown
  split at hknown
  case isTrue hfound =>
    obtain rfl := some.inj hknown
    exact ⟨hw, rfl, rfl, rfl, hfound⟩
  case isFalse hfound =>
    split at hknown
    case isFalse => cases hknown
    case isTrue hroom =>
      obtain rfl := some.inj hknown
      have hnone : w.keyedChanges.find? handle = none := by simpa using hfound
      have hfind := fun h => OrderedMap.find?_emplace (v := []) hnone h
      refine ⟨{ hw with instances h := ?_, known c hc := ?_, instancesLimit := ?_ }, rfl, rfl, rfl,
        by simp [hfind]⟩
      · have hold := hw.instances h
        rw [instanceChanges] at hold ⊢
        rw [hfind]
        split
        · rename_i hsame
          obtain rfl : h = handle := hsame
          rw [hnone] at hold
          simpa using hold
        · exact hold
      · rw [hfind]
        split
        · rfl
        · exact hw.known c hc
      · have hlimit : WriterHistoryConfig.limit cfg.maxInstances = cfg.maxInstances := by
          have h := hcfg.maxInstances
          rw [WriterHistoryConfig.limit, if_neg (by omega)]
        rw [OrderedMap.length_emplace hnone]
        omega

lemma giveUp (hw : Consistent cfg w) {rest : List (WriterSample H)}
    {freed : DataWriterHistory H} (hsub : (c :: rest).Sublist w.changes)
    (hfreed : w.giveUp cfg (c :: rest).head? = some freed) :
    Consistent cfg freed ∧ freed.changes = without c.sequenceNumber w.changes ∧
      freed.isHistoryFull = false ∧ freed.lastCacheChangeSeqNum = w.lastCacheChangeSeqNum ∧
      ∀ h, (freed.keyedChanges.find? h).isSome = (w.keyedChanges.find? h).isSome := by
  obtain ⟨w', hremove, hspec⟩ :=
    hw.removeChangePub hcfg (hsub.subset mem_cons_self)
  rw [head?_cons, DataWriterHistory.giveUp] at hfreed
  simp only [hcfg.kind, true_or, if_true, hremove, some.injEq] at hfreed
  exact hfreed ▸ hspec

lemma makeRoom (hw : Consistent cfg w) {roomy : DataWriterHistory H}
    (hroomy : w.makeRoom cfg = some roomy) : Consistent cfg roomy ∧ roomy.isHistoryFull = false ∧
      roomy.lastCacheChangeSeqNum = w.lastCacheChangeSeqNum ∧
      roomy.changes = w.afterMakeRoom := by
  rw [DataWriterHistory.makeRoom] at hroomy
  split at hroomy
  case isFalse hfull =>
    obtain rfl := some.inj hroomy
    exact ⟨hw, by simpa using hfull, rfl, by simp [afterMakeRoom, hfull]⟩
  case isTrue hfull =>
    cases hchanges : w.changes with
    | nil => simp [hchanges, DataWriterHistory.giveUp] at hroomy
    | cons c rest =>
      rw [hchanges] at hroomy
      obtain ⟨hconsistent, hfreed, hflag, hlast, -⟩ :=
        hw.giveUp hcfg (hchanges ▸ List.Sublist.refl _) hroomy
      refine ⟨hconsistent, hflag, hlast, ?_⟩
      rw [hfreed, afterMakeRoom, hchanges, if_pos hfull, tail_cons]
      exact without_head (hchanges ▸ hw.sorted)

lemma makeRoomInInstance (hw : Consistent cfg w)
    (hflag : w.isHistoryFull = false) {free : DataWriterHistory H}
    (hfree : w.makeRoomInInstance cfg handle = some free) :
    Consistent cfg free ∧ free.isHistoryFull = false ∧
      free.lastCacheChangeSeqNum = w.lastCacheChangeSeqNum ∧
      (∀ h, (free.keyedChanges.find? h).isSome = (w.keyedChanges.find? h).isSome) ∧
      (∀ h, h ≠ handle → ofInstance h free.changes = ofInstance h w.changes) ∧
      ofInstance handle free.changes =
        (if (ofInstance handle w.changes).length < cfg.depth then ofInstance handle w.changes
        else (ofInstance handle w.changes).tail) ∧
      (ofInstance handle free.changes).length < cfg.depth := by
  have hlimit : cfg.instanceLimit = cfg.depth := by simp [WriterHistoryConfig.instanceLimit,
    hcfg.kind]
  rw [DataWriterHistory.makeRoomInInstance, hlimit, hw.instances] at hfree
  split at hfree
  case isTrue hroom =>
    obtain rfl := some.inj hfree
    have hlt : (ofInstance handle w.changes).length < cfg.depth := by omega
    exact ⟨hw, hflag, rfl, fun _ => rfl, fun _ _ => rfl, by rw [if_pos hlt], hlt⟩
  case isFalse hroom =>
    have hge : ¬ (ofInstance handle w.changes).length < cfg.depth := by omega
    cases hinstance : ofInstance handle w.changes with
    | nil => simp [hinstance, DataWriterHistory.giveUp] at hfree
    | cons c rest =>
      have hsub : (c :: rest).Sublist w.changes := hinstance ▸ filter_sublist
      have hhandle : c.instanceHandle = handle :=
        (mem_ofInstance.mp (hinstance ▸ mem_cons_self)).2
      rw [hinstance] at hfree
      obtain ⟨hconsistent, hchanges, hflag', hlast, hknown⟩ := hw.giveUp hcfg hsub hfree
      have htail : ofInstance handle free.changes = rest := by
        rw [hchanges, ofInstance_without, hinstance]
        exact without_head (hw.sorted.sublist hsub)
      have hdepth := hw.depth handle
      rw [hinstance] at hge hdepth
      refine ⟨hconsistent, hflag', hlast, hknown, fun h hne => ?_, ?_, ?_⟩
      · rw [hchanges, ofInstance_without, without, filter_eq_self]
        intro d hd
        obtain ⟨hmem, rfl⟩ := mem_ofInstance.mp hd
        have hnumber : d.sequenceNumber ≠ c.sequenceNumber := fun heq =>
          hne ((hw.eq_of_number (hsub.subset mem_cons_self) hmem heq) ▸ hhandle)
        simpa using hnumber
      · rw [if_neg hge, htail, tail_cons]
      · rw [htail]
        rw [length_cons] at hdepth
        omega

lemma push (hw : Consistent cfg w)
    (hknown : (w.keyedChanges.find? c.instanceHandle).isSome)
    (hroom : (ofInstance c.instanceHandle w.changes).length < cfg.depth)
    (hnumber : c.sequenceNumber = w.lastCacheChangeSeqNum + 1) : Consistent cfg ⟨w.changes ++ [c],
      decide (((w.changes ++ [c]).length : Int) = cfg.maximumReservedCaches),
      w.keyedChanges.modify c.instanceHandle (· ++ [c]), c.sequenceNumber⟩ := by
  have hcapacity : cfg.maximumReservedCaches = cfg.depth * cfg.maxInstances := by
    simp [WriterHistoryConfig.maximumReservedCaches, hcfg.kind, hcfg.topicKind]
  refine ⟨?_, fun d hd => ?_, fun h => ?_, fun d hd => ?_, ?_, fun h => ?_, ?_⟩
  · refine pairwise_append.mpr ⟨hw.sorted, pairwise_singleton _ _, fun a ha b hb => ?_⟩
    have hwritten := hw.written a ha
    rw [mem_singleton.mp hb]
    omega
  · change d.sequenceNumber ≤ c.sequenceNumber
    rcases mem_append.mp hd with hold | hnew
    · have hwritten := hw.written d hold
      omega
    · rw [mem_singleton.mp hnew]
  · have hold := hw.instances h
    rw [instanceChanges] at hold ⊢
    rw [OrderedMap.find?_modify, ofInstance_append]
    split
    · rename_i hsame
      obtain rfl : h = c.instanceHandle := hsame
      obtain ⟨cached, hfind⟩ := isSome_iff_exists.mp hknown
      rw [hfind, getD_some] at hold
      rw [hfind, map_some, getD_some, hold]
      simp [ofInstance]
    · rename_i hother
      have hne : c.instanceHandle ≠ h := fun heq => hother heq.symm
      rw [hold]
      simp [ofInstance, hne]
  · rw [OrderedMap.find?_modify]
    have hfound : (w.keyedChanges.find? d.instanceHandle).isSome := by
      rcases mem_append.mp hd with hold | hnew
      · exact hw.known d hold
      · rwa [mem_singleton.mp hnew]
    split <;> simpa using hfound
  · simpa [OrderedMap.modify] using hw.instancesLimit
  · rw [ofInstance_append]
    by_cases hsame : c.instanceHandle = h
    · subst hsame
      simp only [ofInstance, decide_true, filter_cons_of_pos, filter_nil,
        length_append, length_singleton]
      exact hroom
    · have hdepth := hw.depth h
      simpa [ofInstance, hsame] using hdepth
  · simp [hcapacity]

lemma addPubChange (hw : Consistent cfg w)
    (hok : (w.addPubChange cfg handle payload).1 = true) :
    Consistent cfg (w.addPubChange cfg handle payload).2 ∧
      (w.addPubChange cfg handle payload).2.lastCacheChangeSeqNum = w.lastCacheChangeSeqNum + 1 ∧
      (∀ h, h ≠ handle → ofInstance h (w.addPubChange cfg handle payload).2.changes =
        ofInstance h w.afterMakeRoom) ∧
      ofInstance handle (w.addPubChange cfg handle payload).2.changes =
        (if (ofInstance handle w.afterMakeRoom).length < cfg.depth then
          ofInstance handle w.afterMakeRoom
        else (ofInstance handle w.afterMakeRoom).tail) ++
          [⟨handle, w.lastCacheChangeSeqNum + 1, payload⟩] := by
  generalize hresult : w.addPubChange cfg handle payload = result at hok ⊢
  rw [DataWriterHistory.addPubChange, prepareChange, hcfg.topicKind] at hresult
  cases hroomy : w.makeRoom cfg with
  | none => simp [← hresult, hroomy] at hok
  | some roomy =>
    obtain ⟨hw1, hflag1, hlast1, hchanges1⟩ := hw.makeRoom hcfg hroomy
    cases hknown : roomy.findOrAddKey cfg handle with
    | none => simp [← hresult, hroomy, hknown] at hok
    | some known =>
      obtain ⟨hw2, hchanges2, hflag2, hlast2, hfound⟩ := hw1.findOrAddKey hcfg hknown
      cases hfree : known.makeRoomInInstance cfg handle with
      | none => simp [← hresult, hroomy, hknown, hfree] at hok
      | some free =>
        obtain ⟨hw3, hflag3, hlast3, hsame, hothers, hown, hroom⟩ :=
          hw2.makeRoomInInstance hcfg (hflag2.trans hflag1) hfree
        simp only [hroomy, hknown, hfree, if_true, prepareAndAddChange, hflag3] at hresult
        split at hresult
        · simp [← hresult] at hok
        · have hnext : w.lastCacheChangeSeqNum + 1 = free.lastCacheChangeSeqNum + 1 := by
            rw [hlast3, hlast2, hlast1]
          have hpushed := hw3.push (c := ⟨handle, w.lastCacheChangeSeqNum + 1, payload⟩) hcfg
            ((hsame handle).trans hfound) hroom hnext
          simp only [Bool.false_eq_true, if_false] at hresult
          rw [hchanges2, hchanges1] at hothers hown
          subst hresult
          refine ⟨hpushed, rfl, fun h hne => ?_, ?_⟩
          · rw [← hothers h hne, ofInstance_append]
            simp [ofInstance, hne.symm]
          · rw [← hown, ofInstance_append]
            simp [ofInstance]

end KeepsLast

/-- A full history has all it may have of the instance of its oldest change. -/
theorem length_ofInstance_of_full (hw : Consistent cfg w) (hfull : w.isHistoryFull = true)
    (hc : c ∈ w.changes) : (ofInstance c.instanceHandle w.changes).length = cfg.depth := by
  have hlength := hw.length_le hc
  have hdepth := hw.depth c.instanceHandle
  have hcapacity := hw.full.mp hfull
  omega

end Consistent

end EasyDds.Dds.DataWriterHistory
