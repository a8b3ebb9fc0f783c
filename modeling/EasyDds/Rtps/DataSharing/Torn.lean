import EasyDds.Rtps.DataSharing.Metadata

/-!
No reader of the metadata gets pieces of two changes: a node is written only while its sequence
number is unknown.
-/

namespace EasyDds.Rtps.DataSharing

open Holders List Option Function

open WriterCall

def SharedChange.content (c : SharedChange) : Content :=
  ⟨.alive, c.length, c.sourceTimestamp, c.writerGUID, c.instanceHandle, c.relatedSampleIdentity⟩

def SharedChange.copied (c : SharedChange) : Copied :=
  ⟨some c.sequenceNumber, c.length, c.length, .alive, c.writerGUID, c.instanceHandle,
    c.sourceTimestamp, c.relatedSampleIdentity⟩

def Load.Agrees (copied : Copied) (b : Content) : Load → Prop
  | .sequenceNumber => True
  | .maxSize => copied.maxSize = b.dataLength
  | .length => copied.length = b.dataLength
  | .kind => copied.kind = b.status
  | .writerGUID => copied.writerGUID = b.writerGUID
  | .instanceHandle => copied.instanceHandle = b.instanceHandle
  | .sourceTimestamp => copied.sourceTimestamp = b.sourceTimestamp
  | .sampleIdentity => copied.sampleIdentity = b.relatedSampleIdentity

lemma Load.agrees_copy (l : Load) (m : Metadata) (copied : Copied) :
    l.Agrees (l.copy m copied) m.content := by
  cases l <;> simp [Agrees, copy]

lemma Load.agrees_copy_of_ne {l l' : Load} (hne : l' ≠ l) (m : Metadata) (copied : Copied)
    (b : Content) : l'.Agrees (l.copy m copied) b ↔ l'.Agrees copied b := by
  cases l <;> cases l' <;> first | exact absurd rfl hne | exact Iff.rfl

lemma Load.sequenceNumber_copy {l : Load} (hne : l ≠ .sequenceNumber) (m : Metadata)
    (copied : Copied) : (l.copy m copied).sequenceNumber = copied.sequenceNumber := by
  cases l <;> first | exact absurd rfl hne | rfl

/-- All loads together determine the copy. -/
theorem SharedChange.copied_eq {c : SharedChange} {copied : Copied}
    (hsn : copied.sequenceNumber = some c.sequenceNumber)
    (hloads : ∀ l ∈ loads, l.Agrees copied c.content) : copied = c.copied := by
  simp only [loads, forall_mem_cons, not_mem_nil, false_imp_iff, implies_true, and_true,
    Load.Agrees, SharedChange.content] at hloads
  obtain ⟨-, hmax, hlength, hkind, hguid, hhandle, htime, hidentity⟩ := hloads
  cases copied
  simp_all [SharedChange.copied]

namespace Sharers

def storeStep (m : (Nat → Metadata) × List SharedChange) (a : Nat × Store) :
    (Nat → Metadata) × List SharedChange :=
  (storeTo m.1 a,
    match a.2 with
    | .publish change => change :: m.2
    | _ => m.2)

/-- When a store may happen: the number is given to a node without one that says what it should, and
for the first time; any other field is written in a node without a number. -/
def Admits (m : (Nat → Metadata) × List SharedChange) (a : Nat × Store) : Prop :=
  match a.2 with
  | .invalidate | .hasBeenRemoved _ => True
  | .publish change =>
    (m.1 a.1).sequenceNumber = none ∧ (m.1 a.1).content = change.content ∧
      ∀ old ∈ m.2, old.sequenceNumber ≠ change.sequenceNumber
  | _ => (m.1 a.1).sequenceNumber = none

def records (m : (Nat → Metadata) × List SharedChange) : Versioned Nat Nat Content where
  version node := (m.1 node).sequenceNumber
  content node := (m.1 node).content
  published v := (m.2.find? fun c => decide (c.sequenceNumber = v)).map SharedChange.content

variable {m : (Nat → Metadata) × List SharedChange} {a : Nat × Store} {r : Reader}

lemma part_storeTo {α : Type} (part : Metadata → α) (nodes : Nat → Metadata) (a : Nat × Store) :
    (fun node => part (storeTo nodes a node)) =
      Function.update (fun node => part (nodes node)) a.1 (part (a.2.apply (nodes a.1))) := by
  funext node
  by_cases h : node = a.1
  · subst h
    simp [storeTo]
  · simp [storeTo, update_of_ne h]

lemma part_storeTo_of_eq {α : Type} {part : Metadata → α} {nodes : Nat → Metadata}
    (h : part (a.2.apply (nodes a.1)) = part (nodes a.1)) :
    (fun node => part (storeTo nodes a node)) = fun node => part (nodes node) := by
  rw [part_storeTo, h, update_eq_self a.1 fun node => part (nodes node)]

lemma published_cons (change : SharedChange) (l : List SharedChange) :
    (fun v => (((change :: l).find? fun c => decide (c.sequenceNumber = v)).map
        SharedChange.content)) =
      Function.update (fun v => (l.find? fun c => decide (c.sequenceNumber = v)).map
        SharedChange.content) change.sequenceNumber (some change.content) := by
  funext v
  by_cases h : change.sequenceNumber = v
  · subst h
    simp
  · simp [h, update_of_ne (Ne.symm h)]

/-- A store that may happen is a step of the records, or nothing that a reader looks at. The
sequence number of a node plays the part of the version. -/
theorem records_storeStep (ha : Admits m a) :
    records (storeStep m a) = records m ∨ (records m).Step (records (storeStep m a)) := by
  obtain ⟨node, f⟩ := a
  have hwrite : (f.apply (m.1 node)).sequenceNumber = (m.1 node).sequenceNumber →
      (storeStep m (node, f)).2 = m.2 → (m.1 node).sequenceNumber = none →
      (records m).Step (records (storeStep m (node, f))) := by
    intro hsame hpublished hnone
    have hrecords : records (storeStep m (node, f)) = { records m with
          content := Function.update (records m).content node (f.apply (m.1 node)).content } := by
      rw [records, hpublished]
      exact congrArg₂ (Versioned.mk · · _) (part_storeTo_of_eq hsame)
        (part_storeTo Metadata.content m.1 (node, f))
    rw [hrecords]
    exact .write node _ hnone
  cases f with
  | invalidate =>
    have hrecords : records (storeStep m (node, .invalidate)) =
        { records m with version := Function.update (records m).version node none } :=
      congrArg₂ (Versioned.mk · · _) (part_storeTo Metadata.sequenceNumber m.1 _)
        (part_storeTo_of_eq rfl)
    rw [hrecords]
    exact .inr (.withdraw node)
  | publish change =>
    obtain ⟨hnone, hsame, hfresh⟩ := ha
    have hrecords : records (storeStep m (node, .publish change)) = { records m with
          version := Function.update (records m).version node (some change.sequenceNumber)
          published := Function.update (records m).published change.sequenceNumber
            (some ((records m).content node)) } := by
      have hpublished := published_cons change m.2
      rw [← hsame] at hpublished
      exact congr (congrArg₂ Versioned.mk (part_storeTo Metadata.sequenceNumber m.1 _)
        (part_storeTo_of_eq rfl)) hpublished
    rw [hrecords]
    refine .inr (.publish node _ hnone ?_)
    simpa [records] using hfresh
  | hasBeenRemoved removed =>
    exact .inl (congrArg₂ (Versioned.mk · · _) (part_storeTo_of_eq rfl) (part_storeTo_of_eq rfl))
  | status kind | dataLength length | sourceTimestamp timestamp | writerGUID guid
  | instanceHandle handle | relatedSampleIdentity identity =>
    exact .inr (hwrite rfl rfl ha)

section Calls

variable {node : Nat}

lemma foldl_storeStep_of_ne {stores : List Store} {other : Nat} (hne : other ≠ node)
    (m : (Nat → Metadata) × List SharedChange) :
    ((stores.map (node, ·)).foldl storeStep m).1 other = m.1 other := by
  induction stores generalizing m with
  | nil => rfl
  | cons f stores ih =>
    rw [map_cons, foldl_cons, ih]
    exact update_of_ne hne _ _

lemma foldl_storeStep_self (stores : List Store) (m : (Nat → Metadata) × List SharedChange) :
    ((stores.map (node, ·)).foldl storeStep m).1 node = stores.foldl Store.apply (m.1 node) := by
  induction stores generalizing m with
  | nil => rfl
  | cons f stores ih =>
    rw [map_cons, foldl_cons, ih, foldl_cons]
    exact congrArg (stores.foldl Store.apply) (update_self node _ m.1)

lemma foldl_resetStores (x : Metadata) : resetStores.foldl Store.apply x =
    ⟨⟨.alive, 0, x.content.sourceTimestamp, .unknown, .unknown, .unknown⟩, false, none⟩ := rfl

/-- A node that was filled: an unknown identity is not stored, it is there, left by the reset. -/
theorem foldl_fillStores {x : Metadata} (change : SharedChange)
    (hidentity : x.content.relatedSampleIdentity = .unknown) :
    (fillStores change).foldl Store.apply x =
      ⟨change.content, x.hasBeenRemoved, some change.sequenceNumber⟩ := by
  by_cases hunknown : change.relatedSampleIdentity = .unknown
  · simp [fillStores, Store.apply, SharedChange.content, hunknown, hidentity]
  · simp [fillStores, Store.apply, SharedChange.content, hunknown]

lemma admits_reset (m : (Nat → Metadata) × List SharedChange) :
    RunsWith storeStep Admits m (resetStores.map (node, ·)) := by
  simp [resetStores, RunsWith, Admits, storeStep, storeTo, Store.apply]

/-- A node without a number and without an identity can be filled. The number comes last, so no
reader takes the node for filled before it is. -/
theorem admits_fill {change : SharedChange} (hnone : (m.1 node).sequenceNumber = none)
    (hidentity : (m.1 node).content.relatedSampleIdentity = .unknown)
    (hfresh : ∀ old ∈ m.2, old.sequenceNumber ≠ change.sequenceNumber) :
    RunsWith storeStep Admits m ((fillStores change).map (node, ·)) := by
  by_cases hunknown : change.relatedSampleIdentity = .unknown
  · simp [fillStores, RunsWith, Admits, storeStep, storeTo, Store.apply, hnone, hunknown, hidentity,
      SharedChange.content]
    exact hfresh
  · simp [fillStores, RunsWith, Admits, storeStep, storeTo, Store.apply, hnone, hunknown,
      SharedChange.content]
    exact hfresh

/-- The marks of nodes that leave the history are taken back, which no reader looks at. -/
theorem foldl_unmark (t : List Nat) (m : (Nat → Metadata) × List SharedChange) :
    RunsWith storeStep Admits m (t.map (·, .hasBeenRemoved false)) ∧
      ∀ n, ((t.map (·, Store.hasBeenRemoved false)).foldl storeStep m).1 n =
        if n ∈ t then { m.1 n with hasBeenRemoved := false } else m.1 n := by
  induction t generalizing m with
  | nil => exact ⟨trivial, fun n => rfl⟩
  | cons k t ih =>
    obtain ⟨hadmits, hnodes⟩ := ih (storeStep m (k, .hasBeenRemoved false))
    refine ⟨⟨trivial, hadmits⟩, fun n => ?_⟩
    rw [map_cons, foldl_cons, hnodes]
    by_cases hk : n = k
    · subst hk
      simp [storeStep, storeTo, Store.apply]
    · simp [storeStep, storeTo, hk]

end Calls

/-- Between two calls the metadata is what the pool has, and a payload that is not in the history
has no number and no identity. -/
structure Settled (h : Holders) (m : (Nat → Metadata) × List SharedChange) : Prop where
  agrees : ∀ node, (⟨(m.1 node).sequenceNumber, (m.1 node).hasBeenRemoved⟩ : PayloadNode) =
    h.pool.nodes node
  loaned : ∀ i node, h.payload i = some ⟨node, .loan⟩ → (m.1 node).sequenceNumber = none ∧
    (m.1 node).content.relatedSampleIdentity = .unknown

def NoCopies (h : Holders) : Prop := ∀ i p, h.payload i = some p → p.role ≠ .copy

namespace Settled

variable {h : Holders} {b i : Nat} {w : List Nat}

lemma getPayload (hs : Settled h m) (hh : h.Inv b w) :
    RunsWith storeStep Admits m (getPayload.stores h) ∧
      Settled (h.step .getPayload) ((getPayload.stores h).foldl storeStep m) := by
  rw [stores, Holders.step, WriterPool.getPayload]
  cases hfree : h.pool.freePayloads with
  | nil => exact ⟨trivial, hs⟩
  | cons node rest =>
    have hpayload : ∀ k q, Slots.occupant (h.payloads ++ [some ⟨node, .loan⟩]) k = some q →
        h.payload k = some q ∨ ⟨node, .loan⟩ = q := fun k q hq =>
      (Slots.occupant_append.1 hq).imp_right And.right
    refine ⟨admits_reset m, fun n => ?_, fun k n hk => ?_⟩
    · by_cases hn : n = node
      · subst hn
        rw [foldl_storeStep_self, foldl_resetStores]
        simp [WriterPool.setNode]
      · simp only [foldl_storeStep_of_ne hn, WriterPool.setNode, update_of_ne hn]
        exact hs.agrees n
    · rcases hpayload k _ hk with hold | hnew
      · have hn : n ≠ node := by
          rintro rfl
          exact (hh.held k _ hold).2 (hfree ▸ mem_cons_self)
        rw [foldl_storeStep_of_ne hn]
        exact hs.loaned k n hold
      · cases hnew
        rw [foldl_storeStep_self, foldl_resetStores]
        exact ⟨rfl, rfl⟩

lemma addToSharedHistory (hs : Settled h m) (hh : h.Inv b w) {change : SharedChange}
    (hfresh : ∀ old ∈ m.2, old.sequenceNumber ≠ change.sequenceNumber) :
    RunsWith storeStep Admits m ((addToSharedHistory i change).stores h) ∧
      Settled (h.step (.addToSharedHistory i change.sequenceNumber))
        (((addToSharedHistory i change).stores h).foldl storeStep m) := by
  rw [stores, Holders.step]
  rcases hp : h.payload i with _ | ⟨node, role⟩
  · exact ⟨trivial, hs⟩
  cases role with
  | listed | copy => exact ⟨trivial, hs⟩
  | loan =>
    obtain ⟨hnone, hidentity⟩ := hs.loaned i node hp
    refine ⟨admits_fill hnone hidentity hfresh, fun n => ?_, fun k n hk => ?_⟩
    · by_cases hn : n = node
      · subst hn
        rw [foldl_storeStep_self, foldl_fillStores change hidentity]
        simp [WriterPool.addToSharedHistory, WriterPool.setNode, ← hs.agrees n]
      · simp only [foldl_storeStep_of_ne hn, WriterPool.addToSharedHistory, WriterPool.setNode,
          update_of_ne hn]
        exact hs.agrees n
    · rcases Slots.occupant_set hk with ⟨-, hnew⟩ | ⟨hki, hold⟩
      · cases hnew
      · have hn : n ≠ node := by
          rintro rfl
          exact hki (hh.unique k i _ _ hold hp (by simp) (by simp) rfl)
        rw [foldl_storeStep_of_ne hn]
        exact hs.loaned k n hold

lemma removeFromSharedHistory (hs : Settled h m) (hh : h.Inv b w) :
    RunsWith storeStep Admits m ((removeFromSharedHistory i).stores h) ∧
      Settled (h.step (.removeFromSharedHistory i))
        (((removeFromSharedHistory i).stores h).foldl storeStep m) := by
  rw [stores]
  rcases hp : h.payload i with _ | ⟨node, role⟩
  · rw [Holders.step, hp]
    exact ⟨trivial, hs⟩
  cases role with
  | loan | copy =>
    rw [Holders.step, hp]
    exact ⟨trivial, hs⟩
  | listed =>
    have hstep : h.step (.removeFromSharedHistory i) =
        ⟨(h.pool.removeFromSharedHistory node).giveBack b (w.takeWhile (h.leaves node)),
          h.payloads.set i none⟩ := by
      rw [Holders.step, hp]
      simp only [hh.remove_eq node]
    have hback : h.givenBack (.removeFromSharedHistory i) = w.takeWhile (h.leaves node) := by
      rw [Holders.givenBack, hstep]
      exact drop_left
    rw [hback, hstep]
    generalize w.takeWhile (h.leaves node) = t
    obtain ⟨hadmits, hnodes⟩ := foldl_unmark t (storeStep m (node, .hasBeenRemoved true))
    refine ⟨⟨trivial, hadmits⟩, fun n => ?_, fun k n hk => ?_⟩
    · rw [foldl_cons, hnodes]
      change _ = WriterPool.unmark (h.pool.removeFromSharedHistory node).nodes t n
      rw [WriterPool.unmark, WriterPool.removeFromSharedHistory, WriterPool.setNode]
      have hagrees := hs.agrees n
      by_cases hn : n = node
      · subst hn
        split <;> simp [storeStep, storeTo, Store.apply, ← hagrees]
      · split <;> simp [storeStep, storeTo, hn, ← hagrees]
    · have hold : h.payload k = some ⟨n, .loan⟩ :=
        (Slots.occupant_clear hk).2
      rw [foldl_cons, hnodes]
      have hloaned := hs.loaned k n hold
      by_cases hn : n = node
      · subst hn
        split <;> simpa [storeStep, storeTo, Store.apply] using hloaned
      · split <;> simpa [storeStep, storeTo, hn] using hloaned

lemma releasePayload (hs : Settled h m) (hh : h.Inv b w) (hcopies : NoCopies h) :
    Settled (h.step (.releasePayload i)) m := by
  rw [Holders.step]
  rcases hp : h.payload i with _ | ⟨node, role⟩
  · exact hs
  cases role with
  | listed => exact hs
  | copy => exact absurd rfl (hcopies i _ hp)
  | loan =>
    have hremoved := hh.not_removed_of_not_mem (hh.loaned i _ hp rfl)
    refine ⟨fun n => ?_, fun k n hk => ?_⟩
    · simp only [hh.release_eq hp hremoved]
      exact hs.agrees n
    · exact hs.loaned k n (Slots.occupant_clear hk).2

end Settled

lemma noCopies_step {h : Holders} (hcopies : NoCopies h) (c : WriterCall) :
    NoCopies (h.step c.use) := by
  intro k q hq
  cases c with
  | getPayload =>
    rw [use, Holders.step] at hq
    split at hq
    · exact hcopies k q hq
    · rcases Slots.occupant_append.1 hq with hold | ⟨-, hnew⟩
      · exact hcopies k q hold
      · subst hnew
        simp
  | addToSharedHistory i change =>
    rw [use, Holders.step] at hq
    split at hq
    · rcases Slots.occupant_set hq with ⟨-, hnew⟩ | ⟨-, hold⟩
      · cases hnew
        simp
      · exact hcopies k q hold
    · exact hcopies k q hq
  | removeFromSharedHistory i =>
    rw [use, Holders.step] at hq
    split at hq
    · exact hcopies k q (Slots.occupant_clear hq).2
    · exact hcopies k q hq
  | releasePayload i =>
    rw [use, Holders.step] at hq
    split at hq
    · exact hcopies k q (Slots.occupant_clear hq).2
    · exact hcopies k q (Slots.occupant_clear hq).2
    · exact hcopies k q hq

/-- Without copies nobody else has the node of a payload, so every call is a careful one. -/
theorem careful {h : Holders} {b : Nat} {w : List Nat} (hh : h.Inv b w) (hcopies : NoCopies h)
    (c : WriterCall) : h.Careful c.use := by
  cases c with
  | getPayload | addToSharedHistory _ _ => trivial
  | releasePayload i =>
    rw [use, Careful]
    cases hp : h.payload i with
    | none => trivial
    | some p =>
      refine .inr (.inr ?_)
      rintro ⟨j, q, hj, hq, hnode⟩
      exact hj (hh.unique j i q p hq hp (hcopies j q hq) (hcopies i p hp) hnode)
  | removeFromSharedHistory i =>
    rw [use, Careful, hh.sharedHistory_eq]
    cases hp : h.payload i with
    | none => trivial
    | some p =>
      rintro hrole n hn ⟨j, q, hj, hq, rfl⟩
      have hleaves := mem_takeWhile_imp hn
      have hmem : q.node ∈ w := takeWhile_subset _ hn
      rw [leaves, Bool.or_eq_true, decide_eq_true_eq] at hleaves
      rcases hleaves with hremoved | hnode
      · cases hqrole : q.role with
        | loan => exact hh.loaned j q hq hqrole hmem
        | listed => exact (hh.listed j q hq hqrole).2 hremoved
        | copy => exact hcopies j q hq hqrole
      · exact hj (hh.unique j i q p hq hp (hcopies j q hq) (hcopies i p hp) hnode)

def Knows (m : (Nat → Metadata) × List SharedChange) : Reader → Prop
  | .idle => True
  | .reading node rest copied => ∃ done, loads = done ++ rest ∧ (done ≠ [] →
      ∀ v, copied.sequenceNumber = some v →
        (records m).Watches node v fun b => ∀ l ∈ done, l.Agrees copied b)
  | .returned result copied => result = true → ∃ v b, copied.sequenceNumber = some v ∧
      (records m).published v = some b ∧ ∀ l ∈ loads, l.Agrees copied b

lemma published_mono {s s' : Versioned Nat Nat Content} (h : s.Step s') {v : Nat} {b : Content}
    (hv : s.published v = some b) : s'.published v = some b := by
  cases h with
  | withdraw | write => exact hv
  | publish k u hnone hfresh =>
    have hne : v ≠ u := by
      rintro rfl
      rw [hfresh] at hv
      cases hv
    exact (update_of_ne hne _ _).trans hv

/-- A store does not change what a reader knows: what it has loaded belongs to the number it goes
by, or that number is gone and will not be found again. -/
theorem knows_storeStep (hconsistent : (records m).Consistent) (ha : Admits m a)
    (hr : Knows m r) : Knows (storeStep m a) r := by
  rcases records_storeStep ha with hsame | hstep
  · cases r with
    | idle => trivial
    | reading | returned => simpa only [Knows, hsame] using hr
  · cases r with
    | idle => trivial
    | reading node rest copied =>
      obtain ⟨done, hloads, hwatches⟩ := hr
      exact ⟨done, hloads, fun hdone v hv => (hwatches hdone v hv).step hconsistent hstep⟩
    | returned result copied =>
      intro hresult
      obtain ⟨v, b, hv, hb, hagrees⟩ := hr hresult
      exact ⟨v, b, hv, published_mono hstep hb, hagrees⟩

lemma consistent_storeStep (hconsistent : (records m).Consistent) (ha : Admits m a) :
    (records (storeStep m a)).Consistent := by
  rcases records_storeStep ha with hsame | hstep
  · rwa [hsame]
  · exact hconsistent.step hstep

/-- The next load: the sequence number is loaded first, and no field twice. So each field belongs to
the number, as long as the number stands. -/
theorem knows_loadNext (hconsistent : (records m).Consistent) (hr : Knows m r) :
    Knows m (loadNext m.1 r) := by
  cases r with
  | idle => trivial
  | returned result copied => exact hr
  | reading node rest copied =>
    obtain ⟨done, hloads, hwatches⟩ := hr
    cases rest with
    | nil =>
      rw [append_nil] at hloads
      subst hloads
      intro hresult
      obtain ⟨hcheck, hsame⟩ := of_decide_eq_true hresult
      obtain ⟨v, hv⟩ := ne_none_iff_exists'.1 hcheck
      have hcopied : copied.sequenceNumber = some v := hsame.symm.trans hv
      obtain ⟨b, hb, hagrees⟩ := (hwatches (by simp [loads]) v hcopied).check hconsistent hv
      exact ⟨v, b, hcopied, hb, hagrees⟩
    | cons l rest =>
      refine ⟨done ++ [l], by rw [hloads, append_assoc]; rfl, fun _ v hv => ?_⟩
      have hnodup : (done ++ l :: rest).Nodup := hloads ▸ by decide
      have hnot : l ∉ done := fun hl =>
        (nodup_append.1 hnodup).2.2 l hl l mem_cons_self rfl
      cases done with
      | nil =>
        cases hloads
        exact Versioned.watches_of_version hv fun l hl => by
          cases mem_singleton.1 hl
          trivial
      | cons first done =>
        obtain rfl : Load.sequenceNumber = first := (List.cons.inj hloads).1
        have hne : l ≠ .sequenceNumber := by
          rintro rfl
          exact hnot mem_cons_self
        rw [Load.sequenceNumber_copy hne] at hv
        refine (hwatches (by simp) v hv).read fun hagrees l' hl' => ?_
        rcases mem_append.1 hl' with hold | hnew
        · have hother : l' ≠ l := by
            rintro rfl
            exact hnot hold
          exact (Load.agrees_copy_of_ne hother _ _ _).2 (hagrees l' hold)
        · rw [mem_singleton.1 hnew]
          exact l.agrees_copy _ _

structure Inv (s : Sharers) : Prop where
  holders : ∃ b w, s.holders.Inv b w
  noCopies : NoCopies s.holders
  consistent : (records (s.nodes, s.published)).Consistent
  admitted : RunsWith storeStep Admits (s.nodes, s.published) s.pending
  settled : Settled s.holders (s.pending.foldl storeStep (s.nodes, s.published))
  distinct : (s.published.map SharedChange.sequenceNumber).Nodup
  known : ∀ reader, Knows (s.nodes, s.published) (s.readers reader)

namespace Inv

lemma initial {n : Nat} (hn : n + 1 < 2 ^ 32) : Inv (initial n) where
  holders := ⟨0, [], .initial hn⟩
  noCopies := by simp [NoCopies, Sharers.initial, Holders.initial, Holders.payload]
  consistent := nofun
  admitted := trivial
  settled := ⟨fun _ => rfl, by simp [Sharers.initial, Holders.initial, Holders.payload]⟩
  distinct := .nil
  known _ := trivial

variable {s : Sharers}

lemma call (hs : Inv s) (c : WriterCall) (hfresh : s.Fresh (.call c)) : Inv (s.step (.call c)) := by
  rw [step]
  cases hpending : s.pending with
  | cons => exact hs
  | nil =>
    obtain ⟨b, w, hh⟩ := hs.holders
    have hsettled := hs.settled
    rw [hpending] at hsettled
    have hstores : RunsWith storeStep Admits (s.nodes, s.published) (c.stores s.holders) ∧
        Settled (s.holders.step c.use)
          ((c.stores s.holders).foldl storeStep (s.nodes, s.published)) := by
      cases c with
      | getPayload => exact hsettled.getPayload hh
      | addToSharedHistory i change => exact hsettled.addToSharedHistory hh hfresh
      | removeFromSharedHistory i => exact hsettled.removeFromSharedHistory hh
      | releasePayload i => exact ⟨trivial, hsettled.releasePayload hh hs.noCopies⟩
    exact ⟨Inv.step _ _ hs.holders (careful hh hs.noCopies c), noCopies_step hs.noCopies c,
      hs.consistent, hstores.1, hstores.2, hs.distinct, hs.known⟩

lemma store (hs : Inv s) : Inv (s.step .store) := by
  rw [step]
  cases hpending : s.pending with
  | nil => exact hs
  | cons a rest =>
    have hadmitted := hs.admitted
    have hsettled := hs.settled
    rw [hpending] at hadmitted hsettled
    refine ⟨hs.holders, hs.noCopies, consistent_storeStep hs.consistent hadmitted.1, hadmitted.2,
      hsettled, ?_, fun reader => knows_storeStep hs.consistent hadmitted.1 (hs.known reader)⟩
    obtain ⟨node, f⟩ := a
    cases f with
    | publish change =>
      refine nodup_cons.2 ⟨fun hmem => ?_, hs.distinct⟩
      obtain ⟨old, hold, hsame⟩ := mem_map.1 hmem
      exact hadmitted.1.2.2 old hold hsame
    | _ => exact hs.distinct

lemma withReader (hs : Inv s) {reader : Nat} (hr : Knows (s.nodes, s.published) r) :
    Inv { s with readers := Function.update s.readers reader r } := by
  refine { hs with known := fun other => ?_ }
  by_cases h : other = reader
  · subst h
    simpa using hr
  · simpa [update_of_ne h] using hs.known other

protected lemma step (s : Sharers) (access : Access) (hs : Inv s) (hfresh : s.Fresh access) :
    Inv (s.step access) := by
  cases access with
  | call c => exact hs.call c hfresh
  | store => exact hs.store
  | read reader node copied =>
    rw [Sharers.step]
    split
    · exact hs
    · exact hs.withReader ⟨[], rfl, fun h => absurd rfl h⟩
  | load reader => exact hs.withReader (knows_loadNext hs.consistent (hs.known reader))

end Inv

/-- Whatever the order of the accesses of the writer and the readers: what a reader got with `true`
is all of one change, the only one that was added with that sequence number. -/
theorem metadata_of_one_change {n : Nat} (hn : n + 1 < 2 ^ 32) (accesses : List Access)
    (hfresh : RunsWith step Fresh (initial n) accesses) {reader : Nat} {copied : Copied}
    (hreturned : ((initial n).run accesses).readers reader = .returned true copied) :
    ∃ c ∈ ((initial n).run accesses).published, copied = c.copied ∧
      ∀ c' ∈ ((initial n).run accesses).published,
        copied.sequenceNumber = some c'.sequenceNumber → c' = c := by
  have hinv : Inv ((initial n).run accesses) := hfresh.keeps Inv.step (Inv.initial hn)
  have hknown := hinv.known reader
  rw [hreturned] at hknown
  obtain ⟨v, b, hv, hb, hagrees⟩ := hknown rfl
  obtain ⟨c, hfind, rfl⟩ := map_eq_some_iff.1 hb
  have hc := mem_of_find?_eq_some hfind
  obtain rfl : c.sequenceNumber = v := by simpa using find?_some hfind
  refine ⟨c, hc, SharedChange.copied_eq hv hagrees, fun c' hc' hsame => ?_⟩
  rw [hv] at hsame
  exact inj_on_of_nodup_map hinv.distinct hc' hc (some.inj hsame).symm

def add (i : Nat) (change : SharedChange) : List Access :=
  .call .getPayload :: replicate 7 .store ++ .call (.addToSharedHistory i change) ::
    replicate 6 .store

def readAfterAdd (change : SharedChange) : List Access :=
  add 0 change ++ .read 0 0 change.copied :: replicate 9 (.load 0)

def sharedChange (sequenceNumber : Nat) (kind : ChangeKind) : SharedChange :=
  ⟨sequenceNumber, kind, 16, ⟨5, 0⟩, .unknown, .unknown, .unknown⟩

/-- A reader is in the middle of the only node when the writer gives it another change; a second
reader comes later. -/
def reuse (first second : SharedChange) : List Access :=
  add 0 first ++ .read 0 0 first.copied :: replicate 4 (.load 0) ++
    .call (.removeFromSharedHistory 0) :: replicate 2 .store ++ .load 0 :: add 1 second ++
    replicate 4 (.load 0) ++ .read 1 0 first.copied :: replicate 9 (.load 1)

theorem metadata_of_one_change_reused :
    let first := sharedChange 1 .alive
    let second := sharedChange 2 .alive
    let s := (initial 1).run (reuse first second)
    s.readers 0 = .returned false first.copied ∧ s.readers 1 = .returned true second.copied ∧
      ∃ c ∈ s.published, second.copied = c.copied ∧
        ∀ c' ∈ s.published, second.copied.sequenceNumber = some c'.sequenceNumber → c' = c := by
  intro first second s
  have hfresh : RunsWith step Fresh (initial 1) (reuse first second) := by decide +kernel
  have hreturned : s.readers 1 = .returned true second.copied := by decide +kernel
  exact ⟨by decide +kernel, hreturned, metadata_of_one_change (by decide) _ hfresh hreturned⟩

/-- The status that is stored is that of an alive change: what is read of a disposal has another
kind. -/
theorem disposal_read_as_alive :
    let change := sharedChange 1 .notAliveDisposed
    let s := (initial 1).run (readAfterAdd change)
    RunsWith step Fresh (initial 1) (readAfterAdd change) ∧ s.published = [change] ∧
      s.readers 0 = .returned true change.copied ∧
      change.copied.sequenceNumber = some change.sequenceNumber ∧
      change.copied.kind ≠ change.kind :=
  ⟨by decide +kernel, by decide, by decide, rfl, by decide⟩

end Sharers

end EasyDds.Rtps.DataSharing
