import EasyDds.Dds.Subscriber.Instance
import EasyDds.Lib.Run
import Mathlib.Data.List.Lex

/-!
Exclusive ownership of an instance: which writer owns it after any events.
-/

namespace EasyDds.Dds

open DataReaderInstance List Option

open Rtps (Guid ChangeKind)

section Rank

/-- The place of a writer: its strength, and among equals the lower GUID. -/
def rank (w : WriterOwnership) : Nat ×ₗ (List Nat)ᵒᵈ := toLex (w.2, OrderDual.toDual w.1.bytes)

lemma outranks_iff (a b : WriterOwnership) : outranks a b = true ↔ rank b < rank a := by
  simp only [outranks, rank, Prod.Lex.toLex_lt_toLex, OrderDual.toDual_lt_toDual, Guid.lt,
    Bool.or_eq_true, Bool.and_eq_true, decide_eq_true_eq]
  exact or_congr_right (and_congr_left' eq_comm)

lemma rank_injective : Function.Injective rank := by
  intro a b hrank
  have hpair := toLex.injective hrank
  have hbytes := OrderDual.toDual.injective (Prod.mk.inj hpair).2
  exact Prod.ext (Guid.bytes_injective hbytes) (Prod.mk.inj hpair).1

/-- A writer leads a collection if it is in there and outranks all others. -/
def Leads (w : WriterOwnership) (writers : List WriterOwnership) : Prop :=
  w ∈ writers ∧ ∀ v ∈ writers, v = w ∨ outranks w v = true

instance (w : WriterOwnership) (writers : List WriterOwnership) : Decidable (Leads w writers) :=
  inferInstanceAs (Decidable (_ ∧ _))

lemma leads_iff {w : WriterOwnership} {writers : List WriterOwnership} :
    Leads w writers ↔ w ∈ writers ∧ ∀ v ∈ writers, rank v ≤ rank w := by
  have hle : ∀ v, (v = w ∨ outranks w v = true) ↔ rank v ≤ rank w := by
    intro v
    rw [outranks_iff, le_iff_eq_or_lt, rank_injective.eq_iff]
  simp only [Leads, hle]

lemma leads_elect {start : WriterOwnership} {writers : List WriterOwnership}
    (habove : elect outranks start writers ∈ writers) :
    Leads (elect outranks start writers) writers :=
  leads_iff.mpr ⟨habove, fun v hv =>
    key_le_elect outranks_iff start writers v (mem_cons_of_mem _ hv)⟩

end Rank

namespace DataReaderInstance

variable {C : Type} {i : DataReaderInstance C} {g : Guid} {s : Nat} {v : WriterOwnership}

section Writers

variable {ws vs : List WriterOwnership}

def others (g : Guid) (ws : List WriterOwnership) : List WriterOwnership :=
  ws.filter fun w => decide (w.1 ≠ g)

lemma mem_others {w : WriterOwnership} : w ∈ others g ws ↔ w ∈ ws ∧ w.1 ≠ g := by simp [others]

lemma others_eq_self (h : ∀ w ∈ ws, w.1 ≠ g) : others g ws = ws :=
  filter_eq_self.mpr (by simpa using h)

structure Roster (ws : List WriterOwnership) : Prop where
  nodup : (ws.map Prod.fst).Nodup
  known : ∀ w ∈ ws, w.1 ≠ Guid.unknown

namespace Roster

lemma nil : Roster [] := ⟨nodup_nil, by simp⟩

lemma perm (h : Roster ws) (hperm : vs.Perm ws) : Roster vs :=
  ⟨(hperm.map _).nodup_iff.mpr h.nodup, fun w hw => h.known w (hperm.mem_iff.mp hw)⟩

lemma without (h : Roster ws) (g : Guid) : Roster (others g ws) :=
  ⟨h.nodup.sublist (filter_sublist.map _), fun w hw => h.known w (mem_others.mp hw).1⟩

lemma recorded (h : Roster ws) (hg : g ≠ Guid.unknown) (s : Nat) :
    Roster ((g, s) :: others g ws) := by
  refine ⟨nodup_cons.mpr ⟨fun hmem => ?_, (h.without g).nodup⟩,
    forall_mem_cons.mpr ⟨hg, (h.without g).known⟩⟩
  obtain ⟨w, hw, hwg⟩ := mem_map.mp hmem
  exact (mem_others.mp hw).2 hwg

/-- The order of the writers says nothing, so a new strength may as well stand in front. -/
theorem setStrength_perm (h : Roster ws) (hg : g ∈ ws.map Prod.fst) (s : Nat) :
    (setStrength g s ws).Perm ((g, s) :: others g ws) := by
  replace h := h.nodup
  induction ws with
  | nil => simp at hg
  | cons w ws ih =>
    rw [map_cons, nodup_cons] at h
    rw [setStrength]
    split
    case isTrue hw =>
      have hrest : ∀ x ∈ ws, x.1 ≠ g := fun x hx hxg => h.1 (hw ▸ hxg ▸ mem_map_of_mem hx)
      rw [others, filter_cons_of_neg (by simpa using hw), ← others, others_eq_self hrest, hw]
    case isFalse hw =>
      rw [others, filter_cons_of_pos (by simpa using hw), ← others]
      exact ((ih ((mem_cons.mp hg).resolve_left (Ne.symm hw)) h.2).cons w).trans (.swap ..)

/-- The alive writers after `writer_set`: the writer with its new strength, and the others. -/
theorem writerSet_perm (h : Roster i.aliveWriters) :
    (i.writerSet g s).aliveWriters.Perm ((g, s) :: others g i.aliveWriters) := by
  rw [writerSet]
  split
  case isTrue hany =>
    obtain ⟨w, hw, hwg⟩ := any_eq_true.mp hany
    exact h.setStrength_perm (of_decide_eq_true hwg ▸ mem_map_of_mem hw) s
  case isFalse hnone =>
    rw [others_eq_self fun w hw hwg => hnone (any_eq_true.mpr ⟨w, hw, by simpa using hwg⟩)]
    exact perm_append_singleton _ _

lemma mem_writerSet (h : Roster i.aliveWriters) :
    v ∈ (i.writerSet g s).aliveWriters ↔ v = (g, s) ∨ v ∈ others g i.aliveWriters := by
  rw [h.writerSet_perm.mem_iff, mem_cons]

/-- The alive writers after the removal of one of them. -/
theorem swapRemove_perm (h : Roster ws) {rest : List WriterOwnership}
    (hremove : swapRemove (fun w => decide (w.1 = g)) ws = some rest) :
    rest.Perm (others g ws) := by
  rcases swapRemove_spec (fun w => decide (w.1 = g)) ws with ⟨hnone, -⟩ | ⟨x, ys, hsome, hx, hperm⟩
  · rw [hnone] at hremove
    cases hremove
  · obtain rfl : ys = rest := some.inj (hsome.symm.trans hremove)
    rw [decide_eq_true_eq] at hx
    have hnodup := (h.perm hperm.symm).nodup
    rw [map_cons, nodup_cons] at hnodup
    have hrest : others g (x :: ys) = ys := by
      rw [others, filter_cons_of_neg (by simpa using hx), ← others]
      exact others_eq_self fun y hy hyg => hnodup.1 (hx ▸ hyg ▸ mem_map_of_mem hy)
    have hfilter : (others g ws).Perm (others g (x :: ys)) := hperm.filter _
    exact (hrest ▸ hfilter).symm

end Roster

lemma others_setStrength : others g (setStrength g s ws) = others g ws := by
  induction ws with
  | nil => rfl
  | cons w ws ih =>
    rw [setStrength]
    split <;> simp_all [others]

lemma others_writerSet : others g (i.writerSet g s).aliveWriters = others g i.aliveWriters := by
  rw [writerSet]
  split
  · exact others_setStrength
  · simp [others]

end Writers

section Settled

structure Owned (i : DataReaderInstance C) : Prop where
  roster : Roster i.aliveWriters
  ownerAlive : i.currentOwner.1 = Guid.unknown ∨ i.currentOwner.1 ∈ i.aliveWriters.map Prod.fst
  unowned : i.currentOwner.1 = Guid.unknown → i.currentOwner.2 = 0 ∨ i.currentOwner.2 = maxStrength

/-- What holds between events. After a disposal nothing more is known of the owner than that it is
alive, as the next accepted sample starts a new collection of writers. -/
structure Settled (i : DataReaderInstance C) : Prop extends Owned i where
  leads : i.instanceState ≠ .notAliveDisposed →
    i.aliveWriters = [] ∧ i.currentOwner.1 = Guid.unknown ∨ Leads i.currentOwner i.aliveWriters
  fresh : i.instanceState = .alive → i.aliveWriters = [] →
    i.currentOwner = (Guid.unknown, maxStrength)

lemma settled_new : (new : DataReaderInstance C).Settled where
  roster := .nil
  ownerAlive := .inl rfl
  unowned _ := .inr rfl
  leads _ := .inl ⟨rfl, rfl⟩
  fresh _ _ := rfl

/-- An election that ends with one of the writers gives the instance an owner that leads. -/
theorem settled_updateOwner (hroster : Roster i.aliveWriters)
    (helected : elect outranks i.currentOwner i.aliveWriters ∈ i.aliveWriters) :
    i.updateOwner.Settled where
  roster := hroster
  ownerAlive := .inr (mem_map_of_mem helected)
  unowned h := absurd h (hroster.known _ helected)
  leads _ := .inr (leads_elect helected)
  fresh _ h := absurd h (ne_nil_of_mem helected)

lemma Settled.accounted (hi : i.Settled) (accounted : Bool) :
    Settled { i with hasBeenAccounted := accounted } :=
  { hi with }

lemma mem_map_fst_writerSet (h : Roster i.aliveWriters) {x : Guid}
    (hx : x = g ∨ x ∈ i.aliveWriters.map Prod.fst) :
    x ∈ (i.writerSet g s).aliveWriters.map Prod.fst := by
  by_cases hxg : x = g
  · exact mem_map.mpr ⟨_, h.mem_writerSet.mpr (.inl rfl), hxg.symm⟩
  · obtain ⟨w, hw, rfl⟩ := mem_map.mp (hx.resolve_left hxg)
    exact mem_map_of_mem (h.mem_writerSet.mpr (.inr (mem_others.mpr ⟨hw, hxg⟩)))

lemma Owned.writerSet (hi : i.Owned) (hg : g ≠ Guid.unknown) : (i.writerSet g s).Owned where
  roster := (hi.roster.recorded hg s).perm hi.roster.writerSet_perm
  ownerAlive := hi.ownerAlive.imp_right fun h => mem_map_fst_writerSet hi.roster (.inr h)
  unowned := hi.unowned

/-- The writer that is recorded is the owner. So the owner is alive, whoever was the owner
before. -/
theorem owned_writerSet (hroster : Roster i.aliveWriters) (hg : g ≠ Guid.unknown)
    (howner : i.currentOwner = (g, s)) : (i.writerSet g s).Owned where
  roster := (hroster.recorded hg s).perm hroster.writerSet_perm
  ownerAlive := .inr (mem_map_fst_writerSet hroster (.inl (congrArg Prod.fst howner)))
  unowned h := absurd ((congrArg Prod.fst howner).symm.trans h) hg

/-- A writer is recorded and the owner is as it should be. -/
theorem settled_writerSet (hroster : Roster i.aliveWriters) (howned : (i.writerSet g s).Owned)
    (hleads : i.instanceState ≠ .notAliveDisposed →
      (i.currentOwner = (g, s) ∨ i.currentOwner ∈ others g i.aliveWriters) ∧
        rank (g, s) ≤ rank i.currentOwner ∧
        ∀ v ∈ others g i.aliveWriters, rank v ≤ rank i.currentOwner) :
    (i.writerSet g s).Settled where
  toOwned := howned
  leads hstate := by
    obtain ⟨hmem, htop, hrest⟩ := hleads hstate
    refine .inr (leads_iff.mpr ⟨hroster.mem_writerSet.mpr hmem, fun v hv => ?_⟩)
    rcases hroster.mem_writerSet.mp hv with rfl | hold
    · exact htop
    · exact hrest v hold
  fresh _ hnil := absurd hnil (ne_nil_of_mem (hroster.mem_writerSet.mpr (.inl rfl)))

/-- The writer that is recorded owns the instance and leads. -/
theorem settled_claimed (hroster : Roster i.aliveWriters) (hg : g ≠ Guid.unknown)
    (howner : i.currentOwner = (g, s))
    (hleads : i.instanceState ≠ .notAliveDisposed →
      ∀ v ∈ others g i.aliveWriters, rank v ≤ rank (g, s)) : (i.writerSet g s).Settled := by
  refine settled_writerSet hroster (owned_writerSet hroster hg howner) fun hstate => ?_
  rw [howner]
  exact ⟨.inl rfl, le_refl _, hleads hstate⟩

end Settled

section Alive

lemma Settled.rank_le (hi : i.Settled) (hstate : i.instanceState ≠ .notAliveDisposed)
    (hv : v ∈ i.aliveWriters) : i.currentOwner.1 ≠ Guid.unknown ∧ rank v ≤ rank i.currentOwner := by
  rcases hi.leads hstate with ⟨hnil, -⟩ | hleads
  · simp [hnil] at hv
  · obtain ⟨hin, hall⟩ := leads_iff.mp hleads
    exact ⟨hi.roster.known _ hin, hall v hv⟩

/-- A writer below an owner that is another one changes nothing: it joins the roster, and the owner
still leads it. -/
theorem Settled.recorded (hi : i.Settled) (hg : g ≠ Guid.unknown)
    (howner : i.instanceState ≠ .notAliveDisposed → i.currentOwner.1 ≠ Guid.unknown ∧
      i.currentOwner.1 ≠ g ∧ rank (g, s) ≤ rank i.currentOwner) : (i.writerSet g s).Settled := by
  refine settled_writerSet hi.roster (hi.toOwned.writerSet hg) fun hstate => ?_
  obtain ⟨hknown, hne, hle⟩ := howner hstate
  obtain ⟨hin, hall⟩ := leads_iff.mp ((hi.leads hstate).resolve_left fun h => hknown h.2)
  exact ⟨.inr (mem_others.mpr ⟨hin, hne⟩), hle, fun v hv => hall v (mem_others.mp hv).1⟩

@[simp] lemma revive_currentOwner (i : DataReaderInstance C) :
    i.revive.currentOwner = i.currentOwner := by
  rw [revive]
  split <;> rfl

lemma revive_aliveWriters (i : DataReaderInstance C) : i.revive.aliveWriters =
    if i.instanceState = .notAliveDisposed then [] else i.aliveWriters := by
  rw [revive]
  split <;> rename_i hstate <;> rw [hstate] <;> rfl

lemma ownerAfterAlive_eq (owner : WriterOwnership) (hs : s ≠ maxStrength) :
    ownerAfterAlive owner g s =
      if g = owner.1 ∨ rank owner < rank (g, s) ∨ owner.1 = Guid.unknown then some (g, s)
      else none := by
  have hrank : rank owner < rank (g, s) ↔ owner.2 < s ∨ s = owner.2 ∧ g.lt owner.1 = true := by
    rw [← outranks_iff]
    simp [outranks]
  rw [ownerAfterAlive]
  split
  · rename_i hg
    simp [hg]
  · rename_i hg
    split
    · rename_i hlt
      simp [hrank, hlt]
    · rename_i hlt
      split
      · rename_i htie
        rw [if_pos (.inr (.inl (hrank.mpr (.inr htie)))), htie.1]
      · rename_i htie
        have hbelow : ¬ rank owner < rank (g, s) := fun h => (hrank.mp h).elim hlt htie
        simp only [hg, hbelow, false_or]

/-- An owner does not fall behind with its own sample. -/
def KeepsLead (i : DataReaderInstance C) (g : Guid) (s : Nat) : Prop :=
  g = i.currentOwner.1 → ∀ w ∈ i.aliveWriters, w.1 ≠ g → outranks (g, s) w = true

/-- No sample takes over an instance that has no writers by its state, while a disposal has recorded
one there. -/
def FindsNoWriters (i : DataReaderInstance C) (g : Guid) (s : Nat) : Prop :=
  i.instanceState = .notAliveNoWriters →
    i.aliveWriters = [] ∨ g ≠ i.currentOwner.1 ∧ outranks (g, s) i.currentOwner = false

instance (i : DataReaderInstance C) (g : Guid) (s : Nat) : Decidable (i.KeepsLead g s) :=
  inferInstanceAs (Decidable (_ → _))

instance (i : DataReaderInstance C) (g : Guid) (s : Nat) : Decidable (i.FindsNoWriters g s) :=
  inferInstanceAs (Decidable (_ → _))

/-- The assertions hold: recorded writers have an owner, and a sample that neither comes from it nor
outranks it is not accepted. -/
theorem writerAlive_asserts (hi : i.Settled) (hs : s ≠ maxStrength)
    (hfinds : i.FindsNoWriters g s) : i.WriterAliveAsserts g s := by
  refine ⟨fun _ _ _ hmax => absurd hmax hs, fun hstate haccept => ?_⟩
  rcases hfinds hstate with hnil | ⟨hne, hbelow⟩
  · exact hnil
  rcases hi.leads (by simp [hstate]) with ⟨hnil, -⟩ | hleads
  · exact hnil
  have hreject : ¬(g = i.currentOwner.1 ∨ rank i.currentOwner < rank (g, s) ∨
      i.currentOwner.1 = Guid.unknown) := by
    rw [← outranks_iff, hbelow]
    simp [hne, hi.roster.known _ hleads.1]
  rw [ownerAfterAlive_eq _ hs, if_neg hreject] at haccept
  cases haccept

lemma Settled.writerAlive (hi : i.Settled) (hg : g ≠ Guid.unknown) (hs : s ≠ maxStrength)
    (hkeeps : i.instanceState ≠ .notAliveDisposed → i.KeepsLead g s) :
    (i.writerAlive g s).2.Settled := by
  rw [DataReaderInstance.writerAlive, ownerAfterAlive_eq _ hs]
  split
  · rename_i owner howner
    split at howner
    case isFalse => cases howner
    case isTrue haccept =>
      obtain rfl := some.inj howner
      have hwriters := revive_aliveWriters ({ i with currentOwner := (g, s) } :
        DataReaderInstance C)
      by_cases hstate : i.instanceState = .notAliveDisposed
      · -- The instance starts again with this writer alone.
        rw [if_pos hstate] at hwriters
        refine settled_claimed (hwriters ▸ .nil) hg (revive_currentOwner _) fun _ => ?_
        simp [hwriters, others]
      · rw [if_neg hstate] at hwriters
        refine settled_claimed (by rw [hwriters]; exact hi.roster) hg (revive_currentOwner _)
          fun _ v hv => ?_
        rw [hwriters] at hv
        obtain ⟨hmem, hne⟩ := mem_others.mp hv
        obtain ⟨hknown, hle⟩ := hi.rank_le hstate hmem
        rcases haccept with hsame | habove | hunknown
        · exact le_of_lt ((outranks_iff _ _).mp (hkeeps hstate hsame v hmem hne))
        · exact le_trans hle (le_of_lt habove)
        · exact absurd hunknown hknown
  · rename_i howner
    split at howner
    case isTrue => cases howner
    case isFalse hreject =>
      simp only [not_or, not_lt] at hreject
      exact hi.recorded hg fun _ => ⟨hreject.2.2, Ne.symm hreject.1, hreject.2.1⟩

/-- A sample is accepted exactly if its writer owns the instance afterwards. The largest strength is
excluded: it stands for shared ownership, which has no owner. -/
theorem writerAlive_accepted (hs : s ≠ maxStrength) :
    (i.writerAlive g s).1 = true ↔ (i.writerAlive g s).2.currentOwner.1 = g := by
  rw [writerAlive, ownerAfterAlive_eq _ hs]
  split
  · rename_i owner howner
    split at howner
    · obtain rfl := some.inj howner
      simp [writerSet]
    · cases howner
  · rename_i howner
    split at howner
    · cases howner
    · rename_i hreject
      simp only [not_or] at hreject
      simpa [writerSet] using Ne.symm hreject.1

end Alive

section Dispose

/-- A disposal comes from a writer that owns the instance afterwards by its rank: the instance has
had an owner, an owner does not lower its strength with it, and among writers of the strength of
the owner none with a greater GUID sends it. -/
structure DisposesFairly (i : DataReaderInstance C) (g : Guid) (s : Nat) : Prop where
  owned : i.currentOwner ≠ (Guid.unknown, maxStrength)
  lasting : g = i.currentOwner.1 → i.currentOwner.2 ≤ s
  tie : i.currentOwner.1 ≠ Guid.unknown → s = i.currentOwner.2 → ¬ i.currentOwner.1.lt g

instance (i : DataReaderInstance C) (g : Guid) (s : Nat) : Decidable (i.DisposesFairly g s) :=
  decidable_of_iff (_ ∧ _ ∧ _)
    ⟨fun h => ⟨h.1, h.2.1, h.2.2⟩, fun h => ⟨h.owned, h.lasting, h.tie⟩⟩

lemma DisposesFairly.accounted (hfair : i.DisposesFairly g s) (accounted : Bool) :
    DisposesFairly { i with hasBeenAccounted := accounted } g s :=
  ⟨hfair.owned, hfair.lasting, hfair.tie⟩

lemma disposes_iff (i : DataReaderInstance C) (g : Guid) (s : Nat) :
    i.currentOwner.2 ≤ s ∨ (s = i.currentOwner.2 ∧ g.lt i.currentOwner.1) ↔
      i.currentOwner.2 ≤ s := by
  constructor
  · rintro (h | ⟨h, -⟩)
    · exact h
    · exact Nat.le_of_eq h.symm
  · exact .inl

lemma rank_le_of_fair (hfair : i.DisposesFairly g s) (hknown : i.currentOwner.1 ≠ Guid.unknown)
    (hs : i.currentOwner.2 ≤ s) : rank i.currentOwner ≤ rank (g, s) := by
  rw [← not_lt, ← outranks_iff]
  simp only [outranks, Bool.or_eq_true, Bool.and_eq_true, decide_eq_true_eq, not_or, not_lt]
  exact ⟨hs, fun h => hfair.tie hknown h.1.symm h.2⟩

lemma Settled.writerDispose (hi : i.Settled) (hg : g ≠ Guid.unknown) (hs : s < maxStrength)
    (hfair : i.instanceState ≠ .notAliveDisposed → i.DisposesFairly g s) :
    (i.writerDispose g s).2.Settled := by
  rw [DataReaderInstance.writerDispose]
  simp only [disposes_iff, if_pos (Nat.ne_of_lt hs)]
  split
  case isTrue habove =>
    split
    case isTrue halive =>
      exact settled_claimed hi.roster hg rfl fun hstate => absurd rfl hstate
    case isFalse halive =>
      refine settled_claimed hi.roster hg rfl fun hstate v hv => ?_
      obtain ⟨hknown, hle⟩ := hi.rank_le hstate (mem_others.mp hv).1
      exact le_trans hle (rank_le_of_fair (hfair hstate) hknown habove)
  case isFalse hbelow =>
    refine hi.recorded hg fun hstate => ⟨fun hunknown => ?_,
      fun h => hbelow ((hfair hstate).lasting h.symm), le_of_lt ?_⟩
    · -- Without an owner only the strength nobody reaches lies above.
      have howner : i.currentOwner.2 = maxStrength := by
        rcases hi.unowned hunknown with hzero | hmax
        · omega
        · exact hmax
      exact (hfair hstate).owned (Prod.ext hunknown howner)
    · rw [← outranks_iff]
      simp only [outranks, Bool.or_eq_true, decide_eq_true_eq]
      exact .inl (by omega)

/-- A disposal of an alive instance is accepted exactly if its writer owns the instance
afterwards, and then it is the leading one. -/
theorem writerDispose_accepted (hi : i.Settled) (hs : s < maxStrength)
    (halive : i.instanceState = .alive) (hfair : i.DisposesFairly g s) :
    ((i.writerDispose g s).1 = true ↔ (i.writerDispose g s).2.currentOwner.1 = g) ∧
      ((i.writerDispose g s).1 = true → Leads (i.writerDispose g s).2.currentOwner
        (i.writerDispose g s).2.aliveWriters) := by
  rw [writerDispose]
  simp only [disposes_iff, if_pos (Nat.ne_of_lt hs), if_pos halive]
  split
  case isTrue habove =>
    refine ⟨by simp [writerSet], fun _ => leads_iff.mpr ⟨?_, fun v hv => ?_⟩⟩
    · exact hi.roster.mem_writerSet.mpr (.inl rfl)
    · rcases hi.roster.mem_writerSet.mp hv with rfl | hold
      · exact le_refl _
      · obtain ⟨hknown, hle⟩ := hi.rank_le (by simp [halive]) (mem_others.mp hold).1
        exact le_trans hle (rank_le_of_fair hfair hknown habove)
  case isFalse hbelow =>
    have hne : i.currentOwner.1 ≠ g := fun h => hbelow (hfair.lasting h.symm)
    simp [writerSet, hne]

end Dispose

section Unregister

/-- When the owner leaves, an election finds a successor: the instance is alive and one of the other
writers has a strength above zero. -/
def LeavesSuccessor (i : DataReaderInstance C) (g : Guid) : Prop :=
  others g i.aliveWriters = [] ∨ i.instanceState = .alive ∧ ∃ w ∈ others g i.aliveWriters, 0 < w.2

instance (i : DataReaderInstance C) (g : Guid) : Decidable (i.LeavesSuccessor g) :=
  inferInstanceAs (Decidable (_ ∨ _))

lemma writerUnregister_of_notMem (hg : g ∉ i.aliveWriters.map Prod.fst) :
    i.writerUnregister g = (false, i) := by
  rcases swapRemove_spec (fun w => decide (w.1 = g)) i.aliveWriters with
    ⟨hnone, -⟩ | ⟨x, ys, -, hx, hperm⟩
  · rw [writerUnregister, hnone]
  · rw [decide_eq_true_eq] at hx
    exact absurd (hx ▸ mem_map_of_mem (hperm.mem_iff.mpr mem_cons_self)) hg

/-- An unregistration is accepted exactly if its writer is alive. -/
theorem writerUnregister_accepted (i : DataReaderInstance C) (g : Guid) :
    (i.writerUnregister g).1 = true ↔ g ∈ i.aliveWriters.map Prod.fst := by
  constructor
  · intro haccept
    by_contra hg
    rw [writerUnregister_of_notMem hg] at haccept
    cases haccept
  · intro hg
    obtain ⟨w, hw, hwg⟩ := mem_map.mp hg
    rcases swapRemove_spec (fun w => decide (w.1 = g)) i.aliveWriters with
      ⟨-, hall⟩ | ⟨x, ys, hsome, -, -⟩
    · exact absurd hwg (by simpa using hall w hw)
    · rw [writerUnregister, hsome]

/-- A writer leaves, and the owner is as it should be. If the owner leaves, the scan over the others
has to find its successor; else the roster has only become smaller. -/
theorem settled_writerUnregister (hi : i.Owned) (hg : g ∈ i.aliveWriters.map Prod.fst)
    (hleads : i.instanceState ≠ .notAliveDisposed → g ≠ i.currentOwner.1 →
      others g i.aliveWriters = [] ∧ i.currentOwner.1 = Guid.unknown ∨
        Leads i.currentOwner (others g i.aliveWriters))
    (hleaves : i.instanceState ≠ .notAliveDisposed → g = i.currentOwner.1 → i.LeavesSuccessor g) :
    (i.writerUnregister g).2.Settled := by
  rw [writerUnregister]
  split
  case h_1 hnone =>
    have haccept := (writerUnregister_accepted i g).mpr hg
    rw [writerUnregister, hnone] at haccept
    cases haccept
  case h_2 rest hremove =>
    have hrest := hi.roster.swapRemove_perm hremove
    have hmem : ∀ w, w ∈ rest ↔ w ∈ others g i.aliveWriters := fun w => hrest.mem_iff
    have hroster : Roster rest := (hi.roster.without g).perm hrest
    have hnil : rest = [] ↔ others g i.aliveWriters = [] :=
      ⟨fun h => (h ▸ hrest).nil_eq.symm, fun h => (h ▸ hrest).eq_nil⟩
    dsimp only
    by_cases hgo : g = i.currentOwner.1
    · rw [if_pos hgo]
      by_cases halive : i.instanceState = .alive
      · rw [if_pos halive]
        by_cases hempty : rest = []
        · subst hempty
          rw [if_pos ⟨rfl, halive⟩]
          exact ⟨⟨hroster, .inl rfl, fun _ => .inl rfl⟩, fun _ => .inl ⟨rfl, rfl⟩,
            fun h => by cases h⟩
        · rw [if_neg fun h => hempty (isEmpty_iff.mp h.1)]
          obtain ⟨-, w, hw, hpos⟩ :=
            (hleaves (by simp [halive]) hgo).resolve_left fun h => hempty (hnil.mpr h)
          have helected : elect outranks (Guid.unknown, 0) rest ∈ rest :=
            elect_mem_of_above outranks_iff ((hmem w).mpr hw)
              ((outranks_iff _ _).mp (by simp [outranks, hpos]))
          exact settled_updateOwner hroster helected
      · rw [if_neg halive, if_neg fun h => halive h.2]
        refine ⟨⟨hroster, .inl rfl, fun _ => .inl rfl⟩, fun hstate => .inl ⟨?_, rfl⟩,
          fun h => absurd h halive⟩
        exact hnil.mpr ((hleaves hstate hgo).resolve_right fun h => halive h.1)
    · have hleads' : i.instanceState ≠ .notAliveDisposed →
          rest = [] ∧ i.currentOwner.1 = Guid.unknown ∨ Leads i.currentOwner rest := by
        intro hstate
        rcases hleads hstate hgo with ⟨h, hunknown⟩ | h
        · exact .inl ⟨hnil.mpr h, hunknown⟩
        · refine .inr ⟨(hmem _).mpr h.1, fun v hv => h.2 v ((hmem v).mp hv)⟩
      have howner' : i.currentOwner.1 = Guid.unknown ∨ i.currentOwner.1 ∈ rest.map Prod.fst := by
        refine hi.ownerAlive.imp_right fun hin => ?_
        obtain ⟨w, hw, hwo⟩ := mem_map.mp hin
        exact mem_map.mpr ⟨w, (hmem w).mpr (mem_others.mpr ⟨hw, fun hwg =>
          hgo (hwg.symm.trans hwo)⟩), hwo⟩
      split
      case isTrue hempty =>
        have hstate : i.instanceState ≠ .notAliveDisposed := by simp [hempty.2]
        exact ⟨⟨hroster, howner', hi.unowned⟩, fun _ => hleads' hstate, fun h => by cases h⟩
      case isFalse hempty =>
        refine ⟨⟨hroster, howner', hi.unowned⟩, hleads', fun halive h => ?_⟩
        exact absurd ⟨isEmpty_iff.mpr h, halive⟩ hempty

lemma Settled.leads_others (hi : i.Settled) (hstate : i.instanceState ≠ .notAliveDisposed)
    (hne : g ≠ i.currentOwner.1) : others g i.aliveWriters = [] ∧ i.currentOwner.1 = Guid.unknown ∨
      Leads i.currentOwner (others g i.aliveWriters) := by
  rcases hi.leads hstate with ⟨hnil, hunknown⟩ | ⟨hin, hall⟩
  · exact .inl ⟨by simp [others, hnil], hunknown⟩
  · exact .inr ⟨mem_others.mpr ⟨hin, Ne.symm hne⟩, fun v hv => hall v (mem_others.mp hv).1⟩

lemma Settled.writerUnregister (hi : i.Settled)
    (hleaves : i.instanceState ≠ .notAliveDisposed → g = i.currentOwner.1 →
      i.LeavesSuccessor g) : (i.writerUnregister g).2.Settled := by
  by_cases hg : g ∈ i.aliveWriters.map Prod.fst
  · exact settled_writerUnregister hi.toOwned hg (fun hstate hne => hi.leads_others hstate hne)
      hleaves
  · rw [writerUnregister_of_notMem hg]
    exact hi

/-- A missed deadline is the owner's leaving. -/
theorem deadlineMissed_eq (i : DataReaderInstance C) : i.deadlineMissed =
      if i.currentOwner.1 ≠ Guid.unknown then (i.writerUnregister i.currentOwner.1).2 else i := by
  rw [deadlineMissed, writerUnregister]
  split
  case isFalse => rfl
  case isTrue =>
    cases swapRemove (fun w => decide (w.1 = i.currentOwner.1)) i.aliveWriters with
    | none => rfl
    | some rest =>
      by_cases halive : i.instanceState = .alive
      · by_cases hempty : rest.isEmpty
        · obtain rfl := isEmpty_iff.mp hempty
          simp [halive, updateOwner, elect]
        · simp [halive, hempty]
      · simp [halive]

end Unregister

section StrengthUpdate

lemma Settled.strengthUpdated (hi : i.Settled) (hg : g ≠ Guid.unknown) :
    (i.writerUpdateItsOwnershipStrength g s).Settled := by
  rw [writerUpdateItsOwnershipStrength]
  split
  case isFalse => exact hi
  case isTrue hgo =>
    have hin : g ∈ i.aliveWriters.map Prod.fst :=
      hgo ▸ hi.ownerAlive.resolve_left fun h => hg (hgo.trans h)
    have hperm := hi.roster.setStrength_perm hin s
    have hroster := (hi.roster.recorded hg s).perm hperm
    have helected : elect outranks (i.currentOwner.1, s) (setStrength g s i.aliveWriters) ∈
        setStrength g s i.aliveWriters := by
      -- The election starts with the owner, which is one of the writers.
      rcases mem_cons.mp (elect_mem outranks (i.currentOwner.1, s)
        (setStrength g s i.aliveWriters)) with heq | h
      · rw [heq, ← hgo]
        exact hperm.mem_iff.mpr mem_cons_self
      · exact h
    exact settled_updateOwner hroster helected

end StrengthUpdate

section Runs

/-- The writers of an event are real ones, and their strengths are those of exclusive ownership. -/
def Event.Valid : Event → Prop
  | .change _ g s => g ≠ Guid.unknown ∧ s < maxStrength
  | .writerRemoved g => g ≠ Guid.unknown
  | .deadlineMissed => True
  | .strengthUpdated g s => g ≠ Guid.unknown ∧ s < maxStrength

instance : (e : Event) → Decidable e.Valid
  | .change _ _ _ | .strengthUpdated _ _ => inferInstanceAs (Decidable (_ ∧ _))
  | .writerRemoved _ => inferInstanceAs (Decidable (_ ≠ _))
  | .deadlineMissed => inferInstanceAs (Decidable True)

def FairNow (i : DataReaderInstance C) : Event → Prop
  | .change .alive g s => i.KeepsLead g s ∧ i.FindsNoWriters g s
  | .change .notAliveDisposed g s => i.DisposesFairly g s
  | .change .notAliveDisposedUnregistered g s =>
    i.currentOwner.2 ≤ s ∧ i.instanceState = .alive ∨
      s < i.currentOwner.2 ∧ g ≠ i.currentOwner.1 ∨ i.LeavesSuccessor g
  | .change .notAliveUnregistered g _ => g = i.currentOwner.1 → i.LeavesSuccessor g
  | .writerRemoved g => g = i.currentOwner.1 → i.LeavesSuccessor g
  | .deadlineMissed => i.currentOwner.1 ≠ Guid.unknown → i.LeavesSuccessor i.currentOwner.1
  | .strengthUpdated _ _ => True

/-- The events after which the owner leads. Disposed instances ask for nothing. -/
def Fair (i : DataReaderInstance C) (e : Event) : Prop :=
  i.instanceState ≠ .notAliveDisposed → i.FairNow e

instance (i : DataReaderInstance C) (e : Event) : Decidable (i.Fair e) :=
  have : Decidable (i.FairNow e) :=
    match e with
    | .change .alive _ _ => inferInstanceAs (Decidable (_ ∧ _))
    | .change .notAliveDisposed _ _ => inferInstanceAs (Decidable (DisposesFairly _ _ _))
    | .change .notAliveDisposedUnregistered _ _ => inferInstanceAs (Decidable (_ ∨ _))
    | .change .notAliveUnregistered _ _ | .writerRemoved _ | .deadlineMissed =>
      inferInstanceAs (Decidable (_ → _))
    | .strengthUpdated _ _ => inferInstanceAs (Decidable True)
  inferInstanceAs (Decidable (_ → _))

lemma Settled.disposedUnregistered (hi : i.Settled) (hg : g ≠ Guid.unknown) (hs : s < maxStrength)
    (hfair : i.instanceState ≠ .notAliveDisposed →
      i.currentOwner.2 ≤ s ∧ i.instanceState = .alive ∨
        s < i.currentOwner.2 ∧ g ≠ i.currentOwner.1 ∨ i.LeavesSuccessor g) :
    ((i.writerDispose g s).2.writerUnregister g).2.Settled := by
  rw [DataReaderInstance.writerDispose]
  simp only [disposes_iff, if_pos (Nat.ne_of_lt hs)]
  split
  case isTrue habove =>
    split
    case isTrue halive =>
      have hdisposed := settled_claimed (s := s) (i := { i with
        currentOwner := (g, s), instanceState := .notAliveDisposed }) hi.roster hg rfl
        fun hstate => absurd rfl hstate
      exact hdisposed.writerUnregister fun hstate => absurd rfl hstate
    case isFalse halive =>
      refine settled_writerUnregister (owned_writerSet hi.roster hg rfl)
        (mem_map_fst_writerSet hi.roster (.inl rfl)) (fun _ hne => absurd rfl hne)
        fun hstate _ => ?_
      rw [LeavesSuccessor, others_writerSet]
      rcases hfair hstate with h | h | h
      · exact absurd h.2 halive
      · omega
      · exact h
  case isFalse hbelow =>
    refine settled_writerUnregister (hi.toOwned.writerSet hg)
      (mem_map_fst_writerSet hi.roster (.inl rfl)) (fun hstate hne => ?_) fun hstate hgo => ?_
    · rw [others_writerSet]
      exact hi.leads_others hstate hne
    · rw [LeavesSuccessor, others_writerSet]
      rcases hfair hstate with h | h | h
      · exact absurd h.1 hbelow
      · exact absurd hgo h.2
      · exact h

lemma Settled.step (hi : i.Settled) {e : Event} (hvalid : e.Valid) (hfair : i.Fair e) :
    (i.step e).2.Settled := by
  cases e with
  | change kind g s =>
    cases kind with
    | alive =>
      exact (hi.accounted true).writerAlive hvalid.1 (Nat.ne_of_lt hvalid.2)
        fun hstate => (hfair hstate).1
    | notAliveDisposed =>
      exact (hi.accounted true).writerDispose hvalid.1 hvalid.2
        fun hstate => DisposesFairly.accounted (hfair hstate) true
    | notAliveDisposedUnregistered =>
      exact (hi.accounted true).disposedUnregistered hvalid.1 hvalid.2 hfair
    | notAliveUnregistered => exact (hi.accounted true).writerUnregister hfair
  | writerRemoved g =>
    rw [DataReaderInstance.step, DataReaderInstance.writerRemoved]
    split
    · exact hi.writerUnregister hfair
    · exact hi
  | deadlineMissed =>
    rw [DataReaderInstance.step, deadlineMissed_eq]
    split
    · rename_i hknown
      exact hi.writerUnregister fun hstate _ => hfair hstate hknown
    · exact hi
  | strengthUpdated g s => exact hi.strengthUpdated hvalid.1

/-- An alive instance is owned by the leading writer, or has not had a writer yet. -/
def OwnerLeads (i : DataReaderInstance C) : Prop :=
  i.instanceState = .alive → i.aliveWriters = [] ∧ i.currentOwner = (Guid.unknown, maxStrength) ∨
      Leads i.currentOwner i.aliveWriters

instance (i : DataReaderInstance C) : Decidable i.OwnerLeads :=
  inferInstanceAs (Decidable (_ → _))

/-- Samples, and disposals of an alive instance, are accepted exactly if they come from the writer
that owns the instance afterwards. An unregistration is accepted from any alive writer, and with a
disposal from any writer, as the disposal makes it an alive one. -/
def AcceptsOwner (i : DataReaderInstance C) : Event → Prop
  | .change .alive g s =>
    (i.step (.change .alive g s)).1 = true ↔ (i.step (.change .alive g s)).2.currentOwner.1 = g
  | .change .notAliveDisposed g s =>
    i.instanceState = .alive → ((i.step (.change .notAliveDisposed g s)).1 = true ↔
        (i.step (.change .notAliveDisposed g s)).2.currentOwner.1 = g) ∧
      ((i.step (.change .notAliveDisposed g s)).1 = true →
        Leads (i.step (.change .notAliveDisposed g s)).2.currentOwner
          (i.step (.change .notAliveDisposed g s)).2.aliveWriters)
  | .change .notAliveUnregistered g s =>
    (i.step (.change .notAliveUnregistered g s)).1 = true ↔ g ∈ i.aliveWriters.map Prod.fst
  | .change .notAliveDisposedUnregistered g s =>
    (i.step (.change .notAliveDisposedUnregistered g s)).1 = true
  | .writerRemoved _ | .deadlineMissed | .strengthUpdated _ _ => True

lemma settled_run {events : List Event}
    (hrun : RunsWith (fun i e => (step i e).2) (fun i e => e.Valid ∧ i.Fair e)
      (new : DataReaderInstance C) events) : ((new : DataReaderInstance C).run events).Settled :=
  hrun.keeps (I := Settled) (fun _ _ hi he => hi.step he.1 he.2) settled_new

lemma Settled.asserts (hi : i.Settled) {e : Event} (hvalid : e.Valid) (hfair : i.Fair e) :
    i.Asserts e := by
  unfold Asserts
  split
  · -- A disposed instance is not one without writers.
    refine writerAlive_asserts hi (Nat.ne_of_lt hvalid.2) fun hstate => ?_
    exact (hfair (by simp [hstate])).2 hstate
  · intro howner
    exact howner ▸ hi.ownerAlive.resolve_left fun h => hvalid.1 (howner.trans h)
  · trivial

lemma mem_writerDispose (hi : i.Settled) :
    g ∈ (i.writerDispose g s).2.aliveWriters.map Prod.fst := by
  rw [writerDispose]
  split
  · dsimp only
    split <;> split <;> exact mem_map_fst_writerSet hi.roster (.inl rfl)
  · exact mem_map_fst_writerSet hi.roster (.inl rfl)

lemma Settled.acceptsOwner (hi : i.Settled) {e : Event} (hvalid : e.Valid) (hfair : i.Fair e) :
    i.AcceptsOwner e := by
  unfold AcceptsOwner
  split
  · exact writerAlive_accepted (Nat.ne_of_lt hvalid.2)
  · intro halive
    exact writerDispose_accepted (hi.accounted true) hvalid.2 halive
      (DisposesFairly.accounted (hfair (by simp [halive])) true)
  · exact writerUnregister_accepted _ _
  · rw [DataReaderInstance.step, updateState, Bool.or_eq_true]
    exact .inr ((writerUnregister_accepted _ _).mpr (mem_writerDispose (hi.accounted true)))
  all_goals trivial

/-- In a run of fair events the owner leads in every state, no assertion fails, and exactly its
samples are accepted. -/
theorem exclusive_ownership {events : List Event}
    (hrun : RunsWith (fun i e => (step i e).2) (fun i e => e.Valid ∧ i.Fair e)
      (new : DataReaderInstance C) events) :
    ((new : DataReaderInstance C).run events).OwnerLeads ∧
      ∀ e, e.Valid → ((new : DataReaderInstance C).run events).Fair e →
        ((new : DataReaderInstance C).run events).Asserts e ∧
          ((new : DataReaderInstance C).run events).AcceptsOwner e := by
  have hi := settled_run hrun
  generalize (new : DataReaderInstance C).run events = i at hi
  refine ⟨fun halive => ?_, fun e hvalid hfair =>
    ⟨hi.asserts hvalid hfair, hi.acceptsOwner hvalid hfair⟩⟩
  rcases hi.leads (by simp [halive]) with ⟨hnil, -⟩ | hleads
  · exact .inl ⟨hnil, hi.fresh halive hnil⟩
  · exact .inr hleads

def sampleGuid (n : UInt8) : Guid := ⟨Vector.replicate 12 n, .sample 2⟩

def handover : List Event :=
  [.change .alive (sampleGuid 1) 10, .change .alive (sampleGuid 2) 20,
    .change .alive (sampleGuid 1) 10, .change .notAliveUnregistered (sampleGuid 2) 20]

theorem exclusive_ownership_handover :
    ((new : DataReaderInstance Unit).run (handover.take 3)).currentOwner = (sampleGuid 2, 20) ∧
    ((new : DataReaderInstance Unit).run handover).currentOwner = (sampleGuid 1, 10) ∧
    RunsWith (fun i e => (step i e).2) (fun i e => e.Valid ∧ i.Fair e)
        (new : DataReaderInstance Unit) handover ∧
      ((new : DataReaderInstance Unit).run handover).OwnerLeads := by
  have hrun : RunsWith (fun i e => (step i e).2) (fun i e => e.Valid ∧ i.Fair e)
      (new : DataReaderInstance Unit) handover := by decide
  exact ⟨by decide, by decide, hrun, (exclusive_ownership hrun).1⟩

/-- The owner lowers its strength with a sample of its own and stays the owner; a strength update of
another writer is not recorded. After the owner has left, writers of strength zero are not elected.
A disposal before the first sample, and one with which the owner lowers its strength, leave the
instance alive with a wrong owner. A disposal of an instance without writers lets a sample of a weak
writer through. A disposal from a writer of the strength of the owner and a greater GUID is
accepted. A disposal of an instance without writers makes an assertion fail at the next sample. -/
theorem owner_not_leading :
    ¬ ((new : DataReaderInstance Unit).run [.change .alive (sampleGuid 1) 10,
        .change .alive (sampleGuid 2) 6, .change .alive (sampleGuid 1) 2]).OwnerLeads ∧
      ((new : DataReaderInstance Unit).run [.change .alive (sampleGuid 1) 10,
        .change .alive (sampleGuid 2) 6, .strengthUpdated (sampleGuid 2) 20]).currentOwner =
          (sampleGuid 1, 10) ∧
      ¬ ((new : DataReaderInstance Unit).run [.change .alive (sampleGuid 1) 10, .change .alive
        (sampleGuid 2) 0, .change .notAliveUnregistered (sampleGuid 1) 10]).OwnerLeads ∧
      ¬ ((new : DataReaderInstance Unit).run
        [.change .notAliveDisposed (sampleGuid 1) 5]).OwnerLeads ∧
      ¬ ((new : DataReaderInstance Unit).run [.change .alive (sampleGuid 1) 10,
        .change .notAliveDisposed (sampleGuid 1) 3]).OwnerLeads ∧
      ¬ ((new : DataReaderInstance Unit).run [.change .alive (sampleGuid 1) 10,
        .change .notAliveUnregistered (sampleGuid 1) 10, .change .notAliveDisposed (sampleGuid 2) 7,
        .change .alive (sampleGuid 3) 5, .change .notAliveUnregistered (sampleGuid 2) 7,
        .change .alive (sampleGuid 4) 3]).OwnerLeads ∧
      (((new : DataReaderInstance Unit).run [.change .alive (sampleGuid 1) 10]).step
        (.change .notAliveDisposed (sampleGuid 2) 10)).1 = true ∧
      ¬ ((new : DataReaderInstance Unit).run [.change .alive (sampleGuid 1) 10,
        .change .notAliveUnregistered (sampleGuid 1) 10,
        .change .notAliveDisposed (sampleGuid 2) 7]).WriterAliveAsserts (sampleGuid 2) 7 := by
  decide

end Runs

end DataReaderInstance

end EasyDds.Dds
