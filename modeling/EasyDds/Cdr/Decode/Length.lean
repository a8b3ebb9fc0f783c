import EasyDds.Cdr.Decode.Forward
import EasyDds.Cdr.Decode.Overwrite

/-!
The length word of an XCDRv2 collection. The loops stop at the length or at the end of the DHEADER,
whichever comes first, and only the end is checked behind them.
-/

namespace EasyDds.Cdr

open Prog

section Counted

variable {α β : Type} {one : α → CdrM α} {start dheader n : Nat} {s s' s1 : Cdr}

/-- `deserializeWhile` with the counter of the source's loop. -/
def countWhile (start dheader : Nat) (one : α → CdrM α) : List α → CdrM (Nat × List α)
  | [] => pure (0, [])
  | x :: xs => do
    if iteratorDiff (← read).offset start < dheader then
      let x' ← one x
      let (count, xs') ← countWhile start dheader one xs
      pure (count + 1, x' :: xs')
    else pure (0, x :: xs)

/-- `deserializePairsWhile` with the counter of the source's loop. -/
def countPairsWhile (k : KeyTy) (value : CdrM β) (start dheader : Nat) :
    Nat → OrderedMap k.rank β → CdrM (Nat × OrderedMap k.rank β)
  | 0, m => pure (0, m)
  | n + 1, m => do
    if iteratorDiff (← read).offset start < dheader then
      let e ← deserializePair k value
      let (count, m') ← countPairsWhile k value start dheader n (m.emplace e)
      pure (count + 1, m')
    else pure (0, m)

lemma countWhile_related (start dheader : Nat) (one : α → CdrM α) : ∀ xs : List α,
    Related (fun l r => r.2 = l) (deserializeWhile start dheader one xs)
      (countWhile start dheader one xs)
  | [] => .pure rfl
  | x :: xs => by
    rw [deserializeWhile, countWhile]
    refine .bind_same _ fun _ => .ite ?_ (.pure rfl)
    refine .bind_same _ fun x' => (countWhile_related start dheader one xs).bind ?_
    rintro l ⟨count, _⟩ rfl
    exact .pure rfl

lemma countPairsWhile_related (k : KeyTy) (value : CdrM β) (start dheader : Nat) :
    ∀ (n : Nat) (m : OrderedMap k.rank β),
      Related (fun l r => r.2 = l) (deserializePairsWhile k value start dheader n m)
        (countPairsWhile k value start dheader n m)
  | 0, _ => .pure rfl
  | n + 1, m => by
    rw [deserializePairsWhile, countPairsWhile]
    refine .bind_same _ fun _ => .ite ?_ (.pure rfl)
    refine .bind_same _ fun e => ?_
    rw [← bind_pure (deserializePairsWhile k value start dheader n (m.emplace e))]
    refine (countPairsWhile_related k value start dheader n (m.emplace e)).bind ?_
    rintro l ⟨count, _⟩ rfl
    exact .pure rfl

/-- Each of `n` elements, decoded one after the other, starts before the end of the DHEADER. -/
def StartsBefore (element : CdrM β) (start dheader n : Nat) (s : Cdr) : Prop :=
  ∀ i < n, iteratorDiff ((times element i).run s).2.offset start < dheader

variable {element : CdrM β}

lemma times_succ_run {b : β} (h : element.run s = (.ok b, s1)) (i : Nat) :
    ((times element (i + 1)).run s).2 = ((times element i).run s1).2 := by
  rw [times, bind_of_ok h, run_bind]
  rcases (times element i).run s1 with ⟨_ | _, _⟩ <;> rfl

lemma startsBefore_succ {b : β} (h : element.run s = (.ok b, s1)) :
    StartsBefore element start dheader (n + 1) s ↔
      iteratorDiff s.offset start < dheader ∧ StartsBefore element start dheader n s1 := by
  constructor
  · intro hall
    refine ⟨hall 0 (Nat.succ_pos n), fun i hi => ?_⟩
    rw [← times_succ_run h]
    exact hall (i + 1) (Nat.succ_lt_succ hi)
  · rintro ⟨hfirst, hrest⟩ i hi
    cases i with
    | zero => exact hfirst
    | succ i =>
      rw [times_succ_run h]
      exact hrest i (Nat.lt_of_succ_lt_succ hi)

/-- All elements are decoded exactly if each of them starts before the end. -/
theorem countWhile_eq_iff (init : α) (hone : ∀ x y, GoAlong (one x) (one y)) {xs l : List α}
    {count : Nat}
    (h : (countWhile start dheader one xs).run s = (.ok (count, l), s')) :
    count = xs.length ↔ StartsBefore (one init) start dheader xs.length s := by
  induction xs generalizing s s' count l with
  | nil =>
    obtain ⟨hcount, -⟩ := eq_of_ok (run_pure _ _) h
    rw [Prod.mk.injEq] at hcount
    exact iff_of_true hcount.1 fun i hi => absurd hi (Nat.not_lt_zero i)
  | cons x xs ih =>
    rw [countWhile, run_read_bind] at h
    split at h
    case isFalse hend =>
      obtain ⟨hcount, -⟩ := eq_of_ok (run_pure _ _) h
      rw [Prod.mk.injEq] at hcount
      refine iff_of_false (fun hall => ?_) fun hall => hend (hall 0 (Nat.succ_pos _))
      rw [hcount.1] at hall
      cases hall
    case isTrue hbefore =>
      obtain ⟨x', s1, hx, hrest⟩ := bind_eq_ok.mp h
      obtain ⟨⟨c, xs'⟩, s2, hxs, hlast⟩ := bind_eq_ok.mp hrest
      obtain ⟨hcount, -⟩ := eq_of_ok (run_pure _ _) hlast
      rw [Prod.mk.injEq] at hcount
      obtain ⟨y, hy, -⟩ := (hone x init).of_ok hx
      rw [hcount.1, List.length_cons, startsBefore_succ hy, ← ih hxs, Nat.add_right_cancel_iff]
      exact (and_iff_right hbefore).symm

lemma countPairsWhile_eq_iff {k : KeyTy} {value : CdrM β} {m m' : OrderedMap k.rank β} {count : Nat}
    (h : (countPairsWhile k value start dheader n m).run s = (.ok (count, m'), s')) : count = n ↔
    StartsBefore (deserializePair k value) start dheader n s := by
  induction n generalizing s s' count m m' with
  | zero =>
    obtain ⟨hcount, -⟩ := eq_of_ok (run_pure _ _) h
    rw [Prod.mk.injEq] at hcount
    exact iff_of_true hcount.1 fun i hi => absurd hi (Nat.not_lt_zero i)
  | succ n ih =>
    rw [countPairsWhile, run_read_bind] at h
    split at h
    case isFalse hend =>
      obtain ⟨hcount, -⟩ := eq_of_ok (run_pure _ _) h
      rw [Prod.mk.injEq] at hcount
      refine iff_of_false (fun hall => ?_) fun hall => hend (hall 0 (Nat.succ_pos _))
      rw [hcount.1] at hall
      cases hall
    case isTrue hbefore =>
      obtain ⟨e, s1, he, hrest⟩ := bind_eq_ok.mp h
      obtain ⟨⟨c, m''⟩, s2, hm, hlast⟩ := bind_eq_ok.mp hrest
      obtain ⟨hcount, -⟩ := eq_of_ok (run_pure _ _) hlast
      rw [Prod.mk.injEq] at hcount
      rw [hcount.1, startsBefore_succ he, ← ih hm, Nat.add_right_cancel_iff]
      exact (and_iff_right hbefore).symm

end Counted

section Honoured

variable {α β : Type} {s s' : Cdr}

/-- What the two words in front of a collection ask for: without elements the DHEADER ends behind
the length word, and each of the elements starts before its end. -/
def LengthFits (element : CdrM α) (s : Cdr) : Prop :=
  ∀ dheader s1 n s2, deserializeU32.run s = (.ok dheader, s1) →
    deserializeLength.run s1 = (.ok n, s2) →
    (n = 0 → s2.offset = s1.offset + dheader) ∧ StartsBefore element s1.offset dheader n s2

/-- The loop behind the two words decoded as many elements as the length word says and stopped at
the end of the DHEADER. -/
def LengthHonoured (counted : Nat → Nat → Nat → CdrM (Nat × α)) (r : α) (s s' : Cdr) : Prop :=
  ∃ dheader s1 n s2, deserializeU32.run s = (.ok dheader, s1) ∧
    deserializeLength.run s1 = (.ok n, s2) ∧
    (counted s1.offset dheader n).run s2 = (.ok (n, r), s') ∧ s'.offset = s1.offset + dheader

section Standing

variable (hs : Standing false s)
include hs

lemma standing_behind_words {dheader n : Nat} {s1 s2 : Cdr}
    (hd : deserializeU32.run s = (.ok dheader, s1)) (hn : deserializeLength.run s1 = (.ok n, s2)) :
    Standing false s2 := by
  obtain ⟨hmove1, hencoding1⟩ : Moves false s s1 ∧ _ := deserializeU32_advances _ _ _ hs hd
  have hs1 := hmove1.standing hencoding1 hs
  obtain ⟨hmove2, hencoding2⟩ : Moves false s1 s2 ∧ _ := deserializeLength_advances _ _ _ hs1 hn
  exact hmove2.standing hencoding2 hs1

lemma lengthHonoured_iff
    {counted : Nat → Nat → Nat → CdrM (Nat × α)} {r : α} {dheader n count : Nat} {s1 s2 : Cdr}
    (hd : deserializeU32.run s = (.ok dheader, s1)) (hn : deserializeLength.run s1 = (.ok n, s2))
    (hcounted : (counted s1.offset dheader n).run s2 = (.ok (count, r), s'))
    (hcount : count = n ↔ StartsBefore element s1.offset dheader n s2) (hmoves : Moves false s2 s')
    (hempty : n = 0 → s' = s2) (hend : n ≠ 0 → iteratorDiff s'.offset s1.offset = dheader) :
    LengthHonoured counted r s s' ↔ LengthFits element s := by
  obtain ⟨hmove1, hencoding⟩ : Moves false s s1 ∧ _ := deserializeU32_advances _ _ _ hs hd
  obtain ⟨hmove2, -⟩ : Moves false s1 s2 ∧ _ :=
    deserializeLength_advances _ _ _ (hmove1.standing hencoding hs) hn
  have hlt := s'.size_lt
  have hoffset : n ≠ 0 → s'.offset = s1.offset + dheader := by
    intro hpos
    have hle := hmove2.le.trans hmoves.le
    have hwithin := hmoves.within
    have hdiff := hend hpos
    rw [iteratorDiff_eq hle (by omega)] at hdiff
    omega
  constructor
  · rintro ⟨dheader', s1', n', s2', hd', hn', hrun, hstop⟩
    obtain ⟨rfl, rfl⟩ := eq_of_ok hd hd'
    obtain ⟨rfl, rfl⟩ := eq_of_ok hn hn'
    have hall := (eq_of_ok hcounted hrun).1
    rw [Prod.mk.injEq] at hall
    intro dheader'' s1'' n'' s2'' hd'' hn''
    obtain ⟨rfl, rfl⟩ := eq_of_ok hd hd''
    obtain ⟨rfl, rfl⟩ := eq_of_ok hn hn''
    exact ⟨fun hzero => hempty hzero ▸ hstop, hcount.mp hall.1.symm⟩
  · intro hfits
    obtain ⟨hzero, hstarts⟩ := hfits dheader s1 n s2 hd hn
    refine ⟨dheader, s1, n, s2, hd, hn, (hcount.mpr hstarts) ▸ hcounted, ?_⟩
    by_cases hn0 : n = 0
    · rw [hempty hn0]
      exact hzero hn0
    · exact hoffset hn0

lemma vector_lengthHonoured_iff {fuel : Nat} {t : Ty} {v v' : List t.denote}
    (hok : (deserializeObjectVector t.init (deserialize fuel t).one (deserialize fuel t).many
      v).run s =
      (.ok v', s')) :
    LengthHonoured (fun start dheader n => countWhile start dheader (deserialize fuel t).one
        (resizeList t.init n v)) v' s s' ↔
      LengthFits ((deserialize fuel t).one t.init) s := by
  have hone := deserialize_goAlong fuel t
  obtain ⟨dheader, s1, n, s2, hd, hn, hrest⟩ := (deserializeObjectVector_ok hs.version).mp hok
  have hs2 := standing_behind_words hs hd hn
  by_cases hzero : n = 0
  · subst hzero
    rw [if_pos rfl] at hrest
    obtain ⟨rfl, rfl⟩ := hrest
    have hnil : resizeList t.init 0 v = [] := List.length_eq_zero_iff.mp (length_resizeList ..)
    have hcounted : (countWhile s1.offset dheader (deserialize fuel t).one
        (resizeList t.init 0 v)).run s' = (.ok (0, []), s') := by rw [hnil]; rfl
    refine lengthHonoured_iff hs hd hn hcounted ?_ (.refl hs2) (fun _ => rfl) (absurd rfl)
    exact iff_of_true rfl fun i hi => absurd hi (Nat.not_lt_zero i)
  · rw [if_neg hzero] at hrest
    obtain ⟨⟨count, l⟩, hcount, rfl⟩ := (countWhile_related _ _ _ _).of_ok hrest.1
    have hmoves : Moves false s2 s' := (deserializeWhile_advances _ _ (deserialize_advances fuel t
      false).1 _ _ _ _ hs2 hrest.1).1
    refine lengthHonoured_iff hs hd hn hcount ?_ hmoves (fun h => absurd h hzero) fun _ => hrest.2
    have heq := countWhile_eq_iff t.init hone hcount
    rwa [length_resizeList] at heq

lemma stringSequence_lengthHonoured_iff {l : List (List UInt8)}
    (hok : deserializeStringSequence.run s = (.ok l, s')) :
    LengthHonoured (fun start dheader n => countWhile start dheader
        (fun _ => notePad 4 >>= fun _ => deserializeString) (List.replicate n [])) l s s' ↔
      LengthFits (notePad 4 >>= fun _ => deserializeString) s := by
  obtain ⟨dheader, s1, n, s2, hd, hn, hloop, hend⟩ :=
    (deserializeStringSequence_ok hs.version).mp hok
  have hs2 := standing_behind_words hs hd hn
  obtain ⟨⟨count, l'⟩, hcount, rfl⟩ := (countWhile_related _ _ _ _).of_ok hloop
  have hmoves : Moves false s2 s' := (deserializeWhile_advances _ _
    (fun _ => (Advances.notePad 4).bind fun _ => deserializeString_advances) _ _ _ _ hs2 hloop).1
  refine lengthHonoured_iff hs hd hn hcount ?_ hmoves (fun hzero => ?_) fun _ => hend
  · have heq := countWhile_eq_iff [] (fun _ _ => (Related.refl _).mono fun _ _ _ => trivial) hcount
    rwa [List.length_replicate] at heq
  · subst hzero
    exact (eq_of_ok (run_pure _ _) hloop).2

lemma map_lengthHonoured_iff {fuel : Nat} {k : KeyTy} {t : Ty}
    (ht : t.isArithmetic = false) {m m' : OrderedMap k.rank t.denote}
    (hok : (deserializeMap k t ((deserialize fuel t).one t.init) m).run s = (.ok m', s')) :
    LengthHonoured (fun start dheader n => countPairsWhile k ((deserialize fuel t).one t.init)
        start dheader n .empty) m' s s' ↔
      LengthFits (deserializePair k ((deserialize fuel t).one t.init)) s := by
  obtain ⟨dheader, s1, n, s2, hd, hn, hloop, hend⟩ := (deserializeMap_ok ht hs.version).mp hok
  have hs2 := standing_behind_words hs hd hn
  obtain ⟨⟨count, l'⟩, hcount, rfl⟩ := (countPairsWhile_related _ _ _ _ _ _).of_ok hloop
  have hvalue : Advances false false ((deserialize fuel t).one t.init) :=
    (deserialize_advances fuel t false).1 t.init
  have hmoves := (deserializePairsWhile_advances k hvalue _ _ _ _ _ _ _ hs2 hloop).1
  refine lengthHonoured_iff hs hd hn hcount (countPairsWhile_eq_iff hcount) hmoves
    (fun hzero => ?_) fun _ => hend
  subst hzero
  exact (eq_of_ok (run_pure _ _) hloop).2

end Standing

/-- Decoding a vector or a map of other than arithmetic elements, or a sequence of strings, takes as
many elements from the buffer as the length word says and stops at the end of the DHEADER, exactly
if the DHEADER leaves room for each of them to start. -/
theorem collection_length_honoured_iff (hs : Standing false s) (fuel : Nat) (k : KeyTy) {t : Ty}
    (ht : t.isArithmetic = false) :
    (∀ v v' s', ((deserialize fuel (.vector t)).one v).run s = (.ok v', s') →
      (LengthHonoured (fun start dheader n => countWhile start dheader (deserialize fuel t).one
          (resizeList t.init n v)) v' s s' ↔ LengthFits ((deserialize fuel t).one t.init) s)) ∧
    (∀ l s', deserializeStringSequence.run s = (.ok l, s') →
      (LengthHonoured (fun start dheader n => countWhile start dheader
          (fun _ => notePad 4 >>= fun _ => deserializeString) (List.replicate n [])) l s s' ↔
        LengthFits (notePad 4 >>= fun _ => deserializeString) s)) ∧
    ∀ m m' s', ((deserialize fuel (.map k t)).one m).run s = (.ok m', s') →
      (LengthHonoured (fun start dheader n => countPairsWhile k ((deserialize fuel t).one t.init)
          start dheader n .empty) m' s s' ↔
        LengthFits (deserializePair k ((deserialize fuel t).one t.init)) s) := by
  refine ⟨fun v v' s' hok => ?_, fun l s' hok => stringSequence_lengthHonoured_iff hs hok,
    fun m m' s' hok => ?_⟩
  · rw [deserialize] at hok
    cases t with
    | prim p => cases ht
    | _ => exact vector_lengthHonoured_iff hs hok
  · rw [deserialize] at hok
    exact map_lengthHonoured_iff hs ht hok

end Honoured

section Samples

/-- Two strings, the second one behind two bytes of padding, with the DHEADER they need. -/
def sampleStrings : Cdr := ofBytes [19, 0, 0, 0, 2, 0, 0, 0, 2, 0, 0, 0, 97, 0, 0, 0, 3, 0, 0, 0,
  98, 99, 0] (by decide)

/-- Five strings, of which the DHEADER covers nothing but the length word. -/
def sampleShort : Cdr := ofBytes [4, 0, 0, 0, 5, 0, 0, 0] (by decide)

lemma standing_ofBytes (bytes : List UInt8) (h : bytes.length < 2 ^ 63) :
    Standing false (ofBytes bytes h) :=
  ⟨rfl, Nat.zero_le _, fun hinside => by cases hinside⟩

lemma lengthFits_sampleStrings :
    LengthFits ((deserialize 0 .string).one (Ty.init .string)) sampleStrings := by
  intro dheader s1 n s2 hd hn
  obtain ⟨rfl, rfl⟩ := eq_of_ok (by rfl : deserializeU32.run sampleStrings = (.ok 19, _)) hd
  obtain ⟨rfl, rfl⟩ := eq_of_ok (by rfl : _ = (Except.ok 2, _)) hn
  refine ⟨fun hzero => absurd hzero (by decide), fun i hi => ?_⟩
  interval_cases i <;> decide

theorem collection_length_honoured_strings :
    outcome (deserialize 0 (.vector .string)).one [] sampleStrings = some [[97], [98, 99]] ∧
      LengthFits ((deserialize 0 .string).one (Ty.init .string)) sampleStrings ∧
      ∃ s', LengthHonoured (fun start dheader n => countWhile start dheader
        (deserialize 0 .string).one (resizeList (Ty.init .string) n [])) [[97], [98, 99]]
          sampleStrings
          s' := by
  obtain ⟨s', hok⟩ : ∃ s', ((deserialize 0 (.vector .string)).one []).run sampleStrings =
      (.ok [[97], [98, 99]], s') := ⟨_, rfl⟩
  refine ⟨by decide, lengthFits_sampleStrings, s', ?_⟩
  exact ((collection_length_honoured_iff (standing_ofBytes _ _) 0 .string rfl).1 []
    [[97], [98, 99]] _ hok).mpr
    lengthFits_sampleStrings

/-- Five strings come back that were never read. -/
theorem collection_length_ignored :
    outcome (deserialize 0 (.vector .string)).one [] sampleShort = some (List.replicate 5 []) ∧
      ∀ s', ¬ LengthHonoured (fun start dheader n => countWhile start dheader
        (deserialize 0 .string).one (resizeList (Ty.init .string) n [])) (List.replicate 5 [])
        sampleShort s' := by
  refine ⟨by decide, fun s' => ?_⟩
  rintro ⟨dheader, s1, n, s2, hd, hn, hcount, -⟩
  obtain ⟨rfl, rfl⟩ := eq_of_ok (by rfl : deserializeU32.run sampleShort = (.ok 4, _)) hd
  obtain ⟨rfl, rfl⟩ := eq_of_ok (by rfl : _ = (Except.ok 5, _)) hn
  cases (eq_of_ok (by rfl : _ = (Except.ok (0, _), _)) hcount).1

end Samples

end EasyDds.Cdr
