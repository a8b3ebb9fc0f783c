import EasyDds.Cdr.Decode.Collection

/-!
What a decoder of a collection did when it returned.
-/

namespace EasyDds.Cdr

open Prog

variable {α : Type} {init : α} {one : α → CdrM α} {many : List α → CdrM (List α)} {s s' : Cdr}
  {v v' : List α} {start dheader : Nat} {message : String}

lemma checkDheader_ok {u : Unit} : (checkDheader start dheader message).run s = (.ok u, s') ↔
      iteratorDiff s.offset start = dheader ∧ s' = s := by
  rw [checkDheader, run_read_bind]
  by_cases h : iteratorDiff s.offset start = dheader
  · simp [h, eq_comm]
  · simp [h]

/-- A loop below a DHEADER and the check behind it. -/
theorem check_ok {β : Type} {m : CdrM β} {b : β} :
    (m >>= fun b => checkDheader start dheader message >>= fun _ => pure b).run s = (.ok b, s') ↔
      m.run s = (.ok b, s') ∧ iteratorDiff s'.offset start = dheader := by
  rw [bind_eq_ok]
  simp only [bind_eq_ok, checkDheader_ok, run_pure, ok_inj]
  constructor
  · rintro ⟨b, s1, hm, _, _, ⟨hcheck, rfl⟩, rfl, rfl⟩
    exact ⟨hm, hcheck⟩
  · rintro ⟨hm, hcheck⟩
    exact ⟨b, s', hm, (), s', ⟨hcheck, rfl⟩, rfl, rfl⟩

lemma deserializeObjectVector_ok (hversion : s.cdrVersion = .xcdrV2) :
    (deserializeObjectVector init one many v).run s = (.ok v', s') ↔
      ∃ dheader s1 n s2, deserializeU32.run s = (.ok dheader, s1) ∧
        deserializeLength.run s1 = (.ok n, s2) ∧
        if n = 0 then v' = [] ∧ s' = s2
        else (deserializeWhile s1.offset dheader one (resizeList init n v)).run s2 = (.ok v', s') ∧
          iteratorDiff s'.offset s1.offset = dheader := by
  rw [deserializeObjectVector, run_read_bind, if_pos hversion, bind_eq_ok]
  simp only [run_read_bind, bind_eq_ok (m := deserializeLength), exists_and_left]
  refine exists₂_congr fun dheader s1 => and_congr_right fun _ => exists₂_congr fun n s2 =>
    and_congr_right fun _ => ?_
  split
  · simp only [run_pure, ok_inj, eq_comm]
  · exact check_ok

lemma deserializeStringSequence_ok (hversion : s.cdrVersion = .xcdrV2) {l : List (List UInt8)} :
    deserializeStringSequence.run s = (.ok l, s') ↔
      ∃ dheader s1 n s2, deserializeU32.run s = (.ok dheader, s1) ∧
        deserializeLength.run s1 = (.ok n, s2) ∧
        (deserializeWhile s1.offset dheader (fun _ => notePad 4 >>= fun _ => deserializeString)
          (List.replicate n [])).run s2 = (.ok l, s') ∧
        iteratorDiff s'.offset s1.offset = dheader := by
  rw [deserializeStringSequence, run_read_bind, if_pos hversion, bind_eq_ok]
  simp only [run_read_bind, bind_eq_ok (m := deserializeLength), check_ok, exists_and_left]

lemma deserializeMap_ok {k : KeyTy} {t : Ty} (ht : t.isArithmetic = false)
    (hversion : s.cdrVersion = .xcdrV2) {value : CdrM t.denote}
    {m m' : OrderedMap k.rank t.denote} : (deserializeMap k t value m).run s = (.ok m', s') ↔
      ∃ dheader s1 n s2, deserializeU32.run s = (.ok dheader, s1) ∧ deserializeLength.run s1 =
        (.ok n, s2) ∧ (deserializePairsWhile k value s1.offset dheader n .empty).run s2 =
        (.ok m', s') ∧ iteratorDiff s'.offset s1.offset = dheader := by
  rw [deserializeMap, run_read_bind, if_neg (by simp [ht]), if_pos hversion, bind_eq_ok]
  simp only [run_read_bind, bind_eq_ok (m := deserializeLength), check_ok, exists_and_left]

/-- An XCDRv2 decoder in front of the given bytes. -/
def ofBytes (bytes : List UInt8) (h : bytes.length < 2 ^ 63) : Cdr :=
  ofFastBuffer (fun i => bytes.getD i 0) bytes.length h .xcdrV2 false

end EasyDds.Cdr
