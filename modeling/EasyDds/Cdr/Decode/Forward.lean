import EasyDds.Cdr.Decode.Inversion

/-!
An XCDRv2 decoder that returns has moved its cursor forward inside the buffer, and has looked at
no bytes but those it moved over. The headers of parameterized members look ahead, so the second
part is stated for types without such members.
-/

namespace EasyDds.Cdr

open Prog List

def Event.Between (lo hi : Nat) : Event → Prop
  | .read i n _ => lo ≤ i ∧ i + n ≤ hi
  | .cursor o _ => lo ≤ o ∧ o ≤ hi
  | .pad _ => True
  | .write .. | .move .. | .headerAlign .. | .grow .. => False

lemma Event.Between.mono {lo hi lo' hi' : Nat} {e : Event} (h : e.Between lo hi) (hlo : lo' ≤ lo)
    (hhi : hi ≤ hi') : e.Between lo' hi' := by
  cases e with
  | read i n limit | cursor o limit => exact ⟨hlo.trans h.1, h.2.trans hhi⟩
  | pad n => trivial
  | _ => exact h

/-- A decoder in XCDRv2 whose cursor is in the buffer; inside a structure, in one of the encodings
of XCDRv2. -/
structure Standing (inside : Bool) (s : Cdr) : Prop where
  version : s.cdrVersion = .xcdrV2
  within : s.offset ≤ s.size
  encoding : inside = true → s.currentEncoding ≠ .plainCdr

/-- The way from `s` to `s'` leads forward; a strict one looks at no other bytes. -/
structure Moves (strict : Bool) (s s' : Cdr) : Prop where
  version : s'.cdrVersion = s.cdrVersion
  le : s.offset ≤ s'.offset
  size_le : s.size ≤ s'.size
  within : s'.offset ≤ s'.size
  /-- Memory of the user does not grow. -/
  external : s.internalBuffer = false → s'.internalBuffer = false ∧ s'.size = s.size
  log : strict = true → ∃ new, s'.log = new ++ s.log ∧ ∀ e ∈ new, e.Between s.offset s'.offset

variable {strict inside : Bool} {s s' s'' : Cdr} {α β : Type}

lemma Moves.standing (h : Moves strict s s') (hencoding : s'.currentEncoding = s.currentEncoding)
    (hs : Standing inside s) : Standing inside s' :=
  ⟨h.version.trans hs.version, h.within, fun hinside => hencoding ▸ hs.encoding hinside⟩

lemma Moves.trans (h : Moves strict s s') (h' : Moves strict s' s'') : Moves strict s s'' where
  version := h'.version.trans h.version
  le := h.le.trans h'.le
  size_le := h.size_le.trans h'.size_le
  within := h'.within
  external hexternal := by
    obtain ⟨hinternal, hsize⟩ := h.external hexternal
    obtain ⟨hinternal', hsize'⟩ := h'.external hinternal
    exact ⟨hinternal', hsize'.trans hsize⟩
  log hstrict := by
    obtain ⟨new, hnew, hbetween⟩ := h.log hstrict
    obtain ⟨new', hnew', hbetween'⟩ := h'.log hstrict
    refine ⟨new' ++ new, by rw [hnew', hnew, append_assoc], fun e he => ?_⟩
    rcases mem_append.mp he with he | he
    · exact (hbetween' e he).mono h.le (Nat.le_refl _)
    · exact (hbetween e he).mono (Nat.le_refl _) h'.le

lemma Moves.quiet (hs : Standing inside s) (hversion : s'.cdrVersion = s.cdrVersion)
    (hoffset : s'.offset = s.offset) (hsize : s'.size = s.size)
    (hinternal : s'.internalBuffer = s.internalBuffer) (hlog : s'.log = s.log) :
    Moves strict s s' where
  version := hversion
  le := hoffset.ge
  size_le := hsize.ge
  within := by rw [hoffset, hsize]; exact hs.within
  external hexternal := ⟨hinternal.trans hexternal, hsize⟩
  log _ := ⟨[], by rw [hlog]; rfl, by simp⟩

lemma Moves.refl (hs : Standing inside s) : Moves strict s s := .quiet hs rfl rfl rfl rfl rfl

variable {n : Nat}

lemma Standing.le_room (hs : Standing inside s) : n ≤ s.room ↔ s.offset + n ≤ s.size := by
  have hlt := s.size_lt
  have hle := hs.within
  rw [Cdr.room, iteratorDiff_eq hle (by omega)]
  omega

lemma Moves.skip (hs : Standing inside s) {a : Nat} (hroom : n + a ≤ s.room) :
    Moves strict s ((s.makeAlignment a).skipRead n) := by
  rw [hs.le_room] at hroom
  refine ⟨rfl, by simp; omega, Nat.le_refl _, by simp; omega, fun h => ⟨h, rfl⟩, fun _ => ?_⟩
  refine ⟨[.cursor (s.offset + a + n) s.size, .read (s.offset + a) n s.size,
    .cursor (s.offset + a) s.size], by simp, ?_⟩
  simp only [mem_cons, not_mem_nil, or_false, forall_eq_or_imp, forall_eq,
    Event.Between, skipRead_offset, makeAlignment_offset]
  omega

lemma Moves.load (hs : Standing inside s) (hroom : n ≤ s.room) (k : Nat) :
    Moves strict s ({ s with lastDataSize := k }.skipRead n) := by
  rw [hs.le_room] at hroom
  refine ⟨rfl, by simp, Nat.le_refl _, by simpa using hroom, fun h => ⟨h, rfl⟩, fun _ => ?_⟩
  refine ⟨[.cursor (s.offset + n) s.size, .read s.offset n s.size], by simp, ?_⟩
  simp only [mem_cons, not_mem_nil, or_false, forall_eq_or_imp, forall_eq,
    Event.Between, skipRead_offset]
  omega

/-- Where the decoder returns, it has moved forward and is in the encoding it was in. -/
def Advances (strict inside : Bool) (m : CdrM α) : Prop :=
  ∀ s a s', Standing inside s → m.run s = (.ok a, s') →
    Moves strict s s' ∧ s'.currentEncoding = s.currentEncoding

namespace Advances

lemma pure (a : α) : Advances strict inside (Pure.pure a : CdrM α) := by
  intro s b s' hs h
  obtain ⟨-, rfl⟩ := eq_of_ok (run_pure a s) h
  exact ⟨.refl hs, rfl⟩

lemma raise (e : CdrError) : Advances strict inside (raise e : CdrM α) := by
  intro s a s' _ h
  cases h

lemma read : Advances strict inside (read : CdrM Cdr) := by
  intro s a s' hs h
  obtain ⟨-, rfl⟩ := eq_of_ok (run_read s) h
  exact ⟨.refl hs, rfl⟩

variable {m : CdrM α}

lemma bind {f : α → CdrM β} (hm : Advances strict inside m)
    (hf : ∀ a, Advances strict inside (f a)) : Advances strict inside (m >>= f) := by
  intro s b s' hs h
  obtain ⟨a, s1, hfirst, hrest⟩ := bind_eq_ok.mp h
  obtain ⟨hmove, hencoding⟩ := hm s a s1 hs hfirst
  obtain ⟨hmove', hencoding'⟩ := hf a s1 b s' (hmove.standing hencoding hs) hrest
  exact ⟨hmove.trans hmove', hencoding'.trans hencoding⟩

lemma ite {p : Prop} [Decidable p] {n : CdrM α} (hm : Advances strict inside m)
    (hn : Advances strict inside n) : Advances strict inside (if p then m else n) := by
  split
  · exact hm
  · exact hn

lemma onError {r : Cdr → Cdr} (hm : Advances strict inside m) :
    Advances strict inside (onError r m) :=
  fun s a s' hs h => hm s a s' hs (onError_eq_ok.mp h)

lemma collect {f : α → CdrM β} (hf : ∀ a, Advances strict inside (f a)) :
    ∀ as : List α, Advances strict inside (collect f as)
  | [] => pure []
  | a :: as => (hf a).bind fun _ => (collect hf as).bind fun _ => pure _

lemma loop {out : CdrError} {body : α → CdrM (α ⊕ β)}
    (hbody : ∀ a, Advances strict inside (body a)) :
    ∀ fuel a, Advances strict inside (loop out body fuel a)
  | 0, _ => raise out
  | fuel + 1, a => (hbody a).bind fun r => by
    cases r with
    | inl a' => exact loop hbody fuel a'
    | inr b => exact pure b

lemma modify {f : Cdr → Cdr} (hversion : ∀ s, (f s).cdrVersion = s.cdrVersion)
    (hoffset : ∀ s, (f s).offset = s.offset) (hsize : ∀ s, (f s).size = s.size)
    (hinternal : ∀ s, (f s).internalBuffer = s.internalBuffer)
    (hlog : ∀ s, (f s).log = s.log) (hencoding : ∀ s, (f s).currentEncoding = s.currentEncoding) :
    Advances strict inside (modify f : CdrM Unit) := by
  intro s a s' hs h
  obtain ⟨-, rfl⟩ := eq_of_ok (run_modify f s) h
  exact ⟨.quiet hs (hversion s) (hoffset s) (hsize s) (hinternal s) (hlog s), hencoding s⟩

lemma setLastDataSize (n : Nat) :
    Advances strict inside (Prog.modify fun s : Cdr => { s with lastDataSize := n }) :=
  modify (fun _ => rfl) (fun _ => rfl) (fun _ => rfl) (fun _ => rfl) (fun _ => rfl) fun _ => rfl

lemma incrementNextMemberId : Advances strict inside incrementNextMemberId :=
  modify (fun _ => rfl) (fun _ => rfl) (fun _ => rfl) (fun _ => rfl) (fun _ => rfl) fun _ => rfl

lemma setNextMemberId (m : MemberId) : Advances strict inside (setNextMemberId m) :=
  modify (fun _ => rfl) (fun _ => rfl) (fun _ => rfl) (fun _ => rfl) (fun _ => rfl) fun _ => rfl

lemma notePad (dataSize : Nat) : Advances strict inside (notePad dataSize) := by
  intro s a s' hs h
  obtain ⟨-, rfl⟩ := eq_of_ok (run_modify _ s) h
  refine ⟨⟨rfl, Nat.le_refl _, Nat.le_refl _, hs.within, fun h => ⟨h, rfl⟩, fun _ => ?_⟩, rfl⟩
  exact ⟨[.pad (s.alignment dataSize)], rfl, by simp [Event.Between]⟩

lemma notePrimPad (p : Prim) : Advances strict inside (notePrimPad p) :=
  ite (read.bind fun _ => notePad _) (pure ())

end Advances

section Scalars

lemma available_bind_ok {m m' : CdrM α} {a : α} :
    (available n >>= fun ok => if ok then m else m').run s = (.ok a, s') ↔
      if n ≤ s.room then m.run s = (.ok a, s') else m'.run s = (.ok a, s') := by
  rw [available, run_bind_bind, run_read_bind, run_pure_bind]
  by_cases h : n ≤ s.room <;> simp [h]

lemma deserializeOctet_advances : Advances strict inside deserializeOctet := by
  intro s a s' hs h
  rw [deserializeOctet, available_bind_ok] at h
  split at h
  · rename_i hroom
    obtain ⟨-, rfl⟩ := eq_of_ok (by rfl) h
    exact ⟨.load hs hroom 1, rfl⟩
  · cases h

lemma deserializeWord_ok {n align x : Nat} (h : (deserializeWord n align).run s = (.ok x, s')) :
    n + s.alignment align ≤ s.room ∧
      s' = (s.makeAlignment (s.alignment align)).skipRead n ∧
      x = ofWordBytes s.swapBytes (s.mem.slice (s.offset + s.alignment align) n) := by
  rw [deserializeWord, run_read_bind, available_bind_ok] at h
  split at h
  · rename_i hroom
    obtain ⟨rfl, rfl⟩ := eq_of_ok (by rfl) h
    exact ⟨hroom, rfl, rfl⟩
  · cases h

lemma deserializeWord_advances (n align : Nat) :
    Advances strict inside (deserializeWord n align) := by
  intro s x s' hs h
  obtain ⟨hroom, rfl, -⟩ := deserializeWord_ok h
  exact ⟨.skip hs hroom, rfl⟩

lemma deserializeU32_advances : Advances strict inside deserializeU32 :=
  deserializeWord_advances 4 4

lemma deserializeLength_advances : Advances strict inside deserializeLength :=
  (Advances.notePad 4).bind fun _ => deserializeU32_advances

lemma deserializeBool_advances : Advances strict inside deserializeBool :=
  deserializeOctet_advances.bind fun _ => .ite (.pure _) (.ite (.pure _) (.raise _))

lemma deserializePrim_advances (p : Prim) : Advances strict inside (deserializePrim p) := by
  by_cases hbool : p = .bool
  · subst hbool
    exact deserializeBool_advances
  · rw [deserializePrim_eq hbool]
    refine .ite ?_ ?_
    · exact deserializeOctet_advances.bind fun _ => .pure _
    · exact Advances.read.bind fun _ => (deserializeWord_advances _ _).bind fun _ => .pure _

lemma deserializeOctetArray_advances (n : Nat) :
    Advances strict inside (deserializeOctetArray n) := by
  intro s a s' hs h
  rw [deserializeOctetArray, available_bind_ok] at h
  split at h
  · rename_i hroom
    obtain ⟨-, rfl⟩ := eq_of_ok (by rfl) h
    exact ⟨.load hs hroom 1, rfl⟩
  · cases h

lemma deserializeWordArray_advances (n align k : Nat) :
    Advances strict inside (deserializeWordArray n align k) := by
  refine .ite (.pure _) ?_
  intro s a s' hs h
  rw [run_read_bind, available_bind_ok] at h
  split at h
  · rename_i hroom
    obtain ⟨-, rfl⟩ := eq_of_ok (by rfl) h
    exact ⟨.skip hs hroom, rfl⟩
  · cases h

lemma deserializePrimArray_advances (p : Prim) (xs : List p.denote) :
    Advances strict inside (deserializePrimArray p xs) := by
  by_cases hbool : p = .bool
  · subst hbool
    exact (deserializeOctetArray_advances _).bind fun _ => .pure _
  by_cases hwchar : p = .wchar
  · subst hwchar
    exact .collect (fun _ => deserializePrim_advances .wchar) xs
  · rw [deserializePrimArray_eq hbool hwchar]
    refine .ite ?_ ?_
    · exact (deserializeOctetArray_advances _).bind fun _ => .pure _
    · exact Advances.read.bind fun _ => (deserializeWordArray_advances _ _ _).bind fun _ => .pure _

lemma deserializeString_advances : Advances strict inside deserializeString := by
  refine Advances.read.bind fun st => deserializeU32_advances.bind fun n => .ite (.pure _) ?_
  intro s a s' hs h
  rw [available_bind_ok] at h
  split at h
  · rename_i hroom
    obtain ⟨-, rfl⟩ := eq_of_ok (by rfl) h
    exact ⟨.load hs hroom 1, rfl⟩
  · cases h

lemma deserializeWstring_advances : Advances strict inside deserializeWstring := by
  refine Advances.read.bind fun st => deserializeU32_advances.bind fun n => .ite (.pure _) ?_
  intro s a s' hs h
  rw [available_bind_ok] at h
  split at h
  · exact ((Advances.setLastDataSize 2).bind fun _ =>
      (deserializePrimArray_advances _ _).bind fun _ => .pure _) s a s' hs h
  · cases h

end Scalars

section Collections

variable {one : α → CdrM α} {many : List α → CdrM (List α)}

lemma deserializeWhile_advances (start dheader : Nat) (hone : ∀ x, Advances strict inside (one x)) :
    ∀ xs : List α, Advances strict inside (deserializeWhile start dheader one xs)
  | [] => .pure []
  | x :: xs => by
    refine Advances.read.bind fun _ => .ite ?_ (.pure _)
    exact (hone x).bind fun _ => (deserializeWhile_advances start dheader hone xs).bind fun _ =>
      .pure _

lemma checkDheader_advances (start dheader : Nat) (message : String) :
    Advances strict inside (checkDheader start dheader message) :=
  Advances.read.bind fun _ => .ite (.raise _) (.pure _)

lemma deserializeBlockVector_advances (init : α) (hmany : ∀ xs, Advances strict inside (many xs))
    (v : List α) : Advances strict inside (deserializeBlockVector init many v) := by
  refine Advances.read.bind fun st => deserializeLength_advances.bind fun n => .ite (.pure _) ?_
  refine Advances.read.bind fun st' => ?_
  intro s a s' hs h
  split at h
  · cases h
  · exact (hmany _).onError s a s' hs h

lemma deserializeObjectVector_advances (init : α) (hone : ∀ x, Advances strict inside (one x))
    (hmany : ∀ xs, Advances strict inside (many xs)) (v : List α) :
    Advances strict inside (deserializeObjectVector init one many v) := by
  refine Advances.read.bind fun st => .ite ?_ (deserializeBlockVector_advances init hmany v)
  refine deserializeU32_advances.bind fun dheader => Advances.read.bind fun st' =>
    deserializeLength_advances.bind fun n => .ite (.pure _) ?_
  exact (deserializeWhile_advances _ _ hone _).bind fun _ =>
    (checkDheader_advances _ _ _).bind fun _ => .pure _

lemma deserializeArray_advances (isPrimitive : Bool)
    (hmany : ∀ xs, Advances strict inside (many xs)) (x : List.Vector α n) :
    Advances strict inside (deserializeArray isPrimitive many x) := by
  refine Advances.read.bind fun st => .ite ?_ ((hmany _).bind fun _ => .pure _)
  refine deserializeU32_advances.bind fun dheader => Advances.read.bind fun st' => ?_
  exact (deserializeWhile_advances _ _ (fun _ => (hmany _).bind fun _ => .pure _) _).bind fun _ =>
    (checkDheader_advances _ _ _).bind fun _ => .pure _

lemma collectBytes_moves {f : UInt8 → CdrM β} {γ : Type}
    (hquiet : ∀ b a s1 s2, (f b).run s1 = (.ok a, s2) → s2 = s1) :
    ∀ (xs : List γ) (s : Cdr) (l : List β) (s' : Cdr), Standing inside s →
      s.offset + xs.length ≤ s.size →
      (collect (fun _ => load 1 >>= fun bs => f (bs.headD 0)) xs).run s = (.ok l, s') →
      Moves strict s s' ∧ s'.currentEncoding = s.currentEncoding
  | [], s, l, s', hs, _, h => Advances.pure [] s l s' hs h
  | x :: xs, s, l, s', hs, hroom, h => by
    rw [length_cons] at hroom
    obtain ⟨a, s1, hfirst, hrest⟩ := bind_eq_ok.mp h
    obtain ⟨as, s2, hothers, hlast⟩ := bind_eq_ok.mp hrest
    obtain ⟨bs, s3, hload, hbyte⟩ := bind_eq_ok.mp hfirst
    obtain rfl := hquiet _ _ _ _ hbyte
    obtain ⟨-, rfl⟩ := eq_of_ok (by rfl : (load 1).run s = (.ok _, s.skipRead 1)) hload
    obtain ⟨-, rfl⟩ := eq_of_ok (run_pure _ _) hlast
    have hmove : Moves strict s (s.skipRead 1) :=
      .load hs (hs.le_room.mpr (by omega)) s.lastDataSize
    obtain ⟨hmove', hencoding⟩ := collectBytes_moves hquiet xs _ as _ (hmove.standing rfl hs)
      (by simp; omega) hothers
    exact ⟨hmove.trans hmove', hencoding⟩

lemma deserializeBoolSequence_advances : Advances strict inside deserializeBoolSequence := by
  refine Advances.read.bind fun st => deserializeLength_advances.bind fun n => ?_
  intro s a s' hs h
  rw [available_bind_ok] at h
  split at h
  · rename_i hroom
    rw [hs.le_room] at hroom
    have hmove : Moves strict s { s with lastDataSize := 1 } := .quiet hs rfl rfl rfl rfl rfl
    have hquiet : ∀ (value : UInt8) a s1 s2,
        (if value = 1 then pure true else if value = 0 then pure false
          else raise (.badParam
            "Unexpected byte value in Cdr::deserialize_bool_sequence, expected 0 or 1") :
          CdrM Bool).run s1 = (.ok a, s2) → s2 = s1 := by
      intro value a s1 s2 hrun
      split at hrun
      · exact (eq_of_ok (run_pure _ _) hrun).2
      · split at hrun
        · exact (eq_of_ok (run_pure _ _) hrun).2
        · cases hrun
    obtain ⟨hmove', hencoding⟩ := collectBytes_moves hquiet (range n) _ a s'
      (hmove.standing rfl hs) (by simpa using hroom) h
    exact ⟨hmove.trans hmove', hencoding⟩
  · cases h

lemma deserializeVector_advances {t : Ty} {o : DeserializeOverloads t.denote}
    (hone : ∀ x, Advances strict inside (o.one x))
    (hmany : ∀ xs, Advances strict inside (o.many xs))
    (v : List t.denote) : Advances strict inside (deserializeVector t o v) := by
  cases t with
  | prim p =>
    cases p with
    | bool => exact deserializeBoolSequence_advances
    | _ => exact deserializeBlockVector_advances _ hmany v
  | _ => exact deserializeObjectVector_advances _ hone hmany v

variable {value : CdrM α}

lemma deserializePair_advances (k : KeyTy) (hvalue : Advances strict inside value) :
    Advances strict inside (deserializePair k value) := by
  have hkey : Advances strict inside (deserializeKey k) := by
    cases k with
    | prim p => exact (Advances.notePrimPad p).bind fun _ => deserializePrim_advances p
    | string => exact (Advances.notePad 4).bind fun _ => deserializeString_advances
  exact hkey.bind fun _ => hvalue.bind fun _ => .pure _

lemma deserializePairsWhile_advances (k : KeyTy) (hvalue : Advances strict inside value)
    (start dheader : Nat) : ∀ (n : Nat) (m : OrderedMap k.rank α),
      Advances strict inside (deserializePairsWhile k value start dheader n m)
  | 0, _ => .pure _
  | n + 1, m => by
    refine Advances.read.bind fun _ => .ite ?_ (.pure _)
    exact (deserializePair_advances k hvalue).bind fun _ =>
      deserializePairsWhile_advances k hvalue start dheader n _

lemma deserializePairs_advances (k : KeyTy) (hvalue : Advances strict inside value) :
    ∀ (n : Nat) (m : OrderedMap k.rank α), Advances strict inside (deserializePairs k value n m)
  | 0, _ => .pure _
  | n + 1, m => by
    exact (deserializePair_advances k hvalue).bind fun _ => deserializePairs_advances k hvalue n _

lemma deserializeMap_advances (k : KeyTy) (t : Ty) {value : CdrM t.denote}
    (hvalue : Advances strict inside value) (m : OrderedMap k.rank t.denote) :
    Advances strict inside (deserializeMap k t value m) := by
  refine Advances.read.bind fun s => .ite ?_ (.ite ?_ ?_)
  · exact deserializeLength_advances.bind fun n => (deserializePairs_advances k hvalue n m).onError
  · exact deserializeU32_advances.bind fun dheader => Advances.read.bind fun st =>
      deserializeLength_advances.bind fun n =>
        (deserializePairsWhile_advances k hvalue _ _ n _).bind fun _ =>
          (checkDheader_advances _ _ _).bind fun _ => .pure _
  · exact deserializeLength_advances.bind fun n => (deserializePairs_advances k hvalue n _).onError

lemma deserializeOptional_advances (hvalue : Advances strict inside value) :
    Advances strict inside (deserializeOptional value) := by
  have hrest : ∀ isPresent : Bool, Advances strict inside
      (if isPresent then value >>= fun a => pure (some a) else pure none) :=
    fun _ => .ite (hvalue.bind fun _ => .pure _) (.pure _)
  exact Advances.read.bind fun s => .ite (deserializeBool_advances.bind hrest) (hrest true)

end Collections

section Structures

variable {σ : Type} {functor : MemberFunctor σ} {fuel : Nat}

variable {n : Nat}

lemma resize_some {s1 : Cdr} (h : s.resize n = some s1) :
    s.size + n ≤ s1.size ∧ s1.cdrVersion = s.cdrVersion ∧
      s1.currentEncoding = s.currentEncoding ∧ s1.offset = s.offset ∧ s1.log = s.log := by
  have hinc : n ≤ if n > 200 then n else 200 := by split <;> omega
  rw [resize] at h
  dsimp only at h
  generalize (if n > 200 then n else 200) = inc at h hinc
  split at h
  · split at h
    · obtain rfl := Option.some.inj h
      exact ⟨Nat.add_le_add_left hinc _, rfl, rfl, rfl, rfl⟩
    · cases h
  · cases h

lemma resize_external (hexternal : s.internalBuffer = false) : s.resize n = none := by
  rw [resize, if_neg (by simp [hexternal])]

lemma jump_of_room (hroom : n ≤ s.room) :
    (jump n).run s = (.ok true, { s.moveTo (s.offset + n) with lastDataSize := 0 }) := by
  have hreserve : (reserve n).run s = (.ok true, s) := by simp [reserve, hroom]
  rw [jump, bind_of_ok hreserve]
  rfl

lemma jump_of_resize {s1 : Cdr} (hroom : ¬ n ≤ s.room) (hresize : s.resize n = some s1) :
    (jump n).run s = (.ok true, { s1.moveTo (s1.offset + n) with lastDataSize := 0 }) := by
  have hreserve : (reserve n).run s = (.ok true, s1) := by simp [reserve, hroom, hresize]
  rw [jump, bind_of_ok hreserve]
  rfl

lemma jump_of_full (hroom : ¬ n ≤ s.room) (hresize : s.resize n = none) :
    (jump n).run s = (.ok false, s) := by
  have hreserve : (reserve n).run s = (.ok false, s) := by simp [reserve, hroom, hresize]
  rw [jump, bind_of_ok hreserve]
  rfl

/-- A jump moves forward or, where there is no room, does nothing. Its callers drop the answer, so
both ways have to be followed. -/
theorem jump_advances (n : Nat) : Advances strict inside (jump n) := by
  intro s b s' hs h
  have hle := hs.within
  by_cases hroom : n ≤ s.room
  · obtain ⟨-, rfl⟩ := eq_of_ok (jump_of_room hroom) h
    rw [hs.le_room] at hroom
    refine ⟨⟨rfl, by simp, Nat.le_refl _, by simpa using hroom, fun h => ⟨h, rfl⟩, fun _ =>
      ?_⟩, rfl⟩
    exact ⟨[.cursor (s.offset + n) s.size], rfl, by simp [Event.Between]⟩
  · cases hresize : s.resize n with
    | none =>
      obtain ⟨-, rfl⟩ := eq_of_ok (jump_of_full hroom hresize) h
      exact ⟨.refl hs, rfl⟩
    | some s1 =>
      obtain ⟨-, rfl⟩ := eq_of_ok (jump_of_resize hroom hresize) h
      obtain ⟨hsize, hversion, hencoding, hoffset, hlog⟩ := resize_some hresize
      refine ⟨⟨hversion, ?_, ?_, ?_, fun hexternal => ?_, fun _ => ?_⟩, hencoding⟩
      · change s.offset ≤ s1.offset + n
        omega
      · change s.size ≤ s1.size
        omega
      · change s1.offset + n ≤ s1.size
        omega
      · rw [resize_external hexternal] at hresize
        cases hresize
      · refine ⟨[.cursor (s1.offset + n) s1.size], by rw [← hlog]; rfl, ?_⟩
        simp [Event.Between, hoffset]

lemma deserializeInOrder_advances (hfunctor : ∀ mid x, Advances strict true (functor mid x))
    (condition : Cdr → Bool) (x : σ) :
    Advances strict true (deserializeInOrder fuel functor condition x) := by
  refine Advances.loop (fun x => ?_) fuel x
  refine Advances.read.bind fun s => .ite ?_ (.pure _)
  refine (hfunctor _ x).bind fun r => .ite ?_ (.pure _)
  exact Advances.incrementNextMemberId.bind fun _ => .pure _

lemma deserializeOrSkip_advances (hfunctor : ∀ mid x, Advances strict true (functor mid x))
    (memberSize : Nat) (x : σ) : Advances strict true (deserializeOrSkip functor memberSize x) := by
  refine Advances.read.bind fun s => (hfunctor _ x).bind fun r => .ite ?_ (.pure _)
  refine Advances.read.bind fun s' => .ite (.raise _) ?_
  exact (jump_advances _).bind fun _ => .pure _

/-- A word that is looked at and not moved over. -/
theorem peekU32_advances (f : Nat → α) : Advances false inside
    (deserializeU32 >>= fun size => modify (fun s => s.moveTo (s.offset - 4)) >>= fun _ =>
      pure (f size)) := by
  intro s a s' hs h
  obtain ⟨size, s1, hword, hback⟩ := bind_eq_ok.mp h
  obtain ⟨hroom, rfl, -⟩ := deserializeWord_ok hword
  obtain ⟨-, rfl⟩ := eq_of_ok (by rfl) hback
  rw [hs.le_room] at hroom
  refine ⟨⟨rfl, ?_, Nat.le_refl _, ?_, fun h => ⟨h, rfl⟩, fun hstrict => by cases hstrict⟩, rfl⟩
  · simp only [moveTo_offset, skipRead_offset, makeAlignment_offset]
    omega
  · simp only [moveTo_offset, moveTo_size, skipRead_offset, skipRead_size, makeAlignment_offset,
      makeAlignment_size]
    omega

lemma xcdr2DeserializeMemberHeader_advances (st : State) :
    Advances false inside (xcdr2DeserializeMemberHeader st) := by
  refine deserializeU32_advances.bind fun word => .ite (.pure _) (.ite ?_ ?_)
  · exact deserializeU32_advances.bind fun _ => .pure _
  · exact peekU32_advances _

lemma xcdr2DeserializeMember_advances (hfunctor : ∀ mid x, Advances false true (functor mid x))
    (dheader : Nat) (arg : σ × State) :
    Advances false true (xcdr2DeserializeMember functor dheader arg) := by
  refine Advances.read.bind fun s => .ite (.pure _) (.ite (.raise _) ?_)
  refine (xcdr2DeserializeMemberHeader_advances arg.2).bind fun r =>
    (Advances.setNextMemberId _).bind fun _ => (deserializeOrSkip_advances hfunctor _ _).bind
      fun _ =>
      Advances.read.bind fun _ => .ite (.raise _) (.pure _)

/-- The members of a structure are decoded in its own encoding, and the one around it is put back
behind them. -/
theorem enter_moves {e : EncodingAlgorithmFlag} (he : e ≠ .plainCdr) (body : CdrM α)
    (mid : MemberId) (hbody : Advances strict true body) {x : α} (hs : Standing inside s)
    (h : (setCurrentEncoding e >>= fun _ => body >>= fun x => setNextMemberId mid >>= fun _ =>
      setCurrentEncoding s.currentEncoding >>= fun _ => pure x).run s = (.ok x, s')) :
    Moves strict s s' ∧ s'.currentEncoding = s.currentEncoding := by
  rw [setCurrentEncoding, run_modify_bind] at h
  obtain ⟨y, s1, hrun, hback⟩ := bind_eq_ok.mp h
  obtain ⟨-, rfl⟩ := eq_of_ok (by rfl) hback
  have henter : Moves strict s { s with currentEncoding := e } := .quiet hs rfl rfl rfl rfl rfl
  have hstanding : Standing true { s with currentEncoding := e } :=
    ⟨hs.version, hs.within, fun _ => he⟩
  obtain ⟨hmove, hencoding⟩ := hbody _ _ _ hstanding hrun
  have hleave : Moves strict s1 { s1 with nextMemberId := mid, currentEncoding :=
    s.currentEncoding } :=
    .quiet (hmove.standing hencoding hstanding) rfl rfl rfl rfl rfl
  exact ⟨(henter.trans hmove).trans hleave, rfl⟩

lemma xcdr2DeserializeType_advances {e : EncodingAlgorithmFlag} (he : e ≠ .plainCdr)
    (hstrict : strict = true → e ≠ .plCdr2)
    (hfunctor : ∀ mid x, Advances strict true (functor mid x)) (x : σ) :
    Advances strict inside (xcdr2DeserializeType fuel functor e x) := by
  intro s a s' hs h
  rw [xcdr2DeserializeType] at h
  split at h
  · obtain ⟨dheader, s1, hd, hrest⟩ := bind_eq_ok.mp h
    obtain ⟨hmove, hencoding⟩ : Moves strict s s1 ∧ _ := deserializeU32_advances s _ _ hs hd
    have hs1 := hmove.standing hencoding hs
    rw [run_read_bind] at hrest
    have hbody : Moves strict s1 s' ∧ s'.currentEncoding = s1.currentEncoding := by
      by_cases hpl : e = .plCdr2
      · obtain rfl : strict = false := by
          cases strict
          · rfl
          · exact absurd hpl (hstrict rfl)
        refine enter_moves he
          (loop .outOfFuel (xcdr2DeserializeMember functor dheader) fuel (x, s1.getState))
          s1.nextMemberId (.loop (xcdr2DeserializeMember_advances hfunctor dheader) fuel _)
          (x := a) hs1 ?_
        simp only [if_pos hpl] at hrest
        exact hrest
      · refine enter_moves he (setNextMemberId (.ofNat 0 false) >>= fun _ =>
          deserializeInOrder fuel functor
            (fun s => iteratorDiff s.offset s1.offset < dheader) x >>= fun x' => read >>= fun s2 =>
            jump (iteratorDiff dheader (iteratorDiff s2.offset s1.offset)) >>= fun _ => pure x')
          s1.nextMemberId ?_ (x := a) hs1 ?_
        · exact (Advances.setNextMemberId _).bind fun _ =>
            (deserializeInOrder_advances hfunctor _ x).bind fun _ => Advances.read.bind fun _ =>
              (jump_advances _).bind fun _ => .pure _
        · simp only [if_neg hpl] at hrest
          simpa only [bind_assoc, pure_bind, getState_offset, getState_nextMemberId,
            getState_previousEncoding] using hrest
    exact ⟨hmove.trans hbody.1, hbody.2.trans hencoding⟩
  · rw [run_read_bind] at h
    refine enter_moves he (setNextMemberId (.ofNat 0 false) >>= fun _ =>
      deserializeInOrder fuel functor (fun s => s.offset != s.size) x) s.nextMemberId ?_
        (x := a) hs ?_
    · exact (Advances.setNextMemberId _).bind fun _ => deserializeInOrder_advances hfunctor _ x
    · simpa only [bind_assoc, getState_nextMemberId, getState_previousEncoding] using h

/-- In XCDRv2 an optional member has no header of its own: inside a structure the encoding is never
PLAIN_CDR, so the branch that reads the header is not taken. -/
theorem deserializeOptMember_advances {one : α → CdrM α} (hone : ∀ x, Advances strict true (one x))
    (x : α) : Advances strict true (deserializeOptMember one x) := by
  intro s a s' hs h
  rw [deserializeOptMember, run_read_bind, if_neg (hs.encoding rfl)] at h
  exact hone x s a s' hs h

end Structures

mutual

/-- Every decoder moves forward, whatever the bytes are. By recursion over the type: a structure
needs it of its members, a collection of its elements. -/
theorem deserialize_advances (fuel : Nat) : (t : Ty) →
    ∀ inside, (∀ x, Advances false inside ((deserialize fuel t).one x)) ∧
      ∀ xs, Advances false inside ((deserialize fuel t).many xs)
  | .prim p => by
    intro inside
    refine ⟨fun _ => (Advances.notePrimPad p).bind fun _ => deserializePrim_advances p,
      fun xs => ?_⟩
    exact .ite ((Advances.notePrimPad p).bind fun _ => deserializePrimArray_advances p xs)
      (deserializePrimArray_advances p xs)
  | .string => by
    intro inside
    have hone : Advances false inside (notePad 4 >>= fun _ => deserializeString) :=
      (Advances.notePad 4).bind fun _ => deserializeString_advances
    exact ⟨fun _ => hone, .collect fun _ => hone⟩
  | .wstring => by
    intro inside
    have hone : Advances false inside (notePad 4 >>= fun _ => deserializeWstring) :=
      (Advances.notePad 4).bind fun _ => deserializeWstring_advances
    exact ⟨fun _ => hone, .collect fun _ => hone⟩
  | .array t n => by
    intro inside
    obtain ⟨-, hmany⟩ := deserialize_advances fuel t inside
    exact ⟨deserializeArray_advances _ hmany, fun xs => (hmany _).bind fun _ => .pure _⟩
  | .vector t => by
    intro inside
    obtain ⟨hone, hmany⟩ := deserialize_advances fuel t inside
    exact ⟨deserializeVector_advances hone hmany, .collect (deserializeVector_advances hone hmany)⟩
  | .map k t => by
    intro inside
    obtain ⟨hone, -⟩ := deserialize_advances fuel t inside
    exact ⟨deserializeMap_advances k t (hone _), .collect (deserializeMap_advances k t (hone _))⟩
  | .optional t => by
    intro inside
    obtain ⟨hone, -⟩ := deserialize_advances fuel t inside
    have h := deserializeOptional_advances (hone t.init)
    exact ⟨fun _ => h, .collect fun _ => h⟩
  | .struct e ms => by
    intro inside
    have hone : ∀ x, Advances false inside (read >>= fun s => deserializeType fuel
        (fun mid => deserializeMembers fuel (e.encoding s.cdrVersion).namesMembers ms 0 mid.id)
        (e.encoding s.cdrVersion) x) := by
      intro x s a s' hs h
      rw [run_read_bind, deserializeType, run_read_bind, hs.version] at h
      refine xcdr2DeserializeType_advances ?_ (fun hstrict => by cases hstrict)
        (fun mid y => deserializeMembers_advances fuel _ ms 0 mid.id y) x s a s' hs h
      cases e <;> decide
    exact ⟨hone, .collect hone⟩

lemma deserializeMembers_advances (fuel : Nat) (namesMembers : Bool) : (ms : Members) →
    ∀ index label x, Advances false true (deserializeMembers fuel namesMembers ms index label x)
  | .nil => fun _ _ _ => .pure _
  | .cons m t ms => by
    intro index label x
    obtain ⟨hone, -⟩ := deserialize_advances fuel t true
    refine .ite (.ite ?_ ?_) ?_
    · exact (deserializeOptMember_advances hone x.1).bind fun _ => .pure _
    · exact (hone x.1).bind fun _ => .pure _
    · exact (deserializeMembers_advances fuel namesMembers ms _ _ _).bind fun _ => .pure _

end

end EasyDds.Cdr
