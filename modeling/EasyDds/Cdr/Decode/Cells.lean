import EasyDds.Cdr.Decode.Collection
import EasyDds.Lib.Relational

/-!
What a decoder writes. The cells of an object are the places that a decoder assigns; a run along the
buffer fills them without looking at an object, and what it leaves empty keeps its old value in
every object.
-/

namespace EasyDds.Cdr

open Prog List

@[simp] lemma resizeList_zero {α : Type} (init : α) (xs : List α) : resizeList init 0 xs = [] := by
  simp [resizeList]

lemma resizeList_nil {α : Type} (init : α) (n : Nat) : resizeList init n [] = replicate n init := by
  simp [resizeList]

lemma resizeList_succ {α : Type} (init : α) (n : Nat) (xs : List α) :
    resizeList init (n + 1) xs = xs.headD init :: resizeList init n xs.tail := by
  cases xs <;> simp [resizeList, replicate_succ]

section Cells

mutual

/-- An object as a decoder sees it. `none` stands for a cell that it has not assigned. -/
@[reducible] def Ty.Cells : Ty → Type
  | .prim p => Option p.denote
  | .string => Option (List UInt8)
  | .wstring => Option (List (BitVec 32))
  | .array t n => List.Vector t.Cells n
  | .vector t => Option (List t.Cells)
  | .map k t => Option (OrderedMap k.rank t.denote)
  | .optional t => Option (Option t.denote)
  | .struct _ ms => ms.Cells

@[reducible] def Members.Cells : Members → Type
  | .nil => Unit
  | .cons _ t ms => t.Cells × ms.Cells

end

def cellOf {α : Type} (created : Bool) (a : α) : Option α := if created then some a else none

mutual

/-- The cells of an object that has just been created, or of one of which nothing is known. -/
def Ty.cells (created : Bool) : (t : Ty) → t.Cells
  | .prim p => cellOf created p.init
  | .string => cellOf created ([] : List UInt8)
  | .wstring => cellOf created ([] : List (BitVec 32))
  | .array t n => List.Vector.replicate n (t.cells created)
  | .vector t => cellOf created ([] : List t.Cells)
  | .map k t => cellOf created (OrderedMap.empty : OrderedMap k.rank t.denote)
  | .optional t => cellOf created (none : Option t.denote)
  | .struct _ ms => ms.cells created

def Members.cells (created : Bool) : (ms : Members) → ms.Cells
  | .nil => ()
  | .cons _ t ms => (t.cells created, ms.cells created)

end

mutual

/-- No cell is left. A vector whose length was never assigned is such a cell. -/
def Ty.isWritten : (t : Ty) → t.Cells → Bool
  | .prim _, c => c.isSome
  | .string, c => c.isSome
  | .wstring, c => c.isSome
  | .array t _, c => c.toList.all t.isWritten
  | .vector t, c => c.any fun cs => cs.all t.isWritten
  | .map _ _, c => c.isSome
  | .optional _, c => c.isSome
  | .struct _ ms, c => ms.isWritten c

def Members.isWritten : (ms : Members) → ms.Cells → Bool
  | .nil, _ => true
  | .cons _ t ms, c => t.isWritten c.1 && ms.isWritten c.2

end

mutual

/-- What becomes of `old`: the assigned cells hold what was assigned, the others what they held. A
map with arithmetic values that was not cleared has at least its old entries. -/
def Ty.Fits : (t : Ty) → t.Cells → t.denote → t.denote → Prop
  | .prim _, c, old, x => x = c.getD old
  | .string, c, old, x => x = c.getD old
  | .wstring, c, old, x => x = c.getD old
  | .array t _, c, old, x => Forall₃ t.Fits c.toList old.toList x.toList
  | .vector _, none, old, x => x = old
  | .vector t, some cs, old, x => Forall₃ t.Fits cs (resizeList t.init cs.length old) x
  | .map _ t, none, old, x =>
    if t.isArithmetic then ∀ e ∈ old.entries, e ∈ x.entries else x = old
  | .map _ _, some m, _, x => x = m
  | .optional _, c, old, x => x = c.getD old
  | .struct _ ms, c, old, x => ms.Fits c old x

def Members.Fits : (ms : Members) → ms.Cells → ms.denote → ms.denote → Prop
  | .nil, _, _, _ => True
  | .cons _ t ms, c, old, x => t.Fits c.1 old.1 x.1 ∧ ms.Fits c.2 old.2 x.2

end

mutual

lemma Ty.fits_kept : (t : Ty) → ∀ x, t.Fits (t.cells false) x x
  | .prim _, _ | .string, _ | .wstring, _ | .vector _, _ | .optional _, _ => rfl
  | .map _ t, x => by
    change if t.isArithmetic then ∀ e ∈ x.entries, e ∈ x.entries else x = x
    split
    · exact fun _ he => he
    · rfl
  | .array t n, x => by
    have h := Forall₃.replicate (f := id) t.fits_kept x.toList
    rwa [map_id, x.toList_length] at h
  | .struct _ ms, x => ms.fits_kept x

lemma Members.fits_kept : (ms : Members) → ∀ x, ms.Fits (ms.cells false) x x
  | .nil, _ => trivial
  | .cons _ t ms, x => ⟨t.fits_kept x.1, ms.fits_kept x.2⟩

end

mutual

lemma Ty.fits_created : (t : Ty) → ∀ old, t.Fits (t.cells true) old t.init
  | .prim _, _ | .string, _ | .wstring, _ | .map _ _, _ | .optional _, _ => rfl
  | .vector t, old => by
    change Forall₃ t.Fits [] (resizeList t.init 0 old) []
    rw [resizeList_zero]
    exact .nil
  | .array t n, old => by
    have h := Forall₃.replicate t.fits_created old.toList
    rwa [map_const', old.toList_length] at h
  | .struct _ ms, old => ms.fits_created old

lemma Members.fits_created : (ms : Members) → ∀ old, ms.Fits (ms.cells true) old ms.init
  | .nil, _ => trivial
  | .cons _ t ms, old => ⟨t.fits_created old.1, ms.fits_created old.2⟩

end

end Cells

section Decoders

/-- `deserialize_array` on cells. Of a `bool` the bytes 0 and 1 are assigned. -/
def decodePrimCells : (p : Prim) → List (Option p.denote) → CdrM (List (Option p.denote))
  | .bool, cs => do
    let bs ← deserializeOctetArray cs.length
    pure (zipWith (fun b c => if b = 1 then some true else if b = 0 then some false else c) bs cs)
  | .wchar, cs => collect (fun _ => do
      let x ← deserializePrim .wchar
      pure (some x)) cs
  | p, cs => do
    let xs ← deserializePrimArray p (replicate cs.length p.init)
    pure (xs.map some)

/-- Elements that `resize` creates are assigned if the length was; otherwise they may be old. -/
def decodeVectorCells : (t : Ty) → DeserializeOverloads t.Cells → Option (List t.Cells) →
    CdrM (Option (List t.Cells))
  | .prim .bool, _, _ => do
    let xs ← deserializeBoolSequence
    pure (some (xs.map some))
  | .prim p, o, c => do
    let cs ← deserializeBlockVector ((Ty.prim p).cells c.isSome) o.many (c.getD [])
    pure (some cs)
  | t, o, c => do
    let cs ← deserializeObjectVector (t.cells c.isSome) o.one o.many (c.getD [])
    pure (some cs)

def assigned {α : Type} (m : CdrM α) : CdrM (Option α) := do
  let x ← m
  pure (some x)

mutual

/-- `deserialize` along the same buffer, into cells. -/
def decodeCells (fuel : Nat) : (t : Ty) → DeserializeOverloads t.Cells
  | .prim p =>
    { one := fun _ => assigned ((deserialize fuel (.prim p)).one p.init)
      many := fun cs => do
        if cs.length ≠ 0 then notePrimPad p
        decodePrimCells p cs }
  | .string => .generic fun _ => assigned ((deserialize fuel .string).one [])
  | .wstring => .generic fun _ => assigned ((deserialize fuel .wstring).one [])
  | .array t _ =>
    { one := deserializeArray t.isMultiArrayPrimitive (decodeCells fuel t).many
      many := fun cs => do
        let l ← (decodeCells fuel t).many (cs.flatMap fun c => c.toList)
        pure (regroup cs l) }
  | .vector t => .generic (decodeVectorCells t (decodeCells fuel t))
  | .map k t => .generic fun c => do
      let m ← deserializeMap k t ((deserialize fuel t).one t.init) (c.getD .empty)
      pure (if t.isArithmetic && c.isNone then none else some m)
  | .optional t => .generic fun _ => assigned ((deserialize fuel (.optional t)).one none)
  | .struct e ms => .generic fun c => do
      let encoding := e.encoding (← read).cdrVersion
      deserializeType fuel
        (fun mid => decodeMemberCells fuel encoding.namesMembers ms 0 mid.id) encoding c

def decodeMemberCells (fuel : Nat) (namesMembers : Bool) :
    (ms : Members) → (index label : Nat) → ms.Cells → CdrM (Bool × ms.Cells)
  | .nil, _, _, c => pure (false, c)
  | .cons m t ms, index, label, c => do
    if label = (if namesMembers then m.memberId.id else index) then
      let d ← if t.isOptional then deserializeOptMember (decodeCells fuel t).one c.1
        else (decodeCells fuel t).one c.1
      pure (true, (d, c.2))
    else
      let (known, ds) ← decodeMemberCells fuel namesMembers ms (index + 1) label c.2
      pure (known, (c.1, ds))

end

end Decoders

variable {α β γ : Type} {fits : β → α → α → Prop}

/-- Two decoders that keep the relation to an old object. -/
structure Writes (fits : β → α → α → Prop) (o : DeserializeOverloads β)
    (o' : DeserializeOverloads α) : Prop where
  one : ∀ c old x, fits c old x → Related (fun c' x' => fits c' old x') (o.one c) (o'.one x)
  many : ∀ cs old xs, Forall₃ fits cs old xs →
    Related (fun cs' xs' => Forall₃ fits cs' old xs') (o.many cs) (o'.many xs)

lemma Writes.generic {one : β → CdrM β} {one' : α → CdrM α}
    (h : ∀ c old x, fits c old x → Related (fun c' x' => fits c' old x') (one c) (one' x)) :
    Writes fits (.generic one) (.generic one') :=
  ⟨h, fun _ _ _ hs => .collect h hs⟩

section Primitives

lemma load_yields (n : Nat) : Yields (fun bs => bs.length = n) (load n) := by
  intro s bs s' h
  rw [(eq_of_ok (by rfl) h).1, Mem.length_slice]

lemma yields_raise (P : α → Prop) (e : CdrError) : Yields P (raise e : CdrM α) := by
  intro s a s' h
  simp at h

lemma deserializeOctetArray_yields (n : Nat) :
    Yields (fun bs => bs.length = n) (deserializeOctetArray n) := by
  refine Yields.bind fun room => ?_
  cases room
  · exact yields_raise _ _
  · exact Yields.bind fun _ => load_yields n

lemma length_wordsOf (swap : Bool) (n k : Nat) (bs : List UInt8) :
    (wordsOf swap n k bs).length = k := by
  induction k generalizing bs with
  | zero => rfl
  | succ k ih => rw [wordsOf, length_cons, ih]

lemma deserializeWordArray_yields (n align k : Nat) :
    Yields (fun ws => ws.length = k) (deserializeWordArray n align k) := by
  rw [deserializeWordArray]
  split
  · rename_i hk
    exact Yields.pure (by rw [hk]; rfl)
  · refine Yields.bind fun s => Yields.bind fun room => ?_
    cases room
    · exact yields_raise _ _
    · exact Yields.bind fun _ => Yields.bind fun bs => Yields.bind fun _ =>
        Yields.pure (length_wordsOf ..)

variable {p : Prim}

/-- Other elements than `bool` and `wchar_t` are read as one block of a known length. -/
theorem deserializePrimArray_yields (hbool : p ≠ .bool) (hwchar : p ≠ .wchar)
    (xs : List p.denote) :
    Yields (fun l => l.length = xs.length) (deserializePrimArray p xs) := by
  rw [deserializePrimArray_eq hbool hwchar]
  split
  · exact (deserializeOctetArray_yields _).bind_yields fun bs hbs =>
      Yields.pure (by rw [length_map, hbs])
  · exact Yields.bind fun s => (deserializeWordArray_yields _ _ _).bind_yields fun ws hws =>
      Yields.pure (by rw [length_map, hws])

lemma forall₃_some (l old : List α) (h : l.length = old.length) :
    Forall₃ (fun (c : Option α) old x => x = c.getD old) (l.map some) old l := by
  induction l generalizing old with
  | nil => rw [length_eq_zero_iff.mp h.symm]; exact .nil
  | cons x l ih =>
    obtain ⟨y, old, rfl⟩ := exists_cons_of_length_eq_add_one h.symm
    exact .cons rfl (ih old (Nat.succ.inj h))

lemma forall₃_zipWith_bool {bs : List UInt8} {cs : List (Option Bool)} {old xs : List Bool}
    (hs : Forall₃ (fun (c : Option Bool) old x => x = c.getD old) cs old xs)
    (hlength : bs.length = cs.length) : Forall₃ (fun (c : Option Bool) old x => x = c.getD old)
      (zipWith (fun b c => if b = 1 then some true else if b = 0 then some false else c) bs cs) old
      (zipWith (fun b x => if b = 1 then true else if b = 0 then false else x) bs xs) := by
  induction hs generalizing bs with
  | nil => rw [length_eq_zero_iff.mp hlength]; exact .nil
  | cons h _ ih =>
    obtain ⟨b, bs, rfl⟩ := exists_cons_of_length_eq_add_one hlength
    refine .cons ?_ (ih (Nat.succ.inj hlength))
    dsimp only
    split
    · rfl
    · split
      · rfl
      · exact h

lemma decodePrimCells_related {cs : List (Option p.denote)} {old xs : List p.denote}
    (hs : Forall₃ (Ty.prim p).Fits cs old xs) :
    Related (fun cs' xs' => Forall₃ (Ty.prim p).Fits cs' old xs') (decodePrimCells p cs)
      (deserializePrimArray p xs) := by
  have hlength := hs.length_left.trans hs.length_right.symm
  by_cases hbool : p = .bool
  · subst hbool
    rw [decodePrimCells, deserializePrimArray, hlength]
    refine (Related.refl_yields (deserializeOctetArray_yields _)).bind ?_
    rintro bs _ ⟨rfl, hbs⟩
    exact .pure (forall₃_zipWith_bool hs (hbs.trans hlength.symm))
  by_cases hwchar : p = .wchar
  · subst hwchar
    exact .collect (fun _ _ _ _ => (Related.refl _).bind_pure fun _ _ heq => heq.symm) hs
  · have hcells : decodePrimCells p cs =
        deserializePrimArray p (replicate cs.length p.init) >>= fun xs => pure (xs.map some) := by
      cases p <;> first | rfl | exact absurd rfl hbool | exact absurd rfl hwchar
    rw [hcells, deserializePrimArray_eq hbool hwchar, deserializePrimArray_eq hbool hwchar,
      length_replicate, hlength, ← deserializePrimArray_eq hbool hwchar]
    refine (Related.refl_yields (deserializePrimArray_yields hbool hwchar xs)).bind_pure ?_
    rintro l _ ⟨rfl, hl⟩
    exact forall₃_some l old (hl.trans hs.length_right)

end Primitives

section Collections

variable {one : β → CdrM β} {one' : α → CdrM α} {many : List β → CdrM (List β)}
  {many' : List α → CdrM (List α)} {cs : List β} {old xs : List α}

lemma deserializeWhile_related (start dheader : Nat)
    (hone : ∀ c old x, fits c old x → Related (fun c' x' => fits c' old x') (one c) (one' x))
    (hs : Forall₃ fits cs old xs) :
    Related (fun cs' xs' => Forall₃ fits cs' old xs') (deserializeWhile start dheader one cs)
      (deserializeWhile start dheader one' xs) := by
  induction hs with
  | nil => exact .pure .nil
  | cons h hs ih =>
    rw [deserializeWhile, deserializeWhile]
    refine .bind_same _ fun s => .ite ?_ (.pure (.cons h hs))
    exact (hone _ _ _ h).bind fun _ _ h' => ih.bind fun _ _ hs' => .pure (.cons h' hs')

lemma toList_assignVector {n : Nat} {l : List α} (x : List.Vector α n) (hlength : l.length = n) :
    (assignVector x l).toList = l := by
  have hassign : assignVector x l = ⟨l, hlength⟩ := dif_pos hlength
  rw [hassign]
  rfl

lemma forall₃_assignVector {n : Nat} {c : List.Vector β n} {old x : List.Vector α n}
    (hs : Forall₃ fits cs old.toList xs) :
    Forall₃ fits (assignVector c cs).toList old.toList (assignVector x xs).toList := by
  rwa [toList_assignVector c (hs.length_left.trans old.toList_length),
    toList_assignVector x (hs.length_right.trans old.toList_length)]

variable (hmany : ∀ cs old xs, Forall₃ fits cs old xs →
  Related (fun cs' xs' => Forall₃ fits cs' old xs') (many cs) (many' xs))
include hmany

lemma deserializeArray_related {n : Nat} (isPrimitive : Bool) {c : List.Vector β n}
    {old x : List.Vector α n} (hs : Forall₃ fits c.toList old.toList x.toList) :
    Related (fun c' x' => Forall₃ fits c'.toList old.toList x'.toList)
      (deserializeArray isPrimitive many c) (deserializeArray isPrimitive many' x) := by
  refine .bind_same _ fun s => .ite ?_ ?_
  · refine .bind_same _ fun dheader => .bind_same _ fun s' => ?_
    refine (deserializeWhile_related _ _ (fun c old x h => ?_) hs).bind fun _ _ hs' =>
      .bind_same _ fun _ => .pure (forall₃_assignVector hs')
    refine (hmany [c] [old] [x] (.cons h .nil)).bind fun _ _ hs' => .pure ?_
    cases hs' with
    | cons h' _ => exact h'
  · exact (hmany _ _ _ hs).bind fun _ _ hs' => .pure (forall₃_assignVector hs')

omit hmany in
lemma forall₃_flatMap {n : Nat} {cs : List (List.Vector β n)} {old xs : List (List.Vector α n)}
    (hs : Forall₃ (fun c old x => Forall₃ fits c.toList old.toList x.toList) cs old xs) :
    Forall₃ fits (cs.flatMap fun c => c.toList) (old.flatMap fun x => x.toList)
      (xs.flatMap fun x => x.toList) := by
  induction hs with
  | nil => exact .nil
  | cons h _ ih => exact h.append ih

omit hmany in
lemma forall₃_regroup {n : Nat} {cs : List (List.Vector β n)} {old xs : List (List.Vector α n)}
    (hs : Forall₃ (fun c old x => Forall₃ fits c.toList old.toList x.toList) cs old xs)
    {l : List β} {l' : List α} (hl : Forall₃ fits l (old.flatMap fun x => x.toList) l') :
    Forall₃ (fun c old x => Forall₃ fits c.toList old.toList x.toList) (regroup cs l) old
      (regroup xs l') := by
  induction hs generalizing l l' with
  | nil => exact .nil
  | @cons _ old _ _ _ _ _ _ ih =>
    obtain ⟨hfirst, hrest⟩ := Forall₃.split (flatMap_cons ▸ hl)
    rw [old.toList_length] at hfirst hrest
    exact .cons (forall₃_assignVector hfirst) (ih hrest)

variable {init : α} {initCell : β}

lemma deserializeBlockVector_related
    (hs : ∀ n, Forall₃ fits (resizeList initCell n cs) (resizeList init n old)
      (resizeList init n xs)) :
    Related (fun cs' xs' => Forall₃ fits cs' (resizeList init cs'.length old) xs')
      (deserializeBlockVector initCell many cs) (deserializeBlockVector init many' xs) := by
  refine .bind_same _ fun s => .bind_same _ fun n => .ite (.pure (by simp [Forall₃.nil])) ?_
  refine .bind_same _ fun s' => .ite (.bind_same _ fun _ => .raise _) (.onError ?_)
  refine (hmany _ _ _ (hs n)).mono fun cs' xs' h => ?_
  rwa [h.length_left, length_resizeList]

lemma deserializeObjectVector_related
    (hone : ∀ c old x, fits c old x → Related (fun c' x' => fits c' old x') (one c) (one' x))
    (hs : ∀ n, Forall₃ fits (resizeList initCell n cs) (resizeList init n old)
      (resizeList init n xs)) :
    Related (fun cs' xs' => Forall₃ fits cs' (resizeList init cs'.length old) xs')
      (deserializeObjectVector initCell one many cs)
      (deserializeObjectVector init one' many' xs) := by
  refine .bind_same _ fun s => .ite ?_ (deserializeBlockVector_related hmany hs)
  refine .bind_same _ fun dheader => .bind_same _ fun s' => .bind_same _ fun n =>
    .ite (.pure (by simp [Forall₃.nil])) ?_
  refine (deserializeWhile_related _ _ hone (hs n)).bind fun cs' xs' h =>
    .bind_same _ fun _ => .pure ?_
  rwa [h.length_left, length_resizeList]

omit hmany

lemma forall₃_resizeList (hcreated : ∀ old, fits initCell old init)
    (hs : Forall₃ fits cs (resizeList init cs.length old) xs) (n : Nat) :
    Forall₃ fits (resizeList initCell n cs) (resizeList init n old) (resizeList init n xs) := by
  induction n generalizing cs old xs with
  | zero =>
    simp only [resizeList_zero]
    exact .nil
  | succ n ih =>
    rw [resizeList_succ, resizeList_succ, resizeList_succ]
    cases cs with
    | nil =>
      rw [length_nil, resizeList_zero] at hs
      cases hs
      exact .cons (hcreated _) (ih (by simp [Forall₃.nil]))
    | cons c cs =>
      rw [length_cons, resizeList_succ] at hs
      cases hs with
      | cons h hs => exact .cons h (ih hs)

lemma Ty.forall₃_resizeList {t : Ty} {c : (Ty.vector t).Cells} {old x : List t.denote}
    (h : (Ty.vector t).Fits c old x) (n : Nat) :
    Forall₃ t.Fits (resizeList (t.cells c.isSome) n (c.getD [])) (resizeList t.init n old)
      (resizeList t.init n x) := by
  cases c with
  | none =>
    -- nothing is known of the old length: each of the elements may be an old one
    obtain rfl : x = old := h
    have hs := Forall₃.replicate (f := id) t.fits_kept (resizeList t.init n x)
    rw [length_resizeList, map_id, ← resizeList_nil] at hs
    exact hs
  | some cs => exact Cdr.forall₃_resizeList t.fits_created h n

lemma decodeVectorCells_related {t : Ty} {o : DeserializeOverloads t.Cells}
    {o' : DeserializeOverloads t.denote} (ho : Writes t.Fits o o') {c : (Ty.vector t).Cells}
    {old x : List t.denote} (h : (Ty.vector t).Fits c old x) :
    Related (fun c' x' => (Ty.vector t).Fits c' old x') (decodeVectorCells t o c)
      (deserializeVector t o' x) := by
  have hs := Ty.forall₃_resizeList h
  cases t with
  | prim p =>
    cases p with
    | bool =>
      refine (Related.refl _).bind_pure fun xs _ heq => ?_
      subst heq
      exact forall₃_some xs _ (by rw [length_map, length_resizeList])
    | _ => exact (deserializeBlockVector_related ho.many hs).bind_pure fun _ _ h' => h'
  | _ => exact (deserializeObjectVector_related ho.many ho.one hs).bind_pure fun _ _ h' => h'

end Collections

section Maps

variable {k : KeyTy} {value : CdrM α}

/-- The entries that are there stay, whatever else is there. -/
theorem deserializePairs_related (n : Nat) (m m' : OrderedMap k.rank α) :
    Related (fun _ r => ∀ e ∈ m'.entries, e ∈ r.entries) (deserializePairs k value n m)
      (deserializePairs k value n m') := by
  induction n generalizing m m' with
  | zero => exact .pure fun _ he => he
  | succ n ih =>
    rw [deserializePairs, deserializePairs]
    exact .bind_same _ fun d => (ih _ _).mono fun _ r hr e he =>
      hr e (OrderedMap.mem_insertEntry_of_mem he)

lemma decodeMapCells_related {t : Ty} {value : CdrM t.denote} {c : (Ty.map k t).Cells}
    {old x : OrderedMap k.rank t.denote} (h : (Ty.map k t).Fits c old x) :
    Related (fun c' x' => (Ty.map k t).Fits c' old x')
      (deserializeMap k t value (c.getD .empty) >>= fun m =>
        pure (if t.isArithmetic && c.isNone then none else some m))
          (deserializeMap k t value x) := by
  cases c with
  | some m =>
    obtain rfl : x = m := h
    refine (Related.refl _).bind_pure fun m _ heq => ?_
    simp only [Option.isNone_some, Bool.and_false]
    exact heq.symm
  | none =>
    by_cases ht : t.isArithmetic = true
    · have hpairs : Related (fun _ r => ∀ e ∈ x.entries, e ∈ r.entries)
          (deserializeMap k t value .empty) (deserializeMap k t value x) := by
        simp only [deserializeMap, ht, if_true]
        exact .bind_same _ fun s => .bind_same _ fun n => .onError (deserializePairs_related n _ _)
      refine hpairs.bind_pure fun _ r hr => ?_
      simp only [Ty.Fits, ht, if_true] at h
      simp only [Ty.Fits, ht, Option.isNone_none, Bool.and_self, if_true]
      exact fun e he => hr e (h e he)
    · have hsame : deserializeMap k t value x = deserializeMap k t value .empty := by
        simp only [deserializeMap, ht, Bool.false_eq_true, if_false]
      rw [hsame]
      refine (Related.refl _).bind_pure fun m _ heq => ?_
      simp only [ht, Bool.false_and]
      exact heq.symm

end Maps

section Structures

variable {σ τ : Type} {functor : MemberFunctor σ} {functor' : MemberFunctor τ}
variable {fuel : Nat} {R : σ → τ → Prop} {x : σ} {y : τ} {typeEncoding : EncodingAlgorithmFlag}

lemma restore_related (hxy : R x y) (st : State) :
    Related R (setNextMemberId st.nextMemberId >>= fun _ =>
        setCurrentEncoding st.previousEncoding >>= fun _ => pure x)
      (setNextMemberId st.nextMemberId >>= fun _ =>
        setCurrentEncoding st.previousEncoding >>= fun _ => pure y) :=
  .bind_same _ fun _ => .bind_same _ fun _ => .pure hxy

/-- Functors that know the same members whatever the objects hold. -/
def FunctorsAgree (R : σ → τ → Prop) (functor : MemberFunctor σ) (functor' : MemberFunctor τ) :
    Prop :=
  ∀ mid x y, R x y → Related (fun a b => a.1 = b.1 ∧ R a.2 b.2) (functor mid x) (functor' mid y)

variable (hfunctor : FunctorsAgree R functor functor')
include hfunctor

lemma deserializeInOrder_related {condition : Cdr → Bool} (hxy : R x y) :
    Related R (deserializeInOrder fuel functor condition x)
      (deserializeInOrder fuel functor' condition y) := by
  refine Related.loop (fun x y hxy => ?_) fuel x y hxy
  refine .bind_same _ fun s => .ite ?_ (.pure (.inr hxy))
  refine (hfunctor _ x y hxy).bind ?_
  rintro ⟨known, x'⟩ ⟨_, y'⟩ ⟨rfl, hxy'⟩
  exact .ite (.bind_same _ fun _ => .pure (.inl hxy')) (.pure (.inr hxy'))

lemma deserializeOrSkip_related {memberSize : Nat} (hxy : R x y) :
    Related R (deserializeOrSkip functor memberSize x)
      (deserializeOrSkip functor' memberSize y) := by
  refine .bind_same _ fun s => (hfunctor _ x y hxy).bind ?_
  rintro ⟨known, x'⟩ ⟨_, y'⟩ ⟨rfl, hxy'⟩
  refine .ite (.bind_same _ fun s' => ?_) (.pure hxy')
  exact .ite (.raise _) (.bind_same _ fun _ => .pure hxy')

abbrev AtState (R : σ → τ → Prop) (a : σ × State) (b : τ × State) : Prop :=
  R a.1 b.1 ∧ a.2 = b.2

lemma xcdr1DeserializeMember_related {a : σ × State} {b : τ × State} (hab : AtState R a b) :
    Related (Sum.LiftRel (AtState R) R) (xcdr1DeserializeMember functor a)
      (xcdr1DeserializeMember functor' b) := by
  obtain ⟨x, st⟩ := a
  obtain ⟨y, _⟩ := b
  obtain ⟨hxy, rfl⟩ := hab
  refine .bind_same _ fun s => .bind_same _ fun ⟨more, memberId, st'⟩ => .bind_same _ fun _ =>
    .ite ?_ (.pure (.inr hxy))
  refine .bind_same _ fun s' => (deserializeOrSkip_related hfunctor hxy).bind fun _ _ hxy' =>
    .bind_same _ fun s'' => .ite (.raise _) (.pure (.inl ⟨hxy', rfl⟩))

lemma xcdr1DeserializeType_related (hxy : R x y) :
    Related R (xcdr1DeserializeType fuel functor typeEncoding x)
      (xcdr1DeserializeType fuel functor' typeEncoding y) := by
  refine .bind_same _ fun s => .bind_same _ fun _ => .ite ?_ ?_
  · exact (Related.loop (fun _ _ => xcdr1DeserializeMember_related hfunctor) _ _ _
      (⟨hxy, rfl⟩ : AtState R (x, s.getState) (y, s.getState))).bind fun _ _ hxy' =>
        restore_related hxy' _
  · exact .bind_same _ fun _ => (deserializeInOrder_related hfunctor hxy).bind fun _ _ hxy' =>
      restore_related hxy' _

lemma xcdr2DeserializeMember_related (dheader : Nat) {a : σ × State} {b : τ × State}
    (hab : AtState R a b) :
    Related (Sum.LiftRel (AtState R) R) (xcdr2DeserializeMember functor dheader a)
      (xcdr2DeserializeMember functor' dheader b) := by
  obtain ⟨x, st⟩ := a
  obtain ⟨y, _⟩ := b
  obtain ⟨hxy, rfl⟩ := hab
  refine .bind_same _ fun s => .ite (.pure (.inr hxy)) (.ite (.raise _) ?_)
  refine .bind_same _ fun ⟨memberId, st'⟩ => .bind_same _ fun _ =>
    (deserializeOrSkip_related hfunctor hxy).bind fun _ _ hxy' =>
      .bind_same _ fun s' => .ite (.raise _) (.pure (.inl ⟨hxy', rfl⟩))

lemma xcdr2DeserializeType_related (hxy : R x y) :
    Related R (xcdr2DeserializeType fuel functor typeEncoding x)
      (xcdr2DeserializeType fuel functor' typeEncoding y) := by
  refine .ite ?_ ?_
  · refine .bind_same _ fun dheader => .bind_same _ fun s => .bind_same _ fun _ => .ite ?_ ?_
    · exact (Related.loop (fun _ _ => xcdr2DeserializeMember_related hfunctor dheader) _ _ _
        (⟨hxy, rfl⟩ : AtState R (x, s.getState) (y, s.getState))).bind fun _ _ hxy' =>
          restore_related hxy' _
    · exact .bind_same _ fun _ => (deserializeInOrder_related hfunctor hxy).bind fun _ _ hxy' =>
        .bind_same _ fun _ => .bind_same _ fun _ => restore_related hxy' _
  · exact .bind_same _ fun s => .bind_same _ fun _ => .bind_same _ fun _ =>
      (deserializeInOrder_related hfunctor hxy).bind fun _ _ hxy' => restore_related hxy' _

lemma deserializeType_related (hxy : R x y) :
    Related R (deserializeType fuel functor typeEncoding x)
      (deserializeType fuel functor' typeEncoding y) := by
  refine .bind_same _ fun s => ?_
  have hcdr : Related R (cdrDeserializeType fuel functor x) (cdrDeserializeType fuel functor' y) :=
    .bind_same _ fun s => .bind_same _ fun _ =>
      (deserializeInOrder_related hfunctor hxy).bind fun _ _ hxy' =>
        .bind_same _ fun _ => .pure hxy'
  cases s.cdrVersion with
  | corbaCdr => exact hcdr
  | ddsCdr => exact hcdr
  | xcdrV1 => exact xcdr1DeserializeType_related hfunctor hxy
  | xcdrV2 => exact xcdr2DeserializeType_related hfunctor hxy

omit hfunctor in
lemma deserializeOptMember_related {one : σ → CdrM σ} {one' : τ → CdrM τ} (hxy : R x y)
    (hone : Related R (one x) (one' y)) :
    Related R (deserializeOptMember one x) (deserializeOptMember one' y) := by
  refine .bind_same _ fun s => .ite ?_ hone
  refine .bind_same _ fun ⟨_, _, st⟩ => .bind_same _ fun s' => ?_
  refine .ite (hone.bind fun x' y' hxy' => ?_) ((Related.pure hxy).bind fun x' y' hxy' => ?_) <;>
    refine .bind_same _ fun s'' => ?_ <;>
    exact .ite (.raise _) (.pure hxy')

end Structures

mutual

/-- Whatever the old object is, a decoder makes of it what the cells say. The runs on the object and
on the cells pass the same states, so only what they assign is compared, type by type. -/
theorem decodeCells_writes (fuel : Nat) :
    (t : Ty) → Writes t.Fits (decodeCells fuel t) (deserialize fuel t)
  | .prim p => by
    refine ⟨fun _ _ _ _ => ?_, fun cs old xs hs => ?_⟩
    · exact (Related.refl _).bind_pure fun _ _ heq => heq.symm
    · simp only [decodeCells, deserialize, hs.length_left, hs.length_right]
      have hmany := decodePrimCells_related hs
      exact .ite (.bind_same _ fun _ => hmany) hmany
  | .string => .generic fun _ _ _ _ => (Related.refl _).bind_pure fun _ _ heq => heq.symm
  | .wstring => .generic fun _ _ _ _ => (Related.refl _).bind_pure fun _ _ heq => heq.symm
  | .array t n => by
    have ht := decodeCells_writes fuel t
    refine ⟨fun c old x hs => deserializeArray_related ht.many _ hs, fun cs old xs hs => ?_⟩
    simp only [decodeCells, deserialize]
    exact (ht.many _ _ _ (forall₃_flatMap hs)).bind fun _ _ hl => .pure (forall₃_regroup hs hl)
  | .vector t => by
    rw [decodeCells, deserialize]
    exact .generic fun c old x h => decodeVectorCells_related (decodeCells_writes fuel t) h
  | .map k t => by
    rw [decodeCells, deserialize]
    exact .generic fun c old x h => decodeMapCells_related h
  | .optional t => by
    rw [decodeCells, deserialize]
    exact .generic fun _ _ _ _ => (Related.refl _).bind_pure fun _ _ heq => heq.symm
  | .struct e ms => by
    rw [decodeCells, deserialize]
    exact .generic fun c old x h => .bind_same _ fun s => deserializeType_related
      (fun mid c x h => decodeMemberCells_related fuel _ ms 0 mid.id h) h

lemma decodeMemberCells_related (fuel : Nat) (namesMembers : Bool) : (ms : Members) →
    ∀ index label {c old x}, ms.Fits c old x →
      Related (fun a b => a.1 = b.1 ∧ ms.Fits a.2 old b.2)
        (decodeMemberCells fuel namesMembers ms index label c)
        (deserializeMembers fuel namesMembers ms index label x)
  | .nil => by
    intro index label c old x h
    rw [decodeMemberCells, deserializeMembers]
    exact .pure ⟨rfl, h⟩
  | .cons m t ms => by
    intro index label c old x h
    have hone := (decodeCells_writes fuel t).one c.1 old.1 x.1 h.1
    rw [decodeMemberCells, deserializeMembers]
    refine .ite (.ite ?_ ?_) ?_
    · exact (deserializeOptMember_related (R := fun c x => t.Fits c old.1 x) h.1 hone).bind
        fun _ _ h' => .pure ⟨rfl, h', h.2⟩
    · exact hone.bind fun _ _ h' => .pure ⟨rfl, h', h.2⟩
    · refine (decodeMemberCells_related fuel namesMembers ms _ _ h.2).bind ?_
      rintro ⟨known, ds⟩ ⟨_, ys⟩ ⟨rfl, h'⟩
      exact .pure ⟨rfl, h.1, h'⟩

end

abbrev GoAlong (m : CdrM α) (n : CdrM β) : Prop := Related (fun _ _ => True) m n

/-- The way of a decoder through the buffer does not depend on the object it fills: each of two runs
goes along with the one on cells, which has no object. -/
theorem deserialize_goAlong (fuel : Nat) (t : Ty) (x y : t.denote) :
    GoAlong ((deserialize fuel t).one x) ((deserialize fuel t).one y) := by
  intro s
  have hone := (decodeCells_writes fuel t).one (t.cells false)
  rcases hone x x (t.fits_kept x) s with ⟨c, x', s', hc, hx, -⟩ | ⟨e, s', hc, hx⟩ <;>
    rcases hone y y (t.fits_kept y) s with ⟨c', y', s'', hc', hy, -⟩ | ⟨e', s'', hc', hy⟩
  · exact .inl ⟨x', y', s', hx, by rw [hy, (eq_of_ok hc' hc).2], trivial⟩
  · simp [hc] at hc'
  · simp [hc] at hc'
  · rw [hc, Prod.mk.injEq, Except.error.injEq] at hc'
    exact .inr ⟨e, s', hx, by rw [hy, hc'.1, hc'.2]⟩

end EasyDds.Cdr
