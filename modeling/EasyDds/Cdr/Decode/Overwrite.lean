import EasyDds.Cdr.Decode.Inversion
import EasyDds.Cdr.Decode.Cells

/-!
What is left of the old content of an object after decoding into it. The result of a decoder is a
function of the buffer where every cell of the object is written; the overloads differ in which
cells they may leave alone.
-/

namespace EasyDds.Cdr

open Prog List

section Written

lemma eq_of_isSome {α : Type} {c : Option α} {old old' : α} (h : c.isSome = true) :
    c.getD old = c.getD old' := by
  obtain ⟨a, rfl⟩ := Option.isSome_iff_exists.mp h
  rfl

mutual

theorem Ty.eq_of_isWritten : (t : Ty) → ∀ {c old old' x y}, t.isWritten c = true →
    t.Fits c old x → t.Fits c old' y → x = y
  | .prim _, _, _, _, _, _, h, hx, hy | .string, _, _, _, _, _, h, hx, hy
  | .wstring, _, _, _, _, _, h, hx, hy | .optional _, _, _, _, _, _, h, hx, hy =>
    hx.trans ((eq_of_isSome h).trans hy.symm)
  | .map _ _, some _, _, _, _, _, _, hx, hy => hx.trans hy.symm
  | .array t n, c, _, _, x, y, h, hx, hy => by
    have hall : ∀ d ∈ c.toList, ∀ old old' x y, t.Fits d old x → t.Fits d old' y → x = y :=
      fun d hd _ _ _ _ => t.eq_of_isWritten (all_eq_true.mp h d hd)
    exact List.Vector.toList_injective (Forall₃.eq_of_all (R := t.Fits) hall hx hy)
  | .vector t, some cs, _, _, _, _, h, hx, hy => by
    have hall : ∀ d ∈ cs, ∀ old old' x y, t.Fits d old x → t.Fits d old' y → x = y :=
      fun d hd _ _ _ _ => t.eq_of_isWritten (all_eq_true.mp h d hd)
    exact Forall₃.eq_of_all (R := t.Fits) hall hx hy
  | .struct _ ms, _, _, _, _, _, h, hx, hy => ms.eq_of_isWritten h hx hy

theorem Members.eq_of_isWritten : (ms : Members) → ∀ {c old old' x y}, ms.isWritten c = true →
    ms.Fits c old x → ms.Fits c old' y → x = y
  | .nil, _, _, _, _, _, _, _, _ => rfl
  | .cons _ t ms, _, _, _, _, _, h, hx, hy => by
    obtain ⟨hfirst, hrest⟩ := Bool.and_eq_true_iff.mp h
    exact Prod.ext (t.eq_of_isWritten hfirst hx.1 hy.1) (ms.eq_of_isWritten hrest hx.2 hy.2)

end

/-- Two old objects of which something is left to tell them apart. -/
def Apart {α β : Type} (fits : β → α → α → Prop) (c : β) : Prop :=
  ∃ old old', ∀ x y, fits c old x → fits c old' y → x ≠ y

lemma apart_of_isNone {α : Type} {c : Option α} {a b : α} (hne : a ≠ b) (h : c.isSome = false) :
    Apart (fun c old x => x = c.getD old) c := by
  obtain rfl := Option.not_isSome_iff_eq_none.mp (Bool.not_eq_true _ ▸ h)
  exact ⟨a, b, fun x y hx hy => hx ▸ hy ▸ hne⟩

lemma Prim.exists_ne_init (p : Prim) : ∃ x : p.denote, x ≠ p.init := by
  cases p with
  | bool => exact ⟨true, by decide⟩
  | _ => exact ⟨1, by decide⟩

/-- A map with arithmetic values keeps its old entries, any other map that is not decoded itself. -/
theorem Ty.map_apart (k : KeyTy) (t : Ty) : Apart (Ty.map k t).Fits none := by
  by_cases ht : t.isArithmetic = true
  · obtain ⟨p, rfl⟩ : ∃ p, t = .prim p := by
      cases t <;> first | exact ⟨_, rfl⟩ | cases ht
    -- two old maps that disagree about the value of one key
    obtain ⟨a, ha⟩ := p.exists_ne_init
    have hmem : ∀ v : p.denote, (k.init, v) ∈
        (OrderedMap.empty.emplace (k.init, v) : OrderedMap k.rank p.denote).entries :=
      fun v => by simp [OrderedMap.insertEntry]
    refine ⟨OrderedMap.empty.emplace (k.init, a), OrderedMap.empty.emplace (k.init, p.init),
      fun x y hx hy heq => ha ?_⟩
    have hfirst := hx _ (hmem a)
    have hsecond := hy _ (hmem p.init)
    rw [heq] at hfirst
    exact congrArg Prod.snd (y.eq_of_rank hfirst hsecond rfl)
  · refine ⟨.empty, OrderedMap.empty.emplace (k.init, t.init), fun x y hx hy heq => ?_⟩
    simp only [Ty.Fits, ht, Bool.false_eq_true, if_false] at hx hy
    rw [hx, hy] at heq
    exact absurd (congrArg OrderedMap.entries heq) (by simp [OrderedMap.insertEntry])

mutual

theorem Ty.apart_of_not_isWritten : (t : Ty) → ∀ {c}, t.isWritten c = false → Apart t.Fits c
  | .prim p, _, h => by
    obtain ⟨a, ha⟩ := p.exists_ne_init
    exact apart_of_isNone ha h
  | .string, _, h => apart_of_isNone (a := []) (b := [0]) (by decide) h
  | .wstring, _, h => apart_of_isNone (a := []) (b := [0]) (by decide) h
  | .optional t, _, h => apart_of_isNone (a := none) (b := some t.init) (by simp) h
  | .map k t, none, _ => t.map_apart k
  | .array t n, c, h => by
    obtain ⟨d, hd, hwritten⟩ := all_eq_false.mp h
    obtain ⟨a, b, hab⟩ := t.apart_of_not_isWritten (Bool.not_eq_true _ ▸ hwritten)
    have hlength : c.toList.length = n := c.toList_length
    refine ⟨.replicate n a, .replicate n b, fun x y hx hy heq => ?_⟩
    refine Forall₃.ne_of_mem (R := t.Fits) hd hab ?_ ?_ (congrArg List.Vector.toList heq)
    · rw [hlength]
      exact hx
    · rw [hlength]
      exact hy
  | .vector t, none, _ => ⟨[], [t.init], fun x y hx hy => hx ▸ hy ▸ nofun⟩
  | .vector t, some cs, h => by
    obtain ⟨d, hd, hwritten⟩ := all_eq_false.mp h
    obtain ⟨a, b, hab⟩ := t.apart_of_not_isWritten (Bool.not_eq_true _ ▸ hwritten)
    have hsame : ∀ d, resizeList t.init cs.length (replicate cs.length d) =
      replicate cs.length d := fun d => by simp [resizeList]
    exact ⟨replicate cs.length a, replicate cs.length b, fun x y hx hy =>
      Forall₃.ne_of_mem (R := t.Fits) hd hab (hsame a ▸ hx) (hsame b ▸ hy)⟩
  | .struct _ ms, _, h => ms.apart_of_not_isWritten h

theorem Members.apart_of_not_isWritten : (ms : Members) → ∀ {c}, ms.isWritten c = false →
    Apart ms.Fits c
  | .cons _ t ms, c, h => by
    rcases Bool.and_eq_false_iff.mp h with h | h
    · obtain ⟨a, b, hab⟩ := t.apart_of_not_isWritten h
      exact ⟨(a, ms.init), (b, ms.init), fun x y hx hy heq =>
        hab _ _ hx.1 hy.1 (congrArg Prod.fst heq)⟩
    · obtain ⟨a, b, hab⟩ := ms.apart_of_not_isWritten h
      exact ⟨(t.init, a), (t.init, b), fun x y hx hy heq =>
        hab _ _ hx.2 hy.2 (congrArg Prod.snd heq)⟩

end

end Written

/-- Where decoding succeeds, the buffer alone decides what becomes of the object. -/
def Overwrites {α : Type} (one : α → CdrM α) (s : Cdr) : Prop :=
  ∀ x y x' y' s1 s2, (one x).run s = (.ok x', s1) → (one y).run s = (.ok y', s2) → x' = y'

def outcome {α : Type} (one : α → CdrM α) (x : α) (s : Cdr) : Option α := ((one x).run s).1.toOption

/-- Along its way through the buffer the decoder writes every cell of an object. -/
def Ty.Written (fuel : Nat) (t : Ty) (s : Cdr) : Prop :=
  ∀ c ∈ outcome (decodeCells fuel t).one (t.cells false) s, t.isWritten c = true

def sampleTy : Ty :=
  .vector (.struct .final (.cons ⟨.ofNat 0 false, .autoWithShortHeaderByDefault⟩ (.prim .uint8)
    (.cons ⟨.ofNat 1 false, .autoWithShortHeaderByDefault⟩ (.array (.prim .bool) 2) .nil)))

lemma Overwrites.outcome_eq {α β : Type} {one : α → CdrM α} {s : Cdr} (h : Overwrites one s)
    {f : α → β} {x y : α} {b c : β} (hx : (outcome one x s).map f = some b)
    (hy : (outcome one y s).map f = some c) : b = c := by
  rcases hrunx : (one x).run s with ⟨_ | x', s1⟩
  · simp [outcome, hrunx, Except.toOption] at hx
  · rcases hruny : (one y).run s with ⟨_ | y', s2⟩
    · simp [outcome, hruny, Except.toOption] at hy
    · simp only [outcome, hrunx, hruny, Except.toOption, Option.map_some,
        Option.some.injEq] at hx hy
      rw [← hx, ← hy, h x y x' y' s1 s2 hrunx hruny]

end EasyDds.Cdr
