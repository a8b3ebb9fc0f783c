import Mathlib.Data.List.Basic
import Mathlib.Tactic.Common

/-!
Computations over a mutable object that may raise an error. The object's state survives
the error, which is what a caller of a throwing member function observes. The two ways of
reasoning used by the rest of the development are collected here: symbolic execution of a
run that returns (`bind_of_ok`, `bind_of_error`), and invariants that every run keeps
whether it returns or raises (`Maintains`).
-/

namespace EasyDds

/-- A computation over a state `σ` that returns an `α` or raises an `ε`. -/
structure Prog (σ ε α : Type) where
  run : σ → Except ε α × σ

namespace Prog

variable {σ ε α β γ : Type}

instance : Monad (Prog σ ε) where
  pure a := ⟨fun s => (.ok a, s)⟩
  bind m f := ⟨fun s =>
    match m.run s with
    | (.ok a, s') => (f a).run s'
    | (.error e, s') => (.error e, s')⟩

def read : Prog σ ε σ := ⟨fun s => (.ok s, s)⟩

def modify (f : σ → σ) : Prog σ ε Unit := ⟨fun s => (.ok (), f s)⟩

/-- `throw e`. -/
def raise (e : ε) : Prog σ ε α := ⟨fun s => (.error e, s)⟩

/-- `try { m } catch (...) { restore; throw; }`. -/
def onError (restore : σ → σ) (m : Prog σ ε α) : Prog σ ε α := ⟨fun s =>
  match m.run s with
  | (.ok a, s') => (.ok a, s')
  | (.error e, s') => (.error e, restore s')⟩

def attempt (m : Prog σ ε α) : Prog σ ε (Option α) := ⟨fun s =>
  match m.run s with
  | (.ok a, s') => (.ok (some a), s')
  | (.error _, s') => (.ok none, s')⟩

def each (f : α → Prog σ ε Unit) : List α → Prog σ ε Unit
  | [] => pure ()
  | a :: as => do
    f a
    each f as

def collect (f : α → Prog σ ε β) : List α → Prog σ ε (List β)
  | [] => pure []
  | a :: as => do
    let b ← f a
    let bs ← collect f as
    pure (b :: bs)

def times (m : Prog σ ε α) : Nat → Prog σ ε (List α)
  | 0 => pure []
  | n + 1 => do
    let a ← m
    let as ← times m n
    pure (a :: as)

/-- A `while` loop: `body` either asks for another round or leaves with a result. `out` is
raised when `fuel` rounds were not enough; it is not an outcome of the loop itself. -/
def loop (out : ε) (body : α → Prog σ ε (α ⊕ β)) : Nat → α → Prog σ ε β
  | 0, _ => raise out
  | fuel + 1, a => do
    match ← body a with
    | .inl a' => loop out body fuel a'
    | .inr b => pure b

@[simp] lemma run_pure (a : α) (s : σ) : (pure a : Prog σ ε α).run s = (.ok a, s) := rfl

@[simp] lemma run_read (s : σ) : (read : Prog σ ε σ).run s = (.ok s, s) := rfl

@[simp] lemma run_modify (f : σ → σ) (s : σ) :
    (modify f : Prog σ ε Unit).run s = (.ok (), f s) := rfl

@[simp] lemma run_raise (e : ε) (s : σ) : (raise e : Prog σ ε α).run s = (.error e, s) := rfl

lemma run_bind (m : Prog σ ε α) (f : α → Prog σ ε β) (s : σ) : (m >>= f).run s = match m.run s with
      | (.ok a, s') => (f a).run s'
      | (.error e, s') => (.error e, s') := rfl

variable {m : Prog σ ε α} {f : α → Prog σ ε β} {s s' : σ} {a : α} {e : ε} {r : σ → σ} {P : α → Prop}

lemma bind_of_ok (h : m.run s = (.ok a, s')) : (m >>= f).run s = (f a).run s' := by rw [run_bind, h]

lemma bind_of_error (h : m.run s = (.error e, s')) : (m >>= f).run s = (.error e, s') := by
  rw [run_bind, h]

@[simp] lemma run_pure_bind (a : α) (f : α → Prog σ ε β) (s : σ) :
    ((pure a : Prog σ ε α) >>= f).run s = (f a).run s := rfl

@[simp] lemma run_read_bind (f : σ → Prog σ ε β) (s : σ) :
    ((read : Prog σ ε σ) >>= f).run s = (f s).run s := rfl

@[simp] lemma run_modify_bind (g : σ → σ) (f : Unit → Prog σ ε β) (s : σ) :
    ((modify g : Prog σ ε Unit) >>= f).run s = (f ()).run (g s) := rfl

@[simp] lemma run_raise_bind (e : ε) (f : α → Prog σ ε β) (s : σ) :
    ((raise e : Prog σ ε α) >>= f).run s = (.error e, s) := rfl

@[simp] lemma run_bind_bind (m : Prog σ ε α) (f : α → Prog σ ε β) (g : β → Prog σ ε γ) (s : σ) :
    ((m >>= f) >>= g).run s = (m >>= fun a => f a >>= g).run s := by
  simp only [run_bind]
  rcases m.run s with ⟨_ | _, _⟩ <;> rfl

instance : LawfulMonad (Prog σ ε) := LawfulMonad.mk' _ (fun m => by
    refine congrArg Prog.mk (funext fun s => ?_)
    change (match m.run s with
      | (.ok a, s') => _
      | (.error e, s') => _) = m.run s
    rcases m.run s with ⟨_ | _, _⟩ <;> rfl)
  (fun _ _ => rfl)
  (fun m f g => congrArg Prog.mk (funext fun s => run_bind_bind m f g s))

lemma ite_bind {c : Prop} [Decidable c] (m n : Prog σ ε α) (f : α → Prog σ ε β) :
    (if c then m else n) >>= f = if c then m >>= f else n >>= f := by
  split <;> rfl

lemma ok_inj {b : α} : ((.ok a, s) : Except ε α × σ) = (.ok b, s') ↔ a = b ∧ s = s' := by simp

/-- A bind that returned went through both of its halves. -/
theorem bind_eq_ok {s'' : σ} {b : β} : (m >>= f).run s = (.ok b, s'') ↔
      ∃ a s', m.run s = (.ok a, s') ∧ (f a).run s' = (.ok b, s'') := by
  rw [run_bind]
  rcases m.run s with ⟨_ | a, s'⟩ <;> simp

lemma eq_of_ok {s'' : σ} {b : α} (ha : m.run s = (.ok a, s')) (hb : m.run s = (.ok b, s'')) :
    b = a ∧ s'' = s' := by
  rw [ha, ok_inj] at hb
  exact ⟨hb.1.symm, hb.2.symm⟩

/-- What holds of every result of a run holds of the one it has. -/
theorem forall_ok_iff (h : m.run s = (.ok a, s')) {P : α → σ → Prop} :
    (∀ b s'', m.run s = (.ok b, s'') → P b s'') ↔ P a s' := by
  refine ⟨fun hall => hall a s' h, fun hp b s'' hb => ?_⟩
  obtain ⟨rfl, rfl⟩ := eq_of_ok h hb
  exact hp

lemma loop_of_inl {out : ε} {body : α → Prog σ ε (α ⊕ β)} {a' : α}
    (h : (body a).run s = (.ok (.inl a'), s')) (fuel : Nat) :
    (loop out body (fuel + 1) a).run s = (loop out body fuel a').run s' := by
  rw [loop, bind_of_ok h]

lemma loop_of_inr {out : ε} {body : α → Prog σ ε (α ⊕ β)} {b : β}
    (h : (body a).run s = (.ok (.inr b), s')) (fuel : Nat) :
    (loop out body (fuel + 1) a).run s = (.ok b, s') := by
  rw [loop, bind_of_ok h]
  rfl

lemma onError_of_ok (h : m.run s = (.ok a, s')) : (onError r m).run s = (.ok a, s') := by
  simp only [onError, h]

lemma onError_of_error (h : m.run s = (.error e, s')) : (onError r m).run s = (.error e, r s') := by
  simp only [onError, h]

lemma onError_eq_ok : (onError r m).run s = (.ok a, s') ↔ m.run s = (.ok a, s') := by
  rcases h : m.run s with ⟨e | b, s''⟩
  · simp [onError_of_error h]
  · rw [onError_of_ok h]

lemma attempt_of_ok (h : m.run s = (.ok a, s')) : (attempt m).run s = (.ok (some a), s') := by
  simp only [attempt, h]

lemma attempt_of_error (h : m.run s = (.error e, s')) : (attempt m).run s = (.ok none, s') := by
  simp only [attempt, h]

def Yields (P : α → Prop) (m : Prog σ ε α) : Prop :=
  ∀ s a s', m.run s = (.ok a, s') → P a

lemma Yields.bind {P : β → Prop} (hf : ∀ a, Yields P (f a)) : Yields P (m >>= f) := by
  intro s b s'' h
  obtain ⟨a, s', -, hrest⟩ := bind_eq_ok.mp h
  exact hf a s' b s'' hrest

lemma Yields.bind_yields {Q : α → Prop} {P : β → Prop} (hm : Yields Q m)
    (hf : ∀ a, Q a → Yields P (f a)) : Yields P (m >>= f) := by
  intro s b s'' h
  obtain ⟨a, s', hfirst, hrest⟩ := bind_eq_ok.mp h
  exact hf a (hm s a s' hfirst) s' b s'' hrest

lemma Yields.pure (h : P a) : Yields P (pure a : Prog σ ε α) := by
  intro s b s' hb
  simp only [run_pure, ok_inj] at hb
  rw [← hb.1]
  exact h

lemma Yields.attempt (h : Yields P m) : Yields (fun o : Option α => ∀ a ∈ o, P a) (attempt m) := by
  intro s o s' ho a ha
  rcases hm : m.run s with ⟨_ | b, s''⟩
  · rw [attempt_of_error hm] at ho
    simp only [ok_inj] at ho
    simp [← ho.1] at ha
  · rw [attempt_of_ok hm] at ho
    simp only [ok_inj] at ho
    rw [← ho.1, Option.mem_some_iff] at ha
    rw [← ha]
    exact h s b s'' hm

/-- Every run of `m` from a state with `I` ends, by return or by error, in one with `I`. -/
def Maintains (I : σ → Prop) (m : Prog σ ε α) : Prop :=
  ∀ s, I s → I (m.run s).2

section Maintains

variable {I : σ → Prop}

lemma Maintains.pure (a : α) : Maintains I (pure a : Prog σ ε α) :=
  fun _ h => h

lemma Maintains.raise (e : ε) : Maintains I (raise e : Prog σ ε α) :=
  fun _ h => h

lemma Maintains.read : Maintains I (read : Prog σ ε σ) :=
  fun _ h => h

lemma Maintains.modify {f : σ → σ} (h : ∀ s, I s → I (f s)) :
    Maintains I (modify f : Prog σ ε Unit) := h

variable {m : Prog σ ε α}

lemma Maintains.bind (hm : Maintains I m) (hf : ∀ a, Maintains I (f a)) :
    Maintains I (m >>= f) := by
  intro s hs
  have hs' := hm s hs
  rw [run_bind]
  rcases h : m.run s with ⟨_ | a, s'⟩
  · simpa only [h] using hs'
  · rw [h] at hs'
    exact hf a s' hs'

lemma Maintains.ite {p : Prop} [Decidable p] {n : Prog σ ε α} (hm : Maintains I m)
    (hn : Maintains I n) : Maintains I (if p then m else n) := by
  split
  · exact hm
  · exact hn

end Maintains

end Prog

end EasyDds
