import EasyDds.Lib.Prog

/-!
Two computations that go the same way. They see the same states and take the same branches; only
the values they carry along may differ.
-/

namespace EasyDds.Prog

variable {σ ε α β γ δ : Type}

/-- From every state both return, with related results, or both raise the same error, and they end
in the same state. -/
def Related (R : α → β → Prop) (m : Prog σ ε α) (n : Prog σ ε β) : Prop :=
  ∀ s, (∃ a b s', m.run s = (.ok a, s') ∧ n.run s = (.ok b, s') ∧ R a b) ∨
    ∃ e s', m.run s = (.error e, s') ∧ n.run s = (.error e, s')

inductive Forall₃ (R : α → β → γ → Prop) : List α → List β → List γ → Prop
  | nil : Forall₃ R [] [] []
  | cons {a b c as bs cs} (h : R a b c) (hs : Forall₃ R as bs cs) :
    Forall₃ R (a :: as) (b :: bs) (c :: cs)

namespace Forall₃

variable {R : α → β → γ → Prop} {as as' : List α} {bs bs' : List β} {cs cs' : List γ}

lemma length_left (h : Forall₃ R as bs cs) : as.length = bs.length := by
  induction h with
  | nil => rfl
  | cons _ _ ih => exact congrArg Nat.succ ih

lemma length_right (h : Forall₃ R as bs cs) : cs.length = bs.length := by
  induction h with
  | nil => rfl
  | cons _ _ ih => exact congrArg Nat.succ ih

lemma append (h : Forall₃ R as bs cs) (h' : Forall₃ R as' bs' cs') :
    Forall₃ R (as ++ as') (bs ++ bs') (cs ++ cs') := by
  induction h with
  | nil => exact h'
  | cons hhead _ ih => exact .cons hhead ih

lemma split (h : Forall₃ R as (bs ++ bs') cs) :
    Forall₃ R (as.take bs.length) bs (cs.take bs.length) ∧
      Forall₃ R (as.drop bs.length) bs' (cs.drop bs.length) := by
  induction bs generalizing as cs with
  | nil => exact ⟨.nil, h⟩
  | cons b bs ih =>
    cases h with
    | cons hhead htail => exact ⟨.cons hhead (ih htail).1, (ih htail).2⟩

lemma replicate {a : α} {f : β → γ} (h : ∀ b, R a b (f b)) (bs : List β) :
    Forall₃ R (List.replicate bs.length a) bs (bs.map f) := by
  induction bs with
  | nil => exact .nil
  | cons b bs ih => exact .cons (h b) ih

lemma eq_of_all (h : ∀ a ∈ as, ∀ b b' c c', R a b c → R a b' c' → c = c')
    (hs : Forall₃ R as bs cs) (hs' : Forall₃ R as bs' cs') : cs = cs' := by
  induction hs generalizing bs' cs' with
  | nil =>
    cases hs'
    rfl
  | cons hhead _ ih =>
    cases hs' with
    | cons hhead' htail' =>
      rw [h _ List.mem_cons_self _ _ _ _ hhead hhead',
        ih (fun a ha => h a (List.mem_cons_of_mem _ ha)) htail']

lemma ne_of_mem {a : α} {b b' : β} (ha : a ∈ as) (h : ∀ c c', R a b c → R a b' c' → c ≠ c')
    (hs : Forall₃ R as (List.replicate as.length b) cs)
    (hs' : Forall₃ R as (List.replicate as.length b') cs') : cs ≠ cs' := by
  induction as generalizing cs cs' with
  | nil => cases ha
  | cons _ as ih =>
    cases hs with
    | cons hhead htail =>
      cases hs' with
      | cons hhead' htail' =>
        rintro ⟨⟩
        rcases List.mem_cons.mp ha with rfl | ha
        · exact h _ _ hhead hhead' rfl
        · exact ih ha htail htail' rfl

end Forall₃

namespace Related

variable {R : α → β → Prop} {Q : γ → δ → Prop} {m : Prog σ ε α} {n : Prog σ ε β}

lemma refl (m : Prog σ ε α) : Related Eq m m := by
  intro s
  rcases h : m.run s with ⟨e | a, s'⟩
  · exact .inr ⟨e, s', rfl, rfl⟩
  · exact .inl ⟨a, a, s', rfl, rfl, rfl⟩

lemma refl_yields {P : α → Prop} (h : Yields P m) : Related (fun a b => a = b ∧ P a) m m := by
  intro s
  rcases hm : m.run s with ⟨e | a, s'⟩
  · exact .inr ⟨e, s', rfl, rfl⟩
  · exact .inl ⟨a, a, s', rfl, rfl, rfl, h s a s' hm⟩

lemma mono {R' : α → β → Prop} (h : Related R m n) (himp : ∀ a b, R a b → R' a b) :
    Related R' m n := by
  intro s
  rcases h s with ⟨a, b, s', hm, hn, hab⟩ | herror
  · exact .inl ⟨a, b, s', hm, hn, himp a b hab⟩
  · exact .inr herror

lemma pure {a : α} {b : β} (h : R a b) :
    Related R (Pure.pure a : Prog σ ε α) (Pure.pure b : Prog σ ε β) :=
  fun s => .inl ⟨a, b, s, rfl, rfl, h⟩

lemma raise (e : ε) : Related R (Prog.raise e : Prog σ ε α) (Prog.raise e : Prog σ ε β) :=
  fun s => .inr ⟨e, s, rfl, rfl⟩

variable {f : α → Prog σ ε γ}

lemma bind {g : β → Prog σ ε δ} (h : Related R m n) (hfg : ∀ a b, R a b → Related Q (f a) (g b)) :
    Related Q (m >>= f) (n >>= g) := by
  intro s
  rcases h s with ⟨a, b, s', hm, hn, hab⟩ | ⟨e, s', hm, hn⟩
  · rw [bind_of_ok hm, bind_of_ok hn]
    exact hfg a b hab s'
  · exact .inr ⟨e, s', bind_of_error hm, bind_of_error hn⟩

lemma bind_same {g : α → Prog σ ε δ} (m : Prog σ ε α) (hfg : ∀ a, Related Q (f a) (g a)) :
    Related Q (m >>= f) (m >>= g) :=
  (refl m).bind fun a _ hab => hab ▸ hfg a

lemma bind_pure {f : α → γ} {Q : γ → β → Prop} (h : Related R m n)
    (hf : ∀ a b, R a b → Q (f a) b) : Related Q (m >>= fun a => Pure.pure (f a)) n := by
  intro s
  rcases h s with ⟨a, b, s', hm, hn, hab⟩ | ⟨e, s', hm, hn⟩
  · exact .inl ⟨f a, b, s', by rw [bind_of_ok hm, run_pure], hn, hf a b hab⟩
  · exact .inr ⟨e, s', bind_of_error hm, hn⟩

lemma ite {p : Prop} [Decidable p] {m' : Prog σ ε α} {n' : Prog σ ε β} (h : Related R m n)
    (h' : Related R m' n') : Related R (if p then m else m') (if p then n else n') := by
  split
  · exact h
  · exact h'

lemma onError {r : σ → σ} (h : Related R m n) :
    Related R (Prog.onError r m) (Prog.onError r n) := by
  intro s
  rcases h s with ⟨a, b, s', hm, hn, hab⟩ | ⟨e, s', hm, hn⟩
  · exact .inl ⟨a, b, s', onError_of_ok hm, onError_of_ok hn, hab⟩
  · exact .inr ⟨e, r s', onError_of_error hm, onError_of_error hn⟩

/-- Loops over lists that are related to a third one and stay so. -/
theorem collect {R : α → γ → β → Prop} {f : α → Prog σ ε α} {g : β → Prog σ ε β}
    (hfg : ∀ a c b, R a c b → Related (fun a' b' => R a' c b') (f a) (g b))
    {as : List α} {cs : List γ} {bs : List β} (h : Forall₃ R as cs bs) :
    Related (fun as' bs' => Forall₃ R as' cs bs') (Prog.collect f as) (Prog.collect g bs) := by
  induction h with
  | nil => exact .pure .nil
  | cons hhead _ ih =>
    exact (hfg _ _ _ hhead).bind fun _ _ hhead' => ih.bind fun _ _ htail' =>
      .pure (.cons hhead' htail')

lemma loop {out : ε} {f : α → Prog σ ε (α ⊕ γ)} {g : β → Prog σ ε (β ⊕ δ)}
    (hfg : ∀ a b, R a b → Related (Sum.LiftRel R Q) (f a) (g b)) :
    ∀ fuel a b, R a b → Related Q (Prog.loop out f fuel a) (Prog.loop out g fuel b)
  | 0, _, _, _ => .raise out
  | fuel + 1, a, b, hab => (hfg a b hab).bind fun r r' hr => by
    cases hr with
    | inl hab' => exact loop hfg fuel _ _ hab'
    | inr hcd => exact .pure hcd

lemma symm (h : Related R m n) : Related (fun b a => R a b) n m := by
  intro s
  rcases h s with ⟨a, b, s', hm, hn, hab⟩ | ⟨e, s', hm, hn⟩
  · exact .inl ⟨b, a, s', hn, hm, hab⟩
  · exact .inr ⟨e, s', hn, hm⟩

/-- If one of them returns, so does the other. -/
theorem of_ok (h : Related R m n) {s s' : σ} {a : α} (hm : m.run s = (.ok a, s')) :
    ∃ b, n.run s = (.ok b, s') ∧ R a b := by
  rcases h s with ⟨a', b, s'', hm', hn, hab⟩ | ⟨e, s'', hm', -⟩
  · rw [hm, Prod.mk.injEq, Except.ok.injEq] at hm'
    obtain ⟨rfl, rfl⟩ := hm'
    exact ⟨b, hn, hab⟩
  · simp [hm] at hm'

end Related

end EasyDds.Prog
