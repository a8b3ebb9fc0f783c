import EasyDds.Lib.Prog

/-!
Weakest preconditions: what a state has to satisfy for a computation to end, by return or by error,
as required.
-/

namespace EasyDds.Prog

variable {σ ε α β : Type}

def wp (m : Prog σ ε α) (post : α → σ → Prop) (fail : σ → Prop) (s : σ) : Prop :=
  match m.run s with
  | (.ok a, s') => post a s'
  | (.error _, s') => fail s'

variable {m : Prog σ ε α} {f : α → Prog σ ε β} {post post' : α → σ → Prop} {fail : σ → Prop} {s : σ}

@[simp] lemma wp_pure (a : α) : wp (pure a : Prog σ ε α) post fail s = post a s := rfl

@[simp] lemma wp_raise (e : ε) : wp (raise e : Prog σ ε α) post fail s = fail s := rfl

@[simp] lemma wp_modify (g : σ → σ) {post : Unit → σ → Prop} :
    wp (modify g : Prog σ ε Unit) post fail s = post () (g s) := rfl

@[simp] lemma wp_read_bind {f : σ → Prog σ ε β} {post : β → σ → Prop} :
    wp (read >>= f) post fail s = wp (f s) post fail s := rfl

@[simp] lemma wp_modify_bind (g : σ → σ) {f : Unit → Prog σ ε β} {post : β → σ → Prop} :
    wp (modify g >>= f) post fail s = wp (f ()) post fail (g s) := rfl

@[simp] lemma wp_pure_bind (a : α) {post : β → σ → Prop} :
    wp (pure a >>= f) post fail s = wp (f a) post fail s := rfl

lemma wp.bind {post : β → σ → Prop} (hm : wp m (fun a => wp (f a) post fail) fail s) :
    wp (m >>= f) post fail s := by
  rw [wp, run_bind]
  rw [wp] at hm
  rcases h : m.run s with ⟨_ | a, s'⟩ <;> rw [h] at hm <;> exact hm

lemma wp.mono (hm : wp m post fail s) (h : ∀ a s', post a s' → post' a s') : wp m post' fail s := by
  rw [wp] at hm ⊢
  rcases hrun : m.run s with ⟨_ | a, s'⟩ <;> rw [hrun] at hm
  · exact hm
  · exact h a s' hm

/-- As `wp.bind`, with the rest from what the first half is known to return with. -/
theorem wp.seq {post' : β → σ → Prop} (hm : wp m post fail s)
    (hf : ∀ a s', post a s' → wp (f a) post' fail s') : wp (m >>= f) post' fail s :=
  (hm.mono hf).bind

lemma wp.ite {p : Prop} [Decidable p] {n : Prog σ ε α} (hm : p → wp m post fail s)
    (hn : ¬p → wp n post fail s) : wp (if p then m else n) post fail s := by
  by_cases hp : p
  · rw [if_pos hp]
    exact hm hp
  · rw [if_neg hp]
    exact hn hp

/-- What holds however a computation ends holds of the state it leaves. -/
theorem wp.always {I : σ → Prop} (hm : wp m (fun _ => I) I s) : I (m.run s).2 := by
  rw [wp] at hm
  rcases h : m.run s with ⟨_ | a, s'⟩ <;> rw [h] at hm <;> exact hm

end EasyDds.Prog
