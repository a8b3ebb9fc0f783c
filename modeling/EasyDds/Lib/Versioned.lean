import Mathlib.Logic.Function.Basic

/-!
Records that are rewritten while others read them piece by piece. A record is written only while its
version is withdrawn, and no version is given twice. A reader that finds the same version before and
after has seen pieces of one content, the one that was published under that version.
-/

namespace EasyDds

open Function

/-- The records, their versions, and what has been published under each version. -/
structure Versioned (κ ν β : Type) where
  version : κ → Option ν
  content : κ → β
  published : ν → Option β

namespace Versioned

variable {κ ν β : Type}

/-- A record with a version has the content that was published under it. -/
def Consistent (s : Versioned κ ν β) : Prop :=
  ∀ k v, s.version k = some v → s.published v = some (s.content k)

/-- A reader has found version `v` of a record and something in it that `P` says: the record is as
it was then, or that version is gone. -/
def Watches (s : Versioned κ ν β) (k : κ) (v : ν) (P : β → Prop) : Prop :=
  (s.version k = some v ∧ P (s.content k)) ∨ (s.version k ≠ some v ∧ s.published v ≠ none)

section Reading

variable {s : Versioned κ ν β} {k : κ} {v : ν} {P Q : β → Prop}

lemma watches_of_version (hv : s.version k = some v) (hP : P (s.content k)) :
    s.Watches k v P := .inl ⟨hv, hP⟩

/-- One more piece is read. -/
theorem Watches.read (hw : s.Watches k v P) (hQ : P (s.content k) → Q (s.content k)) :
    s.Watches k v Q := hw.imp_left fun h => ⟨h.1, hQ h.2⟩

/-- The version is found again: all the pieces are of what was published under it, since a version
that was withdrawn never comes back. -/
theorem Watches.check (hs : s.Consistent) (hw : s.Watches k v P) (hv : s.version k = some v) :
    ∃ b, s.published v = some b ∧ P b := by
  rcases hw with ⟨-, hP⟩ | ⟨hne, -⟩
  · exact ⟨s.content k, hs k v hv, hP⟩
  · exact absurd hv hne

end Reading

variable [DecidableEq κ] [DecidableEq ν]

inductive Step (s : Versioned κ ν β) : Versioned κ ν β → Prop
  | withdraw (k : κ) : Step s { s with version := Function.update s.version k none }
  | write (k : κ) (b : β) (h : s.version k = none) :
    Step s { s with content := Function.update s.content k b }
  | publish (k : κ) (v : ν) (h : s.version k = none) (hfresh : s.published v = none) : Step s
      { s with
        version := Function.update s.version k (some v)
        published := Function.update s.published v (some (s.content k)) }

variable {s s' : Versioned κ ν β} {k : κ} {v : ν} {P : β → Prop}

lemma Consistent.step (hs : s.Consistent) (h : s.Step s') : s'.Consistent := by
  intro k v hv
  cases h with
  | withdraw j =>
    by_cases hk : k = j
    · subst hk
      simp at hv
    · exact hs k v (by simpa [update_of_ne hk] using hv)
  | write j b hnone =>
    have hk : k ≠ j := by
      rintro rfl
      rw [hnone] at hv
      cases hv
    change s.published v = some (Function.update s.content j b k)
    rw [update_of_ne hk]
    exact hs k v hv
  | publish j u hnone hfresh =>
    change Function.update s.published u (some (s.content j)) v = some (s.content k)
    by_cases hk : k = j
    · subst hk
      obtain rfl : u = v := by simpa using hv
      exact update_self ..
    · have hold : s.version k = some v := by simpa [update_of_ne hk] using hv
      have hv' := hs k v hold
      rw [update_of_ne]
      · exact hv'
      · rintro rfl
        rw [hfresh] at hv'
        cases hv'

/-- What a reader has found stays found, or its version is gone for good: a record is written only
while it has no version. -/
theorem Watches.step (hs : s.Consistent) (hw : s.Watches k v P) (h : s.Step s') :
    s'.Watches k v P := by
  have hknown : s.published v ≠ none := by
    rcases hw with ⟨hv, -⟩ | ⟨-, hpublished⟩
    · rw [hs k v hv]
      exact Option.some_ne_none _
    · exact hpublished
  cases h with
  | withdraw j =>
    by_cases hk : k = j
    · subst hk
      exact .inr ⟨by simp, hknown⟩
    · simpa [Watches, update_of_ne hk] using hw
  | write j b hnone =>
    by_cases hk : k = j
    · subst hk
      exact .inr ⟨by simp [hnone], hknown⟩
    · simpa [Watches, update_of_ne hk] using hw
  | publish j u hnone hfresh =>
    have hne : u ≠ v := by
      rintro rfl
      exact hknown hfresh
    have hstill : Function.update s.published u (some (s.content j)) v ≠ none := by
      rwa [update_of_ne hne.symm]
    by_cases hk : k = j
    · subst hk
      exact .inr ⟨by simpa using hne, hstill⟩
    · rcases hw with ⟨hv, hP⟩ | ⟨hv, -⟩
      · exact .inl ⟨by simpa [update_of_ne hk] using hv, hP⟩
      · exact .inr ⟨by simpa [update_of_ne hk] using hv, hstill⟩

end Versioned

end EasyDds
