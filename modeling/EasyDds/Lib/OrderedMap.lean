import Mathlib.Data.List.Pairwise
import Mathlib.Order.Lattice
import Mathlib.Tactic.Common

/-!
Associative containers kept in key order, as `std::map` keeps them. The order of two keys is
that of their ranks in a linear order, so two different keys of one rank are equivalent.
-/

namespace EasyDds

open List Option

structure OrderedMap {κ ω : Type} [LinearOrder ω] (rank : κ → ω) (ν : Type) where
  entries : List (κ × ν)
  sorted : entries.Pairwise fun a b => rank a.1 < rank b.1

namespace OrderedMap

variable {κ ω ν : Type} [LinearOrder ω] {rank : κ → ω}

def empty : OrderedMap rank ν := ⟨[], .nil⟩

def insertEntry (rank : κ → ω) (e : κ × ν) : List (κ × ν) → List (κ × ν)
  | [] => [e]
  | d :: ds =>
    if rank e.1 < rank d.1 then e :: d :: ds
    else if rank d.1 < rank e.1 then d :: insertEntry rank e ds
    else d :: ds

variable {e : κ × ν} {ds : List (κ × ν)}

lemma mem_insertEntry {x : κ × ν} (h : x ∈ insertEntry rank e ds) : x = e ∨ x ∈ ds := by
  induction ds with
  | nil => simpa [insertEntry] using h
  | cons d ds ih =>
    simp only [insertEntry] at h
    split at h
    · simpa using h
    · split at h
      · rcases mem_cons.mp h with rfl | h
        · exact .inr (mem_cons_self ..)
        · exact (ih h).imp_right (mem_cons_of_mem _)
      · exact .inr h

/-- What is there stays. -/
theorem mem_insertEntry_of_mem {x : κ × ν} (h : x ∈ ds) : x ∈ insertEntry rank e ds := by
  induction ds with
  | nil => cases h
  | cons d ds ih =>
    rw [insertEntry]
    split
    · exact mem_cons_of_mem _ h
    · split
      · rcases mem_cons.mp h with rfl | h
        · exact mem_cons_self
        · exact mem_cons_of_mem _ (ih h)
      · exact h

lemma insertEntry_sorted (h : ds.Pairwise fun a b => rank a.1 < rank b.1) :
    (insertEntry rank e ds).Pairwise fun a b => rank a.1 < rank b.1 := by
  induction ds with
  | nil => simp [insertEntry]
  | cons d ds ih =>
    rw [pairwise_cons] at h
    simp only [insertEntry]
    split
    case isTrue hlt =>
      refine pairwise_cons.mpr ⟨?_, pairwise_cons.mpr h⟩
      intro x hx
      rcases mem_cons.mp hx with rfl | hx
      · exact hlt
      · exact lt_trans hlt (h.1 x hx)
    case isFalse =>
      split
      case isTrue hgt =>
        refine pairwise_cons.mpr ⟨?_, ih h.2⟩
        intro x hx
        rcases mem_insertEntry hx with rfl | hx
        · exact hgt
        · exact h.1 x hx
      case isFalse => exact pairwise_cons.mpr h

def emplace (m : OrderedMap rank ν) (e : κ × ν) : OrderedMap rank ν :=
  ⟨insertEntry rank e m.entries, insertEntry_sorted m.sorted⟩

def ofEntries (es : List (κ × ν)) : OrderedMap rank ν := es.foldl emplace empty

/-- A key above all the present ones goes to the end. -/
theorem insertEntry_append (h : ∀ d ∈ ds, rank d.1 < rank e.1) :
    insertEntry rank e ds = ds ++ [e] := by
  induction ds with
  | nil => rfl
  | cons d ds ih =>
    have hd : rank d.1 < rank e.1 := h d (mem_cons_self ..)
    have hds : ∀ x ∈ ds, rank x.1 < rank e.1 := fun x hx => h x (mem_cons_of_mem _ hx)
    simp only [insertEntry, if_neg (lt_asymm hd), if_pos hd, ih hds, cons_append]

@[ext] lemma ext {m n : OrderedMap rank ν} (h : m.entries = n.entries) : m = n := by
  cases m
  cases n
  simp_all

@[simp] lemma entries_empty : (empty : OrderedMap rank ν).entries = [] := rfl

@[simp] lemma entries_emplace (m : OrderedMap rank ν) (e : κ × ν) :
    (m.emplace e).entries = insertEntry rank e m.entries := rfl

lemma entries_foldl_emplace {es : List (κ × ν)} {m : OrderedMap rank ν}
    (h : (m.entries ++ es).Pairwise fun a b => rank a.1 < rank b.1) :
    (es.foldl emplace m).entries = m.entries ++ es := by
  induction es generalizing m with
  | nil => simp
  | cons e es ih =>
    have hbelow : ∀ d ∈ m.entries, rank d.1 < rank e.1 := fun d hd =>
      (pairwise_append.mp h).2.2 d hd e (mem_cons_self ..)
    have hentries : (m.emplace e).entries = m.entries ++ [e] := by
      rw [entries_emplace, insertEntry_append hbelow]
    rw [foldl_cons, ih, hentries, append_assoc, singleton_append]
    rw [hentries, append_assoc, singleton_append]
    exact h

/-- A map is rebuilt from its entries. -/
theorem ofEntries_entries (m : OrderedMap rank ν) : ofEntries m.entries = m := by
  ext1
  exact entries_foldl_emplace (m := empty) m.sorted

/-- Every entry of a rebuilt map is one of those that were inserted. -/
theorem mem_ofEntries {es : List (κ × ν)} (h : e ∈ (ofEntries es : OrderedMap rank ν).entries) :
    e ∈ es := by
  have hfold : ∀ (es : List (κ × ν)) (m : OrderedMap rank ν),
      e ∈ (es.foldl emplace m).entries → e ∈ m.entries ∨ e ∈ es := by
    intro es
    induction es with
    | nil => exact fun m h => .inl h
    | cons d es ih =>
      intro m h
      rcases ih (m.emplace d) h with h | h
      · rcases mem_insertEntry h with rfl | h
        · exact .inr (mem_cons_self ..)
        · exact .inl h
      · exact .inr (mem_cons_of_mem _ h)
  exact (hfold es empty h).resolve_left (by simp)

/-- Equivalent keys have one entry. -/
theorem eq_of_rank (m : OrderedMap rank ν) {d : κ × ν} (hd : d ∈ m.entries) (he : e ∈ m.entries)
    (h : rank d.1 = rank e.1) : d = e := by
  obtain ⟨entries, hsorted⟩ := m
  induction entries with
  | nil => exact absurd hd not_mem_nil
  | cons a as ih =>
    rw [pairwise_cons] at hsorted
    rcases mem_cons.mp hd with hd | hd <;> rcases mem_cons.mp he with he | he
    · rw [hd, he]
    · exact absurd (hd ▸ hsorted.1 e he) (h ▸ lt_irrefl _)
    · exact absurd (he ▸ hsorted.1 d hd) (h ▸ lt_irrefl _)
    · exact ih hsorted.2 hd he

/-- A key has one entry. -/
theorem eq_of_key (m : OrderedMap rank ν) {d : κ × ν} (hd : d ∈ m.entries) (he : e ∈ m.entries)
    (h : d.1 = e.1) : d = e :=
  m.eq_of_rank hd he (congrArg rank h)

section Lookup

def find? (m : OrderedMap rank ν) (k : κ) : Option ν :=
  (m.entries.find? fun e => decide (rank e.1 = rank k)).map Prod.snd

def modify (m : OrderedMap rank ν) (k : κ) (f : ν → ν) : OrderedMap rank ν where
  entries := m.entries.map fun e => if rank e.1 = rank k then (e.1, f e.2) else e
  sorted := by
    rw [pairwise_map]
    refine m.sorted.imp fun {a b} hab => ?_
    split <;> split <;> exact hab

variable {m : OrderedMap rank ν} {k : κ} {v : ν}

lemma find?_eq_some : m.find? k = some v ↔ ∃ e ∈ m.entries, rank e.1 = rank k ∧ e.2 = v := by
  rw [find?, map_eq_some_iff]
  constructor
  · rintro ⟨e, hfind, rfl⟩
    exact ⟨e, mem_of_find?_eq_some hfind, by simpa using find?_some hfind, rfl⟩
  · rintro ⟨e, he, hrank, rfl⟩
    cases hfind : m.entries.find? (fun e => decide (rank e.1 = rank k)) with
    | none => exact absurd hrank (by simpa using find?_eq_none.mp hfind e he)
    | some d =>
      have hd : rank d.1 = rank k := by simpa using find?_some hfind
      have hsame := m.eq_of_rank (mem_of_find?_eq_some hfind) he (hd.trans hrank.symm)
      exact ⟨d, rfl, by rw [hsame]⟩

lemma find?_eq_none : m.find? k = none ↔ ∀ e ∈ m.entries, rank e.1 ≠ rank k := by simp [find?]

lemma mem_insertEntry_iff {e x : κ × ν}
    (hnone : ∀ d ∈ ds, rank d.1 ≠ rank e.1) : x ∈ insertEntry rank e ds ↔ x = e ∨ x ∈ ds := by
  induction ds with
  | nil => simp [insertEntry]
  | cons d ds ih =>
    have hd := hnone d mem_cons_self
    have hrest := ih fun y hy => hnone y (mem_cons_of_mem _ hy)
    rw [insertEntry]
    split
    · exact mem_cons
    · rename_i hnlt
      rw [if_pos (lt_of_le_of_ne (le_of_not_gt hnlt) hd), mem_cons, hrest, mem_cons]
      exact or_left_comm

lemma length_emplace (hnone : m.find? k = none) :
    (m.emplace (k, v)).entries.length = m.entries.length + 1 := by
  have hinsert : ∀ ds : List (κ × ν), (∀ d ∈ ds, rank d.1 ≠ rank k) →
      (insertEntry rank (k, v) ds).length = ds.length + 1 := by
    intro ds
    induction ds with
    | nil => exact fun _ => rfl
    | cons d ds ih =>
      intro hne
      have hd := hne d mem_cons_self
      rw [insertEntry]
      split
      · rfl
      · rename_i hnlt
        rw [if_pos (lt_of_le_of_ne (le_of_not_gt hnlt) hd), length_cons,
          ih fun y hy => hne y (mem_cons_of_mem _ hy), length_cons]
  exact hinsert _ (find?_eq_none.mp hnone)

lemma find?_emplace (hnone : m.find? k = none) (k' : κ) :
    (m.emplace (k, v)).find? k' = if rank k' = rank k then some v else m.find? k' := by
  rw [find?_eq_none] at hnone
  have hmem : ∀ x, x ∈ (m.emplace (k, v)).entries ↔ x = (k, v) ∨ x ∈ m.entries :=
    fun x => mem_insertEntry_iff hnone
  split
  · rename_i hsame
    exact find?_eq_some.mpr ⟨(k, v), (hmem _).mpr (.inl rfl), hsame.symm, rfl⟩
  · rename_i hother
    ext u
    rw [find?_eq_some, find?_eq_some]
    constructor
    · rintro ⟨e, he, hrank, rfl⟩
      rcases (hmem e).mp he with rfl | he
      · exact absurd hrank.symm hother
      · exact ⟨e, he, hrank, rfl⟩
    · rintro ⟨e, he, hrank, rfl⟩
      exact ⟨e, (hmem e).mpr (.inr he), hrank, rfl⟩

lemma find?_modify (m : OrderedMap rank ν) (k : κ) (f : ν → ν) (k' : κ) :
    (m.modify k f).find? k' = if rank k' = rank k then (m.find? k').map f else m.find? k' := by
  have hkey : ∀ e : κ × ν, (if rank e.1 = rank k then (e.1, f e.2) else e).1 = e.1 := by
    intro e
    split <;> rfl
  rw [find?, modify, find?_map, Option.map_map]
  simp only [Function.comp_def, hkey]
  rw [find?]
  cases hfind : m.entries.find? (fun e => decide (rank e.1 = rank k')) with
  | none => simp
  | some e =>
    have he : rank e.1 = rank k' := by simpa using find?_some hfind
    simp only [map_some, he]
    split <;> rfl

end Lookup

end OrderedMap

end EasyDds
