import EasyDds.Dds.Filter.Kinds

/-!
The store of an expression while it is converted. Fields keep the kinds of their types. A parameter
has the kind of its literal until a predicate compares it with an enumeration: from then on a text
is a number, also for the predicates that were built before.
-/

namespace EasyDds.Dds.Filter

open List Option Function

variable {F : Type} {o : Operand F}

structure Compared (F : Type) where
  op : OperationKind
  left : OperandNode F
  right : OperandNode F

def ConditionNode.compared : ConditionNode F → List (Compared F)
  | .comparison c => [⟨c.op, c.left, c.right⟩]
  | .between negated name op1 op2 =>
    let op : OperationKind := if negated then .greaterThan else .lessEqual
    [⟨op, .parameter op1, .field name⟩, ⟨op, .field name, .parameter op2⟩]
  | .not c => c.compared
  | .and left right | .or left right => left.compared ++ right.compared

namespace Compared

def Pairs (q : Compared F) (n : Nat) (name : Text) : Prop :=
  (q.left = .parameter (.index n) ∧ q.right = .field name) ∨
    (q.left = .field name ∧ q.right = .parameter (.index n))

def EnumUse (env : Env F) (q : Compared F) (n : Nat) : Prop :=
  ∃ name, q.Pairs n name ∧ (env.fieldType name).kind = .enum

def TextUse (env : Env F) (q : Compared F) (n : Nat) : Prop :=
  ∃ name, q.Pairs n name ∧ ((env.fieldType name).kind = .char ∨ (env.fieldType name).kind = .string)

lemma EnumUse.symm {env : Env F} {op op' : OperationKind} {left right : OperandNode F} {n : Nat}
    (h : EnumUse env ⟨op, left, right⟩ n) : EnumUse env ⟨op', right, left⟩ n := by
  obtain ⟨name, hpairs, henum⟩ := h
  exact ⟨name, hpairs.symm.imp And.symm And.symm, henum⟩

end Compared

def literalKind (env : Env F) (texts : List Text) (n : Nat) : Option ValueKind :=
  (texts[n]?.bind env.parseLiteralValue).map (·.value.kind)

def Store.parameter (s : Store F) (n : Nat) : Option (FilterValue F) := s.parameters[n]?.join

/-- A store of an expression under construction. `E` holds of the parameters that the expression
compares with enumerations. -/
structure Reached [LongDouble F] (env : Env F) (texts : List Text) (E : Nat → Prop) (s : Store F) :
    Prop where
  blank : ∀ name f, s.fields name = some f →
    f.value.value = (env.fieldType name).zero ∧ f.hasValue = false
  patterns : ∀ name f, s.fields name = some f → f.value.regularExprKind ≠ .none →
    f.value.kind = .char ∨ f.value.kind = .string
  listed : ∀ name ∈ s.fieldNames, (s.fields name).isSome = true
  length : s.parameters.length = texts.length
  origin : ∀ n v, s.parameter n = some v → ∃ k, literalKind env texts n = some k ∧
    (v.kind = k ∨ (E n ∧ k = .string ∧ v.kind = .signedInteger))

structure Evolves (s s' : Store F) : Prop where
  fields : ∀ name f, s.fields name = some f → ∃ f', s'.fields name = some f' ∧
    (f.value.regularExprKind ≠ .none → f'.value.regularExprKind ≠ .none)
  parameters : ∀ n v, s.parameter n = some v → ∃ v', s'.parameter n = some v' ∧
    (v'.kind = v.kind ∨ (v.kind = .string ∧ v'.kind = .signedInteger)) ∧
    (v.regularExpr.isSome = true → v'.regularExpr.isSome = true)

lemma Evolves.refl (s : Store F) : Evolves s s :=
  ⟨fun _ f h => ⟨f, h, id⟩, fun _ v h => ⟨v, h, .inl rfl, id⟩⟩

lemma Evolves.trans {s s' s'' : Store F} (h : Evolves s s') (h' : Evolves s' s'') :
    Evolves s s'' := by
  refine ⟨fun name f hf => ?_, fun n v hv => ?_⟩
  · obtain ⟨f', hf', hkind⟩ := h.fields name f hf
    obtain ⟨f'', hf'', hkind'⟩ := h'.fields name f' hf'
    exact ⟨f'', hf'', hkind' ∘ hkind⟩
  · obtain ⟨v', hv', hkind, hregex⟩ := h.parameters n v hv
    obtain ⟨v'', hv'', hkind', hregex'⟩ := h'.parameters n v' hv'
    refine ⟨v'', hv'', ?_, hregex' ∘ hregex⟩
    rcases hkind with hsame | ⟨hstring, hnumber⟩
    · rwa [hsame] at hkind'
    · rcases hkind' with hsame' | ⟨hstring', -⟩
      · exact .inr ⟨hstring, hsame'.trans hnumber⟩
      · rw [hnumber] at hstring'
        cases hstring'

def Points (s : Store F) : OperandNode F → Operand F → Prop
  | .field name, o => o = .field name ∧ (s.fields name).isSome = true
  | .parameter (.index n), o => o = .parameter n ∧ (s.parameter n).isSome = true
  | .parameter (.literal _), o => ∃ v, o = .constant v

lemma Points.evolves {s s' : Store F} {node : OperandNode F}
    (h : Points s node o) (hevolves : Evolves s s') : Points s' node o := by
  cases node with
  | field name =>
    obtain ⟨f, hf⟩ := isSome_iff_exists.mp h.2
    obtain ⟨f', hf', -⟩ := hevolves.fields name f hf
    exact ⟨h.1, isSome_iff_exists.mpr ⟨f', hf'⟩⟩
  | parameter p =>
    cases p with
    | index n =>
      obtain ⟨v, hv⟩ := isSome_iff_exists.mp h.2
      obtain ⟨v', hv', -⟩ := hevolves.parameters n v hv
      exact ⟨h.1, isSome_iff_exists.mpr ⟨v', hv'⟩⟩
    | literal l => exact h

structure Built (s : Store F) (q : Compared F) (p : Predicate F) : Prop where
  op_eq : p.op = q.op
  left : Points s q.left p.left
  right : Points s q.right p.right
  kinds : wellKinded p.op.isPattern (s.kind p.left) (s.kind p.right) = true
  ready : p.op.isPattern = true → s.Ready p.right

/-- The kinds that a predicate with a parameter compares: that of the field is fixed by its type, so
only that of the parameter can vary. -/
theorem Compared.Pairs.wellKinded_eq {s : Store F} {q : Compared F} {n : Nat} {name : Text}
    (h : q.Pairs n name) {k : ValueKind} (hfield : ∀ {o}, Points s (.field name) o → s.kind o = k)
    {isPattern : Bool} {left right : Operand F} (hleft : Points s q.left left)
    (hright : Points s q.right right) : wellKinded isPattern (s.kind left) (s.kind right) =
      wellKinded isPattern k (s.kind (.parameter n)) := by
  rcases h with ⟨hl, hr⟩ | ⟨hl, hr⟩
  all_goals
    rw [hl] at hleft
    rw [hr] at hright
  · rw [wellKinded_comm, hfield hright, hleft.1]
  · rw [hfield hleft, hright.1]

lemma wellKinded_enum {isPattern : Bool} {k : ValueKind} (h : wellKinded isPattern k .enum = true) :
    k ≠ .string := by
  rintro rfl
  cases isPattern <;> cases h

section Parameters

variable {s s' : Store F} {n m : Nat} {v : FilterValue F}

lemma Store.kind_parameter (h : s.parameter n = some v) : s.kind (.parameter n) = v.kind := by
  rw [Store.kind, Store.get]
  rw [Store.parameter] at h
  rw [h, getD_some]

def Store.setParameter (s : Store F) (n : Nat) (v : FilterValue F) : Store F :=
  { s with parameters := s.parameters.set n (some v) }

lemma Store.parameter_lt (h : s.parameter n = some v) : n < s.parameters.length := by
  by_contra hge
  rw [Store.parameter, getElem?_eq_none (Nat.le_of_not_lt hge)] at h
  cases h

lemma Store.parameter_setParameter_self (h : n < s.parameters.length) (v : FilterValue F) :
    (s.setParameter n v).parameter n = some v := by
  simp [Store.parameter, Store.setParameter, h]

lemma Store.parameter_setParameter_of_ne (h : m ≠ n) (v : FilterValue F) :
    (s.setParameter n v).parameter m = s.parameter m := by
  simp [Store.parameter, Store.setParameter, getElem?_set_ne h.symm]

end Parameters

section Conversion

variable [LongDouble F] {env : Env F} {texts : List Text} {E : Nat → Prop} {s s' : Store F}
  {n : Nat} {v w : FilterValue F}

lemma FieldType.kind_zero (t : FieldType) : (t.zero : Value F).kind = t.kind := by cases t <;> rfl

variable {name : Text}

lemma Reached.kind_field (hs : Reached env texts E s) (h : (s.fields name).isSome = true) :
    s.kind (.field name) = (env.fieldType name).kind := by
  obtain ⟨f, hf⟩ := isSome_iff_exists.mp h
  rw [Store.kind, Store.get, hf, map_some, getD_some, FilterValue.kind,
    (hs.blank name f hf).1, FieldType.kind_zero]

lemma emptyStore_reached : Reached env texts E (emptyStore texts : Store F) where
  blank := nofun
  patterns := nofun
  listed := nofun
  length := length_replicate
  origin n v h := by
    simp only [Store.parameter, emptyStore, getElem?_replicate] at h
    split at h <;> cases h

section Steps

variable (hs : Reached env texts E s)
include hs

/-- A parameter gets another value: the text of an enumerator becomes a number, everything else
keeps its kind. -/
theorem Reached.setParameter (hv : s.parameter n = some v)
    (hkind : w.kind = v.kind ∨ (E n ∧ v.kind = .string ∧ w.kind = .signedInteger))
    (hregex : v.regularExpr.isSome = true → w.regularExpr.isSome = true) :
    Reached env texts E (s.setParameter n w) ∧ Evolves s (s.setParameter n w) := by
  have hself := Store.parameter_setParameter_self (Store.parameter_lt hv) w
  refine ⟨⟨hs.blank, hs.patterns, hs.listed, ?_, fun m u hu => ?_⟩, ⟨fun _ f hf => ⟨f, hf, id⟩,
    fun m u hu => ?_⟩⟩
  · rw [Store.setParameter, length_set]
    exact hs.length
  · by_cases hm : m = n
    · subst hm
      obtain rfl := some.inj (hself.symm.trans hu)
      obtain ⟨k, hk, horigin⟩ := hs.origin m v hv
      refine ⟨k, hk, ?_⟩
      rcases hkind with hsame | ⟨henum, hstring, hnumber⟩
      · rwa [hsame]
      · rcases horigin with hliteral | ⟨-, -, hwas⟩
        · exact .inr ⟨henum, hliteral ▸ hstring, hnumber⟩
        · rw [hwas] at hstring
          cases hstring
    · rw [Store.parameter_setParameter_of_ne hm] at hu
      exact hs.origin m u hu
  · by_cases hm : m = n
    · subst hm
      obtain rfl := some.inj (hv.symm.trans hu)
      exact ⟨w, hself, hkind.imp id And.right, hregex⟩
    · exact ⟨u, by rwa [Store.parameter_setParameter_of_ne hm], .inl rfl, id⟩

lemma Reached.newParameter (hnone : s.parameter n = none)
    (hlt : n < s.parameters.length) (hkind : literalKind env texts n = some w.kind) :
    Reached env texts E (s.setParameter n w) ∧ Evolves s (s.setParameter n w) := by
  have hself := Store.parameter_setParameter_self hlt w
  refine ⟨⟨hs.blank, hs.patterns, hs.listed, ?_, fun m u hu => ?_⟩, ⟨fun _ f hf => ⟨f, hf, id⟩,
    fun m u hu => ?_⟩⟩
  · rw [Store.setParameter, length_set]
    exact hs.length
  · by_cases hm : m = n
    · subst hm
      obtain rfl := some.inj (hself.symm.trans hu)
      exact ⟨_, hkind, .inl rfl⟩
    · rw [Store.parameter_setParameter_of_ne hm] at hu
      exact hs.origin m u hu
  · have hm : m ≠ n := by
      rintro rfl
      rw [hnone] at hu
      cases hu
    exact ⟨u, by rwa [Store.parameter_setParameter_of_ne hm], .inl rfl, id⟩

lemma Reached.newField (hnone : s.fields name = none) :
    let s' := { s with
      fields := Function.update s.fields name (some ⟨.plain (env.fieldType name).zero, false⟩)
      fieldNames := s.fieldNames.orderedInsert (· ≤ ·) name }
    Reached env texts E s' ∧ Evolves s s' := by
  refine ⟨⟨fun m g hg => ?_, fun m g hg hne => ?_, fun m hm => ?_, hs.length, hs.origin⟩,
    ⟨fun m g hg => ?_, fun _ v hv => ⟨v, hv, .inl rfl, id⟩⟩⟩
  · rcases update_eq_some hg with ⟨rfl, rfl⟩ | hold
    · exact ⟨rfl, rfl⟩
    · exact hs.blank m g hold
  · rcases update_eq_some hg with ⟨rfl, rfl⟩ | hold
    · exact absurd rfl hne
    · exact hs.patterns m g hold hne
  · by_cases hsame : m = name
    · subst hsame
      simp
    · have hmem := ((mem_orderedInsert _).mp hm).resolve_left hsame
      simpa [update_of_ne hsame] using hs.listed m hmem
  · have hm : m ≠ name := by
      rintro rfl
      rw [hnone] at hg
      cases hg
    exact ⟨g, by simpa [update_of_ne hm] using hg, id⟩

/-- A field becomes the right side of LIKE or MATCH. Only its regular expression is new, so the
predicates that point to the field still find its kind. -/
theorem Reached.markField {f : FilterField F}
    (hf : s.fields name = some f) (hvalue : w.value = f.value.value)
    (hexpr : w.regularExprKind ≠ .none) (htext : f.value.kind = .char ∨ f.value.kind = .string) :
    let s' := { s with fields := Function.update s.fields name (some { f with value := w }) }
    Reached env texts E s' ∧ Evolves s s' := by
  have hkind : w.kind = f.value.kind := congrArg Value.kind hvalue
  refine ⟨⟨fun m g hg => ?_, fun m g hg hne => ?_, fun m hm => ?_, hs.length, hs.origin⟩,
    ⟨fun m g hg => ?_, fun _ v hv => ⟨v, hv, .inl rfl, id⟩⟩⟩
  · rcases update_eq_some hg with ⟨rfl, rfl⟩ | hold
    · exact ⟨hvalue.trans (hs.blank m f hf).1, (hs.blank m f hf).2⟩
    · exact hs.blank m g hold
  · rcases update_eq_some hg with ⟨rfl, rfl⟩ | hold
    · rwa [hkind]
    · exact hs.patterns m g hold hne
  · by_cases hsame : m = name
    · subst hsame
      simp
    · simpa [update_of_ne hsame] using hs.listed m hm
  · by_cases hsame : m = name
    · subst hsame
      exact ⟨{ f with value := w }, by simp, fun _ => hexpr⟩
    · exact ⟨g, by simpa [update_of_ne hsame] using hg, id⟩

lemma Reached.kind_of_points
    (h : Points s (.field name) o) : s.kind o = (env.fieldType name).kind := by
  obtain ⟨rfl, hsome⟩ := h
  exact hs.kind_field hsome

/-- A parameter is no text any more once a predicate compares it with an enumeration: a text would
not have passed the check of the kinds. -/
theorem Built.kind_of_enumUse {q : Compared F} {p : Predicate F}
    (hp : Built s q p) (huse : q.EnumUse env n) : s.kind (.parameter n) ≠ .string := by
  obtain ⟨name, hpairs, henum⟩ := huse
  have hkinds := hp.kinds
  rw [hpairs.wellKinded_eq hs.kind_of_points hp.left hp.right, henum, wellKinded_comm] at hkinds
  exact wellKinded_enum hkinds

end Steps

/-- What an operand is later. Operands keep their kinds but for one case: the text of a parameter
becomes the number of the enumerator it names. -/
theorem Evolves.kind (h : Evolves s s') (hs : Reached env texts E s) (hs' : Reached env texts E s')
    {node : OperandNode F} (hpoints : Points s node o) :
    s'.kind o = s.kind o ∨ ∃ n, node = .parameter (.index n) ∧ o = .parameter n ∧
      s.kind o = .string ∧ s'.kind o = .signedInteger := by
  cases node with
  | field name =>
    obtain ⟨rfl, hsome⟩ := hpoints
    obtain ⟨f, hf⟩ := isSome_iff_exists.mp hsome
    obtain ⟨f', hf', -⟩ := h.fields name f hf
    rw [hs.kind_field hsome, hs'.kind_field (isSome_iff_exists.mpr ⟨f', hf'⟩)]
    exact .inl rfl
  | parameter node =>
    cases node with
    | literal l =>
      obtain ⟨v, rfl⟩ := hpoints
      exact .inl rfl
    | index n =>
      obtain ⟨rfl, hsome⟩ := hpoints
      obtain ⟨v, hv⟩ := isSome_iff_exists.mp hsome
      obtain ⟨v', hv', hkind, -⟩ := h.parameters n v hv
      rw [Store.kind_parameter hv, Store.kind_parameter hv']
      exact hkind.imp id fun hchanged => ⟨n, rfl, rfl, hchanged⟩

end Conversion

end EasyDds.Dds.Filter
