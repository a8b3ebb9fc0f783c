import EasyDds.Dds.Filter.Factory

/-!
A filter whose predicates compare kinds that go together evaluates every sample without a failed
assertion.
-/

namespace EasyDds.Dds.Filter

open List Option Function

variable {F : Type}

/-- The kinds that a predicate may compare: those that `check_value_compatibility` accepts, with the
constants of an enumeration as numbers; for LIKE and MATCH one of them is a string. -/
def wellKinded (isPattern : Bool) (left right : ValueKind) : Bool :=
  checkValueCompatibility left right isPattern &&
    if isPattern then left = .string || right = .string
    else !(left = .enum && right = .string) && !(left = .string && right = .enum)

lemma wellKinded_comm (isPattern : Bool) (left right : ValueKind) :
    wellKinded isPattern left right = wellKinded isPattern right left := by
  cases isPattern <;> cases left <;> cases right <;> rfl

section Values

/-- A value is matched against the regular expression of the other one, which was made when that
operand became the right side of LIKE or MATCH. -/
theorem isLike_isSome (regexMatch : Text → Text → Bool) {v other : FilterValue F}
    (h : wellKinded true v.kind other.kind = true) (hregex : other.regularExpr.isSome = true) :
    (v.isLike regexMatch other).isSome = true := by
  rcases v with ⟨v, _, _⟩
  rcases other with ⟨w, _, _ | regex⟩
  · cases hregex
  · cases v <;> cases w <;> first | rfl | cases h

variable [LongDouble F]

lemma comparePromoted_unsigned {n : Nat} {b : Value F} (hnegative : b.isNegative.isSome = true)
    (hvalue : b.toUnsignedInteger.isSome = true) :
    ((Value.unsignedInteger n).comparePromoted b).isSome = true := by
  obtain ⟨negative, hnegative⟩ := isSome_iff_exists.mp hnegative
  obtain ⟨m, hvalue⟩ := isSome_iff_exists.mp hvalue
  cases negative <;> simp [Value.comparePromoted, hnegative, hvalue]

/-- Two constants are never compared, so one of the kinds is not that of a constant number. -/
theorem compare_isSome {a b : Value F} (h : wellKinded false a.kind b.kind = true)
    (hconst : a.kind ≠ .floatConst ∨ b.kind ≠ .floatConst) : (a.compare b).isSome = true := by
  cases a <;> cases b <;> first
    | rfl
    | exact comparePromoted_unsigned rfl rfl
    | exact isSome_map.trans (comparePromoted_unsigned rfl rfl)
    | exact absurd rfl (hconst.elim id id)
    | cases h

end Values

section Evaluation

variable {env : Env F} {s s' : Store F} {ps : List (Predicate F)} {p : Predicate F}

/-- The right side of LIKE and MATCH is marked as a regular expression and, once it has a value, has
been made one. -/
def Store.Ready (s : Store F) : Operand F → Prop
  | .field name => ∃ f, s.fields name = some f ∧ f.value.regularExprKind ≠ .none ∧
      (f.hasValue = true → f.value.regularExpr.isSome = true)
  | o => (s.get o).regularExpr.isSome = true

/-- What holds of the values of a filter whatever the kinds of its parameters are. -/
structure Sturdy (env : Env F) (s : Store F) (ps : List (Predicate F)) : Prop where
  /-- A field has the kind of its type. -/
  typed : ∀ name f, s.fields name = some f → f.value.kind = (env.fieldType name).kind
  /-- A field that is a regular expression has text. -/
  patterns : ∀ name f, s.fields name = some f → f.value.regularExprKind ≠ .none →
    f.value.kind = .char ∨ f.value.kind = .string
  listed : ∀ name ∈ s.fieldNames, (s.fields name).isSome = true
  /-- One of the sides is a field. -/
  sided : ∀ p ∈ ps, ∃ name, p.left = .field name ∨ p.right = .field name
  ready : ∀ p ∈ ps, p.op.isPattern = true → s.Ready p.right

def KindsFit (s : Store F) (ps : List (Predicate F)) : Prop :=
  ∀ p ∈ ps, wellKinded p.op.isPattern (s.kind p.left) (s.kind p.right) = true

lemma fieldType_kind_ne (t : FieldType) : t.kind ≠ .floatConst := by
  cases t <;> exact ValueKind.noConfusion

lemma Sturdy.kind_field_ne (h : Sturdy env s ps) (name : Text) :
    s.kind (.field name) ≠ .floatConst := by
  cases hfield : s.fields name with
  | none => simp [Store.kind, Store.get, hfield, FilterValue.kind, FilterValue.plain, Value.kind]
  | some f =>
    have hkind := h.typed name f hfield
    simp only [Store.kind, Store.get, hfield, map_some, getD_some, hkind]
    exact fieldType_kind_ne _

lemma patternText_isSome {v : Value F} (h : v.kind = .char ∨ v.kind = .string) :
    (FilterValue.patternText v).isSome = true := by
  cases v <;> first | rfl | (rcases h with h | h <;> cases h)

/-- The regular expression is made again where there is one. -/
theorem FilterValue.valueHasChanged_spec {v : FilterValue F}
    (h : v.regularExprKind ≠ .none → v.kind = .char ∨ v.kind = .string) :
    ∃ v', v.valueHasChanged = some v' ∧ v'.value = v.value ∧
      v'.regularExprKind = v.regularExprKind ∧
      (v.regularExprKind ≠ .none → v'.regularExpr.isSome = true) := by
  rw [FilterValue.valueHasChanged]
  by_cases hkind : v.regularExprKind = .none
  · exact ⟨v, if_pos hkind, rfl, rfl, fun hne => absurd hkind hne⟩
  · obtain ⟨text, htext⟩ := isSome_iff_exists.mp (patternText_isSome (h hkind))
    rw [if_neg hkind, htext]
    exact ⟨_, rfl, rfl, rfl, fun _ => rfl⟩

/-- The same where the assertion is compiled out. -/
theorem FilterValue.valueHasChangedUnchecked_spec (v : FilterValue F) :
    v.valueHasChangedUnchecked.value = v.value ∧
      v.valueHasChangedUnchecked.regularExprKind = v.regularExprKind ∧
      (v.regularExprKind ≠ .none ∨ v.regularExpr.isSome = true →
        v.valueHasChangedUnchecked.regularExpr.isSome = true) := by
  rw [FilterValue.valueHasChangedUnchecked, FilterValue.valueHasChanged]
  by_cases hkind : v.regularExprKind = .none
  · rw [if_pos hkind]
    exact ⟨rfl, rfl, fun h => h.resolve_left (absurd hkind)⟩
  · rw [if_neg hkind]
    cases FilterValue.patternText v.value <;> exact ⟨rfl, rfl, fun _ => rfl⟩

lemma FilterValue.asRegularExpression_spec (v : FilterValue F) {k : RegExpKind} (hk : k ≠ .none)
    (hasValue : Bool) : (v.asRegularExpression k hasValue).value = v.value ∧
      (v.asRegularExpression k hasValue).regularExprKind = k ∧
      (hasValue = true → (v.asRegularExpression k hasValue).regularExpr.isSome = true) := by
  cases hasValue with
  | false => exact ⟨rfl, rfl, Bool.noConfusion⟩
  | true =>
    obtain ⟨hvalue, hexpr, hmade⟩ :=
      FilterValue.valueHasChangedUnchecked_spec { v with regularExprKind := k }
    exact ⟨hvalue, hexpr, fun _ => hmade (.inl hk)⟩

lemma update_eq_some {f : FilterField F} {fields : Text → Option (FilterField F)} {name m : Text}
    {g : FilterField F} (h : Function.update fields name (some f) m = some g) :
    (m = name ∧ g = f) ∨ fields m = some g := by
  by_cases hm : m = name
  · subst hm
    rw [update_self] at h
    exact .inl ⟨rfl, (some.inj h).symm⟩
  · rw [update_of_ne hm] at h
    exact .inr h

/-- A field takes its value from a sample, and the filter stays as it is otherwise. -/
theorem setField_spec (hs : Sturdy env s ps) {name : Text} (hname : name ∈ s.fieldNames)
    {v : Value F} (hv : v.kind = (env.fieldType name).kind) :
    ∃ s', Expression.setField s name v = some s' ∧ Sturdy env s' ps ∧
      s'.fieldNames = s.fieldNames ∧ ∀ o, s'.kind o = s.kind o := by
  obtain ⟨f, hfield⟩ := isSome_iff_exists.mp (hs.listed name hname)
  have hkind := hs.typed name f hfield
  obtain ⟨w, hchanged, hvalue, hexpr, hmade⟩ :=
    FilterValue.valueHasChanged_spec (v := { f.value with value := v }) fun hne => by
      have htext := hs.patterns name f hfield hne
      rw [hkind, ← hv] at htext
      exact htext
  have hwkind : w.kind = (env.fieldType name).kind := by rw [FilterValue.kind, hvalue, hv]
  refine ⟨{ s with fields := Function.update s.fields name (some ⟨w, true⟩) }, ?_, ?_, rfl, ?_⟩
  · rw [Expression.setField, hfield, bind_eq_bind, bind_some, hchanged]
    rfl
  · refine ⟨fun m g hg => ?_, fun m g hg hne => ?_, fun m hm => ?_, hs.sided,
      fun p hp hpattern => ?_⟩
    · rcases update_eq_some hg with ⟨rfl, rfl⟩ | hold
      · exact hwkind
      · exact hs.typed m g hold
    · rcases update_eq_some hg with ⟨rfl, rfl⟩ | hold
      · rw [hwkind, ← hkind]
        exact hs.patterns m f hfield (hexpr ▸ hne)
      · exact hs.patterns m g hold hne
    · by_cases hsame : m = name
      · subst hsame
        simp
      · simpa [update_of_ne hsame] using hs.listed m hm
    · have hready := hs.ready p hp hpattern
      cases hside : p.right with
      | field m =>
        rw [hside] at hready
        obtain ⟨g, hg, hne, hmadeg⟩ := hready
        by_cases hsame : m = name
        · subst hsame
          obtain rfl := some.inj (hfield.symm.trans hg)
          exact ⟨⟨w, true⟩, by simp, hexpr ▸ hne, fun _ => hmade hne⟩
        · exact ⟨g, by simpa [update_of_ne hsame] using hg, hne, hmadeg⟩
      | constant v => rwa [hside] at hready
      | parameter index => rwa [hside] at hready
  · intro o
    cases o with
    | field m =>
      by_cases hsame : m = name
      · subst hsame
        simp [Store.kind, Store.get, hfield, hwkind, hkind]
      · simp [Store.kind, Store.get, update_of_ne hsame]
    | constant v => rfl
    | parameter index => rfl

lemma Condition.predicates_reset (c : Condition F) : c.reset.predicates = c.predicates := by
  induction c with
  | predicate p state => rfl
  | negation state decided child ih => exact ih
  | compound isAnd state decided left right ihl ihr =>
    rw [Condition.reset, Condition.predicates, Condition.predicates, ihl, ihr]

lemma Store.kind_resetFields (s : Store F) (o : Operand F) : s.resetFields.kind o = s.kind o := by
  cases o with
  | field name =>
    cases hfield : s.fields name <;> simp [Store.kind, Store.get, Store.resetFields, hfield]
  | constant v => rfl
  | parameter index => rfl

lemma Sturdy.resetFields (hs : Sturdy env s ps) : Sturdy env s.resetFields ps := by
  have hold : ∀ name g, s.resetFields.fields name = some g →
      ∃ f, s.fields name = some f ∧ g.value = f.value := by
    intro name g hg
    obtain ⟨f, hf, rfl⟩ := map_eq_some_iff.mp hg
    exact ⟨f, hf, rfl⟩
  refine ⟨fun name g hg => ?_, fun name g hg hne => ?_, fun name hname => ?_, hs.sided,
    fun p hp hpattern => ?_⟩
  · obtain ⟨f, hf, hvalue⟩ := hold name g hg
    rw [hvalue]
    exact hs.typed name f hf
  · obtain ⟨f, hf, hvalue⟩ := hold name g hg
    rw [hvalue] at hne ⊢
    exact hs.patterns name f hf hne
  · simpa [Store.resetFields] using hs.listed name hname
  · have hready := hs.ready p hp hpattern
    cases hside : p.right with
    | field name =>
      rw [hside] at hready
      obtain ⟨f, hf, hne, -⟩ := hready
      exact ⟨{ f with hasValue := false }, by simp [Store.resetFields, hf], hne, Bool.noConfusion⟩
    | constant v => rwa [hside] at hready
    | parameter index => rwa [hside] at hready

variable [LongDouble F]

lemma Predicate.holds_isSome (hs : Sturdy env s ps) (hkinds : KindsFit s ps) (hp : p ∈ ps)
    (hright : s.hasValue p.right = true) : (p.holds env s).isSome = true := by
  have hkind := hkinds p hp
  by_cases hpattern : p.op.isPattern = true
  · rw [hpattern] at hkind
    have hready := hs.ready p hp hpattern
    have hregex : (s.get p.right).regularExpr.isSome = true := by
      cases hside : p.right with
      | field name =>
        rw [hside] at hready hright
        obtain ⟨f, hfield, -, hmade⟩ := hready
        rw [Store.hasValue, hfield] at hright
        rw [Store.get, hfield]
        exact hmade hright
      | constant v => rwa [hside] at hready
      | parameter index => rwa [hside] at hready
    have hlike := isLike_isSome env.regexMatch hkind hregex
    rcases p with ⟨op, left, right⟩
    cases op <;> first | exact hlike | cases hpattern
  · rw [Bool.not_eq_true] at hpattern
    rw [hpattern] at hkind
    have hconst : s.kind p.left ≠ .floatConst ∨ s.kind p.right ≠ .floatConst := by
      obtain ⟨name, hleft | hright⟩ := hs.sided p hp
      · exact .inl (hleft ▸ hs.kind_field_ne name)
      · exact .inr (hright ▸ hs.kind_field_ne name)
    have hcompare := compare_isSome hkind hconst
    rcases p with ⟨op, left, right⟩
    cases op <;> first | exact isSome_map.trans hcompare | cases hpattern

/-- The conditions hear of every result. -/
theorem Condition.notify_isSome (hs : Sturdy env s ps) (hkinds : KindsFit s ps) (name : Text)
    {c : Condition F} (hc : ∀ p ∈ c.predicates, p ∈ ps) :
    ∃ c', c.notify env s name = some c' ∧ c'.predicates = c.predicates := by
  induction c with
  | predicate p state =>
    rw [Condition.notify]
    split
    case isTrue hvalues =>
      simp only [Bool.and_eq_true] at hvalues
      obtain ⟨b, hb⟩ := isSome_iff_exists.mp
        (Predicate.holds_isSome hs hkinds (hc p (mem_singleton_self p)) hvalues.2)
      rw [hb]
      exact ⟨_, rfl, rfl⟩
    case isFalse => exact ⟨_, rfl, rfl⟩
  | negation state decided child ih =>
    obtain ⟨child', hchild, hsame⟩ := ih hc
    rw [Condition.notify, hchild]
    exact ⟨_, rfl, hsame⟩
  | compound isAnd state decided left right ihl ihr =>
    obtain ⟨left', hleft, hsamel⟩ := ihl fun p hp => hc p (mem_append_left _ hp)
    obtain ⟨right', hright, hsamer⟩ := ihr fun p hp => hc p (mem_append_right _ hp)
    rw [Condition.notify, hleft, hright]
    refine ⟨_, rfl, ?_⟩
    rw [Condition.predicates, Condition.predicates, hsamel, hsamer]

lemma evaluateFields_isSome (sample : Sample env) {names : List Text} {root : Condition F}
    (hs : Sturdy env s ps) (hkinds : KindsFit s ps) (hnames : ∀ name ∈ names, name ∈ s.fieldNames)
    (hroot : ∀ p ∈ root.predicates, p ∈ ps) :
    (Expression.evaluateFields env sample names s root).isSome = true := by
  induction names generalizing s root with
  | nil => rfl
  | cons name names ih =>
    rw [Expression.evaluateFields]
    split
    case isFalse => rfl
    case isTrue =>
      cases hsample : sample name with
      | none => rfl
      | some v =>
        obtain ⟨s', hset, hs', hsame, hkind⟩ :=
          setField_spec hs (hnames name (mem_cons_self ..)) v.2
        have hkinds' : KindsFit s' ps := fun p hp => by
          rw [hkind, hkind]
          exact hkinds p hp
        obtain ⟨root', hnotify, hpredicates⟩ := Condition.notify_isSome hs' hkinds' name hroot
        simp only [hset, hnotify, bind_eq_bind, bind_some]
        refine ih hs' hkinds' (fun m hm => ?_) (fun p hp => hroot p (hpredicates ▸ hp))
        rw [hsame]
        exact hnames m (mem_cons_of_mem _ hm)

/-- A filter whose kinds fit evaluates every sample: each field takes a value of its own type, so
every predicate compares two kinds that have a comparison. -/
theorem Expression.evaluate_isSome {e : Expression F} (hs : Sturdy env e.store e.root.predicates)
    (hkinds : KindsFit e.store e.root.predicates) (sample : Sample env) :
    (e.evaluate env sample).isSome = true := by
  refine evaluateFields_isSome sample hs.resetFields (fun p hp => ?_)
    (fun _ hname => hname) fun p hp => ?_
  · rw [Store.kind_resetFields, Store.kind_resetFields]
    exact hkinds p hp
  · rwa [Condition.predicates_reset] at hp

end Evaluation

end EasyDds.Dds.Filter
