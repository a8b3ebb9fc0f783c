import EasyDds.Dds.Filter.Updates

/-!
Updates that fail. The parameters are set from the last one down, with their old values saved on the
way; after a failure the old values are copied back from the failing parameter up. A parameter that
the expression does not mention is a null pointer.
-/

namespace EasyDds.Dds.Filter

open FilterValue List Option

open Prog

variable {F : Type} {olds : List (FilterValue F)} {w : FilterValue F}

section Values

variable {v w old : FilterValue F}

lemma valueHasChangedUnchecked_eq (v : FilterValue F) : v.valueHasChangedUnchecked =
      if v.regularExprKind = .none then v
      else
        let text := (patternText v.value).getD []
        { v with regularExpr := some (pattern v.regularExprKind text) } := by
  rw [valueHasChangedUnchecked, valueHasChanged]
  split
  case isTrue => rfl
  case isFalse => cases patternText v.value <;> rfl

/-- Two values that no predicate can tell apart. The regular expressions may differ where neither is
looked at. -/
structure Alike (v w : FilterValue F) : Prop where
  value : v.value = w.value
  regularExprKind : v.regularExprKind = w.regularExprKind
  regularExpr : v.regularExpr = w.regularExpr ∨
    (patternText v.value = none ∧ v.regularExpr.isSome = true ∧
      w.regularExpr.isSome = true)

lemma Alike.refl (v : FilterValue F) : Alike v v := ⟨rfl, rfl, .inl rfl⟩

/-- The regular expression is that of the value, unless an enumerator's number took the place of its
name. -/
def Fresh (v : FilterValue F) : Prop := Alike v.valueHasChangedUnchecked v

lemma fresh_of_eq (h : v.valueHasChangedUnchecked = v) : Fresh v := by
  rw [Fresh, h]
  exact .refl v

lemma fresh_valueHasChangedUnchecked (v : FilterValue F) : Fresh v.valueHasChangedUnchecked := by
  refine fresh_of_eq ?_
  rw [valueHasChangedUnchecked_eq v]
  split
  case isTrue h => rw [valueHasChangedUnchecked_eq, if_pos h]
  case isFalse h => rw [valueHasChangedUnchecked_eq, if_neg h]

/-- A saved value copied back over whatever `set_value` has put in its place is the value before,
with its regular expression made again. -/
theorem copyFrom_saved (hexpr : v.regularExprKind = .none → w.regularExpr = v.regularExpr) :
    w.copyFrom (old.copyFrom v true) true = v.valueHasChangedUnchecked := by
  have hcopy : (old.copyFrom v true).value = v.value ∧
      (old.copyFrom v true).regularExprKind = v.regularExprKind := by
    obtain ⟨hvalue, hsame, -⟩ := valueHasChangedUnchecked_spec
      { old with value := v.value, regularExprKind := v.regularExprKind }
    exact ⟨hvalue, hsame⟩
  rw [copyFrom, if_pos rfl, hcopy.1, hcopy.2, valueHasChangedUnchecked_eq,
    valueHasChangedUnchecked_eq]
  by_cases hnone : v.regularExprKind = .none
  · rw [if_pos hnone, if_pos hnone, hexpr hnone]
  · rw [if_neg hnone, if_neg hnone]

end Values

section Loops

variable {env : Env F} {regexValid : Text → Bool} {texts : List Text}
  {ps : List (Option (FilterValue F))} {s s' : UpdateState F} {n j : Nat}

/-- The update on its way down: the parameters below `n` are as they were, and the old values of
those from `n` on are saved. -/
structure Halfway (ps : List (Option (FilterValue F))) (n : Nat) (s : UpdateState F) : Prop where
  length : s.parameters.length = ps.length
  saved : s.oldValues.length = ps.length
  below : ∀ i < n, s.parameters[i]?.join = ps[i]?.join
  unused : ∀ i, n ≤ i → ps[i]?.join = none → s.parameters[i]?.join = none
  used : ∀ i v, n ≤ i → ps[i]?.join = some v → ∃ w, s.parameters[i]?.join = some w ∧
    (v.regularExprKind = .none → w.regularExpr = v.regularExpr) ∧
    ∃ old : FilterValue F, s.oldValues[i]? = some (old.copyFrom v true)

/-- What makes the update fail at `j`: the literal of this parameter does not parse, and those of
the parameters above do. -/
structure FailsAt (env : Env F) (regexValid : Text → Bool) (texts : List Text)
    (ps : List (Option (FilterValue F))) (j : Nat) : Prop where
  enough : ps.length ≤ texts.length
  refused : ∃ v, ps[j]?.join = some v ∧ texts[j]?.bind (setValue env v) = none
  above : ∀ i v, j < i → ps[i]?.join = some v →
    ∃ w, texts[i]?.bind (setValue env v) = some w ∧ accepted regexValid w = true

variable {v : FilterValue F} {e : Expression F}

lemma setValue_keeps {text : Text} (h : setValue env v text = some w) :
    v.regularExprKind = .none → w.regularExpr = v.regularExpr := by
  obtain ⟨l, -, heq⟩ := bind_eq_some_iff.mp h
  obtain rfl := some.inj heq
  rw [valueHasChangedUnchecked_eq]
  split
  case isTrue => exact fun _ => rfl
  case isFalse hne => exact fun hnone => absurd hnone hne

lemma Halfway.save (h : Halfway ps (n + 1) s) {w old : FilterValue F} (hv : ps[n]?.join = some v)
    (hexpr : v.regularExprKind = .none → w.regularExpr = v.regularExpr)
    (hw : s'.parameters[n]?.join = some w)
    (hothers : ∀ i ≠ n, s'.parameters[i]?.join = s.parameters[i]?.join)
    (hlength : s'.parameters.length = s.parameters.length)
    (hsaved : s'.oldValues = s.oldValues.set n (old.copyFrom v true)) : Halfway ps n s' := by
  refine ⟨hlength.trans h.length, ?_, fun i hi => ?_, fun i hi hnone => ?_, fun i u hi hu => ?_⟩
  · rw [hsaved, length_set, h.saved]
  · rw [hothers i (Nat.ne_of_lt hi), h.below i (Nat.lt_succ_of_lt hi)]
  · have hne : i ≠ n := by
      rintro rfl
      rw [hv] at hnone
      cases hnone
    rw [hothers i hne]
    exact h.unused i (by omega) hnone
  · by_cases hne : i = n
    · subst hne
      obtain rfl := some.inj (hv.symm.trans hu)
      refine ⟨w, hw, hexpr, old, ?_⟩
      rw [hsaved, getElem?_set_self]
      rw [h.saved]
      exact lt_length_of_join hv
    · obtain ⟨w', hw', hexpr', old', hold'⟩ := h.used i u (by omega) hu
      refine ⟨w', (hothers i hne).trans hw', hexpr', old', ?_⟩
      rw [hsaved, getElem?_set_ne (Ne.symm hne), hold']

/-- The way down from `n` to the parameter that fails. -/
theorem setDown_failsAt (hfail : FailsAt env regexValid texts ps j) (hj : j < n)
    (h : Halfway ps n s) :
    ∃ s', setDown env regexValid texts n s = .failed j s' ∧ Halfway ps j s' := by
  induction n generalizing s with
  | zero => exact absurd hj (Nat.not_lt_zero j)
  | succ n ih =>
    have hsame := h.below n (Nat.lt_succ_self n)
    rw [setDown]
    cases hv : ps[n]?.join with
    | none =>
      have hne : n ≠ j := by
        rintro rfl
        obtain ⟨v, hused, -⟩ := hfail.refused
        rw [hv] at hused
        cases hused
      rw [hsame, hv]
      refine ih (by omega) ⟨h.length, h.saved, fun i hi => h.below i (by omega),
        fun i hi hnone => ?_,
        fun i u hi hu => ?_⟩
      · by_cases hin : i = n
        · rw [hin, hsame, hv]
        · exact h.unused i (by omega) hnone
      · have hin : i ≠ n := by
          rintro rfl
          rw [hv] at hu
          cases hu
        exact h.used i u (by omega) hu
    | some v =>
      simp only [hsame, hv]
      have hlt : n < s.parameters.length := by
        rw [h.length]
        exact lt_length_of_join hv
      by_cases hnj : n = j
      · subst hnj
        obtain ⟨v', hv', hnone⟩ := hfail.refused
        obtain rfl := some.inj (hv.symm.trans hv')
        rw [hnone]
        exact ⟨_, rfl, h.save hv (fun _ => rfl) (hsame.trans hv) (fun _ _ => rfl) rfl rfl⟩
      · obtain ⟨w, hw, haccepted⟩ := hfail.above n v (by omega) hv
        simp only [hw, haccepted, if_true]
        obtain ⟨text, -, hset⟩ := bind_eq_some_iff.mp hw
        exact ih (by omega) (h.save hv (setValue_keeps hset) (join_set_self hlt)
          (fun i hi => join_set_of_ne hi) length_set rfl)

/-- The way up again stops at the first parameter that is not there, since it follows every pointer
from the failing parameter on. -/
theorem restoreUp_isSome_iff {k : Nat} (holds : n + k ≤ olds.length) :
    (restoreUp olds k n ps).isSome = true ↔
      ∀ i, n ≤ i → i < n + k → (ps[i]?.join).isSome = true := by
  induction k generalizing n ps with
  | zero => exact ⟨fun _ i hle hlt => absurd hlt (by omega), fun _ => rfl⟩
  | succ k ih =>
    have hold : olds[n]? = some olds[n] := getElem?_eq_getElem (by omega)
    rw [restoreUp, hold]
    cases hv : ps[n]?.join with
    | none =>
      refine ⟨fun h => absurd h Bool.false_ne_true, fun h => ?_⟩
      have hsome := h n (Nat.le_refl n) (by omega)
      rw [hv] at hsome
      cases hsome
    | some v =>
      refine (ih (by omega)).trans ⟨fun h i hle hlt => ?_, fun h i hle hlt => ?_⟩
      · by_cases hin : i = n
        · rw [hin, hv]
          rfl
        · rw [← join_set_of_ne hin]
          exact h i (by omega) (by omega)
      · rw [join_set_of_ne (by omega)]
        exact h i (by omega) (by omega)

lemma restoreUp_spec {k : Nat} {ps' : List (Option (FilterValue F))}
    (h : restoreUp olds k n ps = some ps') :
    ps'.length = ps.length ∧ (∀ i, i < n ∨ n + k ≤ i → ps'[i]?.join = ps[i]?.join) ∧
      ∀ i, n ≤ i → i < n + k → ∃ w old, ps[i]?.join = some w ∧ olds[i]? = some old ∧
        ps'[i]?.join = some (w.copyFrom old true) := by
  induction k generalizing n ps with
  | zero =>
    obtain rfl := some.inj h
    exact ⟨rfl, fun _ _ => rfl, fun i hle hlt => absurd hlt (by omega)⟩
  | succ k ih =>
    rw [restoreUp] at h
    split at h
    case h_2 => cases h
    case h_1 v old hv hold =>
      obtain ⟨hlength, houter, hinner⟩ := ih h
      refine ⟨by rw [hlength, length_set], fun i hi => ?_, fun i hle hlt => ?_⟩
      · rw [houter i (by omega), join_set_of_ne (by omega)]
      · by_cases hin : i = n
        · subst hin
          refine ⟨v, old, hv, hold, ?_⟩
          rw [houter i (by omega), join_set_self (lt_length_of_join hv)]
        · obtain ⟨w, old', hw, hold', hps'⟩ := hinner i (by omega) (by omega)
          rw [join_set_of_ne hin] at hw
          exact ⟨w, old', hw, hold', hps'⟩

def Restored (ps ps' : List (Option (FilterValue F))) : Prop :=
  ps'.length = ps.length ∧ ∀ i : Nat, ps'[i]?.join = ps[i]?.join ∨
    ps'[i]?.join = (ps[i]?.join).map valueHasChangedUnchecked

variable (hfail : FailsAt env regexValid texts e.store.parameters j)
include hfail

lemma changeParameters_failsAt :
    ∃ s, Halfway e.store.parameters j s ∧ changeParameters env regexValid texts e =
      match restoreUp s.oldValues (e.store.parameters.length - j) j s.parameters with
      | some ps' => .badParameter (e.withParameters ps')
      | none => .nullAccess := by
  obtain ⟨v, hv, -⟩ := hfail.refused
  have hstart : Halfway e.store.parameters e.store.parameters.length
      ⟨e.store.parameters, replicate e.store.parameters.length (.plain (.string []))⟩ := by
    refine ⟨rfl, length_replicate, fun _ _ => rfl, fun _ _ h => h, fun i u hi hu => ?_⟩
    exact absurd (lt_length_of_join hu) (Nat.not_lt.mpr hi)
  obtain ⟨s, hdown, hhalf⟩ := setDown_failsAt hfail (lt_length_of_join hv) hstart
  refine ⟨s, hhalf, ?_⟩
  rw [changeParameters, if_neg (Nat.not_lt.mpr hfail.enough)]
  exact hdown ▸ rfl

/-- It ends with a return code if no parameter above the failing one is a null pointer: the way down
passes over null pointers, and the way up does not. -/
theorem changeParameters_badParameter_iff :
    (∃ e', changeParameters env regexValid texts e = .badParameter e') ↔
      ∀ i, j < i → i < e.store.parameters.length → (e.store.parameter i).isSome = true := by
  obtain ⟨s, hhalf, hupdate⟩ := changeParameters_failsAt hfail
  obtain ⟨v, hv, -⟩ := hfail.refused
  have hj := lt_length_of_join hv
  have hrange : j + (e.store.parameters.length - j) = e.store.parameters.length := by omega
  have hsame : ∀ i, j ≤ i →
      (s.parameters[i]?.join).isSome = (e.store.parameters[i]?.join).isSome := by
    intro i hi
    cases hu : e.store.parameters[i]?.join with
    | none => rw [hhalf.unused i hi hu]
    | some u =>
      obtain ⟨w, hw, -⟩ := hhalf.used i u hi hu
      rw [hw]
      rfl
  have hreturns : (∃ e', changeParameters env regexValid texts e = .badParameter e') ↔
      (restoreUp s.oldValues (e.store.parameters.length - j) j s.parameters).isSome = true := by
    rw [hupdate]
    cases restoreUp s.oldValues (e.store.parameters.length - j) j s.parameters with
    | none => simp
    | some ps' => simp
  rw [hreturns, restoreUp_isSome_iff (by rw [hhalf.saved]; omega), hrange]
  constructor
  · intro h i hi hlt
    rw [Store.parameter, ← hsame i (by omega)]
    exact h i (by omega) hlt
  · intro h i hi hlt
    rw [hsame i hi]
    by_cases hij : i = j
    · rw [hij, hv]
      rfl
    · exact h i (by omega) hlt

/-- Then the parameters are what they were. -/
theorem changeParameters_restored {e' : Expression F}
    (h : changeParameters env regexValid texts e = .badParameter e') :
    ∃ ps', e' = e.withParameters ps' ∧ Restored e.store.parameters ps' := by
  obtain ⟨s, hhalf, hupdate⟩ := changeParameters_failsAt hfail
  rw [hupdate] at h
  cases hrestore : restoreUp s.oldValues (e.store.parameters.length - j) j s.parameters with
  | none =>
    rw [hrestore] at h
    cases h
  | some ps' =>
    rw [hrestore] at h
    cases h
    obtain ⟨hlength, houter, hinner⟩ := restoreUp_spec hrestore
    refine ⟨ps', rfl, hlength.trans hhalf.length, fun i => ?_⟩
    by_cases hin : j ≤ i ∧ i < j + (e.store.parameters.length - j)
    · obtain ⟨w, old, hw, hold, hps'⟩ := hinner i hin.1 hin.2
      right
      cases hu : e.store.parameters[i]?.join with
      | none =>
        rw [hhalf.unused i hin.1 hu] at hw
        cases hw
      | some u =>
        obtain ⟨w', hw', hexpr, old', hold'⟩ := hhalf.used i u hin.1 hu
        obtain rfl := some.inj (hw.symm.trans hw')
        obtain rfl := some.inj (hold.symm.trans hold')
        rw [hps', copyFrom_saved hexpr, map_some]
    · left
      rw [houter i (by omega)]
      by_cases hlt : i < j
      · exact hhalf.below i hlt
      · rw [getElem?_eq_none (by rw [hhalf.length]; omega), getElem?_eq_none (by omega)]

end Loops

section Samples

variable {env : Env F} {s s' : Store F}

/-- Two stores that differ at most in regular expressions nobody looks at. -/
structure Indistinct (s s' : Store F) : Prop where
  fields : s'.fields = s.fields
  fieldNames : s'.fieldNames = s.fieldNames
  parameters : ∀ n, Alike (s.get (.parameter n)) (s'.get (.parameter n))

lemma Indistinct.get (h : Indistinct s s') (o : Operand F) : Alike (s.get o) (s'.get o) := by
  cases o with
  | constant v => exact .refl v
  | field name =>
    rw [Store.get, Store.get, h.fields]
    exact .refl _
  | parameter n => exact h.parameters n

lemma Indistinct.hasValue (h : Indistinct s s') (o : Operand F) : s'.hasValue o = s.hasValue o := by
  cases o with
  | constant v => rfl
  | field name => rw [Store.hasValue, Store.hasValue, h.fields]
  | parameter n => rfl

lemma Indistinct.setField (h : Indistinct s s') (name : Text) (v : Value F) :
    (Expression.setField s name v = none ∧ Expression.setField s' name v = none) ∨
      ∃ t t', Expression.setField s name v = some t ∧ Expression.setField s' name v = some t' ∧
        Indistinct t t' := by
  rw [Expression.setField, Expression.setField, h.fields]
  cases hfield : s.fields name with
  | none => exact .inl ⟨rfl, rfl⟩
  | some f =>
    cases hvalue : valueHasChanged { f.value with value := v } with
    | none =>
      left
      simp [hvalue]
    | some w =>
      simp only [bind_eq_bind, bind_some, hvalue]
      exact .inr ⟨_, _, rfl, rfl, rfl, h.fieldNames, h.parameters⟩

lemma Alike.isLike {v v' w w' : FilterValue F} (hv : Alike v v') (hw : Alike w w')
    (regexMatch : Text → Text → Bool) : v'.isLike regexMatch w' = v.isLike regexMatch w := by
  rw [FilterValue.isLike, FilterValue.isLike, ← hv.value, ← hw.value]
  rcases hw.regularExpr with hsame | ⟨hnone, hsome, hsome'⟩
  · rw [hsame]
  · -- Whatever the regular expressions are, a value without text is not matched.
    obtain ⟨r, hr⟩ := isSome_iff_exists.mp hsome
    obtain ⟨r', hr'⟩ := isSome_iff_exists.mp hsome'
    rw [hr, hr']
    cases hvalue : w.value <;> rw [hvalue] at hnone <;> first
      | (cases v.value <;> rfl)
      | cases hnone

variable [LongDouble F]

lemma Indistinct.holds (h : Indistinct s s') (p : Predicate F) :
    p.holds env s' = p.holds env s := by
  have hleft := h.get p.left
  have hright := h.get p.right
  rw [Predicate.holds, Predicate.holds]
  cases p.op <;> first
    | exact hleft.isLike hright env.regexMatch
    | simp only [hleft.value, hright.value]

lemma Indistinct.notify (h : Indistinct s s') (name : Text) (c : Condition F) :
    c.notify env s' name = c.notify env s name := by
  induction c with
  | predicate p state =>
    rw [Condition.notify, Condition.notify, h.hasValue, h.hasValue, h.holds]
  | negation state decided child ih => rw [Condition.notify, Condition.notify, ih]
  | compound isAnd state decided left right ihl ihr =>
    rw [Condition.notify, Condition.notify, ihl, ihr]

lemma Indistinct.evaluateFields (sample : Sample env) {names : List Text} {root : Condition F}
    (h : Indistinct s s') : Expression.evaluateFields env sample names s' root =
      Expression.evaluateFields env sample names s root := by
  induction names generalizing s s' root with
  | nil => rfl
  | cons name names ih =>
    rw [Expression.evaluateFields, Expression.evaluateFields]
    cases sample name with
    | none => rfl
    | some v =>
      rcases h.setField name v with ⟨hnone, hnone'⟩ | ⟨t, t', hsome, hsome', ht⟩
      · simp only [hnone, hnone']
      · simp only [hsome, hsome', bind_eq_bind, bind_some, ht.notify]
        cases root.notify env t name with
        | none => rfl
        | some root' => simp only [bind_some, ih ht]

/-- The filter accepts the same samples with either store, as no predicate looks at what they differ
in. -/
theorem Indistinct.evaluate {e e' : Expression F} (h : Indistinct e.store e'.store)
    (hroot : e'.root = e.root) (sample : Sample env) :
    e'.evaluate env sample = e.evaluate env sample := by
  have hreset : Indistinct e.store.resetFields e'.store.resetFields := by
    refine ⟨?_, h.fieldNames, h.parameters⟩
    rw [Store.resetFields, Store.resetFields, h.fields]
  rw [Expression.evaluate, Expression.evaluate, h.fieldNames, hroot, hreset.evaluateFields]

end Samples

section Freshness

variable {env : Env F} {regexValid : Text → Bool} {texts : List Text} {node : ConditionNode F}

def FreshParameters (ps : List (Option (FilterValue F))) : Prop :=
  ∀ (n : Nat) v, ps[n]?.join = some v → Fresh v

variable {v : FilterValue F} {e : Expression F}

lemma FreshParameters.set {ps : List (Option (FilterValue F))} (h : FreshParameters ps)
    (hv : Fresh v) (n : Nat) : FreshParameters (ps.set n (some v)) := by
  intro m w hw
  by_cases hm : m = n
  · subst hm
    have hlt := lt_length_of_join hw
    rw [length_set] at hlt
    rw [join_set_self hlt] at hw
    exact some.inj hw ▸ hv
  · rw [join_set_of_ne hm] at hw
    exact h m w hw

lemma fresh_plain (v : Value F) : Fresh (plain v) := fresh_of_eq rfl

lemma FreshParameters.get {s : Store F} (h : FreshParameters s.parameters) (n : Nat) :
    Fresh (s.get (.parameter n)) := by
  rw [Store.get]
  cases hv : s.parameters[n]?.join with
  | none => exact fresh_plain _
  | some v => exact h n v hv

lemma Fresh.enumerator (h : Fresh v) (i : Int) :
    Fresh ({ v with value := .signedInteger i } : FilterValue F) := by
  rw [Fresh, valueHasChangedUnchecked_eq]
  split
  case isTrue => exact .refl _
  case isFalse hne =>
    refine ⟨rfl, rfl, .inr ⟨rfl, rfl, ?_⟩⟩
    have hmade := h.regularExpr
    rw [valueHasChangedUnchecked_eq, if_neg hne] at hmade
    rcases hmade with hsame | ⟨-, -, hsome⟩
    · exact hsame ▸ rfl
    · exact hsome

lemma put_fresh {o : Operand F} {s : Store F}
    (hs : FreshParameters s.parameters) (hw : ∀ n, o = .parameter n → Fresh w) :
    FreshParameters ((put o w).run s).2.parameters := by
  cases o with
  | constant v => exact hs
  | field name => exact hs
  | parameter n => exact hs.set (hw n rfl) n

abbrev KeepsFresh {ε α : Type} (m : Prog (Store F) ε α) : Prop :=
  Maintains (fun s => FreshParameters s.parameters) m

lemma transformEnum_fresh (t : EnumType) (o : Operand F) :
    KeepsFresh (transformEnum t o) := by
  intro s hs
  rw [transformEnum, run_read_bind]
  cases hvalue : (s.get o).value with
  | string name =>
    cases hlookup : t.literals.lookup name with
    | none =>
      simp only [hvalue, hlookup]
      exact hs
    | some i =>
      simp only [hvalue, hlookup]
      refine put_fresh hs fun n hn => ?_
      subst hn
      exact (hs.get n).enumerator i
  | _ =>
    simp only [hvalue]
    exact hs

lemma transformEnums_fresh (left right : Operand F) (leftNode rightNode : OperandNode F) :
    KeepsFresh (transformEnums env left leftNode right rightNode) := by
  refine Maintains.read.bind fun s => ?_
  split
  · split
    · exact (transformEnum_fresh _ _).bind fun _ => .pure _
    · exact .raise _
  · split
    · split
      · exact (transformEnum_fresh _ _).bind fun _ => .pure _
      · exact .raise _
    · exact .pure _

lemma makePredicate_fresh (op : OperationKind) (left right : Operand F) :
    KeepsFresh (makePredicate op left right) := by
  intro s hs
  rw [makePredicate]
  split
  case isFalse => exact hs
  case isTrue =>
    rw [run_read_bind, run_bind]
    have hput := put_fresh (o := right)
      (w := (s.get right).asRegularExpression (if op = .like then .like else .matches)
        (s.hasValue right)) hs fun n hn => by
        subst hn
        exact fresh_valueHasChangedUnchecked _
    rcases hrun : (put right ((s.get right).asRegularExpression
      (if op = .like then .like else .matches) (s.hasValue right))).run s with ⟨_ | p, s'⟩
    · rw [hrun] at hput
      exact hput
    · rw [hrun] at hput
      exact hput

lemma Restored.indistinct {ps' : List (Option (FilterValue F))}
    (h : Restored e.store.parameters ps') (hfresh : FreshParameters e.store.parameters) :
    Indistinct e.store (e.withParameters ps').store := by
  refine ⟨rfl, rfl, fun n => ?_⟩
  have hnew : (e.withParameters ps').store.get (.parameter n) =
      (ps'[n]?.join).getD (.plain (.string [])) := rfl
  rw [hnew, Store.get]
  rcases h.2 n with hsame | hremade
  · rw [hsame]
    exact .refl _
  · rw [hremade]
    cases hv : e.store.parameters[n]?.join with
    | none => exact .refl _
    | some v =>
      obtain ⟨hvalue, hkind, hexpr⟩ := hfresh n v hv
      refine ⟨hvalue.symm, hkind.symm, hexpr.imp Eq.symm fun h => ?_⟩
      exact ⟨hvalue ▸ h.1, h.2.2, h.2.1⟩

lemma setValue_fresh {text : Text} (h : setValue env v text = some w) : Fresh w := by
  obtain ⟨l, -, heq⟩ := bind_eq_some_iff.mp h
  obtain rfl := some.inj heq
  exact fresh_valueHasChangedUnchecked _

variable (env regexValid texts) in
lemma setDown_fresh {n : Nat} {s : UpdateState F} (hs : FreshParameters s.parameters) :
    (∀ s', setDown env regexValid texts n s = .finished s' → FreshParameters s'.parameters) ∧
      ∀ j s', setDown env regexValid texts n s = .failed j s' → FreshParameters s'.parameters := by
  induction n generalizing s with
  | zero =>
    constructor
    · intro _ h
      cases h
      exact hs
    · intro _ _ h
      cases h
  | succ n ih =>
    rw [setDown]
    cases s.parameters[n]?.join with
    | none => exact ih hs
    | some v =>
      cases hset : texts[n]?.bind (setValue env v) with
      | none =>
        simp only [hset]
        constructor
        · intro _ h
          cases h
        · intro _ _ h
          cases h
          exact hs
      | some w =>
        simp only [hset]
        split
        case isTrue =>
          obtain ⟨text, -, hw⟩ := bind_eq_some_iff.mp hset
          exact ih (hs.set (setValue_fresh hw) n)
        case isFalse => simp

lemma restoreUp_fresh {k n : Nat}
    {ps ps' : List (Option (FilterValue F))} (hps : FreshParameters ps)
    (h : restoreUp olds k n ps = some ps') : FreshParameters ps' := by
  induction k generalizing n ps with
  | zero => exact some.inj h ▸ hps
  | succ k ih =>
    rw [restoreUp] at h
    split at h
    case h_2 => cases h
    case h_1 v old hv hold => exact ih (hps.set (fresh_valueHasChangedUnchecked _) n) h

/-- An update keeps the regular expressions up to date, whether it fails or not: each place where a
value is stored, on either way, makes the expression again. -/
theorem changeParameters_fresh {e' : Expression F} (he : FreshParameters e.store.parameters)
    (h : changeParameters env regexValid texts e = .updated e' ∨
      changeParameters env regexValid texts e = .badParameter e') :
    FreshParameters e'.store.parameters := by
  obtain ⟨hfinished, hfailed⟩ := setDown_fresh env regexValid texts (n := e.store.parameters.length)
    (s := ⟨e.store.parameters, replicate e.store.parameters.length (.plain (.string []))⟩) he
  rw [changeParameters] at h
  split at h
  case isTrue =>
    rcases h with h | h
    · cases h
    · cases h
      exact he
  case isFalse =>
    split at h
    case h_1 s hdown =>
      rcases h with h | h
      · cases h
        exact hfinished s hdown
      · cases h
    case h_2 => rcases h with h | h <;> cases h
    case h_3 n s hdown =>
      split at h
      case h_1 ps hrestore =>
        rcases h with h | h
        · cases h
        · cases h
          exact restoreUp_fresh (hfailed n s hdown) hrestore
      case h_2 => rcases h with h | h <;> cases h

variable [LongDouble F]

lemma convertValue_fresh (o : OperandNode F) :
    KeepsFresh (convertValue env texts o) := by
  cases o with
  | field name =>
    refine Maintains.read.bind fun s => .ite (.bind ?_ fun _ => .pure _) (.pure _)
    exact Maintains.modify fun s hs => hs
  | parameter p =>
    cases p with
    | literal l => exact .pure _
    | index n =>
      rw [convertValue]
      split
      case h_1 => exact .raise _
      case h_2 =>
        refine Maintains.read.bind fun s => .ite ?_ (.pure _)
        split
        case h_1 => exact .raise _
        case h_2 =>
          exact (Maintains.modify fun s hs => hs.set (fresh_plain _) n).bind fun _ => .pure _

variable (env texts) in
lemma convertCondition_fresh (node : ConditionNode F) :
    KeepsFresh (convertCondition env texts node) := by
  induction node with
  | comparison c =>
    refine (convertValue_fresh _).bind fun _ => (convertValue_fresh _).bind fun _ =>
      Maintains.read.bind fun _ => .ite (.raise _) (.ite (.raise _) ?_)
    exact (transformEnums_fresh _ _ _ _).bind fun _ => (makePredicate_fresh _ _ _).bind fun _ =>
      .pure _
  | between negated name op1 op2 =>
    refine (convertValue_fresh _).bind fun _ => (convertValue_fresh _).bind fun _ =>
      (convertValue_fresh _).bind fun _ => Maintains.read.bind fun _ => .ite (.raise _) ?_
    exact (transformEnums_fresh _ _ _ _).bind fun _ => (transformEnums_fresh _ _ _ _).bind fun _ =>
      (makePredicate_fresh _ _ _).bind fun _ => (makePredicate_fresh _ _ _).bind fun _ => .pure _
  | not c ih => exact ih.bind fun _ => .pure _
  | and left right ihl ihr | or left right ihl ihr =>
    exact ihl.bind fun _ => ihr.bind fun _ => .pure _

lemma createContentFilter_fresh (h : createContentFilter env texts node = some e) :
    FreshParameters e.store.parameters := by
  have hempty : FreshParameters (emptyStore texts : Store F).parameters := by
    intro n v hv
    simp only [emptyStore, getElem?_replicate] at hv
    split at hv <;> cases hv
  have hkept := convertCondition_fresh env texts node _ hempty
  rw [createContentFilter] at h
  split at h
  case h_2 => cases h
  case h_1 root s hrun =>
    obtain rfl := some.inj h
    rw [hrun] at hkept
    exact hkept

inductive Life (env : Env F) (regexValid : Text → Bool) (texts : List Text)
    (node : ConditionNode F) : Expression F → Prop
  | created {e : Expression F} (h : createContentFilter env texts node = some e) :
    Life env regexValid texts node e
  | updated {e e' : Expression F} (texts' : List Text) (he : Life env regexValid texts node e)
    (h : changeParameters env regexValid texts' e = .updated e') : Life env regexValid texts node e'
  | refused {e e' : Expression F} (texts' : List Text) (he : Life env regexValid texts node e)
    (h : changeParameters env regexValid texts' e = .badParameter e') :
    Life env regexValid texts node e'

lemma Life.fresh (h : Life env regexValid texts node e) : FreshParameters e.store.parameters := by
  induction h with
  | created h => exact createContentFilter_fresh h
  | updated texts' _ h ih => exact changeParameters_fresh ih (.inl h)
  | refused texts' _ h ih => exact changeParameters_fresh ih (.inr h)

/-- An update that fails because the literal of parameter `j` does not parse touches only parameters
that are there and leaves all values and the accepted samples as they were if and only if the
expression mentions every parameter above `j`. -/
theorem failedUpdate_rolledBack_iff {e : Expression F} {texts' : List Text} {j : Nat}
    (he : Life env regexValid texts node e)
    (hfail : FailsAt env regexValid texts' e.store.parameters j) :
    (∃ e', changeParameters env regexValid texts' e = .badParameter e' ∧
      (∀ n, (e'.store.parameter n).map (·.value) = (e.store.parameter n).map (·.value)) ∧
      ∀ sample, e'.evaluate env sample = e.evaluate env sample) ↔
    ∀ i, j < i → i < e.store.parameters.length → (e.store.parameter i).isSome = true := by
  rw [← changeParameters_badParameter_iff hfail]
  refine exists_congr fun e' => ⟨And.left, fun h => ⟨h, ?_⟩⟩
  obtain ⟨ps', rfl, hrestored⟩ := changeParameters_restored hfail h
  refine ⟨fun n => ?_, (hrestored.indistinct he.fresh).evaluate rfl⟩
  change (ps'[n]?.join).map _ = (e.store.parameters[n]?.join).map _
  rcases hrestored.2 n with hsame | hremade
  · rw [hsame]
  · rw [hremade, Option.map_map]
    refine congrArg (fun f => Option.map f _) (funext fun v => ?_)
    exact (valueHasChangedUnchecked_spec v).1

end Freshness

section Examples

lemma created_of_parameters (node : ConditionNode Int) (texts : List Text)
    (ps : List (Option (FilterValue Int)))
    (h : (createContentFilter shapes texts node).map (·.store.parameters) = some ps) :
    ∃ e, createContentFilter shapes texts node = some e ∧ e.store.parameters = ps :=
  map_eq_some_iff.mp h

def oneOfTwo : ConditionNode Int :=
  .or (equalsParameter ['x']) (.comparison (.fieldParameter ['x'] .equal (.index 1)))

/-- The second parameter has its new value already when the first one does not parse. -/
theorem failedUpdate_rolledBack_number :
    ∃ e, createContentFilter shapes [['5'], ['6']] oneOfTwo = some e ∧
      FailsAt shapes (fun _ => true) [['a'], ['7']] e.store.parameters 0 ∧
      ∃ e', changeParameters shapes (fun _ => true) [['a'], ['7']] e = .badParameter e' ∧
        (∀ n, (e'.store.parameter n).map (·.value) = (e.store.parameter n).map (·.value)) ∧
        ∀ sample, e'.evaluate shapes sample = e.evaluate shapes sample := by
  obtain ⟨e, hcreate, hps⟩ := created_of_parameters oneOfTwo [['5'], ['6']]
    [some (.plain (.unsignedInteger 5)), some (.plain (.unsignedInteger 6))] (by decide)
  have hfail : FailsAt shapes (fun _ => true) [['a'], ['7']] e.store.parameters 0 := by
    rw [hps]
    refine ⟨Nat.le_refl 2, ⟨_, rfl, by decide⟩, fun i v hi hv => ?_⟩
    have hlt : i < 2 := lt_length_of_join hv
    obtain rfl : i = 1 := by omega
    cases hv
    exact ⟨.plain (.unsignedInteger 7), by decide, rfl⟩
  refine ⟨e, hcreate, hfail, (failedUpdate_rolledBack_iff (.created hcreate) hfail).mpr ?_⟩
  intro i hi hlt
  rw [hps] at hlt
  obtain rfl : i = 1 := by
    change i < 2 at hlt
    omega
  rw [Store.parameter, hps]
  rfl

/-- `x = %0` created with a second parameter, which it does not mention: the way back goes through
a null pointer. -/
theorem failedUpdate_rolledBack_lost :
    ∃ e, createContentFilter shapes [['5'], ['6']] (equalsParameter ['x']) = some e ∧
      FailsAt shapes (fun _ => true) [['a'], ['7']] e.store.parameters 0 ∧
      changeParameters shapes (fun _ => true) [['a'], ['7']] e = .nullAccess := by
  obtain ⟨e, hcreate, hps⟩ := created_of_parameters (equalsParameter ['x']) [['5'], ['6']]
    [some (.plain (.unsignedInteger 5)), none] (by decide)
  refine ⟨e, hcreate, ?_, ?_⟩
  · rw [hps]
    refine ⟨Nat.le_refl 2, ⟨_, rfl, by decide⟩, fun i v hi hv => ?_⟩
    have hlt : i < 2 := lt_length_of_join hv
    obtain rfl : i = 1 := by omega
    cases hv
  · rw [changeParameters, hps]
    rfl

end Examples

end EasyDds.Dds.Filter
