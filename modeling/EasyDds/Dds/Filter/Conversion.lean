import EasyDds.Dds.Filter.Reached

/-!
What a conversion leaves behind: every predicate was checked when it was built.
-/

namespace EasyDds.Dds.Filter

open Store List Option

open Prog

variable {F : Type} {c : Comparison F}

lemma EnumType.lookup_nil (t : EnumType) : t.literals.lookup [] = none := by
  rw [lookup_eq_none_iff]
  intro literal hmem
  exact bne_iff_ne.mpr (t.named literal hmem).symm

lemma enumOf_eq_some {env : Env F} {node : OperandNode F} {t : EnumType}
    (h : enumOf env node = some t) :
    ∃ name, node = .field name ∧ (env.fieldType name).kind = .enum := by
  cases node with
  | parameter p => cases h
  | field name =>
    refine ⟨name, rfl, ?_⟩
    rw [enumOf] at h
    split at h
    case h_1 htype => rw [htype]; rfl
    case h_2 => cases h

lemma wellKinded_pattern {left right : ValueKind} (h : wellKinded true left right = true) :
    right = .char ∨ right = .string := by
  cases left <;> cases right <;> first | exact .inl rfl | exact .inr rfl | cases h

lemma wellKinded_of_checked {isPattern : Bool} {left right : ValueKind}
    (hstring : isPattern = true → left = .string ∨ right = .string)
    (hcheck : (left = .enum ∧ right = .enum) ∨ checkValueCompatibility left right isPattern = true)
    (hright : ¬(left = .enum ∧ right = .string)) (hleft : ¬(right = .enum ∧ left = .string)) :
    wellKinded isPattern left right = true := by
  cases isPattern <;> cases left <;> cases right <;> simp_all [wellKinded, checkValueCompatibility]

lemma hasStringField_kind {s : Store F} {left right : Operand F}
    (h : hasStringField s c left right = true) :
    s.kind left = .string ∨ s.kind right = .string := by
  rw [hasStringField, Bool.or_eq_true] at h
  rcases h with h | h
  · left
    split at h
    case h_1 => exact of_decide_eq_true h
    case h_2 => cases h
  · right
    split at h
    case h_1 => exact of_decide_eq_true h
    case h_2 => cases h

lemma kindsAgree_check {env : Env F} {s : Store F} {left right : Operand F}
    (h : kindsAgree env s c left right = true) : (s.kind left = .enum ∧ s.kind right = .enum) ∨
      checkValueCompatibility (s.kind left) (s.kind right) c.op.isPattern = true := by
  rw [kindsAgree] at h
  split at h
  case isTrue henums => exact .inl henums
  case isFalse => exact .inr h

lemma makePredicate_plain {op : OperationKind} (hop : op.isPattern = false) (left right : Operand F)
    (s : Store F) : (makePredicate op left right).run s = (.ok ⟨op, left, right⟩, s) := by
  rw [makePredicate, if_neg (Bool.eq_false_iff.mp hop)]
  rfl

section Conversion

variable [LongDouble F] {env : Env F} {texts : List Text} {E : Nat → Prop} {s s' : Store F}
  {n : Nat} {v w : FilterValue F}

variable {node : OperandNode F} {left o right : Operand F} {q : Compared F} {cond : Condition F}

section Specs

variable (hs : Reached env texts E s)
include hs

lemma convertValue_spec
    (h : (convertValue env texts node).run s = (.ok o, s')) :
    Reached env texts E s' ∧ Evolves s s' ∧ Points s' node o := by
  cases node with
  | field name =>
    rw [convertValue, run_read_bind] at h
    by_cases hnew : s.fields name = none
    · rw [if_pos hnew, run_modify_bind] at h
      obtain ⟨rfl, rfl⟩ := eq_of_ok (by rfl) h
      obtain ⟨hreached, hevolves⟩ := hs.newField hnew
      exact ⟨hreached, hevolves, rfl, by simp⟩
    · rw [if_neg hnew] at h
      obtain ⟨rfl, rfl⟩ := eq_of_ok (by rfl) h
      exact ⟨hs, .refl _, rfl, isSome_iff_ne_none.mpr hnew⟩
  | parameter p =>
    cases p with
    | literal l =>
      obtain ⟨rfl, rfl⟩ := eq_of_ok (by rfl) h
      exact ⟨hs, .refl _, _, rfl⟩
    | index n =>
      rw [convertValue] at h
      cases htext : texts[n]? with
      | none => simp [htext] at h
      | some text =>
        simp only [htext, run_read_bind] at h
        have hlt : n < s.parameters.length := by
          rw [hs.length]
          exact (List.getElem?_eq_some_iff.mp htext).1
        by_cases hnone : s.parameters[n]?.join = none
        · rw [if_pos hnone] at h
          cases hparse : env.parseLiteralValue text with
          | none => simp [hparse] at h
          | some l =>
            simp only [hparse, run_modify_bind] at h
            obtain ⟨rfl, rfl⟩ := eq_of_ok (by rfl) h
            have hliteral : literalKind env texts n = some (FilterValue.plain l.value).kind := by
              simp only [literalKind, htext, bind_some, hparse, map_some]
              rfl
            obtain ⟨hreached, hevolves⟩ := hs.newParameter hnone hlt hliteral
            refine ⟨hreached, hevolves, rfl, ?_⟩
            rw [isSome_iff_exists]
            exact ⟨_, parameter_setParameter_self hlt _⟩
        · rw [if_neg hnone] at h
          obtain ⟨rfl, rfl⟩ := eq_of_ok (by rfl) h
          exact ⟨hs, .refl _, rfl, isSome_iff_ne_none.mpr hnone⟩

/-- `transform_enum` finds a name in a constant or a parameter only: a field has none yet. The name
becomes its number there, and the fields stay as they are. -/
theorem transformEnum_spec {t : EnumType} {o' : Operand F}
    (hpoints : Points s node o) (hE : ∀ n, node = .parameter (.index n) → E n)
    (h : (transformEnum t o).run s = (.ok o', s')) :
    Reached env texts E s' ∧ Evolves s s' ∧ Points s' node o' ∧ s'.kind o' = .signedInteger ∧
      s'.fields = s.fields := by
  rw [transformEnum, run_read_bind] at h
  cases hvalue : (s.get o).value with
  | string name =>
    simp only [hvalue] at h
    cases hlookup : t.literals.lookup name with
    | none => simp [hlookup] at h
    | some i =>
      simp only [hlookup] at h
      cases node with
      | field field =>
        obtain ⟨rfl, hsome⟩ := hpoints
        obtain ⟨f, hf⟩ := isSome_iff_exists.mp hsome
        have hblank := (hs.blank field f hf).1
        rw [Store.get, hf, map_some, getD_some, hblank] at hvalue
        have hname : name = [] := by
          cases htype : env.fieldType field <;> simp [htype, FieldType.zero] at hvalue
          exact hvalue
        rw [hname, EnumType.lookup_nil] at hlookup
        cases hlookup
      | parameter p =>
        cases p with
        | literal l =>
          obtain ⟨v, rfl⟩ := hpoints
          obtain ⟨rfl, rfl⟩ := eq_of_ok (by rfl) h
          exact ⟨hs, .refl _, ⟨_, rfl⟩, rfl, rfl⟩
        | index n =>
          obtain ⟨rfl, hsome⟩ := hpoints
          obtain ⟨v, hv⟩ := isSome_iff_exists.mp hsome
          have hget : s.get (.parameter n) = v := by
            rw [Store.get]
            rw [Store.parameter] at hv
            rw [hv, getD_some]
          rw [hget] at hvalue h
          obtain ⟨rfl, rfl⟩ := eq_of_ok (by rfl) h
          have hstring : v.kind = .string := by rw [FilterValue.kind, hvalue]; rfl
          obtain ⟨hreached, hevolves⟩ := hs.setParameter
            (w := { v with value := .signedInteger i }) hv (.inr ⟨hE n rfl, hstring, rfl⟩) id
          have hself := Store.parameter_setParameter_self (Store.parameter_lt hv)
            { v with value := .signedInteger i }
          exact ⟨hreached, hevolves, ⟨rfl, isSome_iff_exists.mpr ⟨_, hself⟩⟩,
            Store.kind_parameter hself, rfl⟩
  | _ => simp [hvalue] at h

/-- `transform_enums`: a text that is compared with an enumeration becomes a number, and nothing
happens to other pairs. -/
theorem transformEnums_spec {left' right' : Operand F}
    (hleft : Points s q.left left) (hright : Points s q.right right)
    (hE : ∀ n, q.EnumUse env n → E n)
    (h : (transformEnums env left q.left right q.right).run s = (.ok (left', right'), s')) :
    Reached env texts E s' ∧ Evolves s s' ∧ Points s' q.left left' ∧ Points s' q.right right' ∧
      ((s' = s ∧ left' = left ∧ right' = right ∧ ¬(s.kind left = .enum ∧ s.kind right = .string) ∧
        ¬(s.kind right = .enum ∧ s.kind left = .string)) ∨
      ((s.kind left = .enum ∧ s.kind right = .string) ∧
        s'.kind left' = .enum ∧ s'.kind right' = .signedInteger) ∨
      ((s.kind right = .enum ∧ s.kind left = .string) ∧
        s'.kind left' = .signedInteger ∧ s'.kind right' = .enum)) := by
  rw [transformEnums, run_read_bind] at h
  split at h
  case isTrue hkinds =>
    cases henum : enumOf env q.left with
    | none => simp [henum] at h
    | some t =>
      simp only [henum] at h
      obtain ⟨right1, s1, hrun, hpure⟩ := bind_eq_ok.mp h
      obtain ⟨hpair, rfl⟩ := eq_of_ok (by rfl) hpure
      obtain ⟨rfl, rfl⟩ := Prod.mk.inj hpair
      obtain ⟨name, hname, htype⟩ := enumOf_eq_some henum
      obtain ⟨hs1, hevolves, hpoints, hkind, -⟩ := transformEnum_spec hs hright
        (fun n hn => hE n ⟨name, .inr ⟨hname, hn⟩, htype⟩) hrun
      have hleft' := hleft.evolves hevolves
      refine ⟨hs1, hevolves, hleft', hpoints, .inr (.inl ⟨hkinds, ?_, hkind⟩)⟩
      rw [hname] at hleft'
      obtain ⟨rfl, hsome⟩ := hleft'
      rw [hs1.kind_field hsome, htype]
  case isFalse hnot =>
    split at h
    case isTrue hkinds =>
      cases henum : enumOf env q.right with
      | none => simp [henum] at h
      | some t =>
        simp only [henum] at h
        obtain ⟨left1, s1, hrun, hpure⟩ := bind_eq_ok.mp h
        obtain ⟨hpair, rfl⟩ := eq_of_ok (by rfl) hpure
        obtain ⟨rfl, rfl⟩ := Prod.mk.inj hpair
        obtain ⟨name, hname, htype⟩ := enumOf_eq_some henum
        obtain ⟨hs1, hevolves, hpoints, hkind, -⟩ := transformEnum_spec hs hleft
          (fun n hn => hE n ⟨name, .inl ⟨hn, hname⟩, htype⟩) hrun
        have hright' := hright.evolves hevolves
        refine ⟨hs1, hevolves, hpoints, hright', .inr (.inr ⟨hkinds, hkind, ?_⟩)⟩
        rw [hname] at hright'
        obtain ⟨rfl, hsome⟩ := hright'
        rw [hs1.kind_field hsome, htype]
    case isFalse hnot' =>
      obtain ⟨hpair, rfl⟩ := eq_of_ok (by rfl) h
      obtain ⟨rfl, rfl⟩ := Prod.mk.inj hpair
      exact ⟨hs, .refl _, hleft, hright, .inl ⟨rfl, rfl, rfl, hnot, hnot'⟩⟩

/-- A value becomes the right side of LIKE or MATCH. -/
theorem put_pattern_spec {o' : Operand F} (hpoints : Points s node o)
    (hvalue : w.value = (s.get o).value) (hexpr : w.regularExprKind ≠ .none)
    (hmade : s.hasValue o = true → w.regularExpr.isSome = true)
    (htext : s.kind o = .char ∨ s.kind o = .string) (h : (put o w).run s = (.ok o', s')) :
    Reached env texts E s' ∧ Evolves s s' ∧ Points s' node o' ∧ s'.Ready o' ∧
      s'.kind o' = s.kind o ∧ ∀ x, s'.kind x = s.kind x := by
  have hwkind : w.kind = s.kind o := congrArg Value.kind hvalue
  cases node with
  | field name =>
    obtain ⟨rfl, hsome⟩ := hpoints
    obtain ⟨f, hf⟩ := isSome_iff_exists.mp hsome
    have hget : s.get (.field name) = f.value := by rw [Store.get, hf, map_some, getD_some]
    rw [Store.kind, hget] at htext hwkind
    rw [hget] at hvalue
    obtain ⟨hreached, hevolves⟩ := hs.markField hf hvalue hexpr htext
    rw [put, run_modify_bind, hf, map_some] at h
    obtain ⟨rfl, rfl⟩ := eq_of_ok (by rfl) h
    have hkind : ∀ x, Store.kind { s with
        fields := Function.update s.fields name (some { f with value := w }) } x = s.kind x := by
      intro x
      cases x with
      | field m =>
        by_cases hsame : m = name
        · subst hsame
          simp [Store.kind, Store.get, hf, hwkind]
        · simp [Store.kind, Store.get, Function.update_of_ne hsame]
      | constant v => rfl
      | parameter n => rfl
    refine ⟨hreached, hevolves, ⟨rfl, by simp⟩, ⟨_, Function.update_self .., hexpr, ?_⟩, hkind _,
      hkind⟩
    intro hhas
    rw [(hs.blank name f hf).2] at hhas
    cases hhas
  | parameter node =>
    cases node with
    | literal l =>
      obtain ⟨v, rfl⟩ := hpoints
      obtain ⟨rfl, rfl⟩ := eq_of_ok (by rfl) h
      exact ⟨hs, .refl _, ⟨w, rfl⟩, hmade rfl, hwkind, fun _ => rfl⟩
    | index n =>
      obtain ⟨rfl, hsome⟩ := hpoints
      obtain ⟨v, hv⟩ := isSome_iff_exists.mp hsome
      rw [Store.kind_parameter hv] at hwkind
      obtain ⟨rfl, rfl⟩ := eq_of_ok (by rfl) h
      obtain ⟨hreached, hevolves⟩ := hs.setParameter hv (.inl hwkind) (fun _ => hmade rfl)
      have hself := Store.parameter_setParameter_self (Store.parameter_lt hv) w
      have hkind : ∀ x, (s.setParameter n w).kind x = s.kind x := by
        intro x
        cases x with
        | parameter m =>
          by_cases hsame : m = n
          · subst hsame
            rw [Store.kind_parameter hself, Store.kind_parameter hv, hwkind]
          · have hold := Store.parameter_setParameter_of_ne hsame (s := s) w
            rw [Store.parameter, Store.parameter] at hold
            rw [Store.kind, Store.kind, Store.get, Store.get, hold]
        | constant v => rfl
        | field m => rfl
      have hready : ((s.setParameter n w).get (.parameter n)).regularExpr.isSome = true := by
        rw [Store.get]
        rw [Store.parameter] at hself
        rw [hself]
        exact hmade rfl
      exact ⟨hreached, hevolves, ⟨rfl, isSome_iff_exists.mpr ⟨w, hself⟩⟩, hready, hkind _, hkind⟩

lemma makePredicate_spec {p : Predicate F}
    (hleft : Points s q.left left) (hright : Points s q.right right)
    (hkinds : wellKinded q.op.isPattern (s.kind left) (s.kind right) = true)
    (h : (makePredicate q.op left right).run s = (.ok p, s')) :
    Reached env texts E s' ∧ Evolves s s' ∧ Built s' q p := by
  rw [makePredicate] at h
  by_cases hpattern : q.op.isPattern = true
  · rw [if_pos hpattern, run_read_bind] at h
    obtain ⟨right', s1, hput, hpure⟩ := bind_eq_ok.mp h
    obtain ⟨rfl, rfl⟩ := eq_of_ok (by rfl) hpure
    have hk : (if q.op = .like then RegExpKind.like else .matches) ≠ .none := by split <;> nofun
    obtain ⟨hvalue, hexpr, hmade⟩ := (s.get right).asRegularExpression_spec hk (s.hasValue right)
    obtain ⟨hreached, hevolves, hpoints, hready, hsame, hkind⟩ := put_pattern_spec hs hright hvalue
      (hexpr.trans_ne hk) hmade (wellKinded_pattern (hpattern ▸ hkinds)) hput
    refine ⟨hreached, hevolves, rfl, hleft.evolves hevolves, hpoints, ?_, fun _ => hready⟩
    rw [hsame, hkind]
    exact hkinds
  · rw [if_neg hpattern] at h
    obtain ⟨rfl, rfl⟩ := eq_of_ok (by rfl) h
    exact ⟨hs, .refl _, rfl, hleft, hright, hkinds, fun hp => absurd hp hpattern⟩

lemma convertPredicate_spec
    (hE : ∀ n, Compared.EnumUse env ⟨c.op, c.left, c.right⟩ n → E n)
    (h : (convertPredicate env texts c).run s = (.ok cond, s')) :
    Reached env texts E s' ∧ Evolves s s' ∧
      ∃ p, cond = .predicate p none ∧ Built s' ⟨c.op, c.left, c.right⟩ p := by
  obtain ⟨left, s1, hrunl, h⟩ := bind_eq_ok.mp h
  obtain ⟨right, s2, hrunr, h⟩ := bind_eq_ok.mp h
  obtain ⟨hs1, hevolves1, hleft⟩ := convertValue_spec hs hrunl
  obtain ⟨hs2, hevolves2, hright⟩ := convertValue_spec hs1 hrunr
  replace hleft := hleft.evolves hevolves2
  rw [run_read_bind] at h
  split at h
  case isTrue => simp at h
  case isFalse hstring =>
  split at h
  case isTrue => simp at h
  case isFalse hagree =>
  obtain ⟨⟨left', right'⟩, s3, hrune, h⟩ := bind_eq_ok.mp h
  obtain ⟨p, s4, hrunp, hpure⟩ := bind_eq_ok.mp h
  obtain ⟨rfl, rfl⟩ := eq_of_ok (by rfl) hpure
  obtain ⟨hs3, hevolves3, hleft', hright', hcases⟩ := transformEnums_spec
    (q := ⟨c.op, c.left, c.right⟩) hs2 hleft hright hE hrune
  have hstring' : c.op.isPattern = true → s2.kind left = .string ∨ s2.kind right = .string := by
    intro hpattern
    rw [hpattern, Bool.true_and, Bool.not_eq_true', Bool.not_eq_false] at hstring
    exact hasStringField_kind hstring
  have hcheck : (s2.kind left = .enum ∧ s2.kind right = .enum) ∨
      checkValueCompatibility (s2.kind left) (s2.kind right) c.op.isPattern = true := by
    rw [Bool.not_eq_true', Bool.not_eq_false] at hagree
    exact kindsAgree_check hagree
  have hkinds : wellKinded c.op.isPattern (s3.kind left') (s3.kind right') = true := by
    rcases hcases with ⟨rfl, rfl, rfl, hnot, hnot'⟩ | ⟨⟨hl, hr⟩, hl', hr'⟩ | ⟨⟨hr, hl⟩, hl', hr'⟩
    · exact wellKinded_of_checked hstring' hcheck hnot hnot'
    all_goals
      rw [hl, hr] at hcheck
      rw [hl', hr']
      cases hpattern : c.op.isPattern
      · rfl
      · rw [hpattern] at hcheck
        rcases hcheck with ⟨hcheck, hcheck'⟩ | hcheck <;> contradiction
  obtain ⟨hs4, hevolves4, hbuilt⟩ := makePredicate_spec
    (q := ⟨c.op, c.left, c.right⟩) hs3 hleft' hright' hkinds hrunp
  exact ⟨hs4, hevolves1.trans (hevolves2.trans (hevolves3.trans hevolves4)), p, rfl, hbuilt⟩

/-- The kinds of the field and a bound of BETWEEN after `transform_enums`. -/
theorem transformEnums_bound (op : OperationKind) {name : Text}
    {bound : ParameterNode F} {left' right' : Operand F} (hleft : Points s (.field name) left)
    (hright : Points s (.parameter bound) right)
    (hE : ∀ n, Compared.EnumUse env ⟨op, .field name, .parameter bound⟩ n → E n)
    (hcheck : checkValueCompatibility (s.kind left) (s.kind right) false = true)
    (h : (transformEnums env left (.field name) right (.parameter bound)).run s =
      (.ok (left', right'), s')) :
    Reached env texts E s' ∧ Evolves s s' ∧ Points s' (.field name) left' ∧
      Points s' (.parameter bound) right' ∧
      wellKinded false (s'.kind left') (s'.kind right') = true ∧
      (s' = s ∧ right' = right ∨ (env.fieldType name).kind = .enum) := by
  obtain ⟨hs', hevolves, hleft', hright', hcases⟩ := transformEnums_spec
    (q := ⟨op, .field name, .parameter bound⟩) hs hleft hright hE h
  have hfield := hs.kind_of_points hleft
  have hfield' := hs'.kind_of_points hleft'
  refine ⟨hs', hevolves, hleft', hright', ?_⟩
  rcases hcases with ⟨rfl, rfl, rfl, hnot, hnot'⟩ | ⟨⟨hl, hr⟩, hl', hr'⟩ | ⟨⟨hr, hl⟩, hl', hr'⟩
  · exact ⟨wellKinded_of_checked Bool.noConfusion (.inr hcheck) hnot hnot', .inl ⟨rfl, rfl⟩⟩
  · rw [hl', hr']
    exact ⟨rfl, .inr (hfield ▸ hl)⟩
  · rw [hfield, ← hfield', hl'] at hl
    cases hl

lemma convertBetween_spec {negated : Bool} {name : Text}
    {op1 op2 : ParameterNode F}
    (hE : ∀ q ∈ (ConditionNode.between negated name op1 op2).compared, ∀ n, q.EnumUse env n → E n)
    (h : (convertBetween env texts negated name op1 op2).run s = (.ok cond, s')) :
    Reached env texts E s' ∧ Evolves s s' ∧
      Forall₂ (Built s') (ConditionNode.between negated name op1 op2).compared
        cond.predicates := by
  obtain ⟨field, s1, hrunf, h⟩ := bind_eq_ok.mp h
  obtain ⟨o1, s2, hrun1, h⟩ := bind_eq_ok.mp h
  obtain ⟨o2, s3, hrun2, h⟩ := bind_eq_ok.mp h
  obtain ⟨hs1, hevolves1, hfield⟩ := convertValue_spec hs hrunf
  obtain ⟨hs2, hevolves2, ho1⟩ := convertValue_spec hs1 hrun1
  obtain ⟨hs3, hevolves3, ho2⟩ := convertValue_spec hs2 hrun2
  replace hfield := hfield.evolves (hevolves2.trans hevolves3)
  replace ho1 := ho1.evolves hevolves3
  rw [run_read_bind] at h
  split at h
  case isTrue => simp at h
  case isFalse hchecks =>
  simp only [Bool.or_eq_true, Bool.not_eq_true', not_or, Bool.not_eq_false] at hchecks
  obtain ⟨⟨hcheck1, hcheck2⟩, -⟩ := hchecks
  obtain ⟨⟨field', o1'⟩, s4, hrunt1, h⟩ := bind_eq_ok.mp h
  obtain ⟨⟨field'', o2'⟩, s5, hrunt2, h⟩ := bind_eq_ok.mp h
  generalize hop : (if negated then OperationKind.greaterThan else .lessEqual) = op at h
  have hplain : op.isPattern = false := by
    subst hop
    split <;> rfl
  rw [bind_of_ok (makePredicate_plain hplain ..), bind_of_ok (makePredicate_plain hplain ..)] at h
  obtain ⟨rfl, rfl⟩ := eq_of_ok (by rfl) h
  rw [ConditionNode.compared, hop] at hE ⊢
  simp only [forall_mem_cons] at hE
  obtain ⟨hE1, hE2, -⟩ := hE
  obtain ⟨hs4, hevolves4, hfield', ho1', hkinds1, hcase1⟩ :=
    transformEnums_bound hs3 op hfield ho1 (fun n huse => hE1 n huse.symm) hcheck1 hrunt1
  have hfield3 := hs3.kind_of_points hfield
  have hfield4 := hs4.kind_of_points hfield'
  -- The first bound may have changed the second one, if they are the same parameter.
  have hcheck2' : checkValueCompatibility (s4.kind field') (s4.kind o2) false = true := by
    rw [hfield4, ← hfield3]
    rcases hevolves4.kind hs3 hs4 ho2 with hsame | ⟨n, -, -, hstring, hnumber⟩
    · rwa [hsame]
    · rcases hcase1 with ⟨rfl, -⟩ | henum
      · rw [hstring] at hnumber
        cases hnumber
      · rw [hnumber, hfield3, henum]
        rfl
  obtain ⟨hs5, hevolves5, hfield'', ho2', hkinds2, hcase2⟩ :=
    transformEnums_bound hs4 op hfield' (ho2.evolves hevolves4) hE2 hcheck2' hrunt2
  have hfield5 := hs5.kind_of_points hfield''
  have hkinds1' : wellKinded false (s'.kind o1') (s'.kind field'') = true := by
    rw [wellKinded_comm, hfield5, ← hfield4]
    rcases hevolves5.kind hs4 hs5 ho1' with hsame | ⟨n, -, -, hstring, hnumber⟩
    · rwa [hsame]
    · rcases hcase2 with ⟨rfl, -⟩ | henum
      · rw [hstring] at hnumber
        cases hnumber
      · rw [hstring, hfield4, henum] at hkinds1
        cases hkinds1
  refine ⟨hs5, hevolves1.trans (hevolves2.trans (hevolves3.trans (hevolves4.trans hevolves5))),
    .cons ?_ (.cons ?_ .nil)⟩
  · exact ⟨rfl, ho1'.evolves hevolves5, hfield'', by rwa [hplain], by simp [hplain]⟩
  · exact ⟨rfl, hfield'', ho2', by rwa [hplain], by simp [hplain]⟩

end Specs

def Settled (env : Env F) (texts : List Text) (E : Nat → Prop) (s : Store F) (q : Compared F)
    (p : Predicate F) : Prop :=
  ∃ s0, Reached env texts E s0 ∧ Built s0 q p ∧ Evolves s0 s

lemma Settled.evolves {p : Predicate F} (h : Settled env texts E s q p) (hevolves : Evolves s s') :
    Settled env texts E s' q p := by
  obtain ⟨s0, hs0, hbuilt, hevolves0⟩ := h
  exact ⟨s0, hs0, hbuilt, hevolves0.trans hevolves⟩

/-- `convert_tree<DDSFilterCondition>`: every predicate of the result comes from two operands of the
expression and was checked when it was built. -/
theorem convertCondition_spec (hs : Reached env texts E s) {node : ConditionNode F}
    (hE : ∀ q ∈ node.compared, ∀ n, q.EnumUse env n → E n)
    (h : (convertCondition env texts node).run s = (.ok cond, s')) :
    Reached env texts E s' ∧ Evolves s s' ∧
      Forall₂ (Settled env texts E s') node.compared cond.predicates := by
  have hcompound {left right : ConditionNode F} {isAnd : Bool} {cond : Condition F} {s s' : Store F}
      (hs : Reached env texts E s)
      (ihl : ∀ {s s' : Store F} {cond : Condition F}, Reached env texts E s →
        (convertCondition env texts left).run s = (.ok cond, s') → Reached env texts E s' ∧
          Evolves s s' ∧ Forall₂ (Settled env texts E s') left.compared cond.predicates)
      (ihr : ∀ {s s' : Store F} {cond : Condition F}, Reached env texts E s →
        (convertCondition env texts right).run s = (.ok cond, s') → Reached env texts E s' ∧
          Evolves s s' ∧ Forall₂ (Settled env texts E s') right.compared cond.predicates)
      (h : (do
        let l ← convertCondition env texts left
        let r ← convertCondition env texts right
        pure (.compound isAnd none 0 l r) : Converter F (Condition F)).run s = (.ok cond, s')) :
      Reached env texts E s' ∧ Evolves s s' ∧ Forall₂ (Settled env texts E s')
        (left.compared ++ right.compared) cond.predicates := by
    obtain ⟨l, s1, hrunl, h⟩ := bind_eq_ok.mp h
    obtain ⟨r, s2, hrunr, hpure⟩ := bind_eq_ok.mp h
    obtain ⟨rfl, rfl⟩ := eq_of_ok (by rfl) hpure
    obtain ⟨hs1, hevolves1, hleft⟩ := ihl hs hrunl
    obtain ⟨hs2, hevolves2, hright⟩ := ihr hs1 hrunr
    exact ⟨hs2, hevolves1.trans hevolves2,
      rel_append (hleft.imp fun _ _ hp => hp.evolves hevolves2) hright⟩
  induction node generalizing s s' cond with
  | comparison c =>
    obtain ⟨hs', hevolves, p, rfl, hbuilt⟩ :=
      convertPredicate_spec hs (hE _ (mem_singleton_self _)) h
    exact ⟨hs', hevolves, .cons ⟨s', hs', hbuilt, .refl _⟩ .nil⟩
  | between negated name op1 op2 =>
    obtain ⟨hs', hevolves, hbuilt⟩ := convertBetween_spec hs hE h
    exact ⟨hs', hevolves, hbuilt.imp fun _ _ hp => ⟨s', hs', hp, .refl _⟩⟩
  | not c ih =>
    obtain ⟨child, s1, hrun, hpure⟩ := bind_eq_ok.mp h
    obtain ⟨rfl, rfl⟩ := eq_of_ok (by rfl) hpure
    obtain ⟨hs1, hevolves, hsettled⟩ := ih hs hE hrun
    exact ⟨hs1, hevolves, hsettled⟩
  | and left right ihl ihr | or left right ihl ihr =>
    exact hcompound hs (fun hs => ihl hs fun q hq => hE q (mem_append_left _ hq))
      (fun hs => ihr hs fun q hq => hE q (mem_append_right _ hq)) h

end Conversion

end EasyDds.Dds.Filter
