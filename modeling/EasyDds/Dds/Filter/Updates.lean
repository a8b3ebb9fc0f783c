import EasyDds.Dds.Filter.Conversion

/-!
The life of a content filter: it is created from an expression and gets new parameters now and then.
The kinds of a predicate are checked only when it is built.
-/

namespace EasyDds.Dds.Filter

open List Option

variable {F : Type} {env : Env F} {texts : List Text} {node : ConditionNode F} {s s' : Store F}

/-- No parameter that is given as text is compared both with text and with an enumeration. -/
def CreationFits (env : Env F) (texts : List Text) (node : ConditionNode F) : Prop :=
  ∀ n, literalKind env texts n = some .string →
    ¬((∃ q ∈ node.compared, q.TextUse env n) ∧ ∃ q ∈ node.compared, q.EnumUse env n)

/-- The new literal of every parameter goes with all fields it is compared with. -/
def UpdateFits (env : Env F) (node : ConditionNode F) (texts : List Text) : Prop :=
  ∀ q ∈ node.compared, ∀ n name, q.Pairs n name → ∀ k, literalKind env texts n = some k →
    wellKinded q.op.isPattern (env.fieldType name).kind k = true

def afterUpdates (env : Env F) (regexValid : Text → Bool) (e : Expression F)
    (us : List (List Text)) : Option (Expression F) :=
  us.foldlM (fun e texts => (changeParameters env regexValid texts e).succeeded) e

/-- Every predicate compares kinds that go together, and no sample makes an assertion fail. -/
def Sound [LongDouble F] (env : Env F) (e : Expression F) : Prop :=
  KindsFit e.store e.root.predicates ∧ ∀ sample, (e.evaluate env sample).isSome = true

/-- What a predicate is for good. Only the kind of a parameter can change. -/
structure Lasting (s : Store F) (q : Compared F) (p : Predicate F) : Prop where
  op_eq : p.op = q.op
  left : Points s q.left p.left
  right : Points s q.right p.right
  kinds : (∃ n name, q.Pairs n name) ∨
    ((∀ n, p.left ≠ .parameter n) ∧ (∀ n, p.right ≠ .parameter n) ∧
    wellKinded p.op.isPattern (s.kind p.left) (s.kind p.right) = true)

structure Alive (env : Env F) (node : ConditionNode F) (e : Expression F) : Prop where
  sturdy : Sturdy env e.store e.root.predicates
  lasting : Forall₂ (Lasting e.store) node.compared e.root.predicates

lemma exists_of_mem_left {α β : Type} {R : α → β → Prop} {as : List α} {bs : List β}
    (h : Forall₂ R as bs) {a : α} (ha : a ∈ as) : ∃ b ∈ bs, R a b := by
  induction h with
  | nil => cases ha
  | cons hab _ ih =>
    rcases mem_cons.mp ha with rfl | ha
    · exact ⟨_, mem_cons_self, hab⟩
    · obtain ⟨b, hb, hab⟩ := ih ha
      exact ⟨b, mem_cons_of_mem _ hb, hab⟩

lemma exists_of_mem_right {α β : Type} {R : α → β → Prop} {as : List α} {bs : List β}
    (h : Forall₂ R as bs) {b : β} (hb : b ∈ bs) : ∃ a ∈ as, R a b :=
  exists_of_mem_left h.flip hb

variable {o : Operand F} {n : Nat} {us : List (List Text)} {regexValid : Text → Bool}

lemma Sturdy.kind_of_points {ps : List (Predicate F)} (hs : Sturdy env s ps) {name : Text}
    (h : Points s (.field name) o) : s.kind o = (env.fieldType name).kind := by
  obtain ⟨rfl, hsome⟩ := h
  obtain ⟨f, hf⟩ := isSome_iff_exists.mp hsome
  rw [Store.kind, Store.get, hf, map_some, getD_some, hs.typed name f hf]

/-- It depends on the parameters alone whether the kinds fit: fields and constants have theirs for
good, and the conversion has checked them against each other. -/
theorem Alive.kindsFit_iff {e : Expression F} (he : Alive env node e) :
    KindsFit e.store e.root.predicates ↔ ∀ q ∈ node.compared, ∀ n name, q.Pairs n name →
      wellKinded q.op.isPattern (env.fieldType name).kind (e.store.kind (.parameter n)) = true := by
  constructor
  · intro hfit q hq n name hpairs
    obtain ⟨p, hp, hlasting⟩ := exists_of_mem_left he.lasting hq
    rw [← hpairs.wellKinded_eq he.sturdy.kind_of_points hlasting.left hlasting.right,
      ← hlasting.op_eq]
    exact hfit p hp
  · intro hfit p hp
    obtain ⟨q, hq, hlasting⟩ := exists_of_mem_right he.lasting hp
    rcases hlasting.kinds with ⟨n, name, hpairs⟩ | ⟨-, -, hkinds⟩
    · rw [hpairs.wellKinded_eq he.sturdy.kind_of_points hlasting.left hlasting.right,
        hlasting.op_eq]
      exact hfit q hq n name hpairs
    · exact hkinds

section Loop

variable {ps : List (Option (FilterValue F))} {v : FilterValue F}

lemma join_set_self {x : Option (FilterValue F)} (h : n < ps.length) :
    (ps.set n x)[n]?.join = x := by
  simp [h]

lemma join_set_of_ne {i : Nat} {x : Option (FilterValue F)} (h : i ≠ n) :
    (ps.set n x)[i]?.join = ps[i]?.join := by
  rw [getElem?_set_ne h.symm]

lemma lt_length_of_join (h : ps[n]?.join = some v) : n < ps.length := by
  by_contra hge
  rw [getElem?_eq_none (Nat.le_of_not_lt hge)] at h
  cases h

/-- A loop that comes to its end has set every parameter below `n` from its own text, and no other
one. -/
theorem setDown_finished {u u' : UpdateState F}
    (h : setDown env regexValid texts n u = .finished u') :
    (∀ i < n, ∀ v, u.parameters[i]?.join = some v →
      ∃ v', texts[i]?.bind (setValue env v) = some v' ∧ u'.parameters[i]?.join = some v') ∧
    ∀ i, n ≤ i → u'.parameters[i]?.join = u.parameters[i]?.join := by
  induction n generalizing u with
  | zero =>
    cases h
    exact ⟨fun i hi => absurd hi (Nat.not_lt_zero i), fun _ _ => rfl⟩
  | succ n ih =>
    rw [setDown] at h
    split at h
    case h_1 hnone =>
      obtain ⟨hset, hkept⟩ := ih h
      refine ⟨fun i hi v hv => ?_, fun i hi => hkept i (by omega)⟩
      have hne : i ≠ n := by
        rintro rfl
        rw [hnone] at hv
        cases hv
      exact hset i (by omega) v hv
    case h_2 v hv =>
      split at h
      case h_1 => cases h
      case h_2 v' hv' =>
        split at h
        case isFalse => cases h
        case isTrue =>
          obtain ⟨hset, hkept⟩ := ih h
          refine ⟨fun i hi w hw => ?_, fun i hi => ?_⟩
          · by_cases hin : i = n
            · subst hin
              obtain rfl := some.inj (hv.symm.trans hw)
              exact ⟨v', hv', (hkept i (Nat.le_refl i)).trans
                (join_set_self (lt_length_of_join hv))⟩
            · exact hset i (by omega) w ((join_set_of_ne hin).trans hw)
          · exact (hkept i (by omega)).trans (join_set_of_ne (by omega))

lemma setValue_spec {text : Text} {v' : FilterValue F} (h : setValue env v text = some v') :
    (env.parseLiteralValue text).map (·.value.kind) = some v'.kind ∧
      (v.regularExpr.isSome = true → v'.regularExpr.isSome = true) := by
  obtain ⟨l, hl, heq⟩ := bind_eq_some_iff.mp h
  obtain rfl := some.inj heq
  obtain ⟨hvalue, -, hmade⟩ := FilterValue.valueHasChangedUnchecked_spec { v with value := l.value }
  refine ⟨?_, fun hsome => hmade (.inr hsome)⟩
  rw [hl, FilterValue.kind, hvalue]
  rfl

/-- A parameter after an update that succeeds is what its new literal says. -/
theorem changeParameters_updated {e e' : Expression F}
    (h : changeParameters env regexValid texts e = .updated e') :
    ∃ ps, e' = e.withParameters ps ∧ ∀ n v, e.store.parameter n = some v →
      ∃ v', ps[n]?.join = some v' ∧ literalKind env texts n = some v'.kind ∧
        (v.regularExpr.isSome = true → v'.regularExpr.isSome = true) := by
  rw [changeParameters] at h
  split at h
  case isTrue => cases h
  case isFalse =>
    split at h
    case h_2 => cases h
    case h_3 => split at h <;> cases h
    case h_1 u hdown =>
      cases h
      refine ⟨u.parameters, rfl, fun n v hv => ?_⟩
      obtain ⟨v', hset, hv'⟩ := (setDown_finished hdown).1 n (lt_length_of_join hv) v hv
      obtain ⟨text, htext, hset⟩ := bind_eq_some_iff.mp hset
      obtain ⟨hkind, hmade⟩ := setValue_spec hset
      refine ⟨v', hv', ?_, hmade⟩
      rw [literalKind, htext]
      exact hkind

end Loop

lemma succeeded_eq_some_iff {outcome : UpdateOutcome F} {e : Expression F} :
    outcome.succeeded = some e ↔ outcome = .updated e := by
  cases outcome <;> simp [UpdateOutcome.succeeded]

lemma Compared.Pairs.parameter_eq_some {q : Compared F} {name : Text} (h : q.Pairs n name)
    {left right : Operand F} (hleft : Points s q.left left) (hright : Points s q.right right) :
    ∃ v, s.parameter n = some v := by
  rcases h with ⟨hl, -⟩ | ⟨-, hr⟩
  · rw [hl] at hleft
    exact isSome_iff_exists.mp hleft.2
  · rw [hr] at hright
    exact isSome_iff_exists.mp hright.2

lemma kind_withParameters (e : Expression F) (ps : List (Option (FilterValue F)))
    (ho : ∀ n, o ≠ .parameter n) : (e.withParameters ps).store.kind o = e.store.kind o := by
  cases o with
  | constant v => rfl
  | field name => rfl
  | parameter n => exact absurd rfl (ho n)

/-- An update keeps the fields and what the operands point to. The parameters of the predicates get
the kinds of their new literals, and nothing checks these. -/
theorem changeParameters_alive {e e' : Expression F} (he : Alive env node e)
    (h : changeParameters env regexValid texts e = .updated e') :
    Alive env node e' ∧ ∀ q ∈ node.compared, ∀ n name, q.Pairs n name →
      literalKind env texts n = some (e'.store.kind (.parameter n)) := by
  obtain ⟨ps, rfl, hps⟩ := changeParameters_updated h
  have hpoints {node : OperandNode F} {o : Operand F} (hpoints : Points e.store node o) :
      Points (e.withParameters ps).store node o := by
    cases node with
    | field name => exact hpoints
    | parameter p =>
      cases p with
      | literal l => exact hpoints
      | index n =>
        obtain ⟨v, hv⟩ := isSome_iff_exists.mp hpoints.2
        obtain ⟨v', hv', -⟩ := hps n v hv
        exact ⟨hpoints.1, isSome_iff_exists.mpr ⟨v', hv'⟩⟩
  refine ⟨⟨{ he.sturdy with ready := ?_ }, ?_⟩, ?_⟩
  · intro p hp hpattern
    have hready := he.sturdy.ready p hp hpattern
    cases hside : p.right with
    | field name => rwa [hside] at hready
    | constant v => rwa [hside] at hready
    | parameter n =>
      rw [hside] at hready
      change ((e.store.parameters[n]?.join).getD _).regularExpr.isSome = true at hready
      change ((ps[n]?.join).getD _).regularExpr.isSome = true
      cases hv : e.store.parameters[n]?.join with
      | none =>
        rw [hv] at hready
        cases hready
      | some v =>
        obtain ⟨v', hv', -, hmade⟩ := hps n v hv
        rw [hv] at hready
        rw [hv']
        exact hmade hready
  · refine he.lasting.imp fun q p hlasting => ⟨hlasting.op_eq, hpoints hlasting.left,
      hpoints hlasting.right, hlasting.kinds.imp id fun ⟨hl, hr, hkinds⟩ => ⟨hl, hr, ?_⟩⟩
    rw [kind_withParameters e ps hl, kind_withParameters e ps hr]
    exact hkinds
  · intro q hq n name hpairs
    obtain ⟨p, -, hlasting⟩ := exists_of_mem_left he.lasting hq
    obtain ⟨v, hv⟩ := hpairs.parameter_eq_some hlasting.left hlasting.right
    obtain ⟨v', hv', hkind, -⟩ := hps n v hv
    have hnew : (e.withParameters ps).store.parameter n = some v' := hv'
    exact hkind.trans (congrArg some (Store.kind_parameter hnew).symm)

lemma ConditionNode.compared_sided (node : ConditionNode F) :
    ∀ q ∈ node.compared, ∃ name, q.left = .field name ∨ q.right = .field name := by
  induction node with
  | comparison c => cases c <;> simp [compared, Comparison.left, Comparison.right]
  | between negated name op1 op2 => simp [compared]
  | not c ih => exact ih
  | and left right ihl ihr | or left right ihl ihr =>
    intro q hq
    exact (mem_append.mp hq).elim (ihl q) (ihr q)

lemma Points.eq_index {node : OperandNode F} (h : Points s node o) (ho : o = .parameter n) :
    node = .parameter (.index n) := by
  subst ho
  cases node with
  | field name => cases h.1
  | parameter p =>
    cases p with
    | literal l =>
      obtain ⟨v, hv⟩ := h
      cases hv
    | index m =>
      obtain ⟨hn, -⟩ := h
      cases hn
      rfl

section Creation

variable [LongDouble F] {E : Nat → Prop}

lemma Reached.ready_evolves (hs' : Reached env texts E s') (h : Evolves s s') {node : OperandNode F}
    (hpoints : Points s node o) (hready : s.Ready o) : s'.Ready o := by
  cases node with
  | field name =>
    obtain ⟨rfl, -⟩ := hpoints
    obtain ⟨f, hf, hexpr, -⟩ := hready
    obtain ⟨f', hf', hexpr'⟩ := h.fields name f hf
    refine ⟨f', hf', hexpr' hexpr, fun hhas => ?_⟩
    rw [(hs'.blank name f' hf').2] at hhas
    cases hhas
  | parameter p =>
    cases p with
    | literal l =>
      obtain ⟨v, rfl⟩ := hpoints
      exact hready
    | index n =>
      obtain ⟨rfl, hsome⟩ := hpoints
      obtain ⟨v, hv⟩ := isSome_iff_exists.mp hsome
      obtain ⟨v', hv', -, hmade⟩ := h.parameters n v hv
      change ((s.parameter n).getD _).regularExpr.isSome = true at hready
      change ((s'.parameter n).getD _).regularExpr.isSome = true
      rw [hv] at hready
      rw [hv']
      exact hmade hready

/-- Where the operands of a predicate are after the conversion. -/
theorem Settled.lasting (hs : Reached env texts E s) {q : Compared F} {p : Predicate F}
    (hsided : ∃ name, q.left = .field name ∨ q.right = .field name)
    (h : Settled env texts E s q p) : Lasting s q p := by
  obtain ⟨s0, hs0, hbuilt, hevolves⟩ := h
  refine ⟨hbuilt.op_eq, hbuilt.left.evolves hevolves, hbuilt.right.evolves hevolves, ?_⟩
  by_cases hpairs : ∃ n name, q.Pairs n name
  · exact .inl hpairs
  · have hleft : ∀ n, p.left ≠ .parameter n := by
      intro n hn
      have hnode := hbuilt.left.eq_index hn
      obtain ⟨name, hl | hr⟩ := hsided
      · rw [hnode] at hl
        cases hl
      · exact hpairs ⟨n, name, .inl ⟨hnode, hr⟩⟩
    have hright : ∀ n, p.right ≠ .parameter n := by
      intro n hn
      have hnode := hbuilt.right.eq_index hn
      obtain ⟨name, hl | hr⟩ := hsided
      · exact hpairs ⟨n, name, .inr ⟨hl, hnode⟩⟩
      · rw [hnode] at hr
        cases hr
    refine .inr ⟨hleft, hright, ?_⟩
    rw [(hevolves.kind hs0 hs hbuilt.left).resolve_right fun ⟨n, _, hn, _⟩ => hleft n hn,
      (hevolves.kind hs0 hs hbuilt.right).resolve_right fun ⟨n, _, hn, _⟩ => hright n hn]
    exact hbuilt.kinds

variable {e : Expression F}

/-- `create_content_filter`: the filter is one of the expression, its predicates were checked, and
its parameters have the kinds of their literals or are enumerators. -/
theorem createContentFilter_spec (h : createContentFilter env texts node = some e) :
    Alive env node e ∧
      Reached env texts (fun n => ∃ q ∈ node.compared, q.EnumUse env n) e.store ∧
      Forall₂ (Settled env texts (fun n => ∃ q ∈ node.compared, q.EnumUse env n) e.store)
        node.compared e.root.predicates := by
  rw [createContentFilter] at h
  split at h
  case h_2 => cases h
  case h_1 root s hrun =>
    obtain rfl := some.inj h
    obtain ⟨hs, -, hsettled⟩ := convertCondition_spec
      (E := fun n => ∃ q ∈ node.compared, q.EnumUse env n) emptyStore_reached
      (fun q hq n huse => ⟨q, hq, huse⟩) hrun
    refine ⟨⟨⟨?_, hs.patterns, hs.listed, ?_, ?_⟩, ?_⟩, hs, hsettled⟩
    · intro name f hf
      rw [FilterValue.kind, (hs.blank name f hf).1, FieldType.kind_zero]
    · intro p hp
      obtain ⟨q, hq, s0, -, hbuilt, -⟩ := exists_of_mem_right hsettled hp
      obtain ⟨name, hl | hr⟩ := node.compared_sided q hq
      · have hleft := hbuilt.left
        rw [hl] at hleft
        exact ⟨name, .inl hleft.1⟩
      · have hright := hbuilt.right
        rw [hr] at hright
        exact ⟨name, .inr hright.1⟩
    · intro p hp hpattern
      obtain ⟨q, hq, s0, -, hbuilt, hevolves⟩ := exists_of_mem_right hsettled hp
      exact hs.ready_evolves hevolves hbuilt.right (hbuilt.ready hpattern)
    · have hsided := (List.forall₂_and_left _ _).mpr ⟨node.compared_sided, hsettled⟩
      exact hsided.imp fun q p hp => hp.2.lasting hs hp.1

/-- A text that has become a number is the name of an enumerator: nothing else changes the kind of a
parameter. -/
theorem Reached.enum_of_changed (hs0 : Reached env texts E s) (hs : Reached env texts E s')
    {v v' : FilterValue F} (hv : s.parameter n = some v) (hv' : s'.parameter n = some v')
    (hstring : v.kind = .string) (hnumber : v'.kind = .signedInteger) :
    literalKind env texts n = some .string ∧ E n := by
  obtain ⟨k, hk, hkind | ⟨-, -, hsigned⟩⟩ := hs0.origin n v hv
  · obtain ⟨k', hk', hkind'⟩ := hs.origin n v' hv'
    obtain rfl := some.inj (hk.symm.trans hk')
    rw [hstring] at hkind
    subst hkind
    refine ⟨hk, ?_⟩
    rcases hkind' with hsame | ⟨henum, -⟩
    · rw [hnumber] at hsame
      cases hsame
    · exact henum
  · rw [hstring] at hsigned
    cases hsigned

lemma wellKinded_text {isPattern : Bool} {k : ValueKind} (h : wellKinded isPattern k .string =
    true) :
    k = .char ∨ k = .string := by
  cases isPattern <;> cases k <;> first | exact .inl rfl | exact .inr rfl | cases h

/-- Right after the creation the kinds do not fit if a predicate made a number of a text that
another one had been checked with. -/
theorem createContentFilter_kindsFit_iff (h : createContentFilter env texts node = some e) :
    KindsFit e.store e.root.predicates ↔ CreationFits env texts node := by
  obtain ⟨halive, hs, hsettled⟩ := createContentFilter_spec h
  rw [halive.kindsFit_iff]
  constructor
  · rintro hfit n hliteral ⟨⟨q, hq, name, hpairs, htext⟩, q', hq', huse⟩
    obtain ⟨p', -, s0, hs0, hbuilt, hevolves⟩ := exists_of_mem_left hsettled hq'
    obtain ⟨name', hpairs', -⟩ := id huse
    obtain ⟨v, hv⟩ := hpairs'.parameter_eq_some hbuilt.left hbuilt.right
    obtain ⟨v', hv', hkind, -⟩ := hevolves.parameters n v hv
    have hstring := hbuilt.kind_of_enumUse hs0 huse
    rw [Store.kind_parameter hv] at hstring
    have hnumber : v'.kind = .signedInteger := by
      obtain ⟨k, hk, horigin⟩ := hs.origin n v' hv'
      obtain rfl := some.inj (hliteral.symm.trans hk)
      rcases horigin with hsame | ⟨-, -, hnumber⟩
      · rcases hkind with hkind | ⟨-, hnumber⟩
        · exact absurd (hkind.symm.trans hsame) hstring
        · exact hnumber
      · exact hnumber
    have hwell := hfit q hq n name hpairs
    rw [Store.kind_parameter hv', hnumber] at hwell
    rcases htext with htext | htext <;>
    · rw [htext] at hwell
      cases hpattern : q.op.isPattern <;> rw [hpattern] at hwell <;> cases hwell
  · intro hfits q hq n name hpairs
    obtain ⟨p, -, s0, hs0, hbuilt, hevolves⟩ := exists_of_mem_left hsettled hq
    obtain ⟨v, hv⟩ := hpairs.parameter_eq_some hbuilt.left hbuilt.right
    obtain ⟨v', hv', hkind, -⟩ := hevolves.parameters n v hv
    have hwell : wellKinded q.op.isPattern (env.fieldType name).kind v.kind = true := by
      rw [← Store.kind_parameter hv,
        ← hpairs.wellKinded_eq hs0.kind_of_points hbuilt.left hbuilt.right, ← hbuilt.op_eq]
      exact hbuilt.kinds
    rw [Store.kind_parameter hv']
    rcases hkind with hsame | ⟨hstring, hnumber⟩
    · rwa [hsame]
    · rw [hstring] at hwell
      obtain ⟨hliteral, henum⟩ := hs0.enum_of_changed hs hv hv' hstring hnumber
      exact absurd ⟨⟨q, hq, name, hpairs, wellKinded_text hwell⟩, henum⟩ (hfits n hliteral)

lemma Alive.sound_iff (he : Alive env node e) : Sound env e ↔ KindsFit e.store e.root.predicates :=
  ⟨And.left, fun hfit => ⟨hfit, Expression.evaluate_isSome he.sturdy hfit⟩⟩

/-- An update that succeeds leaves a sound filter behind if all the new literals fit, whatever the
parameters were before. -/
theorem changeParameters_sound_iff {e' : Expression F} (he : Alive env node e)
    (h : changeParameters env regexValid texts e = .updated e') :
    Sound env e' ↔ UpdateFits env node texts := by
  obtain ⟨he', hliteral⟩ := changeParameters_alive he h
  rw [he'.sound_iff, he'.kindsFit_iff]
  refine forall₂_congr fun q hq => forall₃_congr fun n name hpairs => ?_
  rw [hliteral q hq n name hpairs]
  simp only [some.injEq, forall_eq']

/-- A filter is sound after each update of a run exactly if the literals of each fit its predicates:
an update replaces the kinds, so none depends on those before it. -/
theorem afterUpdates_sound_iff (he : Alive env node e)
    (hrun : (afterUpdates env regexValid e us).isSome = true) :
    (∀ us' e', us' ≠ [] → us' <+: us → afterUpdates env regexValid e us' = some e' → Sound env e') ↔
      ∀ texts ∈ us, UpdateFits env node texts := by
  induction us generalizing e with
  | nil => exact ⟨fun _ => nofun, fun _ us' _ hne h => absurd (prefix_nil.mp h) hne⟩
  | cons texts us ih =>
    obtain ⟨final, hfinal⟩ := isSome_iff_exists.mp hrun
    obtain ⟨e1, hupdate, hrest⟩ := bind_eq_some_iff.mp hfinal
    have hchange := succeeded_eq_some_iff.mp hupdate
    have hstep (us' : List (List Text)) : afterUpdates env regexValid e (texts :: us') =
      afterUpdates env regexValid e1 us' := by
      rw [afterUpdates, foldlM_cons, hchange]
      rfl
    have ih := ih (changeParameters_alive he hchange).1 (isSome_iff_exists.mpr ⟨final, hrest⟩)
    rw [forall_mem_cons, ← ih, ← changeParameters_sound_iff he hchange]
    constructor
    · intro hsound
      refine ⟨hsound [texts] e1 (by simp) (by simp) (hstep []), fun us' e' hne hlead hafter => ?_⟩
      exact hsound (texts :: us') e' (by simp) (by simpa using hlead) ((hstep us').trans hafter)
    · rintro ⟨hfirst, hsound⟩ us' e' hne hlead hafter
      cases us' with
      | nil => exact absurd rfl hne
      | cons texts' us' =>
        obtain ⟨rfl, hrest⟩ := cons_prefix_cons.mp hlead
        rw [hstep] at hafter
        by_cases hnil : us' = []
        · subst hnil
          obtain rfl := some.inj hafter
          exact hfirst
        · exact hsound us' e' hnil hrest hafter

/-- A filter stays sound over a run of updates if and only if no predicate made a number of a text
that another one had been checked with, and every update gives every parameter a literal that goes
with the fields it is compared with. The source checks neither. -/
theorem contentFilter_sound_iff {e : Expression F} {us : List (List Text)}
    (hcreate : createContentFilter env texts node = some e)
    (hrun : (afterUpdates env regexValid e us).isSome = true) :
    (∀ us' e', us' <+: us → afterUpdates env regexValid e us' = some e' → Sound env e') ↔
      CreationFits env texts node ∧ ∀ texts' ∈ us, UpdateFits env node texts' := by
  have he := (createContentFilter_spec hcreate).1
  rw [← afterUpdates_sound_iff he hrun, ← createContentFilter_kindsFit_iff hcreate, ← he.sound_iff]
  constructor
  · exact fun hsound => ⟨hsound [] e nil_prefix rfl, fun us' e' _ => hsound us' e'⟩
  · rintro ⟨hfirst, hsound⟩ us' e' hlead hafter
    by_cases hnil : us' = []
    · subst hnil
      obtain rfl := some.inj hafter
      exact hfirst
    · exact hsound us' e' hnil hlead hafter

end Creation

section Examples

def color : EnumType where
  id := 0
  literals := [("red".toList, 0), ("green".toList, 1)]
  named := by decide

def quote : Char := Char.ofNat 39

def quoted (text : Text) : Text := quote :: text ++ [quote]

/-- Fields `x` of an integer type, `c` of the enumeration, and strings. Literals are those of the
grammar that have one digit or quotes: an UNSIGNED_INTEGER, a CHAR for a single character, and a
STRING otherwise. -/
def shapes : Env Int where
  parseLiteralValue
    | [d] => if d.isDigit then some (.unsignedInteger (d.toNat - 48)) else none
    | [q, c, q'] => if q = quote ∧ q' = quote then some (.char c) else none
    | text =>
      let content := (text.drop 1).dropLast
      if text = quoted content ∧ quote ∉ content then some (.string content) else none
  regexMatch text pattern := text = pattern
  fieldType name :=
    if name = ['x'] then .integer else if name = ['c'] then .enum color else .string8

def zeros : Sample shapes := fun name => some ⟨(shapes.fieldType name).zero, FieldType.kind_zero _⟩

def equalsParameter (name : Text) : ConditionNode Int :=
  .comparison (.fieldParameter name .equal (.index 0))

lemma equalsParameter_pairs {name field : Text} {q : Compared Int}
    (hq : q ∈ (equalsParameter name).compared) (h : q.Pairs n field) :
    q.op = .equal ∧ field = name ∧ n = 0 := by
  obtain rfl := mem_singleton.mp hq
  rcases h with ⟨hl, -⟩ | ⟨hl, hr⟩
  · cases hl
  · cases hl
    cases hr
    exact ⟨rfl, rfl, rfl⟩

/-- The filter and a sample after some updates: whether the assertions hold, if the calls succeed.
-/
def observe (node : ConditionNode Int) (texts : List Text) (us : List (List Text)) :
    Option Bool := do
  let e ← createContentFilter shapes texts node
  let e' ← afterUpdates shapes (fun _ => true) e us
  some (e'.evaluate shapes zeros).isSome

lemma calls_of_observe {node : ConditionNode Int} {b : Bool} (h : observe node texts us = some b) :
    ∃ e e', createContentFilter shapes texts node = some e ∧
      afterUpdates shapes (fun _ => true) e us = some e' ∧
      (e'.evaluate shapes zeros).isSome = b := by
  obtain ⟨e, hcreate, h⟩ := bind_eq_some_iff.mp h
  obtain ⟨e', hafter, h⟩ := bind_eq_some_iff.mp h
  exact ⟨e, e', hcreate, hafter, some.inj h⟩

lemma not_sound_of_observe {node : ConditionNode Int} (h : observe node texts us = some false) :
    ∃ e e', createContentFilter shapes texts node = some e ∧
      afterUpdates shapes (fun _ => true) e us = some e' ∧
      ¬Sound shapes e' := by
  obtain ⟨e, e', hcreate, hafter, hfalse⟩ := calls_of_observe h
  refine ⟨e, e', hcreate, hafter, fun hsound => ?_⟩
  rw [hsound.2 zeros] at hfalse
  cases hfalse

/-- The enumerator `red` is replaced by the number of another one. -/
theorem contentFilter_sound_color :
    ∃ e, createContentFilter shapes [quoted "red".toList] (equalsParameter ['c']) = some e ∧
      (afterUpdates shapes (fun _ => true) e [[['1']]]).isSome = true ∧
      ∀ us' e', us' <+: [[['1']]] → afterUpdates shapes (fun _ => true) e us' = some e' →
        Sound shapes e' := by
  obtain ⟨e, e', hcreate, hafter, -⟩ := calls_of_observe (b := true)
    (show observe (equalsParameter ['c']) [quoted "red".toList] [[['1']]] = _ by decide)
  have hrun := isSome_iff_exists.mpr ⟨e', hafter⟩
  refine ⟨e, hcreate, hrun, (contentFilter_sound_iff hcreate hrun).mpr ⟨?_, ?_⟩⟩
  · rintro n - ⟨⟨q, hq, name, hpairs, htext⟩, -⟩
    obtain ⟨-, rfl, -⟩ := equalsParameter_pairs hq hpairs
    rcases htext with htext | htext <;> cases htext
  · intro texts htexts q hq n name hpairs k hk
    obtain rfl := mem_singleton.mp htexts
    obtain ⟨hop, rfl, rfl⟩ := equalsParameter_pairs hq hpairs
    obtain rfl := some.inj hk
    rw [hop]
    rfl

/-- A number is replaced by a text; the name of an enumerator is given once more; the name of an
enumerator is also compared with a string. -/
theorem contentFilter_sound_lost :
    (∃ e e', createContentFilter shapes [['5']] (equalsParameter ['x']) = some e ∧
      afterUpdates shapes (fun _ => true) e [[quoted "abc".toList]] = some e' ∧ ¬Sound shapes e') ∧
    (∃ e e', createContentFilter shapes [quoted "red".toList] (equalsParameter ['c']) = some e ∧
      afterUpdates shapes (fun _ => true) e [[quoted "red".toList]] = some e' ∧ ¬Sound shapes e') ∧
    (∃ e e', createContentFilter shapes [quoted "red".toList]
        (.and (equalsParameter ['s']) (equalsParameter ['c'])) = some e ∧
      afterUpdates shapes (fun _ => true) e [] = some e' ∧ ¬Sound shapes e') :=
  ⟨not_sound_of_observe (by decide), not_sound_of_observe (by decide),
    not_sound_of_observe (by decide)⟩

end Examples

end EasyDds.Dds.Filter
