import EasyDds.Lib.EcmaScript
import EasyDds.Dds.Filter.Rollback

/-!
LIKE. A pattern becomes a regular expression by four substitutions, and what is not substituted
keeps its meaning as a regular expression.
-/

namespace EasyDds.Dds.Filter

open EcmaScript List Option

variable {F : Type}

def regexReplace (c : Char) (replacement s : Text) : Text :=
  s.flatMap fun x => if x = c then replacement else [x]

/-- The four substitutions of `value_has_changed`, one after the other. -/
def likeSubstitutions (s : Text) : Text :=
  regexReplace '_' ['.'] (regexReplace '%' ['.', '*'] (regexReplace '?' ['.']
    (regexReplace '*' ['.', '*'] s)))

def Stands (c : Char) (piece : Text) : Prop :=
  if c = '%' ∨ c = '*' then True
  else if c = '_' ∨ c = '?' then piece.length = 1
  else piece = [c]

def LikeSplit (pattern text : Text) : Prop :=
  ∃ pieces : List Text, pieces.flatten = text ∧ Forall₂ Stands pattern pieces

def wildcard (c : Char) : Bool := c = '%' || c = '*' || c = '_' || c = '?'

/-- No character of the pattern has a meaning of its own in a regular expression. -/
def PlainPattern (pattern : Text) : Prop :=
  ∀ c ∈ pattern, wildcard c = true ∨ syntaxCharacter c = false

/-- The line terminators that a pattern has itself, beside what its wildcards stand for. -/
def ownTerminators (pattern : Text) : Nat :=
  pattern.countP fun c => !wildcard c && lineTerminator c

/-- The text on the left of a LIKE, for the kinds of operands that it is defined for. -/
def likeText (left right : Value F) : Option Text :=
  match left, right with
  | .char c, .string _ => some (Value.charText c)
  | .string s, .char _ | .string s, .string _ => some s
  | _, _ => none

structure LikeOf (s : Store F) (p : Predicate F) (pattern text : Text) : Prop where
  op : p.op = .like
  operands : ∃ w : FilterValue F, FilterValue.patternText w.value = some pattern ∧
    likeText (s.get p.left).value w.value = some text ∧
    s.get p.right = { w with regularExprKind := .like }.valueHasChangedUnchecked

def term (c : Char) : Term :=
  if c = '%' ∨ c = '*' then .dotStar else if c = '_' ∨ c = '?' then .dot else .char c

section Substitution

lemma regexReplace_append (c : Char) (replacement s t : Text) :
    regexReplace c replacement (s ++ t) =
      regexReplace c replacement s ++ regexReplace c replacement t :=
  flatMap_append

lemma likeSubstitutions_append (s t : Text) :
    likeSubstitutions (s ++ t) = likeSubstitutions s ++ likeSubstitutions t := by
  simp only [likeSubstitutions, regexReplace_append]

lemma likeSubstitutions_singleton (c : Char) : likeSubstitutions [c] = (term c).render := by
  by_cases hstar : c = '*'
  · subst hstar
    rfl
  by_cases hone : c = '?'
  · subst hone
    rfl
  by_cases hpercent : c = '%'
  · subst hpercent
    rfl
  by_cases hunderscore : c = '_'
  · subst hunderscore
    rfl
  simp [likeSubstitutions, regexReplace, term, Term.render, hstar, hone, hpercent, hunderscore]

/-- No substitution changes what an earlier one has put in, so that the chain of them renders each
character by itself. -/
theorem likeSubstitutions_eq (s : Text) : likeSubstitutions s = renderAll (s.map term) := by
  induction s with
  | nil => rfl
  | cons c s ih =>
    rw [← singleton_append, likeSubstitutions_append, likeSubstitutions_singleton, ih]
    rfl

lemma likePattern_eq (s : Text) : FilterValue.likePattern s = likeSubstitutions s := by
  rw [likeSubstitutions_eq]
  induction s with
  | nil => rfl
  | cons c s ih =>
    change (if c = '*' ∨ c = '%' then ['.', '*'] else if c = '?' ∨ c = '_' then ['.'] else [c]) ++
      FilterValue.likePattern s = (term c).render ++ renderAll (s.map term)
    rw [ih, term]
    simp only [or_comm (a := c = '%'), or_comm (a := c = '_')]
    split
    case isTrue => rfl
    case isFalse => split <;> rfl

end Substitution

section Matching

variable {pattern text : Text}

lemma term_wellFormed (h : PlainPattern pattern) : ∀ t ∈ pattern.map term, t.WellFormed := by
  intro t ht
  obtain ⟨c, hc, rfl⟩ := mem_map.mp ht
  rw [term]
  split
  case isTrue => trivial
  case isFalse hany =>
    split
    case isTrue => trivial
    case isFalse hone =>
      refine (h c hc).resolve_left fun hwild => ?_
      simp only [wildcard, Bool.or_eq_true, decide_eq_true_eq] at hwild
      tauto

variable {c : Char} {piece : Text}

lemma wildcard_eq_false (hany : ¬(c = '%' ∨ c = '*')) (hone : ¬(c = '_' ∨ c = '?')) :
    wildcard c = false := by
  simp only [wildcard, Bool.or_eq_false_iff, decide_eq_false_iff_not]
  tauto

/-- A term matches nothing that its character does not stand for. -/
theorem stands_of_consumes (h : (term c).consumes piece = true) : Stands c piece := by
  rw [term] at h
  rw [Stands]
  split
  case isTrue => trivial
  case isFalse hany =>
    rw [if_neg hany] at h
    split
    case isTrue hone =>
      rw [if_pos hone, Term.consumes, Bool.and_eq_true, decide_eq_true_eq] at h
      exact h.1
    case isFalse hone =>
      rw [if_neg hone, Term.consumes, decide_eq_true_eq] at h
      exact h

lemma likeSplit_of_matches (h : Matches (pattern.map term) text) : LikeSplit pattern text := by
  obtain ⟨pieces, hflatten, hpieces⟩ := h
  refine ⟨pieces, hflatten, ?_⟩
  rw [List.forall₂_map_left_iff] at hpieces
  exact hpieces.imp fun _ _ => stands_of_consumes

/-- The pattern with a line break in the place of every wildcard. -/
def broken (pattern : Text) : Text := pattern.map fun c => if wildcard c then '\n' else c

lemma likeSplit_broken (pattern : Text) : LikeSplit pattern (broken pattern) := by
  refine ⟨pattern.map fun c => [if wildcard c then '\n' else c], ?_, ?_⟩
  · induction pattern with
    | nil => rfl
    | cons c pattern ih =>
      rw [map_cons, flatten_cons, ih]
      rfl
  · rw [List.forall₂_map_right_iff, forall₂_same]
    intro c _
    rw [Stands]
    split
    case isTrue => trivial
    case isFalse hany =>
      split
      case isTrue => rfl
      case isFalse hone =>
        rw [wildcard_eq_false hany hone]
        rfl

/-- What a term matches has line terminators only where the pattern itself has one: the `.` that a
wildcard becomes matches none. -/
theorem countP_consumes (h : (term c).consumes piece = true) :
    piece.countP lineTerminator = if wildcard c then 0 else [c].countP lineTerminator := by
  have hnone : (piece.all fun x => !lineTerminator x) = true → piece.countP lineTerminator = 0 := by
    intro hall
    rw [countP_eq_zero]
    simpa using hall
  rw [term] at h
  split at h
  case isTrue hany =>
    have hwild : wildcard c = true := by rcases hany with rfl | rfl <;> rfl
    rw [hwild, hnone h]
    rfl
  case isFalse hany =>
    split at h
    case isTrue hone =>
      have hwild : wildcard c = true := by rcases hone with rfl | rfl <;> rfl
      rw [Term.consumes, Bool.and_eq_true] at h
      rw [hwild, hnone h.2]
      rfl
    case isFalse hone =>
      rw [Term.consumes, decide_eq_true_eq] at h
      rw [wildcard_eq_false hany hone, h]
      rfl

/-- A piece that a character stands for has the line terminators of the character at least, and is
matched if it has no others. -/
theorem consumes_of_stands (h : Stands c piece) :
    (if wildcard c then 0 else [c].countP lineTerminator) ≤ piece.countP lineTerminator ∧
      (piece.countP lineTerminator = (if wildcard c then 0 else [c].countP lineTerminator) →
        (term c).consumes piece = true) := by
  have hall : piece.countP lineTerminator = 0 → (piece.all fun x => !lineTerminator x) = true := by
    rw [countP_eq_zero]
    simp
  rw [Stands] at h
  rw [term]
  by_cases hany : c = '%' ∨ c = '*'
  · have hwild : wildcard c = true := by rcases hany with rfl | rfl <;> rfl
    rw [if_pos hany, if_pos hwild]
    exact ⟨Nat.zero_le _, hall⟩
  rw [if_neg hany] at h ⊢
  by_cases hone : c = '_' ∨ c = '?'
  · have hwild : wildcard c = true := by rcases hone with rfl | rfl <;> rfl
    rw [if_pos hone] at h ⊢
    rw [if_pos hwild]
    refine ⟨Nat.zero_le _, fun hcount => ?_⟩
    rw [Term.consumes, hall hcount, h]
    rfl
  · rw [if_neg hone] at h ⊢
    rw [h, wildcard_eq_false hany hone]
    exact ⟨le_rfl, fun _ => by rw [Term.consumes, decide_eq_true_eq]⟩

lemma ownTerminators_cons (c : Char) (pattern : Text) : ownTerminators (c :: pattern) =
    (if wildcard c then 0 else [c].countP lineTerminator) + ownTerminators pattern := by
  rw [ownTerminators, countP_cons, ownTerminators]
  cases wildcard c <;> simp [countP_cons, Nat.add_comm]

lemma ownTerminators_le {pieces : List Text} (h : Forall₂ Stands pattern pieces) :
    ownTerminators pattern ≤ pieces.flatten.countP lineTerminator := by
  induction h with
  | nil => exact Nat.zero_le _
  | cons hfirst _ ih =>
    rw [ownTerminators_cons, flatten_cons, countP_append]
    exact Nat.add_le_add (consumes_of_stands hfirst).1 ih

/-- A text that is split is matched if and only if no line terminator of it falls under a wildcard:
then it has only those of the pattern. -/
theorem matches_iff_of_likeSplit (h : LikeSplit pattern text) :
    Matches (pattern.map term) text ↔ text.countP lineTerminator = ownTerminators pattern := by
  constructor
  · clear h
    rintro ⟨pieces, rfl, hpieces⟩
    rw [List.forall₂_map_left_iff] at hpieces
    induction hpieces with
    | nil => rfl
    | cons hfirst _ ih =>
      rw [flatten_cons, countP_append, countP_consumes hfirst, ownTerminators_cons, ih]
  · obtain ⟨pieces, rfl, hpieces⟩ := h
    intro hcount
    refine ⟨pieces, rfl, List.forall₂_map_left_iff.mpr ?_⟩
    induction hpieces with
    | nil => exact .nil
    | cons hfirst hrest ih =>
      rw [flatten_cons, countP_append, ownTerminators_cons] at hcount
      -- Neither part has fewer than the pattern, so both have as many.
      obtain ⟨hle, hconsumes⟩ := consumes_of_stands hfirst
      have hle' := ownTerminators_le hrest
      exact .cons (hconsumes (by omega)) (ih (by omega))

lemma countP_broken (pattern : Text) : (broken pattern).countP lineTerminator =
      ownTerminators pattern + pattern.countP wildcard := by
  induction pattern with
  | nil => rfl
  | cons c pattern ih =>
    have hcons : broken (c :: pattern) = (if wildcard c then '\n' else c) :: broken pattern := rfl
    rw [hcons, countP_cons, ih, ownTerminators_cons, countP_cons]
    cases hwild : wildcard c with
    | false => simp [hwild]; omega
    | true => simp [hwild, lineTerminator]; omega

/-- A pattern with a wildcard does not match its broken text, in which each wildcard has become a
line terminator. -/
theorem wildcard_eq_false_of_matches (h : Matches (pattern.map term) (broken pattern)) :
    ∀ c ∈ pattern, wildcard c = false := by
  have hcount := (matches_iff_of_likeSplit (likeSplit_broken pattern)).1 h
  rw [countP_broken] at hcount
  have hzero : pattern.countP wildcard = 0 := by omega
  intro c hc
  exact Bool.eq_false_iff.mpr (countP_eq_zero.mp hzero c hc)

/-- A pattern without wildcards matches itself alone, also with line terminators. -/
theorem matches_of_likeSplit_of_literal (hliteral : ∀ c ∈ pattern, wildcard c = false)
    (h : LikeSplit pattern text) : Matches (pattern.map term) text := by
  obtain ⟨pieces, rfl, hpieces⟩ := h
  refine ⟨pieces, rfl, List.forall₂_map_left_iff.mpr ?_⟩
  have hboth := (List.forall₂_and_left _ _).mpr ⟨hliteral, hpieces⟩
  refine hboth.imp fun c piece hc => ?_
  obtain ⟨hwild, hstands⟩ := hc
  simp only [wildcard, Bool.or_eq_false_iff, decide_eq_false_iff_not] at hwild
  have hany : ¬(c = '%' ∨ c = '*') := by tauto
  have hone : ¬(c = '_' ∨ c = '?') := by tauto
  rw [Stands, if_neg hany, if_neg hone] at hstands
  rw [term, if_neg hany, if_neg hone, Term.consumes, decide_eq_true_eq, hstands]

end Matching

section Predicates

variable [LongDouble F] {env : Env F} {engine : Engine} {s : Store F} {p : Predicate F}
  {pattern text : Text}

lemma LikeOf.holds_eq (h : LikeOf s p pattern text) :
    p.holds env s = some (env.regexMatch text (FilterValue.likePattern pattern)) := by
  obtain ⟨w, hpattern, htext, hright⟩ := h.operands
  have hmade : s.get p.right = ⟨w.value, .like, some (FilterValue.likePattern pattern)⟩ := by
    rw [hright, valueHasChangedUnchecked_eq, if_neg (by simp)]
    simp only [hpattern]
    rfl
  rw [Predicate.holds, h.op]
  simp only [FilterValue.isLike, hmade, bind_eq_bind, bind_some]
  unfold likeText at htext
  split at htext <;> simp_all

lemma LikeOf.holds_iff (hengine : engine.Conforms) (henv : env.regexMatch = engine.regexMatch)
    (hplain : PlainPattern pattern) (h : LikeOf s p pattern text) :
    p.holds env s = some true ↔ Matches (pattern.map term) text := by
  rw [h.holds_eq, henv, some.injEq, likePattern_eq, likeSubstitutions_eq,
    hengine.regexMatch _ (term_wellFormed hplain)]

/-- A LIKE predicate whose pattern has no character with a meaning of its own in a regular
expression can be built. Its answer for a text is right unless the text is split, but with line
terminators that only a wildcard could stand for; so it is right for all texts if and only if the
pattern has no wildcards either. -/
theorem like_holds_iff (hengine : engine.Conforms) (henv : env.regexMatch = engine.regexMatch)
    (hplain : PlainPattern pattern) (hlength : pattern.length ≤ 255) :
    engine.accepts (FilterValue.likePattern pattern) = true ∧
    (∀ (s : Store F) p text, LikeOf s p pattern text →
      ((p.holds env s = some true ↔ LikeSplit pattern text) ↔
        (LikeSplit pattern text → text.countP lineTerminator = ownTerminators pattern))) ∧
    ((∀ (s : Store F) p text, LikeOf s p pattern text → text.length ≤ 255 →
      (p.holds env s = some true ↔ LikeSplit pattern text)) ↔
        ∀ c ∈ pattern, wildcard c = false) := by
  refine ⟨?_, fun s p text hlike => ?_, fun hright => ?_, fun hliteral s p text hlike _ => ?_⟩
  · rw [likePattern_eq, likeSubstitutions_eq]
    exact hengine.accepts _ (term_wellFormed hplain)
  · rw [hlike.holds_iff hengine henv hplain]
    constructor
    · intro h hsplit
      exact (matches_iff_of_likeSplit hsplit).1 (h.2 hsplit)
    · intro h
      exact ⟨likeSplit_of_matches, fun hsplit => (matches_iff_of_likeSplit hsplit).2 (h hsplit)⟩
  · have hlike : LikeOf (F := F) ⟨fun _ => none, [], []⟩
        ⟨.like, .constant (.plain (.string (broken pattern))), .constant
          ({ FilterValue.plain (.string pattern) with
            regularExprKind := .like } : FilterValue F).valueHasChangedUnchecked⟩
        pattern (broken pattern) := ⟨rfl, .plain (.string pattern), rfl, rfl, rfl⟩
    have hbroken := (hright _ _ _ hlike (by rwa [broken, length_map])).mpr
      (likeSplit_broken pattern)
    rw [hlike.holds_iff hengine henv hplain] at hbroken
    exact wildcard_eq_false_of_matches hbroken
  · rw [hlike.holds_iff hengine henv hplain]
    exact ⟨likeSplit_of_matches, matches_of_likeSplit_of_literal hliteral⟩

end Predicates

section Examples

def simpleShapes : Env Int := { shapes with regexMatch := fragment.regexMatch }

def likeAnswer (pattern text : Text) : Option Bool :=
  Predicate.holds simpleShapes ⟨fun _ => none, [], []⟩ ⟨.like, .constant (.plain (.string text)),
    .constant ((FilterValue.plain (.string pattern)).asRegularExpression .like true)⟩

lemma likeOf_constant (pattern text : Text) :
    LikeOf (F := Int) ⟨fun _ => none, [], []⟩ ⟨.like, .constant (.plain (.string text)),
      .constant ((FilterValue.plain (.string pattern)).asRegularExpression .like true)⟩
      pattern text :=
  ⟨rfl, .plain (.string pattern), rfl, rfl, rfl⟩

/-- `'ab' LIKE 'a%'`, and the same pattern for a text of two lines that is not split. -/
theorem like_holds_percent :
    PlainPattern ['a', '%'] ∧
      (likeAnswer ['a', '%'] ['a', 'b'] = some true ↔ LikeSplit ['a', '%'] ['a', 'b']) ∧
      (likeAnswer ['a', '%'] ['b', '\n'] = some true ↔ LikeSplit ['a', '%'] ['b', '\n']) := by
  have hplain : PlainPattern ['a', '%'] := by
    rw [PlainPattern, forall_mem_cons, forall_mem_singleton]
    decide
  have henv : simpleShapes.regexMatch = fragment.regexMatch := rfl
  have hpair := (like_holds_iff fragment_conforms henv hplain (by decide)).2.1
  refine ⟨hplain, (hpair _ _ _ (likeOf_constant _ _)).2 fun _ => by decide,
    (hpair _ _ _ (likeOf_constant _ _)).2 ?_⟩
  rintro ⟨pieces, hflatten, hpieces⟩
  cases hpieces with
  | cons hfirst hrest =>
    simp [Stands] at hfirst
    subst hfirst
    cases hflatten

/-- A plus sign repeats the character in front of it, a bracket cannot be built, and a wildcard does
not stand for a line break. -/
theorem like_holds_lost : fragment.Conforms ∧
    (likeAnswer ['a', '+'] ['a', 'a'] = some true ∧ ¬LikeSplit ['a', '+'] ['a', 'a']) ∧
    fragment.accepts (FilterValue.likePattern ['(']) = false ∧
    (likeAnswer ['%'] ['\n'] = some false ∧ LikeSplit ['%'] ['\n']) := by
  refine ⟨fragment_conforms, ⟨by decide, ?_⟩, by decide, by decide, ?_⟩
  · rintro ⟨pieces, hflatten, hpieces⟩
    cases hpieces with
    | cons hfirst hrest =>
      cases hrest with
      | cons hsecond hnil =>
        cases hnil
        simp [Stands] at hfirst hsecond
        subst hfirst hsecond
        cases hflatten
  · exact ⟨[['\n']], rfl, .cons trivial .nil⟩

end Examples

end EasyDds.Dds.Filter
