import Mathlib.Data.List.Forall2
import Mathlib.Tactic.Common

/-!
Regular expressions in the ECMAScript grammar, as far as sequences of simple terms go. A term is a
character that stands for itself, possibly repeated, or a dot, possibly starred. What an engine
makes of other expressions is left open.
-/

namespace EasyDds.EcmaScript

open List

def syntaxCharacter (c : Char) : Bool :=
  c ∈ ['^', '$', '\\', '.', '*', '+', '?', '(', ')', '[', ']', Char.ofNat 123, Char.ofNat 125, '|']

def lineTerminator (c : Char) : Bool :=
  c ∈ ['\n', '\r', Char.ofNat 0x2028, Char.ofNat 0x2029]

inductive Term
  | char (c : Char)
  | plus (c : Char)
  | dot
  | dotStar
deriving DecidableEq

namespace Term

def WellFormed : Term → Prop
  | char c | plus c => syntaxCharacter c = false
  | dot | dotStar => True

def render : Term → List Char
  | char c => [c]
  | plus c => [c, '+']
  | dot => ['.']
  | dotStar => ['.', '*']

def consumes : Term → List Char → Bool
  | char c, piece => piece = [c]
  | plus c, piece => !piece.isEmpty && piece.all (· = c)
  | dot, piece => piece.length = 1 && piece.all fun c => !lineTerminator c
  | dotStar, piece => piece.all fun c => !lineTerminator c

end Term

/-- The text is split into pieces that the terms match one after the other. -/
def Matches (terms : List Term) (text : List Char) : Prop :=
  ∃ pieces : List (List Char), pieces.flatten = text ∧
    Forall₂ (fun t piece => t.consumes piece = true) terms pieces

/-- An implementation of regular expressions: what it accepts, and what an accepted expression
matches as a whole. -/
structure Engine where
  accepts : List Char → Bool
  regexMatch : List Char → List Char → Bool

def renderAll (terms : List Term) : List Char := terms.flatMap Term.render

/-- The engine follows ECMAScript on sequences of terms, and knows that a group has to be closed. -/
structure Engine.Conforms (engine : Engine) : Prop where
  accepts : ∀ terms, (∀ t ∈ terms, t.WellFormed) → engine.accepts (renderAll terms) = true
  regexMatch : ∀ terms, (∀ t ∈ terms, t.WellFormed) → ∀ text,
    engine.regexMatch text (renderAll terms) = true ↔ Matches terms text
  unclosed : engine.accepts ['('] = false

section Fragment

/-- The terms of an expression that has no others, read from its end, with the quantifier that
stands in front of them. -/
def parseTerms : List Char → Option (Option Char × List Term)
  | [] => some (none, [])
  | c :: rest =>
    match parseTerms rest with
    | none => none
    | some (quantifier, terms) =>
      if c = '*' ∨ c = '+' then
        if quantifier = none then some (some c, terms) else none
      else if c = '.' then
        match quantifier with
        | none => some (none, .dot :: terms)
        | some q => if q = '*' then some (none, .dotStar :: terms) else none
      else if syntaxCharacter c then none
      else
        match quantifier with
        | none => some (none, .char c :: terms)
        | some q => if q = '+' then some (none, .plus c :: terms) else none

def parse (expr : List Char) : Option (List Term) :=
  match parseTerms expr with
  | some (none, terms) => some terms
  | _ => none

def matchTerms : List Term → List Char → Bool
  | [], text => text.isEmpty
  | t :: ts, text => (range (text.length + 1)).any fun k =>
    t.consumes (text.take k) && matchTerms ts (text.drop k)

def fragment : Engine where
  accepts expr := (parse expr).isSome
  regexMatch text expr := (parse expr).any (matchTerms · text)

variable {terms : List Term}

lemma matchTerms_iff {text : List Char} : matchTerms terms text = true ↔ Matches terms text := by
  induction terms generalizing text with
  | nil =>
    rw [matchTerms, List.isEmpty_iff]
    constructor
    · rintro rfl
      exact ⟨[], rfl, .nil⟩
    · rintro ⟨pieces, rfl, hpieces⟩
      cases hpieces
      rfl
  | cons t ts ih =>
    simp only [matchTerms, any_eq_true, mem_range, Bool.and_eq_true, ih]
    constructor
    · rintro ⟨k, -, hfirst, pieces, hflatten, hrest⟩
      refine ⟨text.take k :: pieces, ?_, .cons hfirst hrest⟩
      rw [flatten_cons, hflatten, take_append_drop]
    · rintro ⟨pieces, hflatten, hall⟩
      cases hall with
      | @cons _ piece _ rest hfirst hrest =>
        rw [flatten_cons] at hflatten
        refine ⟨piece.length, ?_, ?_, rest, ?_, hrest⟩
        · rw [← hflatten, length_append]
          omega
        · rw [← hflatten, take_left']
          exacts [hfirst, rfl]
        · rw [← hflatten, drop_left']
          rfl

lemma ne_of_not_syntax {c : Char} (h : syntaxCharacter c = false) :
    ¬(c = '*' ∨ c = '+') ∧ c ≠ '.' := by
  refine ⟨?_, ?_⟩
  · rintro (rfl | rfl) <;> cases h
  · rintro rfl
    cases h

lemma parseTerms_renderAll (h : ∀ t ∈ terms, t.WellFormed) :
    parseTerms (renderAll terms) = some (none, terms) := by
  induction terms with
  | nil => rfl
  | cons t ts ih =>
    rw [forall_mem_cons] at h
    have hrest : parseTerms (renderAll ts) = some (none, ts) := ih h.2
    cases t with
    | char c =>
      have hc : syntaxCharacter c = false := h.1
      obtain ⟨hquantifier, hdot⟩ := ne_of_not_syntax hc
      change parseTerms (c :: renderAll ts) = _
      simp only [parseTerms, hrest, if_neg hquantifier, if_neg hdot, hc, Bool.false_eq_true,
        if_false]
    | plus c =>
      have hc : syntaxCharacter c = false := h.1
      obtain ⟨hquantifier, hdot⟩ := ne_of_not_syntax hc
      change parseTerms (c :: '+' :: renderAll ts) = _
      simp [parseTerms, hrest, hquantifier, hdot, hc]
    | dot =>
      change parseTerms ('.' :: renderAll ts) = _
      simp [parseTerms, hrest]
    | dotStar =>
      change parseTerms ('.' :: '*' :: renderAll ts) = _
      simp [parseTerms, hrest]

lemma parse_renderAll (h : ∀ t ∈ terms, t.WellFormed) : parse (renderAll terms) = some terms := by
  rw [parse, parseTerms_renderAll h]

lemma fragment_conforms : fragment.Conforms where
  accepts terms h := by
    change (parse (renderAll terms)).isSome = true
    rw [parse_renderAll h]
    rfl
  regexMatch terms h text := by
    change (parse (renderAll terms)).any (matchTerms · text) = true ↔ _
    rw [parse_renderAll h]
    exact matchTerms_iff
  unclosed := by decide

end Fragment

end EasyDds.EcmaScript
