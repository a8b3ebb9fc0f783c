import Mathlib.Data.Char
import Mathlib.Data.List.Lex
import Mathlib.Data.List.Sort
import EasyDds.Lib.Prog
import EasyDds.Dds.Filter.Expression

/-!
`DDSFilterFactory`: from the tree of a parsed expression to a filter, and the update of its
parameters. A conversion that returns `RETCODE_BAD_PARAMETER` raises.
-/

namespace EasyDds.Dds.Filter

open Prog

variable {F : Type}

inductive ParameterNode (F : Type)
  | literal (l : Literal F)
  | index (n : Nat)

inductive OperandNode (F : Type)
  | parameter (p : ParameterNode F)
  | field (name : Text)

inductive Comparison (F : Type)
  | parameterField (p : ParameterNode F) (op : OperationKind) (name : Text)
  | fieldParameter (name : Text) (op : OperationKind) (p : ParameterNode F)
  | fieldField (left : Text) (op : OperationKind) (right : Text)

namespace Comparison

def op : Comparison F → OperationKind
  | parameterField _ op _ | fieldParameter _ op _ | fieldField _ op _ => op

def left : Comparison F → OperandNode F
  | parameterField p _ _ => .parameter p
  | fieldParameter name _ _ | fieldField name _ _ => .field name

def right : Comparison F → OperandNode F
  | fieldParameter _ _ p => .parameter p
  | parameterField _ _ name | fieldField _ _ name => .field name

end Comparison

inductive ConditionNode (F : Type)
  | comparison (c : Comparison F)
  | between (negated : Bool) (name : Text) (op1 op2 : ParameterNode F)
  | not (c : ConditionNode F)
  | and (left right : ConditionNode F)
  | or (left right : ConditionNode F)

def checkValueCompatibility (left right : ValueKind) (ignoreEnum : Bool) : Bool :=
  if !ignoreEnum && right = .enum then
    left ∈ [.enum, .signedInteger, .unsignedInteger, .string]
  else
    match left with
    | .boolean => right ∈ [.boolean, .signedInteger, .unsignedInteger]
    | .signedInteger | .unsignedInteger =>
      right ∈ [.signedInteger, .unsignedInteger, .boolean, .floatConst, .floatField, .doubleField,
        .longDoubleField]
    | .char | .string => right ∈ [.char, .string]
    | .floatConst | .floatField | .doubleField | .longDoubleField =>
      right ∈ [.floatConst, .floatField, .doubleField, .longDoubleField, .signedInteger,
        .unsignedInteger]
    | .enum => !ignoreEnum && right ∈ [.enum, .signedInteger, .unsignedInteger, .string]

abbrev Converter (F : Type) := Prog (Store F) Unit

def put (o : Operand F) (v : FilterValue F) : Converter F (Operand F) :=
  match o with
  | .constant _ => pure (.constant v)
  | .field name => do
    modify fun s => { s with
      fields := Function.update s.fields name ((s.fields name).map ({ · with value := v })) }
    pure o
  | .parameter index => do
    modify fun s => { s with parameters := s.parameters.set index (some v) }
    pure o

def transformEnum (t : EnumType) (o : Operand F) : Converter F (Operand F) := do
  let v := (← read).get o
  match v.value with
  | .string name =>
    match t.literals.lookup name with
    | some i => put o { v with value := .signedInteger i }
    | none => raise ()
  | _ => raise ()

section Conversion

variable (env : Env F) (filterParameters : List Text)

def enumOf : OperandNode F → Option EnumType
  | .field name =>
    match env.fieldType name with
    | .enum t => some t
    | _ => none
  | .parameter _ => none

def transformEnums (left : Operand F) (leftNode : OperandNode F) (right : Operand F)
    (rightNode : OperandNode F) : Converter F (Operand F × Operand F) := do
  let s ← read
  if s.kind left = .enum ∧ s.kind right = .string then
    match enumOf env leftNode with
    | some t =>
      let right' ← transformEnum t right
      pure (left, right')
    | none => raise ()
  else if s.kind right = .enum ∧ s.kind left = .string then
    match enumOf env rightNode with
    | some t =>
      let left' ← transformEnum t left
      pure (left', right)
    | none => raise ()
  else pure (left, right)

def makePredicate (op : OperationKind) (left right : Operand F) : Converter F (Predicate F) := do
  if op.isPattern then
    let s ← read
    let kind : RegExpKind := if op = .like then .like else .matches
    let right' ← put right ((s.get right).asRegularExpression kind (s.hasValue right))
    pure ⟨op, left, right'⟩
  else pure ⟨op, left, right⟩

/-- The check of LIKE and MATCH: one of the sides is a field that is a string. -/
def hasStringField (s : Store F) (c : Comparison F) (left right : Operand F) : Bool :=
  (match c.left with | .field _ => s.kind left = .string | .parameter _ => false) ||
  (match c.right with | .field _ => s.kind right = .string | .parameter _ => false)

/-- The check of the kinds: enumerations among themselves have to be the same. -/
def kindsAgree (s : Store F) (c : Comparison F) (left right : Operand F) : Bool :=
  if s.kind left = .enum ∧ s.kind right = .enum then
    (enumOf env c.left).map (·.id) = (enumOf env c.right).map (·.id)
  else checkValueCompatibility (s.kind left) (s.kind right) c.op.isPattern

def setValue (v : FilterValue F) (text : Text) : Option (FilterValue F) := do
  let l ← env.parseLiteralValue text
  some { v with value := l.value }.valueHasChangedUnchecked

variable [LongDouble F]

/-- `convert_tree<DDSFilterValue>`. -/
def convertValue : OperandNode F → Converter F (Operand F)
  | .parameter (.literal l) => pure (.constant (.plain l.value))
  | .field name => do
    let s ← read
    if s.fields name = none then
      modify fun s => { s with
        fields := Function.update s.fields name (some ⟨.plain (env.fieldType name).zero, false⟩)
        fieldNames := s.fieldNames.orderedInsert (· ≤ ·) name }
    pure (.field name)
  | .parameter (.index n) => do
    match filterParameters[n]? with
    | none => raise ()
    | some text =>
      let s ← read
      if s.parameters[n]?.join = none then
        match env.parseLiteralValue text with
        | none => raise ()
        | some l =>
          modify fun s => { s with parameters := s.parameters.set n (some (.plain l.value)) }
          pure (.parameter n)
      else pure (.parameter n)

/-- `convert_tree<DDSFilterPredicate>`. -/
def convertPredicate (c : Comparison F) : Converter F (Condition F) := do
  let left ← convertValue env filterParameters c.left
  let right ← convertValue env filterParameters c.right
  let s ← read
  if c.op.isPattern && !hasStringField s c left right then raise ()
  else if !kindsAgree env s c left right then raise ()
  else do
    let (left', right') ← transformEnums env left c.left right c.right
    let p ← makePredicate c.op left' right'
    pure (.predicate p none)

/-- `convert_tree<between_op>`. -/
def convertBetween (negated : Bool) (name : Text) (op1 op2 : ParameterNode F) :
    Converter F (Condition F) := do
  let field ← convertValue env filterParameters (.field name)
  let o1 ← convertValue env filterParameters (.parameter op1)
  let o2 ← convertValue env filterParameters (.parameter op2)
  let s ← read
  if !checkValueCompatibility (s.kind field) (s.kind o1) false ||
      !checkValueCompatibility (s.kind field) (s.kind o2) false ||
      !checkValueCompatibility (s.kind o1) (s.kind o2) false then raise ()
  else
    let (field', o1') ← transformEnums env field (.field name) o1 (.parameter op1)
    let (field'', o2') ← transformEnums env field' (.field name) o2 (.parameter op2)
    let op : OperationKind := if negated then .greaterThan else .lessEqual
    let low ← makePredicate op o1' field''
    let high ← makePredicate op field'' o2'
    pure (.compound (!negated) none 0 (.predicate low none) (.predicate high none))

/-- `convert_tree<DDSFilterCondition>`. -/
def convertCondition : ConditionNode F → Converter F (Condition F)
  | .comparison c => convertPredicate env filterParameters c
  | .between negated name op1 op2 => convertBetween env filterParameters negated name op1 op2
  | .not c => do
    let child ← convertCondition c
    pure (.negation none 0 child)
  | .and left right => do
    let l ← convertCondition left
    let r ← convertCondition right
    pure (.compound true none 0 l r)
  | .or left right => do
    let l ← convertCondition left
    let r ← convertCondition right
    pure (.compound false none 0 l r)

def emptyStore : Store F := ⟨fun _ => none, [], List.replicate filterParameters.length none⟩

def createContentFilter (node : ConditionNode F) : Option (Expression F) :=
  match (convertCondition env filterParameters node).run (emptyStore filterParameters) with
  | (.ok root, s) => some ⟨s, root⟩
  | (.error _, _) => none

end Conversion

def FilterValue.copyFrom (v other : FilterValue F) (copyRegularExpression : Bool) : FilterValue F :=
  let copied := { v with value := other.value }
  if copyRegularExpression then
    { copied with regularExprKind := other.regularExprKind }.valueHasChangedUnchecked
  else copied

structure UpdateState (F : Type) where
  parameters : List (Option (FilterValue F))
  oldValues : List (FilterValue F)

inductive SetOutcome (F : Type)
  | finished (s : UpdateState F)
  | failed (n : Nat) (s : UpdateState F)
  | thrown

/-- How an update ends: with a return code, with an exception of `std::regex`, or with an access
through a null pointer. -/
inductive UpdateOutcome (F : Type)
  | updated (e : Expression F)
  | badParameter (e : Expression F)
  | thrown
  | nullAccess

def UpdateOutcome.succeeded : UpdateOutcome F → Option (Expression F)
  | updated e => some e
  | _ => none

section Update

variable (env : Env F) (regexValid : Text → Bool) (filterParameters : List Text)

/-- Whether `value_has_changed` makes a regular expression that `std::regex` accepts. -/
def accepted (v : FilterValue F) : Bool :=
  v.regularExprKind = .none || regexValid (v.regularExpr.getD [])

def setDown : Nat → UpdateState F → SetOutcome F
  | 0, s => .finished s
  | n + 1, s =>
    match s.parameters[n]?.join with
    | none => setDown n s
    | some v =>
      let saved := { s with
        oldValues := s.oldValues.set n ((FilterValue.plain (.string [])).copyFrom v true) }
      match filterParameters[n]?.bind (setValue env v) with
      | none => .failed n saved
      | some v' =>
        if accepted regexValid v' then
          setDown n { saved with parameters := s.parameters.set n (some v') }
        else .thrown

/-- The loop that copies the old values back to the `k` parameters from `n` on. -/
def restoreUp (oldValues : List (FilterValue F)) :
    Nat → Nat → List (Option (FilterValue F)) → Option (List (Option (FilterValue F)))
  | 0, _, ps => some ps
  | k + 1, n, ps =>
    match ps[n]?.join, oldValues[n]? with
    | some v, some old => restoreUp oldValues k (n + 1) (ps.set n (some (v.copyFrom old true)))
    | _, _ => none

def Expression.withParameters (e : Expression F) (ps : List (Option (FilterValue F))) :
    Expression F :=
  { e with store := { e.store with parameters := ps } }

/-- `create_content_filter` without an expression: the parameters get new values, the last one
first, and a call that fails puts the old ones back. -/
def changeParameters (e : Expression F) : UpdateOutcome F :=
  let nParams := e.store.parameters.length
  if filterParameters.length < nParams then .badParameter e
  else
    match setDown env regexValid filterParameters nParams
      ⟨e.store.parameters, List.replicate nParams (.plain (.string []))⟩ with
    | .finished s => .updated (e.withParameters s.parameters)
    | .thrown => .thrown
    | .failed n s =>
      match restoreUp s.oldValues (nParams - n) n s.parameters with
      | some ps => .badParameter (e.withParameters ps)
      | none => .nullAccess

end Update

end EasyDds.Dds.Filter
