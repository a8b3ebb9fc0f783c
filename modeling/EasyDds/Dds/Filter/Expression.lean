import EasyDds.Dds.Filter.Value

/-!
The predicates and conditions of a content filter, and `DDSFilterExpression::evaluate`. As in the
comparison of values, `none` is a failed assertion.
-/

namespace EasyDds.Dds.Filter

variable {F : Type}

/-- An enumeration as `transform_enum` finds it; without literals where the identifier is that of an
alias. Enumerators have names. -/
structure EnumType where
  id : Nat
  literals : List (Text × Int)
  named : ∀ literal ∈ literals, literal.1 ≠ []

inductive FieldType
  | boolean
  | char8
  | string8
  | integer
  | unsignedInteger
  | float32
  | float64
  | float128
  | enum (t : EnumType)

namespace FieldType

def kind : FieldType → ValueKind
  | boolean => .boolean
  | char8 => .char
  | string8 => .string
  | integer => .signedInteger
  | unsignedInteger => .unsignedInteger
  | float32 => .floatField
  | float64 => .doubleField
  | float128 => .longDoubleField
  | enum _ => .enum

def zero [LongDouble F] : FieldType → Value F
  | boolean => .boolean false
  | char8 => .char (Char.ofNat 0)
  | string8 => .string []
  | integer => .signedInteger 0
  | unsignedInteger => .unsignedInteger 0
  | float32 => .floatField (LongDouble.ofInt 0)
  | float64 => .doubleField (LongDouble.ofInt 0)
  | float128 => .longDoubleField (LongDouble.ofInt 0)
  | enum _ => .enum 0

end FieldType

inductive Literal (F : Type)
  | boolean (b : Bool)
  | signedInteger (i : Int)
  | unsignedInteger (n : Nat)
  | float (x : F)
  | char (c : Char)
  | string (s : Text)

def Literal.value : Literal F → Value F
  | boolean b => .boolean b
  | signedInteger i => .signedInteger i
  | unsignedInteger n => .unsignedInteger n
  | float x => .floatConst x
  | char c => .char c
  | string s => .string s

/-- What the filter takes from outside: the parser of literals, `std::regex_match`, and the type
that a field name of the expression leads to. -/
structure Env (F : Type) where
  parseLiteralValue : Text → Option (Literal F)
  regexMatch : Text → Text → Bool
  fieldType : Text → FieldType

structure FilterField (F : Type) where
  value : FilterValue F
  hasValue : Bool

/-- An operand of a predicate. Fields and parameters are shared between predicates. -/
inductive Operand (F : Type)
  | constant (v : FilterValue F)
  | field (name : Text)
  | parameter (index : Nat)

/-- The `fields` and `parameters` of a `DDSFilterExpression`; `fieldNames` is the order in which the
fields are visited. -/
structure Store (F : Type) where
  fields : Text → Option (FilterField F)
  fieldNames : List Text
  parameters : List (Option (FilterValue F))

namespace Store

def get (s : Store F) : Operand F → FilterValue F
  | .constant v => v
  | .field name => ((s.fields name).map (·.value)).getD (.plain (.string []))
  | .parameter index => (s.parameters[index]?.join).getD (.plain (.string []))

def hasValue (s : Store F) : Operand F → Bool
  | .field name => (s.fields name).any (·.hasValue)
  | .constant _ | .parameter _ => true

def kind (s : Store F) (o : Operand F) : ValueKind := (s.get o).kind

def resetFields (s : Store F) : Store F :=
  { s with fields := fun name => (s.fields name).map ({ · with hasValue := false }) }

end Store

inductive OperationKind
  | equal
  | notEqual
  | lessThan
  | lessEqual
  | greaterThan
  | greaterEqual
  | like
  | matches
deriving DecidableEq, Repr

def OperationKind.isPattern (op : OperationKind) : Bool := op = .like || op = .matches

structure Predicate (F : Type) where
  op : OperationKind
  left : Operand F
  right : Operand F

namespace Predicate

def mentions (p : Predicate F) (name : Text) : Bool :=
  match p.left, p.right with
  | .field n, .field m => n = name || m = name
  | .field n, _ | _, .field n => n = name
  | _, _ => false

variable [LongDouble F]

def holds (env : Env F) (s : Store F) (p : Predicate F) : Option Bool :=
  let l := s.get p.left
  let r := s.get p.right
  match p.op with
  | .equal => (l.value.compare r.value).map (· == 0)
  | .notEqual => (l.value.compare r.value).map (· != 0)
  | .lessThan => (l.value.compare r.value).map (decide <| · < 0)
  | .lessEqual => (l.value.compare r.value).map (decide <| · ≤ 0)
  | .greaterThan => (l.value.compare r.value).map (decide <| 0 < ·)
  | .greaterEqual => (l.value.compare r.value).map (decide <| 0 ≤ ·)
  | .like | .matches => l.isLike env.regexMatch r

end Predicate

/-- The conditions of an expression with their states: `none` is `UNDECIDED`. The numbers are those
of the decided children. -/
inductive Condition (F : Type)
  | predicate (p : Predicate F) (state : Option Bool)
  | negation (state : Option Bool) (decided : Nat) (child : Condition F)
  | compound (isAnd : Bool) (state : Option Bool) (decided : Nat) (left right : Condition F)

namespace Condition

def state : Condition F → Option Bool
  | predicate _ state | negation state _ _ | compound _ state _ _ _ => state

def reset : Condition F → Condition F
  | predicate p _ => predicate p none
  | negation _ _ child => negation none 0 child.reset
  | compound isAnd _ _ left right => compound isAnd none 0 left.reset right.reset

def predicates : Condition F → List (Predicate F)
  | predicate p _ => [p]
  | negation _ _ child => child.predicates
  | compound _ _ _ left right => left.predicates ++ right.predicates

def negationChanged (state : Option Bool) (decided : Nat) (child : Bool) : Option Bool × Nat :=
  (state.or (some !child), decided + 1)

/-- `child_has_changed` of a conjunction or disjunction. The child decides alone if it is false or
true, and together with the other one otherwise. -/
def compoundChanged (isAnd : Bool) (state : Option Bool) (decided : Nat) (child : Bool) :
    Option Bool × Nat :=
  (state.or (if child ≠ isAnd then some child else if decided + 1 = 2 then some isAnd else none),
    decided + 1)

/-- `set_state` of a child: the parent hears of it if the state is another one. -/
def hear (changed : Option Bool → Nat → Bool → Option Bool × Nat) (before after : Option Bool)
    (own : Option Bool × Nat) : Option Bool × Nat :=
  if after = before then own
  else
    match after with
    | some child => changed own.1 own.2 child
    | none => own

variable [LongDouble F]

/-- A field has a new value: the predicates that mention it are evaluated, and their conditions hear
of the results. -/
def notify (env : Env F) (s : Store F) (name : Text) : Condition F → Option (Condition F)
  | predicate p state =>
    if p.mentions name && s.hasValue p.left && s.hasValue p.right then do
      let result ← p.holds env s
      some (predicate p (some result))
    else some (predicate p state)
  | negation state decided child => do
    let child' ← child.notify env s name
    let own := hear negationChanged child.state child'.state (state, decided)
    some (negation own.1 own.2 child')
  | compound isAnd state decided left right => do
    let left' ← left.notify env s name
    let own := hear (compoundChanged isAnd) left.state left'.state (state, decided)
    let right' ← right.notify env s name
    let own' := hear (compoundChanged isAnd) right.state right'.state own
    some (compound isAnd own'.1 own'.2 left' right')

end Condition

def Sample (env : Env F) :=
  (name : Text) → Option { v : Value F // v.kind = (env.fieldType name).kind }

structure Expression (F : Type) where
  store : Store F
  root : Condition F

namespace Expression

def setField (s : Store F) (name : Text) (v : Value F) : Option (Store F) := do
  let field ← s.fields name
  let value ← { field.value with value := v }.valueHasChanged
  some { s with fields := Function.update s.fields name (some ⟨value, true⟩) }

variable [LongDouble F]

def evaluateFields (env : Env F) (sample : Sample env) :
    List Text → Store F → Condition F → Option Bool
  | [], _, root => some (root.state == some true)
  | name :: rest, s, root =>
    if root.state = none then
      match sample name with
      | none => some false
      | some v => do
        let s' ← setField s name v
        let root' ← root.notify env s' name
        evaluateFields env sample rest s' root'
    else some (root.state == some true)

/-- `evaluate` of a sample. What it leaves in the fields is reset before the next one. -/
def evaluate (env : Env F) (e : Expression F) (sample : Sample env) : Option Bool :=
  evaluateFields env sample e.store.fieldNames e.store.resetFields e.root.reset

end Expression

end EasyDds.Dds.Filter
