import Mathlib.Tactic.Common

/-!
`DDSFilterValue`: the values of a content filter, their comparison and their matching. Where the
source has `assert(false)`, or an `assert` that does not hold, the result is `none`.
-/

namespace EasyDds.Dds.Filter

abbrev Text := List Char

class LongDouble (F : Type) where
  ofInt : Int → F
  /-- The casts to `float` and `double`. -/
  toFloat : F → F
  toDouble : F → F
  lt : F → F → Bool

/-- Integers in the place of floating point numbers, for filters that have none. -/
instance : LongDouble Int := ⟨id, id, id, fun a b => decide (a < b)⟩

inductive ValueKind
  | boolean
  | enum
  | signedInteger
  | unsignedInteger
  | floatConst
  | floatField
  | doubleField
  | longDoubleField
  | char
  | string
deriving DecidableEq, Repr

inductive Value (F : Type)
  | boolean (b : Bool)
  | enum (i : Int)
  | signedInteger (i : Int)
  | unsignedInteger (n : Nat)
  | floatConst (x : F)
  | floatField (x : F)
  | doubleField (x : F)
  | longDoubleField (x : F)
  | char (c : Char)
  | string (s : Text)
deriving DecidableEq

namespace Value

variable {F : Type}

def kind : Value F → ValueKind
  | boolean _ => .boolean
  | enum _ => .enum
  | signedInteger _ => .signedInteger
  | unsignedInteger _ => .unsignedInteger
  | floatConst _ => .floatConst
  | floatField _ => .floatField
  | doubleField _ => .doubleField
  | longDoubleField _ => .longDoubleField
  | char _ => .char
  | string _ => .string

def compareValues {α : Type} (lt : α → α → Bool) (lvalue rvalue : α) : Int :=
  if lt lvalue rvalue then -1 else if lt rvalue lvalue then 1 else 0

def isNegative : Value F → Option Bool
  | boolean _ => some false
  | enum i | signedInteger i => some (decide (i < 0))
  | _ => none

def toSignedInteger : Value F → Option Int
  | boolean b => some b.toInt
  | enum i => some i
  | _ => none

def toUnsignedInteger : Value F → Option Nat
  | boolean b => some b.toNat
  | enum i | signedInteger i => some i.toNat
  | _ => none

def toFloat [LongDouble F] : Value F → Option F
  | enum i | signedInteger i => some (LongDouble.ofInt i)
  | unsignedInteger n => some (LongDouble.ofInt n)
  | floatConst x | floatField x | doubleField x | longDoubleField x => some x
  | _ => none

def charText (c : Char) : Text := if c.toNat = 0 then [] else [c]

def toStringValue : Value F → Option Text
  | char c => some (charText c)
  | _ => none

def charValue (c : Char) : Int := if c.toNat < 128 then c.toNat else c.toNat - 256

variable [LongDouble F]

def compareNumbers (lvalue rvalue : Int) : Int :=
  compareValues (fun a b => decide (a < b)) lvalue rvalue

def compareTexts (lvalue rvalue : Text) : Int :=
  compareValues (fun a b => decide (a < b)) lvalue rvalue

def compareFloats (cast : F → F) (lvalue rvalue : F) : Int :=
  compareValues LongDouble.lt (cast lvalue) (cast rvalue)

def compareSame : Value F → Value F → Option Int
  | boolean a, boolean b => some (a.toInt - b.toInt)
  | char a, char b => some (charValue a - charValue b)
  | signedInteger a, signedInteger b | enum a, enum b => some (compareNumbers a b)
  | unsignedInteger a, unsignedInteger b => some (compareNumbers a b)
  | floatField a, floatField b => some (compareFloats LongDouble.toFloat a b)
  | doubleField a, doubleField b => some (compareFloats LongDouble.toDouble a b)
  | longDoubleField a, longDoubleField b => some (compareFloats id a b)
  | string a, string b => some (compareTexts a b)
  | _, _ => none

def comparePromoted (lhs rhs : Value F) : Option Int :=
  match lhs with
  | enum a | signedInteger a => do
    let b ← rhs.toSignedInteger
    some (compareNumbers a b)
  | unsignedInteger a => do
    let negative ← rhs.isNegative
    if negative then some 1
    else
      let b ← rhs.toUnsignedInteger
      some (compareNumbers a b)
  | floatConst a | floatField a => do
    let b ← rhs.toFloat
    some (compareFloats LongDouble.toFloat a b)
  | doubleField a => do
    let b ← rhs.toFloat
    some (compareFloats LongDouble.toDouble a b)
  | longDoubleField a => do
    let b ← rhs.toFloat
    some (compareFloats id a b)
  | string a => do
    let b ← rhs.toStringValue
    some (compareTexts a b)
  | boolean _ | char _ => none

def compare (lhs rhs : Value F) : Option Int :=
  if lhs.kind = rhs.kind then compareSame lhs rhs
  else if lhs.kind.ctorIdx < rhs.kind.ctorIdx then (comparePromoted rhs lhs).map (- ·)
  else comparePromoted lhs rhs

end Value

inductive RegExpKind
  | none
  | like
  | matches
deriving DecidableEq, Repr

/-- `DDSFilterValue`: a value and, for the right side of LIKE and MATCH, its regular expression. -/
structure FilterValue (F : Type) where
  value : Value F
  regularExprKind : RegExpKind
  /-- What `regular_expr_` was made of. -/
  regularExpr : Option Text
deriving DecidableEq

namespace FilterValue

variable {F : Type}

def plain (v : Value F) : FilterValue F := ⟨v, .none, .none⟩

def kind (v : FilterValue F) : ValueKind := v.value.kind

def patternText (v : Value F) : Option Text :=
  match v with
  | .char c => some [c]
  | .string s => some s
  | _ => none

def likePattern (s : Text) : Text :=
  s.flatMap fun c =>
    if c = '*' ∨ c = '%' then ['.', '*'] else if c = '?' ∨ c = '_' then ['.'] else [c]

def pattern (k : RegExpKind) (s : Text) : Text := if k = .like then likePattern s else s

def valueHasChanged (v : FilterValue F) : Option (FilterValue F) :=
  if v.regularExprKind = .none then some v
  else do
    let s ← patternText v.value
    some { v with regularExpr := some (pattern v.regularExprKind s) }

def valueHasChangedUnchecked (v : FilterValue F) : FilterValue F :=
  v.valueHasChanged.getD { v with regularExpr := some (pattern v.regularExprKind []) }

def asRegularExpression (v : FilterValue F) (k : RegExpKind) (hasValue : Bool) : FilterValue F :=
  let v' := { v with regularExprKind := k }
  if hasValue then v'.valueHasChangedUnchecked else v'

def isLike (regexMatch : Text → Text → Bool) (v other : FilterValue F) : Option Bool := do
  let regex ← other.regularExpr
  match v.value, other.value with
  | .char c, .string _ => some (regexMatch (Value.charText c) regex)
  | .string s, .char _ | .string s, .string _ => some (regexMatch s regex)
  | _, _ => none

end FilterValue

end EasyDds.Dds.Filter
