import EasyDds.Cdr.Decode.Scalar

/-!
Which values survive encoding and decoding. `normal` is the value that comes back, `Sound`
says that the decoder accepts the image at all, and `Fresh` that a target does not hold
anything a decoder would keep.
-/

namespace EasyDds.Cdr

def KeyTy.normal : (k : KeyTy) → k.denote → k.denote
  | .prim p, x => p.normal x
  | .string, x => normalString x

mutual

def Ty.normal : (t : Ty) → t.denote → t.denote
  | .prim p, x => p.normal x
  | .string, v => normalString v
  | .wstring, v => normalWstring v
  | .array t n, v => (List.Vector.map t.normal v : List.Vector t.denote n)
  | .vector t, v => ((v.take (v.length % 2 ^ 32)).map t.normal : List t.denote)
  | .map k t, m =>
    OrderedMap.ofEntries (m.entries.map fun (x, y) => (k.normal x, t.normal y))
  | .optional t, v => (v.map t.normal : Option t.denote)
  | .struct _ ms, v => ms.normal v

def Members.normal : (ms : Members) → ms.denote → ms.denote
  | .nil, _ => ()
  | .cons _ t ms, v => (t.normal v.1, ms.normal v.2)

end

mutual

/-- A target whose old content does not show after decoding. -/
def Ty.Fresh : (t : Ty) → t.denote → Prop
  | .prim _, _ | .string, _ | .wstring, _ => True
  | .array t _, x => ∀ y ∈ x.toList, t.Fresh y
  | .vector t, x => ∀ y ∈ x, t.Fresh y
  | .map _ t, m => t.isArithmetic → m.entries = []
  | .optional _, x => x = none
  | .struct _ ms, x => ms.Fresh x

def Members.Fresh : (ms : Members) → ms.denote → Prop
  | .nil, _ => True
  | .cons _ t ms, x => t.Fresh x.1 ∧ ms.Fresh x.2

end

def Extensibility.isBare (version : CdrVersion) (x : Extensibility) : Bool :=
  match version with
  | .xcdrV2 => x = .final
  | .xcdrV1 => x ≠ .mutable
  | .ddsCdr | .corbaCdr => true

mutual

def Ty.isEmpty (version : CdrVersion) : Ty → Bool
  | .prim _ | .string | .wstring | .vector _ | .map _ _ | .optional _ => false
  | .array t n =>
    (version ≠ .xcdrV2 || t.isMultiArrayPrimitive) && (n = 0 || t.isFlatEmpty version)
  | .struct x ms => x.isBare version && ms.isEmpty version

/-- Types whose values take no bytes as elements of an array, where an array has no DHEADER
of its own. -/
def Ty.isFlatEmpty (version : CdrVersion) : Ty → Bool
  | .array t n => n = 0 || t.isFlatEmpty version
  | .prim _ | .string | .wstring | .vector _ | .map _ _ | .optional _ => false
  | .struct x ms => x.isBare version && ms.isEmpty version

def Members.isEmpty (version : CdrVersion) : Members → Bool
  | .nil => true
  | .cons _ t ms => t.isEmpty version && ms.isEmpty version

end

/-- Whether the first word of a member's image, where it is used as NEXTINT, says how long
the image is. Two kinds of members set the flag without meaning it. -/
def Ty.NextIntOk : (t : Ty) → t.denote → Prop
  | .map .string (.prim _), m => m.entries = []
  | .vector (.prim .wchar), v => v = []
  | .optional t, v => ∀ x, v = some x → t.NextIntOk x
  | _, _ => True

def Ty.payload : Ty → Ty
  | .optional t => t
  | t => t

/-- Element types of a vector that the decoder reads back as they were written. In XCDRv2 the
encoder flattens arrays of other than primitive elements and the decoder expects a DHEADER
for each; before XCDRv2 the count is checked against the bytes that are left. -/
def Ty.VectorOk (version : CdrVersion) (t : Ty) : Prop :=
  match version with
  | .xcdrV2 => match t with
    | .array t' _ => t'.isMultiArrayPrimitive
    | _ => True
  | _ => t.isFlatEmpty version = false

def Ty.MemberOk (version : CdrVersion) (x : Extensibility) (t : Ty) (v : t.denote) : Prop :=
  t.hasValue v →
    match version with
    | .xcdrV2 => x = .mutable → t.payload.isEmpty version = false ∧ t.NextIntOk v
    | _ => x ≠ .mutable → t.isOptional → t.payload.isEmpty version = false

/-- An optional outside of a member is only recognisable by its presence flag or by the
bytes of its content. -/
def Ty.OptionalOk (P : Profile) (e : EncodingAlgorithmFlag) (t : Ty) (v : Option t.denote) : Prop :=
  (P.version = .xcdrV2 ∧ e ≠ .plCdr2) ∨ (v.isSome ∧ t.isEmpty P.version = false)

mutual

/-- The decoder accepts the image of the value. -/
def Ty.Sound (P : Profile) (e : EncodingAlgorithmFlag) (asMember : Bool) :
    (t : Ty) → t.denote → Prop
  | .prim _, _ | .string, _ | .wstring, _ => True
  | .array t _, v => ∀ x ∈ v.toList, t.Sound P e false x
  | .vector t, v => (v = [] ∨ t.VectorOk P.version) ∧ ∀ x ∈ v, t.Sound P e false x
  | .map _ t, m => ∀ d ∈ m.entries, t.Sound P e false d.2
  | .optional t, v =>
    (asMember = false → t.OptionalOk P e v) ∧ ∀ x, v = some x → t.Sound P e false x
  | .struct x ms, v => ms.Sound P x v

def Members.Sound (P : Profile) (x : Extensibility) : (ms : Members) → ms.denote → Prop
  | .nil, _ => True
  | .cons _ t ms, v =>
    t.MemberOk P.version x v.1 ∧ t.Sound P (x.encoding P.version) true v.1 ∧ ms.Sound P x v.2

end

mutual

/-- Structures whose members a functor can tell apart. -/
def Ty.Distinct : Ty → Prop
  | .prim _ | .string | .wstring => True
  | .array t _ | .vector t | .map _ t | .optional t => t.Distinct
  | .struct _ ms => ms.ids.Nodup ∧ ms.length < 2 ^ 32 ∧ ms.Distinct

def Members.Distinct : Members → Prop
  | .nil => True
  | .cons _ t ms => t.Distinct ∧ ms.Distinct

end

mutual

def Ty.rounds : Ty → Nat
  | .prim _ | .string | .wstring => 0
  | .array t _ | .vector t | .map _ t | .optional t => t.rounds
  | .struct _ ms => max (ms.length + 1) ms.rounds

def Members.rounds : Members → Nat
  | .nil => 0
  | .cons _ t ms => max t.rounds ms.rounds

end

end EasyDds.Cdr
