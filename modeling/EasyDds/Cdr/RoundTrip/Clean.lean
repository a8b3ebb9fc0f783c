import EasyDds.Cdr.Decode.Spec
import Mathlib.Data.List.TakeWhile

/-!
Values that come back unchanged. The encodings cannot carry every C++ value: strings end at
their first NUL, a `wchar_t` has 16 bits and lengths have 32.
-/

namespace EasyDds.Cdr

open List

def Prim.Clean : (p : Prim) → p.denote → Prop
  | .wchar, x => x.toNat < 2 ^ 16
  | _, _ => True

def cleanString (v : List UInt8) : Prop := 0 ∉ v ∧ v.length + 1 < 2 ^ 32

def cleanWstring (v : List (BitVec 32)) : Prop :=
  (∀ c ∈ v, c ≠ 0 ∧ c.toNat < 2 ^ 16) ∧ (v.length * 2 % 2 ^ 32 = 0 → v = [])

def KeyTy.Clean : (k : KeyTy) → k.denote → Prop
  | .prim p, x => p.Clean x
  | .string, x => cleanString x

mutual

/-- Every part of the value is in the range of its encoding. -/
def Ty.Clean : (t : Ty) → t.denote → Prop
  | .prim p, x => p.Clean x
  | .string, v => cleanString v
  | .wstring, v => cleanWstring v
  | .array t _, v => ∀ x ∈ v.toList, t.Clean x
  | .vector t, v => v.length < 2 ^ 32 ∧ ∀ x ∈ v, t.Clean x
  | .map k t, m => ∀ d ∈ m.entries, k.Clean d.1 ∧ t.Clean d.2
  | .optional t, v => ∀ x, v = some x → t.Clean x
  | .struct _ ms, v => ms.Clean v

def Members.Clean : (ms : Members) → ms.denote → Prop
  | .nil, _ => True
  | .cons _ t ms, v => t.Clean v.1 ∧ ms.Clean v.2

end

lemma Prim.normal_wchar_toNat (x : Prim.denote .wchar) :
    (Prim.normal .wchar x).toNat = x.toNat % 2 ^ 16 := by
  simp only [Prim.normal, Prim.ofWire, Prim.toWire, BitVec.toNat_ofNat]
  omega

lemma Prim.normal_eq_iff (p : Prim) (x : p.denote) : p.normal x = x ↔ p.Clean x := by
  by_cases hp : p = .wchar
  · subst hp
    have hlt : ∀ y : BitVec 32, Prim.normal .wchar y = y ↔ y.toNat % 2 ^ 16 = y.toNat :=
      fun y => by rw [← BitVec.toNat_inj, Prim.normal_wchar_toNat]
    rw [hlt x]
    simp only [Prim.Clean]
    omega
  · simp only [Prim.normal_of_ne hp, true_iff]
    cases p <;> trivial

lemma Prim.clean_normal (p : Prim) (x : p.denote) : p.Clean (p.normal x) := by
  by_cases hp : p = .wchar
  · subst hp
    simp only [Prim.Clean, Prim.normal_wchar_toNat]
    omega
  · cases p <;> trivial

variable {β : Type}

lemma takeWhile_ne_zero [DecidableEq β] {zero : β} {v : List β} (h : zero ∉ v) :
    v.takeWhile (· != zero) = v := by
  rw [takeWhile_eq_self_iff]
  intro x hx
  simp only [bne_iff_ne]
  rintro rfl
  exact h hx

variable (v : List UInt8)

lemma not_mem_cString : 0 ∉ cString v := by
  intro h
  simpa using mem_takeWhile_imp h

lemma not_mem_wcString (v : List (BitVec 32)) : 0 ∉ wcString v := by
  intro h
  simpa using mem_takeWhile_imp h

lemma dropTerminator_of_not_mem [DecidableEq β] {zero : β} {cs : List β} (h : zero ∉ cs) :
    dropTerminator zero cs = cs := by
  rw [dropTerminator, if_neg]
  exact fun hlast => h (mem_of_getLast? hlast)

/-- The part of a string that is encoded, without its terminator. The length word counts the
terminator too, modulo 2^32. -/
theorem normalString_eq : normalString v =
    (cString v).take (((cString v).length % 2 ^ 32 + 1) % 2 ^ 32) := by
  set n := ((cString v).length % 2 ^ 32 + 1) % 2 ^ 32 with hn
  rcases Nat.lt_or_ge (cString v).length n with hlt | hge
  · have hlen : n = (cString v ++ [0]).length := by
      rw [length_append, length_singleton]
      omega
    rw [normalString, ← hn, hlen, take_length, take_of_length_le (by simp),
      dropTerminator, if_pos (by simp), dropLast_concat]
  · rw [normalString, ← hn, take_append_of_le_length hge]
    exact dropTerminator_of_not_mem fun h => not_mem_cString v (mem_of_mem_take h)

lemma normalString_eq_iff : normalString v = v ↔ cleanString v := by
  rw [normalString_eq]
  constructor
  · intro h
    have hmem : 0 ∉ v := by
      rw [← h]
      exact fun hzero => not_mem_cString v (mem_of_mem_take hzero)
    have hsame : cString v = v := takeWhile_ne_zero hmem
    have hlen := congrArg List.length h
    rw [hsame, length_take] at hlen
    exact ⟨hmem, by omega⟩
  · rintro ⟨hmem, hlen⟩
    have hsame : cString v = v := takeWhile_ne_zero hmem
    rw [hsame]
    exact take_of_length_le (by omega)

lemma length_normalString_lt : (normalString v).length < 2 ^ 32 := by
  rw [normalString_eq, length_take]
  omega

lemma normalWstring_eq_iff (v : List (BitVec 32)) : normalWstring v = v ↔ cleanWstring v := by
  unfold normalWstring cleanWstring
  constructor
  · intro h
    split at h
    case isTrue =>
      subst h
      simp
    case isFalse hne =>
      set w := wcString v with hw
      have hlead : w <+: v := takeWhile_prefix _
      have hlen := congrArg List.length h
      have hkept : dropTerminator 0 (w.map (Prim.normal .wchar)) = w.map (Prim.normal .wchar) := by
        unfold dropTerminator at hlen ⊢
        split at hlen
        · rw [length_dropLast, length_map] at hlen
          have := hlead.length_le
          have hnil : w = [] := length_eq_zero_iff.mp (by omega)
          simp [hnil]
        · rw [if_neg ‹_›]
      rw [hkept] at h hlen
      rw [length_map] at hlen
      have hsame : w = v := hlead.eq_of_length hlen
      rw [hsame] at h hne
      refine ⟨fun c hc => ⟨?_, ?_⟩, fun hzero => absurd hzero hne⟩
      · rintro rfl
        exact not_mem_wcString v (hw ▸ hsame ▸ hc)
      · have hid : v.map (Prim.normal .wchar) = v.map id := by rw [h, map_id]
        exact (Prim.normal_eq_iff .wchar c).mp (map_inj_left.mp hid c hc)
  · rintro ⟨hchars, hlen⟩
    have hmem : (0 : BitVec 32) ∉ v := fun h => (hchars 0 h).1 rfl
    have hsame : wcString v = v := takeWhile_ne_zero hmem
    have hmap : v.map (Prim.normal .wchar) = v := by
      conv_rhs => rw [← map_id v]
      exact map_congr_left fun c hc => (Prim.normal_eq_iff .wchar c).mpr (hchars c hc).2
    rw [hsame, hmap, dropTerminator_of_not_mem hmem]
    split
    case isTrue hzero => exact (hlen hzero).symm
    case isFalse => rfl

lemma KeyTy.normal_eq_iff (k : KeyTy) (x : k.denote) : k.normal x = x ↔ k.Clean x := by
  cases k with
  | prim p => exact p.normal_eq_iff x
  | string => exact normalString_eq_iff x

/-- Keys that are all images of keys of the same map are clean. -/
theorem KeyTy.clean_of_normal {k : KeyTy} {x y : k.denote} (hx : x = k.normal y)
    (hy : ∃ z, y = k.normal z) : k.Clean x := by
  cases k with
  | prim p =>
    rw [hx]
    exact p.clean_normal y
  | string =>
    obtain ⟨z, hz⟩ := hy
    have hlen : y.length < 2 ^ 32 := hz ▸ length_normalString_lt z
    simp only [KeyTy.normal, normalString_eq] at hx
    have hmem : 0 ∉ x := hx ▸ fun h => not_mem_cString y (mem_of_mem_take h)
    have hstart : cString y <+: y := takeWhile_prefix _
    have hle := hstart.length_le
    have hx' := congrArg List.length hx
    rw [length_take] at hx'
    exact ⟨hmem, by omega⟩

lemma map_eq_self_iff (f : β → β) (l : List β) : l.map f = l ↔ ∀ x ∈ l, f x = x := by
  have h : l.map f = l.map id ↔ ∀ x ∈ l, f x = id x := map_inj_left
  rwa [map_id] at h

/-- A map comes back when its entries do. The decoder inserts them again, so keys that became equal
on the way would leave one entry for two. -/
theorem normalMap_eq_iff {k : KeyTy} {ν : Type} (g : ν → ν) (m : OrderedMap k.rank ν) :
    OrderedMap.ofEntries (m.entries.map fun (x, y) => (k.normal x, g y)) = m ↔
      ∀ d ∈ m.entries, k.Clean d.1 ∧ g d.2 = d.2 := by
  constructor
  · intro h
    have hpre : ∀ d ∈ m.entries, ∃ d' ∈ m.entries, (k.normal d'.1, g d'.2) = d := by
      intro d hd
      rw [← h] at hd
      simpa using OrderedMap.mem_ofEntries hd
    have hkeys : ∀ d ∈ m.entries, k.Clean d.1 := by
      intro d hd
      obtain ⟨d', hd', rfl⟩ := hpre d hd
      obtain ⟨d'', -, rfl⟩ := hpre d' hd'
      exact KeyTy.clean_of_normal rfl ⟨d''.1, rfl⟩
    intro d hd
    refine ⟨hkeys d hd, ?_⟩
    obtain ⟨d', hd', hsame⟩ := hpre d hd
    have hkey : d'.1 = d.1 := by
      rw [← hsame]
      exact ((k.normal_eq_iff _).mpr (hkeys d' hd')).symm
    have heq : d' = d := OrderedMap.eq_of_key m hd' hd hkey
    rw [heq] at hsame
    exact congrArg Prod.snd hsame
  · intro h
    have hid : (m.entries.map fun (x, y) => (k.normal x, g y)) = m.entries :=
      (map_eq_self_iff _ _).mpr fun d hd =>
        Prod.ext ((k.normal_eq_iff _).mpr (h d hd).1) (h d hd).2
    rw [hid, OrderedMap.ofEntries_entries]

mutual

/-- Exactly the clean values come back as they were. `Clean` says type by type what encoding loses,
as the rest of a string behind a null. -/
theorem Ty.normal_eq_iff : (t : Ty) → (v : t.denote) → (t.normal v = v ↔ t.Clean v)
  | .prim p, x => p.normal_eq_iff x
  | .string, v => normalString_eq_iff v
  | .wstring, v => normalWstring_eq_iff v
  | .array t n, v => by
    simp only [Ty.normal, Ty.Clean]
    have hlist : (List.Vector.map t.normal v : List.Vector t.denote n) = v ↔
        v.toList.map t.normal = v.toList := by
      rw [← List.Vector.toList_map]
      exact ⟨fun h => congrArg _ h, fun h => List.Vector.eq _ _ h⟩
    rw [hlist, map_eq_self_iff]
    exact forall₂_congr fun x _ => t.normal_eq_iff x
  | .vector t, v => by
    simp only [Ty.normal, Ty.Clean]
    have hlist : (v.take (v.length % 2 ^ 32)).map t.normal = v ↔
        v.length < 2 ^ 32 ∧ v.map t.normal = v := by
      constructor
      · intro h
        have hlen := congrArg List.length h
        rw [length_map, length_take] at hlen
        have hlt : v.length < 2 ^ 32 := by omega
        rw [Nat.mod_eq_of_lt hlt, take_length] at h
        exact ⟨hlt, h⟩
      · rintro ⟨hlt, h⟩
        rw [Nat.mod_eq_of_lt hlt, take_length, h]
    rw [hlist, map_eq_self_iff]
    exact and_congr_right fun _ => forall₂_congr fun x _ => t.normal_eq_iff x
  | .map k t, m => by
    simp only [Ty.normal, Ty.Clean]
    rw [normalMap_eq_iff]
    exact forall₂_congr fun d _ => and_congr_right fun _ => t.normal_eq_iff d.2
  | .optional t, v => by
    simp only [Ty.normal, Ty.Clean]
    cases v with
    | none => simp
    | some x => simpa using t.normal_eq_iff x
  | .struct _ ms, v => by
    simp only [Ty.normal, Ty.Clean]
    exact ms.normal_eq_iff v

lemma Members.normal_eq_iff : (ms : Members) → (v : ms.denote) → (ms.normal v = v ↔ ms.Clean v)
  | .nil, _ => by simp [Members.normal, Members.Clean]
  | .cons _ t ms, v => by
    simp only [Members.normal, Members.Clean]
    rw [← t.normal_eq_iff v.1, ← ms.normal_eq_iff v.2]
    exact Prod.ext_iff

end

end EasyDds.Cdr
