import Mathlib.Tactic
import Selatpay.Core.Text

/-!
# HTTP headers

Headers as package `net/http` keeps them: by canonical name, one value for a name that is
set. Setting the entries of a map one after the other leaves the last value of each
canonical name, so that the order of the entries matters where names coincide.
-/

namespace Selatpay.Http

/-! ## Canonical names -/

/-- `validHeaderFieldByte`: the bytes of a token. -/
def isTokenByte (c : UInt8) : Bool :=
  (48 ≤ c && c ≤ 57) || (65 ≤ c && c ≤ 90) || (97 ≤ c && c ≤ 122) ||
    [33, 35, 36, 37, 38, 39, 42, 43, 45, 46, 94, 95, 96, 124, 126].contains c

/-- One byte of a canonical name. -/
def canonicalByte (upper : Bool) (c : UInt8) : UInt8 :=
  if upper && 97 ≤ c && c ≤ 122 then c - 32
  else if !upper && 65 ≤ c && c ≤ 90 then c + 32
  else c

/-- The loop of `CanonicalMIMEHeaderKey`: upper case at the start and after a hyphen. -/
def canonicalLoop : Bool → Text → Text
  | _, [] => []
  | upper, c :: s => canonicalByte upper c :: canonicalLoop (canonicalByte upper c == 45) s

/-- `CanonicalHeaderKey`; what is no token stays as it is. -/
def canonicalHeaderKey (s : Text) : Text :=
  if s.all isTokenByte then canonicalLoop true s else s

theorem isTokenByte_iff (c : UInt8) : isTokenByte c ↔
    (48 ≤ c.toNat ∧ c.toNat ≤ 57) ∨ (65 ≤ c.toNat ∧ c.toNat ≤ 90) ∨
      (97 ≤ c.toNat ∧ c.toNat ≤ 122) ∨
      c ∈ [33, 35, 36, 37, 38, 39, 42, 43, 45, 46, 94, 95, 96, 124, 126] := by
  simp only [isTokenByte, Bool.or_eq_true, Bool.and_eq_true, decide_eq_true_eq,
    List.contains_iff_mem, UInt8.le_iff_toNat_le, or_assoc]
  rfl

/-- The letters of one case are shifted, every other byte is kept. -/
theorem toNat_canonicalByte (upper : Bool) (c : UInt8) : (canonicalByte upper c).toNat =
    if upper ∧ 97 ≤ c.toNat ∧ c.toNat ≤ 122 then c.toNat - 32
    else if ¬ upper ∧ 65 ≤ c.toNat ∧ c.toNat ≤ 90 then c.toNat + 32
    else c.toNat := by
  unfold canonicalByte
  simp only [Bool.and_eq_true, Bool.not_eq_true', decide_eq_true_eq, UInt8.le_iff_toNat_le,
    and_assoc, Bool.not_eq_true]
  split
  · next h =>
    have hle : 97 ≤ c.toNat := h.2.1
    rw [UInt8.toNat_sub_of_le _ _ (UInt8.le_iff_toNat_le.mpr (le_trans (by decide) hle))]
    exact (if_pos h).symm
  · next h =>
    refine Eq.trans ?_ (if_neg h).symm
    split
    · next h' =>
      have hle : c.toNat ≤ 90 := h'.2.2
      have hlt : c.toNat + UInt8.toNat 32 < 2 ^ 8 :=
        lt_of_le_of_lt (Nat.add_le_add_right hle 32) (by decide)
      rw [UInt8.toNat_add, Nat.mod_eq_of_lt hlt]
      exact (if_pos h').symm
    · next h' => exact (if_neg h').symm

theorem canonicalByte_idem (upper : Bool) (c : UInt8) :
    canonicalByte upper (canonicalByte upper c) = canonicalByte upper c := by
  apply UInt8.toNat_inj.mp
  rw [toNat_canonicalByte upper (canonicalByte upper c), toNat_canonicalByte]
  cases upper <;> simp <;> split <;> omega

theorem isTokenByte_canonicalByte {upper : Bool} {c : UInt8} (h : isTokenByte c) :
    isTokenByte (canonicalByte upper c) := by
  by_cases hsame : canonicalByte upper c = c
  · rwa [hsame]
  · have hletter := toNat_canonicalByte upper c
    have hne : (canonicalByte upper c).toNat ≠ c.toNat := fun he => hsame (UInt8.toNat_inj.mp he)
    rw [isTokenByte_iff]
    split at hletter
    · omega
    · split at hletter
      · omega
      · exact absurd hletter hne

theorem all_isTokenByte_canonicalLoop {upper : Bool} {s : Text} (h : s.all isTokenByte) :
    (canonicalLoop upper s).all isTokenByte := by
  induction s generalizing upper with
  | nil => rfl
  | cons c s ih =>
    rw [List.all_cons, Bool.and_eq_true] at h
    rw [canonicalLoop, List.all_cons, isTokenByte_canonicalByte h.1, ih h.2, Bool.and_self]

theorem canonicalLoop_idem (upper : Bool) (s : Text) :
    canonicalLoop upper (canonicalLoop upper s) = canonicalLoop upper s := by
  induction s generalizing upper with
  | nil => rfl
  | cons c s ih => rw [canonicalLoop, canonicalLoop, canonicalByte_idem, ih]

/-- Canonical names stay as they are. -/
@[simp] theorem canonicalHeaderKey_idem (s : Text) :
    canonicalHeaderKey (canonicalHeaderKey s) = canonicalHeaderKey s := by
  by_cases h : s.all isTokenByte
  · rw [canonicalHeaderKey, canonicalHeaderKey, if_pos h,
      if_pos (all_isTokenByte_canonicalLoop h), canonicalLoop_idem]
  · rw [canonicalHeaderKey, canonicalHeaderKey, if_neg h, if_neg h]

/-! ## Headers -/

/-- A header, by name. -/
abbrev Header := Text → Option Text

namespace Header

/-- `make(Header)`. -/
def empty : Header := fun _ => none

/-- `Header.Set`. -/
def set (h : Header) (key value : Text) : Header := fun name =>
  if name = canonicalHeaderKey key then some value else h name

/-- `Header.Set` for each entry. -/
def setAll (h : Header) (es : List (Text × Text)) : Header :=
  es.foldl (fun h e => h.set e.1 e.2) h

/-- Only canonical names have a value. -/
def IsCanonical (h : Header) : Prop := ∀ name, h name ≠ none → canonicalHeaderKey name = name

variable {h : Header} {es : List (Text × Text)} {name : Text} {x : Option Text}

theorem set_apply (key value : Text) :
    h.set key value name = if name = canonicalHeaderKey key then some value else h name := rfl

theorem isCanonical_empty : empty.IsCanonical := fun _ hne => absurd rfl hne

theorem IsCanonical.set (hc : h.IsCanonical) (key value : Text) :
    (h.set key value).IsCanonical := by
  intro name hne
  rw [set_apply] at hne
  split at hne
  · next heq => rw [heq, canonicalHeaderKey_idem]
  · exact hc name hne

theorem IsCanonical.setAll (hc : h.IsCanonical) (es : List (Text × Text)) :
    (h.setAll es).IsCanonical := by
  induction es generalizing h with
  | nil => exact hc
  | cons e es ih => exact ih (hc.set e.1 e.2)

/-- A canonical name that has no value has none in any spelling. -/
theorem IsCanonical.eq_none (hc : h.IsCanonical) (hnone : h name = none) {name' : Text}
    (hname : canonicalHeaderKey name' = name) : h name' = none := by
  by_contra hne
  rw [hc name' hne] at hname
  exact hne (hname ▸ hnone)

@[simp] theorem setAll_append (es' : List (Text × Text)) :
    h.setAll (es ++ es') = (h.setAll es).setAll es' := List.foldl_append

/-- A name keeps its value if every entry for it has that value. -/
theorem setAll_apply_of_forall (hname : h name = x)
    (hes : ∀ e ∈ es, canonicalHeaderKey e.1 = name → some e.2 = x) : h.setAll es name = x := by
  induction es generalizing h with
  | nil => exact hname
  | cons e es ih =>
    have hset : h.set e.1 e.2 name = x := by
      rw [set_apply]
      split
      · next heq => exact hes e List.mem_cons_self heq.symm
      · exact hname
    exact ih hset fun e' he' => hes e' (List.mem_cons_of_mem e he')

/-- The last entry decides the value of its name. -/
theorem setAll_concat (e : Text × Text) :
    h.setAll (es ++ [e]) (canonicalHeaderKey e.1) = some e.2 := by
  rw [setAll_append]
  exact if_pos rfl

/-- An entry decides the value of its name if no other entry for it has another value. -/
theorem setAll_apply_of_mem {e : Text × Text} (he : e ∈ es)
    (hes : ∀ e' ∈ es, canonicalHeaderKey e'.1 = canonicalHeaderKey e.1 → e'.2 = e.2) :
    h.setAll es (canonicalHeaderKey e.1) = some e.2 := by
  obtain ⟨l, r, rfl⟩ := List.append_of_mem he
  rw [← List.singleton_append, ← List.append_assoc, setAll_append]
  refine setAll_apply_of_forall (setAll_concat e) fun e' he' hname => ?_
  rw [hes e' (by simp [he']) hname]

end Header

end Selatpay.Http
