import Selatpay.Core.Text

/-!
# Hexadecimal text

Bytes written as two digits each, as package `encoding/hex` does it in lower case and
as percent escapes do it in upper case. Reading accepts both cases.
-/

namespace Selatpay.Hex

/-- The lower-case digit of a number below sixteen. -/
def lowerDigit (n : Nat) : UInt8 := UInt8.ofNat (if n < 10 then 48 + n else 87 + n)

/-- The upper-case digit of a number below sixteen. -/
def upperDigit (n : Nat) : UInt8 := UInt8.ofNat (if n < 10 then 48 + n else 55 + n)

/-- The number of a digit in either case. -/
def nibble (c : UInt8) : Option Nat :=
  if 48 ≤ c ∧ c ≤ 57 then some (c.toNat - 48)
  else if 97 ≤ c ∧ c ≤ 102 then some (c.toNat - 87)
  else if 65 ≤ c ∧ c ≤ 70 then some (c.toNat - 55)
  else none

/-- The byte of two digits. -/
def byte (hi lo : Nat) : UInt8 := UInt8.ofNat (16 * hi + lo)

theorem nibble_lowerDigit : ∀ n < 16, nibble (lowerDigit n) = some n := by decide

theorem nibble_upperDigit : ∀ n < 16, nibble (upperDigit n) = some n := by decide

theorem div_lt (b : UInt8) : b.toNat / 16 < 16 := by
  have := b.toNat_lt
  omega

theorem mod_lt (b : UInt8) : b.toNat % 16 < 16 := Nat.mod_lt _ (by decide)

/-- The two digits of a byte give it back. -/
theorem byte_div_mod (b : UInt8) : byte (b.toNat / 16) (b.toNat % 16) = b := by
  rw [byte, Nat.div_add_mod, UInt8.ofNat_toNat]

/-- `hex.EncodeToString`. -/
def encode (s : Text) : Text :=
  s.flatMap fun b => [lowerDigit (b.toNat / 16), lowerDigit (b.toNat % 16)]

/-- The errors of `hex.DecodeString`. -/
inductive DecodeError
  | invalidByte (c : UInt8)
  | length
  deriving DecidableEq, Repr

/-- `hex.DecodeString`. -/
def decode : Text → Except DecodeError Text
  | [] => .ok []
  | [p] => match nibble p with
    | none => .error (.invalidByte p)
    | some _ => .error .length
  | p :: q :: s => match nibble p, nibble q with
    | none, _ => .error (.invalidByte p)
    | some _, none => .error (.invalidByte q)
    | some hi, some lo => match decode s with
      | .error err => .error err
      | .ok bytes => .ok (byte hi lo :: bytes)

/-- Encoded bytes are read back. -/
theorem decode_encode (s : Text) : decode (encode s) = .ok s := by
  induction s with
  | nil => rfl
  | cons b s ih =>
    have hcons : encode (b :: s) =
        lowerDigit (b.toNat / 16) :: lowerDigit (b.toNat % 16) :: encode s := rfl
    rw [hcons, decode, nibble_lowerDigit _ (div_lt b), nibble_lowerDigit _ (mod_lt b), ih]
    simp only [byte_div_mod]

/-- Different bytes are written differently. -/
theorem encode_injective : Function.Injective encode := fun s t h => by
  have hdecode := decode_encode s
  rw [h, decode_encode] at hdecode
  exact (Except.ok.inj hdecode).symm

/-- Only digits are written. -/
theorem notMem_encode {c : UInt8} (hc : nibble c = none) (s : Text) : c ∉ encode s := by
  intro hmem
  obtain ⟨b, -, hb⟩ := List.mem_flatMap.mp hmem
  rcases List.mem_pair.mp hb with rfl | rfl
  · rw [nibble_lowerDigit _ (div_lt b)] at hc
    cases hc
  · rw [nibble_lowerDigit _ (mod_lt b)] at hc
    cases hc

/-- A digest of 32 bytes. -/
abbrev Digest := { bytes : Text // bytes.length = 32 }

theorem Digest.ne_nil (d : Digest) : d.1 ≠ [] := by
  intro hnil
  have hlength := d.2
  rw [hnil] at hlength
  cases hlength

@[simp] theorem encode_eq_nil {s : Text} : encode s = [] ↔ s = [] := by
  cases s <;> simp [encode]

end Selatpay.Hex
