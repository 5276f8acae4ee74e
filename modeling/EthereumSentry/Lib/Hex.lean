import EthereumSentry.Lib.Bytes

/-!
# Hex text

Byte strings as text with two digits for a byte: `encode` writes small digits, `decode` reads small and capital ones,
and `decode_encode` says that nothing is lost.
-/

set_option autoImplicit false

namespace Hex

def encode (b : Bytes) : String :=
  String.ofList (b.flatMap fun x => [Nat.digitChar (x.toNat / 16), Nat.digitChar (x.toNat % 16)])

/-- The value of a digit. -/
def digit (c : Char) : Option Nat :=
  if '0' ≤ c ∧ c ≤ '9' then some (c.toNat - '0'.toNat)
  else if 'a' ≤ c ∧ c ≤ 'f' then some (c.toNat - 'a'.toNat + 10)
  else if 'A' ≤ c ∧ c ≤ 'F' then some (c.toNat - 'A'.toNat + 10)
  else none

/-- The bytes that pairs of digits spell. -/
def decode : List Char → Option Bytes
  | [] => some []
  | [_] => none
  | hi :: lo :: cs => do
    let hi ← digit hi
    let lo ← digit lo
    let b ← decode cs
    return UInt8.ofNat (16 * hi + lo) :: b

theorem digit_digitChar : ∀ n < 16, digit (Nat.digitChar n) = some n := by decide

theorem decode_encode (b : Bytes) : decode (encode b).toList = some b := by
  rw [encode, String.toList_ofList]
  induction b with
  | nil => rfl
  | cons x b ih =>
    have hx := x.toNat_lt
    have hbyte : UInt8.ofNat (16 * (x.toNat / 16) + x.toNat % 16) = x := by
      rw [Nat.div_add_mod, UInt8.ofNat_toNat]
    simp only [List.flatMap_cons, List.cons_append, List.nil_append, decode, ih,
      digit_digitChar (x.toNat / 16) (by omega), digit_digitChar (x.toNat % 16) (by omega), bind, Option.bind, pure,
      hbyte]

end Hex
