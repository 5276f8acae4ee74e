import Mathlib.Data.List.Induction
import Mathlib.Data.Nat.Log
import EthereumSentry.Lib.Rlp

/-!
# Sizes of encodings

How long an encoding is follows from what is encoded: `headerLength` and `uintLength` are the lengths of a header and
of an integer. `Codec.SizeLaws` states this of an implementation, and `standard_sizeLaws` shows it of the format.
-/

set_option autoImplicit false

namespace Rlp

/-- The number of bytes of a positive integer. -/
def byteLength (n : Nat) : Nat := Nat.log 256 n + 1

/-- The length of the header of so many bytes. -/
def headerLength (n : Nat) : Nat := if n ≤ 55 then 1 else 1 + byteLength n

/-- The length of an integer. -/
def uintLength (n : Nat) : Nat := if n < 0x80 then 1 else 1 + byteLength n

/-- How long the encodings are. A single byte may go without a header, so it is left out. -/
structure Codec.SizeLaws (R : Codec) : Prop where
  length_bytes : ∀ b : Bytes, 2 ≤ b.length → b.length < 2 ^ 64 →
    (R.encodeBytes b).length = headerLength b.length + b.length
  length_uint : ∀ n : Nat, n < 2 ^ 64 → (R.encodeUint n).length = uintLength n
  length_list : ∀ xs : List Bytes, xs.flatten.length < 2 ^ 64 →
    (R.encodeList xs).length = headerLength xs.flatten.length + xs.flatten.length

/-! ## Bounds -/

theorem byteLength_le {n k : Nat} (h0 : 0 < n) (h : n < 256 ^ k) : byteLength n ≤ k :=
  Nat.log_lt_of_lt_pow (Nat.pos_iff_ne_zero.1 h0) h

theorem byteLength_eq {n k : Nat} (h₁ : 256 ^ k ≤ n) (h₂ : n < 256 ^ (k + 1)) : byteLength n = k + 1 :=
  congrArg (· + 1) (Nat.log_eq_of_pow_le_of_lt_pow h₁ h₂)

theorem headerLength_le {n k : Nat} (h : n < 256 ^ k) : headerLength n ≤ 1 + k := by
  unfold headerLength
  split
  · omega
  · have := byteLength_le (by omega) h
    omega

theorem headerLength_of_le {n : Nat} (h : n ≤ 55) : headerLength n = 1 := if_pos h

theorem headerLength_of_lt {n : Nat} (h₁ : 55 < n) (h₂ : n < 256) : headerLength n = 2 := by
  rw [headerLength, if_neg (by omega), byteLength_eq (k := 0) (by omega) (by omega)]

theorem headerLength_of_le_of_lt {n : Nat} (h₁ : 256 ≤ n) (h₂ : n < 256 ^ 2) : headerLength n = 3 := by
  rw [headerLength, if_neg (by omega), byteLength_eq (k := 1) (by omega) h₂]

theorem one_le_uintLength (n : Nat) : 1 ≤ uintLength n := by
  unfold uintLength
  split <;> omega

theorem uintLength_le {n k : Nat} (h : n < 256 ^ k) : uintLength n ≤ 1 + k := by
  unfold uintLength
  split
  · omega
  · have := byteLength_le (by omega) h
    omega

/-! ## The format -/

theorem ofBe_lt (b : Bytes) : ofBe b < 256 ^ b.length := by
  induction b using List.reverseRecOn with
  | nil => simp [ofBe]
  | append_singleton b x ih =>
    have := x.toNat_lt
    rw [ofBe_append_singleton, List.length_append, List.length_singleton, pow_succ]
    omega

theorem length_digits {w n : Nat} (h0 : 0 < n) (h : n < 256 ^ w) : (digits w n).length = byteLength n := by
  apply Nat.le_antisymm
  · have hlt : n < 256 ^ byteLength n := Nat.lt_pow_succ_log_self (by decide) n
    exact length_digits_le_of_lt hlt
  · have := ofBe_lt (digits w n)
    rw [ofBe_digits h] at this
    exact byteLength_le h0 this

theorem length_header {n : Nat} (off : Nat) (h : n < 2 ^ 64) : (header off n).length = headerLength n := by
  unfold header headerLength
  split
  · rfl
  · rw [List.length_cons, length_digits (by omega) (by omega), Nat.add_comm]

theorem length_encodeUint {n : Nat} (h : n < 2 ^ 64) : (encodeUint n).length = uintLength n := by
  unfold encodeUint uintLength
  by_cases h0 : n = 0
  · subst h0
    rfl
  · have hd := length_digits (w := 8) (n := n) (by omega) (by omega)
    have hle := length_digits_le 8 n
    have hof := ofBe_digits (w := 8) (n := n) (by omega)
    rcases encodeBytes_cases (digits 8 n) with ⟨x, hx, hlt, he⟩ | ⟨he, hne⟩
    · -- a digit below `0x80` stands for itself
      rw [hx] at hof
      simp only [ofBe, List.foldl_cons, List.foldl_nil, Nat.zero_mul, Nat.zero_add] at hof
      have hsmall : n < 0x80 := by rwa [UInt8.lt_iff_toNat_lt, hof] at hlt
      rw [he, if_pos hsmall, List.length_singleton]
    · have hlarge : ¬n < 0x80 := fun hsmall => by
        refine hne (UInt8.ofNat n) (digits_small (by omega) hsmall) ?_
        rw [UInt8.lt_iff_toNat_lt, UInt8.toNat_ofNat']
        exact lt_of_le_of_lt (Nat.mod_le _ _) hsmall
      rw [he, if_neg hlarge, List.length_append, length_header _ (by omega), headerLength_of_le (by omega), hd]

/-- **The format has these sizes.** -/
theorem standard_sizeLaws : standard.SizeLaws where
  length_bytes b h2 h := by
    rcases encodeBytes_cases b with ⟨x, rfl, -, -⟩ | ⟨he, -⟩
    · simp at h2
    · rw [show standard.encodeBytes b = encodeBytes b from rfl, he, List.length_append, length_header _ h]
  length_uint n h := length_encodeUint h
  length_list xs h := by
    rw [show standard.encodeList xs = header 0xc0 xs.flatten.length ++ xs.flatten from rfl, List.length_append,
      length_header _ h]

end Rlp
