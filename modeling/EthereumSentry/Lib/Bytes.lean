import Mathlib.Data.List.Basic
import Mathlib.Tactic.Ring

/-!
# Byte strings

Byte strings, byte strings of a fixed length (`FixedBytes`), big-endian integers (`be`, `ofBe`, inverse by `ofBe_be`),
and exclusive or with a keystream indexed by position (`xorStream`), which is its own inverse (`xorStream_xorStream`).
-/

set_option autoImplicit false

/-- A byte string. -/
abbrev Bytes : Type := List UInt8

/-! ## Big-endian integers -/

/-- The `w` low bytes of `n`, most significant first. -/
def be : Nat → Nat → Bytes
  | 0, _ => []
  | w + 1, n => be w (n / 256) ++ [UInt8.ofNat n]

/-- The integer that a byte string spells, most significant byte first. -/
def ofBe (b : Bytes) : Nat := b.foldl (fun acc x => acc * 256 + x.toNat) 0

@[simp] theorem length_be : ∀ w n, (be w n).length = w
  | 0, _ => rfl
  | w + 1, n => by simp [be, length_be w]

theorem ofBe_append_singleton (b : Bytes) (x : UInt8) : ofBe (b ++ [x]) = ofBe b * 256 + x.toNat := by
  simp [ofBe]

/-- **Big-endian integers round-trip** when they fit. -/
theorem ofBe_be : ∀ {w n : Nat}, n < 256 ^ w → ofBe (be w n) = n
  | 0, n, h => by
    have : n = 0 := by simpa using h
    simp [be, ofBe, this]
  | w + 1, n, h => by
    have hq : n / 256 < 256 ^ w := by
      rw [Nat.div_lt_iff_lt_mul (by omega)]
      simpa [Nat.pow_succ] using h
    rw [be, ofBe_append_singleton, ofBe_be hq]
    simp only [UInt8.toNat_ofNat']
    omega

/-- Leading zeros do not count. -/
theorem ofBe_dropWhile_zero (b : Bytes) : ofBe (b.dropWhile (· == 0)) = ofBe b := by
  induction b with
  | nil => rfl
  | cons x b ih =>
    by_cases hx : x = 0
    · subst hx
      simpa [List.dropWhile, ofBe] using ih
    · have hf : (x == 0) = false := by simpa using hx
      rw [List.dropWhile_cons, hf]
      rfl

/-- The most significant byte comes first. -/
theorem ofBe_cons (x : UInt8) (b : Bytes) : ofBe (x :: b) = x.toNat * 256 ^ b.length + ofBe b := by
  have hfold : ∀ (b : Bytes) (acc : Nat), b.foldl (fun acc x => acc * 256 + x.toNat) acc =
      acc * 256 ^ b.length + ofBe b := by
    intro b
    induction b with
    | nil => simp [ofBe]
    | cons x b ih =>
      intro acc
      have hcons : ofBe (x :: b) = x.toNat * 256 ^ b.length + ofBe b := by
        rw [ofBe, List.foldl_cons, ih, Nat.zero_mul, Nat.zero_add]
      rw [List.foldl_cons, ih, hcons, List.length_cons]
      ring
  rw [ofBe, List.foldl_cons, hfold, Nat.zero_mul, Nat.zero_add]

theorem ofBe_lt : ∀ b : Bytes, ofBe b < 256 ^ b.length
  | [] => by simp [ofBe]
  | x :: b => by
    have hx : x.toNat < 256 := x.toNat_lt
    have hb := ofBe_lt b
    calc ofBe (x :: b) = x.toNat * 256 ^ b.length + ofBe b := ofBe_cons x b
      _ < (x.toNat + 1) * 256 ^ b.length := by
        rw [Nat.succ_mul]
        omega
      _ ≤ 256 * 256 ^ b.length := Nat.mul_le_mul_right _ hx
      _ = 256 ^ (x :: b).length := by
        rw [List.length_cons]
        ring

/-- Byte strings of one length are the integers that they spell. -/
theorem ofBe_injective : ∀ {a b : Bytes}, a.length = b.length → ofBe a = ofBe b → a = b
  | [], [], _, _ => rfl
  | x :: a, y :: b, hl, h => by
    have hl : a.length = b.length := by simpa using hl
    have ha := ofBe_lt a
    have hb := ofBe_lt b
    rw [ofBe_cons, ofBe_cons, hl] at h
    rw [hl] at ha
    have hxy : x.toNat = y.toNat := by
      have hq := congrArg (· / 256 ^ b.length) h
      simpa [Nat.mul_comm _ (256 ^ b.length), Nat.mul_add_div (Nat.pow_pos (n := b.length) (show 0 < 256 by decide)),
        Nat.div_eq_of_lt ha, Nat.div_eq_of_lt hb] using hq
    rw [hxy] at h
    rw [UInt8.toNat_inj.1 hxy, ofBe_injective hl (Nat.add_left_cancel h)]

/-! ## Byte strings of a fixed length -/

/-- A byte string of length `n`. -/
@[ext] structure FixedBytes (n : Nat) where
  bytes : Bytes
  length_bytes : bytes.length = n
  deriving DecidableEq

attribute [simp] FixedBytes.length_bytes

instance FixedBytes.decidableMem {n : Nat} (x : FixedBytes n) (l : List (FixedBytes n)) : Decidable (x ∈ l) :=
  inferInstance

abbrev H128 : Type := FixedBytes 16
abbrev H256 : Type := FixedBytes 32
abbrev H512 : Type := FixedBytes 64

namespace FixedBytes

variable {n : Nat}

/-- All zeros. -/
def zero (n : Nat) : FixedBytes n := ⟨List.replicate n 0, by simp⟩

/-- The big-endian bytes of an integer. -/
def ofNat (n v : Nat) : FixedBytes n := ⟨be n v, by simp⟩

/-- Exclusive or. -/
def xor (a b : FixedBytes n) : FixedBytes n :=
  ⟨List.zipWith (· ^^^ ·) a.bytes b.bytes, by simp⟩

/-- The byte string, when it has the length. -/
def ofBytes? (n : Nat) (b : Bytes) : Option (FixedBytes n) :=
  if h : b.length = n then some ⟨b, h⟩ else none

@[simp] theorem ofBytes?_bytes (h : FixedBytes n) : ofBytes? n h.bytes = some h := by
  simp [ofBytes?]

theorem ofBytes?_eq_some {b : Bytes} (h : b.length = n) : ofBytes? n b = some ⟨b, h⟩ := by
  simp [ofBytes?, h]

/-- The bytes from `i` on, `m` of them. -/
def slice (h : FixedBytes n) (i m : Nat) (hm : i + m ≤ n) : FixedBytes m :=
  ⟨(h.bytes.drop i).take m, by simp; omega⟩

/-- The integer that the bytes spell. -/
def toNat (h : FixedBytes n) : Nat := ofBe h.bytes

theorem toNat_lt (h : FixedBytes n) : h.toNat < 256 ^ n := by
  have hlt := ofBe_lt h.bytes
  rwa [h.length_bytes] at hlt

theorem toNat_inj {a b : FixedBytes n} : a.toNat = b.toNat ↔ a = b :=
  ⟨fun h => FixedBytes.ext (ofBe_injective (by simp) h), congrArg toNat⟩

/-- Byte strings of one length are ordered as the integers that they spell. -/
instance : Ord (FixedBytes n) := ⟨compareOn toNat⟩

instance : Std.TransOrd (FixedBytes n) := inferInstanceAs (Std.TransCmp (compareOn (toNat (n := n))))

instance : Std.LawfulEqOrd (FixedBytes n) where
  eq_of_compare h := toNat_inj.1 (Nat.compare_eq_eq.1 h)

theorem compare_eq_lt {a b : FixedBytes n} : compare a b = .lt ↔ a.toNat < b.toNat := Nat.compare_eq_lt

theorem xor_comm (a b : FixedBytes n) : a.xor b = b.xor a :=
  FixedBytes.ext (List.zipWith_comm_of_comm UInt8.xor_comm)

theorem toNat_xor_eq_zero {a b : FixedBytes n} : (a.xor b).toNat = 0 ↔ a = b := by
  have hzero : ∀ {l : Bytes}, ofBe l = 0 ↔ ∀ x ∈ l, x = 0 := by
    intro l
    induction l with
    | nil => simp [ofBe]
    | cons x l ih =>
      have hx : x.toNat = 0 ↔ x = 0 := UInt8.toNat_inj (b := 0)
      simp [ofBe_cons, ih, hx]
  have hxor : ∀ {l m : Bytes}, l.length = m.length → ((∀ x ∈ List.zipWith (· ^^^ ·) l m, x = 0) ↔ l = m) := by
    intro l m hl
    induction l generalizing m with
    | nil => simp [List.length_eq_zero_iff.1 hl.symm]
    | cons x l ih =>
      obtain ⟨y, m, rfl⟩ := List.exists_cons_of_length_eq_add_one hl.symm
      simp [ih (Nat.succ.inj hl)]
  rw [toNat, hzero, xor, hxor (by simp), FixedBytes.ext_iff]

/-- All but the first `i` bytes. -/
def drop (h : FixedBytes n) (i m : Nat) (hm : i + m = n) : FixedBytes m :=
  ⟨h.bytes.drop i, by simp; omega⟩

end FixedBytes

/-! ## Keystreams -/

/-- Exclusive or with the keystream `ks` from position `p` on. -/
def xorStream (ks : Nat → UInt8) : Nat → Bytes → Bytes
  | _, [] => []
  | p, x :: b => (x ^^^ ks p) :: xorStream ks (p + 1) b

section Keystream

variable (ks : Nat → UInt8)

@[simp] theorem length_xorStream : ∀ p b, (xorStream ks p b).length = b.length
  | _, [] => rfl
  | p, _ :: b => by simp [xorStream, length_xorStream (p + 1) b]

/-- **Decryption undoes encryption** at the same position. -/
@[simp] theorem xorStream_xorStream : ∀ p b, xorStream ks p (xorStream ks p b) = b
  | _, [] => rfl
  | p, x :: b => by
    rw [xorStream, xorStream, xorStream_xorStream (p + 1) b, UInt8.xor_assoc, UInt8.xor_self, UInt8.xor_zero]

end Keystream

/-! ## Maps that may fail -/

/-- A list is mapped when all its elements are. -/
theorem List.mapM_eq_some_map {α β : Type} {f : α → Option β} {g : α → β} :
    ∀ {l : List α}, (∀ x ∈ l, f x = some (g x)) → l.mapM f = some (l.map g)
  | [], _ => rfl
  | x :: l, h => by
    obtain ⟨hx, hl⟩ := List.forall_mem_cons.1 h
    rw [List.mapM_cons, hx, mapM_eq_some_map hl]
    rfl

theorem List.exists_of_mapM_eq_some {α β : Type} {f : α → Option β} :
    ∀ {l : List α} {ys : List β}, l.mapM f = some ys → ∀ x ∈ l, ∃ y, f x = some y
  | [], _, _ => fun _ h => nomatch h
  | x :: l, ys, h => by
    rw [List.mapM_cons] at h
    obtain ⟨y, hy, h⟩ := Option.bind_eq_some_iff.1 h
    obtain ⟨zs, hzs, -⟩ := Option.bind_eq_some_iff.1 h
    exact List.forall_mem_cons.2 ⟨⟨y, hy⟩, exists_of_mapM_eq_some hzs⟩

theorem List.length_of_mapM_eq_some {α β : Type} {f : α → Option β} :
    ∀ {l : List α} {ys : List β}, l.mapM f = some ys → ys.length = l.length
  | [], _, h => by
    cases h
    rfl
  | x :: l, ys, h => by
    rw [List.mapM_cons] at h
    obtain ⟨y, -, h⟩ := Option.bind_eq_some_iff.1 h
    obtain ⟨zs, hzs, h⟩ := Option.bind_eq_some_iff.1 h
    cases h
    rw [List.length_cons, List.length_cons, length_of_mapM_eq_some hzs]
