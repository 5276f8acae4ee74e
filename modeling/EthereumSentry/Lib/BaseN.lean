import Mathlib.Data.List.GetD
import Mathlib.Data.List.Induction
import Mathlib.Data.List.Nodup
import EthereumSentry.Lib.Bytes

/-!
# Base32 and Base64

Texts that stand for byte strings, `w` bits a character. A text is read strictly: its characters are of the alphabet,
and what is left after the last byte is less than a character, and zero. A text has bytes of its own in UTF-8.
-/

set_option autoImplicit false

/-- A text. -/
abbrev Text : Type := List Char

/-- The UTF-8 bytes of a text. -/
def Text.utf8 (s : Text) : Bytes := s.flatMap String.utf8EncodeChar

/-- The text with some UTF-8 bytes. -/
def Text.ofUtf8 (b : Bytes) : Option Text := b.toByteArray.utf8Decode?.map Array.toList

namespace Text

@[simp] theorem ofUtf8_utf8 (s : Text) : ofUtf8 s.utf8 = some s := by
  have h : s.utf8.toByteArray = s.utf8Encode := rfl
  rw [ofUtf8, h, List.utf8Decode?_utf8Encode]
  rfl

theorem utf8_of_ofUtf8 {b : Bytes} {s : Text} (h : ofUtf8 b = some s) : s.utf8 = b := by
  obtain ⟨a, ha, rfl⟩ := Option.map_eq_some_iff.1 h
  have henc := ByteArray.utf8Encode_get_utf8Decode? (b := b.toByteArray) (h := by rw [ha]; rfl)
  simp only [ha, Option.get_some] at henc
  exact List.toByteArray_inj.1 henc

end Text

namespace BaseN

/-- The `w` low bits of `n`, most significant first. -/
def bits : Nat → Nat → List Bool
  | 0, _ => []
  | w + 1, n => bits w (n / 2) ++ [n % 2 == 1]

/-- The number with some bits, most significant first. -/
def ofBits (b : List Bool) : Nat := b.foldl (fun n x => 2 * n + x.toNat) 0

/-- Some bits in groups of `w`, without what is left. -/
def groups (w : Nat) (b : List Bool) : List (List Bool) :=
  (List.range (b.length / w)).map fun i => (b.drop (w * i)).take w

/-- Read a text of an alphabet, `w` bits a character. -/
def decode (w : Nat) (alphabet : Text) (s : Text) : Option Bytes := do
  let values ← s.mapM (alphabet.idxOf? ·)
  let b := values.flatMap (bits w)
  let rest := b.drop (8 * (b.length / 8))
  if rest.length < w ∧ true ∉ rest then some ((groups 8 b).map fun x => UInt8.ofNat (ofBits x)) else none

/-- Write bytes in an alphabet, `w` bits a character, the last one filled with zeros. -/
def encode (w : Nat) (alphabet : Text) (data : Bytes) : Text :=
  let b := data.flatMap fun x => bits 8 x.toNat
  let filled := b ++ List.replicate ((w - b.length % w) % w) false
  (groups w filled).map fun x => alphabet.getD (ofBits x) 'A'

def base32 : Text := "ABCDEFGHIJKLMNOPQRSTUVWXYZ234567".toList

def base64 : Text := "ABCDEFGHIJKLMNOPQRSTUVWXYZabcdefghijklmnopqrstuvwxyz0123456789+/".toList

def base64url : Text := "ABCDEFGHIJKLMNOPQRSTUVWXYZabcdefghijklmnopqrstuvwxyz0123456789-_".toList

/-- Fill a Base64 text up to a multiple of four characters. -/
def pad64 (s : Text) : Text := s ++ List.replicate ((4 - s.length % 4) % 4) '='

/-! ## Bits -/

variable {w : Nat}

@[simp] theorem length_bits : ∀ (w n : Nat), (bits w n).length = w
  | 0, _ => rfl
  | w + 1, n => by rw [bits, List.length_append, length_bits w, List.length_singleton]

theorem ofBits_concat (b : List Bool) (x : Bool) : ofBits (b ++ [x]) = 2 * ofBits b + x.toNat := by
  rw [ofBits, List.foldl_append]
  rfl

theorem ofBits_bits : ∀ {w n : Nat}, n < 2 ^ w → ofBits (bits w n) = n
  | 0, n, h => by
    rw [pow_zero, Nat.lt_one_iff] at h
    rw [h]
    rfl
  | w + 1, n, h => by
    have hbit : (n % 2 == 1).toNat = n % 2 := by
      rcases Nat.mod_two_eq_zero_or_one n with h | h <;> rw [h] <;> rfl
    rw [bits, ofBits_concat, ofBits_bits (by rw [pow_succ] at h; omega), hbit]
    omega

theorem bits_ofBits (b : List Bool) : bits b.length (ofBits b) = b := by
  induction b using List.reverseRecOn with
  | nil => rfl
  | append_singleton b x ih =>
    have hdiv : (2 * ofBits b + x.toNat) / 2 = ofBits b := by
      cases x <;> simp
      omega
    have hmod : ((2 * ofBits b + x.toNat) % 2 == 1) = x := by cases x <;> simp
    rw [List.length_append, List.length_singleton, bits, ofBits_concat, hdiv, hmod, ih]

theorem ofBits_lt (b : List Bool) : ofBits b < 2 ^ b.length := by
  induction b using List.reverseRecOn with
  | nil => exact Nat.one_pos
  | append_singleton b x ih =>
    rw [ofBits_concat, List.length_append, List.length_singleton, pow_succ]
    cases x <;> simp <;> omega

/-! ## Groups -/

theorem groups_of_lt {b : List Bool} (h : b.length < w) : groups w b = [] := by
  rw [groups, Nat.div_eq_of_lt h]
  rfl

theorem groups_append (hw : 0 < w) {x : List Bool} (hx : x.length = w) (b : List Bool) :
    groups w (x ++ b) = x :: groups w b := by
  have hlength : (x ++ b).length / w = b.length / w + 1 := by
    rw [List.length_append, hx, Nat.add_div_left _ hw]
  rw [groups, hlength, List.range_succ_eq_map, List.map_cons, List.map_map]
  congr 1
  · rw [Nat.mul_zero, List.drop_zero, List.take_append_of_le_length hx.ge, List.take_of_length_le hx.le]
  · refine List.map_congr_left fun i _ => ?_
    rw [Function.comp_apply, Nat.succ_eq_add_one, Nat.mul_add, Nat.mul_one, Nat.add_comm, ← List.drop_drop,
      List.drop_append_of_le_length hx.ge, List.drop_of_length_le hx.le, List.nil_append]

/-- Bits of whole groups are those of their groups. -/
theorem exists_groups (hw : 0 < w) : ∀ (m : Nat) {b : List Bool}, b.length = m * w →
    (groups w b).flatten = b ∧ ∀ x ∈ groups w b, x.length = w
  | 0, b, h => by
    rw [Nat.zero_mul] at h
    rw [groups_of_lt (by omega), List.eq_nil_of_length_eq_zero h]
    exact ⟨rfl, fun _ h => nomatch h⟩
  | m + 1, b, h => by
    have hle : w ≤ b.length := by
      rw [h, Nat.succ_mul]
      exact Nat.le_add_left _ _
    have hx : (b.take w).length = w := by rw [List.length_take, min_eq_left hle]
    obtain ⟨hflatten, hlength⟩ := exists_groups hw m (b := b.drop w) (by
      rw [List.length_drop, h, Nat.succ_mul, Nat.add_sub_cancel])
    have hgroups := groups_append hw hx (b.drop w)
    rw [List.take_append_drop] at hgroups
    rw [hgroups, List.flatten_cons, hflatten, List.take_append_drop]
    exact ⟨rfl, List.forall_mem_cons.2 ⟨hx, hlength⟩⟩

/-- The bytes in some bits, whatever is left after the last one. -/
theorem groups_bytes (data : Bytes) (rest : List Bool) (h : rest.length < 8) :
    (groups 8 (data.flatMap (fun x => bits 8 x.toNat) ++ rest)).map (fun x => UInt8.ofNat (ofBits x)) = data := by
  induction data with
  | nil => rw [List.flatMap_nil, List.nil_append, groups_of_lt h, List.map_nil]
  | cons x data ih =>
    rw [List.flatMap_cons, List.append_assoc, groups_append (by decide) (length_bits 8 _), List.map_cons, ih,
      ofBits_bits (UInt8.toNat_lt x), UInt8.ofNat_toNat]

/-! ## What is written -/

/-- The bits of some bytes, filled with zeros to a multiple of `w`. -/
def filled (w : Nat) (data : Bytes) : List Bool :=
  let b := data.flatMap fun x => bits 8 x.toNat
  b ++ List.replicate ((w - b.length % w) % w) false

theorem encode_eq (w : Nat) (alphabet : Text) (data : Bytes) :
    encode w alphabet data = (groups w (filled w data)).map fun x => alphabet.getD (ofBits x) 'A' := rfl

theorem length_flatMap_bits (data : Bytes) : (data.flatMap fun x => bits 8 x.toNat).length = 8 * data.length := by
  induction data with
  | nil => rfl
  | cons x data ih =>
    rw [List.flatMap_cons, List.length_append, length_bits, ih, List.length_cons, Nat.mul_succ, Nat.add_comm]

theorem length_filled (w : Nat) (data : Bytes) :
    (filled w data).length = 8 * data.length + (w - 8 * data.length % w) % w := by
  rw [filled, List.length_append, List.length_replicate, length_flatMap_bits]

/-- The filled bits are whole groups. -/
theorem dvd_length_filled (hw : 0 < w) (data : Bytes) : w ∣ (filled w data).length := by
  rw [length_filled]
  refine Nat.dvd_of_mod_eq_zero ?_
  rw [Nat.add_mod_mod, ← Nat.mod_add_mod, Nat.add_sub_cancel' (Nat.mod_lt _ hw).le, Nat.mod_self]

theorem filled_groups (hw : 0 < w) (data : Bytes) : (groups w (filled w data)).flatten = filled w data ∧
    ∀ x ∈ groups w (filled w data), x.length = w :=
  exists_groups hw _ (Nat.div_mul_cancel (dvd_length_filled hw data)).symm

/-- A character is one of the alphabet. -/
theorem mem_encode (hw : 0 < w) {alphabet : Text} (ha : 2 ^ w ≤ alphabet.length) {data : Bytes} {c : Char}
    (hc : c ∈ encode w alphabet data) : c ∈ alphabet := by
  rw [encode_eq] at hc
  obtain ⟨x, hx, rfl⟩ := List.mem_map.1 hc
  have hlt : ofBits x < alphabet.length := (ofBits_lt x).trans_le
    (((filled_groups hw data).2 x hx).symm ▸ ha)
  rw [List.getD_eq_getElem _ _ hlt]
  exact List.getElem_mem hlt

/-! ## What is read -/

/-- A text with a character that is not of the alphabet is not read. -/
theorem decode_of_not_mem {alphabet s : Text} {c : Char} (hc : c ∈ s) (ha : c ∉ alphabet) :
    decode w alphabet s = none := by
  have hnone : s.mapM (alphabet.idxOf? ·) = none := by
    induction s with
    | nil => cases hc
    | cons d s ih =>
      rw [List.mapM_cons]
      rcases List.mem_cons.1 hc with rfl | hc
      · rw [List.idxOf?_eq_none_iff.2 ha]
        rfl
      · rw [ih hc]
        cases alphabet.idxOf? d <;> rfl
  rw [decode, hnone]
  rfl

/-- **What is written is read back.** -/
theorem decode_encode (hw : 0 < w) (hw8 : w ≤ 8) {alphabet : Text} (hnodup : alphabet.Nodup)
    (ha : 2 ^ w ≤ alphabet.length) (data : Bytes) : decode w alphabet (encode w alphabet data) = some data := by
  obtain ⟨hflatten, hgroups⟩ := filled_groups hw data
  have hread : (encode w alphabet data).mapM (alphabet.idxOf? ·) = some ((groups w (filled w data)).map ofBits) := by
    rw [encode_eq, List.mapM_map]
    refine List.mapM_eq_some_map fun x hx => ?_
    rw [Function.comp_apply]
    have hlt : ofBits x < alphabet.length := (ofBits_lt x).trans_le ((hgroups x hx).symm ▸ ha)
    rw [List.getD_eq_getElem _ _ hlt]
    exact List.idxOf?_eq_some_iff.2 ⟨hlt, rfl, fun j hj hij => hj.ne (hnodup.getElem_inj_iff.1 hij)⟩
  have hbits : ((groups w (filled w data)).map ofBits).flatMap (bits w) = filled w data := by
    have hid : ∀ x ∈ groups w (filled w data), bits w (ofBits x) = id x := fun x hx => by
      rw [← hgroups x hx, bits_ofBits, id]
    rw [List.flatMap_map, List.flatMap_congr hid, ← List.flatten_eq_flatMap, hflatten]
  have hdiv : (filled w data).length / 8 = data.length := by
    have := Nat.mod_lt (w - 8 * data.length % w) hw
    rw [length_filled]
    omega
  have hrest : (filled w data).drop (8 * data.length) =
      List.replicate ((w - 8 * data.length % w) % w) false := by
    rw [filled, length_flatMap_bits, ← length_flatMap_bits, List.drop_left]
  have hlt := Nat.mod_lt (w - 8 * data.length % w) hw
  rw [decode, hread]
  simp only [Option.bind_eq_bind, Option.bind_some, hbits, hdiv, hrest, List.length_replicate]
  rw [if_pos ⟨hlt, by simp⟩]
  have hbytes := groups_bytes data (List.replicate ((w - 8 * data.length % w) % w) false) (by
    rw [List.length_replicate]
    omega)
  rw [filled, length_flatMap_bits, hbytes]

/-- Alphabets that agree where they are used write the same. -/
theorem encode_congr {alphabet alphabet' : Text} {data : Bytes}
    (h : ∀ x ∈ groups w (filled w data), alphabet.getD (ofBits x) 'A' = alphabet'.getD (ofBits x) 'A') :
    encode w alphabet data = encode w alphabet' data := by
  rw [encode_eq, encode_eq, List.map_congr_left h]

theorem length_encode (w : Nat) (alphabet : Text) (data : Bytes) :
    (encode w alphabet data).length = (8 * data.length + (w - 8 * data.length % w) % w) / w := by
  rw [encode_eq, List.length_map, groups, List.length_map, List.length_range, length_filled]

/-! ## The two alphabets of Base64 -/

theorem base64url_nodup : base64url.Nodup := by decide +kernel

/-- The groups of six bits of some bytes, without what is left. -/
def sextets (data : Bytes) : List Nat := (groups 6 (data.flatMap fun x => bits 8 x.toNat)).map ofBits

/-- Bytes in groups of three, of which no group of six bits is one of the last two of the alphabet. -/
def UrlSafe (data : Bytes) : Prop := data.length % 3 = 0 ∧ ∀ n ∈ sextets data, n < 62

instance (data : Bytes) : Decidable (UrlSafe data) := inferInstanceAs (Decidable (_ ∧ _))

/-- **A Base64 text read as one of Base64url**: padding and the last two characters of the alphabet are not read. -/
theorem decode_pad64 (data : Bytes) :
    decode 6 base64url (pad64 (encode 6 base64 data)) = if UrlSafe data then some data else none := by
  have hlength : (pad64 (encode 6 base64 data)) = encode 6 base64 data ++
      List.replicate ((4 - (8 * data.length + (6 - 8 * data.length % 6) % 6) / 6 % 4) % 4) '=' := by
    rw [pad64, length_encode]
  by_cases hthree : data.length % 3 = 0
  · have hpad : (4 - (8 * data.length + (6 - 8 * data.length % 6) % 6) / 6 % 4) % 4 = 0 := by omega
    have hfill : (6 - 8 * data.length % 6) % 6 = 0 := by omega
    have hfilled : filled 6 data = data.flatMap fun x => bits 8 x.toNat := by
      rw [filled, length_flatMap_bits, hfill, List.replicate_zero, List.append_nil]
    rw [hlength, hpad, List.replicate_zero, List.append_nil]
    by_cases hsafe : ∀ n ∈ sextets data, n < 62
    · have hsame : ∀ n < 62, base64.getD n 'A' = base64url.getD n 'A' := by decide +kernel
      rw [if_pos ⟨hthree, hsafe⟩, encode_congr fun x hx => hsame _ (hsafe _ (List.mem_map_of_mem (hfilled ▸ hx)))]
      exact decode_encode (by decide) (by decide) base64url_nodup (by decide) data
    · rw [if_neg fun h => hsafe h.2]
      simp only [not_forall] at hsafe
      obtain ⟨n, hn, hlarge⟩ := hsafe
      obtain ⟨x, hx, rfl⟩ := List.mem_map.1 hn
      rw [← hfilled] at hx
      have hlt : ofBits x < 64 := (ofBits_lt x).trans_eq (congrArg (2 ^ ·) ((filled_groups (by decide) data).2 x hx))
      have hnot : ∀ n < 64, ¬n < 62 → base64.getD n 'A' ∉ base64url := by decide +kernel
      exact decode_of_not_mem (List.mem_map_of_mem hx) (hnot _ hlt hlarge)
  · rw [if_neg fun h => hthree h.1, hlength]
    refine decode_of_not_mem (c := '=') ?_ (by decide)
    refine List.mem_append_right _ (List.mem_replicate.2 ⟨by omega, rfl⟩)

end BaseN
