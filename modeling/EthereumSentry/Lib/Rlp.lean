import EthereumSentry.Lib.Bytes

/-!
# Recursive length prefix

The wire format, in two steps. `Rlp.Codec` is the interface of an implementation: encoders for byte strings, unsigned
integers and lists, and decoders that read a value or an item off the front of a byte string. `Codec.Lawful` states
the parts of the format that clients rely on. `Rlp.standard` is the format itself, and `standard_lawful` shows that it
has these properties.
-/

set_option autoImplicit false

namespace Rlp

/-- Why a byte string does not decode. -/
inductive DecoderError where
  | rlpIsTooBig
  | rlpIsTooShort
  | rlpExpectedToBeList
  | rlpExpectedToBeData
  | rlpIncorrectListLen
  | rlpDataLenWithZeroPrefix
  | rlpListLenWithZeroPrefix
  | rlpInvalidIndirection
  | rlpInconsistentLengthAndData
  | rlpInvalidLength
  | custom (msg : String)
  deriving DecidableEq, Repr

/-! ## The interface -/

/-- An implementation of the format. -/
structure Codec where
  /-- Encode a byte string. -/
  encodeBytes : Bytes → Bytes
  /-- Encode an unsigned integer below `2 ^ 64`. -/
  encodeUint : Nat → Bytes
  /-- Encode the list of the given encoded items. -/
  encodeList : List Bytes → Bytes
  /-- The encoded items of the list at the front. -/
  items : Bytes → List Bytes
  /-- The encoded item at an index of the list at the front. -/
  itemAt : Bytes → Nat → Except DecoderError Bytes
  /-- The payload of the item at the front. -/
  data : Bytes → Except DecoderError Bytes
  /-- The byte string at the front. -/
  value : Bytes → Except DecoderError Bytes
  /-- The unsigned integer of at most so many bytes at the front. -/
  uint : Nat → Bytes → Except DecoderError Nat
  /-- The byte string of a fixed length at the front. -/
  hash : (n : Nat) → Bytes → Except DecoderError (FixedBytes n)

/-- The encodings of byte strings and of integers. -/
inductive Codec.IsItem (R : Codec) : Bytes → Prop
  | bytes {b : Bytes} (h : b.length < 2 ^ 32) : IsItem R (R.encodeBytes b)
  | uint {n : Nat} (h : n < 2 ^ 64) : IsItem R (R.encodeUint n)

/-- What clients rely on. -/
structure Codec.Lawful (R : Codec) : Prop where
  /-- A list of items is read back, whatever follows it. -/
  items_list : ∀ (xs : List Bytes) (rest : Bytes), (∀ x ∈ xs, R.IsItem x) → xs.length < 2 ^ 16 →
    R.items (R.encodeList xs ++ rest) = xs
  /-- A byte string is read back. -/
  data_bytes : ∀ b : Bytes, b.length < 2 ^ 32 → R.data (R.encodeBytes b) = .ok b
  value_bytes : ∀ b : Bytes, b.length < 2 ^ 32 → R.value (R.encodeBytes b) = .ok b
  /-- A byte string of a fixed length is read back. -/
  hash_bytes : ∀ (n : Nat) (h : FixedBytes n), n < 2 ^ 32 → R.hash n (R.encodeBytes h.bytes) = .ok h
  /-- An integer below `0x80` is its own encoding, but for zero. -/
  uint_small : ∀ n : Nat, 0 < n → n < 0x80 → R.encodeUint n = [UInt8.ofNat n]
  uint_zero : R.encodeUint 0 = [0x80]
  /-- Every other integer has a length byte and its digits. -/
  uint_large : ∀ n : Nat, 0x80 ≤ n → n < 2 ^ 64 → ∃ k digits, 0x81 ≤ k ∧ k ≤ 0x88 ∧ digits ≠ [] ∧
    R.encodeUint n = k :: digits
  /-- A single byte is an integer when it is a nonzero byte below `0x80`, or the empty string `0x80`. -/
  uint_byte : ∀ (w : Nat) (b : UInt8), 0 < w → (R.uint w [b]).toOption =
    if b = 0 then none else if b < 0x80 then some b.toNat else if b = 0x80 then some 0 else none
  /-- A header has at most nine bytes. -/
  length_bytes : ∀ b : Bytes, b.length < 2 ^ 32 → (R.encodeBytes b).length ≤ b.length + 9
  length_uint : ∀ n : Nat, n < 2 ^ 64 → (R.encodeUint n).length ≤ 9
  length_list : ∀ xs : List Bytes, xs.flatten.length < 2 ^ 32 → (R.encodeList xs).length ≤ xs.flatten.length + 9
  /-- An integer is no list. -/
  itemAt_uint : ∀ n i : Nat, n < 2 ^ 64 → R.itemAt (R.encodeUint n) i = .error .rlpExpectedToBeList

/-- The encodings of byte strings and of integers, and of lists of these. -/
inductive Codec.IsNested (R : Codec) : Bytes → Prop
  | bytes (b : Bytes) : IsNested R (R.encodeBytes b)
  | uint {n : Nat} (h : n < 2 ^ 64) : IsNested R (R.encodeUint n)
  | list {xs : List Bytes} (h : ∀ x ∈ xs, IsNested R x) : IsNested R (R.encodeList xs)

/-- What clients of nested lists rely on, up to the lengths that a machine word holds. -/
structure Codec.ListLaws (R : Codec) : Prop where
  /-- A list of items is read back, whatever follows it. -/
  items_nested : ∀ (xs : List Bytes) (rest : Bytes), (∀ x ∈ xs, R.IsNested x) → (R.encodeList xs).length < 2 ^ 64 →
    R.items (R.encodeList xs ++ rest) = xs
  itemAt_nested : ∀ (xs : List Bytes) (rest : Bytes) (i : Nat), (∀ x ∈ xs, R.IsNested x) →
    (R.encodeList xs).length < 2 ^ 64 →
    R.itemAt (R.encodeList xs ++ rest) i = (xs[i]?).elim (.error .rlpIsTooShort) .ok
  data_nested : ∀ b : Bytes, b.length < 2 ^ 64 → R.data (R.encodeBytes b) = .ok b
  value_nested : ∀ b : Bytes, b.length < 2 ^ 64 → R.value (R.encodeBytes b) = .ok b
  /-- An integer is read back by a type that holds it. -/
  uint_uint : ∀ w n : Nat, n < 256 ^ w → n < 2 ^ 64 → R.uint w (R.encodeUint n) = .ok n
  /-- An encoding is no shorter than what it holds. -/
  le_length_bytes : ∀ b : Bytes, b.length ≤ (R.encodeBytes b).length
  le_length_list : ∀ xs : List Bytes, xs.flatten.length ≤ (R.encodeList xs).length

/-- What clients rely on that tell items apart by their first byte or their size. -/
structure Codec.Canonical (R : Codec) : Prop where
  /-- No byte string looks like a list. -/
  head_bytes : ∀ b : Bytes, ∃ x tail, R.encodeBytes b = x :: tail ∧ x < 0xc0
  /-- An integer is the byte string of its digits, without leading zeros. -/
  uint_bytes : ∀ n : Nat, n < 2 ^ 64 → ∃ ds : Bytes, ds.length ≤ 8 ∧ R.encodeUint n = R.encodeBytes ds

theorem Codec.ListLaws.length_item_le {R : Codec} (h : R.ListLaws) {x : Bytes} {xs : List Bytes} (hx : x ∈ xs) :
    x.length ≤ (R.encodeList xs).length :=
  (List.sublist_flatten_of_mem hx).length_le.trans (h.le_length_list xs)

/-- Decoding what was encoded, one by one. -/
theorem mapM_map_eq_ok {α β ε : Type} {f : β → Except ε α} {g : α → β} {l : List α}
    (h : ∀ a ∈ l, f (g a) = .ok a) : (l.map g).mapM f = .ok l := by
  induction l with
  | nil => rfl
  | cons a l ih =>
    rw [List.map_cons, List.mapM_cons, h a (by simp), ih fun b hb => h b (by simp [hb])]
    rfl

/-! ## The format -/

/-- The digits of an integer without leading zeros. -/
def digits (w n : Nat) : Bytes := (be w n).dropWhile (· == 0)

/-- A header: the length itself up to 55, else the number of its digits and its digits. -/
def header (off len : Nat) : Bytes :=
  if len ≤ 55 then [UInt8.ofNat (off + len)]
  else UInt8.ofNat (off + 55 + (digits 8 len).length) :: digits 8 len

/-- A byte below `0x80` is its own encoding; every other byte string has a header. -/
def encodeBytes : Bytes → Bytes
  | [x] => if x < 0x80 then [x] else header 0x80 1 ++ [x]
  | b => header 0x80 b.length ++ b

def encodeUint (n : Nat) : Bytes := encodeBytes (digits 8 n)

def encodeList (xs : List Bytes) : Bytes := header 0xc0 xs.flatten.length ++ xs.flatten

/-- A length spelled by digits after the header byte: no leading zero, and none that the header byte can hold. -/
def longLength (b : Bytes) (lenOfLen : Nat) : Except DecoderError (Nat × Nat) :=
  let ds := (b.drop 1).take lenOfLen
  if ds.head? = some 0 then .error .rlpDataLenWithZeroPrefix
  else if ds.length < lenOfLen then .error .rlpIsTooShort
  else if ofBe ds ≤ 55 then .error .rlpInvalidIndirection
  else .ok (1 + lenOfLen, ofBe ds)

/-- The lengths of the header and of the payload of the item at the front. -/
def payloadInfo (b : Bytes) : Except DecoderError (Nat × Nat) := do
  let info ← match b with
    | [] => .error .rlpIsTooShort
    | l :: _ =>
      if l < 0x80 then .ok (0, 1)
      else if l ≤ 0xb7 then .ok (1, l.toNat - 0x80)
      else if l ≤ 0xbf then longLength b (l.toNat - 0xb7)
      else if l ≤ 0xf7 then .ok (1, l.toNat - 0xc0)
      else longLength b (l.toNat - 0xf7)
  if info.1 + info.2 ≤ b.length then .ok info else .error .rlpIsTooShort

/-- The item starts with a list header. -/
def isList : Bytes → Bool
  | [] => false
  | l :: _ => 0xc0 ≤ l

/-- The item at the front and what follows it. -/
def nextItem (b : Bytes) : Except DecoderError (Bytes × Bytes) := do
  let info ← payloadInfo b
  .ok (b.take (info.1 + info.2), b.drop (info.1 + info.2))

/-- The payload of the item at the front. -/
def payload (b : Bytes) : Except DecoderError Bytes := do
  let info ← payloadInfo b
  .ok ((b.drop info.1).take info.2)

/-- The items in a payload, up to the first that is malformed. -/
def splitItems : Nat → Bytes → List Bytes
  | 0, _ => []
  | fuel + 1, b =>
    match nextItem b with
    | .ok (x, rest) => x :: splitItems fuel rest
    | .error _ => []

def items (b : Bytes) : List Bytes :=
  if isList b then
    match payload b with
    | .ok p => splitItems p.length p
    | .error _ => []
  else []

/-- Drop so many items. -/
def skipItems : Nat → Bytes → Except DecoderError Bytes
  | 0, b => .ok b
  | i + 1, b => do
    let (_, rest) ← nextItem b
    skipItems i rest

def itemAt (b : Bytes) (i : Nat) : Except DecoderError Bytes :=
  if isList b then do
    let p ← payload b
    let rest ← skipItems i p
    let (x, _) ← nextItem rest
    .ok x
  else .error .rlpExpectedToBeList

/-- The byte string at the front: not a list, and not a header for a byte that is its own encoding. Its length is read
without a look at whether the header byte can hold it. -/
def decodeValue : Bytes → Except DecoderError Bytes
  | [] => .error .rlpIsTooShort
  | l :: b =>
    if l < 0x80 then .ok [l]
    else if l ≤ 0xb7 then
      let len := l.toNat - 0x80
      if b.length < len then .error .rlpInconsistentLengthAndData
      else if len = 1 ∧ b.headD 0x80 < 0x80 then .error .rlpInvalidIndirection
      else .ok (b.take len)
    else if l ≤ 0xbf then
      let lenOfLen := l.toNat - 0xb7
      let len := ofBe (b.take lenOfLen)
      if b.length < lenOfLen then .error .rlpInconsistentLengthAndData
      else if b.head? = some 0 then .error .rlpInvalidIndirection
      else if b.length < lenOfLen + len then
        -- the end does not fit in a machine word, or it is not there
        .error (if 2 ^ 64 ≤ 1 + lenOfLen + len then .rlpInvalidLength else .rlpInconsistentLengthAndData)
      else .ok ((b.drop lenOfLen).take len)
    else .error .rlpExpectedToBeData

/-- An integer has no leading zero and at most `w` digits. -/
def uint (w : Nat) (b : Bytes) : Except DecoderError Nat := do
  let v ← decodeValue b
  if v.length ≤ w then
    if v.head? = some 0 then .error .rlpInvalidIndirection else .ok (ofBe v)
  else .error .rlpIsTooBig

/-- A byte string of exactly `n` bytes. -/
def hash (n : Nat) (b : Bytes) : Except DecoderError (FixedBytes n) := do
  let v ← decodeValue b
  if h : v.length = n then .ok ⟨v, h⟩
  else if v.length < n then .error .rlpIsTooShort else .error .rlpIsTooBig

/-- The format as an implementation. -/
def standard : Codec := ⟨encodeBytes, encodeUint, encodeList, items, itemAt, payload, decodeValue, uint, hash⟩

/-! ## The format is lawful -/

section Digits

theorem length_digits_le (w n : Nat) : (digits w n).length ≤ w := by
  simpa [digits] using (List.dropWhile_suffix (l := be w n) (· == 0)).length_le

theorem ofBe_digits {w n : Nat} (h : n < 256 ^ w) : ofBe (digits w n) = n := by
  rw [digits, ofBe_dropWhile_zero, ofBe_be h]

/-- The first digit is not zero. -/
theorem head_digits (w n : Nat) : (digits w n).head? ≠ some 0 := by
  intro h
  have := List.head?_dropWhile_not (· == (0 : UInt8)) (be w n)
  rw [show (be w n).dropWhile (· == 0) = digits w n from rfl, h] at this
  simp at this

theorem digits_ne_nil {w n : Nat} (h : n < 256 ^ w) (h0 : 0 < n) : digits w n ≠ [] := by
  intro he
  have := ofBe_digits h
  rw [he] at this
  simp [ofBe] at this
  omega

/-- A leading zero. -/
theorem be_succ_of_lt {w n : Nat} (h : n < 256 ^ w) : be (w + 1) n = 0 :: be w n := by
  induction w generalizing n with
  | zero =>
    obtain rfl : n = 0 := by simpa using h
    rfl
  | succ w ih =>
    have hdiv : n / 256 < 256 ^ w := Nat.div_lt_of_lt_mul (by rw [pow_succ] at h; omega)
    rw [be, ih hdiv, be, List.cons_append]

/-- Leading zeros do not count. -/
theorem digits_add_of_lt {w n : Nat} (h : n < 256 ^ w) (k : Nat) : digits (w + k) n = digits w n := by
  induction k with
  | zero => rfl
  | succ k ih =>
    have hk : n < 256 ^ (w + k) := h.trans_le (Nat.pow_le_pow_right (by decide) (Nat.le_add_right w k))
    rw [← ih, ← Nat.add_assoc, digits, be_succ_of_lt hk]
    simp [digits]

/-- An integer has no more digits than a type that holds it. -/
theorem length_digits_le_of_lt {W w n : Nat} (h : n < 256 ^ w) : (digits W n).length ≤ w := by
  rcases Nat.le_total W w with hw | hw
  · exact (length_digits_le W n).trans hw
  · obtain ⟨k, rfl⟩ := Nat.exists_eq_add_of_le hw
    rw [digits_add_of_lt h]
    exact length_digits_le w n

end Digits

/-- A length of at most 55, in the header byte itself. -/
theorem payloadInfo_short {x : UInt8} {rest : Bytes} {len : Nat}
    (hx : x.toNat = 0x80 + len ∨ x.toNat = 0xc0 + len) (h55 : len ≤ 55) (hr : len ≤ rest.length) :
    payloadInfo (x :: rest) = .ok (1, len) := by
  have ht : 1 + len ≤ (x :: rest).length := by rw [List.length_cons]; omega
  unfold payloadInfo
  simp only [UInt8.lt_iff_toNat_lt, UInt8.le_iff_toNat_le, UInt8.reduceToNat]
  rcases hx with hx | hx
  · rw [if_neg (by omega), if_pos (by omega), show x.toNat - 0x80 = len by omega]
    simp only [bind, Except.bind, if_pos ht]
  · rw [if_neg (by omega), if_neg (by omega), if_neg (by omega), if_pos (by omega),
      show x.toNat - 0xc0 = len by omega]
    simp only [bind, Except.bind, if_pos ht]

/-- A length spelled by digits. -/
theorem longLength_eq {x : UInt8} {ds rest : Bytes} (h0 : ds.head? ≠ some 0) (h55 : 55 < ofBe ds) :
    longLength (x :: (ds ++ rest)) ds.length = .ok (1 + ds.length, ofBe ds) := by
  simp [longLength, h0, h55]

/-- A length of more than 55, in digits after the header byte. -/
theorem payloadInfo_long {x : UInt8} {ds rest : Bytes}
    (hx : x.toNat = 0xb7 + ds.length ∨ x.toNat = 0xf7 + ds.length) (hk0 : 0 < ds.length) (hk : ds.length ≤ 8)
    (h0 : ds.head? ≠ some 0) (h55 : 55 < ofBe ds) (hr : ofBe ds ≤ rest.length) :
    payloadInfo (x :: (ds ++ rest)) = .ok (1 + ds.length, ofBe ds) := by
  have ht : 1 + ds.length + ofBe ds ≤ (x :: (ds ++ rest)).length := by
    rw [List.length_cons, List.length_append]; omega
  unfold payloadInfo
  simp only [UInt8.lt_iff_toNat_lt, UInt8.le_iff_toNat_le, UInt8.reduceToNat]
  rcases hx with hx | hx
  · rw [if_neg (by omega), if_neg (by omega), if_pos (by omega), show x.toNat - 0xb7 = ds.length by omega,
      longLength_eq h0 h55]
    simp only [bind, Except.bind, if_pos ht]
  · rw [if_neg (by omega), if_neg (by omega), if_neg (by omega), if_neg (by omega),
      show x.toNat - 0xf7 = ds.length by omega, longLength_eq h0 h55]
    simp only [bind, Except.bind, if_pos ht]

/-- A header is read back, off a payload of the announced length. -/
theorem payloadInfo_header {off len : Nat} (hoff : off = 0x80 ∨ off = 0xc0) (hlen : len < 2 ^ 64) {body : Bytes}
    (hb : len ≤ body.length) :
    payloadInfo (header off len ++ body) = .ok ((header off len).length, len) := by
  unfold header
  split
  · rename_i h55
    have hn : (UInt8.ofNat (off + len)).toNat = off + len := by
      rw [UInt8.toNat_ofNat']; omega
    exact payloadInfo_short (by omega) h55 hb
  · rename_i h55
    have hlen' : len < 256 ^ 8 := by simpa using hlen
    have hk := length_digits_le 8 len
    have hk0 : 0 < (digits 8 len).length := List.length_pos_of_ne_nil (digits_ne_nil hlen' (by omega))
    have hn : (UInt8.ofNat (off + 55 + (digits 8 len).length)).toNat = off + 55 + (digits 8 len).length := by
      rw [UInt8.toNat_ofNat']; omega
    rw [List.cons_append, payloadInfo_long (by omega) hk0 hk (head_digits 8 len)
      (by rw [ofBe_digits hlen']; omega) (by rwa [ofBe_digits hlen']),
      ofBe_digits hlen', List.length_cons, Nat.add_comm]

/-- The first byte of a header. -/
theorem head_header {off : Nat} (len : Nat) (hoff : off = 0x80 ∨ off = 0xc0) :
    ∃ x tail, header off len = x :: tail ∧ (off = 0x80 ↔ x < 0xc0) := by
  unfold header
  split
  · refine ⟨_, [], rfl, ?_⟩
    rw [UInt8.lt_iff_toNat_lt, UInt8.toNat_ofNat', show (0xc0 : UInt8).toNat = 0xc0 from rfl]
    omega
  · refine ⟨_, _, rfl, ?_⟩
    have := length_digits_le 8 len
    rw [UInt8.lt_iff_toNat_lt, UInt8.toNat_ofNat', show (0xc0 : UInt8).toNat = 0xc0 from rfl]
    omega

theorem isList_header {len : Nat} (body : Bytes) : isList (header 0xc0 len ++ body) = true := by
  obtain ⟨x, tail, h, hx⟩ := head_header len (.inr rfl)
  rw [h]
  simpa [isList, UInt8.not_lt] using hx

theorem isList_header_bytes {len : Nat} (body : Bytes) : isList (header 0x80 len ++ body) = false := by
  obtain ⟨x, tail, h, hx⟩ := head_header len (.inl rfl)
  rw [h]
  simpa [isList, UInt8.not_le] using hx

/-- The empty string and every string but a single byte below `0x80` has a header. -/
theorem encodeBytes_cases (b : Bytes) :
    (∃ x : UInt8, b = [x] ∧ x < 0x80 ∧ encodeBytes b = [x]) ∨
      (encodeBytes b = header 0x80 b.length ++ b ∧ ∀ x : UInt8, b = [x] → ¬x < 0x80) := by
  match b with
  | [] => exact .inr ⟨rfl, by simp⟩
  | [x] =>
    by_cases hx : x < 0x80
    · exact .inl ⟨x, rfl, hx, by simp [encodeBytes, hx]⟩
    · exact .inr ⟨by simp [encodeBytes, hx], by simpa using hx⟩
  | x :: y :: l => exact .inr ⟨rfl, by simp⟩

theorem isList_encodeBytes (b rest : Bytes) : isList (encodeBytes b ++ rest) = false := by
  rcases encodeBytes_cases b with ⟨x, rfl, hx, h⟩ | ⟨h, _⟩
  · rw [h]
    simp only [List.singleton_append, isList, decide_eq_false_iff_not, UInt8.le_iff_toNat_le]
    rw [UInt8.lt_iff_toNat_lt] at hx
    have : (0xc0 : UInt8).toNat = 0xc0 := rfl
    have : (0x80 : UInt8).toNat = 0x80 := rfl
    omega
  · rw [h, List.append_assoc, isList_header_bytes]

/-- The item of a byte string is read off the front. -/
theorem nextItem_encodeBytes {b : Bytes} (hb : b.length < 2 ^ 64) (rest : Bytes) :
    nextItem (encodeBytes b ++ rest) = .ok (encodeBytes b, rest) := by
  rcases encodeBytes_cases b with ⟨x, rfl, hx, h⟩ | ⟨h, _⟩
  · rw [h]
    simp [nextItem, payloadInfo, hx, bind, Except.bind]
  · rw [h, nextItem, List.append_assoc, payloadInfo_header (.inl rfl) hb (by simp)]
    simp only [bind, Except.bind, ← List.length_append]
    rw [← List.append_assoc, List.take_left, List.drop_left]

/-- A byte string of at most 55 bytes, behind its header. -/
theorem decodeValue_short {x : UInt8} {b : Bytes} (hx : x.toNat = 0x80 + b.length) (h55 : b.length ≤ 55)
    (hne : ∀ y : UInt8, b = [y] → ¬y < 0x80) (rest : Bytes) : decodeValue (x :: (b ++ rest)) = .ok b := by
  have hbyte : ¬(b.length = 1 ∧ (b ++ rest).headD 0x80 < 0x80) := by
    rintro ⟨h1, hlt⟩
    obtain ⟨y, rfl⟩ := List.length_eq_one_iff.1 h1
    exact hne y rfl (by simpa using hlt)
  simp only [decodeValue, UInt8.lt_iff_toNat_lt, UInt8.le_iff_toNat_le, UInt8.reduceToNat] at hbyte ⊢
  rw [if_neg (by omega), if_pos (by omega), show x.toNat - 0x80 = b.length by omega,
    if_neg (by rw [List.length_append]; omega), if_neg hbyte, List.take_left]

/-- A byte string behind a header with the digits of its length. -/
theorem decodeValue_long {x : UInt8} {ds b : Bytes} (hx : x.toNat = 0xb7 + ds.length) (hk0 : 0 < ds.length)
    (hk : ds.length ≤ 8) (h0 : ds.head? ≠ some 0) (hds : ofBe ds = b.length) (rest : Bytes) :
    decodeValue (x :: (ds ++ (b ++ rest))) = .ok b := by
  have hhead : (ds ++ (b ++ rest)).head? ≠ some 0 := by
    rwa [List.head?_append_of_ne_nil _ (List.ne_nil_of_length_pos hk0)]
  simp only [decodeValue, UInt8.lt_iff_toNat_lt, UInt8.le_iff_toNat_le, UInt8.reduceToNat]
  rw [if_neg (by omega), if_neg (by omega), if_pos (by omega), show x.toNat - 0xb7 = ds.length by omega,
    List.take_left, List.drop_left, hds, if_neg (by rw [List.length_append]; omega), if_neg hhead,
    if_neg (by simp only [List.length_append]; omega), List.take_left]

/-- **A byte string round-trips.** -/
theorem decodeValue_encodeBytes {b : Bytes} (hb : b.length < 2 ^ 64) (rest : Bytes) :
    decodeValue (encodeBytes b ++ rest) = .ok b := by
  rcases encodeBytes_cases b with ⟨x, rfl, hx, h⟩ | ⟨h, hne⟩
  · rw [h]
    simp [decodeValue, hx]
  · rw [h, header]
    split
    · rename_i h55
      exact decodeValue_short (by rw [UInt8.toNat_ofNat']; omega) h55 hne rest
    · have hb' : b.length < 256 ^ 8 := by simpa using hb
      have hk := length_digits_le 8 b.length
      have hk0 : 0 < (digits 8 b.length).length := List.length_pos_of_ne_nil (digits_ne_nil hb' (by omega))
      rw [List.append_assoc]
      exact decodeValue_long (by rw [UInt8.toNat_ofNat']; omega) hk0 hk (head_digits 8 _) (ofBe_digits hb') rest

theorem payload_encodeBytes {b : Bytes} (hb : b.length < 2 ^ 64) : payload (encodeBytes b) = .ok b := by
  rcases encodeBytes_cases b with ⟨x, rfl, hx, h⟩ | ⟨h, _⟩
  · rw [h]
    simp [payload, payloadInfo, hx, bind, Except.bind]
  · rw [h, payload, payloadInfo_header (.inl rfl) hb le_rfl]
    simp only [bind, Except.bind, List.drop_left, List.take_length]

theorem encodeBytes_pos (b : Bytes) : 0 < (encodeBytes b).length := by
  rcases encodeBytes_cases b with ⟨x, _, _, h⟩ | ⟨h, _⟩
  · simp [h]
  · obtain ⟨x, tail, hh, _⟩ := head_header b.length (.inl rfl)
    simp [h, hh]

/-- **An integer round-trips.** -/
theorem uint_encodeUint {w n : Nat} (hn : n < 2 ^ 64) (hw : (digits 8 n).length ≤ w) (rest : Bytes) :
    uint w (encodeUint n ++ rest) = .ok n := by
  have hl : (digits 8 n).length < 2 ^ 64 := lt_of_le_of_lt (length_digits_le 8 n) (by decide)
  rw [uint, encodeUint, decodeValue_encodeBytes hl]
  simp only [bind, Except.bind, if_pos hw, if_neg (head_digits 8 n)]
  rw [ofBe_digits (by simpa using hn)]

theorem nextItem_encodeList {xs : List Bytes} (h : xs.flatten.length < 2 ^ 64) (rest : Bytes) :
    nextItem (encodeList xs ++ rest) = .ok (encodeList xs, rest) := by
  rw [encodeList, nextItem, List.append_assoc, payloadInfo_header (.inr rfl) h (by simp)]
  simp only [bind, Except.bind, ← List.length_append]
  rw [← List.append_assoc, List.take_left, List.drop_left]

/-- The bytes are one item, which is read off the front. -/
structure IsFront (x : Bytes) : Prop where
  pos : 0 < x.length
  next : ∀ rest, nextItem (x ++ rest) = .ok (x, rest)

theorem isFront_encodeBytes {b : Bytes} (hb : b.length < 2 ^ 64) : IsFront (encodeBytes b) :=
  ⟨encodeBytes_pos b, nextItem_encodeBytes hb⟩

theorem isFront_encodeList {xs : List Bytes} (h : xs.flatten.length < 2 ^ 64) : IsFront (encodeList xs) where
  pos := by
    obtain ⟨x, tail, hh, _⟩ := head_header xs.flatten.length (.inr rfl)
    rw [encodeList, hh]
    simp
  next := nextItem_encodeList h

/-- Items are split off a payload one by one. -/
theorem splitItems_flatten {xs : List Bytes} (h : ∀ x ∈ xs, IsFront x) :
    ∀ {fuel : Nat}, xs.length ≤ fuel → splitItems fuel xs.flatten = xs := by
  induction xs with
  | nil =>
    intro fuel _
    cases fuel <;> simp [splitItems, nextItem, payloadInfo, bind, Except.bind]
  | cons x xs ih =>
    intro fuel hf
    obtain ⟨fuel, rfl⟩ := Nat.exists_eq_add_of_lt (Nat.lt_of_lt_of_le (Nat.succ_pos xs.length) hf)
    simp only [List.length_cons] at hf
    rw [List.flatten_cons, Nat.zero_add, splitItems, (h x (by simp)).next]
    simp only [ih (fun y hy => h y (by simp [hy])) (show xs.length ≤ fuel by omega)]

theorem length_le_flatten {xs : List Bytes} (h : ∀ x ∈ xs, IsFront x) : xs.length ≤ xs.flatten.length := by
  induction xs with
  | nil => simp
  | cons x xs ih =>
    have := (h x (by simp)).pos
    have := ih fun y hy => h y (by simp [hy])
    simp only [List.flatten_cons, List.length_cons, List.length_append]
    omega

/-- The payload of a list. -/
theorem payload_encodeList {xs : List Bytes} (hl : xs.flatten.length < 2 ^ 64) (rest : Bytes) :
    isList (encodeList xs ++ rest) = true ∧ payload (encodeList xs ++ rest) = .ok xs.flatten := by
  rw [encodeList, List.append_assoc]
  refine ⟨isList_header _, ?_⟩
  rw [payload, payloadInfo_header (.inr rfl) hl (by simp)]
  simp only [bind, Except.bind, List.drop_left, List.take_left]

/-- **A list of items round-trips**, whatever follows it. -/
theorem items_encodeList {xs : List Bytes} (h : ∀ x ∈ xs, IsFront x) (hl : xs.flatten.length < 2 ^ 64)
    (rest : Bytes) : items (encodeList xs ++ rest) = xs := by
  obtain ⟨hlist, hp⟩ := payload_encodeList hl rest
  rw [items, if_pos hlist, hp]
  exact splitItems_flatten h (length_le_flatten h)

/-- Items are skipped one by one. -/
theorem skipItems_flatten {xs : List Bytes} (h : ∀ x ∈ xs, IsFront x) (i : Nat) :
    (skipItems i xs.flatten >>= nextItem) =
      (xs[i]?).elim (.error .rlpIsTooShort) fun x => .ok (x, (xs.drop (i + 1)).flatten) := by
  induction xs generalizing i with
  | nil => cases i <;> simp [skipItems, nextItem, payloadInfo, bind, Except.bind]
  | cons x xs ih =>
    have hx := (h x (by simp)).next xs.flatten
    cases i with
    | zero => simpa [skipItems, bind, Except.bind] using hx
    | succ i =>
      have := ih (fun y hy => h y (by simp [hy])) i
      simp only [bind, Except.bind] at this
      simpa [skipItems, hx, bind, Except.bind] using this

/-- **An item of a list** is found by its index. -/
theorem itemAt_encodeList {xs : List Bytes} (h : ∀ x ∈ xs, IsFront x) (hl : xs.flatten.length < 2 ^ 64)
    (rest : Bytes) (i : Nat) :
    itemAt (encodeList xs ++ rest) i = (xs[i]?).elim (.error .rlpIsTooShort) .ok := by
  obtain ⟨hlist, hp⟩ := payload_encodeList hl rest
  have hskip := skipItems_flatten h i
  simp only [bind, Except.bind] at hskip
  rw [itemAt, if_pos hlist]
  simp only [hp, bind, Except.bind]
  cases hs : skipItems i xs.flatten with
  | error e =>
    rw [hs] at hskip
    cases hx : xs[i]? <;> simp_all
  | ok b =>
    rw [hs] at hskip
    simp only at hskip ⊢
    rw [hskip]
    cases hx : xs[i]? <;> simp

/-- An integer below `0x80` is its own digit. -/
theorem digits_small {n : Nat} (h0 : 0 < n) (h : n < 0x80) : digits 8 n = [UInt8.ofNat n] := by
  have hz : UInt8.ofNat 0 = 0 := rfl
  have hn : ¬UInt8.ofNat n = 0 := fun he => by
    have := congrArg UInt8.toNat he
    rw [UInt8.toNat_ofNat', UInt8.toNat_zero] at this
    omega
  have hd : n / 256 = 0 := by omega
  simp [digits, be, hd, hz, hn]

theorem length_encodeBytes_le {b : Bytes} (hb : b.length < 2 ^ 64) : (encodeBytes b).length ≤ b.length + 9 := by
  rcases encodeBytes_cases b with ⟨x, rfl, _, h⟩ | ⟨h, _⟩
  · simp [h]
  · have := length_digits_le 8 b.length
    rw [h, List.length_append, header]
    split <;> simp <;> omega

/-- Items are encodings of byte strings. -/
theorem exists_of_isItem {x : Bytes} (h : standard.IsItem x) : ∃ b : Bytes, b.length < 2 ^ 32 ∧ x = encodeBytes b := by
  cases h with
  | bytes hb => exact ⟨_, hb, rfl⟩
  | @uint n hn => exact ⟨digits 8 n, lt_of_le_of_lt (length_digits_le 8 n) (by decide), rfl⟩

theorem exists_of_isItems : ∀ xs : List Bytes, (∀ x ∈ xs, standard.IsItem x) →
    ∃ bs : List Bytes, (∀ b ∈ bs, b.length < 2 ^ 32) ∧ xs = bs.map encodeBytes
  | [], _ => ⟨[], by simp, rfl⟩
  | x :: xs, h => by
    obtain ⟨b, hb, rfl⟩ := exists_of_isItem (h x (by simp))
    obtain ⟨bs, hbs, rfl⟩ := exists_of_isItems xs (fun y hy => h y (by simp [hy]))
    exact ⟨b :: bs, by simpa using ⟨hb, hbs⟩, rfl⟩

theorem length_flatten_le : ∀ bs : List Bytes, (∀ b ∈ bs, b.length < 2 ^ 32) →
    (bs.map encodeBytes).flatten.length ≤ bs.length * 2 ^ 33
  | [], _ => by simp
  | b :: bs, h => by
    have hb := h b (by simp)
    have h1 := length_encodeBytes_le (b := b) (by omega)
    have h2 := length_flatten_le bs (fun x hx => h x (by simp [hx]))
    simp only [List.map_cons, List.flatten_cons, List.length_append, List.length_cons]
    omega

/-- A single byte below `0x80` is its own value. -/
theorem decodeValue_byte (b : UInt8) : (decodeValue [b]).toOption =
    if b < 0x80 then some [b] else if b = 0x80 then some [] else none := by
  by_cases h : b < 0x80
  · simp [decodeValue, h, Except.toOption]
  rw [if_neg h]
  by_cases h' : b = 0x80
  · subst h'
    rfl
  have h80 : b.toNat ≠ 0x80 := fun he => h' (UInt8.toNat_inj.1 he)
  rw [if_neg h', decodeValue]
  simp only [UInt8.lt_iff_toNat_lt, UInt8.le_iff_toNat_le, UInt8.reduceToNat, List.length_nil] at h ⊢
  rw [if_neg h]
  -- the length or its digits are missing
  split
  · rw [if_pos (by omega)]
    rfl
  · split
    · rw [if_pos (by omega)]
      rfl
    · rfl

/-- **The format is lawful.** -/
theorem standard_lawful : standard.Lawful where
  items_list xs rest h hl := by
    obtain ⟨bs, hbs, rfl⟩ := exists_of_isItems xs h
    have := length_flatten_le bs hbs
    rw [List.length_map] at hl
    refine items_encodeList (fun x hx => ?_) (by omega) rest
    obtain ⟨b, hb, rfl⟩ := List.mem_map.1 hx
    exact isFront_encodeBytes (by have := hbs b hb; omega)
  data_bytes b hb := payload_encodeBytes (by omega)
  value_bytes b hb := by
    have := decodeValue_encodeBytes (b := b) (by omega) []
    rwa [List.append_nil] at this
  hash_bytes n h hn := by
    have := decodeValue_encodeBytes (b := h.bytes) (by rw [h.length_bytes]; omega) []
    rw [List.append_nil] at this
    simp only [standard, hash, this, bind, Except.bind, h.length_bytes, ↓reduceDIte]
  uint_small n h0 h := by
    have hx : UInt8.ofNat n < 0x80 := by
      rw [UInt8.lt_iff_toNat_lt, UInt8.toNat_ofNat', show (0x80 : UInt8).toNat = 0x80 from rfl]
      omega
    simp [standard, encodeUint, digits_small h0 h, encodeBytes, hx]
  uint_zero := rfl
  uint_large n h hn := by
    have hn' : n < 256 ^ 8 := by simpa using hn
    have hk := length_digits_le 8 n
    have hk0 : 0 < (digits 8 n).length := List.length_pos_of_ne_nil (digits_ne_nil hn' (by omega))
    have hofNat : (UInt8.ofNat (0x80 + (digits 8 n).length)).toNat = 0x80 + (digits 8 n).length := by
      rw [UInt8.toNat_ofNat']; omega
    refine ⟨UInt8.ofNat (0x80 + (digits 8 n).length), digits 8 n, ?_, ?_, digits_ne_nil hn' (by omega), ?_⟩
    · rw [UInt8.le_iff_toNat_le, hofNat]
      exact Nat.add_le_add_left hk0 0x80
    · rw [UInt8.le_iff_toNat_le, hofNat]
      exact Nat.add_le_add_left hk 0x80
    · rcases encodeBytes_cases (digits 8 n) with ⟨x, hd, hx, _⟩ | ⟨he, _⟩
      · -- a single digit below `0x80` spells an integer below `0x80`
        have := ofBe_digits hn'
        rw [hd] at this
        simp only [ofBe, List.foldl_cons, List.foldl_nil, Nat.zero_mul, Nat.zero_add] at this
        rw [UInt8.lt_iff_toNat_lt, this] at hx
        exact absurd hx (Nat.not_lt.2 h)
      · simp only [standard, encodeUint, he, header]
        rw [if_pos (by omega)]
        rfl
  uint_byte w b hw := by
    have h := decodeValue_byte b
    simp only [standard, uint]
    cases hv : decodeValue [b] with
    | error e =>
      rw [hv] at h
      simp only [Except.toOption, bind, Except.bind] at h ⊢
      split at h
      · cases h
      · rename_i h1
        split at h
        · cases h
        · rename_i h2
          have : b ≠ 0 := fun h0 => h1 (by rw [h0]; decide)
          rw [if_neg this, if_neg h1, if_neg h2]
    | ok v =>
      rw [hv] at h
      simp only [Except.toOption, bind, Except.bind] at h ⊢
      split at h
      · rename_i h1
        cases h
        by_cases h0 : b = 0
        · simp [h0, Nat.succ_le_of_lt hw]
        · simp [h0, h1, Nat.succ_le_of_lt hw, ofBe]
      · rename_i h1
        split at h
        · rename_i h2
          cases h
          subst h2
          rfl
        · cases h
  length_bytes b hb := length_encodeBytes_le (by omega)
  length_uint n _ := by
    have hd := length_digits_le 8 n
    rcases encodeBytes_cases (digits 8 n) with ⟨x, _, _, h⟩ | ⟨h, _⟩
    · simp [standard, encodeUint, h]
    · simp only [standard, encodeUint, h, header]
      rw [if_pos (by omega), List.length_append, List.length_singleton]
      omega
  length_list xs h := by
    have := length_digits_le 8 xs.flatten.length
    simp only [standard, encodeList, header, List.length_append]
    split <;> simp only [List.length_cons, List.length_nil] <;> omega
  itemAt_uint n i _ := by
    have := isList_encodeBytes (digits 8 n) []
    rw [List.append_nil] at this
    simp [standard, itemAt, encodeUint, this]

theorem le_length_encodeBytes (b : Bytes) : b.length ≤ (encodeBytes b).length := by
  rcases encodeBytes_cases b with ⟨x, rfl, _, h⟩ | ⟨h, _⟩
  · simp [h]
  · simp [h]

theorem le_length_encodeList (xs : List Bytes) : xs.flatten.length ≤ (encodeList xs).length := by
  simp [encodeList]

/-- Nested items that fit a machine word are read off the front. -/
theorem isFront_of_isNested {x : Bytes} (h : standard.IsNested x) (hl : x.length < 2 ^ 64) : IsFront x := by
  cases h with
  | bytes b => exact isFront_encodeBytes ((le_length_encodeBytes b).trans_lt hl)
  | @uint n hn => exact isFront_encodeBytes ((le_length_encodeBytes (digits 8 n)).trans_lt hl)
  | @list xs _ => exact isFront_encodeList ((le_length_encodeList xs).trans_lt hl)

theorem isFront_of_mem {xs : List Bytes} (h : ∀ x ∈ xs, standard.IsNested x) (hl : (encodeList xs).length < 2 ^ 64) :
    ∀ x ∈ xs, IsFront x := fun x hx =>
  isFront_of_isNested (h x hx) <| by
    have := (List.sublist_flatten_of_mem hx).length_le
    have := le_length_encodeList xs
    omega

/-- **The format is lawful on nested lists.** -/
theorem standard_listLaws : standard.ListLaws where
  items_nested xs rest h hl :=
    items_encodeList (isFront_of_mem h hl) ((le_length_encodeList xs).trans_lt hl) rest
  itemAt_nested xs rest i h hl :=
    itemAt_encodeList (isFront_of_mem h hl) ((le_length_encodeList xs).trans_lt hl) rest i
  data_nested _ hb := payload_encodeBytes hb
  value_nested b hb := by
    have := decodeValue_encodeBytes hb []
    rwa [List.append_nil] at this
  uint_uint w n hw hn := by
    have := uint_encodeUint (w := w) hn (length_digits_le_of_lt hw) []
    rwa [List.append_nil] at this
  le_length_bytes := le_length_encodeBytes
  le_length_list := le_length_encodeList

/-- **The format is canonical.** -/
theorem standard_canonical : standard.Canonical where
  head_bytes b := by
    have hlist := isList_encodeBytes b []
    rw [List.append_nil] at hlist
    obtain ⟨x, tail, h⟩ := List.exists_cons_of_length_pos (encodeBytes_pos b)
    refine ⟨x, tail, h, ?_⟩
    rw [h] at hlist
    simpa [isList, UInt8.not_le] using hlist
  uint_bytes n _ := ⟨digits 8 n, length_digits_le 8 n, rfl⟩

end Rlp
