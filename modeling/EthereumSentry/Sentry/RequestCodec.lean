import EthereumSentry.Sentry.BlockHeaders

/-!
# The encoding of requests

`src/src/services/provider.rs`: a `GetBlockHeaders` is the list of its four fields. Its block is a hash or a number
without a tag; the decoder looks at the size of the item. A number has at most eight digits
(`rlpSize_encode_number`) and a hash has 32 bytes, zeros included (`rlpSize_encode_hash`), so that what is decoded is
what was encoded (`GetBlockHeaders.request_roundTrip`).
-/

set_option autoImplicit false

namespace EthereumSentry

/-! ## The encoders -/

def BlockId.encode (R : Rlp.Codec) : BlockId → Bytes
  | .hash v => R.encodeBytes v.bytes
  | .number v => R.encodeUint v.toNat

/-- `bool::rlp_append`: one byte. -/
def encodeBool (R : Rlp.Codec) (b : Bool) : Bytes := R.encodeBytes [if b then 1 else 0]

/-- The fields of a request, each encoded. -/
def GetBlockHeaders.fields (R : Rlp.Codec) (g : GetBlockHeaders) : List Bytes :=
  [g.block.encode R, R.encodeUint g.maxHeaders.toNat, R.encodeUint g.skip.toNat, encodeBool R g.reverse]

def GetBlockHeaders.encode (R : Rlp.Codec) (g : GetBlockHeaders) : Bytes := R.encodeList (g.fields R)

variable {R : Rlp.Codec}

/-! ## The size of an item -/

/-- The size of a byte string is its length. -/
theorem rlpSize_encodeBytes (hR : R.Lawful) (hC : R.Canonical) {b : Bytes} (hb : b.length < 2 ^ 32) :
    rlpSize R (R.encodeBytes b) = b.length := by
  obtain ⟨x, tail, h, hx⟩ := hC.head_bytes b
  have hlist : ((R.encodeBytes b).head?.any (0xc0 ≤ ·)) = false := by
    rw [h]
    simpa [UInt8.not_le] using hx
  rw [rlpSize, hlist, hR.data_bytes b hb]
  rfl

theorem rlpSize_encode_hash (hR : R.Lawful) (hC : R.Canonical) (hash : H256) :
    rlpSize R ((BlockId.hash hash).encode R) = 32 := by
  have hlen : hash.bytes.length = 32 := hash.length_bytes
  rw [BlockId.encode, rlpSize_encodeBytes hR hC (by omega), hlen]

/-- **The size of a number**, zero and the greatest included. -/
theorem rlpSize_encode_number (hR : R.Lawful) (hC : R.Canonical) (number : UInt64) :
    rlpSize R ((BlockId.number number).encode R) ≤ 8 := by
  obtain ⟨ds, hlen, h⟩ := hC.uint_bytes number.toNat number.toNat_lt
  rw [BlockId.encode, h, rlpSize_encodeBytes hR hC (by omega)]
  exact hlen

/-! ## What is decoded -/

/-- An integer of eight bytes. -/
theorem uint_encodeUint (hL : R.ListLaws) (n : UInt64) : R.uint 8 (R.encodeUint n.toNat) = .ok n.toNat :=
  hL.uint_uint 8 n.toNat n.toNat_lt n.toNat_lt

theorem BlockId.decode_encode (hR : R.Lawful) (hL : R.ListLaws) (hC : R.Canonical) (block : BlockId) :
    BlockId.decode R (block.encode R) = .ok block := by
  cases block with
  | hash hash =>
    rw [BlockId.decode, if_pos (rlpSize_encode_hash hR hC hash), BlockId.encode, hR.hash_bytes 32 hash (by decide)]
    rfl
  | number number =>
    have hsize := rlpSize_encode_number hR hC number
    rw [BlockId.decode, if_neg (by omega), BlockId.encode, uint_encodeUint hL]
    simp [Except.map]

theorem decodeBool_encodeBool (hR : R.Lawful) (b : Bool) : decodeBool R (encodeBool R b) = .ok b := by
  have hvalue : R.value (encodeBool R b) = .ok [if b then 1 else 0] := hR.value_bytes _ (by simp)
  rw [decodeBool, hvalue]
  cases b <;> rfl

namespace GetBlockHeaders

/-- Every field is a byte string or an integer. -/
theorem isNested_fields (g : GetBlockHeaders) : ∀ x ∈ g.fields R, R.IsNested x := by
  intro x hx
  simp only [fields, List.mem_cons, List.not_mem_nil, or_false] at hx
  obtain rfl | rfl | rfl | rfl := hx
  · cases g.block with
    | hash hash => exact .bytes hash.bytes
    | number number => exact .uint number.toNat_lt
  · exact .uint g.maxHeaders.toNat_lt
  · exact .uint g.skip.toNat_lt
  · exact .bytes _

/-- A block takes at most 41 bytes. -/
theorem length_encode_block_le (hR : R.Lawful) (block : BlockId) : (block.encode R).length ≤ 41 := by
  cases block with
  | hash hash =>
    have hlen : hash.bytes.length = 32 := hash.length_bytes
    have := hR.length_bytes hash.bytes (by omega)
    rw [BlockId.encode]
    omega
  | number number =>
    have := hR.length_uint number.toNat number.toNat_lt
    rw [BlockId.encode]
    omega

theorem length_encode_lt (hR : R.Lawful) (g : GetBlockHeaders) : (g.encode R).length < 2 ^ 64 := by
  have hblock := length_encode_block_le hR g.block
  have hmax := hR.length_uint g.maxHeaders.toNat g.maxHeaders.toNat_lt
  have hskip := hR.length_uint g.skip.toNat g.skip.toNat_lt
  have hreverse : (encodeBool R g.reverse).length ≤ 1 + 9 := hR.length_bytes [if g.reverse then 1 else 0] (by simp)
  have hfields : (g.fields R).flatten.length ≤ 69 := by
    simp only [fields, List.flatten_cons, List.flatten_nil, List.length_append, List.length_nil]
    omega
  have := hR.length_list (g.fields R) (by omega)
  rw [encode]
  omega

/-- A field is found by its index. -/
theorem itemAt_encode (hR : R.Lawful) (hL : R.ListLaws) (g : GetBlockHeaders) (i : Nat) :
    R.itemAt (g.encode R) i = ((g.fields R)[i]?).elim (.error .rlpIsTooShort) .ok := by
  have h := hL.itemAt_nested (g.fields R) [] i g.isNested_fields (length_encode_lt hR g)
  rwa [List.append_nil] at h

/-- **A request round-trips**, with any hash or number, any numbers and either direction. The encoding of a block is
read as what it is: no number as a hash, and no hash as a number. -/
theorem request_roundTrip (hR : R.Lawful) (hL : R.ListLaws) (hC : R.Canonical) :
    (∀ g : GetBlockHeaders, GetBlockHeaders.decode R (g.encode R) = .ok g) ∧
      (∀ number hash, BlockId.decode R ((BlockId.number number).encode R) ≠ .ok (.hash hash)) ∧
      ∀ hash number, BlockId.decode R ((BlockId.hash hash).encode R) ≠ .ok (.number number) := by
  refine ⟨fun g => ?_, fun number hash => ?_, fun hash number => ?_⟩
  · have hblock : R.itemAt (g.encode R) 0 = .ok (g.block.encode R) := itemAt_encode hR hL g 0
    have hmax : R.itemAt (g.encode R) 1 = .ok (R.encodeUint g.maxHeaders.toNat) := itemAt_encode hR hL g 1
    have hskip : R.itemAt (g.encode R) 2 = .ok (R.encodeUint g.skip.toNat) := itemAt_encode hR hL g 2
    have hreverse : R.itemAt (g.encode R) 3 = .ok (encodeBool R g.reverse) := itemAt_encode hR hL g 3
    simp only [GetBlockHeaders.decode, hblock, hmax, hskip, hreverse, bind, Except.bind,
      BlockId.decode_encode hR hL hC, uint_encodeUint hL, decodeBool_encodeBool hR, UInt64.ofNat_toNat]
    rfl
  · rw [BlockId.decode_encode hR hL hC]
    simp
  · rw [BlockId.decode_encode hR hL hC]
    simp

/-- Of the greatest number, and of the hash that is all zeros. -/
theorem greatest_roundTrip :
    GetBlockHeaders.decode Rlp.standard
      (GetBlockHeaders.encode Rlp.standard ⟨.number 0xffffffffffffffff, 2, 0, true⟩) =
        .ok ⟨.number 0xffffffffffffffff, 2, 0, true⟩ ∧
      ∀ number, BlockId.decode Rlp.standard
        ((BlockId.hash ⟨List.replicate 32 0, rfl⟩).encode Rlp.standard) ≠ .ok (.number number) := by
  obtain ⟨hround, -, hhash⟩ := request_roundTrip Rlp.standard_lawful Rlp.standard_listLaws Rlp.standard_canonical
  exact ⟨hround _, hhash _⟩

end GetBlockHeaders

end EthereumSentry
