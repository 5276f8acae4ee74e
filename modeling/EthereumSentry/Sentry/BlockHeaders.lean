import Mathlib.Data.List.TakeWhile
import EthereumSentry.Lib.Overflow
import EthereumSentry.Sentry.CapabilityServer

/-!
# Requests for headers

`src/src/main.rs` and `src/src/services/provider.rs`: how a `GetBlockHeaders` of a valid peer is answered. The numbers
of the blocks that are asked for are computed from the four values of the request (`GetBlockHeaders.numbers`), without a
look at their range or at how many they are: they are the ones the request means exactly when the last of them is in
range and a vector has room for their blocks (`getBlockHeaders_exact`).
-/

set_option autoImplicit false

namespace EthereumSentry

/-! ## The request -/

/-- `BlockId`. -/
inductive BlockId where
  | hash (hash : H256)
  | number (number : UInt64)
  deriving DecidableEq

namespace BlockId

/-- The bytes of a `BlockId`: a tag and the 32 bytes of a hash, aligned as the 8 bytes of a number. -/
def size : Nat := 40

/-- Numbers that are collected as blocks. -/
def ofNumbers (numbers : List UInt64) : Option (List BlockId) := do
  Overflow.withCapacity size numbers.length
  return numbers.map number

end BlockId

/-- `Rlp::size`: the length of a byte string, and zero for a list. -/
def rlpSize (R : Rlp.Codec) (item : Bytes) : Nat :=
  if item.head?.any (0xc0 ≤ ·) then 0 else match R.data item with
    | .ok data => data.length
    | .error _ => 0

def BlockId.decode (R : Rlp.Codec) (item : Bytes) : Except Rlp.DecoderError BlockId :=
  if rlpSize R item = 32 then (R.hash 32 item).map .hash else (R.uint 8 item).map fun n => .number (UInt64.ofNat n)

/-- `bool::decode`. -/
def decodeBool (R : Rlp.Codec) (item : Bytes) : Except Rlp.DecoderError Bool := do
  match ← R.value item with
  | [] => return false
  | [b] => return b ≠ 0
  | _ => throw .rlpIsTooBig

/-- `GetBlockHeaders`. -/
structure GetBlockHeaders where
  block : BlockId
  maxHeaders : UInt64
  skip : UInt64
  reverse : Bool
  deriving DecidableEq

def GetBlockHeaders.decode (R : Rlp.Codec) (data : Bytes) : Except Rlp.DecoderError GetBlockHeaders := do
  let block ← BlockId.decode R (← R.itemAt data 0)
  let maxHeaders ← R.uint 8 (← R.itemAt data 1)
  let skip ← R.uint 8 (← R.itemAt data 2)
  let reverse ← decodeBool R (← R.itemAt data 3)
  return ⟨block, UInt64.ofNat maxHeaders, UInt64.ofNat skip, reverse⟩

/-! ## The answer -/

/-- `DataProvider`: its answers about headers, which are awaited one after the other. -/
structure DataProvider (Header : Type) where
  resolveBlockHeight : H256 → Except String (Option UInt64)
  getBlockHeaders : List BlockId → List (Except String Header)

variable {Header : Type}

/-- The height that a request starts at. -/
def DataProvider.anchor (p : DataProvider Header) : BlockId → Option UInt64
  | .number num => some num
  | .hash hash => match p.resolveBlockHeight hash with
    | .ok height => height
    | .error _ => none

namespace GetBlockHeaders

/-- The number at an index, in a build that checks for overflow or in one that does not. -/
def number (checks : Bool) (selector : GetBlockHeaders) (anchor i : UInt64) : Option UInt64 := do
  let skip ← Overflow.add checks selector.skip 1
  let offset ← Overflow.mul checks skip i
  if selector.reverse then Overflow.sub checks anchor offset else Overflow.add checks anchor offset

/-- The numbers, collected in a vector that has room for all of them from the start. -/
def numbers (checks : Bool) (selector : GetBlockHeaders) (anchor : UInt64) : Option (List UInt64) := do
  Overflow.withCapacity 8 selector.maxHeaders.toNat
  (List.range selector.maxHeaders.toNat).mapM fun i => selector.number checks anchor (UInt64.ofNat i)

/-- The numbers as blocks, when there is room for headers of some size as well. -/
def blocks (checks : Bool) (headerSize : Nat) (selector : GetBlockHeaders) (anchor : UInt64) :
    Option (List BlockId) := do
  let numbers ← selector.numbers checks anchor
  let blocks ← BlockId.ofNumbers numbers
  Overflow.withCapacity headerSize numbers.length
  return blocks

end GetBlockHeaders

/-- The headers before the first error. -/
def headersUntilError : List (Except String Header) → List Header
  | .ok header :: rest => header :: headersUntilError rest
  | _ => []

/-- The part of `handle_event` for a `GetBlockHeaders` of a valid peer, with the bytes that a `Header` has in a vector.
The state lists the calls of `get_block_headers`. -/
def handleGetBlockHeaders (checks : Bool) (R : Rlp.Codec) (headerSize : Nat) (encodeHeader : Header → Bytes)
    (p : DataProvider Header) (data : Bytes) : Prog DisconnectReason (List (List BlockId)) Message := do
  let selector ← Prog.ofExcept (fun _ => .protocolBreach) (GetBlockHeaders.decode R data)
  let selected ← match p.anchor selector.block with
    | some anchor => Prog.unwrap (selector.numbers checks anchor)
    | none => pure []
  let blocks ← Prog.unwrap (BlockId.ofNumbers selected)
  modify fun calls => calls ++ [blocks]
  Prog.unwrap (Overflow.withCapacity headerSize selected.length)
  let output := headersUntilError (p.getBlockHeaders blocks)
  return ⟨MessageId.blockHeaders.toUsize, R.encodeList (output.map encodeHeader)⟩

/-! ## What the request means -/

namespace GetBlockHeaders

/-- The number at an index, as an integer of any size. -/
def exactNumber (s : GetBlockHeaders) (anchor : UInt64) (i : Nat) : Int :=
  if s.reverse then anchor.toNat - i * (s.skip.toNat + 1) else anchor.toNat + i * (s.skip.toNat + 1)

/-- The numbers in order, up to the first that is no 64-bit integer. -/
def exactNumbers (s : GetBlockHeaders) (anchor : UInt64) : List UInt64 :=
  (((List.range s.maxHeaders.toNat).map (s.exactNumber anchor)).takeWhile fun n => 0 ≤ n ∧ n < 2 ^ 64).map fun n =>
    UInt64.ofNat n.toNat

/-- The distance of two numbers and the last number are in range, if there is one. -/
def InRange (s : GetBlockHeaders) (anchor : UInt64) : Prop :=
  s.maxHeaders = 0 ∨ (s.skip.toNat + 1 < 2 ^ 64 ∧
    if s.reverse then (s.maxHeaders.toNat - 1) * (s.skip.toNat + 1) ≤ anchor.toNat
    else anchor.toNat + (s.maxHeaders.toNat - 1) * (s.skip.toNat + 1) < 2 ^ 64)

variable {s : GetBlockHeaders} {anchor : UInt64}

/-- What the exact number is, without a subtraction. -/
theorem exactNumber_eq_iff {i n : Nat} : s.exactNumber anchor i = n ↔
    if s.reverse then i * (s.skip.toNat + 1) + n = anchor.toNat else anchor.toNat + i * (s.skip.toNat + 1) = n := by
  rw [exactNumber]
  split <;> push_cast [← Int.natCast_inj] <;> omega

/-- **A number that a checked build computes** is the exact one. -/
theorem number_checked {i n : UInt64} : s.number true anchor i = some n ↔
    s.skip.toNat + 1 < 2 ^ 64 ∧ s.exactNumber anchor i.toNat = n.toNat := by
  have hn := n.toNat_lt
  have hanchor := anchor.toNat_lt
  have hone : (1 : UInt64).toNat = 1 := rfl
  simp only [number, Option.bind_eq_bind, Option.bind_eq_some_iff, Overflow.add_checked, Overflow.mul_checked, hone,
    exactNumber_eq_iff]
  constructor
  · rintro ⟨skip, hskip, offset, hoffset, h⟩
    have hlt := skip.toNat_lt
    refine ⟨by omega, ?_⟩
    rw [hskip, Nat.mul_comm, hoffset]
    by_cases hr : s.reverse = true
    · rw [if_pos hr] at h ⊢
      exact Overflow.sub_checked.1 h
    · rw [if_neg hr] at h ⊢
      exact Overflow.add_checked.1 h
  · rintro ⟨hskip, h⟩
    have hoffset : i.toNat * (s.skip.toNat + 1) < 2 ^ 64 := by
      split at h <;> omega
    obtain ⟨skip, hskip'⟩ : ∃ skip : UInt64, s.skip.toNat + 1 = skip.toNat :=
      ⟨_, (UInt64.toNat_ofNat_of_lt' hskip).symm⟩
    obtain ⟨offset, hoffset'⟩ : ∃ offset : UInt64, i.toNat * (s.skip.toNat + 1) = offset.toNat :=
      ⟨_, (UInt64.toNat_ofNat_of_lt' hoffset).symm⟩
    refine ⟨skip, hskip', offset, by rw [← hskip', Nat.mul_comm, hoffset'], ?_⟩
    rw [hoffset'] at h
    by_cases hr : s.reverse = true
    · rw [if_pos hr] at h ⊢
      exact Overflow.sub_checked.2 h
    · rw [if_neg hr] at h ⊢
      exact Overflow.add_checked.2 h

/-- Every build computes what a checked build does. -/
theorem number_of_checked (checks : Bool) {i n : UInt64} (h : s.number true anchor i = some n) :
    s.number checks anchor i = some n := by
  simp only [number, Option.bind_eq_bind, Option.bind_eq_some_iff] at h ⊢
  obtain ⟨skip, hskip, offset, hoffset, h⟩ := h
  refine ⟨skip, Overflow.of_checked checks hskip, offset, Overflow.of_checked checks hoffset, ?_⟩
  by_cases hr : s.reverse = true
  · rw [if_pos hr] at h ⊢
    exact Overflow.of_checked checks h
  · rw [if_neg hr] at h ⊢
    exact Overflow.of_checked checks h

/-- The range of the last number is that of all. -/
theorem inRange_iff : s.InRange anchor ↔ ∀ i < s.maxHeaders.toNat, s.skip.toNat + 1 < 2 ^ 64 ∧
    0 ≤ s.exactNumber anchor i ∧ s.exactNumber anchor i < 2 ^ 64 := by
  have hanchor := anchor.toNat_lt
  have hmax : s.maxHeaders = 0 ↔ s.maxHeaders.toNat = 0 := UInt64.toNat_inj.symm
  -- how far the number at an index is from the anchor
  have hrange : ∀ i, (0 ≤ s.exactNumber anchor i ∧ s.exactNumber anchor i < 2 ^ 64) ↔
      if s.reverse then i * (s.skip.toNat + 1) ≤ anchor.toNat else anchor.toNat + i * (s.skip.toNat + 1) < 2 ^ 64 :=
    fun i => by
      have hcast : (i : Int) * (s.skip.toNat + 1) = (i * (s.skip.toNat + 1) : Nat) := by push_cast; ring
      rw [exactNumber, hcast]
      split <;> omega
  rw [InRange, hmax]
  simp only [hrange]
  constructor
  · rintro (h | ⟨hskip, h⟩) i hi
    · omega
    · refine ⟨hskip, ?_⟩
      have hle : i * (s.skip.toNat + 1) ≤ (s.maxHeaders.toNat - 1) * (s.skip.toNat + 1) :=
        Nat.mul_le_mul_right _ (by omega)
      split at h
      · rw [if_pos ‹_›]
        exact hle.trans h
      · rw [if_neg ‹_›]
        omega
  · intro h
    by_cases hzero : s.maxHeaders.toNat = 0
    · exact .inl hzero
    · exact .inr (h _ (by omega))

/-- The numbers in range are collected when there is room for them. -/
theorem numbers_of_inRange (h : s.InRange anchor) (hroom : 8 * s.maxHeaders.toNat < 2 ^ 63) (checks : Bool) :
    s.numbers checks anchor = some (s.exactNumbers anchor) := by
  have hmax := s.maxHeaders.toNat_lt
  have hrange := inRange_iff.1 h
  have hall : ((List.range s.maxHeaders.toNat).map (s.exactNumber anchor)).takeWhile (fun n => 0 ≤ n ∧ n < 2 ^ 64) =
      (List.range s.maxHeaders.toNat).map (s.exactNumber anchor) := by
    refine List.takeWhile_eq_self_iff.2 (List.forall_mem_map.2 fun i hi => ?_)
    exact decide_eq_true (hrange i (List.mem_range.1 hi)).2
  rw [exactNumbers, hall, List.map_map]
  refine Option.bind_eq_some_iff.2 ⟨(), Overflow.withCapacity_eq_some.2 hroom, ?_⟩
  refine List.mapM_eq_some_map fun i hi => number_of_checked checks (number_checked.2 ?_)
  have hi := List.mem_range.1 hi
  obtain ⟨hskip, hnonneg, hlt⟩ := hrange i hi
  have hi' : (UInt64.ofNat i).toNat = i := UInt64.toNat_ofNat_of_lt' (hi.trans hmax)
  have hn : (UInt64.ofNat (s.exactNumber anchor i).toNat).toNat = (s.exactNumber anchor i).toNat :=
    UInt64.toNat_ofNat_of_lt' (by change _ < 2 ^ 64; omega)
  rw [hi', Function.comp_apply, hn]
  exact ⟨hskip, (Int.toNat_of_nonneg hnonneg).symm⟩

/-- What numbers that were collected say. -/
theorem numbers_eq_some {checks : Bool} {numbers : List UInt64} (h : s.numbers checks anchor = some numbers) :
    8 * s.maxHeaders.toNat < 2 ^ 63 ∧ numbers.length = s.maxHeaders.toNat ∧
      (List.range s.maxHeaders.toNat).mapM (fun i => s.number checks anchor (UInt64.ofNat i)) = some numbers := by
  obtain ⟨⟨⟩, hroom, h⟩ := Option.bind_eq_some_iff.1 h
  exact ⟨Overflow.withCapacity_eq_some.1 hroom, by simpa using List.length_of_mapM_eq_some h, h⟩

/-- A build that does not check collects the numbers when there is room for them. -/
theorem exists_numbers_unchecked (hroom : 8 * s.maxHeaders.toNat < 2 ^ 63) :
    ∃ numbers, s.numbers false anchor = some numbers := by
  have hnumber : ∀ i, ∃ n, s.number false anchor i = some n := fun i => by
    simp only [number, Overflow.add, Overflow.mul, Overflow.sub, Overflow.guarded_false, Option.bind_eq_bind,
      Option.bind_some]
    split <;> exact ⟨_, rfl⟩
  choose f hf using hnumber
  exact ⟨_, Option.bind_eq_some_iff.2 ⟨(), Overflow.withCapacity_eq_some.2 hroom,
    List.mapM_eq_some_map fun i _ => hf (UInt64.ofNat i)⟩⟩

theorem inRange_of_numbers {numbers : List UInt64} (h : s.numbers true anchor = some numbers) : s.InRange anchor := by
  have hmax := s.maxHeaders.toNat_lt
  obtain ⟨-, -, h⟩ := numbers_eq_some h
  refine inRange_iff.2 fun i hi => ?_
  obtain ⟨n, hn⟩ := List.exists_of_mapM_eq_some h i (List.mem_range.2 hi)
  have hi' : (UInt64.ofNat i).toNat = i := UInt64.toNat_ofNat_of_lt' (hi.trans hmax)
  obtain ⟨hskip, hexact⟩ := number_checked.1 hn
  rw [hi'] at hexact
  have hlt := n.toNat_lt
  exact ⟨hskip, by omega, by omega⟩

/-- The blocks are those of the numbers. -/
theorem blocks_eq_some {checks : Bool} {headerSize : Nat} {blocks : List BlockId}
    (h : s.blocks checks headerSize anchor = some blocks) :
    ∃ numbers, s.numbers checks anchor = some numbers ∧ blocks = numbers.map .number := by
  obtain ⟨numbers, hn, h⟩ := Option.bind_eq_some_iff.1 h
  obtain ⟨blocks', hblocks, h⟩ := Option.bind_eq_some_iff.1 h
  obtain ⟨-, -, h⟩ := Option.bind_eq_some_iff.1 h
  obtain ⟨-, -, hmap⟩ := Option.bind_eq_some_iff.1 hblocks
  cases h
  cases hmap
  exact ⟨numbers, hn, rfl⟩

/-- There are no blocks when the numbers overflow in a build that checks, or when there is no room for them. -/
theorem blocks_eq_none {checks : Bool} {headerSize : Nat} (h : s.blocks checks headerSize anchor = none) :
    (checks = true ∧ ¬s.InRange anchor) ∨ 2 ^ 63 ≤ max BlockId.size headerSize * s.maxHeaders.toNat := by
  by_contra hcon
  obtain ⟨hrange, hroom⟩ := not_or.1 hcon
  have hfits : ∀ size ≤ max BlockId.size headerSize, size * s.maxHeaders.toNat < 2 ^ 63 := fun size hsize =>
    (Nat.mul_le_mul_right _ hsize).trans_lt (Nat.not_le.1 hroom)
  have hbytes : 8 * s.maxHeaders.toNat < 2 ^ 63 := hfits 8 (le_max_of_le_left (by decide))
  obtain ⟨numbers, hn⟩ : ∃ numbers, s.numbers checks anchor = some numbers := by
    cases checks with
    | false => exact exists_numbers_unchecked hbytes
    | true => exact ⟨_, numbers_of_inRange (by_contra fun hout => hrange ⟨rfl, hout⟩) hbytes true⟩
  have hcapacity : ∀ size ≤ max BlockId.size headerSize, Overflow.withCapacity size numbers.length = some () :=
    fun size hsize => by
      rw [(numbers_eq_some hn).2.1]
      exact Overflow.withCapacity_eq_some.2 (hfits size hsize)
  rw [blocks, hn] at h
  simp only [BlockId.ofNumbers, hcapacity _ (le_max_left ..), hcapacity _ (le_max_right ..), Option.bind_eq_bind,
    Option.bind_some, Option.pure_def] at h
  cases h

end GetBlockHeaders

/-- A request that decodes, whose block has a height, comes to the numbers, then to their blocks and last to the
headers, and panics where they do. -/
theorem run_handleGetBlockHeaders {R : Rlp.Codec} {p : DataProvider Header} {data : Bytes} {selector : GetBlockHeaders}
    {anchor : UInt64} (hdecode : GetBlockHeaders.decode R data = .ok selector)
    (hanchor : p.anchor selector.block = some anchor) (headerSize : Nat) (encodeHeader : Header → Bytes) (checks : Bool)
    (calls : List (List BlockId)) : (handleGetBlockHeaders checks R headerSize encodeHeader p data).run calls =
      match selector.numbers checks anchor with
      | none => .error .panic calls
      | some numbers => match BlockId.ofNumbers numbers with
        | none => .error .panic calls
        | some blocks => match Overflow.withCapacity headerSize numbers.length with
          | none => .error .panic (calls ++ [blocks])
          | some () => .ok ⟨MessageId.blockHeaders.toUsize,
              R.encodeList ((headersUntilError (p.getBlockHeaders blocks)).map encodeHeader)⟩ (calls ++ [blocks]) := by
  simp only [handleGetBlockHeaders, hdecode, Prog.ofExcept, pure_bind, hanchor]
  cases selector.numbers checks anchor with
  | none => rfl
  | some numbers =>
    simp only [Prog.unwrap, pure_bind]
    cases BlockId.ofNumbers numbers with
    | none => rfl
    | some blocks =>
      cases Overflow.withCapacity headerSize numbers.length <;> rfl

/-- **The numbers of a request are exact when the last of them is in range** and there are not too many. For a request
that decodes, whose block has a height: in every build, `get_block_headers` is called with the exact numbers, up to
the first that is no 64-bit integer, and no operation overflows, exactly when the distance of two numbers and the last
number are in range, and a vector has room for as many blocks as the request asks for. -/
theorem getBlockHeaders_exact (R : Rlp.Codec) (headerSize : Nat) (encodeHeader : Header → Bytes)
    (p : DataProvider Header) {data : Bytes} {selector : GetBlockHeaders} {anchor : UInt64}
    (hdecode : GetBlockHeaders.decode R data = .ok selector) (hanchor : p.anchor selector.block = some anchor) :
    (∀ checks calls, Prog.after (handleGetBlockHeaders checks R headerSize encodeHeader p data) calls =
      calls ++ [(selector.exactNumbers anchor).map BlockId.number]) ↔
        selector.InRange anchor ∧ BlockId.size * selector.maxHeaders.toNat < 2 ^ 63 := by
  constructor
  · intro h
    have h := h true []
    rw [Prog.after, run_handleGetBlockHeaders hdecode hanchor] at h
    cases hn : selector.numbers true anchor with
    | none =>
      rw [hn] at h
      cases h
    | some numbers =>
      have hlen := (GetBlockHeaders.numbers_eq_some hn).2.1
      cases hblocks : BlockId.ofNumbers numbers with
      | none =>
        rw [hn] at h
        simp only [hblocks] at h
        cases h
      | some blocks =>
        obtain ⟨⟨⟩, hroom, -⟩ := Option.bind_eq_some_iff.1 hblocks
        rw [Overflow.withCapacity_eq_some, hlen] at hroom
        exact ⟨GetBlockHeaders.inRange_of_numbers hn, hroom⟩
  · rintro ⟨hrange, hroom⟩ checks calls
    have hbytes : 8 * selector.maxHeaders.toNat < 2 ^ 63 :=
      (Nat.mul_le_mul_right _ (by decide)).trans_lt hroom
    have hn := GetBlockHeaders.numbers_of_inRange hrange hbytes checks
    have hblocks : BlockId.ofNumbers (selector.exactNumbers anchor) =
        some ((selector.exactNumbers anchor).map .number) := by
      have hcapacity : Overflow.withCapacity BlockId.size (selector.exactNumbers anchor).length = some () := by
        rwa [(GetBlockHeaders.numbers_eq_some hn).2.1, Overflow.withCapacity_eq_some]
      rw [BlockId.ofNumbers, hcapacity]
      rfl
    rw [Prog.after, run_handleGetBlockHeaders hdecode hanchor, hn]
    simp only [hblocks]
    cases Overflow.withCapacity headerSize (selector.exactNumbers anchor).length <;> rfl

/-! ## Requests at the genesis block -/

/-- A provider without blocks. -/
def emptyProvider : DataProvider Unit := ⟨fun _ => .ok none, fun _ => []⟩

/-- Two headers, from the genesis block up. -/
def aboveGenesis : GetBlockHeaders := ⟨.number 0, 2, 0, false⟩

def aboveGenesisBytes : Bytes := [0xc4, 0x80, 0x02, 0x80, 0x80]

theorem aboveGenesis_exact : Prog.after
    (handleGetBlockHeaders true Rlp.standard 640 (fun _ => []) emptyProvider aboveGenesisBytes) [] =
      [[.number 0, .number 1]] := by
  have hdecode : GetBlockHeaders.decode Rlp.standard aboveGenesisBytes = .ok aboveGenesis := by decide +kernel
  have hrange : aboveGenesis.InRange 0 := .inr ⟨by decide, by decide⟩
  exact (getBlockHeaders_exact Rlp.standard 640 (fun _ => []) emptyProvider hdecode rfl).2 ⟨hrange, by decide⟩ true []

/-- Two headers, from the genesis block down. -/
def belowGenesis : GetBlockHeaders := ⟨.number 0, 2, 0, true⟩

def belowGenesisBytes : Bytes := [0xc4, 0x80, 0x02, 0x80, 0x01]

/-- More headers than a vector has room for, from the genesis block up. -/
def manyHeaders : GetBlockHeaders := ⟨.number 0, 0x1000000000000000, 0, false⟩

def manyHeadersBytes : Bytes := [0xcc, 0x80, 0x88, 0x10, 0x00, 0x00, 0x00, 0x00, 0x00, 0x00, 0x00, 0x80, 0x80]

/-- **A request that overflows.** There is one block from the genesis block down. A checked build panics, and one that
does not check asks for the greatest number as well. Every build panics when it is asked for too many headers. -/
theorem belowGenesis_overflows : GetBlockHeaders.decode Rlp.standard belowGenesisBytes = .ok belowGenesis ∧
    belowGenesis.exactNumbers 0 = [0] ∧
    (handleGetBlockHeaders true Rlp.standard 640 (fun _ => []) emptyProvider belowGenesisBytes).run [] =
      .error .panic [] ∧
    Prog.after (handleGetBlockHeaders false Rlp.standard 640 (fun _ => []) emptyProvider belowGenesisBytes) [] =
      [[.number 0, .number 0xffffffffffffffff]] ∧
    GetBlockHeaders.decode Rlp.standard manyHeadersBytes = .ok manyHeaders ∧
    ∀ checks, (handleGetBlockHeaders checks Rlp.standard 640 (fun _ => []) emptyProvider manyHeadersBytes).run [] =
      .error .panic [] := by
  have hdecode : GetBlockHeaders.decode Rlp.standard belowGenesisBytes = .ok belowGenesis := by decide +kernel
  have hanchor : emptyProvider.anchor (.number 0) = some 0 := rfl
  have hpanic : belowGenesis.numbers true 0 = none := by decide +kernel
  have hwrap : belowGenesis.numbers false 0 = some [0, 0xffffffffffffffff] := by decide +kernel
  have hmany : GetBlockHeaders.decode Rlp.standard manyHeadersBytes = .ok manyHeaders := by decide +kernel
  have hroom : ∀ checks, manyHeaders.numbers checks 0 = none := fun checks => by
    have hcapacity : Overflow.withCapacity 8 manyHeaders.maxHeaders.toNat = none :=
      Overflow.withCapacity_eq_none.2 (by decide)
    rw [GetBlockHeaders.numbers, hcapacity]
    rfl
  refine ⟨hdecode, by decide +kernel, ?_, ?_, hmany, fun checks => ?_⟩
  · rw [run_handleGetBlockHeaders hdecode hanchor, hpanic]
  · rw [Prog.after, run_handleGetBlockHeaders hdecode hanchor, hwrap]
    rfl
  · rw [run_handleGetBlockHeaders hmany hanchor, hroom]

end EthereumSentry
