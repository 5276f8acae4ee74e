import EthereumSentry.Lib.Ask
import EthereumSentry.Sentry.BlockHeaders

/-!
# The data provider

`src/src/services/provider/tarpc.rs`, the part of `handle_event` in `src/src/main.rs` that awaits the data provider or
the control, and the ids of `src/src/grpc.rs` that messages have towards the control. The calls of a request for headers
or for bodies are under way at once (`FuturesOrdered`), and their results are taken in the order of the request
(`Query`).

`Query.Sound` says what a query has come to with the answers that the client was told. With a chain behind the client a
query comes to what the chain has (`Returns.headers`, `Returns.bodies`).
-/

set_option autoImplicit false

namespace EthereumSentry

/-! ## The calls of the client -/

/-- The types of `ethereum`, with their encodings. The number of a header is a `U256`. -/
structure ChainCrates where
  Header : Type
  Transaction : Type
  number : Header → Nat
  /-- The bytes that a header has in a vector. -/
  headerSize : Nat
  encodeHeader : Header → Bytes
  encodeTransaction : Transaction → Bytes

variable {c : ChainCrates}

/-- `BlockBody`. -/
structure BlockBody (c : ChainCrates) where
  transactions : List c.Transaction
  ommers : List c.Header

def BlockBody.encode (R : Rlp.Codec) (b : BlockBody c) : Bytes :=
  R.encodeList [R.encodeList (b.transactions.map c.encodeTransaction), R.encodeList (b.ommers.map c.encodeHeader)]

/-- The calls of `EthApiClient`. -/
inductive EthApi where
  | canonicalHash (number : UInt64)
  | header (hash : H256)
  | body (hash : H256)
  deriving DecidableEq

namespace EthApi

def Value (c : ChainCrates) : EthApi → Type
  | canonicalHash _ => Option H256
  | header _ => Option c.Header
  | body _ => Option (BlockBody c)

/-- What a call returns: a value, or the error of the call or of the API. -/
abbrev Answer (c : ChainCrates) (q : EthApi) : Type := Except String (q.Value c)

end EthApi

/-- A future that makes calls, and fails with the first that does. -/
abbrev Fetch (c : ChainCrates) (α : Type) : Type := ExceptT String (Ask (EthApi.Answer c)) α

namespace EthApiClient

def canonicalHash (number : UInt64) : Fetch c (Option H256) := ExceptT.mk (Ask.question (EthApi.canonicalHash number))

def header (hash : H256) : Fetch c (Option c.Header) := ExceptT.mk (Ask.question (EthApi.header hash))

def body (hash : H256) : Fetch c (Option (BlockBody c)) := ExceptT.mk (Ask.question (EthApi.body hash))

end EthApiClient

/-- `Context::context` of an option. -/
def context {α : Type} (text : String) : Option α → Fetch c α
  | some a => pure a
  | none => throw text

/-- `U256::as_u64`; `none` when it panics. -/
def asU64 (n : Nat) : Option UInt64 := if n < 2 ^ 64 then some (UInt64.ofNat n) else none

namespace TarpcDataProvider

/-- `resolve_block_height`; `none` when it panics. -/
def resolveBlockHeight (hash : H256) : Ask (EthApi.Answer c) (Option (Except String (Option UInt64))) := do
  match ← (EthApiClient.header (c := c) hash).run with
  | .error e => return some (.error e)
  | .ok none => return some (.ok none)
  | .ok (some header) => return (asU64 (c.number header)).map fun height => .ok (some height)

/-- A future of `get_block_headers`. -/
def getBlockHeader (id : BlockId) : Fetch c c.Header := do
  let hash ← match id with
    | .hash hash => pure (some hash)
    | .number number => EthApiClient.canonicalHash number
  match hash with
  | some hash => context "not found" (← EthApiClient.header hash)
  | none => throw "not found"

/-- A future of `get_block_bodies`. -/
def getBlockBody (hash : H256) : Fetch c (BlockBody c) := do
  context "not found" (← EthApiClient.body hash)

end TarpcDataProvider

open TarpcDataProvider

/-! ## Queries -/

/-- `InboundMessageId`. -/
inductive InboundMessageId where
  | newBlockHashes
  | blockHeaders
  | blockBodies
  | newBlock
  | nodeData
  deriving DecidableEq, Repr

def InboundMessageId.tryFrom : MessageId → Option InboundMessageId
  | .newBlockHashes => some newBlockHashes
  | .blockHeaders => some blockHeaders
  | .blockBodies => some blockBodies
  | .newBlock => some newBlock
  | .nodeData => some nodeData
  | _ => none

/-- `InboundMessage`. -/
structure InboundMessage where
  id : InboundMessageId
  data : Bytes
  peerId : Bytes

/-- What `handle_event` awaits after it has looked up that the peer is valid. -/
inductive Query (c : ChainCrates) where
  /-- The height of the block of a request for headers. -/
  | resolving (selector : GetBlockHeaders) (task : Ask (EthApi.Answer c) (Option (Except String (Option UInt64))))
  | headers (blockHeaders : List (Ask (EthApi.Answer c) (Except String c.Header))) (output : List c.Header)
  | bodies (blockBodies : List (Ask (EthApi.Answer c) (Except String (BlockBody c)))) (output : List (BlockBody c))
  /-- The control. -/
  | forwarding
  | returned (result : Except DisconnectReason (Option Message))
  | panicked

/-- `Rlp::as_list` for hashes. -/
def decodeHashes (R : Rlp.Codec) (data : Bytes) : Except Rlp.DecoderError (List H256) := (R.items data).mapM (R.hash 32)

def replyHeaders (R : Rlp.Codec) (output : List c.Header) : Message :=
  ⟨MessageId.blockHeaders.toUsize, R.encodeList (output.map c.encodeHeader)⟩

def replyBodies (R : Rlp.Codec) (output : List (BlockBody c)) : Message :=
  ⟨MessageId.blockBodies.toUsize, R.encodeList (output.map (·.encode R))⟩

namespace Query

/-- The futures of `get_block_headers` for some numbers. -/
def select (numbers : List UInt64) : List (Ask (EthApi.Answer c) (Except String c.Header)) :=
  (numbers.map BlockId.number).map fun id => (getBlockHeader id).run

/-- `get_block_headers` is called with the numbers from an anchor, and there is room for what it returns. -/
def selected (checks : Bool) (selector : GetBlockHeaders) (anchor : UInt64) : Query c :=
  match selector.blocks checks c.headerSize anchor with
  | some blocks => .headers (blocks.map fun id => (getBlockHeader id).run) []
  | none => .panicked

/-- `handle_event` for a message of a valid peer that it awaits something for, up to the first await. -/
def start (checks : Bool) (R : Rlp.Codec) (id : MessageId) (data : Bytes) : Query c :=
  match id with
  | .getBlockHeaders => match GetBlockHeaders.decode R data with
    | .error _ => .returned (.error .protocolBreach)
    | .ok selector => match selector.block with
      | .number num => selected checks selector num
      | .hash hash => .resolving selector (resolveBlockHeight hash)
  | .getBlockBodies => match decodeHashes R data with
    | .error _ => .returned (.error .protocolBreach)
    | .ok blocks => .bodies (blocks.map fun hash => (getBlockBody hash).run) []
  | id => match InboundMessageId.tryFrom id with
    | some _ => .forwarding
    | none => .panicked

/-- What the control is called with. -/
def announcement (peer : PeerId) (id : MessageId) (data : Bytes) : Option InboundMessage :=
  match id with
  | .getBlockHeaders | .getBlockBodies => none
  | id => (InboundMessageId.tryFrom id).map fun inboundId => ⟨inboundId, data, peer.bytes⟩

/-- The client returns the answer to a call, of one of the futures if there are several. -/
def tell : Query c → Nat → (Σ q, EthApi.Answer c q) → Option (Query c)
  | .resolving selector task, _, x => (task.tell x).map (.resolving selector)
  | .headers blockHeaders output, i, x => (Ask.tellAt blockHeaders i x).map (.headers · output)
  | .bodies blockBodies output, i, x => (Ask.tellAt blockBodies i x).map (.bodies · output)
  | _, _, _ => none

/-- The query goes on when what it awaits is there. -/
def poll (checks : Bool) (R : Rlp.Codec) : Query c → Option (Query c)
  | .resolving selector (.done height) => some (match height with
    | some (.ok (some anchor)) => selected checks selector anchor
    | some _ => .headers [] []
    | none => .panicked)
  | .headers [] output => some (.returned (.ok (some (replyHeaders R output))))
  | .headers (.done (.ok header) :: blockHeaders) output => some (.headers blockHeaders (output ++ [header]))
  | .headers (.done (.error _) :: _) output => some (.returned (.ok (some (replyHeaders R output))))
  | .bodies [] output => some (.returned (.ok (some (replyBodies R output))))
  | .bodies (.done (.ok body) :: blockBodies) output => some (.bodies blockBodies (output ++ [body]))
  | .bodies (.done (.error _) :: blockBodies) output => some (.bodies blockBodies output)
  | .forwarding => some (.returned (.ok none))
  | _ => none

/-- What happens to a query. -/
inductive Event (c : ChainCrates) where
  | tell (i : Nat) (x : Σ q, EthApi.Answer c q)
  | poll

def step (checks : Bool) (R : Rlp.Codec) (q : Query c) : Event c → Option (Query c)
  | .tell i x => q.tell i x
  | .poll => q.poll checks R

/-- The answer that the client is told. -/
def Event.told : Event c → List (Σ q, EthApi.Answer c q)
  | .tell _ x => [x]
  | .poll => []

end Query

/-! ## What a query comes to -/

/-- The answers that the client was told. -/
abbrev Told (c : ChainCrates) : Type := List (Σ q, EthApi.Answer c q)

/-- A header was told for a hash. -/
def HasHeader (told : Told c) (hash : H256) (header : c.Header) : Prop := ⟨.header hash, .ok (some header)⟩ ∈ told

/-- The anchor of a request, from the number of its block or from the header that was told for its hash. -/
def Anchored (told : Told c) : BlockId → UInt64 → Prop
  | .number num, anchor => anchor = num
  | .hash hash, anchor => ∃ header, HasHeader told hash header ∧ c.number header = anchor.toNat

/-- No header was found for the block of a request. -/
def Unknown (told : Told c) : BlockId → Prop
  | .number _ => False
  | .hash hash => (⟨.header hash, .ok none⟩ : Σ q, EthApi.Answer c q) ∈ told ∨ ∃ e, ⟨.header hash, .error e⟩ ∈ told

/-- The numbers that the headers are asked for by. -/
def Selects (checks : Bool) (told : Told c) (selector : GetBlockHeaders) (numbers : List UInt64) : Prop :=
  (∃ anchor, Anchored told selector.block anchor ∧ selector.numbers checks anchor = some numbers) ∨
    numbers = [] ∧ Unknown told selector.block

/-- What a query may return with the answers that were told: the headers before the first future that has failed, or the
bodies of the futures that have not. -/
def Returns (checks : Bool) (R : Rlp.Codec) (told : Told c) (id : MessageId) (data : Bytes)
    (result : Except DisconnectReason (Option Message)) : Prop :=
  match id with
  | .getBlockHeaders => match GetBlockHeaders.decode R data with
    | .error _ => result = .error .protocolBreach
    | .ok selector => ∃ numbers taken rest, Selects checks told selector numbers ∧
      Ask.Led told (Query.select numbers) taken rest ∧ (rest = [] ∨ ∃ e, .error e ∈ taken) ∧
      result = .ok (some (replyHeaders R (headersUntilError taken)))
  | .getBlockBodies => match decodeHashes R data with
    | .error _ => result = .error .protocolBreach
    | .ok blocks => ∃ taken, Ask.Led told (blocks.map fun hash => (getBlockBody hash).run) taken [] ∧
      result = .ok (some (replyBodies R (taken.filterMap Except.toOption)))
  | _ => result = .ok none

/-- What a request for headers panics over: a header whose number is no 64-bit integer, numbers that are out of range in
a build that checks, or more headers than a vector has room for. -/
def Panics (checks : Bool) (R : Rlp.Codec) (told : Told c) (id : MessageId) (data : Bytes) : Prop :=
  id = .getBlockHeaders ∧ ∃ selector, GetBlockHeaders.decode R data = .ok selector ∧
    ((∃ hash header, selector.block = .hash hash ∧ HasHeader told hash header ∧ 2 ^ 64 ≤ c.number header) ∨
      ∃ anchor, Anchored told selector.block anchor ∧ ((checks = true ∧ ¬selector.InRange anchor) ∨
        2 ^ 63 ≤ max BlockId.size c.headerSize * selector.maxHeaders.toNat))

namespace Query

/-- What a query has come to with the answers that were told. -/
def Sound (checks : Bool) (R : Rlp.Codec) (told : Told c) (id : MessageId) (data : Bytes) : Query c → Prop
  | .resolving selector task => id = .getBlockHeaders ∧ GetBlockHeaders.decode R data = .ok selector ∧
    ∃ hash, selector.block = .hash hash ∧ Ask.Leads told (resolveBlockHeight hash) task
  | .headers blockHeaders output => id = .getBlockHeaders ∧ ∃ selector numbers,
    GetBlockHeaders.decode R data = .ok selector ∧ Selects checks told selector numbers ∧
    Ask.Led told (select numbers) (output.map .ok) blockHeaders
  | .bodies blockBodies output => id = .getBlockBodies ∧ ∃ blocks taken, decodeHashes R data = .ok blocks ∧
    Ask.Led told (blocks.map fun hash => (getBlockBody hash).run) taken blockBodies ∧
    output = taken.filterMap Except.toOption
  | .forwarding => id ≠ .getBlockHeaders ∧ id ≠ .getBlockBodies
  | .returned result => Returns checks R told id data result
  | .panicked => Panics checks R told id data

/-- The ids of the messages of a valid peer that something is awaited for. -/
def IsQuery (id : MessageId) : Prop :=
  id = .getBlockHeaders ∨ id = .getBlockBodies ∨ id = .blockHeaders ∨ id = .blockBodies ∨ id = .newBlock ∨
    id = .newBlockHashes

variable {checks : Bool} {R : Rlp.Codec} {told told' : Told c} {id : MessageId} {data : Bytes} {q q' : Query c}

theorem anchored_mono (hsub : told ⊆ told') : ∀ {block : BlockId} {anchor : UInt64}, Anchored told block anchor →
    Anchored told' block anchor
  | .number _, _, h => h
  | .hash _, _, ⟨header, hh, hn⟩ => ⟨header, hsub hh, hn⟩

theorem unknown_mono (hsub : told ⊆ told') : ∀ {block : BlockId}, Unknown told block → Unknown told' block
  | .number _, h => h
  | .hash _, h => h.imp (fun h => hsub h) fun ⟨e, h⟩ => ⟨e, hsub h⟩

theorem selects_mono (hsub : told ⊆ told') {selector : GetBlockHeaders} {numbers : List UInt64}
    (h : Selects checks told selector numbers) : Selects checks told' selector numbers :=
  h.imp (fun ⟨anchor, ha, hn⟩ => ⟨anchor, anchored_mono hsub ha, hn⟩) fun ⟨hn, hu⟩ => ⟨hn, unknown_mono hsub hu⟩

theorem returns_mono (hsub : told ⊆ told') {result : Except DisconnectReason (Option Message)}
    (h : Returns checks R told id data result) : Returns checks R told' id data result := by
  unfold Returns at h ⊢
  split
  · split
    · rename_i hd
      rw [hd] at h
      exact h
    · rename_i hd
      rw [hd] at h
      obtain ⟨numbers, taken, rest, hs, hled, hrest, hr⟩ := h
      exact ⟨numbers, taken, rest, selects_mono hsub hs, hled.mono hsub, hrest, hr⟩
  · split
    · rename_i hd
      rw [hd] at h
      exact h
    · rename_i hd
      rw [hd] at h
      obtain ⟨taken, hled, hr⟩ := h
      exact ⟨taken, hled.mono hsub, hr⟩
  · simpa using h

/-- More answers take nothing back. -/
theorem Sound.mono (hsub : told ⊆ told') (h : q.Sound checks R told id data) : q.Sound checks R told' id data := by
  cases q with
  | resolving selector task =>
    obtain ⟨hid, hd, hash, hb, hl⟩ := h
    exact ⟨hid, hd, hash, hb, hl.mono hsub⟩
  | headers blockHeaders output =>
    obtain ⟨hid, selector, numbers, hd, hs, hled⟩ := h
    exact ⟨hid, selector, numbers, hd, selects_mono hsub hs, hled.mono hsub⟩
  | bodies blockBodies output =>
    obtain ⟨hid, blocks, taken, hd, hled, ho⟩ := h
    exact ⟨hid, blocks, taken, hd, hled.mono hsub, ho⟩
  | forwarding => exact h
  | returned result => exact returns_mono hsub h
  | panicked =>
    obtain ⟨hid, selector, hd, h⟩ := h
    refine ⟨hid, selector, hd, h.imp ?_ ?_⟩
    · exact fun ⟨hash, header, hb, hh, hn⟩ => ⟨hash, header, hb, hsub hh, hn⟩
    · exact fun ⟨anchor, ha, hn⟩ => ⟨anchor, anchored_mono hsub ha, hn⟩

/-- The futures for the numbers from an anchor. -/
theorem selected_sound {selector : GetBlockHeaders} {anchor : UInt64} (hid : id = .getBlockHeaders)
    (hd : GetBlockHeaders.decode R data = .ok selector) (ha : Anchored told selector.block anchor) :
    (selected (c := c) checks selector anchor).Sound checks R told id data := by
  unfold selected
  split
  · rename_i blocks hblocks
    obtain ⟨numbers, hn, rfl⟩ := GetBlockHeaders.blocks_eq_some hblocks
    exact ⟨hid, selector, numbers, hd, .inl ⟨anchor, ha, hn⟩, Ask.Led.start told _⟩
  · rename_i hnone
    exact ⟨hid, selector, hd, .inr ⟨anchor, ha, GetBlockHeaders.blocks_eq_none hnone⟩⟩

theorem start_sound (hid : IsQuery id) : (start (c := c) checks R id data).Sound checks R told id data := by
  unfold start
  split
  · split
    · rename_i hd
      simp only [Sound, Returns, hd]
    · rename_i hd
      split
      · rename_i num hb
        exact selected_sound rfl hd (by rw [hb]; rfl)
      · rename_i hash hb
        exact ⟨rfl, hd, hash, hb, .refl _⟩
  · split
    · rename_i hd
      simp only [Sound, Returns, hd]
    · rename_i blocks hd
      exact ⟨rfl, blocks, [], hd, Ask.Led.start told _, rfl⟩
  · rename_i hheaders hbodies
    obtain rfl | rfl | rfl | rfl | rfl | rfl := hid
    · exact absurd rfl hheaders
    · exact absurd rfl hbodies
    all_goals exact ⟨by simp, by simp⟩

/-- One more answer. -/
theorem Sound.tell {i : Nat} {x : Σ q, EthApi.Answer c q} (h : q.Sound checks R told id data)
    (hq : q.tell i x = some q') : q'.Sound checks R (told ++ [x]) id data := by
  have hx : x ∈ told ++ [x] := List.mem_append_right _ (List.mem_singleton_self x)
  have h := h.mono (List.subset_append_left told [x])
  cases q with
  | resolving selector task =>
    obtain ⟨task', ht, rfl⟩ := Option.map_eq_some_iff.1 hq
    obtain ⟨hid, hd, hash, hb, hl⟩ := h
    exact ⟨hid, hd, hash, hb, hl.tell ht hx⟩
  | headers blockHeaders output =>
    obtain ⟨ts, ht, rfl⟩ := Option.map_eq_some_iff.1 hq
    obtain ⟨hid, selector, numbers, hd, hs, hled⟩ := h
    exact ⟨hid, selector, numbers, hd, hs, hled.tellAt ht hx⟩
  | bodies blockBodies output =>
    obtain ⟨ts, ht, rfl⟩ := Option.map_eq_some_iff.1 hq
    obtain ⟨hid, blocks, taken, hd, hled, ho⟩ := h
    exact ⟨hid, blocks, taken, hd, hled.tellAt ht hx, ho⟩
  | forwarding | returned | panicked => cases hq

/-- What `resolve_block_height` comes to. -/
theorem resolved {hash : H256} {height : Option (Except String (Option UInt64))}
    (h : Ask.Leads told (resolveBlockHeight hash) (.done height)) :
    (∃ header, HasHeader told hash header ∧ height = (asU64 (c.number header)).map fun height => .ok (some height)) ∨
      Unknown told (.hash hash) ∧ ∃ r, height = some r ∧ ∀ anchor, r ≠ .ok (some anchor) := by
  obtain ⟨answer, ha, h⟩ := Ask.leads_bind.1 h
  have ha : ⟨.header hash, answer⟩ ∈ told := Ask.leads_question.1 ha
  match answer with
  | .error e => exact .inr ⟨.inr ⟨e, ha⟩, _, Ask.leads_pure.1 h, by simp⟩
  | .ok none => exact .inr ⟨.inl ha, _, Ask.leads_pure.1 h, by simp⟩
  | .ok (some header) => exact .inl ⟨header, ha, Ask.leads_pure.1 h⟩

/-- The headers before an error, or all of them. -/
theorem headersUntilError_ok {Header : Type} (output : List Header) :
    headersUntilError (output.map .ok) = output ∧
      ∀ (e : String) rest, headersUntilError (output.map .ok ++ .error e :: rest) = output := by
  induction output with
  | nil => exact ⟨rfl, fun e rest => rfl⟩
  | cons header output ih =>
    refine ⟨?_, fun e rest => ?_⟩
    · rw [List.map_cons, headersUntilError, ih.1]
    · rw [List.map_cons, List.cons_append, headersUntilError, ih.2]

/-- The query goes on. -/
theorem Sound.poll (h : q.Sound checks R told id data) (hp : q.poll checks R = some q') :
    q'.Sound checks R told id data := by
  unfold Query.poll at hp
  split at hp
  · rename_i selector height
    obtain ⟨rfl, hd, hash, hb, hl⟩ := h
    cases hp
    rcases resolved hl with ⟨header, hh, rfl⟩ | ⟨hu, r, rfl, hr⟩
    · unfold asU64
      by_cases hlt : c.number header < 2 ^ 64
      · rw [if_pos hlt]
        refine selected_sound rfl hd ?_
        rw [hb]
        exact ⟨header, hh, (UInt64.toNat_ofNat_of_lt' hlt).symm⟩
      · rw [if_neg hlt]
        exact ⟨rfl, selector, hd, .inl ⟨hash, header, hb, hh, by omega⟩⟩
    · split
      · rename_i anchor heq
        exact absurd (Option.some.inj heq) (hr anchor)
      · exact ⟨rfl, selector, [], hd, .inr ⟨rfl, hb ▸ hu⟩, Ask.Led.start told _⟩
      · rename_i heq
        cases heq
  · obtain ⟨rfl, selector, numbers, hd, hs, hled⟩ := h
    cases hp
    simp only [Sound, Returns, hd]
    exact ⟨numbers, _, [], hs, hled, .inl rfl, by rw [(headersUntilError_ok _).1]⟩
  · obtain ⟨rfl, selector, numbers, hd, hs, hled⟩ := h
    cases hp
    refine ⟨rfl, selector, numbers, hd, hs, ?_⟩
    rw [List.map_append]
    exact hled.take
  · rename_i e blockHeaders output
    obtain ⟨rfl, selector, numbers, hd, hs, hled⟩ := h
    cases hp
    simp only [Sound, Returns, hd]
    exact ⟨numbers, _, _, hs, hled.take, .inr ⟨e, by simp⟩, by rw [(headersUntilError_ok output).2]⟩
  · obtain ⟨rfl, blocks, taken, hd, hled, rfl⟩ := h
    cases hp
    simp only [Sound, Returns, hd]
    exact ⟨taken, hled, rfl⟩
  · obtain ⟨rfl, blocks, taken, hd, hled, rfl⟩ := h
    cases hp
    exact ⟨rfl, blocks, _, hd, hled.take, by simp [Except.toOption]⟩
  · obtain ⟨rfl, blocks, taken, hd, hled, rfl⟩ := h
    cases hp
    exact ⟨rfl, blocks, _, hd, hled.take, by simp [Except.toOption]⟩
  · cases hp
    obtain ⟨hheaders, hbodies⟩ := h
    change Returns checks R told id data (.ok none)
    unfold Returns
    split
    · exact absurd rfl hheaders
    · exact absurd rfl hbodies
    · rfl
  · cases hp

/-- **What a query has come to is sound**, whatever happens to it. -/
theorem Sound.step {e : Event c} (h : q.Sound checks R told id data) (hs : q.step checks R e = some q') :
    q'.Sound checks R (told ++ e.told) id data := by
  cases e with
  | tell i x => exact h.tell hs
  | poll =>
    rw [Event.told, List.append_nil]
    exact h.poll hs

/-! ## Queries that end -/

/-- The query has returned, or has panicked. -/
def Ended (q : Query c) : Prop := q = .panicked ∨ ∃ result, q = .returned result

/-- The query goes on as another one when an oracle answers its calls. -/
def Proceeds (checks : Bool) (R : Rlp.Codec) (oracle : ∀ q, EthApi.Answer c q) (q q' : Query c) : Prop :=
  ∃ es, (∀ e ∈ es, Ask.Truthful oracle e.told) ∧ Runs.run (step checks R) q es = some q'

variable {oracle : ∀ q, EthApi.Answer c q} {q'' : Query c}

theorem Proceeds.trans (h : Proceeds checks R oracle q q') (h' : Proceeds checks R oracle q' q'') :
    Proceeds checks R oracle q q'' := by
  obtain ⟨es, hes, hrun⟩ := h
  obtain ⟨es', hes', hrun'⟩ := h'
  refine ⟨es ++ es', fun e he => (List.mem_append.1 he).elim (hes e) (hes' e), ?_⟩
  rw [Runs.run_append, hrun]
  exact hrun'

theorem Proceeds.poll (h : q.poll checks R = some q') : Proceeds checks R oracle q q' :=
  ⟨[.poll], by simp [Event.told, Ask.Truthful], by rw [Runs.run_cons, step, h]; rfl⟩

/-- The first of its calls is answered to the end. -/
theorem Proceeds.answer {α : Type} (part : Ask (EthApi.Answer c) α → Query c)
    (htell : ∀ t x t', t.tell x = some t' → (part t).tell 0 x = some (part t')) (t : Ask (EthApi.Answer c) α) :
    Proceeds checks R oracle (part t) (part (.done (t.eval oracle))) := by
  have hstep : ∀ t x t', t.tell x = some t' → step checks R (part t) (.tell 0 x) = some (part t') := htell
  obtain ⟨xs, hxs, hrun⟩ := Ask.exists_run oracle part (Event.tell 0) hstep t
  refine ⟨_, fun e he => ?_, hrun⟩
  obtain ⟨x, hx, rfl⟩ := List.mem_map.1 he
  simpa [Event.told, Ask.Truthful] using hxs x hx

theorem headers_proceeds (blockHeaders : List (Ask (EthApi.Answer c) (Except String c.Header))) :
    ∀ output : List c.Header, ∃ q', q'.Ended ∧ Proceeds checks R oracle (.headers blockHeaders output) q' := by
  induction blockHeaders with
  | nil => exact fun output => ⟨_, .inr ⟨_, rfl⟩, .poll rfl⟩
  | cons t blockHeaders ih =>
    intro output
    have hfirst : Proceeds checks R oracle (.headers (t :: blockHeaders) output) _ := .answer
      (fun t => .headers (t :: blockHeaders) output) (fun t x t' ht => by simp [Query.tell, Ask.tellAt, ht]) t
    cases hr : t.eval oracle with
    | error e =>
      rw [hr] at hfirst
      exact ⟨_, .inr ⟨_, rfl⟩, hfirst.trans (.poll rfl)⟩
    | ok header =>
      rw [hr] at hfirst
      obtain ⟨q', hended, hrest⟩ := ih (output ++ [header])
      exact ⟨q', hended, (hfirst.trans (.poll rfl)).trans hrest⟩

theorem bodies_proceeds (blockBodies : List (Ask (EthApi.Answer c) (Except String (BlockBody c)))) :
    ∀ output : List (BlockBody c), ∃ q', q'.Ended ∧ Proceeds checks R oracle (.bodies blockBodies output) q' := by
  induction blockBodies with
  | nil => exact fun output => ⟨_, .inr ⟨_, rfl⟩, .poll rfl⟩
  | cons t blockBodies ih =>
    intro output
    have hfirst : Proceeds checks R oracle (.bodies (t :: blockBodies) output) _ := .answer
      (fun t => .bodies (t :: blockBodies) output) (fun t x t' ht => by simp [Query.tell, Ask.tellAt, ht]) t
    cases hr : t.eval oracle with
    | error e =>
      rw [hr] at hfirst
      obtain ⟨q', hended, hrest⟩ := ih output
      exact ⟨q', hended, (hfirst.trans (.poll rfl)).trans hrest⟩
    | ok body =>
      rw [hr] at hfirst
      obtain ⟨q', hended, hrest⟩ := ih (output ++ [body])
      exact ⟨q', hended, (hfirst.trans (.poll rfl)).trans hrest⟩

/-- **Every query can come to its end**, with any oracle. -/
theorem exists_proceeds (checks : Bool) (R : Rlp.Codec) (oracle : ∀ q, EthApi.Answer c q) (q : Query c) :
    ∃ q', q'.Ended ∧ Proceeds checks R oracle q q' := by
  cases q with
  | resolving selector task =>
    have hfirst : Proceeds checks R oracle (.resolving selector task) _ := .answer (.resolving selector)
      (fun t x t' ht => by simp [Query.tell, ht]) task
    have hpoll : ∃ q', (Query.resolving selector (.done (task.eval oracle)) : Query c).poll checks R = some q' ∧
        (q' = .panicked ∨ ∃ blockHeaders output, q' = .headers blockHeaders output) := by
      refine ⟨_, rfl, ?_⟩
      split
      · unfold selected
        split
        · exact .inr ⟨_, _, rfl⟩
        · exact .inl rfl
      · exact .inr ⟨_, _, rfl⟩
      · exact .inl rfl
    obtain ⟨q', hq', rfl | ⟨blockHeaders, output, rfl⟩⟩ := hpoll
    · exact ⟨_, .inl rfl, hfirst.trans (.poll hq')⟩
    · obtain ⟨q'', hended, hrest⟩ : ∃ q'', q''.Ended ∧ Proceeds checks R oracle (.headers blockHeaders output) q'' :=
        headers_proceeds blockHeaders output
      exact ⟨q'', hended, (hfirst.trans (.poll hq')).trans hrest⟩
  | headers blockHeaders output => exact headers_proceeds blockHeaders output
  | bodies blockBodies output => exact bodies_proceeds blockBodies output
  | forwarding => exact ⟨_, .inr ⟨_, rfl⟩, .poll rfl⟩
  | returned result => exact ⟨_, .inr ⟨result, rfl⟩, [], by simp, rfl⟩
  | panicked => exact ⟨_, .inl rfl, [], by simp, rfl⟩

end Query

/-! ## A chain behind the client -/

/-- What the client is asked about. -/
structure Chain (c : ChainCrates) where
  canonicalHash : UInt64 → Option H256
  header : H256 → Option c.Header
  body : H256 → Option (BlockBody c)

namespace Chain

def answer (ch : Chain c) : (q : EthApi) → EthApi.Answer c q
  | .canonicalHash number => .ok (ch.canonicalHash number)
  | .header hash => .ok (ch.header hash)
  | .body hash => .ok (ch.body hash)

/-- The header of the canonical block with a number. -/
def headerAt (ch : Chain c) (number : UInt64) : Option c.Header := (ch.canonicalHash number).bind ch.header

/-- The headers for some numbers, up to the first that the chain does not have. -/
def segment (ch : Chain c) : List UInt64 → List c.Header
  | [] => []
  | number :: numbers => match ch.headerAt number with
    | some header => header :: ch.segment numbers
    | none => []

/-- The number that a request starts at. -/
def anchor (ch : Chain c) : BlockId → Option UInt64
  | .number num => some num
  | .hash hash => (ch.header hash).bind fun header => asU64 (c.number header)

variable {checks : Bool} {R : Rlp.Codec} {told : Told c} {data : Bytes}
  {result : Except DisconnectReason (Option Message)} {ch : Chain c}

theorem eval_run_bind {α β : Type} (t : Fetch c α) (f : α → Fetch c β) : (t >>= f).run.eval ch.answer =
    match t.run.eval ch.answer with
    | .ok a => (f a).run.eval ch.answer
    | .error e => .error e := by
  rw [ExceptT.run_bind, Ask.eval_bind]
  cases t.run.eval ch.answer <;> rfl

theorem eval_getBlockHeader (number : UInt64) : (getBlockHeader (.number number)).run.eval ch.answer =
    match ch.headerAt number with
    | some header => .ok header
    | none => .error "not found" := by
  have hcanonical : (EthApiClient.canonicalHash (c := c) number).run.eval ch.answer = .ok (ch.canonicalHash number) :=
    rfl
  have hheader : ∀ hash, (EthApiClient.header (c := c) hash).run.eval ch.answer = .ok (ch.header hash) := fun _ => rfl
  simp only [getBlockHeader, eval_run_bind, hcanonical, headerAt]
  cases ch.canonicalHash number with
  | none => rfl
  | some hash =>
    simp only [eval_run_bind, hheader, Option.bind_some]
    cases ch.header hash <;> rfl

theorem eval_getBlockBody (hash : H256) : (getBlockBody hash).run.eval ch.answer =
    match ch.body hash with
    | some body => .ok body
    | none => .error "not found" := by
  have hbody : (EthApiClient.body (c := c) hash).run.eval ch.answer = .ok (ch.body hash) := rfl
  simp only [getBlockBody, eval_run_bind, hbody]
  cases ch.body hash <;> rfl

/-- Nothing is looked at after an error. -/
theorem headersUntilError_append {Header : Type} {taken : List (Except String Header)} {e : String}
    (h : .error e ∈ taken) (rest : List (Except String Header)) :
    headersUntilError (taken ++ rest) = headersUntilError taken := by
  induction taken with
  | nil => cases h
  | cons r taken ih =>
    cases r with
    | error _ => rfl
    | ok header =>
      rw [List.cons_append, headersUntilError, headersUntilError, ih (by simpa using h)]

/-- The headers that the futures of `get_block_headers` come to. -/
theorem headersUntilError_select (numbers : List UInt64) :
    headersUntilError ((Query.select numbers).map (Ask.eval ch.answer)) = ch.segment numbers := by
  induction numbers with
  | nil => rfl
  | cons number numbers ih =>
    rw [Query.select, List.map_cons, List.map_cons, List.map_cons, eval_getBlockHeader, segment]
    cases ch.headerAt number with
    | none => rfl
    | some header =>
      rw [headersUntilError]
      exact congrArg _ ih

/-- **Headers of a chain**: a request for headers returns those that the chain has for the numbers of the request, up to
the first that it does not have, and none if it does not have the block of the request. -/
theorem returns_headers {selector : GetBlockHeaders} (ht : Ask.Truthful ch.answer told)
    (hd : GetBlockHeaders.decode R data = .ok selector) (h : Returns checks R told .getBlockHeaders data result) :
    ∃ numbers, result = .ok (some (replyHeaders R (ch.segment numbers))) ∧
      match ch.anchor selector.block with
      | some anchor => selector.numbers checks anchor = some numbers
      | none => numbers = [] := by
  simp only [Returns, hd] at h
  obtain ⟨numbers, taken, rest, hs, hled, hrest, rfl⟩ := h
  refine ⟨numbers, ?_, ?_⟩
  · rw [← headersUntilError_select, ← hled.eval ht]
    rcases hrest with rfl | ⟨e, he⟩
    · rw [List.map_nil, List.append_nil]
    · rw [headersUntilError_append he]
  · cases hb : selector.block with
    | number num =>
      simp only [Selects, hb, Anchored, Unknown] at hs
      obtain ⟨anchor, rfl, hn⟩ | ⟨-, hfalse⟩ := hs
      · exact hn
      · exact hfalse.elim
    | hash hash =>
      simp only [Selects, hb] at hs
      rcases hs with ⟨anchor, ⟨header, hh, hanchor⟩, hn⟩ | ⟨rfl, hu⟩
      · have hheader : ch.header hash = some header := (Except.ok.inj (ht _ hh)).symm
        have hlt := anchor.toNat_lt
        simp only [Chain.anchor, hheader, Option.bind_some, asU64, hanchor, if_pos hlt, UInt64.ofNat_toNat]
        exact hn
      · have hheader : ch.header hash = none := by
          rcases hu with hu | ⟨e, hu⟩
          · exact (Except.ok.inj (ht _ hu)).symm
          · cases ht _ hu
        simp only [Chain.anchor, hheader, Option.bind_none]

/-- **Bodies of a chain**: a request for bodies returns those that the chain has, in the order of the request. -/
theorem returns_bodies {blocks : List H256} (ht : Ask.Truthful ch.answer told) (hd : decodeHashes R data = .ok blocks)
    (h : Returns checks R told .getBlockBodies data result) :
    result = .ok (some (replyBodies R (blocks.filterMap ch.body))) := by
  simp only [Returns, hd] at h
  obtain ⟨taken, hled, rfl⟩ := h
  have htaken := hled.eval ht
  rw [List.map_nil, List.append_nil, List.map_map] at htaken
  rw [htaken, List.filterMap_map]
  congr 3
  refine List.filterMap_congr fun hash _ => ?_
  rw [Function.comp_apply, Function.comp_apply, eval_getBlockBody]
  cases ch.body hash <;> rfl

end Chain

end EthereumSentry
