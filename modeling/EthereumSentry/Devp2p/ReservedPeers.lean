import Mathlib.Data.List.AList
import EthereumSentry.Devp2p.Crates
import EthereumSentry.Dnsdisc.Record

/-!
# Reserved peers

The peers of the configuration, `src/devp2p/src/types.rs` and `src/devp2p/src/disc.rs`: their records are parsed from
`enode` texts (`NodeRecord.fromStr`), and a stream offers them to the dialer (`Bootnodes.pollNext`). The parser slices
the text at the eighth byte and ignores what follows a second `@` (`NodeRecord.fromStr_exact`). The stream yields the
first entry of its map at every poll, so that it offers all of them exactly when there is at most one
(`Bootnodes.offered_iff`).
-/

set_option autoImplicit false

namespace EthereumSentry

/-- `std::net::SocketAddr`. -/
inductive SocketAddr where
  | v4 (ip : FixedBytes 4) (port : UInt16)
  | v6 (ip : FixedBytes 16) (port : UInt16) (flowinfo scopeId : UInt32)
  deriving DecidableEq

/-- `NodeRecord`. -/
structure NodeRecord where
  id : PeerId
  addr : SocketAddr
  deriving DecidableEq

/-! ## The parser -/

/-- The parsers of the two parts, `PeerId::from_str` and `SocketAddr::from_str`, with the texts of their errors. -/
structure EnodeParsers where
  peerId : Text → Except Text PeerId
  socketAddr : Text → Except Text SocketAddr

/-- `str::split_at`, or nothing where it panics. -/
def splitAt : Text → Nat → Option (Text × Text)
  | s, 0 => some ([], s)
  | [], _ + 1 => none
  | c :: s, mid + 1 =>
    if c.utf8Size ≤ mid + 1 then (splitAt s (mid + 1 - c.utf8Size)).map fun parts => (c :: parts.1, parts.2) else none

/-- `Option::ok_or`. -/
def okOr {α : Type} (e : String) : Option α → Except Text α
  | some a => .ok a
  | none => .error e.toList

def enodePrefix : Text := "enode://".toList

/-- The part of `NodeRecord::from_str` after the prefix. -/
def NodeRecord.ofParts (p : EnodeParsers) (parts : List Text) : Except Text NodeRecord := do
  let id ← p.peerId (← okOr "Failed to read remote ID" parts[0]?)
  let addr ← p.socketAddr (← okOr "Failed to read address" parts[1]?)
  return ⟨id, addr⟩

/-- `NodeRecord::from_str`, or nothing where it panics. -/
def NodeRecord.fromStr (p : EnodeParsers) (s : Text) : Option (Except Text NodeRecord) := do
  let (pre, data) ← splitAt s enodePrefix.utf8.length
  if pre ≠ enodePrefix then
    return .error "Not an enode".toList
  return NodeRecord.ofParts p (Dnsdisc.split (· = '@') data)

/-- The parts of an `enode` text: an id and an address that parse, without an `@` in them. -/
structure EnodeParts (p : EnodeParsers) (id addr : Text) (r : NodeRecord) : Prop where
  id_free : '@' ∉ id
  addr_free : '@' ∉ addr
  id_parses : p.peerId id = .ok r.id
  addr_parses : p.socketAddr addr = .ok r.addr

/-- **The grammar**: the prefix, an id and an address, with a single `@` between them. -/
def Enode (p : EnodeParsers) (s : Text) (r : NodeRecord) : Prop :=
  ∃ id addr, s = enodePrefix ++ id ++ '@' :: addr ∧ EnodeParts p id addr r

/-- An `enode` text with a second `@` after it, and anything after that. -/
def EnodeWithTail (p : EnodeParsers) (s : Text) (r : NodeRecord) : Prop :=
  ∃ id addr tail, s = enodePrefix ++ id ++ '@' :: addr ++ '@' :: tail ∧ EnodeParts p id addr r

/-- A byte offset is between two characters, or at either end. -/
def IsCharBoundary (s : Text) (mid : Nat) : Prop := ∃ pre data : Text, s = pre ++ data ∧ pre.utf8.length = mid

/-! ### Slicing -/

theorem splitAt_append (pre data : Text) : splitAt (pre ++ data) pre.utf8.length = some (pre, data) := by
  induction pre with
  | nil => cases data <;> rfl
  | cons c pre ih =>
    have hpos := c.utf8Size_pos
    have hlen : (Text.utf8 (c :: pre)).length = c.utf8Size + (Text.utf8 pre).length := by
      rw [Text.utf8, List.flatMap_cons, List.length_append, String.length_utf8EncodeChar, Text.utf8]
    obtain ⟨mid, hmid⟩ : ∃ mid, c.utf8Size + (Text.utf8 pre).length = mid + 1 :=
      ⟨_, (Nat.sub_add_cancel (by omega)).symm⟩
    rw [hlen, hmid, List.cons_append, splitAt, if_pos (by omega), ← hmid, Nat.add_sub_cancel_left, ih]
    rfl

/-- **Slicing panics** unless the offset is between two characters. -/
theorem splitAt_isSome (s : Text) (mid : Nat) : (splitAt s mid).isSome ↔ IsCharBoundary s mid := by
  constructor
  · intro h
    induction s generalizing mid with
    | nil =>
      cases mid with
      | zero => exact ⟨[], [], rfl, rfl⟩
      | succ mid => cases h
    | cons c s ih =>
      cases mid with
      | zero => exact ⟨[], c :: s, rfl, rfl⟩
      | succ mid =>
        rw [splitAt] at h
        split at h
        · rename_i hsize
          rw [Option.isSome_map] at h
          obtain ⟨pre, data, rfl, hlen⟩ := ih _ h
          refine ⟨c :: pre, data, rfl, ?_⟩
          rw [Text.utf8, List.flatMap_cons, List.length_append, String.length_utf8EncodeChar]
          change c.utf8Size + pre.utf8.length = mid + 1
          omega
        · cases h
  · rintro ⟨pre, data, rfl, rfl⟩
    rw [splitAt_append]
    rfl

/-! ### What is accepted -/

namespace NodeRecord

variable {p : EnodeParsers}

/-- Two parts that parse, whatever the further ones are. -/
theorem ofParts_eq_ok {id addr : Text} {rest : List Text} {r : NodeRecord} :
    ofParts p (id :: addr :: rest) = .ok r ↔ p.peerId id = .ok r.id ∧ p.socketAddr addr = .ok r.addr := by
  obtain ⟨rid, raddr⟩ := r
  have hparts : ofParts p (id :: addr :: rest) =
      p.peerId id >>= fun id => p.socketAddr addr >>= fun addr => Except.ok ⟨id, addr⟩ := rfl
  rw [hparts]
  cases p.peerId id <;> cases p.socketAddr addr <;> simp [bind, Except.bind]

/-- One part is not enough. -/
theorem ofParts_singleton (id : Text) (r : NodeRecord) : ofParts p [id] ≠ .ok r := by
  have hparts : ofParts p [id] = p.peerId id >>= fun _ => Except.error "Failed to read address".toList := rfl
  rw [hparts]
  cases p.peerId id <;> simp [bind, Except.bind]

theorem free_of_not_mem {s : Text} (h : '@' ∉ s) : Dnsdisc.Free (· = '@') s := fun c hc => by
  rw [decide_eq_false_iff_not]
  rintro rfl
  exact h hc

theorem fromStr_append (p : EnodeParsers) (data : Text) :
    fromStr p (enodePrefix ++ data) = some (ofParts p (Dnsdisc.split (· = '@') data)) := by
  rw [fromStr, splitAt_append]
  rfl

/-- **What is accepted**: the texts of the grammar, and those with a tail. -/
theorem ofParts_split {data : Text} {r : NodeRecord} : ofParts p (Dnsdisc.split (· = '@') data) = .ok r ↔
    Enode p (enodePrefix ++ data) r ∨ EnodeWithTail p (enodePrefix ++ data) r := by
  have hat : decide ('@' = '@') = true := rfl
  constructor
  · intro h
    by_cases hmem : '@' ∈ data
    · obtain ⟨id, rest, rfl, hid⟩ := List.eq_append_cons_of_mem hmem
      rw [Dnsdisc.split_append (free_of_not_mem hid) hat] at h
      by_cases hmem' : '@' ∈ rest
      · obtain ⟨addr, tail, rfl, haddr⟩ := List.eq_append_cons_of_mem hmem'
        rw [Dnsdisc.split_append (free_of_not_mem haddr) hat] at h
        obtain ⟨hpid, hpaddr⟩ := ofParts_eq_ok.1 h
        exact .inr ⟨id, addr, tail, by simp, hid, haddr, hpid, hpaddr⟩
      · rw [Dnsdisc.split_of_free (free_of_not_mem hmem')] at h
        obtain ⟨hpid, hpaddr⟩ := ofParts_eq_ok.1 h
        exact .inl ⟨id, rest, by simp, hid, hmem', hpid, hpaddr⟩
    · rw [Dnsdisc.split_of_free (free_of_not_mem hmem)] at h
      exact absurd h (ofParts_singleton data r)
  · rintro (⟨id, addr, hdata, h⟩ | ⟨id, addr, tail, hdata, h⟩)
    · obtain rfl : data = id ++ '@' :: addr := by simpa using hdata
      rw [Dnsdisc.split_append (free_of_not_mem h.id_free) hat, Dnsdisc.split_of_free (free_of_not_mem h.addr_free)]
      exact ofParts_eq_ok.2 ⟨h.id_parses, h.addr_parses⟩
    · obtain rfl : data = id ++ '@' :: (addr ++ '@' :: tail) := by simpa using hdata
      rw [Dnsdisc.split_append (free_of_not_mem h.id_free) hat, Dnsdisc.split_append (free_of_not_mem h.addr_free) hat]
      exact ofParts_eq_ok.2 ⟨h.id_parses, h.addr_parses⟩

/-- No text of the grammar has a tail. -/
theorem not_enode_of_tail {s : Text} {r r' : NodeRecord} (h : EnodeWithTail p s r) : ¬Enode p s r' := by
  rintro ⟨id', addr', hs', h'⟩
  obtain ⟨id, addr, tail, hs, -⟩ := h
  have hcount := congrArg (List.count '@') (hs.symm.trans hs')
  have hid := List.count_eq_zero.2 h'.id_free
  have haddr := List.count_eq_zero.2 h'.addr_free
  simp only [List.count_append, List.count_cons_self] at hcount
  omega

/-- **The parser meets the grammar** on the texts that can be sliced after eight bytes and have no tail. There it
returns, and accepts a text with a record exactly when the grammar does; on no other text does it. -/
theorem fromStr_exact (p : EnodeParsers) (s : Text) :
    (∃ result, fromStr p s = some result ∧ ∀ r, result = .ok r ↔ Enode p s r) ↔
      IsCharBoundary s 8 ∧ ∀ r, ¬EnodeWithTail p s r := by
  have hlen : enodePrefix.utf8.length = 8 := by decide
  constructor
  · rintro ⟨result, hresult, h⟩
    refine ⟨?_, fun r htail => ?_⟩
    · rw [← hlen, ← splitAt_isSome]
      rw [fromStr] at hresult
      cases hsplit : splitAt s enodePrefix.utf8.length with
      | none =>
        rw [hsplit] at hresult
        cases hresult
      | some parts => rfl
    · obtain ⟨data, rfl⟩ : ∃ data, s = enodePrefix ++ data := by
        obtain ⟨id, addr, tail, rfl, -⟩ := htail
        exact ⟨id ++ '@' :: addr ++ '@' :: tail, by simp only [List.append_assoc]⟩
      rw [fromStr_append] at hresult
      obtain rfl := Option.some.inj hresult
      exact not_enode_of_tail htail ((h r).1 (ofParts_split.2 (.inr htail)))
  · rintro ⟨⟨pre, data, rfl, hpre⟩, htail⟩
    by_cases heq : pre = enodePrefix
    · subst heq
      refine ⟨_, fromStr_append p data, fun r => ofParts_split.trans ?_⟩
      exact or_iff_left (htail r)
    · have hsplit : splitAt (pre ++ data) enodePrefix.utf8.length = some (pre, data) := by
        rw [hlen, ← hpre, splitAt_append]
      refine ⟨.error "Not an enode".toList, ?_, fun r => ?_⟩
      · rw [fromStr, hsplit]
        exact if_pos heq
      · simp only [reduceCtorEq, false_iff]
        rintro ⟨id, addr, hs, -⟩
        -- the first eight bytes of the text are those of the prefix
        rw [hs, List.append_assoc, splitAt_append] at hsplit
        cases hsplit
        exact heq rfl

/-! ### Texts that are not parsed by the grammar -/

def localAddr : SocketAddr := .v4 ⟨[127, 0, 0, 1], rfl⟩ 30303

/-- The id that is all zeros, at a local address. -/
def localRecord : NodeRecord := ⟨⟨List.replicate 64 0, rfl⟩, localAddr⟩

def localEnode : Text := enodePrefix ++ List.replicate 128 '0' ++ '@' :: "127.0.0.1:30303".toList

/-- Parsers that know the two parts of one text. -/
def localParsers : EnodeParsers where
  peerId s := if s = List.replicate 128 '0' then .ok localRecord.id else .error "invalid id".toList
  socketAddr s :=
    if s = "127.0.0.1:30303".toList then .ok localAddr else .error "invalid socket address syntax".toList

/-- **The parser does not meet the grammar.** It panics on a text of less than eight bytes, and on one with a character
across the eighth byte. It accepts a second `@`. -/
theorem fromStr_not_exact : fromStr localParsers [] = none ∧ fromStr localParsers "enode:/é".toList = none ∧
    fromStr localParsers (localEnode ++ ['@']) = some (.ok localRecord) ∧
    ¬Enode localParsers (localEnode ++ ['@']) localRecord := by
  have hparts : EnodeParts localParsers (List.replicate 128 '0') "127.0.0.1:30303".toList localRecord :=
    ⟨by decide, by decide, rfl, rfl⟩
  have htail : EnodeWithTail localParsers (localEnode ++ ['@']) localRecord := ⟨_, _, [], rfl, hparts⟩
  have haccepted : fromStr localParsers (localEnode ++ ['@']) = some (.ok localRecord) := by decide +kernel
  exact ⟨rfl, by decide +kernel, haccepted, not_enode_of_tail htail⟩

end NodeRecord

/-! ## The stream -/

/-- `Bootnodes`: a map, with its entries in the order in which it is iterated over. -/
abbrev Bootnodes : Type := AList fun _ : SocketAddr => PeerId

namespace Bootnodes

/-- `Stream::poll_next`, which is always ready, and what is left of the stream. -/
def pollNext (b : Bootnodes) : Option (Except Text NodeRecord) × Bootnodes :=
  match b.entries.head? with
  | some ⟨addr, id⟩ => (some (.ok ⟨id, addr⟩), b)
  | none => (none, b)

/-- The records that so many polls yield, up to the end of the stream. -/
def polls : Nat → Bootnodes → List NodeRecord
  | 0, _ => []
  | n + 1, b => match b.pollNext with
    | (some (.ok record), b) => record :: polls n b
    | (some (.error _), b) => polls n b
    | (none, _) => []

/-- `main`: the records of the configuration as a map. -/
def ofReservedPeers (peers : List NodeRecord) : Bootnodes :=
  peers.foldl (fun b record => b.insert record.addr record.id) ∅

/-- Every entry is yielded within as many polls as there are entries. -/
def Offered (b : Bootnodes) : Prop :=
  ∀ addr id, b.lookup addr = some id → ⟨id, addr⟩ ∈ b.polls b.entries.length

/-- **A poll changes nothing**: all yield the first entry. -/
theorem polls_eq_replicate {b : Bootnodes} {addr : SocketAddr} {id : PeerId} (h : b.entries.head? = some ⟨addr, id⟩)
    (n : Nat) : b.polls n = List.replicate n ⟨id, addr⟩ := by
  induction n with
  | zero => rfl
  | succ n ih =>
    have hpoll : b.pollNext = (some (.ok ⟨id, addr⟩), b) := by rw [pollNext, h]
    rw [polls, hpoll, List.replicate_succ, ← ih]

/-- An entry after the first is never yielded. -/
theorem not_mem_polls {b : Bootnodes} {e : Sigma fun _ : SocketAddr => PeerId} (he : e ∈ b.entries.tail) (n : Nat) :
    ⟨e.2, e.1⟩ ∉ b.polls n := by
  obtain ⟨first, rest, hentries⟩ := List.exists_cons_of_ne_nil (List.ne_nil_of_mem (List.mem_of_mem_tail he))
  have hnodup := b.nodupKeys
  rw [hentries, List.nodupKeys_cons] at hnodup
  rw [hentries, List.tail_cons] at he
  rw [polls_eq_replicate (by rw [hentries]; rfl)]
  intro hmem
  have haddr : e.1 = first.1 := congrArg NodeRecord.addr (List.eq_of_mem_replicate hmem)
  exact hnodup.1 (haddr ▸ List.mem_keys_of_mem he)

/-- **The stream offers all entries exactly when there is at most one.** Every other entry than the first is never
yielded, by any number of polls. -/
theorem offered_iff (b : Bootnodes) : (b.Offered ↔ b.entries.length ≤ 1) ∧
    ∀ e ∈ b.entries.tail, ∀ n, ⟨e.2, e.1⟩ ∉ b.polls n := by
  refine ⟨⟨fun h => ?_, fun h addr id hid => ?_⟩, fun e he n => not_mem_polls he n⟩
  · by_contra hlong
    obtain ⟨e, he⟩ := List.exists_mem_of_length_pos (l := b.entries.tail) (by rw [List.length_tail]; omega)
    have hlookup : b.lookup e.1 = some e.2 := AList.mem_lookup_iff.2 (List.mem_of_mem_tail he)
    exact not_mem_polls he _ (h e.1 e.2 hlookup)
  · have hmem : ⟨addr, id⟩ ∈ b.entries := AList.mem_lookup_iff.1 (Option.mem_def.2 hid)
    have hlen : b.entries.length = 1 := by
      have := List.length_pos_of_mem hmem
      omega
    obtain ⟨e, hentries⟩ := List.length_eq_one_iff.1 hlen
    obtain rfl : ⟨addr, id⟩ = e := by simpa [hentries] using hmem
    rw [polls_eq_replicate (by rw [hentries]; rfl), hlen]
    exact List.mem_singleton_self _

/-! ### The peers of the configuration -/

/-- The addresses of the map are those of the peers. -/
theorem mem_ofReservedPeers (peers : List NodeRecord) (addr : SocketAddr) :
    addr ∈ ofReservedPeers peers ↔ ∃ record ∈ peers, record.addr = addr := by
  -- the peers before are in the map already
  have hfold : ∀ (peers : List NodeRecord) (b : Bootnodes),
      addr ∈ peers.foldl (fun b record => b.insert record.addr record.id) b ↔
        addr ∈ b ∨ ∃ record ∈ peers, record.addr = addr := fun peers => by
    induction peers with
    | nil => simp
    | cons record peers ih =>
      intro b
      rw [List.foldl_cons, ih, AList.mem_insert]
      simp only [List.mem_cons, exists_eq_or_imp]
      constructor
      · rintro ((rfl | hb) | hrest)
        · exact .inr (.inl rfl)
        · exact .inl hb
        · exact .inr (.inr hrest)
      · rintro (hb | rfl | hrest)
        · exact .inl (.inr hb)
        · exact .inl (.inl rfl)
        · exact .inr hrest
  rw [ofReservedPeers, hfold]
  exact or_iff_right (AList.notMem_empty addr)

/-- A map has at most one entry when all its keys are the same. -/
theorem length_entries_le_one (b : Bootnodes) : b.entries.length ≤ 1 ↔ ∀ x ∈ b, ∀ y ∈ b, x = y := by
  have hkeys : b.entries.length = b.keys.length := (List.length_map _).symm
  rw [hkeys]
  constructor
  · intro hlen x hx y hy
    rw [AList.mem_keys] at hx hy
    obtain ⟨z, hz⟩ := List.length_eq_one_iff.1 (Nat.le_antisymm hlen (List.length_pos_of_mem hx))
    rw [hz, List.mem_singleton] at hx hy
    exact hx.trans hy.symm
  · intro h
    have hreplicate : ∀ x ∈ b.keys, ∀ y ∈ b.keys, x = y := fun x hx y hy =>
      h x (AList.mem_keys.2 hx) y (AList.mem_keys.2 hy)
    match hb : b.keys with
    | [] => simp
    | [_] => simp
    | x :: y :: rest =>
      have hnodup := AList.keys_nodup b
      rw [hb] at hnodup
      rw [hb] at hreplicate
      exact absurd (hreplicate x (.head _) y (.tail _ (.head _))) fun hxy => by simp [hxy] at hnodup

/-- **All reserved peers are offered** exactly when they have one address, whatever the order in which the map is
iterated over. -/
theorem reserved_offered_iff {peers : List NodeRecord} {b : Bootnodes}
    (hb : b.entries.Perm (ofReservedPeers peers).entries) :
    b.Offered ↔ ∀ record ∈ peers, ∀ record' ∈ peers, record.addr = record'.addr := by
  rw [(offered_iff b).1, hb.length_eq, length_entries_le_one]
  simp only [mem_ofReservedPeers]
  constructor
  · intro h record hrecord record' hrecord'
    exact h _ ⟨record, hrecord, rfl⟩ _ ⟨record', hrecord', rfl⟩
  · rintro h x ⟨record, hrecord, rfl⟩ y ⟨record', hrecord', rfl⟩
    exact h record hrecord record' hrecord'

/-- Two peers, at two addresses. -/
def twoPeers : List NodeRecord :=
  [NodeRecord.localRecord, ⟨⟨List.replicate 64 1, rfl⟩, .v4 ⟨[127, 0, 0, 1], rfl⟩ 30304⟩]

/-- **A starved peer.** One of the two entries is yielded twice, and the other is not. -/
theorem second_starved : ¬(ofReservedPeers twoPeers).Offered := by
  intro h
  have hlookup : (ofReservedPeers twoPeers).lookup NodeRecord.localAddr = some NodeRecord.localRecord.id := by decide
  have hoffered := h _ _ hlookup
  exact absurd hoffered (by decide +kernel)

end Bootnodes

end EthereumSentry
