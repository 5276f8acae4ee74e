import EthereumSentry.Devp2p.Software
import EthereumSentry.Discv4.Node
import EthereumSentry.Discv4.RoundTrip
import EthereumSentry.Lib.Prog

/-!
# The ingress router

What handling a datagram does to all that the ingress router shares with the rest of the node (`Router`), with every
slice and every index that could panic. It never does, and what does not pass the checks or does not decode leaves
everything as it is (`ingress_inert`). Without the callbacks and the endpoint, this is the ingress router of the node
(`ingress_refines`).
-/

set_option autoImplicit false

namespace EthereumSentry

namespace Discv4

abbrev RequestId : Type := UInt64

/-- The sending half of a channel. -/
abbrev Callback : Type := Nat

/-- What is sent into a channel. -/
inductive Signal where
  /-- The ping that a lookup expected has come. -/
  | pinged (cb : Callback)
  /-- A ping was answered. -/
  | ponged (cb : Callback)
  | neighbours (cb : Callback) (message : NeighboursMessage)
  deriving DecidableEq

/-- What the ingress router works on, with what it has sent into the channels. -/
structure Router where
  connected : Table
  nodeEndpoint : Endpoint
  inflightPingRequests : H256 → Option (List Callback)
  expectedPings : SocketAddr → Option (List (RequestId × Callback))
  inflightFindNodeRequests : NodeId → Option (List (RequestId × Callback))
  egressRequests : List (SocketAddr × NodeId × EgressMessage)
  signals : List Signal

namespace Router

open Prog (after after_ok after_error after_bind)

section

variable (c : Crates) (sk : c.SecretKey)

/-- `InflightFindNode::get`. -/
def waiting (r : Router) (id : NodeId) : List Callback := ((r.inflightFindNodeRequests id).getD []).map (·.2)

/-- `egress_requests_tx.send`. -/
def request (r : Router) (addr : SocketAddr) (peer : NodeId) (message : EgressMessage) : Router :=
  { r with egressRequests := r.egressRequests ++ [(addr, peer, message)] }

def signal (r : Router) (signals : List Signal) : Router := { r with signals := r.signals ++ signals }

/-- A ping is answered, and the lookups that expect it are told. -/
def handlePing (addr : SocketAddr) (remoteId : NodeId) (hash : H256) (data : Bytes) :
    Prog IngressError Router Unit := do
  let pingData ← Prog.ofExcept .decoder (PingMessage.decode c.rlp data)
  modify fun r => { r with connected := r.connected.addVerified c.keccak256 {
    address := pingData.fromEndpoint.address
    udpPort := pingData.fromEndpoint.udpPort
    tcpPort := pingData.fromEndpoint.udpPort
    id := remoteId } }
  modify fun r => r.request addr remoteId (.pong ⟨pingData.fromEndpoint, hash, pingData.expire⟩)
  let r ← get
  match r.expectedPings addr with
  | some cbs =>
    modify fun r => { r with expectedPings := Function.update r.expectedPings addr none }
    modify fun r => r.signal (cbs.map fun cb => .pinged cb.2)
  | none => pure ()

/-- A pong that was asked for tells the endpoint of the node. -/
def handlePong (data : Bytes) : Prog IngressError Router Unit := do
  let message ← Prog.ofExcept .decoder (PongMessage.decode c.rlp data)
  let r ← get
  match r.inflightPingRequests message.echo with
  | some cbs =>
    modify fun r => { r with inflightPingRequests := Function.update r.inflightPingRequests message.echo none }
    modify fun r => { r with nodeEndpoint := { r.nodeEndpoint with
      address := message.toEndpoint.address
      udpPort := message.toEndpoint.udpPort } }
    modify fun r => r.signal (cbs.map .ponged)
  | none => pure ()

/-- A query is answered when its sender is found. -/
def handleFindNode (addr : SocketAddr) (remoteId : NodeId) (data : Bytes) : Prog IngressError Router Unit := do
  let message ← Prog.ofExcept .decoder (FindNodeMessage.decode c.rlp data)
  let r ← get
  let neighbours :=
    if (r.connected.get c.keccak256 remoteId).isSome then r.connected.neighbours c.keccak256 remoteId else none
  match neighbours with
  | some nodes => modify fun r => r.request addr remoteId (.neighbours ⟨nodes, message.expire⟩)
  | none => pure ()

/-- Neighbours are decoded when a lookup waits for them. -/
def handleNeighbours (remoteId : NodeId) (data : Bytes) : Prog IngressError Router Unit := do
  let r ← get
  let cbs := r.waiting remoteId
  if cbs.isEmpty then pure ()
  else
    let message ← Prog.ofExcept .decoder (NeighboursMessage.decode c.rlp data)
    modify fun r => { r with connected := message.nodes.foldl (·.addSeen c.keccak256) r.connected }
    modify fun r => r.signal (cbs.map (.neighbours · message))

/-- The message of a datagram is handled by its type. -/
def handle (addr : SocketAddr) (remoteId : NodeId) (hash : H256) (typ : UInt8) (data : Bytes) :
    Prog IngressError Router Unit :=
  match MessageId.fromU8 typ with
  | some .ping => handlePing c addr remoteId hash data
  | some .pong => handlePong c data
  | some .findNode => handleFindNode c addr remoteId data
  | some .neighbours => handleNeighbours c remoteId data
  | none => Prog.fail (.invalidMessageType typ)

/-- The ingress router, on a datagram in its buffer. -/
def ingress (addr : SocketAddr) (buf : Bytes) : Prog IngressError Router Unit := do
  if addr.ip.isIpv6 then Prog.fail .ipv6Unsupported
  else
    let minLen := 32 + 65 + 1
    if buf.length < minLen then Prog.fail (.packetTooShort buf.length minLen)
    else
      let hashed ← Prog.sliceFrom buf 32
      let hash := c.keccak256 hashed
      let checkBytes ← Prog.slice buf 0 32
      let checkHash ← Prog.unwrap (FixedBytes.ofBytes? 32 checkBytes)
      if checkHash ≠ hash then Prog.fail (.hashCheckFailed hash.bytes checkHash.bytes)
      else
        let recByte ← Prog.unwrap buf[96]?
        let recId ← Prog.ofExcept .secp (c.recoveryIdFromByte recByte)
        let sigBytes ← Prog.slice buf 32 96
        let recSig ← Prog.ofExcept .secp (c.fromCompact sigBytes recId)
        let payload ← Prog.sliceFrom buf 97
        let publicKey ← Prog.ofExcept .secp (c.recover (c.keccak256 payload) recSig)
        let remoteId := pk2id c publicKey
        if remoteId = Node.ownId c sk then pure ()
        else
          let typ ← Prog.unwrap buf[97]?
          let data ← Prog.sliceFrom buf 98
          handle c addr remoteId hash typ data

/-- The datagram is not acted upon. -/
inductive Rejected (buf : Bytes) : Prop
  | tooShort (h : buf.length < 32 + 65 + 1)
  | hashMismatch (h : buf.take 32 ≠ (c.keccak256 (buf.drop 32)).bytes)
  | badRecoveryId (e : SecpError) (h : c.recoveryIdFromByte (buf.getD 96 0) = .error e)
  | badSignature (recId : c.RecoveryId) (e : SecpError) (hr : c.recoveryIdFromByte (buf.getD 96 0) = .ok recId)
      (h : c.fromCompact ((buf.drop 32).take 64) recId = .error e)
  | unrecoverable (recId : c.RecoveryId) (recSig : c.Signature) (e : SecpError)
      (hr : c.recoveryIdFromByte (buf.getD 96 0) = .ok recId)
      (hs : c.fromCompact ((buf.drop 32).take 64) recId = .ok recSig)
      (h : c.recover (c.keccak256 (buf.drop 97)) recSig = .error e)
  | ownId (o : Opened) (ho : openDatagram c buf = .ok o) (h : o.remoteId = Node.ownId c sk)
  | unknownType (o : Opened) (ho : openDatagram c buf = .ok o) (h : MessageId.fromU8 o.typ = none)
  | undecodable (o : Opened) (ho : openDatagram c buf = .ok o) (id : MessageId)
      (hid : MessageId.fromU8 o.typ = some id) (e : Rlp.DecoderError) (h : MessageId.decode c.rlp o.data id = .error e)

end

/-! ## What handling a datagram does -/

variable {c : Crates} {sk : c.SecretKey} {addr : SocketAddr} {buf : Bytes} {r : Router}

theorem mapError_ok_bind {ε ε' α β : Type} (f : ε → ε') (a : α) (g : α → Except ε' β) :
    ((Except.ok a : Except ε α).mapError f >>= g) = g a := rfl

/-- **The slices are in range**: the ingress router does what its checks decide. -/
theorem run_ingress (hip : addr.ip.isIpv6 = false) : (ingress c sk addr buf).run r =
    match openDatagram c buf with
    | .error e => .error (.err e) r
    | .ok o =>
      if o.remoteId = Node.ownId c sk then .ok () r else (handle c addr o.remoteId o.hash o.typ o.data).run r := by
  unfold ingress openDatagram
  simp only [hip, Bool.false_eq_true, if_false]
  by_cases hlen : buf.length < 32 + 65 + 1
  · simp only [hlen, if_true]
    rfl
  have hlen : 98 ≤ buf.length := Nat.not_lt.1 hlen
  have hslice : (buf.take 96).drop 32 = (buf.drop 32).take 64 := by rw [List.drop_take]
  have hget {i : Nat} (hi : i < buf.length) : buf[i]? = some (buf.getD i 0) := by
    rw [List.getD_eq_getElem?_getD, List.getElem?_eq_getElem hi, Option.getD_some]
  rw [if_neg (by omega), if_neg (by omega), Prog.run_bind_ok (Prog.run_sliceFrom (by omega) r),
    Prog.run_bind_ok (Prog.run_slice (by omega) (by omega) r), List.drop_zero,
    FixedBytes.ofBytes?_eq_some (b := buf.take 32) (by rw [List.length_take]; omega),
    Prog.run_bind_ok (Prog.run_unwrap_some _ r)]
  by_cases hhash : buf.take 32 = (c.keccak256 (buf.drop 32)).bytes
  · rw [if_neg (by simp [hhash]), if_neg (by simp [hhash]), hget (by omega), hget (by omega),
      Prog.run_bind_ok (Prog.run_unwrap_some _ r)]
    cases c.recoveryIdFromByte (buf.getD 96 0) with
    | error e => rfl
    | ok recId =>
      rw [Prog.run_bind_ok (Prog.run_ofExcept_ok _ _ r), Prog.run_bind_ok (Prog.run_slice (by omega) (by omega) r),
        hslice, mapError_ok_bind]
      cases c.fromCompact ((buf.drop 32).take 64) recId with
      | error e => rfl
      | ok recSig =>
        rw [Prog.run_bind_ok (Prog.run_ofExcept_ok _ _ r), Prog.run_bind_ok (Prog.run_sliceFrom (by omega) r),
          mapError_ok_bind]
        cases c.recover (c.keccak256 (buf.drop 97)) recSig with
        | error e => rfl
        | ok publicKey =>
          rw [Prog.run_bind_ok (Prog.run_ofExcept_ok _ _ r), mapError_ok_bind]
          by_cases hid : pk2id c publicKey = Node.ownId c sk
          · rw [if_pos hid]
            exact (if_pos hid).symm
          · rw [if_neg hid, Prog.run_bind_ok (Prog.run_unwrap_some _ r),
              Prog.run_bind_ok (Prog.run_sliceFrom (by omega) r)]
            exact (if_neg hid).symm
  · rw [if_pos (by simp [FixedBytes.ext_iff, hhash]), if_pos hhash]
    rfl

/-- No message makes the router panic. -/
theorem handle_safe (addr : SocketAddr) (remoteId : NodeId) (hash : H256) (typ : UInt8) (data : Bytes) (r : Router) :
    ¬Prog.Panics (handle c addr remoteId hash typ data) r := by
  refine Prog.wp_not_panics (Q := fun _ _ => True) (E := fun _ => True) ?_
  unfold handle
  split
  · simp only [handlePing, Prog.wp_bind, Prog.wp_ofExcept, Prog.wp_modify, Prog.wp_get]
    refine ⟨fun _ _ => ?_, fun _ _ => trivial⟩
    split <;> simp
  · simp only [handlePong, Prog.wp_bind, Prog.wp_ofExcept, Prog.wp_get]
    refine ⟨fun _ _ => ?_, fun _ _ => trivial⟩
    split <;> simp
  · simp only [handleFindNode, Prog.wp_bind, Prog.wp_ofExcept, Prog.wp_get]
    refine ⟨fun _ _ => ?_, fun _ _ => trivial⟩
    split <;> simp
  · simp only [handleNeighbours, Prog.wp_bind, Prog.wp_get, Prog.wp_ite, Prog.wp_pure, Prog.wp_ofExcept, Prog.wp_modify]
    split <;> simp
  · simp

theorem after_ingress (hip : addr.ip.isIpv6 = false) : after (ingress c sk addr buf) r =
    match openDatagram c buf with
    | .error _ => r
    | .ok o =>
      if o.remoteId = Node.ownId c sk then r else after (handle c addr o.remoteId o.hash o.typ o.data) r := by
  rw [after, run_ingress hip]
  cases openDatagram c buf with
  | error e => rfl
  | ok o =>
    by_cases hid : o.remoteId = Node.ownId c sk
    · simp only [if_pos hid]
    · simp only [if_neg hid, after]

/-- A decoder that fails comes before everything else. -/
theorem after_decoder {α : Type} {x : Except Rlp.DecoderError α} {f : α → Prog IngressError Router Unit}
    {e : Rlp.DecoderError} (h : x = .error e) : after (Prog.ofExcept .decoder x >>= f) r = r := by
  refine after_error (e := .err (.decoder e)) ?_
  rw [h]
  rfl

/-- After a decoder, the state is unchanged or that of the rest. -/
theorem after_decoded {α : Type} {P : Router → Prop} {x : Except Rlp.DecoderError α}
    {f : α → Prog IngressError Router Unit} (hr : P r) (h : ∀ a, x = .ok a → P (after (f a) r)) :
    P (after (Prog.ofExcept .decoder x >>= f) r) := by
  cases hx : x with
  | error e => rwa [after_decoder rfl]
  | ok a =>
    rw [after_bind (Prog.run_ofExcept_ok _ a r)]
    exact h a hx

theorem map_eq_error {ε α β : Type} {x : Except ε α} {f : α → β} {e : ε} (h : x.map f = .error e) : x = .error e := by
  cases x with
  | error e' =>
    cases h
    rfl
  | ok a => cases h

/-- What does not decode at its type is not acted upon. -/
theorem handle_undecodable {o : Opened} {id : MessageId} (hid : MessageId.fromU8 o.typ = some id) {e : Rlp.DecoderError}
    (h : MessageId.decode c.rlp o.data id = .error e) :
    after (handle c addr o.remoteId o.hash o.typ o.data) r = r := by
  unfold handle
  cases id with
  | ping =>
    simp only [hid]
    exact after_decoder (map_eq_error h)
  | pong =>
    simp only [hid]
    exact after_decoder (map_eq_error h)
  | findNode =>
    simp only [hid]
    exact after_decoder (map_eq_error h)
  | neighbours =>
    simp only [hid, handleNeighbours]
    -- a message that nobody waits for is not even decoded
    by_cases hw : (r.waiting o.remoteId).isEmpty
    · refine after_ok (a := ()) ?_
      rw [Prog.run_bind_ok (EStateM.run_get r), if_pos hw]
      rfl
    · refine after_error (e := .err (.decoder e)) ?_
      rw [Prog.run_bind_ok (EStateM.run_get r), if_neg hw, map_eq_error h]
      rfl

/-- What an opened datagram has passed. -/
theorem checks_of_openDatagram {o : Opened} (h : openDatagram c buf = .ok o) :
    32 + 65 + 1 ≤ buf.length ∧ buf.take 32 = (c.keccak256 (buf.drop 32)).bytes ∧
      ∃ recId recSig publicKey, c.recoveryIdFromByte (buf.getD 96 0) = .ok recId ∧
        c.fromCompact ((buf.drop 32).take 64) recId = .ok recSig ∧
        c.recover (c.keccak256 (buf.drop 97)) recSig = .ok publicKey := by
  unfold openDatagram at h
  simp only at h
  split at h
  · cases h
  rename_i hlen
  split at h
  · cases h
  rename_i hhash
  obtain ⟨recId, hr, h⟩ := Node.mapError_bind_eq_ok h
  obtain ⟨recSig, hs, h⟩ := Node.mapError_bind_eq_ok h
  obtain ⟨publicKey, hp, -⟩ := Node.mapError_bind_eq_ok h
  exact ⟨Nat.not_lt.1 hlen, not_not.1 hhash, recId, recSig, publicKey, hr, hs, hp⟩

theorem after_ingress_of_rejected (h : Rejected c sk buf) : after (ingress c sk addr buf) r = r := by
  by_cases hip : addr.ip.isIpv6
  · refine after_error (e := .err .ipv6Unsupported) ?_
    rw [ingress, if_pos hip]
    rfl
  rw [after_ingress (Bool.not_eq_true _ ▸ hip)]
  cases ho : openDatagram c buf with
  | error e => rfl
  | ok o =>
    dsimp only
    by_cases hid : o.remoteId = Node.ownId c sk
    · exact if_pos hid
    rw [if_neg hid]
    obtain ⟨hlen, hhash, recId, recSig, publicKey, hr, hs, hp⟩ := checks_of_openDatagram ho
    cases h with
    | tooShort h => omega
    | hashMismatch h => exact absurd hhash h
    | badRecoveryId e h =>
      rw [h] at hr
      cases hr
    | badSignature recId' e hr' h =>
      rw [hr] at hr'
      cases hr'
      rw [h] at hs
      cases hs
    | unrecoverable recId' recSig' e hr' hs' h =>
      rw [hr] at hr'
      cases hr'
      rw [hs] at hs'
      cases hs'
      rw [h] at hp
      cases hp
    | ownId o' ho' h =>
      rw [ho] at ho'
      cases ho'
      exact absurd h hid
    | unknownType o' ho' h =>
      rw [ho] at ho'
      cases ho'
      refine after_error (e := .err (.invalidMessageType o.typ)) ?_
      simp only [handle, h]
      rfl
    | undecodable o' ho' id hmid e h =>
      rw [ho] at ho'
      cases ho'
      exact handle_undecodable hmid h

theorem ingress_safe (addr : SocketAddr) (buf : Bytes) (r : Router) : ¬Prog.Panics (ingress c sk addr buf) r := by
  by_cases hip : addr.ip.isIpv6
  · rw [ingress, if_pos hip]
    exact Prog.panics_fail _ _
  rintro ⟨r', h⟩
  rw [run_ingress (Bool.not_eq_true _ ▸ hip)] at h
  cases ho : openDatagram c buf with
  | error e => simp [ho] at h
  | ok o =>
    simp only [ho] at h
    split at h
    · cases h
    · exact handle_safe addr _ _ _ _ r ⟨r', h⟩

/-- **Malformed datagrams are inert**: on every datagram, and in every state, the ingress router does not panic; a
datagram that is rejected changes nothing and has nothing sent. -/
theorem ingress_inert (c : Crates) (sk : c.SecretKey) (addr : SocketAddr) (buf : Bytes) (r : Router) :
    ¬Prog.Panics (ingress c sk addr buf) r ∧ (Rejected c sk buf → after (ingress c sk addr buf) r = r) :=
  ⟨ingress_safe addr buf r, after_ingress_of_rejected⟩

section Example

open Software

def exampleAddr : SocketAddr := ⟨.v4 (FixedBytes.ofNat 4 0x7f000001), 30303⟩

/-- A node that the router knows. -/
def exampleNode : NodeRecord := ⟨exampleAddr.ip, 30303, 30303, Node.ownId crates clientKey⟩

/-- The router of a node that has pinged another one and waits for its neighbours, while a lookup waits for its ping. -/
def exampleRouter : Router where
  connected := (Table.new crates.keccak256 (Node.ownId crates serverKey)).addVerified crates.keccak256 exampleNode
  nodeEndpoint := ⟨.v4 (FixedBytes.ofNat 4 0x7f000002), 30303, 30303⟩
  inflightPingRequests := fun hash => if hash = FixedBytes.zero 32 then some [0] else none
  expectedPings := fun addr => if addr = exampleAddr then some [(7, 1)] else none
  inflightFindNodeRequests := fun id => if id = exampleNode.id then some [(7, 2)] else none
  egressRequests := [(exampleAddr, exampleNode.id, .findNode ⟨Node.ownId crates serverKey, 0⟩)]
  signals := []

/-- A datagram whose hash and signature are right: a pong, and an empty list in place of its fields. -/
def undecodablePong : Bytes :=
  (FixedBytes.ofNat 32 0x95745ac8661ba74ecce675222c7d93c6f69738e7963fb62eba366b419bcc75e3).bytes ++
  (FixedBytes.ofNat 32 0x4493479799bcfaa4e32368962dd307ae503a823edf90e6c63696b4efcaa3526b).bytes ++
  (FixedBytes.ofNat 32 0x1f9e29d7557cb90e6ef4386ffb50964fb996bc854ea775bba73514bcc904f9e3).bytes ++ [0x00, 0x02, 0xc0]

/-- The router opens it, and ignores it. -/
theorem ingress_inert_undecodable : ∃ o, openDatagram crates undecodablePong = .ok o ∧ o.remoteId = exampleNode.id ∧
    after (ingress crates serverKey exampleAddr undecodablePong) exampleRouter = exampleRouter := by
  have hopen : (openDatagram crates undecodablePong).toOption.map (fun o => (o.remoteId, o.typ, o.data)) =
      some (exampleNode.id, 2, [0xc0]) := by decide +kernel
  cases ho : openDatagram crates undecodablePong with
  | error e =>
    rw [ho] at hopen
    cases hopen
  | ok o =>
    rw [ho] at hopen
    obtain ⟨hid, hfields⟩ := Prod.mk.inj (Option.some.inj hopen)
    obtain ⟨htyp, hdata⟩ := Prod.mk.inj hfields
    have hpong : MessageId.fromU8 o.typ = some .pong := by rw [htyp]; rfl
    have herr : MessageId.decode crates.rlp o.data .pong = .error .rlpIsTooShort := by rw [hdata]; decide +kernel
    exact ⟨o, rfl, hid, (ingress_inert crates serverKey exampleAddr undecodablePong exampleRouter).2
      (.undecodable o ho .pong hpong _ herr)⟩

end Example

/-! ## The ingress router of the node -/

/-- The node has the table and the queue of the router, and the keys of its maps. -/
structure Abstracts (r : Router) (n : Node) : Prop where
  connected : n.connected = r.connected
  egressRequests : n.egressRequests = r.egressRequests
  nodup : n.inflightPingRequests.Nodup
  pings : ∀ h, h ∈ n.inflightPingRequests ↔ (r.inflightPingRequests h).isSome
  findNode : ∀ id, id ∈ n.inflightFindNodeRequests ↔ r.waiting id ≠ []

/-- The router ends as the node does. -/
def Agrees (r : Router) : EStateM.Result (Stop IngressError) Router Unit → Except IngressError Node → Prop
  | .ok () r', .ok n' => r'.Abstracts n'
  | .error (.err e) r', .error e' => e = e' ∧ r' = r
  | _, _ => False

/-- After a decoder, the rest has to agree. -/
theorem agrees_decoder {α : Type} {x : Except Rlp.DecoderError α} {f : α → Prog IngressError Router Unit}
    {g : α → Except IngressError Node} (h : ∀ a, Agrees r ((f a).run r) (g a)) :
    Agrees r ((Prog.ofExcept .decoder x >>= f).run r) (x.mapError .decoder >>= g) := by
  cases x with
  | error e => exact ⟨rfl, rfl⟩
  | ok a => exact h a

variable {n : Node}

theorem Abstracts.request (h : r.Abstracts n) (addr : SocketAddr) (peer : NodeId) (message : EgressMessage) :
    (r.request addr peer message).Abstracts (n.request addr peer message) :=
  ⟨h.connected, by rw [Node.request, Router.request, h.egressRequests], h.nodup, h.pings, h.findNode⟩

theorem handle_agrees (h : r.Abstracts n) (o : Opened) :
    Agrees r ((handle c addr o.remoteId o.hash o.typ o.data).run r) (n.handle c addr o) := by
  unfold handle Node.handle
  cases MessageId.fromU8 o.typ with
  | none => exact ⟨rfl, rfl⟩
  | some id =>
    cases id with
    | ping =>
      refine agrees_decoder fun pingData => ?_
      let node : NodeRecord := ⟨pingData.fromEndpoint.address, pingData.fromEndpoint.udpPort,
        pingData.fromEndpoint.udpPort, o.remoteId⟩
      have hadd : Abstracts { r with connected := r.connected.addVerified c.keccak256 node }
          { n with connected := n.connected.addVerified c.keccak256 node } :=
        ⟨by rw [h.connected], h.egressRequests, h.nodup, h.pings, h.findNode⟩
      have hreq := hadd.request addr o.remoteId (.pong ⟨pingData.fromEndpoint, o.hash, pingData.expire⟩)
      rw [Prog.run_bind_ok (EStateM.run_modify _ _), Prog.run_bind_ok (EStateM.run_modify _ _),
        Prog.run_bind_ok (EStateM.run_get _)]
      split
      · exact ⟨hreq.connected, hreq.egressRequests, hreq.nodup, hreq.pings, hreq.findNode⟩
      · exact hreq
    | pong =>
      refine agrees_decoder fun message => ?_
      rw [Prog.run_bind_ok (EStateM.run_get _)]
      split
      · rename_i cbs hcbs
        refine ⟨h.connected, h.egressRequests, h.nodup.erase _, fun hash => ?_, h.findNode⟩
        rw [h.nodup.mem_erase_iff, h.pings]
        by_cases he : hash = message.echo <;> simp [he, signal]
      · rename_i hcbs
        have hnot : message.echo ∉ n.inflightPingRequests := by
          rw [h.pings, hcbs]
          simp
        refine ⟨h.connected, h.egressRequests, h.nodup.erase _, fun hash => ?_, h.findNode⟩
        rw [List.erase_of_not_mem hnot]
        exact h.pings hash
    | findNode =>
      refine agrees_decoder fun message => ?_
      rw [Prog.run_bind_ok (EStateM.run_get _), h.connected]
      dsimp only
      cases if (r.connected.get c.keccak256 o.remoteId).isSome then r.connected.neighbours c.keccak256 o.remoteId
        else none with
      | none => exact h
      | some nodes => exact h.request _ _ _
    | neighbours =>
      simp only [handleNeighbours]
      rw [Prog.run_bind_ok (EStateM.run_get _)]
      by_cases hw : r.waiting o.remoteId = []
      · rw [if_pos (by rw [hw]; rfl), if_neg (by rw [h.findNode]; exact fun hne => hne hw)]
        exact h
      · rw [if_neg (by simpa using hw), if_pos ((h.findNode _).2 hw)]
        refine agrees_decoder fun message => ?_
        exact ⟨by rw [h.connected]; rfl, h.egressRequests, h.nodup, h.pings, h.findNode⟩

/-- **The router is that of the node**: it fails when the node's fails, and keeps the abstraction otherwise. -/
theorem ingress_refines (h : r.Abstracts n) :
    Agrees r ((ingress c sk addr buf).run r) (n.receive c sk addr buf) := by
  by_cases hip : addr.ip.isIpv6
  · rw [ingress, if_pos hip, Node.receive, if_pos hip]
    exact ⟨rfl, rfl⟩
  rw [run_ingress (Bool.not_eq_true _ ▸ hip), Node.receive, if_neg hip]
  cases ho : openDatagram c buf with
  | error e => exact ⟨rfl, rfl⟩
  | ok o =>
    by_cases hid : o.remoteId = Node.ownId c sk
    · simpa [hid, bind, Except.bind, pure, Except.pure, Agrees] using h
    · simp only [if_neg hid, bind, Except.bind]
      exact handle_agrees h o

end Router

end Discv4

end EthereumSentry
