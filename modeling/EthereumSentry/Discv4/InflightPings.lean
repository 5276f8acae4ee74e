import EthereumSentry.Discv4.Egress
import EthereumSentry.Discv4.EndpointProof
import EthereumSentry.Discv4.PacketSize

/-!
# Timeouts and callbacks of pings

A ping that is in flight waits for a pong that echoes its hash, or for its timeout. Two things that go wrong are not
undone. When the socket fails, the ping stays in flight without a timeout (`noOrphan_iff`). And a pong answers all pings
with the hash that it echoes, whoever has signed it and whomever the pings were for (`pongs_matched`).
-/

set_option autoImplicit false

namespace EthereumSentry

namespace Discv4

namespace Routers

section

variable (c : Crates) (sk : c.SecretKey)

/-- Between two requests, what is in flight has a timeout, and its callbacks no longer wait once this has run. -/
def NoOrphan (s : Routers) : Prop := s.egress = .idle → ∀ hash cbs, s.router.inflightPingRequests hash = some cbs →
  ∃ peer, (hash, peer) ∈ s.timers ∧ ∀ es s', Runs.run (step c sk) s es = some s' → .timeout hash peer ∈ es →
    ∀ cb ∈ cbs, ∀ hash', cb ∉ (s'.router.inflightPingRequests hash').getD []

/-- The socket fails to take a ping, which is in flight and has no timeout of an earlier datagram. -/
def Orphans (s : Routers) : Event → Prop
  | .socket false => ∃ addr datagram hash peer, s.egress = .sending addr datagram (some (hash, peer)) ∧
    (s.router.inflightPingRequests hash).isSome ∧ ∀ peer', (hash, peer') ∉ s.timers
  | _ => False

/-- A callback is fired by a pong of the node that was asked for, that echoes a datagram to this node which has not timed
out. -/
def FiresMatched (s : Routers) (e : Event) : Prop := ∀ s', s.step c sk e = some s' → ∀ cb ∈ s'.router.ponged,
  cb ∉ s.router.ponged → ∃ addr datagram peer hash, e = .receive addr datagram ∧
    pongOf c sk addr (datagram.take maxPacketSize) = some (peer, hash) ∧ s.asked[cb]? = some peer ∧
    ((hash, peer) ∈ s.timers ∨ s.egress.ping = some (hash, peer))

/-- A ping is for the node that its hash is in flight for. -/
def Joins (s : Routers) (peer : NodeId) (message : EgressMessage) : Prop :=
  peer ≠ Node.ownId c sk → message.messageId = .ping →
    (s.router.inflightPingRequests (message.hash c sk)).isSome → s.receiver (message.hash c sk) = some peer

/-- Nothing but the receiver of a ping shares its hash, and nobody else answers it. -/
def Agrees (s : Routers) : Event → Prop
  | .ping _ peer message => Joins c sk s peer (.ping message)
  | .request _ peer message => Joins c sk s peer message
  | .socket false => ∀ addr datagram hash peer, s.egress = .sending addr datagram (some (hash, peer)) →
    (s.router.inflightPingRequests hash).isSome → (hash, peer) ∈ s.timers
  | .receive addr datagram => ∀ signer echo, pongOf c sk addr (datagram.take maxPacketSize) = some (signer, echo) →
    (s.router.inflightPingRequests echo).isSome → s.receiver echo = some signer
  | _ => True

end

variable {c : Crates} {sk : c.SecretKey} {s s' : Routers}

/-! ## Timeouts -/

theorem new_sound (c : Crates) (sk : c.SecretKey) (bootstrapNodes : List NodeRecord) (nodeEndpoint : Endpoint) :
    (new c sk bootstrapNodes nodeEndpoint).pings.Sound := by
  constructor <;> simp [new, pings, Inflight.State.Waits, Router.ponged]

theorem step_sound (s : Routers) (e : Event) (s' : Routers) (hs : s.pings.Sound) (h : s.step c sk e = some s') :
    s'.pings.Sound :=
  Inflight.State.step_sound _ _ _ hs (pings_step h)

/-- **A timeout ends the wait** of the callbacks of its hash, for good. -/
theorem settled_of_run {cb : Callback} {hash : H256} {peer : NodeId} (hs : s.pings.Within cb (· = hash))
    {es : List Event} (h : Runs.run (step c sk) s es = some s') (ht : .timeout hash peer ∈ es) (hash' : H256) :
    cb ∉ (s'.router.inflightPingRequests hash').getD [] := by
  have hwithin : ∀ {K : H256 → Prop} (es : List Event) {s s' : Routers}, s.pings.Within cb K →
      Runs.run (step c sk) s es = some s' → s'.pings.Within cb K := fun es => Runs.invariant
    (fun _ _ _ hs h => Inflight.State.step_within hs (pings_step h)) es
  obtain ⟨before, after, rfl⟩ := List.append_of_mem ht
  rw [Runs.run_append] at h
  obtain ⟨s₁, h₁, h⟩ := Option.bind_eq_some_iff.1 h
  obtain ⟨s₂, h₂, h⟩ := Option.bind_eq_some_iff.1 h
  have hs₁ := hwithin before hs h₁
  have hs₂ := Inflight.State.step_expire hs₁ (pings_step h₂)
  exact (hwithin after hs₂ h).2 hash'

theorem noOrphan_of_timed (hs : s.pings.Sound) (ht : s.pings.Timed) : s.NoOrphan c sk := by
  intro hidle hash cbs hcbs
  have hwaiting : s.pings.waiting hash = some cbs := hcbs
  obtain ⟨peer, hpeer | hpeer⟩ := ht hash (by rw [hwaiting, Option.isSome_some])
  · refine ⟨peer, hpeer, fun es s' h hmem cb hcb => settled_of_run (hs.within ?_) h hmem⟩
    rwa [Inflight.State.Waits, hwaiting, Option.getD_some]
  · rw [pings, hidle] at hpeer
    cases hpeer

theorem askAct_cases (c : Crates) (sk : c.SecretKey) (peer : NodeId) (message : EgressMessage) (callback : Bool) :
    askAct c sk peer message callback = .ask (message.hash c sk) peer callback ∨
      askAct c sk peer message callback = .drop peer ∨ askAct c sk peer message callback = .skip := by
  unfold askAct
  split
  · exact .inl rfl
  · split
    · exact .inr (.inl rfl)
    · exact .inr (.inr rfl)

/-- Which steps fail to send, give up a ping, or answer one. -/
theorem act_spec (c : Crates) (sk : c.SecretKey) (e : Event) : match act c sk e with
    | .fail => e = .socket false
    | .expire hash peer => e = .timeout hash peer
    | .answer hash => ∃ addr datagram signer, e = .receive addr datagram ∧
        pongOf c sk addr (datagram.take maxPacketSize) = some (signer, hash)
    | _ => True := by
  cases e with
  | ping addr peer message => rcases askAct_cases c sk peer (.ping message) true with h | h | h <;> simp only [act, h]
  | request addr peer message => rcases askAct_cases c sk peer message false with h | h | h <;> simp only [act, h]
  | socket sent => cases sent <;> trivial
  | spawn | change => trivial
  | timeout hash peer => rfl
  | receive addr datagram =>
    cases hp : pongOf c sk addr (datagram.take maxPacketSize) with
    | none => simp only [act, hp]
    | some p =>
      simp only [act, hp]
      exact ⟨addr, datagram, p.1, rfl, hp⟩

theorem eq_socket_of_act {e : Event} (h : act c sk e = .fail) : e = .socket false := by
  have hspec := act_spec c sk e
  rwa [h] at hspec

theorem step_fail {addr : SocketAddr} {datagram : Bytes} {trigger : Option (H256 × NodeId)}
    (h : s.egress = .sending addr datagram trigger) : s.step c sk (.socket false) = some { s with egress := .idle } := by
  simp only [step, h]

theorem step_socket_false (h : s.step c sk (.socket false) = some s') :
    ∃ addr datagram trigger, s.egress = .sending addr datagram trigger ∧ s' = { s with egress := .idle } := by
  cases hsending : s.egress with
  | sending addr datagram trigger =>
    simp only [step, hsending] at h
    cases h
    exact ⟨addr, datagram, trigger, rfl, rfl⟩
  | idle | sent hash peer => simp [step, hsending] at h

/-- Timeouts are kept by the steps that do not orphan a ping. -/
theorem timed_step_iff (s : Routers) (e : Event) (ht : s.pings.Timed) :
    (∀ s', s.step c sk e = some s' → s'.pings.Timed) ↔ ¬s.Orphans e := by
  by_cases he : e = .socket false
  · subst he
    constructor
    · rintro h ⟨addr, datagram, hash, peer, hsending, hsome, hnone⟩
      have hstep : s.step c sk (.socket false) = _ := step_fail hsending
      obtain ⟨peer', hpeer' | hpeer'⟩ := h _ hstep hash hsome
      · exact hnone peer' hpeer'
      · cases hpeer'
    · intro h s' hs
      obtain ⟨addr, datagram, trigger, hsending, rfl⟩ := step_socket_false hs
      refine (Inflight.State.timed_step ht (pings_step hs)).2 fun hash peer hbusy hsome => ?_
      by_contra hnone
      rw [pings, hsending] at hbusy
      exact h ⟨addr, datagram, hash, peer, by rw [hsending]; exact congrArg _ hbusy, hsome, not_exists.1 hnone⟩
  · refine iff_of_true (fun s' hs => ?_) fun ho => ?_
    · exact (Inflight.State.timed_step ht (pings_step hs)).2
        (Inflight.State.rescued_of_ne fun ha => he (eq_socket_of_act ha))
    · cases e with
      | socket sent =>
        cases sent with
        | true => exact ho
        | false => exact he rfl
      | ping | request | spawn | timeout | receive | change => exact ho

/-- A state without orphans that comes after one with timeouts has timeouts. -/
theorem timed_of_noOrphan {e : Event} (ht : s.pings.Timed) (hs : s.step c sk e = some s')
    (h : s'.NoOrphan c sk) : s'.pings.Timed := by
  by_cases he : e = .socket false
  · subst he
    obtain ⟨addr, datagram, trigger, -, rfl⟩ := step_socket_false hs
    intro hash hsome
    obtain ⟨cbs, hcbs⟩ := Option.isSome_iff_exists.1 hsome
    obtain ⟨peer, hpeer, -⟩ := h rfl hash cbs hcbs
    exact ⟨peer, .inl hpeer⟩
  · exact (Inflight.State.timed_step ht (pings_step hs)).2
      (Inflight.State.rescued_of_ne fun ha => he (eq_socket_of_act ha))

/-- **No orphaned pings**: between any two requests of a run, what is in flight has a timeout that ends the wait of its
callbacks, exactly when the socket never fails to take a ping that is in flight then without a timeout. -/
theorem noOrphan_iff (c : Crates) (sk : c.SecretKey) (bootstrapNodes : List NodeRecord) (nodeEndpoint : Endpoint)
    (es : List Event) : Runs.Always (step c sk) (NoOrphan c sk) (new c sk bootstrapNodes nodeEndpoint) es ↔
      Runs.Along (step c sk) (fun s e => ¬s.Orphans e) (new c sk bootstrapNodes nodeEndpoint) es := by
  have ht : (new c sk bootstrapNodes nodeEndpoint).pings.Timed := fun hash h => by cases h
  have hs := new_sound c sk bootstrapNodes nodeEndpoint
  rw [← Runs.always_iff_along step_sound (fun s e _ ht => timed_step_iff s e ht) es hs ht]
  constructor
  · exact Runs.Always.carry (fun s e s' ht hs h => timed_of_noOrphan ht hs h) ht
  · intro h
    have hstep : ∀ (s : Routers) e s', s.pings.Sound ∧ s.NoOrphan c sk → s.step c sk e = some s' → s'.pings.Timed →
        s'.pings.Sound ∧ s'.NoOrphan c sk := fun s e s' hs hstep ht =>
      ⟨step_sound s e s' hs.1 hstep, noOrphan_of_timed (step_sound s e s' hs.1 hstep) ht⟩
    exact (Runs.Always.carry hstep ⟨hs, noOrphan_of_timed hs ht⟩ h).mono fun s hs => hs.2

/-! ## Callbacks -/

theorem agrees_askAct {peer : NodeId} {message : EgressMessage} {callback : Bool} (h : s.Joins c sk peer message) :
    s.pings.Agrees (askAct c sk peer message callback) := by
  unfold askAct
  split
  · rename_i hask
    exact h hask.1 hask.2
  · split <;> trivial

/-- The steps that agree do so for the requests in flight. -/
theorem agrees_act {e : Event} (ha : s.Agrees c sk e) (h : s.step c sk e = some s') : s.pings.Agrees (act c sk e) := by
  cases e with
  | ping addr peer message => exact agrees_askAct ha
  | request addr peer message => exact agrees_askAct ha
  | socket sent =>
    cases sent with
    | true => trivial
    | false =>
      obtain ⟨addr, datagram, trigger, hsending, -⟩ := step_socket_false h
      intro hash peer hbusy hsome
      rw [pings, hsending] at hbusy
      exact ha addr datagram hash peer (hsending.trans (congrArg _ hbusy)) hsome
  | receive addr datagram =>
    simp only [act]
    split <;> trivial
  | spawn | timeout | change => trivial

theorem firesMatched_of_agrees {e : Event} (hs : s.pings.Matched) (ha : s.Agrees c sk e) : s.FiresMatched c sk e := by
  intro s' hstep cb hcb hnot
  rcases Inflight.State.fired_of_step (pings_step hstep) with hf | ⟨hash, hact, hf, -⟩
  · exact absurd (hf ▸ hcb : cb ∈ s.pings.fired) hnot
  · have hspec := act_spec c sk e
    rw [hact] at hspec
    obtain ⟨addr, datagram, signer, rfl, hp⟩ := hspec
    have hcb' : cb ∈ s.pings.fired ++ (s.pings.waiting hash).getD [] := hf ▸ hcb
    have hwaits := (List.mem_append.1 hcb').resolve_left hnot
    cases hw : s.pings.waiting hash with
    | none => simp [hw] at hwaits
    | some cbs =>
      rw [hw, Option.getD_some] at hwaits
      obtain ⟨peer, hr, ho, hcbs⟩ := hs hash cbs hw
      have hsome : (s.router.inflightPingRequests hash).isSome := Option.isSome_of_eq_some hw
      obtain rfl : peer = signer := Option.some.inj (hr.symm.trans (ha signer hash hp hsome))
      exact ⟨addr, datagram, peer, hash, rfl, hp, hcbs cb hwaits, ho⟩

/-- **Pongs are matched.** In a run in which pings share a hash only with pings of the same node, in which a pong that
echoes a hash in flight is signed by this node, and in which a ping that fails to be sent has been sent before, every
callback is fired by a pong of the node that was asked for, in time. In every run it is fired once at most. -/
theorem pongs_matched (c : Crates) (sk : c.SecretKey) (bootstrapNodes : List NodeRecord) (nodeEndpoint : Endpoint)
    (es : List Event) (ha : Runs.Along (step c sk) (Agrees c sk) (new c sk bootstrapNodes nodeEndpoint) es) :
    Runs.Along (step c sk) (FiresMatched c sk) (new c sk bootstrapNodes nodeEndpoint) es ∧
      ∀ s, Runs.run (step c sk) (new c sk bootstrapNodes nodeEndpoint) es = some s → s.router.ponged.Nodup := by
  have hstep : ∀ (s : Routers) e s', s.pings.Matched → s.Agrees c sk e → s.step c sk e = some s' → s'.pings.Matched :=
    fun s e s' hs ha h => Inflight.State.matched_step hs (agrees_act ha h) (pings_step h)
  refine ⟨Runs.Along.carry hstep (fun s e hs ha => firesMatched_of_agrees hs ha) (fun hash cbs h => ?_) ha,
    fun s h => ?_⟩
  · cases h
  · exact (Runs.invariant step_sound es (new_sound c sk bootstrapNodes nodeEndpoint) h).firedNodup

variable (c sk) in
/-- The ping is registered, and handed to the socket. -/
structure Registers (s : Routers) (addr : SocketAddr) (peer : NodeId) (message : EgressMessage) (s' : Routers) :
    Prop where
  egress : s'.egress = .sending addr (message.datagram c sk) (some (message.hash c sk, peer))
  timers : s'.timers = s.timers
  asked : s'.asked = s.asked ++ [peer]
  inflight : s'.router.inflightPingRequests (message.hash c sk) = some [s.asked.length]
  receiver : s'.receiver (message.hash c sk) = some peer
  ponged : s'.router.ponged = s.router.ponged

theorem step_ping (hidle : s.egress = .idle) (addr : SocketAddr) {peer : NodeId} (message : PingMessage)
    (hpeer : peer ≠ Node.ownId c sk)
    (hnew : s.router.inflightPingRequests ((EgressMessage.ping message).hash c sk) = none) :
    ∃ s', s.step c sk (.ping addr peer message) = some s' ∧ s.Registers c sk addr peer (.ping message) s' := by
  have hping : (EgressMessage.ping message).messageId = .ping := rfl
  refine ⟨_, if_pos hidle, ?_⟩
  constructor <;> simp [serve, hpeer, hping, hnew, Router.ponged]

theorem step_sent {addr : SocketAddr} {datagram : Bytes} {hash : H256} {peer : NodeId}
    (h : s.egress = .sending addr datagram (some (hash, peer))) :
    s.step c sk (.socket true) = some { s with egress := .sent hash peer } := by
  simp only [step, h]

theorem step_spawn {hash : H256} {peer : NodeId} (h : s.egress = .sent hash peer) :
    s.step c sk .spawn = some { s with egress := .idle, timers := s.timers ++ [(hash, peer)] } := by
  simp only [step, h]

/-- A pong fires the callbacks of the ping that it echoes. -/
theorem step_pong {addr : SocketAddr} {datagram : Bytes} {signer : NodeId} {echo : H256} {cbs : List Callback}
    (h : pongOf c sk addr (datagram.take maxPacketSize) = some (signer, echo))
    (hcbs : s.router.inflightPingRequests echo = some cbs) :
    ∃ s', s.step c sk (.receive addr datagram) = some s' ∧ s'.router.ponged = s.router.ponged ++ cbs := by
  refine ⟨_, rfl, (Router.answersPing_of_pongOf h s.router).2.trans ?_⟩
  rw [hcbs, Option.getD_some]

/-- The pong of another node is handled. -/
theorem pongOf_datagram (hc : c.SecpLaws) (hr : c.rlp.Lawful) (hl : c.rlp.ListLaws) (hR : c.rlp.SizeLaws)
    (sk sk' : c.SecretKey) (addr : SocketAddr) (m : PongMessage) (hip : addr.ip.isIpv6 = false)
    (hid : Node.ownId c sk' ≠ Node.ownId c sk) :
    pongOf c sk addr (((EgressMessage.pong m).datagram c sk').take maxPacketSize) =
      some (Node.ownId c sk', m.echo) := by
  have hlen : (m.encode c.rlp).length ≤ 68 := length_encode_pong_le hR m
  have harrives : Arrives c sk' (.pong m) := (arrives_iff_length hc sk' _).2 (length_pong_datagram_le hR sk' m)
  have htyp : MessageId.fromU8 (EgressMessage.pong m).messageId.toU8 = some .pong := MessageId.fromU8_toU8 .pong
  have hd : PongMessage.decode c.rlp ((EgressMessage.pong m).encode c.rlp) = .ok m :=
    PongMessage.decode_encode hr hl (by omega)
  rw [pongOf, harrives.opened]
  simp [hip, hid, htyp, hd, Except.toOption]

/-! ## Pings that go wrong -/

section Example

open Software

/-- The node pings another one, and the socket fails. -/
def failToPing : List Event := [.ping sampleAddr (Node.ownId crates serverKey) ⟨sampleEndpoint, sampleEndpoint, 1⟩,
  .socket false]

theorem serverId_ne : Node.ownId crates serverKey ≠ Node.ownId crates clientKey := by
  decide +kernel

theorem start_idle : (new crates clientKey [] sampleEndpoint).egress = .idle := rfl

/-- The ping is in flight and has no timeout. -/
theorem ping_orphaned : ¬∀ es, Runs.Always (step crates clientKey) (NoOrphan crates clientKey)
    (new crates clientKey [] sampleEndpoint) es := by
  intro h
  obtain ⟨s₁, h₁, hping⟩ := step_ping start_idle sampleAddr ⟨sampleEndpoint, sampleEndpoint, 1⟩ serverId_ne rfl
  have hfailed := ((h failToPing).2 s₁ h₁).2 _ (step_fail hping.egress)
  obtain ⟨peer, hpeer, -⟩ := hfailed rfl _ _ hping.inflight
  rw [hping.timers] at hpeer
  exact absurd hpeer List.not_mem_nil

/-- A pong that echoes the ping. -/
def samplePong : EgressMessage := .pong ⟨sampleEndpoint, samplePing.hash crates clientKey, 1⟩

theorem pongOf_sample {signer : crates.SecretKey} (h : Node.ownId crates signer ≠ Node.ownId crates clientKey) :
    pongOf crates clientKey sampleAddr ((samplePong.datagram crates signer).take maxPacketSize) =
      some (Node.ownId crates signer, samplePing.hash crates clientKey) :=
  pongOf_datagram secpLaws Rlp.standard_lawful Rlp.standard_listLaws Rlp.standard_sizeLaws clientKey signer sampleAddr
    ⟨sampleEndpoint, samplePing.hash crates clientKey, 1⟩ rfl h

/-- The node pings another one, and a node answers with a pong. -/
def pingAndAnswer (signer : crates.SecretKey) : List Event :=
  [.ping sampleAddr (Node.ownId crates serverKey) ⟨sampleEndpoint, sampleEndpoint, 1⟩, .socket true, .spawn,
    .receive sampleAddr (samplePong.datagram crates signer)]

/-- The routers that wait for the answer. -/
theorem exists_pinged : ∃ s₁ s₂ s, step crates clientKey (new crates clientKey [] sampleEndpoint)
      (.ping sampleAddr (Node.ownId crates serverKey) ⟨sampleEndpoint, sampleEndpoint, 1⟩) = some s₁ ∧
    step crates clientKey s₁ (.socket true) = some s₂ ∧ step crates clientKey s₂ .spawn = some s ∧
    s.asked = [Node.ownId crates serverKey] ∧
    s.receiver (samplePing.hash crates clientKey) = some (Node.ownId crates serverKey) ∧
    s.router.inflightPingRequests (samplePing.hash crates clientKey) = some [0] ∧ s.router.ponged = [] := by
  obtain ⟨s₁, h₁, hping⟩ := step_ping start_idle sampleAddr ⟨sampleEndpoint, sampleEndpoint, 1⟩ serverId_ne rfl
  exact ⟨s₁, _, _, h₁, step_sent hping.egress, step_spawn rfl, hping.asked, hping.receiver, hping.inflight, hping.ponged⟩

/-- The pong of the node that was pinged. -/
theorem answer_matched : Runs.Along (step crates clientKey) (FiresMatched crates clientKey)
      (new crates clientKey [] sampleEndpoint) (pingAndAnswer serverKey) ∧
    ∀ s, Runs.run (step crates clientKey) (new crates clientKey [] sampleEndpoint) (pingAndAnswer serverKey) = some s →
      s.router.ponged.Nodup := by
  refine pongs_matched crates clientKey [] sampleEndpoint (pingAndAnswer serverKey) ?_
  obtain ⟨s₁, s₂, s, h₁, h₂, h₃, -, hreceiver, -⟩ := exists_pinged
  refine ⟨fun _ _ hsome => (by cases hsome), fun s₁' h₁' => ⟨trivial, fun s₂' h₂' => ⟨trivial, fun s₃' h₃' => ⟨?_, ?_⟩⟩⟩⟩
  · obtain rfl := Option.some.inj (h₁.symm.trans h₁')
    obtain rfl := Option.some.inj (h₂.symm.trans h₂')
    obtain rfl := Option.some.inj (h₃.symm.trans h₃')
    intro signer echo hp _
    cases (pongOf_sample serverId_ne).symm.trans hp
    exact hreceiver
  · exact fun _ _ => trivial

/-- The pong of a stranger fires the callback. -/
theorem pong_of_stranger : ¬∀ es, Runs.Along (step crates clientKey) (FiresMatched crates clientKey)
    (new crates clientKey [] sampleEndpoint) es := by
  intro h
  obtain ⟨s₁, s₂, s, h₁, h₂, h₃, hasked, -, hinflight, hponged⟩ := exists_pinged
  have hfires := (((h (pingAndAnswer clientEphemeralKey)).2 s₁ h₁).2 s₂ h₂).2 s h₃ |>.1
  have hstranger : Node.ownId crates clientEphemeralKey ≠ Node.ownId crates clientKey := by decide +kernel
  have hpong := pongOf_sample hstranger
  obtain ⟨s', h', hfired⟩ := step_pong hpong hinflight
  obtain ⟨addr, datagram, peer, hash, he, hp, hcb, -⟩ := hfires s' h' 0 (by simp [hfired]) (by simp [hponged])
  obtain ⟨rfl, rfl⟩ := Event.receive.inj he
  obtain ⟨rfl, rfl⟩ := Prod.mk.inj (Option.some.inj (hpong.symm.trans hp))
  rw [hasked] at hcb
  have hids : Node.ownId crates serverKey ≠ Node.ownId crates clientEphemeralKey := by decide +kernel
  exact hids (Option.some.inj hcb)

end Example

end Routers

end Discv4

end EthereumSentry
