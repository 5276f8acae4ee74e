import EthereumSentry.Sentry.Grpc
import EthereumSentry.Swarm.Keepalive
import EthereumSentry.Swarm.Outbound

/-!
# The sentry service

`src/src/services/sentry.rs`: the calls of the gRPC service over a swarm and its outboxes. A call goes through the peers
that its request asks for and has a future for each of them, which looks up the sender of the peer and awaits room in
the channel. The futures run side by side with each other, with those of other calls, and with the swarm, in any order,
and a call may be dropped in the middle.

`sent_exactly` says what the answer of a call means in any run: it names, once, exactly those peers for which a channel
has accepted the event of the call, in one place. The event is there behind what the sink has got before it.
-/

set_option autoImplicit false

namespace EthereumSentry

open Function (update)

variable {k : ForkCrates}

/-- How far the future of a send has come. -/
inductive SendState where
  | created
  /-- It has the sender of a session, and awaits room. -/
  | sending (session : Nat)
  /-- It has returned the peer. -/
  | sent (session : Nat)
  /-- It has returned nothing, or it was dropped. -/
  | failed
  deriving DecidableEq

/-- What a call sends to one of its peers. -/
structure Send where
  call : Nat
  peer : PeerId
  event : OutboundEvent

/-- The future of a send. -/
structure SendFuture where
  send : Send
  state : SendState

/-- A call of the service. -/
structure ServiceCall where
  request : Request
  /-- The peers that it asks for. -/
  asked : List PeerId
  /-- The peers that its answer names so far. -/
  sentPeers : List PeerId
  dropped : Bool

structure SentryService (k : ForkCrates) where
  out : Outbound k
  calls : List ServiceCall
  sends : List SendFuture
  /-- The futures that hold the sends of a session, except for those of `on_peer_event`. -/
  owners : Nat → List (Option Nat)
  /-- The futures whose events the channel of a session has accepted. -/
  tags : Nat → List (Option Nat)

namespace SentryService

inductive Action (k : ForkCrates) where
  /-- A step of the swarm or of the egress routers, or one for a reply of `on_peer_event`. -/
  | out (a : Outbound.Action k)
  /-- A request comes in; the set of its peers is iterated over in some order. -/
  | request (request : Request) (order : List PeerId)
  /-- A future is polled for the first time, and looks up the sender. -/
  | poll (i : Nat)
  /-- The channel accepts the event of a future. -/
  | accept (i : Nat)
  /-- A future finds its channel closed, or is dropped with its call. -/
  | fail (i : Nat)
  /-- A call is dropped. -/
  | drop (call : Nat)

def new (k : ForkCrates) (maxPeers : Nat) : SentryService k := ⟨.new k maxPeers, [], [], fun _ => [], fun _ => []⟩

/-- The swarm and its outboxes take a step. A send that is new is of no future. -/
def adopt (s : SentryService k) (out : Outbound k) : SentryService k := { s with
  out := out
  owners := fun sid =>
    s.owners sid ++ List.replicate ((out.outboxes sid).sends.length - (s.owners sid).length) none }

/-- The channel of a session has accepted a send. -/
def accepted (s : SentryService k) (out : Outbound k) (sid i : Nat) (owner : Option Nat) : SentryService k := { s with
  out := out
  owners := update s.owners sid ((s.owners sid).eraseIdx i)
  tags := update s.tags sid (s.tags sid ++ [owner]) }

/-- A send of a session is no more. -/
def removed (s : SentryService k) (out : Outbound k) (sid i : Nat) : SentryService k := { s with
  out := out
  owners := update s.owners sid ((s.owners sid).eraseIdx i) }

/-- A future changes. -/
def setSend (s : SentryService k) (i : Nat) (f : SendFuture) (state : SendState) : SentryService k := { s with
  sends := s.sends.set i { f with state := state } }

/-- The answer of a call names one more peer. -/
def name (s : SentryService k) (call : Nat) (peer : PeerId) : SentryService k := { s with
  calls := s.calls.modify call fun c => { c with sentPeers := c.sentPeers ++ [peer] } }

/-- The call was dropped. -/
def isDropped (s : SentryService k) (call : Nat) : Bool := match s.calls[call]? with
  | some c => c.dropped
  | none => false

/-- A request comes in. The futures of its sends are created together. -/
def begin (s : SentryService k) (request : Request) (order : List PeerId) : SentryService k := match request.event with
  | some event => { s with
    calls := s.calls ++ [⟨request, request.asked order, [], false⟩]
    sends := s.sends ++ (request.asked order).map fun peer => ⟨⟨s.calls.length, peer, event⟩, .created⟩ }
  | none => { s with calls := s.calls ++ [⟨request, [], [], false⟩] }

/-- A future looks up the sender. -/
def lookup (s : SentryService k) (i : Nat) (f : SendFuture) : SentryService k :=
  match s.out.swarm.server.current f.send.peer with
  | some sid => { s.setSend i f (.sending sid) with
    out := s.out.lookup f.send.peer f.send.event
    owners := update s.owners sid (s.owners sid ++ [some i]) }
  | none => s.setSend i f .failed

/-- **A step** of the service, or of what is below it. -/
def step (s : SentryService k) : Action k → Option (SentryService k)
  | .out (.send _ _) => none
  | .out (.accept sid i) =>
    if (s.owners sid)[i]? = some none then
      (s.out.step (.accept sid i)).map fun out => s.accepted out sid i none
    else none
  | .out (.cancel sid i) =>
    if (s.owners sid)[i]? = some none then (s.out.step (.cancel sid i)).map fun out => s.removed out sid i else none
  | .out a => (s.out.step a).map s.adopt
  | .request request order => match s.out.swarm.server.targets request with
    | some peers => if order.Nodup ∧ order.toFinset = peers then some (s.begin request order) else none
    -- the answer is an error
    | none => some s
  | .poll i => s.sends[i]?.bind fun f =>
    if f.state = .created ∧ s.isDropped f.send.call = false then some (s.lookup i f) else none
  | .accept i => s.sends[i]?.bind fun f => match f.state with
    | .sending sid =>
      if s.isDropped f.send.call then none
      else (s.out.step (.accept sid ((s.owners sid).idxOf (some i)))).map fun out =>
        ((s.accepted out sid ((s.owners sid).idxOf (some i)) (some i)).setSend i f (.sent sid)).name
          f.send.call f.send.peer
    | _ => none
  | .fail i => s.sends[i]?.bind fun f => match f.state with
    | .sending sid =>
      if s.isDropped f.send.call ∨ (s.out.hasPipes sid = false ∧ (s.out.outboxes sid).next ≠ .awaiting sid) then
        (s.out.step (.cancel sid ((s.owners sid).idxOf (some i)))).map fun out =>
          (s.removed out sid ((s.owners sid).idxOf (some i))).setSend i f .failed
      else none
    | _ => none
  | .drop call => some { s with calls := s.calls.modify call fun c => { c with dropped := true } }

def stateOf (s : SentryService k) (i : Nat) : Option SendState := s.sends[i]?.map SendFuture.state

def sendOf (s : SentryService k) (i : Nat) : Option Send := s.sends[i]?.map SendFuture.send

/-- **The sends are accounted for**: a future that is sending owns one send of its session, one that has sent has its
event in one place of its channel, and otherwise it has neither. -/
structure Sound (s : SentryService k) : Prop where
  out : s.out.Sound
  owned : ∀ i sid, (s.owners sid).count (some i) = if s.stateOf i = some (.sending sid) then 1 else 0
  tagged : ∀ i sid, (s.tags sid).count (some i) = if s.stateOf i = some (.sent sid) then 1 else 0
  owns : ∀ sid, Labelled (fun i => (s.sendOf i).map Send.event) (s.owners sid) (s.out.outboxes sid).sends
  tags : ∀ sid, Labelled (fun i => (s.sendOf i).map Send.event) (s.tags sid) (s.out.outboxes sid).line.accepted
  peers : ∀ i sid, s.stateOf i = some (.sending sid) ∨ s.stateOf i = some (.sent sid) →
    s.out.swarm.sessions[sid]?.map Session.peer = (s.sendOf i).map Send.peer

/-- **The answers name those that were sent to.** -/
structure Answers (s : SentryService k) : Prop where
  asked : ∀ (c : Nat) call, s.calls[c]? = some call → ∀ p, p ∈ call.asked ↔
    ∃ i x, s.sendOf i = some x ∧ x.call = c ∧ x.peer = p
  event : ∀ i x, s.sendOf i = some x → ∃ call, s.calls[x.call]? = some call ∧ call.request.event = some x.event
  distinct : ∀ i j x y, s.sendOf i = some x → s.sendOf j = some y → x.call = y.call → x.peer = y.peer → i = j
  named : ∀ (c : Nat) call, s.calls[c]? = some call → ∀ p, p ∈ call.sentPeers ↔
    ∃ i x sid, s.sendOf i = some x ∧ x.call = c ∧ x.peer = p ∧ s.stateOf i = some (.sent sid)
  nodup : ∀ (c : Nat) call, s.calls[c]? = some call → call.sentPeers.Nodup

variable {s s' : SentryService k}

/-! ## The outboxes below -/

/-- What a step below does to the sends of an outbox and to what its channel has accepted. -/
inductive Below (o o' : Outbox) : Prop
  | same (hs : o'.sends = o.sends) (ha : o'.line.accepted = o.line.accepted)
  | asked (event : OutboundEvent) (hs : o'.sends = o.sends ++ [event]) (ha : o'.line.accepted = o.line.accepted)

theorem below_lookup (o : Outbound k) (peer : PeerId) (event : OutboundEvent) (sid : Nat) :
    Below (o.outboxes sid) ((o.lookup peer event).outboxes sid) := by
  unfold Outbound.lookup
  split
  · rename_i sid' hc
    by_cases hsid : sid = sid'
    · subst hsid
      exact .asked event (by simp [Outbound.set]) (by simp [Outbound.set])
    · exact .same (by simp [Outbound.set, hsid]) (by simp [Outbound.set, hsid])
  · exact .same rfl rfl

/-- A step of the swarm, or of an egress router. -/
theorem below_step {o o' : Outbound k} (ho : o.Sound) {a : Outbound.Action k} (h : o.step a = some o')
    (ha : ∀ sid i, a ≠ .accept sid i) (hc : ∀ sid i, a ≠ .cancel sid i) (sid : Nat) :
    Below (o.outboxes sid) (o'.outboxes sid) := by
  have hset : ∀ (sid' : Nat) (x : Outbox), x.sends = (o.outboxes sid').sends →
      x.line.accepted = (o.outboxes sid').line.accepted → Below (o.outboxes sid) ((o.set sid' x).outboxes sid) := by
    intro sid' x hs ha
    by_cases hsid : sid = sid'
    · subst hsid
      exact .same (by simpa [Outbound.set] using hs) (by simpa [Outbound.set] using ha)
    · exact .same (by simp [Outbound.set, hsid]) (by simp [Outbound.set, hsid])
  cases a with
  | swarm e =>
    simp only [Outbound.step] at h
    split at h
    · cases h
    · obtain ⟨t, -, rfl⟩ := Option.map_eq_some_iff.1 h
      show Below (o.outboxes sid) ((o.carry e).outboxes sid)
      unfold Outbound.carry
      split
      · split
        · exact hset _ _ rfl rfl
        · rename_i peer sid' attempt firstEvents hu
          -- the channel is new, and nothing was sent to it before
          have hun := ho.unused sid' (.inr ⟨_, hu, rfl, rfl⟩)
          exact hset _ _ rfl (by rw [hun.line]; rfl)
        · exact .same rfl rfl
      · split
        · split
          · exact below_lookup ..
          · exact .same rfl rfl
        · exact .same rfl rfl
      · exact .same rfl rfl
  | send peer event =>
    cases h
    exact below_lookup ..
  | accept sid i => exact absurd rfl (ha sid i)
  | cancel sid i => exact absurd rfl (hc sid i)
  | poll sid' =>
    obtain ⟨x, -, h⟩ := Option.bind_eq_some_iff.1 h
    split at h
    · obtain ⟨_, -, rfl⟩ := Option.map_eq_some_iff.1 h
      exact hset _ _ rfl rfl
    · cases h
  | next sid' =>
    simp only [Outbound.step] at h
    split at h
    · rename_i sid'' hn
      obtain rfl := (ho.outbox sid').own sid'' hn
      obtain ⟨⟨event, t⟩, hpoll, h⟩ := Option.bind_eq_some_iff.1 h
      obtain ⟨u, hstep, rfl⟩ := Option.map_eq_some_iff.1 h
      obtain ⟨x, d, hx, he, -⟩ := Swarm.step_event hstep
      obtain ⟨line, htake, rfl⟩ := ho.pollStream hx he hpoll
      obtain ⟨-, hacc, -⟩ := Line.take_eq_some htake
      have hhand : ((o.set sid'' { o.outboxes sid'' with line := line }).hand sid'' event).outboxes =
          (o.set sid'' { o.outboxes sid'' with
            line := line
            handed := (o.outboxes sid'').handed ++ [event]
            next := if event.isDisconnect then .completed else .created }).outboxes := by
        simp [Outbound.hand, Outbound.set]
      show Below (o.outboxes sid) (((o.set sid'' { o.outboxes sid'' with line := line }).hand sid'' event).outboxes sid)
      rw [hhand]
      exact hset _ _ rfl hacc
    · cases h

/-- The peer of a session stays. -/
theorem peer_of_step {o o' : Outbound k} {a : Outbound.Action k} (h : o.step a = some o') {sid : Nat} {p : PeerId}
    (hp : o.swarm.sessions[sid]?.map Session.peer = some p) : o'.swarm.sessions[sid]?.map Session.peer = some p := by
  have hswarm : ∀ {e : Event k} {t : Swarm k}, o.swarm.step e = some t →
      t.sessions[sid]?.map Session.peer = some p := by
    intro e t ht
    obtain ⟨x, hx, hpeer⟩ := Option.map_eq_some_iff.1 hp
    obtain ⟨x', hx', hshift⟩ := Swarm.step_shifts ht hx
    rw [hx', Option.map_some, ← hpeer]
    cases hshift with
    | same | spawnIngress | spawnEgress | spawnPinger | handled | left => rfl
    | task _ hact =>
      cases hact with
      | receive received => cases received <;> rfl
      | _ => rfl
  cases a with
  | swarm e =>
    simp only [Outbound.step] at h
    split at h
    · cases h
    · obtain ⟨t, ht, rfl⟩ := Option.map_eq_some_iff.1 h
      exact hswarm ht
  | send peer event =>
    cases h
    rwa [Outbound.lookup_swarm]
  | accept sid' i =>
    obtain ⟨event, -, h⟩ := Option.bind_eq_some_iff.1 h
    split at h <;> cases h
    exact hp
  | cancel sid' i =>
    obtain ⟨event, -, rfl⟩ := Option.map_eq_some_iff.1 h
    exact hp
  | poll sid' =>
    obtain ⟨x, -, h⟩ := Option.bind_eq_some_iff.1 h
    split at h
    · obtain ⟨_, -, rfl⟩ := Option.map_eq_some_iff.1 h
      exact hp
    · cases h
  | next sid' =>
    simp only [Outbound.step] at h
    split at h
    · obtain ⟨⟨event, t⟩, -, h⟩ := Option.bind_eq_some_iff.1 h
      obtain ⟨u, hu, rfl⟩ := Option.map_eq_some_iff.1 h
      exact hswarm hu
    · cases h

/-! ## The sends are accounted for -/

variable {i : Nat} {f : SendFuture}

theorem sendOf_setSend (hf : s.sends[i]? = some f) (state : SendState) : (s.setSend i f state).sendOf = s.sendOf := by
  funext j
  rw [sendOf, sendOf, setSend, List.getElem?_set]
  split
  · rename_i hij
    subst hij
    rw [if_pos (List.getElem?_eq_some_iff.1 hf).1, hf]
    rfl
  · rfl

theorem stateOf_setSend (hf : s.sends[i]? = some f) (state : SendState) (j : Nat) :
    (s.setSend i f state).stateOf j = if j = i then some state else s.stateOf j := by
  rw [stateOf, stateOf, setSend, List.getElem?_set]
  by_cases hij : j = i
  · subst hij
    rw [if_pos rfl, if_pos (List.getElem?_eq_some_iff.1 hf).1, if_pos rfl]
    rfl
  · rw [if_neg (Ne.symm hij), if_neg hij]

theorem stateOf_eq (hf : s.sends[i]? = some f) : s.stateOf i = some f.state := by rw [stateOf, hf]; rfl

theorem sendOf_eq (hf : s.sends[i]? = some f) : s.sendOf i = some f.send := by rw [sendOf, hf]; rfl

/-- What owns a send is sending. -/
theorem Sound.sending (h : s.Sound) {sid j : Nat} (hj : (s.owners sid)[j]? = some (some i)) :
    s.stateOf i = some (.sending sid) := by
  have hpos := List.count_pos_iff.2 (List.mem_of_getElem? hj)
  rw [h.owned] at hpos
  by_contra hne
  rw [if_neg hne] at hpos
  exact absurd hpos (by decide)

/-- What is sending owns a send. -/
theorem Sound.getElem?_idxOf (h : s.Sound) {sid : Nat} (hs : s.stateOf i = some (.sending sid)) :
    (s.owners sid)[(s.owners sid).idxOf (some i)]? = some (some i) := by
  have hcount := h.owned i sid
  rw [if_pos hs] at hcount
  have hmem : some i ∈ s.owners sid := List.count_pos_iff.1 (by omega)
  rw [List.getElem?_eq_getElem (List.idxOf_lt_length_iff.2 hmem), List.getElem_idxOf]

/-- A step below in which no future takes part. -/
theorem Sound.adopt (h : s.Sound) {out : Outbound k} (hout : out.Sound)
    (hbelow : ∀ sid, Below (s.out.outboxes sid) (out.outboxes sid))
    (hpeer : ∀ (sid : Nat) p, s.out.swarm.sessions[sid]?.map Session.peer = some p →
      out.swarm.sessions[sid]?.map Session.peer = some p) : (s.adopt out).Sound := by
  have howners : ∀ sid, (s.adopt out).owners sid = s.owners sid ∧
      (out.outboxes sid).sends = (s.out.outboxes sid).sends ∨
      (s.adopt out).owners sid = s.owners sid ++ [none] ∧
        ∃ event, (out.outboxes sid).sends = (s.out.outboxes sid).sends ++ [event] := by
    intro sid
    have hlen := (h.owns sid).length_eq
    cases hbelow sid with
    | same hs => exact .inl ⟨by simp [SentryService.adopt, hs, hlen], hs⟩
    | asked event hs => exact .inr ⟨by simp [SentryService.adopt, hs, hlen], event, hs⟩
  refine ⟨hout, fun i sid => ?_, h.tagged, fun sid => ?_, fun sid => ?_, fun i sid hi => ?_⟩
  · have hcount := h.owned i sid
    rcases howners sid with ⟨ho, -⟩ | ⟨ho, -⟩
    · rw [ho]
      exact hcount
    · rw [ho, List.count_append, hcount]
      rfl
  · rcases howners sid with ⟨ho, hs⟩ | ⟨ho, event, hs⟩
    · rw [ho]
      exact hs ▸ h.owns sid
    · rw [ho]
      show Labelled _ _ (out.outboxes sid).sends
      rw [hs]
      exact (h.owns sid).snoc nofun
  · have haccepted : (out.outboxes sid).line.accepted = (s.out.outboxes sid).line.accepted := by
      cases hbelow sid with
      | same _ ha => exact ha
      | asked _ _ ha => exact ha
    exact (congrArg (Labelled _ _) haccepted).mpr (h.tags sid)
  · have hp := h.peers i sid hi
    obtain ⟨x, hx⟩ : ∃ x, s.sendOf i = some x := by
      rw [stateOf] at hi
      rw [sendOf]
      cases hf : s.sends[i]? with
      | none => simp [SentryService.adopt, hf] at hi
      | some f => exact ⟨f.send, rfl⟩
    rw [hx] at hp
    exact (hpeer sid _ hp).trans (congrArg (Option.map Send.peer) hx).symm

/-- The outbox of a session after its channel has accepted a send. -/
theorem accept_eq {out out' : Outbound k} {sid j : Nat} (h : out.step (.accept sid j) = some out') :
    ∃ event, (out.outboxes sid).sends[j]? = some event ∧ out' = out.set sid { out.outboxes sid with
      line := (out.outboxes sid).line.accept event
      sends := (out.outboxes sid).sends.eraseIdx j } := by
  obtain ⟨event, hevent, h⟩ := Option.bind_eq_some_iff.1 h
  split at h <;> cases h
  exact ⟨event, hevent, rfl⟩

/-- The outbox of a session without one of its sends. -/
theorem cancel_eq {out out' : Outbound k} {sid j : Nat} (h : out.step (.cancel sid j) = some out') :
    out' = out.set sid { out.outboxes sid with sends := (out.outboxes sid).sends.eraseIdx j } := by
  obtain ⟨_, -, rfl⟩ := Option.map_eq_some_iff.1 h
  rfl

/-- A session has one send less, and the future that owned it is not sending. -/
theorem Sound.count_erase (h : s.Sound) {sid j : Nat} {owner : Option Nat} (hj : (s.owners sid)[j]? = some owner)
    (state : SendState) (hne : ∀ sid, state ≠ .sending sid) (i sid' : Nat) :
    (update s.owners sid ((s.owners sid).eraseIdx j) sid').count (some i) =
      if (if owner = some i then some state else s.stateOf i) = some (.sending sid') then 1 else 0 := by
  have hcount := h.owned i sid'
  by_cases ho : owner = some i
  · have hsending := h.sending (ho ▸ hj)
    rw [if_pos ho, if_neg (by simpa using hne sid')]
    by_cases hsid : sid' = sid
    · subst hsid
      have herase := List.count_eraseIdx_add hj (some i)
      rw [hcount, if_pos hsending, ho] at herase
      rw [Function.update_self]
      simpa using herase
    · rw [Function.update_of_ne hsid, hcount, hsending, if_neg (by simpa using Ne.symm hsid)]
  · rw [if_neg ho, ← hcount]
    by_cases hsid : sid' = sid
    · subst hsid
      have herase := List.count_eraseIdx_add hj (some i)
      rw [Function.update_self]
      simpa [ho] using herase
    · rw [Function.update_of_ne hsid]

/-- A channel accepts a send, of a future or not. -/
theorem Sound.accepted (h : s.Sound) {out : Outbound k} {sid j : Nat} {owner : Option Nat}
    (hj : (s.owners sid)[j]? = some owner) (hstep : s.out.step (.accept sid j) = some out) {t : SentryService k}
    (hout : t.out = out) (howners : t.owners = update s.owners sid ((s.owners sid).eraseIdx j))
    (htags : t.tags = update s.tags sid (s.tags sid ++ [owner])) (hsend : t.sendOf = s.sendOf)
    (hstate : ∀ i, t.stateOf i = if owner = some i then some (.sent sid) else s.stateOf i) : t.Sound := by
  obtain ⟨event, hevent, hset⟩ := accept_eq hstep
  have hsending : ∀ i, owner = some i → s.stateOf i = some (.sending sid) := fun i hi => h.sending (hi ▸ hj)
  refine ⟨hout ▸ Outbound.step_sound _ _ _ h.out hstep, fun i sid' => ?_, fun i sid' => ?_, fun sid' => ?_,
    fun sid' => ?_, fun i sid' hi => ?_⟩
  · rw [howners, hstate]
    exact h.count_erase hj (.sent sid) nofun i sid'
  · have hcount := h.tagged i sid'
    rw [htags, hstate]
    by_cases hsid : sid' = sid
    · subst hsid
      rw [Function.update_self, List.count_append, hcount, List.count_singleton]
      by_cases ho : owner = some i
      · rw [if_pos ho, hsending i ho, ho]
        simp
      · simp [ho]
    · rw [Function.update_of_ne hsid, hcount]
      by_cases ho : owner = some i
      · rw [if_pos ho, hsending i ho, if_neg (by simp), if_neg (by simpa using Ne.symm hsid)]
      · rw [if_neg ho]
  · rw [howners, hsend, hout, hset]
    by_cases hsid : sid' = sid
    · subst hsid
      simpa [Outbound.set] using (h.owns sid').eraseIdx j
    · simpa [Outbound.set, hsid] using h.owns sid'
  · rw [htags, hsend, hout, hset]
    by_cases hsid : sid' = sid
    · subst hsid
      rw [Function.update_self]
      simp only [Outbound.set, Function.update_self, Line.accept]
      refine (h.tags sid').snoc fun i hi => ?_
      rw [← (h.owns sid').getElem? (hi ▸ hj), hevent]
    · simpa [Outbound.set, hsid] using h.tags sid'
  · rw [hsend, hout, hset]
    refine h.peers i sid' ?_
    rw [hstate] at hi
    split at hi
    · rename_i ho
      rcases hi with hi | hi <;> cases hi
      exact .inl (hsending i ho)
    · exact hi

/-- A send is no more. -/
theorem Sound.removed (h : s.Sound) {out : Outbound k} {sid j : Nat} {owner : Option Nat}
    (hj : (s.owners sid)[j]? = some owner) (hstep : s.out.step (.cancel sid j) = some out) {t : SentryService k}
    (hout : t.out = out) (howners : t.owners = update s.owners sid ((s.owners sid).eraseIdx j))
    (htags : t.tags = s.tags) (hsend : t.sendOf = s.sendOf)
    (hstate : ∀ i, t.stateOf i = if owner = some i then some .failed else s.stateOf i) : t.Sound := by
  have hset := cancel_eq hstep
  have hsending : ∀ i, owner = some i → s.stateOf i = some (.sending sid) := fun i hi => h.sending (hi ▸ hj)
  refine ⟨hout ▸ Outbound.step_sound _ _ _ h.out hstep, fun i sid' => ?_, fun i sid' => ?_, fun sid' => ?_,
    fun sid' => ?_, fun i sid' hi => ?_⟩
  · rw [howners, hstate]
    exact h.count_erase hj .failed nofun i sid'
  · rw [htags, hstate, h.tagged]
    by_cases ho : owner = some i
    · rw [if_pos ho, hsending i ho, if_neg (by simp), if_neg (by simp)]
    · rw [if_neg ho]
  · rw [howners, hsend, hout, hset]
    by_cases hsid : sid' = sid
    · subst hsid
      simpa [Outbound.set] using (h.owns sid').eraseIdx j
    · simpa [Outbound.set, hsid] using h.owns sid'
  · rw [htags, hsend, hout, hset]
    by_cases hsid : sid' = sid
    · subst hsid
      simpa [Outbound.set] using h.tags sid'
    · simpa [Outbound.set, hsid] using h.tags sid'
  · rw [hsend, hout, hset]
    refine h.peers i sid' ?_
    rw [hstate] at hi
    split at hi
    · rcases hi with hi | hi <;> cases hi
    · exact hi

/-- A future that is created owns nothing and is in no channel. -/
theorem Sound.free (h : s.Sound) (hi : s.stateOf i = some .created ∨ s.stateOf i = none) (sid : Nat) :
    (s.owners sid).count (some i) = 0 ∧ (s.tags sid).count (some i) = 0 := by
  rw [h.owned, h.tagged]
  rcases hi with hi | hi <;> simp [hi]

/-- A future looks up the sender of its peer. -/
theorem Sound.lookup (h : s.Sound) (hf : s.sends[i]? = some f) (hc : f.state = .created) : (s.lookup i f).Sound := by
  have hstate := stateOf_eq hf
  rw [hc] at hstate
  unfold SentryService.lookup
  split
  · rename_i sid hcurrent
    have hout : s.out.lookup f.send.peer f.send.event = s.out.set sid { s.out.outboxes sid with
        sends := (s.out.outboxes sid).sends ++ [f.send.event] } := by
      rw [Outbound.lookup, hcurrent]
    have hsound := h.out.lookup f.send.peer f.send.event
    obtain ⟨x, hx, hpeer, -⟩ := (Swarm.current_eq_some_iff h.out.routed.sound.1 h.out.routed.piped).1 hcurrent
    refine ⟨hsound, fun i' sid' => ?_, fun i' sid' => ?_, fun sid' => ?_, fun sid' => ?_, fun i' sid' hi' => ?_⟩
    · show (update s.owners sid (s.owners sid ++ [some i]) sid').count (some i') =
        if (s.setSend i f (.sending sid)).stateOf i' = some (.sending sid') then 1 else 0
      rw [stateOf_setSend hf]
      have hcount := h.owned i' sid'
      by_cases hi : i' = i
      · subst hi
        rw [if_pos rfl]
        by_cases hsid : sid' = sid
        · subst hsid
          simp [(h.free (.inl hstate) sid').1]
        · rw [Function.update_of_ne hsid, (h.free (.inl hstate) sid').1, if_neg (by simpa using Ne.symm hsid)]
      · rw [if_neg hi, ← hcount]
        by_cases hsid : sid' = sid
        · subst hsid
          simp [Ne.symm hi]
        · rw [Function.update_of_ne hsid]
    · show (s.tags sid').count (some i') =
        if (s.setSend i f (.sending sid)).stateOf i' = some (.sent sid') then 1 else 0
      rw [stateOf_setSend hf, h.tagged]
      by_cases hi : i' = i
      · subst hi
        simp [hstate]
      · rw [if_neg hi]
    · show Labelled (fun i' => ((s.setSend i f (.sending sid)).sendOf i').map Send.event)
        (update s.owners sid (s.owners sid ++ [some i]) sid')
        ((s.out.lookup f.send.peer f.send.event).outboxes sid').sends
      rw [sendOf_setSend hf, hout]
      by_cases hsid : sid' = sid
      · subst hsid
        rw [Function.update_self]
        simp only [Outbound.set, Function.update_self]
        refine (h.owns sid').snoc fun i' hi' => ?_
        obtain rfl := Option.some.inj hi'
        rw [sendOf_eq hf]
        rfl
      · simpa [Outbound.set, hsid] using h.owns sid'
    · show Labelled (fun i' => ((s.setSend i f (.sending sid)).sendOf i').map Send.event) (s.tags sid')
        ((s.out.lookup f.send.peer f.send.event).outboxes sid').line.accepted
      rw [sendOf_setSend hf, hout]
      by_cases hsid : sid' = sid
      · subst hsid
        simpa [Outbound.set] using h.tags sid'
      · simpa [Outbound.set, hsid] using h.tags sid'
    · have hholds : (s.setSend i f (.sending sid)).stateOf i' = some (.sending sid') ∨
          (s.setSend i f (.sending sid)).stateOf i' = some (.sent sid') := hi'
      clear hi'
      show (s.out.lookup f.send.peer f.send.event).swarm.sessions[sid']?.map Session.peer =
        ((s.setSend i f (.sending sid)).sendOf i').map Send.peer
      rw [sendOf_setSend hf, Outbound.lookup_swarm]
      rw [stateOf_setSend hf] at hholds
      split at hholds
      · rename_i hi
        subst hi
        rcases hholds with hholds | hholds <;> cases hholds
        rw [hx, sendOf_eq hf, Option.map_some, Option.map_some, hpeer]
      · exact h.peers i' sid' hholds
  · refine ⟨h.out, fun i' sid' => ?_, fun i' sid' => ?_, fun sid' => ?_, fun sid' => ?_, fun i' sid' hi' => ?_⟩
    · rw [stateOf_setSend hf]
      by_cases hi : i' = i
      · subst hi
        rw [if_pos rfl, if_neg (by simp)]
        exact (h.free (.inl hstate) sid').1
      · rw [if_neg hi]
        exact h.owned i' sid'
    · rw [stateOf_setSend hf]
      by_cases hi : i' = i
      · subst hi
        rw [if_pos rfl, if_neg (by simp)]
        exact (h.free (.inl hstate) sid').2
      · rw [if_neg hi]
        exact h.tagged i' sid'
    · rw [sendOf_setSend hf]
      exact h.owns sid'
    · rw [sendOf_setSend hf]
      exact h.tags sid'
    · rw [sendOf_setSend hf]
      rw [stateOf_setSend hf] at hi'
      split at hi'
      · rcases hi' with hi' | hi' <;> cases hi'
      · exact h.peers i' sid' hi'

/-- Futures that are new. -/
theorem Sound.append (h : s.Sound) (calls : List ServiceCall) (sends : List SendFuture)
    (hc : ∀ f ∈ sends, f.state = .created) : Sound { s with calls := calls, sends := s.sends ++ sends } := by
  have hold : ∀ i,
      (s.stateOf i = none ∧ (∀ state, (s.sends ++ sends)[i]?.map SendFuture.state = some state → state = .created)) ∨
      (s.sends ++ sends)[i]? = s.sends[i]? := by
    intro i
    rcases Nat.lt_or_ge i s.sends.length with hlt | hge
    · exact .inr (List.getElem?_append_left hlt)
    · refine .inl ⟨by rw [stateOf, List.getElem?_eq_none hge]; rfl, fun state hs => ?_⟩
      rw [List.getElem?_append_right hge] at hs
      obtain ⟨f, hf, rfl⟩ := Option.map_eq_some_iff.1 hs
      exact hc f (List.mem_of_getElem? hf)
  have hsend : ∀ i x, s.sendOf i = some x → (s.sends ++ sends)[i]?.map SendFuture.send = some x := by
    intro i x hx
    obtain ⟨f, hf, rfl⟩ := Option.map_eq_some_iff.1 hx
    rw [List.getElem?_append_left (List.getElem?_eq_some_iff.1 hf).1, hf]
    rfl
  refine ⟨h.out, fun i sid => ?_, fun i sid => ?_, fun sid => ?_, fun sid => ?_, fun i sid hi => ?_⟩
  · rcases hold i with ⟨hnone, hnew⟩ | heq
    · rw [if_neg fun hs => by simpa using hnew _ hs]
      exact (h.free (.inr hnone) sid).1
    · rw [stateOf, heq]
      exact h.owned i sid
  · rcases hold i with ⟨hnone, hnew⟩ | heq
    · rw [if_neg fun hs => by simpa using hnew _ hs]
      exact (h.free (.inr hnone) sid).2
    · rw [stateOf, heq]
      exact h.tagged i sid
  · refine (h.owns sid).congr fun i e he => ?_
    obtain ⟨x, hx, rfl⟩ := Option.map_eq_some_iff.1 he
    rw [sendOf, hsend i x hx]
    rfl
  · refine (h.tags sid).congr fun i e he => ?_
    obtain ⟨x, hx, rfl⟩ := Option.map_eq_some_iff.1 he
    rw [sendOf, hsend i x hx]
    rfl
  · rcases hold i with ⟨hnone, hnew⟩ | heq
    · rcases hi with hi | hi <;> cases hnew _ hi
    · rw [stateOf, heq] at hi
      rw [sendOf, heq]
      exact h.peers i sid hi

/-- **Every step keeps the sends accounted for.** -/
theorem step_sound (s : SentryService k) (a : Action k) (s' : SentryService k) (h : s.Sound) (hs : s.step a = some s') :
    s'.Sound := by
  cases a with
  | out a =>
    have hadopt : (∀ sid i, a ≠ .accept sid i) → (∀ sid i, a ≠ .cancel sid i) → (s.out.step a).map s.adopt = some s' →
        s'.Sound := by
      intro ha hc hs
      obtain ⟨out, hout, rfl⟩ := Option.map_eq_some_iff.1 hs
      exact h.adopt (Outbound.step_sound _ _ _ h.out hout) (below_step h.out hout ha hc) fun sid p hp =>
        peer_of_step hout hp
    cases a with
    | send peer event => cases hs
    | accept sid i =>
      simp only [step] at hs
      split at hs
      · rename_i hj
        obtain ⟨out, hout, rfl⟩ := Option.map_eq_some_iff.1 hs
        exact h.accepted hj hout rfl rfl rfl rfl fun i => by rw [if_neg nofun]; rfl
      · cases hs
    | cancel sid i =>
      simp only [step] at hs
      split at hs
      · rename_i hj
        obtain ⟨out, hout, rfl⟩ := Option.map_eq_some_iff.1 hs
        exact h.removed hj hout rfl rfl rfl rfl fun i => by rw [if_neg nofun]; rfl
      · cases hs
    | swarm e => exact hadopt nofun nofun hs
    | poll sid => exact hadopt nofun nofun hs
    | next sid => exact hadopt nofun nofun hs
  | request request order =>
    simp only [step] at hs
    split at hs
    · split at hs <;> cases hs
      unfold begin
      split
      · refine h.append _ _ fun f hf => ?_
        obtain ⟨p, -, rfl⟩ := List.mem_map.1 hf
        rfl
      · simpa using h.append (s.calls ++ [⟨request, [], [], false⟩]) [] nofun
    · cases hs
      exact h
  | poll i =>
    obtain ⟨f, hf, hs⟩ := Option.bind_eq_some_iff.1 hs
    split at hs <;> cases hs
    rename_i hc
    exact h.lookup hf hc.1
  | accept i =>
    obtain ⟨f, hf, hs⟩ := Option.bind_eq_some_iff.1 hs
    split at hs
    · rename_i sid hstate
      split at hs
      · cases hs
      · obtain ⟨out, hout, rfl⟩ := Option.map_eq_some_iff.1 hs
        have hj := h.getElem?_idxOf (hstate ▸ stateOf_eq hf)
        refine h.accepted hj hout rfl rfl rfl (sendOf_setSend hf _) fun i' => ?_
        refine (stateOf_setSend hf (.sent sid) i').trans ?_
        by_cases hi : i' = i
        · rw [if_pos hi, if_pos (by rw [hi])]
        · rw [if_neg hi, if_neg (by simpa using Ne.symm hi)]
    · cases hs
  | fail i =>
    obtain ⟨f, hf, hs⟩ := Option.bind_eq_some_iff.1 hs
    split at hs
    · rename_i sid hstate
      split at hs
      · obtain ⟨out, hout, rfl⟩ := Option.map_eq_some_iff.1 hs
        have hj := h.getElem?_idxOf (hstate ▸ stateOf_eq hf)
        refine h.removed hj hout rfl rfl rfl (sendOf_setSend hf _) fun i' => ?_
        refine (stateOf_setSend hf .failed i').trans ?_
        by_cases hi : i' = i
        · rw [if_pos hi, if_pos (by rw [hi])]
        · rw [if_neg hi, if_neg (by simpa using Ne.symm hi)]
      · cases hs
    · cases hs
  | drop call =>
    cases hs
    exact ⟨h.out, h.owned, h.tagged, h.owns, h.tags, h.peers⟩

theorem new_sound (k : ForkCrates) (maxPeers : Nat) : (new k maxPeers).Sound where
  out := Outbound.new_sound k maxPeers
  owned _ _ := rfl
  tagged _ _ := rfl
  owns _ := .nil
  tags _ := .nil
  peers i sid hi := by rcases hi with hi | hi <;> cases hi

/-! ## The answers -/

/-- A step that leaves the calls, what they send and what was sent as they are. -/
theorem Answers.congr (h : s.Answers) (hcalls : s'.calls = s.calls) (hsend : s'.sendOf = s.sendOf)
    (hstate : ∀ i sid, s'.stateOf i = some (.sent sid) ↔ s.stateOf i = some (.sent sid)) : s'.Answers := by
  refine ⟨?_, ?_, ?_, ?_, ?_⟩
  · rw [hcalls, hsend]
    exact h.asked
  · rw [hcalls, hsend]
    exact h.event
  · rw [hsend]
    exact h.distinct
  · rw [hcalls, hsend]
    simp only [hstate]
    exact h.named
  · rw [hcalls]
    exact h.nodup

/-- A future that has not sent changes, and does not send. -/
theorem Answers.setSend (h : s.Answers) (hf : s.sends[i]? = some f) (hstate : ∀ sid, f.state ≠ .sent sid)
    (state : SendState) (hne : ∀ sid, state ≠ .sent sid) (hcalls : s'.calls = s.calls)
    (hsends : s'.sends = (s.setSend i f state).sends) : s'.Answers := by
  have hsend : s'.sendOf = (s.setSend i f state).sendOf := funext fun j => by rw [sendOf, hsends]; rfl
  refine h.congr hcalls (hsend.trans (sendOf_setSend hf state)) fun j sid => ?_
  have hj : s'.stateOf j = (s.setSend i f state).stateOf j := by rw [stateOf, hsends]; rfl
  rw [hj, stateOf_setSend hf]
  split
  · rename_i hij
    subst hij
    rw [stateOf_eq hf]
    exact iff_of_false (by simpa using hne sid) (by simpa using hstate sid)
  · rfl

theorem Answers.call_lt (h : s.Answers) {x : Send} (hx : s.sendOf i = some x) : x.call < s.calls.length := by
  obtain ⟨call, hcall, -⟩ := h.event i x hx
  exact (List.getElem?_eq_some_iff.1 hcall).1

/-- A call that is new. -/
theorem getElem?_snoc {calls : List ServiceCall} {call : ServiceCall} {c : Nat} {x : ServiceCall}
    (h : (calls ++ [call])[c]? = some x) : calls[c]? = some x ∨ c = calls.length ∧ x = call := by
  rw [List.getElem?_append] at h
  split at h
  · exact .inl h
  · rename_i hc
    obtain ⟨hlt, hx⟩ := List.getElem?_eq_some_iff.1 h
    rw [List.length_singleton] at hlt
    exact .inr ⟨by omega, by simpa using hx.symm⟩

/-- A call that is new, with the futures of its sends. -/
theorem Answers.begin (h : s.Answers) (request : Request) {asked : List PeerId} (hasked : asked.Nodup)
    {event : OutboundEvent} (hevent : request.event = some event) :
    Answers { s with
      calls := s.calls ++ [⟨request, asked, [], false⟩]
      sends := s.sends ++ asked.map fun peer => ⟨⟨s.calls.length, peer, event⟩, .created⟩ } := by
  generalize hs' : ({ s with
    calls := s.calls ++ [⟨request, asked, [], false⟩]
    sends := s.sends ++ asked.map fun peer => ⟨⟨s.calls.length, peer, event⟩, .created⟩ } : SentryService k) = s'
  have hcalls : s'.calls = s.calls ++ [⟨request, asked, [], false⟩] := by rw [← hs']
  have hget : ∀ i, (s'.sendOf i = s.sendOf i ∧ s'.stateOf i = s.stateOf i) ∨ s.sendOf i = none ∧ s.stateOf i = none ∧
      s.sends.length ≤ i ∧ s'.sendOf i = asked[i - s.sends.length]?.map (fun p => ⟨s.calls.length, p, event⟩) ∧
      ∀ sid, s'.stateOf i ≠ some (.sent sid) := by
    intro i
    rw [← hs']
    simp only [sendOf, stateOf]
    rcases Nat.lt_or_ge i s.sends.length with hlt | hge
    · rw [List.getElem?_append_left hlt]
      exact .inl ⟨rfl, rfl⟩
    · rw [List.getElem?_append_right hge, List.getElem?_map, List.getElem?_eq_none hge]
      refine .inr ⟨rfl, rfl, hge, by rw [Option.map_map]; rfl, fun sid => ?_⟩
      cases asked[i - s.sends.length]? <;> simp
  have hold : ∀ i x, s.sendOf i = some x → s'.sendOf i = some x := by
    intro i x hx
    rcases hget i with ⟨heq, -⟩ | ⟨hnone, -⟩
    · rw [heq, hx]
    · rw [hnone] at hx
      cases hx
  have hnew : ∀ i x, s'.sendOf i = some x → s.sendOf i = some x ∨
      s.sends.length ≤ i ∧ asked[i - s.sends.length]? = some x.peer ∧ x.call = s.calls.length ∧ x.event = event := by
    intro i x hx
    rcases hget i with ⟨heq, -⟩ | ⟨-, -, hge, heq, -⟩
    · exact .inl (heq ▸ hx)
    · rw [heq] at hx
      obtain ⟨p, hp, rfl⟩ := Option.map_eq_some_iff.1 hx
      exact .inr ⟨hge, hp, rfl, rfl⟩
  have hsent : ∀ i sid, s'.stateOf i = some (.sent sid) ↔ s.stateOf i = some (.sent sid) := by
    intro i sid
    rcases hget i with ⟨-, heq⟩ | ⟨-, hnone, -, -, hne⟩
    · rw [heq]
    · exact iff_of_false (hne sid) (by simp [hnone])
  refine ⟨fun c call hc p => ?_, fun i x hx => ?_, fun i j x y hx hy hcall hpeer => ?_, fun c call hc p => ?_,
    fun c call hc => ?_⟩
  · rw [hcalls] at hc
    rcases getElem?_snoc hc with hc | ⟨rfl, rfl⟩
    · rw [h.asked c call hc]
      refine exists_congr fun i => exists_congr fun x =>
        ⟨fun ⟨hx, hrest⟩ => ⟨hold i x hx, hrest⟩, fun ⟨hx, hxc, hrest⟩ => ?_⟩
      rcases hnew i x hx with hx | ⟨-, -, hlen, -⟩
      · exact ⟨hx, hxc, hrest⟩
      · have := (List.getElem?_eq_some_iff.1 hc).1
        omega
    · constructor
      · intro hp
        obtain ⟨n, hn⟩ : ∃ n : Nat, asked[n]? = some p := List.getElem?_of_mem hp
        refine ⟨s.sends.length + n, ⟨s.calls.length, p, event⟩, ?_, rfl, rfl⟩
        rcases hget (s.sends.length + n) with ⟨heq, -⟩ | ⟨-, -, -, heq, -⟩
        · have hlen : s.sends.length + n < (s.sends ++ asked.map fun peer =>
              (⟨⟨s.calls.length, peer, event⟩, .created⟩ : SendFuture)).length := by
            rw [List.length_append, List.length_map]
            have := (List.getElem?_eq_some_iff.1 hn).1
            omega
          rw [← hs', sendOf, List.getElem?_append_right (by omega), Nat.add_sub_cancel_left, List.getElem?_map, hn]
          rfl
        · rw [heq, Nat.add_sub_cancel_left, hn]
          rfl
      · rintro ⟨i, x, hx, hxc, rfl⟩
        rcases hnew i x hx with hx | ⟨-, hp, -⟩
        · have := h.call_lt hx
          omega
        · exact List.mem_of_getElem? hp
  · rw [hcalls]
    rcases hnew i x hx with hx | ⟨-, -, hlen, hxe⟩
    · obtain ⟨call, hcall, hevent⟩ := h.event i x hx
      exact ⟨call, by rw [List.getElem?_append_left (h.call_lt hx), hcall], hevent⟩
    · exact ⟨_, by rw [hlen, List.getElem?_concat_length], hxe ▸ hevent⟩
  · rcases hnew i x hx with hx | ⟨hi, hpi, hci, -⟩
    · rcases hnew j y hy with hy | ⟨-, -, hcj, -⟩
      · exact h.distinct i j x y hx hy hcall hpeer
      · have := h.call_lt hx
        omega
    · rcases hnew j y hy with hy | ⟨hj, hpj, -, -⟩
      · have := h.call_lt hy
        omega
      · rw [hpeer] at hpi
        have hidx := (List.getElem?_inj (List.getElem?_eq_some_iff.1 hpi).1 hasked).1 (hpi.trans hpj.symm)
        omega
  · rw [hcalls] at hc
    simp only [hsent]
    rcases getElem?_snoc hc with hc | ⟨rfl, rfl⟩
    · rw [h.named c call hc]
      refine exists_congr fun i => exists_congr fun x => exists_congr fun sid =>
        ⟨fun ⟨hx, hrest⟩ => ⟨hold i x hx, hrest⟩, fun ⟨hx, hxc, hrest⟩ => ?_⟩
      rcases hnew i x hx with hx | ⟨-, -, hlen, -⟩
      · exact ⟨hx, hxc, hrest⟩
      · have := (List.getElem?_eq_some_iff.1 hc).1
        omega
    · refine iff_of_false nofun ?_
      rintro ⟨i, x, sid, hx, hxc, -, hstate⟩
      obtain ⟨f, hf, -⟩ := Option.map_eq_some_iff.1 hstate
      have := h.call_lt (sendOf_eq hf)
      obtain rfl : f.send = x := Option.some.inj ((hold i _ (sendOf_eq hf)).symm.trans hx)
      omega
  · rw [hcalls] at hc
    rcases getElem?_snoc hc with hc | ⟨-, rfl⟩
    · exact h.nodup c call hc
    · exact List.nodup_nil

/-- The answer of a call names a peer that was sent to. -/
theorem Answers.name (h : s.Answers) (hf : s.sends[i]? = some f) {sid : Nat} (hstate : f.state = .sending sid)
    (hcalls : s'.calls = s.calls.modify f.send.call fun c => { c with sentPeers := c.sentPeers ++ [f.send.peer] })
    (hsends : s'.sends = (s.setSend i f (.sent sid)).sends) : s'.Answers := by
  have hsend : s'.sendOf = s.sendOf :=
    (funext fun j => by rw [sendOf, hsends]; rfl).trans (sendOf_setSend hf (.sent sid))
  have hstateOf : ∀ j, s'.stateOf j = if j = i then some (.sent sid) else s.stateOf j := fun j =>
    (show s'.stateOf j = (s.setSend i f (.sent sid)).stateOf j by rw [stateOf, hsends]; rfl).trans
      (stateOf_setSend hf (.sent sid) j)
  have hold : ∀ j sid', s.stateOf j = some (.sent sid') → j ≠ i := by
    rintro j sid' hj rfl
    rw [stateOf_eq hf, hstate] at hj
    cases hj
  -- what a call of the new list was before
  have hget : ∀ (c : Nat) call, s'.calls[c]? = some call → ∃ call', s.calls[c]? = some call' ∧
      call = if f.send.call = c then { call' with sentPeers := call'.sentPeers ++ [f.send.peer] } else call' := by
    intro c call hc
    rw [hcalls, List.getElem?_modify] at hc
    obtain ⟨call', hcall', rfl⟩ := Option.map_eq_some_iff.1 hc
    exact ⟨call', hcall', by split <;> rfl⟩
  refine ⟨fun c call hc p => ?_, fun j x hx => ?_, by rw [hsend]; exact h.distinct, fun c call hc p => ?_,
    fun c call hc => ?_⟩
  · obtain ⟨call', hcall', rfl⟩ := hget c call hc
    rw [hsend, ← h.asked c call' hcall']
    split <;> rfl
  · rw [hsend] at hx
    obtain ⟨call, hcall, hevent⟩ := h.event j x hx
    rw [hcalls, List.getElem?_modify, hcall]
    exact ⟨_, rfl, by split <;> exact hevent⟩
  · obtain ⟨call', hcall', rfl⟩ := hget c call hc
    have hnamed := h.named c call' hcall' p
    simp only [hsend, hstateOf]
    by_cases hcall : f.send.call = c
    · rw [if_pos hcall, List.mem_append, List.mem_singleton, hnamed]
      constructor
      · rintro (⟨j, x, sid', hx, hxc, hxp, hj⟩ | rfl)
        · exact ⟨j, x, sid', hx, hxc, hxp, by rw [if_neg (hold j sid' hj), hj]⟩
        · exact ⟨i, f.send, sid, sendOf_eq hf, hcall, rfl, if_pos rfl⟩
      · rintro ⟨j, x, sid', hx, hxc, hxp, hj⟩
        split at hj
        · rename_i hij
          subst hij
          rw [sendOf_eq hf] at hx
          cases hx
          exact .inr hxp.symm
        · exact .inl ⟨j, x, sid', hx, hxc, hxp, hj⟩
    · rw [if_neg hcall, hnamed]
      refine exists_congr fun j => exists_congr fun x => exists_congr fun sid' =>
        and_congr_right fun hx => and_congr_right fun hxc => and_congr_right fun _ => ?_
      rw [if_neg]
      rintro rfl
      rw [sendOf_eq hf] at hx
      cases hx
      exact hcall hxc
  · obtain ⟨call', hcall', rfl⟩ := hget c call hc
    split
    · rename_i hcall
      refine List.nodup_append.2 ⟨h.nodup c call' hcall', List.nodup_singleton _, fun p hp q hq hpq => ?_⟩
      rw [List.mem_singleton] at hq
      -- no other future of the call is for this peer
      obtain ⟨j, x, sid', hx, hxc, hxp, hj⟩ := (h.named c call' hcall' p).1 hp
      exact hold j sid' hj (h.distinct j i x f.send hx (sendOf_eq hf) (hxc.trans hcall.symm) (by rw [hxp, hpq, hq]))
    · exact h.nodup c call' hcall'

theorem step_answers (s : SentryService k) (a : Action k) (s' : SentryService k) (h : s.Answers)
    (hs : s.step a = some s') : s'.Answers := by
  cases a with
  | out a =>
    have hsame : ∀ {t : SentryService k}, t.calls = s.calls → t.sends = s.sends → t.Answers := fun hcalls hsends =>
      h.congr hcalls (funext fun i => by rw [sendOf, hsends]; rfl) fun i sid => by rw [stateOf, hsends]; rfl
    cases a with
    | send peer event => cases hs
    | accept sid i | cancel sid i =>
      simp only [step] at hs
      split at hs
      · obtain ⟨out, -, rfl⟩ := Option.map_eq_some_iff.1 hs
        exact hsame rfl rfl
      · cases hs
    | swarm e | poll sid | next sid =>
      obtain ⟨out, -, rfl⟩ := Option.map_eq_some_iff.1 hs
      exact hsame rfl rfl
  | request request order =>
    simp only [step] at hs
    split at hs
    · split at hs <;> cases hs
      rename_i hnodup
      have hasked : (request.asked order).Nodup := by
        unfold Request.asked
        split
        · exact hnodup.1.sublist (List.take_sublist ..)
        · exact hnodup.1
      unfold begin
      split
      · exact h.begin request hasked ‹_›
      · -- nothing is sent
        have hcall : ∀ {c : Nat} {call}, (s.calls ++ [⟨request, [], [], false⟩])[c]? = some call →
            s.calls[c]? = some call ∨
            c = s.calls.length ∧ call = ⟨request, [], [], false⟩ := getElem?_snoc
        refine ⟨fun c call hc p => ?_, fun i x hx => ?_, h.distinct, fun c call hc p => ?_, fun c call hc => ?_⟩
        · rcases hcall hc with hc | ⟨rfl, rfl⟩
          · exact h.asked c call hc p
          · exact iff_of_false nofun fun ⟨i, x, hx, hxc, _⟩ => absurd (h.call_lt hx) (by omega)
        · obtain ⟨call, hcall, hevent⟩ := h.event i x hx
          exact ⟨call, by rw [List.getElem?_append_left (h.call_lt hx), hcall], hevent⟩
        · rcases hcall hc with hc | ⟨rfl, rfl⟩
          · exact h.named c call hc p
          · exact iff_of_false nofun fun ⟨i, x, _, hx, hxc, _⟩ => absurd (h.call_lt hx) (by omega)
        · rcases hcall hc with hc | ⟨rfl, rfl⟩
          · exact h.nodup c call hc
          · exact List.nodup_nil
    · cases hs
      exact h
  | poll i =>
    obtain ⟨f, hf, hs⟩ := Option.bind_eq_some_iff.1 hs
    split at hs <;> cases hs
    rename_i hc
    unfold lookup
    split
    · exact h.setSend hf (by simp [hc.1]) (.sending _) nofun rfl rfl
    · exact h.setSend hf (by simp [hc.1]) .failed nofun rfl rfl
  | accept i =>
    obtain ⟨f, hf, hs⟩ := Option.bind_eq_some_iff.1 hs
    split at hs
    · rename_i sid hstate
      split at hs
      · cases hs
      · obtain ⟨out, -, rfl⟩ := Option.map_eq_some_iff.1 hs
        exact h.name hf hstate rfl rfl
    · cases hs
  | fail i =>
    obtain ⟨f, hf, hs⟩ := Option.bind_eq_some_iff.1 hs
    split at hs
    · rename_i sid hstate
      split at hs
      · obtain ⟨out, -, rfl⟩ := Option.map_eq_some_iff.1 hs
        exact h.setSend hf (by simp [hstate]) .failed nofun rfl rfl
      · cases hs
    · cases hs
  | drop c =>
    cases hs
    have hget : ∀ (c' : Nat) call, (s.calls.modify c fun c => { c with dropped := true })[c']? = some call →
        ∃ call', s.calls[c']? = some call' ∧ call.request = call'.request ∧ call.asked = call'.asked ∧
          call.sentPeers = call'.sentPeers := by
      intro c' call hc
      rw [List.getElem?_modify] at hc
      obtain ⟨call', hcall', rfl⟩ := Option.map_eq_some_iff.1 hc
      exact ⟨call', hcall', by split <;> exact ⟨rfl, rfl, rfl⟩⟩
    refine ⟨fun c' call hc p => ?_, fun i x hx => ?_, h.distinct, fun c' call hc p => ?_, fun c' call hc => ?_⟩
    · obtain ⟨call', hcall', -, hasked, -⟩ := hget c' call hc
      rw [hasked]
      exact h.asked c' call' hcall' p
    · obtain ⟨call, hcall, hevent⟩ := h.event i x hx
      rw [List.getElem?_modify, hcall]
      exact ⟨_, rfl, by split <;> exact hevent⟩
    · obtain ⟨call', hcall', -, -, hsent⟩ := hget c' call hc
      rw [hsent]
      exact h.named c' call' hcall' p
    · obtain ⟨call', hcall', -, -, hsent⟩ := hget c' call hc
      rw [hsent]
      exact h.nodup c' call' hcall'

theorem new_answers (k : ForkCrates) (maxPeers : Nat) : (new k maxPeers).Answers where
  asked _ _ h := by cases h
  event _ _ h := by cases h
  distinct _ _ _ _ h := by cases h
  named _ _ h := by cases h
  nodup _ _ h := by cases h

/-- A call about one peer asks for that peer only. -/
def Addressed (k : ForkCrates) (call : ServiceCall) : Prop :=
  ∀ peerId, call.request.peerId = some peerId → ∀ p ∈ call.asked, parsePeerId k peerId = some p

theorem begin_addressed (hs : ∀ call ∈ s.calls, Addressed k call) {request : Request} {order : List PeerId}
    {peers : Finset PeerId} (ht : s.out.swarm.server.targets request = some peers) (ho : order.toFinset = peers) :
    ∀ call ∈ (s.begin request order).calls, Addressed k call := by
  have hnew : ∀ asked sent dropped, asked ⊆ order → Addressed k ⟨request, asked, sent, dropped⟩ := by
    intro asked sent dropped hsub peerId hp p hmem
    have hp' : p ∈ peers := ho ▸ List.mem_toFinset.2 (hsub hmem)
    cases request with
    | penalizePeer id | sendMessageById data id =>
      obtain ⟨peer, hpeer, rfl⟩ := Option.map_eq_some_iff.1 ht
      cases hp
      rw [Finset.mem_singleton.1 hp', hpeer]
    | sendMessageByMinBlock data minBlock | sendMessageToRandomPeers data maxPeers | sendMessageToAll data => cases hp
  unfold begin
  split
  · refine fun call hcall => (List.mem_append.1 hcall).elim (hs call) fun hcall => ?_
    rw [List.mem_singleton.1 hcall]
    refine hnew _ _ _ ?_
    unfold Request.asked
    split
    · exact List.take_subset ..
    · exact List.Subset.refl _
  · refine fun call hcall => (List.mem_append.1 hcall).elim (hs call) fun hcall => ?_
    rw [List.mem_singleton.1 hcall]
    exact hnew _ _ _ (List.nil_subset _)

theorem modify_addressed {calls : List ServiceCall} (hs : ∀ call ∈ calls, Addressed k call)
    {f : ServiceCall → ServiceCall} (hf : ∀ call, (f call).request = call.request ∧ (f call).asked = call.asked)
    (c : Nat) : ∀ call ∈ calls.modify c f, Addressed k call := by
  intro call hcall
  obtain ⟨i, hi⟩ := List.getElem?_of_mem hcall
  rw [List.getElem?_modify] at hi
  obtain ⟨call', hcall', rfl⟩ := Option.map_eq_some_iff.1 hi
  have hold := hs call' (List.mem_of_getElem? hcall')
  split
  · intro peerId
    rw [(hf call').1, (hf call').2]
    exact hold peerId
  · exact hold

theorem step_addressed (s : SentryService k) (a : Action k) (s' : SentryService k)
    (hs : ∀ call ∈ s.calls, Addressed k call) (h : s.step a = some s') : ∀ call ∈ s'.calls, Addressed k call := by
  cases a with
  | out a =>
    cases a with
    | send peer event => cases h
    | accept sid i | cancel sid i =>
      simp only [step] at h
      split at h
      · obtain ⟨out, -, rfl⟩ := Option.map_eq_some_iff.1 h
        exact hs
      · cases h
    | swarm e | poll sid | next sid =>
      obtain ⟨out, -, rfl⟩ := Option.map_eq_some_iff.1 h
      exact hs
  | request request order =>
    simp only [step] at h
    split at h
    · rename_i ht
      split at h <;> cases h
      rename_i ho
      exact begin_addressed hs ht ho.2
    · cases h
      exact hs
  | poll i =>
    obtain ⟨f, -, h⟩ := Option.bind_eq_some_iff.1 h
    split at h <;> cases h
    unfold lookup
    split <;> exact hs
  | accept i =>
    obtain ⟨f, -, h⟩ := Option.bind_eq_some_iff.1 h
    split at h
    · split at h
      · cases h
      · obtain ⟨out, -, rfl⟩ := Option.map_eq_some_iff.1 h
        refine modify_addressed hs ?_ f.send.call
        exact fun _ => ⟨rfl, rfl⟩
    · cases h
  | fail i =>
    obtain ⟨f, -, h⟩ := Option.bind_eq_some_iff.1 h
    split at h
    · split at h
      · obtain ⟨out, -, rfl⟩ := Option.map_eq_some_iff.1 h
        exact hs
      · cases h
    · cases h
  | drop c =>
    cases h
    refine modify_addressed hs ?_ c
    exact fun _ => ⟨rfl, rfl⟩

theorem run_sound {maxPeers : Nat} {es : List (Action k)} (h : Runs.run step (new k maxPeers) es = some s) :
    s.Sound ∧ s.Answers :=
  ⟨Runs.invariant step_sound es (new_sound k maxPeers) h, Runs.invariant step_answers es (new_answers k maxPeers) h⟩

/-- A future has its event at a place of the channel of a session of its peer: the sink has got it, or it waits. -/
structure Placed (s : SentryService k) (i : Nat) (x : Send) (place : Nat × Nat) : Prop where
  tag : (s.tags place.1)[place.2]? = some (some i)
  peer : s.out.swarm.sessions[place.1]?.map Session.peer = some x.peer
  event : let o := s.out.outboxes place.1
    (o.handed ++ (o.line.rest ++ o.line.queue))[o.line.first.length + place.2]? = some x.event

theorem Sound.placed (h : s.Sound) {x : Send} (hx : s.sendOf i = some x) {sid n : Nat}
    (ht : (s.tags sid)[n]? = some (some i)) : s.Placed i x (sid, n) := by
  have hstate : s.stateOf i = some (.sent sid) := by
    have hpos := List.count_pos_iff.2 (List.mem_of_getElem? ht)
    rw [h.tagged] at hpos
    by_contra hne
    rw [if_neg hne] at hpos
    exact absurd hpos (by decide)
  have ho := h.out.outbox sid
  have hevent := (h.tags sid).getElem? ht
  refine ⟨ht, by rw [h.peers i sid (.inr hstate), hx, Option.map_some], ?_⟩
  dsimp only
  rw [← ho.taken, ← ho.ordered, List.getElem?_append_right (Nat.le_add_right ..), Nat.add_sub_cancel_left, hevent, hx,
    Option.map_some]

/-- **What an answer means**, in every run of a new swarm with its service. The answer of a call names no peer twice,
and only peers that the call asks for, which is no peer but the one that it is about, if it is about one. For each peer
that it asks for the call has one future: when the answer names the
peer, the event of the request is in one place of what goes out of a session of the peer, and otherwise in none. -/
theorem sent_exactly {maxPeers : Nat} {es : List (Action k)} (h : Runs.run step (new k maxPeers) es = some s) {c : Nat}
    {call : ServiceCall} (hc : s.calls[c]? = some call) :
    call.sentPeers.Nodup ∧ call.sentPeers ⊆ call.asked ∧
    (k.HexLaw → ∀ peerId, call.request.peerId = some peerId → ∀ p ∈ call.asked, p.bytes = peerId) ∧
    ∀ p ∈ call.asked, ∃ i x, (s.sendOf i = some x ∧ x.call = c ∧ x.peer = p) ∧
      (∀ j y, s.sendOf j = some y → y.call = c → y.peer = p → j = i) ∧ call.request.event = some x.event ∧
      (p ∈ call.sentPeers → ∃! place, s.Placed i x place) ∧
      (p ∉ call.sentPeers → ∀ sid, some i ∉ s.tags sid) := by
  obtain ⟨hs, ha⟩ := run_sound h
  refine ⟨ha.nodup c call hc, fun p hp => ?_, fun hk peerId hpeer p hp => ?_, fun p hp => ?_⟩
  · obtain ⟨i, x, sid, hx, hxc, hxp, -⟩ := (ha.named c call hc p).1 hp
    exact (ha.asked c call hc p).2 ⟨i, x, hx, hxc, hxp⟩
  · have haddressed := Runs.invariant step_addressed es (fun _ h => absurd h List.not_mem_nil) h
    exact bytes_of_parsePeerId hk (haddressed call (List.mem_of_getElem? hc) peerId hpeer p hp)
  · obtain ⟨i, x, hx, rfl, rfl⟩ := (ha.asked c call hc p).1 hp
    refine ⟨i, x, ⟨hx, rfl, rfl⟩, fun j y hy hyc hyp => ha.distinct j i y x hy hx hyc hyp, ?_, fun hsent => ?_,
      fun hsent sid hmem => ?_⟩
    · obtain ⟨call', hcall', hevent⟩ := ha.event i x hx
      rw [hc] at hcall'
      cases hcall'
      exact hevent
    · obtain ⟨j, y, sid, hy, hyc, hyp, hstate⟩ := (ha.named x.call call hc x.peer).1 hsent
      obtain rfl := ha.distinct j i y x hy hx hyc hyp
      have hone : ∀ sid', (s.tags sid').count (some j) = if sid = sid' then 1 else 0 := fun sid' => by
        rw [hs.tagged, hstate]
        simp
      have hcount := hone sid
      rw [if_pos rfl] at hcount
      obtain ⟨n, hn⟩ := List.getElem?_of_mem (List.count_pos_iff.1 (by omega : 0 < (s.tags sid).count (some j)))
      refine ⟨(sid, n), hs.placed hx hn, fun ⟨sid', n'⟩ hplaced => ?_⟩
      have hpos := List.count_pos_iff.2 (List.mem_of_getElem? hplaced.tag)
      rw [hone] at hpos
      obtain rfl : sid = sid' := by
        by_contra hne
        rw [if_neg hne] at hpos
        exact absurd hpos (by decide)
      exact Prod.ext rfl (List.getElem?_unique hcount hn hplaced.tag)
    · have hpos := List.count_pos_iff.2 hmem
      rw [hs.tagged] at hpos
      refine hsent ((ha.named x.call call hc x.peer).2 ⟨i, x, sid, hx, rfl, rfl, ?_⟩)
      by_contra hne
      rw [if_neg hne] at hpos
      exact absurd hpos (by decide)

/-- A peer connects, a client asks it for headers, and the channel accepts the request. -/
def askPeer : List (Action genesisForks) :=
  Swarm.connectIncoming.map (.out ∘ .swarm) ++
    [.request (.sendMessageById (some ⟨0, [0xc0]⟩) Swarm.samplePeer.bytes) [Swarm.samplePeer], .poll 0, .accept 0]

/-- The answer names the peer, and the request waits behind the `Status`. -/
theorem askPeer_sent : ∃ s call, Runs.run step (new genesisForks 10) askPeer = some s ∧ s.calls[0]? = some call ∧
    call.sentPeers = [Swarm.samplePeer] ∧ (∀ p ∈ call.asked, p.bytes = Swarm.samplePeer.bytes) ∧
    ∃ i x, s.sendOf i = some x ∧ ∃! place, s.Placed i x place := by
  have hrun : ((Runs.run step (new genesisForks 10) askPeer).bind (·.calls[0]?)).map (fun call =>
      (call.request.peerId, call.asked, call.sentPeers)) =
      some (some Swarm.samplePeer.bytes, [Swarm.samplePeer], [Swarm.samplePeer]) := by decide +kernel
  obtain ⟨call, hcall, hsent⟩ := Option.map_eq_some_iff.1 hrun
  obtain ⟨s, hs, hcall⟩ := Option.bind_eq_some_iff.1 hcall
  simp only [Prod.mk.injEq] at hsent
  obtain ⟨hpeer, hasked, hsent⟩ := hsent
  obtain ⟨-, -, hid, hpeers⟩ := sent_exactly hs hcall
  obtain ⟨i, x, ⟨hx, -⟩, -, -, hplaced, -⟩ := hpeers Swarm.samplePeer (by simp [hasked])
  exact ⟨s, call, hs, hcall, hsent, hid genesisForks_hexLaw _ hpeer, i, x, hx, hplaced (by simp [hsent])⟩

end SentryService

end EthereumSentry
