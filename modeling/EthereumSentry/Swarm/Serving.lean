import EthereumSentry.Sentry.DataProvider
import EthereumSentry.Swarm.Keepalive

/-!
# Messages that are served

The swarm with what its ingress routers await in `handle_event` (`Serving`): the calls of the data provider, which are
answered in any order, by a client that may change its mind, and those of the control. For each session it is recorded
which messages were handled and what came of them.

`served` says what holds of the records in any run: the messages are served one after the other, each with what
`Returns` allows. `chain_served` says what comes of requests when there is a chain behind the client.
-/

set_option autoImplicit false

namespace EthereumSentry

open Function (update)

variable {k : ForkCrates} {c : ChainCrates}

/-- What the ingress router of a session does in `handle_event`. -/
structure EventHandler (c : ChainCrates) where
  /-- What it awaits, or has awaited last. -/
  query : Query c
  /-- The messages, each with whether the peer was valid. -/
  heard : List (Bool × Message)
  /-- What `handle_event` has returned for them. -/
  results : List (Except DisconnectReason (Option Message))
  /-- What the control was called with. -/
  forwarded : List InboundMessage

/-- A swarm with the handlers of its sessions, and the answers that the data provider was told. -/
structure Serving (k : ForkCrates) (c : ChainCrates) where
  swarm : Swarm k
  handlers : Nat → EventHandler c
  told : Told c

namespace EventHandler

def new : EventHandler c := ⟨.panicked, [], [], []⟩

/-- `handle_event` returns. -/
def conclude (h : EventHandler c) (result : Except DisconnectReason (Option Message)) : EventHandler c :=
  { h with results := h.results ++ [result] }

/-- `handle_event` is called with a message, and has looked up whether the peer is valid. -/
def hear (checks : Bool) (R : Rlp.Codec) (k : ForkCrates) (h : EventHandler c) (peer : PeerId) (valid : Bool)
    (message : Message) : EventHandler c :=
  let h := { h with heard := h.heard ++ [(valid, message)] }
  match CapabilityServerImpl.handleMessage k valid message with
  | .done => h.conclude (.ok none)
  | .kick reason => h.conclude (.error reason)
  | .status _ => h
  | .query id data => { h with
    query := .start checks R id data
    forwarded := h.forwarded ++ (Query.announcement peer id data).toList }
  | .reply message => h.conclude (.ok (some message))

end EventHandler

/-- The end of `handle_event` for a `Status`. -/
def CapabilityServerImpl.statusResult (s : CapabilityServerImpl k) (peer : PeerId) (v : StatusMessage k.ForkId) :
    Except DisconnectReason (Option Message) :=
  match s.acceptStatus peer v with
  | .ok _ => .ok none
  | .error reason => .error reason

/-- The ingress router awaits a query, and was not dropped. -/
def Session.awaits (x : Session k) : Bool :=
  match x.ingress with
  | .querying _ _ => x.egress ≠ .released
  | _ => false

namespace Serving

inductive Action (k : ForkCrates) (c : ChainCrates) where
  /-- A step of the swarm, other than with the result of a query. -/
  | swarm (e : Event k)
  /-- Something happens to the query of a session. -/
  | query (session : Nat) (e : Query.Event c)
  /-- The query of a session returns. -/
  | answer (session : Nat)

/-- A step of the swarm in which an ingress router gets the result of a query. -/
def isAnswer : Event k → Bool
  | .task _ (.answer _) => true
  | _ => false

def new (k : ForkCrates) (c : ChainCrates) (maxPeers : Nat) : Serving k c := ⟨.new k maxPeers, fun _ => .new, []⟩

/-- A handler changes. -/
def set (s : Serving k c) (sid : Nat) (h : EventHandler c) : Serving k c :=
  { s with handlers := update s.handlers sid h }

/-- What a step of the swarm is for the handlers: an ingress router calls `handle_event`, or is under the locks for a
`Status`. -/
def observe (checks : Bool) (R : Rlp.Codec) (s : Serving k c) : Event k → Serving k c
  | .handle sid => match s.swarm.sessions[sid]? with
    | some x => match x.ingress with
      | .handling message =>
        s.set sid ((s.handlers sid).hear checks R k x.peer (x.peer ∈ s.swarm.server.validPeers) message)
      | _ => s
    | none => s
  | .accept sid => match s.swarm.sessions[sid]? with
    | some x => match x.ingress with
      | .accepting v => s.set sid ((s.handlers sid).conclude (s.swarm.server.statusResult x.peer v))
      | _ => s
    | none => s
  | _ => s

/-- The ingress router of the session awaits a query. -/
def awaits (s : Serving k c) (sid : Nat) : Bool :=
  match s.swarm.sessions[sid]? with
  | some x => x.awaits
  | none => false

/-- The query of a session goes on, after some answers. -/
def goOn (s : Serving k c) (sid : Nat) (query : Query c) (answers : Told c) : Serving k c :=
  { s.set sid { s.handlers sid with query := query } with told := s.told ++ answers }

/-- **A step** of the swarm or of a query. -/
def step (checks : Bool) (R : Rlp.Codec) (s : Serving k c) : Action k c → Option (Serving k c)
  | .swarm e =>
    if isAnswer e then none else (s.swarm.step e).map fun swarm => { s.observe checks R e with swarm := swarm }
  | .query sid e =>
    if s.awaits sid then ((s.handlers sid).query.step checks R e).map (s.goOn sid · e.told) else none
  | .answer sid => match (s.handlers sid).query with
    | .returned result => (s.swarm.step (.task sid (.answer result))).map fun swarm =>
      { s.set sid ((s.handlers sid).conclude result) with swarm := swarm }
    | _ => none

end Serving

/-! ## What is served -/

/-- What `handle_event` may return for a message of a peer that is valid or not, with the answers that the data provider
was told. -/
def Serves (k : ForkCrates) (checks : Bool) (R : Rlp.Codec) (told : Told c) (heard : Bool × Message)
    (result : Except DisconnectReason (Option Message)) : Prop :=
  match CapabilityServerImpl.handleMessage k heard.1 heard.2 with
  | .done => result = .ok none
  | .kick reason => result = .error reason
  | .status _ => result = .ok none ∨ result = .error .uselessPeer
  | .query id data => Returns checks R told id data result
  | .reply message => result = .ok (some message)

/-- What the control is called with for a message. -/
def announced (k : ForkCrates) (peer : PeerId) (heard : Bool × Message) : Option InboundMessage :=
  match CapabilityServerImpl.handleMessage k heard.1 heard.2 with
  | .query id data => Query.announcement peer id data
  | _ => none

/-- The ingress router is not inside of a call of `handle_event` that has looked up whether the peer is valid. -/
def Ingress.Idle : Ingress k → Prop
  | .accepting _ | .querying _ _ => False
  | _ => True

/-- **The record of a session**: all messages were served, but for the one that its ingress router is at. -/
def EventHandler.Record (checks : Bool) (R : Rlp.Codec) (told : Told c) (h : EventHandler c) : Ingress k → Prop
  | .accepting v => ∃ served last, h.heard = served ++ [last] ∧ List.Forall₂ (Serves k checks R told) served h.results ∧
    CapabilityServerImpl.handleMessage k last.1 last.2 = .status v
  | .querying id data => ∃ served last, h.heard = served ++ [last] ∧
    List.Forall₂ (Serves k checks R told) served h.results ∧
    CapabilityServerImpl.handleMessage k last.1 last.2 = .query id data ∧ h.query.Sound checks R told id data
  | _ => List.Forall₂ (Serves k checks R told) h.heard h.results

variable {checks : Bool} {R : Rlp.Codec} {told told' : Told c} {h : EventHandler c}

namespace Session

/-- The ingress router has left `handle_event`. -/
theorem afterHandling_idle (result : Except DisconnectReason (Option Message)) :
    (afterHandling result : Ingress k).Idle := by
  unfold afterHandling
  split <;> trivial

end Session

theorem CapabilityServerImpl.isQuery_of_handleMessage {valid : Bool} {message : Message} {id : MessageId} {data : Bytes}
    (hm : handleMessage k valid message = .query id data) : Query.IsQuery id ∧ valid = true := by
  unfold handleMessage at hm
  split at hm
  · cases hm
  · split at hm <;> cases hm
  · rename_i id' hid hne
    cases valid with
    | false => cases hm
    | true =>
      cases id' <;> cases hm <;> simp [Query.IsQuery]

theorem CapabilityServerImpl.statusResult_cases (s : CapabilityServerImpl k) (peer : PeerId)
    (v : StatusMessage k.ForkId) :
    s.statusResult peer v = .ok none ∨ s.statusResult peer v = .error .uselessPeer := by
  unfold statusResult acceptStatus
  cases s.statusMessage with
  | none => exact .inl rfl
  | some status =>
    dsimp only
    by_cases hv : k.validate status.2 v.forkId
    · rw [if_pos hv]
      exact .inl rfl
    · rw [if_neg hv]
      exact .inr rfl

theorem Serves.mono (hsub : told ⊆ told') {heard : Bool × Message} {result : Except DisconnectReason (Option Message)}
    (hs : Serves k checks R told heard result) : Serves k checks R told' heard result := by
  unfold Serves at hs ⊢
  split at hs
  · exact hs
  · exact hs
  · exact hs
  · exact Query.returns_mono hsub hs
  · exact hs

namespace EventHandler

theorem serves_mono (hsub : told ⊆ told') {heard : List (Bool × Message)}
    {results : List (Except DisconnectReason (Option Message))}
    (hs : List.Forall₂ (Serves k checks R told) heard results) : List.Forall₂ (Serves k checks R told') heard results :=
  List.Forall₂.imp (fun _ _ hs => hs.mono hsub) hs

/-- More answers take nothing back. -/
theorem Record.mono (hsub : told ⊆ told') {i : Ingress k} (hr : h.Record checks R told i) :
    h.Record checks R told' i := by
  cases i with
  | accepting v =>
    obtain ⟨served, last, hh, hs, hv⟩ := hr
    exact ⟨served, last, hh, serves_mono hsub hs, hv⟩
  | querying id data =>
    obtain ⟨served, last, hh, hs, hv, hq⟩ := hr
    exact ⟨served, last, hh, serves_mono hsub hs, hv, hq.mono hsub⟩
  | unspawned | waiting | handling | replying | sending | finished | panicked => exact serves_mono hsub hr

/-- Outside of `handle_event` every message was served. -/
theorem record_idle {i : Ingress k} (hi : i.Idle) :
    h.Record checks R told i ↔ List.Forall₂ (Serves k checks R told) h.heard h.results := by
  cases i with
  | accepting | querying => exact hi.elim
  | unspawned | waiting | handling | replying | sending | finished | panicked => exact Iff.rfl

/-- `handle_event` returns for the last message. -/
theorem served_snoc {served : List (Bool × Message)} {last : Bool × Message}
    {result : Except DisconnectReason (Option Message)} (hh : h.heard = served ++ [last])
    (hs : List.Forall₂ (Serves k checks R told) served h.results) (hr : Serves k checks R told last result) :
    List.Forall₂ (Serves k checks R told) (h.conclude result).heard (h.conclude result).results := by
  rw [conclude, hh]
  exact List.rel_append hs (.cons hr .nil)

/-- `handle_event` is called with a message. -/
theorem hear_record {i : Ingress k} (hi : i.Idle) (hr : h.Record checks R told i) (peer : PeerId) (valid : Bool)
    (message : Message) : (h.hear checks R k peer valid message).Record checks R told
      (match CapabilityServerImpl.handleMessage k valid message with
        | .done => .waiting
        | .kick reason => Session.afterHandling (.error reason)
        | .status v => .accepting v
        | .query id data => .querying id data
        | .reply message => Session.afterHandling (.ok (some message))) := by
  have hs := (record_idle hi).1 hr
  unfold hear
  cases hm : CapabilityServerImpl.handleMessage k valid message with
  | done => exact served_snoc (h := { h with heard := _ }) rfl hs (by simp only [Serves, hm])
  | kick reason =>
    exact (record_idle (Session.afterHandling_idle _)).2
      (served_snoc (h := { h with heard := _ }) rfl hs (by simp only [Serves, hm]))
  | status v => exact ⟨h.heard, _, rfl, hs, hm⟩
  | query id data =>
    exact ⟨h.heard, _, rfl, hs, hm, Query.start_sound (CapabilityServerImpl.isQuery_of_handleMessage hm).1⟩
  | reply message =>
    exact (record_idle (Session.afterHandling_idle _)).2
      (served_snoc (h := { h with heard := _ }) rfl hs (by simp only [Serves, hm]))

/-- `handle_event` returns for a `Status`. -/
theorem conclude_status {v : StatusMessage k.ForkId} (hr : h.Record checks R told (.accepting v : Ingress k))
    {result : Except DisconnectReason (Option Message)} (hv : result = .ok none ∨ result = .error .uselessPeer) :
    List.Forall₂ (Serves k checks R told) (h.conclude result).heard (h.conclude result).results := by
  obtain ⟨served, last, hh, hs, hm⟩ := hr
  refine served_snoc hh hs ?_
  simp only [Serves, hm]
  exact hv

/-- The query of `handle_event` returns. -/
theorem conclude_query {id : MessageId} {data : Bytes} (hr : h.Record checks R told (.querying id data : Ingress k))
    {result : Except DisconnectReason (Option Message)} (hq : h.query = .returned result) :
    List.Forall₂ (Serves k checks R told) (h.conclude result).heard (h.conclude result).results := by
  obtain ⟨served, last, hh, hs, hm, hsound⟩ := hr
  refine served_snoc hh hs ?_
  rw [hq] at hsound
  simp only [Serves, hm]
  exact hsound

end EventHandler

/-! ## Steps -/

namespace Swarm

variable {s s' : Swarm k} {sid : Nat} {x : Session k} {e : Event k}

/-- **Ingress routers that do not move in or out of `handle_event`**: a session, on an event that is none of those. -/
theorem step_idle (hs : s.ToSpawn) (h : s.step e = some s') (hx : s.sessions[sid]? = some x) (hh : e ≠ .handle sid)
    (ha : e ≠ .accept sid) (hn : Serving.isAnswer e = false) : ∃ x', s'.sessions[sid]? = some x' ∧ x'.peer = x.peer ∧
      (x'.ingress = x.ingress ∨ x.ingress.Idle ∧ x'.ingress.Idle) := by
  obtain ⟨x', hx', hshift⟩ := step_shifts h hx
  refine ⟨x', hx', ?_⟩
  cases hshift with
  | same | spawnEgress | spawnPinger | left => exact ⟨rfl, .inl rfl⟩
  | spawnIngress he hu hsid hstage =>
    have hun := (hs _ hu x (hsid ▸ hx)).1 (by rw [hstage]; rfl)
    exact ⟨rfl, .inr ⟨by rw [hun]; trivial, trivial⟩⟩
  | task he hacts =>
    subst he
    cases hacts with
    | receive received hi =>
      have hidle : x.ingress.Idle := by rw [hi]; trivial
      cases received with
      | message => exact ⟨rfl, .inr ⟨hidle, trivial⟩⟩
      | ping | disconnect | closed => exact ⟨rfl, .inr ⟨hidle, trivial⟩⟩
      | pong => exact ⟨rfl, .inl rfl⟩
    | sent hi => exact ⟨rfl, .inr ⟨by rw [hi]; trivial, trivial⟩⟩
    | answer => cases hn
    | startPing | pinged | stopPinging | timeout | goOn | select | flush => exact ⟨rfl, .inl rfl⟩
  | handled ingress accepted he =>
    obtain he | he | rfl := he
    · exact absurd he hh
    · exact absurd he ha
    · -- a reply has left `handle_event` before its lookup and after it
      refine ⟨rfl, .inr ?_⟩
      cases steps_of_step h with
      | @reply _ y event hy hi =>
        obtain rfl := Option.some.inj (hy.symm.trans hx)
        refine ⟨by rw [hi]; trivial, ?_⟩
        have hself := fun z => List.getElem?_set_self (a := z) (List.getElem?_eq_some_iff.1 hx).1
        unfold lookupSender at hx'
        split at hx'
        · rw [setSession, hself, Option.some.injEq, Session.mk.injEq] at hx'
          rw [← hx'.2.1]
          trivial
        · rw [setSession, hself, Option.some.injEq, Session.mk.injEq] at hx'
          rw [← hx'.2.1]
          trivial

end Swarm

/-! ## Runs -/

namespace Serving

variable {s s' : Serving k c}

/-- **The invariant of the records.** -/
structure Sound (checks : Bool) (R : Rlp.Codec) (s : Serving k c) : Prop where
  toSpawn : s.swarm.ToSpawn
  record : ∀ (sid : Nat) x, s.swarm.sessions[sid]? = some x → (s.handlers sid).Record checks R s.told x.ingress
  forwarded : ∀ (sid : Nat) x, s.swarm.sessions[sid]? = some x →
    (s.handlers sid).forwarded = (s.handlers sid).heard.filterMap (announced k x.peer)
  unused : ∀ sid, s.swarm.sessions[sid]? = none → s.handlers sid = .new

/-- What is observed on a step of the swarm is of one session. -/
theorem observe_of_ne {e : Event k} {sid : Nat} (hh : e ≠ .handle sid) (ha : e ≠ .accept sid) :
    (s.observe checks R e).handlers sid = s.handlers sid := by
  have hne : ∀ {i : Nat}, sid ≠ i → ∀ h : EventHandler c, (s.set i h).handlers sid = s.handlers sid :=
    fun hi _ => Function.update_of_ne hi _ _
  unfold observe
  split
  · rename_i i
    have hi : sid ≠ i := fun hi => hh (by rw [hi])
    split
    · split
      · exact hne hi _
      · rfl
    · rfl
  · rename_i i
    have hi : sid ≠ i := fun hi => ha (by rw [hi])
    split
    · split
      · exact hne hi _
      · rfl
    · rfl
  · rfl

theorem observe_told (e : Event k) : (s.observe checks R e).told = s.told := by
  unfold observe
  split
  · split
    · split <;> rfl
    · rfl
  · split
    · split <;> rfl
    · rfl
  · rfl

/-- What a call of `handle_event` hears is forwarded at once, if at all. -/
theorem hear_forwarded {h : EventHandler c} {peer : PeerId} (hf : h.forwarded = h.heard.filterMap (announced k peer))
    (valid : Bool) (message : Message) : (h.hear checks R k peer valid message).forwarded =
      (h.hear checks R k peer valid message).heard.filterMap (announced k peer) := by
  unfold EventHandler.hear
  cases hm : CapabilityServerImpl.handleMessage k valid message <;>
    simp [EventHandler.conclude, announced, hm, hf, List.filterMap_append, List.filterMap_cons, List.filterMap_nil]
  cases Query.announcement peer _ _ <;> rfl

/-- The records of the sessions that a step of the swarm is about. -/
theorem Sound.swarm (hs : s.Sound checks R) {e : Event k} (hn : isAnswer e = false) {t : Swarm k}
    (h : s.swarm.step e = some t) : Sound checks R { s.observe checks R e with swarm := t } := by
  have hold : ∀ {sid : Nat} {x : Session k}, s.swarm.sessions[sid]? = some x →
      (s.handlers sid).Record checks R s.told x.ingress := fun hx => hs.record _ _ hx
  have key : ∀ (sid : Nat) x', t.sessions[sid]? = some x' →
      ((s.observe checks R e).handlers sid).Record checks R s.told x'.ingress ∧
      ((s.observe checks R e).handlers sid).forwarded =
        ((s.observe checks R e).handlers sid).heard.filterMap (announced k x'.peer) := by
    intro sid x' hx'
    by_cases hh : e = .handle sid
    · subst hh
      cases Swarm.steps_of_step h with
      | @handle _ x message hx hi =>
        rw [Swarm.handle, Swarm.setSession, List.getElem?_set_self (List.getElem?_eq_some_iff.1 hx).1] at hx'
        obtain rfl := Option.some.inj hx'
        have hobserve : (s.observe checks R (.handle sid)).handlers sid =
            (s.handlers sid).hear checks R k x.peer (x.peer ∈ s.swarm.server.validPeers) message := by
          simp only [observe, hx, hi, set, Function.update_self]
        rw [hobserve]
        exact ⟨EventHandler.hear_record (by rw [hi]; trivial) (hold hx) _ _ _,
          hear_forwarded (hs.forwarded sid x hx) _ _⟩
    by_cases ha : e = .accept sid
    · subst ha
      cases Swarm.steps_of_step h with
      | @accept _ x v hx hi =>
        have hobserve : (s.observe checks R (.accept sid)).handlers sid =
            (s.handlers sid).conclude (s.swarm.server.statusResult x.peer v) := by
          simp only [observe, hx, hi, set, Function.update_self]
        have hrecord := hold hx
        rw [hi] at hrecord
        have hserved := EventHandler.conclude_status hrecord (s.swarm.server.statusResult_cases x.peer v)
        rw [hobserve]
        unfold Swarm.accept at hx'
        split at hx'
        · rw [Swarm.setSession, List.getElem?_set_self (List.getElem?_eq_some_iff.1 hx).1] at hx'
          obtain rfl := Option.some.inj hx'
          exact ⟨hserved, hs.forwarded sid x hx⟩
        · rename_i reason _
          rw [Swarm.setSession, List.getElem?_set_self (List.getElem?_eq_some_iff.1 hx).1] at hx'
          obtain rfl := Option.some.inj hx'
          exact ⟨(EventHandler.record_idle (Session.afterHandling_idle (Except.error reason))).2 hserved,
            hs.forwarded sid x hx⟩
    rw [observe_of_ne hh ha]
    cases hx : s.swarm.sessions[sid]? with
    | none =>
      obtain ⟨p, rfl⟩ := Swarm.step_begins h hx hx'
      rw [hs.unused sid hx]
      exact ⟨.nil, rfl⟩
    | some x =>
      obtain ⟨x'', hx'', hpeer, hingress⟩ := Swarm.step_idle hs.toSpawn h hx hh ha hn
      obtain rfl := Option.some.inj (hx''.symm.trans hx')
      refine ⟨?_, hpeer ▸ hs.forwarded sid x hx⟩
      rcases hingress with heq | ⟨hi, hi'⟩
      · exact heq ▸ hold hx
      · exact (EventHandler.record_idle hi').2 ((EventHandler.record_idle hi).1 (hold hx))
  refine ⟨Swarm.step_toSpawn hs.toSpawn h, fun sid x' hx' => ?_, fun sid x' hx' => (key sid x' hx').2,
    fun sid hnone => ?_⟩
  · dsimp only
    rw [observe_told]
    exact (key sid x' hx').1
  · have hx : s.swarm.sessions[sid]? = none := by
      cases hx : s.swarm.sessions[sid]? with
      | none => rfl
      | some x =>
        obtain ⟨x', hx', -⟩ := Swarm.step_shifts h hx
        cases hnone.symm.trans hx'
    have hne : ∀ e', e' = .handle sid ∨ e' = .accept sid → e ≠ e' := by
      rintro _ he rfl
      rcases he with rfl | rfl <;> simp [Swarm.step, hx] at h
    exact (observe_of_ne (hne _ (.inl rfl)) (hne _ (.inr rfl))).trans (hs.unused sid hx)

/-- The records of a session whose query goes on. -/
theorem Sound.query (hs : s.Sound checks R) {sid : Nat} (ha : s.awaits sid = true) {e : Query.Event c} {q : Query c}
    (hq : (s.handlers sid).query.step checks R e = some q) :
    (s.goOn sid q e.told).Sound checks R := by
  have hsub : s.told ⊆ s.told ++ e.told := List.subset_append_left _ _
  have hself : (s.goOn sid q e.told).handlers sid = { s.handlers sid with query := q } := Function.update_self ..
  have hne : ∀ {i : Nat}, i ≠ sid → (s.goOn sid q e.told).handlers i = s.handlers i :=
    fun hi => Function.update_of_ne hi ..
  refine ⟨hs.toSpawn, fun i x hx => ?_, fun i x hx => ?_, fun i hi => ?_⟩
  · change s.swarm.sessions[i]? = some x at hx
    by_cases hi : i = sid
    · subst hi
      rw [hself]
      have hrecord := hs.record i x hx
      have hawaits : x.awaits = true := by simpa only [awaits, hx] using ha
      unfold Session.awaits at hawaits
      split at hawaits
      · rename_i id data hquery
        rw [hquery] at hrecord ⊢
        obtain ⟨served, last, hh, hserved, hm, hsound⟩ := hrecord
        exact ⟨served, last, hh, EventHandler.serves_mono hsub hserved, hm, hsound.step hq⟩
      · cases hawaits
    · rw [hne hi]
      exact (hs.record i x hx).mono hsub
  · change s.swarm.sessions[i]? = some x at hx
    by_cases hi : i = sid
    · subst hi
      rw [hself]
      exact hs.forwarded i x hx
    · rw [hne hi]
      exact hs.forwarded i x hx
  · have hi' : i ≠ sid := by
      rintro rfl
      change s.swarm.sessions[i]? = none at hi
      simp [awaits, hi] at ha
    exact (hne hi').trans (hs.unused i hi)

/-- The records of a session whose query returns. -/
theorem Sound.answer (hs : s.Sound checks R) {sid : Nat} {result : Except DisconnectReason (Option Message)}
    (hq : (s.handlers sid).query = .returned result) {t : Swarm k}
    (h : s.swarm.step (.task sid (.answer result)) = some t) :
    Sound checks R { s.set sid ((s.handlers sid).conclude result) with swarm := t } := by
  have hself : (s.set sid ((s.handlers sid).conclude result)).handlers sid = (s.handlers sid).conclude result :=
    Function.update_self ..
  have hne : ∀ {i : Nat}, i ≠ sid → (s.set sid ((s.handlers sid).conclude result)).handlers i = s.handlers i :=
    fun hi => Function.update_of_ne hi ..
  have hspawn := Swarm.step_toSpawn hs.toSpawn h
  cases Swarm.steps_of_step h with
  | @task _ x x' _ hx hstep =>
    have hother : ∀ {i : Nat}, i ≠ sid → (s.swarm.setSession sid x').sessions[i]? = s.swarm.sessions[i]? :=
      fun hi => List.getElem?_set_ne (Ne.symm hi)
    have hat : (s.swarm.setSession sid x').sessions[sid]? = some x' :=
      List.getElem?_set_self (List.getElem?_eq_some_iff.1 hx).1
    obtain ⟨id, data, hi, rfl⟩ : ∃ id data, x.ingress = .querying id data ∧
        x' = { x with ingress := Session.afterHandling result } := by
      cases Session.acts_of_step hstep with
      | answer _ hi => exact ⟨_, _, hi, rfl⟩
    have hserved := EventHandler.conclude_query (hi ▸ hs.record sid x hx) hq
    refine ⟨hspawn, fun i y hy => ?_, fun i y hy => ?_, fun i hy => ?_⟩
    · dsimp only at hy ⊢
      by_cases hsid : i = sid
      · subst hsid
        rw [hat] at hy
        obtain rfl := Option.some.inj hy
        rw [hself]
        exact (EventHandler.record_idle (Session.afterHandling_idle result)).2 hserved
      · rw [hother hsid] at hy
        rw [hne hsid]
        exact hs.record i y hy
    · dsimp only at hy ⊢
      by_cases hsid : i = sid
      · subst hsid
        rw [hat] at hy
        obtain rfl := Option.some.inj hy
        rw [hself]
        exact hs.forwarded i x hx
      · rw [hother hsid] at hy
        rw [hne hsid]
        exact hs.forwarded i y hy
    · have hsid : i ≠ sid := by
        rintro rfl
        exact absurd (hat.symm.trans hy) (by simp)
      exact (hne hsid).trans (hs.unused i ((hother hsid).symm.trans hy))

/-- **A step keeps the records.** -/
theorem step_sound (s : Serving k c) (a : Action k c) (s' : Serving k c) (hs : s.Sound checks R)
    (h : s.step checks R a = some s') : s'.Sound checks R := by
  cases a with
  | swarm e =>
    simp only [step] at h
    split at h
    · cases h
    · rename_i hn
      obtain ⟨t, ht, rfl⟩ := Option.map_eq_some_iff.1 h
      exact hs.swarm (Bool.eq_false_iff.2 hn) ht
  | query sid e =>
    simp only [step] at h
    split at h
    · obtain ⟨q, hq, rfl⟩ := Option.map_eq_some_iff.1 h
      exact hs.query ‹_› hq
    · cases h
  | answer sid =>
    simp only [step] at h
    split at h
    · obtain ⟨t, ht, rfl⟩ := Option.map_eq_some_iff.1 h
      exact hs.answer ‹_› ht
    · cases h

theorem new_sound (checks : Bool) (R : Rlp.Codec) (k : ForkCrates) (c : ChainCrates) (maxPeers : Nat) :
    (new k c maxPeers).Sound checks R where
  toSpawn u hu := by simp [new, Swarm.new] at hu
  record sid x hx := by simp [new, Swarm.new] at hx
  forwarded sid x hx := by simp [new, Swarm.new] at hx
  unused _ _ := rfl

theorem run_sound {maxPeers : Nat} {as : List (Action k c)}
    (h : Runs.run (step checks R) (new k c maxPeers) as = some s) : s.Sound checks R :=
  Runs.invariant step_sound as (new_sound checks R k c maxPeers) h

/-! ## Queries that end -/

/-- While the ingress router awaits its query, an oracle that answers the calls leads the query on, and nothing else. -/
theorem run_query {sid : Nat} {oracle : ∀ q, EthApi.Answer c q} {q : Query c} (ha : s.awaits sid = true)
    (hq : Query.Proceeds checks R oracle (s.handlers sid).query q) : ∃ as answers, Ask.Truthful oracle answers ∧
      Runs.run (step checks R) s as = some (s.goOn sid q answers) := by
  obtain ⟨es, hes, hrun⟩ := hq
  refine ⟨es.map (.query sid), es.flatMap (·.told), fun x hx => ?_, ?_⟩
  · obtain ⟨e, he, hx⟩ := List.mem_flatMap.1 hx
    exact hes e he x hx
  · clear hes
    induction es generalizing s with
    | nil =>
      obtain rfl := Option.some.inj hrun
      rw [List.map_nil, Runs.run_nil, goOn, set, Function.update_eq_self]
      simp
    | cons e es ih =>
      obtain ⟨q', hq', hrun⟩ := Option.bind_eq_some_iff.1 hrun
      have hstep : s.step checks R (.query sid e) = some (s.goOn sid q' e.told) := by
        rw [step, if_pos ha, hq', Option.map_some]
      have hself : (s.goOn sid q' e.told).handlers sid = { s.handlers sid with query := q' } := Function.update_self ..
      have hrest := ih (s := s.goOn sid q' e.told) ha (by rw [hself]; exact hrun)
      rw [List.map_cons, Runs.run_cons, hstep, Option.bind_some, hrest]
      simp [goOn, set, List.append_assoc]

/-- The query of the session returns, and its ingress router goes on. -/
theorem step_answer (checks : Bool) {sid : Nat} (ha : s.awaits sid = true)
    {result : Except DisconnectReason (Option Message)} (hq : (s.handlers sid).query = .returned result) : ∃ t,
      step checks R s (.answer sid) = some { s.set sid ((s.handlers sid).conclude result) with swarm := t } := by
  unfold awaits at ha
  split at ha
  · rename_i x hx
    have hstep : ∃ x', x.step (.answer result) = some x' := by
      unfold Session.awaits at ha
      split at ha
      · rename_i id data hi
        have he : x.egress ≠ .released := by simpa using ha
        exact ⟨{ x with ingress := Session.afterHandling result }, by simp only [Session.step, if_neg he, hi]⟩
      · cases ha
    obtain ⟨x', hx'⟩ := hstep
    refine ⟨s.swarm.setSession sid x', ?_⟩
    simp only [step, hq, Swarm.step, hx, Option.bind_some, hx', Option.map_some]
  · cases ha

/-- All messages that were handled were served, but for one that the ingress router is at. -/
theorem Sound.recorded (hs : s.Sound checks R) {sid : Nat} {x : Session k} (hx : s.swarm.sessions[sid]? = some x) :
    ∃ served pending, (s.handlers sid).heard = served ++ pending ∧
      List.Forall₂ (Serves k checks R s.told) served (s.handlers sid).results ∧
      (pending = [] ∨ ∃ last, pending = [last] ∧ ¬x.ingress.Idle) := by
  have hrecord := hs.record sid x hx
  cases hi : x.ingress with
  | accepting v =>
    rw [hi] at hrecord
    obtain ⟨served, last, hh, hserved, -⟩ := hrecord
    exact ⟨served, [last], hh, hserved, .inr ⟨last, rfl, id⟩⟩
  | querying id' data =>
    rw [hi] at hrecord
    obtain ⟨served, last, hh, hserved, -⟩ := hrecord
    exact ⟨served, [last], hh, hserved, .inr ⟨last, rfl, id⟩⟩
  | unspawned | waiting | handling | replying | sending | finished | panicked =>
    rw [hi] at hrecord
    exact ⟨_, [], (List.append_nil _).symm, hrecord, .inl rfl⟩

/-- **Messages are served**, in every run of a new swarm with its data provider. Those that the ingress router of a
session has handled were served in their order, each with what `handle_event` may return for it, but for one that it is
at. The control was called with the announcements of peers that were valid, each once, in their order. A query panics
only over numbers out of range, of a header or of a request, or over too many of them (`Panics`). And whatever a data
provider answers from now on, the query comes to an end. -/
theorem served {maxPeers : Nat} {as : List (Action k c)} (h : Runs.run (step checks R) (new k c maxPeers) as = some s)
    {sid : Nat} {x : Session k} (hx : s.swarm.sessions[sid]? = some x) :
    (∃ served pending, (s.handlers sid).heard = served ++ pending ∧
      List.Forall₂ (Serves k checks R s.told) served (s.handlers sid).results ∧
      (pending = [] ∨ ∃ last, pending = [last] ∧ ¬x.ingress.Idle)) ∧
    (s.handlers sid).forwarded = (s.handlers sid).heard.filterMap (announced k x.peer) ∧
    (∀ id data, x.ingress = .querying id data → (s.handlers sid).query = .panicked →
      Panics checks R s.told id data) ∧
    (x.awaits = true → ∀ oracle : ∀ q, EthApi.Answer c q, ∃ bs t answers,
      Runs.run (step checks R) s bs = some t ∧ t.told = s.told ++ answers ∧ Ask.Truthful oracle answers ∧
        ((t.handlers sid).query = .panicked ∨
          ∃ result, (t.handlers sid).results = (s.handlers sid).results ++ [result])) := by
  have hs := run_sound h
  have hrecord := hs.record sid x hx
  refine ⟨hs.recorded hx, hs.forwarded sid x hx, fun id data hi hq => ?_, fun ha oracle => ?_⟩
  · rw [hi] at hrecord
    obtain ⟨served, last, -, -, -, hsound⟩ := hrecord
    rw [hq] at hsound
    exact hsound
  · have ha : s.awaits sid = true := by rw [awaits, hx]; exact ha
    obtain ⟨q, hended, hproceeds⟩ := Query.exists_proceeds checks R oracle (s.handlers sid).query
    obtain ⟨bs, answers, hanswers, hrun⟩ := run_query ha hproceeds
    have hself : (s.goOn sid q answers).handlers sid = { s.handlers sid with query := q } := Function.update_self ..
    rcases hended with rfl | ⟨result, rfl⟩
    · exact ⟨bs, _, answers, hrun, rfl, hanswers, .inl (by rw [hself])⟩
    · have ha' : (s.goOn sid (.returned result) answers).awaits sid = true := ha
      obtain ⟨t, ht, htold, hresults⟩ : ∃ t,
          step checks R (s.goOn sid (.returned result) answers) (.answer sid) = some t ∧
          t.told = s.told ++ answers ∧ (t.handlers sid).results = (s.handlers sid).results ++ [result] := by
        obtain ⟨swarm, ht⟩ := step_answer (R := R) checks ha' (by rw [hself])
        exact ⟨_, ht, rfl, by simp [goOn, set, EventHandler.conclude]⟩
      refine ⟨bs ++ [.answer sid], t, answers, ?_, htold, hanswers, .inr ⟨result, hresults⟩⟩
      rw [Runs.run_snoc, hrun, Option.bind_some, ht]

section Example

/-- Headers that are their numbers. -/
def numberCrates : ChainCrates := ⟨Nat, Nat, id, 640, fun n => [UInt8.ofNat n], fun n => [UInt8.ofNat n]⟩

/-- A hash for each number. -/
def numberHash (n : Nat) : H256 := FixedBytes.ofNat 32 (n + 1)

/-- A peer connects and is valid, and asks for two headers from the genesis block up. The calls for the second header
are answered before those for the first. -/
def serveTwo : List (Action genesisForks numberCrates) :=
  Swarm.connectIncoming.map .swarm ++ [.swarm (.task 0 (.receive (.message ⟨0, genesisStatusBytes⟩))),
    .swarm (.handle 0), .swarm (.accept 0),
    .swarm (.task 0 (.receive (.message ⟨3, [0xc4, 0x80, 0x02, 0x80, 0x80]⟩))), .swarm (.handle 0),
    .query 0 (.tell 1 ⟨.canonicalHash 1, .ok (some (numberHash 1))⟩),
    .query 0 (.tell 1 ⟨.header (numberHash 1), .ok (some (1 : Nat))⟩),
    .query 0 (.tell 0 ⟨.canonicalHash 0, .ok (some (numberHash 0))⟩),
    .query 0 (.tell 0 ⟨.header (numberHash 0), .ok (some (0 : Nat))⟩),
    .query 0 .poll, .query 0 .poll, .query 0 .poll, .answer 0]

end Example

/-- The `Status` and the request were served. -/
theorem serveTwo_served : ∃ s x served pending,
    Runs.run (step true Rlp.standard) (new genesisForks numberCrates 10) serveTwo = some s ∧
      s.swarm.sessions[0]? = some x ∧ (s.handlers 0).heard = served ++ pending ∧ served.length = 2 ∧
        List.Forall₂ (Serves genesisForks true Rlp.standard s.told) served (s.handlers 0).results := by
  have hrun : (Runs.run (step true Rlp.standard) (new genesisForks numberCrates 10) serveTwo).map (fun s =>
      (s.swarm.sessions.length, (s.handlers 0).results.length)) = some (1, 2) := by decide +kernel
  obtain ⟨s, hs, hlengths⟩ := Option.map_eq_some_iff.1 hrun
  obtain ⟨hsessions, hresults⟩ := Prod.mk.inj hlengths
  have hx := List.getElem?_eq_getElem (l := s.swarm.sessions) (i := 0) (by omega)
  obtain ⟨served, pending, hh, hserved, -⟩ := (Serving.served hs hx).1
  exact ⟨s, _, served, pending, hs, hx, hh, by rw [hserved.length_eq, hresults], hserved⟩

/-! ## Requests to a chain -/

/-- **A chain is served**: in every run of a new swarm whose data provider answers from a chain, what has come of a
request of a valid peer is what the chain has. A request for headers in range has the headers of its exact numbers, up
to the first that the chain does not have; a request for bodies has those that the chain has, in the order of the
request. -/
theorem chain_served {maxPeers : Nat} {as : List (Action k c)}
    (h : Runs.run (step checks R) (new k c maxPeers) as = some s) (ch : Chain c) (ht : Ask.Truthful ch.answer s.told)
    {sid n : Nat} {id : MessageId} {data : Bytes} {result : Except DisconnectReason (Option Message)}
    (hheard : (s.handlers sid).heard[n]? = some (true, ⟨id.toUsize, data⟩))
    (hresult : (s.handlers sid).results[n]? = some result) :
    (id = .getBlockHeaders → ∀ selector, GetBlockHeaders.decode R data = .ok selector →
      (ch.anchor selector.block = none → result = .ok (some (replyHeaders (c := c) R []))) ∧
      ∀ anchor, ch.anchor selector.block = some anchor → selector.InRange anchor →
        result = .ok (some (replyHeaders R (ch.segment (selector.exactNumbers anchor))))) ∧
    (id = .getBlockBodies → ∀ blocks, decodeHashes R data = .ok blocks →
      result = .ok (some (replyBodies R (blocks.filterMap ch.body)))) := by
  have hs := run_sound h
  -- the session exists, and the message is one of those that were served
  obtain ⟨x, hx⟩ : ∃ x, s.swarm.sessions[sid]? = some x := by
    cases hx : s.swarm.sessions[sid]? with
    | some x => exact ⟨x, rfl⟩
    | none =>
      rw [hs.unused sid hx] at hheard
      cases hheard
  obtain ⟨served, pending, hh, hserved, -⟩ := hs.recorded hx
  have hlt : n < served.length := by
    rw [hserved.length_eq]
    exact (List.getElem?_eq_some_iff.1 hresult).1
  rw [hh, List.getElem?_append_left hlt] at hheard
  have hserves : Serves k checks R s.told (true, ⟨id.toUsize, data⟩) result := by
    obtain ⟨hlt, hget⟩ := List.getElem?_eq_some_iff.1 hheard
    obtain ⟨hlt', hget'⟩ := List.getElem?_eq_some_iff.1 hresult
    have := (List.forall₂_iff_get.1 hserved).2 n hlt hlt'
    rw [List.get_eq_getElem, List.get_eq_getElem, hget, hget'] at this
    exact this
  constructor
  · rintro rfl selector hd
    have hreturns : Returns checks R s.told .getBlockHeaders data result := hserves
    obtain ⟨numbers, hresult, hnumbers⟩ := Chain.returns_headers ht hd hreturns
    refine ⟨fun hnone => ?_, fun anchor hanchor hrange => ?_⟩
    · rw [hnone] at hnumbers
      rw [hresult, hnumbers]
      rfl
    · rw [hanchor] at hnumbers
      dsimp only at hnumbers
      have hroom := (GetBlockHeaders.numbers_eq_some hnumbers).1
      rw [GetBlockHeaders.numbers_of_inRange hrange hroom, Option.some.injEq] at hnumbers
      rw [hresult, hnumbers]
  · rintro rfl blocks hd
    have hreturns : Returns checks R s.told .getBlockBodies data result := hserves
    exact Chain.returns_bodies ht hd hreturns

def twoHeaders (hash : H256) : Option Nat :=
  if hash = numberHash 0 then some 0 else if hash = numberHash 1 then some 1 else none

/-- The chain of the genesis block and the block after it. -/
def twoBlocks : Chain numberCrates where
  canonicalHash n := if n < 2 then some (numberHash n.toNat) else none
  header := twoHeaders
  body _ := none

/-- The answers are those of the chain. -/
def isTwoBlocks : (Σ q, EthApi.Answer numberCrates q) → Bool
  | ⟨.canonicalHash n, .ok (hash : Option H256)⟩ => hash = twoBlocks.canonicalHash n
  | ⟨.header hash, .ok (header : Option Nat)⟩ => header = twoHeaders hash
  | _ => false

/-- The request has both headers, in the order of their numbers. -/
theorem serveTwo_chain : ∃ s, Runs.run (step true Rlp.standard) (new genesisForks numberCrates 10) serveTwo = some s ∧
    (s.handlers 0).results[1]? = some (.ok (some (replyHeaders Rlp.standard (twoBlocks.segment [0, 1])))) := by
  have hrun : (Runs.run (step true Rlp.standard) (new genesisForks numberCrates 10) serveTwo).map (fun s =>
      (s.told.all isTwoBlocks, (s.handlers 0).heard[1]?, (s.handlers 0).results.length)) =
        some (true, some (true, ⟨3, [0xc4, 0x80, 0x02, 0x80, 0x80]⟩), 2) := by decide +kernel
  obtain ⟨s, hs, h⟩ := Option.map_eq_some_iff.1 hrun
  obtain ⟨htold, h⟩ := Prod.mk.inj h
  obtain ⟨hheard, hresults⟩ := Prod.mk.inj h
  have htruthful : Ask.Truthful twoBlocks.answer s.told := fun x hx => by
    have hx := List.all_eq_true.1 htold x hx
    obtain ⟨q, a⟩ := x
    cases q <;> cases a <;> simp only [isTwoBlocks, decide_eq_true_eq, Bool.false_eq_true] at hx
    · exact congrArg _ hx
    · exact congrArg _ hx
  have hresult := List.getElem?_eq_getElem (l := (s.handlers 0).results) (i := 1) (by omega)
  have hdecode : GetBlockHeaders.decode Rlp.standard [0xc4, 0x80, 0x02, 0x80, 0x80] = .ok aboveGenesis := by
    decide +kernel
  have hheard : (s.handlers 0).heard[1]? = some (true, ⟨MessageId.getBlockHeaders.toUsize, _⟩) := hheard
  have hreply := ((chain_served hs twoBlocks htruthful hheard hresult).1 rfl _ hdecode).2 0 rfl
    (.inr ⟨by decide, by decide⟩)
  refine ⟨s, hs, ?_⟩
  rw [hresult, hreply]
  have hnumbers : aboveGenesis.exactNumbers 0 = [0, 1] := by decide +kernel
  rw [hnumbers]

end Serving

end EthereumSentry
