import EthereumSentry.Swarm.Teardown

/-!
# Pings and pongs of a session

The pinger starts a round by raising `pinged`, and ends it with a `PingTimeout` when no pong has lowered it. In every
run a timeout is signalled exactly at the end of a round in which the ingress router has received no pong
(`timeouts_exact`).

The three tasks of a session share two channels with one place each: of the pings, which carry the trigger that the
pinger waits for, and of the pongs (`Keepalive`). In every run each ping received is answered, is in the channel, or is
the one that the ingress router waits with, and a pinger that waits is not forgotten: its trigger is on its way, and the
egress router fires it as long as it is in its loop (`keepalive`).
-/

set_option autoImplicit false

namespace EthereumSentry

open Function (update)

variable {k : ForkCrates}

namespace Session

variable {x x' : Session k}

/-- The steps of the tasks, each with what it requires. -/
inductive Acts (x : Session k) : TaskEvent → Session k → Prop
  | receive (received : Received) (hi : x.ingress = .waiting) : Acts x (.receive received) (x.receive received)
  | answer {id : MessageId} {data : Bytes} (result : Except DisconnectReason (Option Message))
    (hi : x.ingress = .querying id data) : Acts x (.answer result) { x with ingress := afterHandling result }
  | sent (hi : x.ingress = .sending) : Acts x .sent { x with ingress := .waiting }
  | startPing (hp : x.pinger = .looping) : Acts x .startPing { x with pinger := .pinging, pinged := true }
  | pinged (hp : x.pinger = .pinging) : Acts x .pinged { x with pinger := .sleeping }
  | stopPinging (hp : x.pinger = .pinging) : Acts x .stopPinging { x with pinger := .finished }
  | timeout (hp : x.pinger = .sleeping) (h : x.pinged = true) : Acts x .checkPing
    { x with pinger := .finished, signals := x.signals ++ [⟨.localInitiator, .pingTimeout⟩] }
  | goOn (hp : x.pinger = .sleeping) (h : x.pinged = false) : Acts x .checkPing { x with pinger := .looping }
  | select {selected : Selected} {egress : Egress} {signals : List DisconnectSignal} (he : x.egress = .selecting)
    (hnone : selected = .ping ∨ selected = .pong → egress = .flushing none)
    (hsignals : ∀ signal ∈ signals, signal ∈ x.signals) :
    Acts x (.select selected) { x with egress := egress, signals := signals }
  | flush {d : Option DisconnectSignal} {egress : Egress} (ok : Bool) (he : x.egress = .flushing d)
    (hl : ok = false ∨ d ≠ none → ¬egress.Looping) :
    Acts x (.flush ok) { x with egress := egress }

theorem acts_of_select (he : x.egress = .selecting) {selected : Selected} (h : x.select selected = some x') :
    Acts x (.select selected) x' := by
  have hrefl : ∀ signal ∈ x.signals, signal ∈ x.signals := fun _ h => h
  unfold select at h
  split at h
  · cases h
    exact .select he (by simp) hrefl
  · cases h
    exact .select he (by simp) hrefl
  · cases h
    exact .select he (fun _ => rfl) hrefl
  · cases h
    exact .select he (fun _ => rfl) hrefl
  · split at h
    · cases h
    · rename_i signal signals hs
      have hsub : ∀ signal' ∈ signals, signal' ∈ x.signals := fun _ h => by simp [hs, h]
      split at h <;> cases h <;> exact .select he (by simp) hsub

/-- **Every step of a task** is one of these. -/
theorem acts_of_step {e : TaskEvent} (h : x.step e = some x') : Acts x e x' := by
  unfold step at h
  split at h
  · cases h
  · split at h
    · rename_i hi
      cases h
      exact .receive _ hi
    · rename_i hi
      cases h
      exact .answer _ hi
    · rename_i hi
      cases h
      exact .sent hi
    · rename_i hp
      cases h
      exact .startPing hp
    · rename_i hp
      cases h
      exact .pinged hp
    · rename_i hp
      cases h
      exact .stopPinging hp
    · rename_i hp
      split at h
      · cases h
        exact .timeout hp ‹_›
      · rename_i hf
        cases h
        exact .goOn hp (by simpa using hf)
    · exact acts_of_select ‹_› h
    · rename_i he
      cases h
      exact .flush _ he (by simp)
    · rename_i he
      cases h
      exact .flush _ he (by simp [Egress.Looping])
    · rename_i he
      cases h
      exact .flush _ he (by simp [Egress.Looping])
    · cases h

end Session

namespace Swarm

variable {s s' : Swarm k} {sid : Nat} {x x' : Session k}

/-- The event is of no task of the session. -/
def Elsewhere (sid : Nat) (e : Event k) : Prop := ∀ te, e ≠ .task sid te

/-- The ingress router of the session handles something. -/
def Handles (sid : Nat) (e : Event k) : Prop := e = .handle sid ∨ e = .accept sid ∨ e = .reply sid

theorem Handles.elsewhere {e : Event k} (h : Handles sid e) : Elsewhere sid e := by
  rintro te rfl
  rcases h with h | h | h <;> cases h

/-- What a step does to a session that exists: it leaves it as it is, a task of it takes a step, `setup_peer_state`
spawns a task of it, or something happens to the ingress router, or to the egress router after its loop. -/
inductive Shifts (s : Swarm k) (sid : Nat) (x : Session k) (e : Event k) : Session k → Prop
  | same (he : Elsewhere sid e) : Shifts s sid x e x
  | task {te : TaskEvent} {x' : Session k} (he : e = .task sid te) (h : x.Acts te x') : Shifts s sid x e x'
  | spawnIngress {u : Setup} (he : e = .proceed) (hu : s.setup = some u) (hsid : u.session = sid)
    (hstage : u.stage = .registered) : Shifts s sid x e { x with ingress := .waiting }
  | spawnEgress (he : e = .proceed) (hx : x.egress = .unspawned) : Shifts s sid x e { x with egress := .selecting }
  | spawnPinger {u : Setup} (he : e = .proceed) (hu : s.setup = some u) (hsid : u.session = sid)
    (hstage : u.stage = .egressSpawned) : Shifts s sid x e { x with pinger := .looping }
  | handled (ingress : Ingress k) (accepted : Bool) (he : Handles sid e) (hs : x.ingress ≠ .sending)
    (hu : x.ingress ≠ .unspawned) : Shifts s sid x e { x with ingress := ingress, accepted := accepted }
  | left (egress : Egress) (he : Elsewhere sid e) (hl : ¬x.egress.Looping) (hg : ¬egress.Looping) :
    Shifts s sid x e { x with egress := egress }

/-- What is found where one session was replaced. -/
theorem getElem?_set_of {l : List (Session k)} {i : Nat} (y : Session k) (hx : l[sid]? = some x) :
    (l.set i y)[sid]? = some (if i = sid then y else x) := by
  have hlt := (List.getElem?_eq_some_iff.1 hx).1
  by_cases hi : i = sid
  · rw [if_pos hi, hi, List.getElem?_set_self hlt]
  · rw [if_neg hi, List.getElem?_set_ne hi, hx]

/-- A session that is replaced by a step of another kind. -/
theorem shifts_set {i : Nat} {y z : Session k} {e : Event k} (hy : s.sessions[i]? = some y)
    (hx : s.sessions[sid]? = some x) (hother : i ≠ sid → Elsewhere sid e)
    (hset : i = sid → y = x → Shifts s sid x e z) :
    ∃ x', (s.sessions.set i z)[sid]? = some x' ∧ Shifts s sid x e x' := by
  refine ⟨_, getElem?_set_of z hx, ?_⟩
  by_cases hi : i = sid
  · subst hi
    rw [if_pos rfl]
    exact hset rfl (Option.some.inj (hy.symm.trans hx))
  · rw [if_neg hi]
    exact .same (hother hi)

/-- **What a step does to a session.** -/
theorem step_shifts {e : Event k} (h : s.step e = some s') (hx : s.sessions[sid]? = some x) :
    ∃ x', s'.sessions[sid]? = some x' ∧ Shifts s sid x e x' := by
  have happend : ∀ y : Session k, (s.sessions ++ [y])[sid]? = some x := fun y => by
    rw [List.getElem?_append_left (List.getElem?_eq_some_iff.1 hx).1, hx]
  cases steps_of_step h with
  | ban | setStatus | addPeer | poll | drop | told | uncount => exact ⟨x, hx, .same nofun⟩
  | incoming remoteId caps hs =>
    unfold incoming
    split
    · exact ⟨x, hx, .same nofun⟩
    · split
      · exact ⟨x, happend _, .same nofun⟩
      · exact ⟨x, hx, .same nofun⟩
  | claim =>
    unfold claim
    split
    · exact ⟨x, hx, .same nofun⟩
    · split <;> exact ⟨x, hx, .same nofun⟩
  | adopt caps ha hf hs =>
    unfold adopt
    split
    · exact ⟨x, happend _, .same nofun⟩
    · exact ⟨x, hx, .same nofun⟩
  | giveUp =>
    unfold giveUp
    split <;> exact ⟨x, hx, .same nofun⟩
  | reap =>
    unfold reap
    dsimp only
    split <;> exact ⟨x, hx, .same nofun⟩
  | proceed hu hproceed =>
    cases proceeds_of_proceed hproceed with
    | prepare | register | fail | install => exact ⟨x, hx, .same nofun⟩
    | spawnIngress hstage hy =>
      exact shifts_set hy hx (fun _ => nofun) fun hi hyx => hyx ▸ .spawnIngress rfl hu hi hstage
    | spawnEgress hstage hy hegress =>
      exact shifts_set hy hx (fun _ => nofun) fun hi hyx => hyx ▸ .spawnEgress rfl hegress
    | spawnPinger hstage hy =>
      exact shifts_set hy hx (fun _ => nofun) fun hi hyx => hyx ▸ .spawnPinger rfl hu hi hstage
  | @task i y y' te hy hstep =>
    refine shifts_set hy hx (fun hi te' he => ?_) fun hi hyx => ?_
    · cases he
      exact hi rfl
    · subst hi hyx
      exact .task rfl (Session.acts_of_step hstep)
  | handle hy hi =>
    exact shifts_set hy hx (fun _ => nofun) fun hsid hyx =>
      hyx ▸ .handled _ _ (.inl (by rw [hsid])) (by simp [hi]) (by simp [hi])
  | accept hy hi =>
    unfold accept
    split
    · exact shifts_set hy hx (fun _ => nofun) fun hsid hyx =>
        hyx ▸ .handled _ _ (.inr <| .inl (by rw [hsid])) (by simp [hi]) (by simp [hi])
    · exact shifts_set hy hx (fun _ => nofun) fun hsid hyx =>
        hyx ▸ .handled _ _ (.inr <| .inl (by rw [hsid])) (by simp [hi]) (by simp [hi])
  | reply hy hi =>
    unfold lookupSender
    split
    · exact shifts_set hy hx (fun _ => nofun) fun hsid hyx =>
        hyx ▸ .handled _ _ (.inr <| .inr (by rw [hsid])) (by simp [hi]) (by simp [hi])
    · exact shifts_set hy hx (fun _ => nofun) fun hsid hyx =>
        hyx ▸ .handled _ _ (.inr <| .inr (by rw [hsid])) (by simp [hi]) (by simp [hi])
  | disconnect hy he =>
    exact shifts_set hy hx (fun _ => nofun) fun _ hyx => hyx ▸ .left _ nofun (by simp [Egress.Looping, he])
      (by simp [Egress.Looping])
  | teardown hy he =>
    exact shifts_set hy hx (fun _ => nofun) fun _ hyx => hyx ▸ .left _ nofun (by simp [Egress.Looping, he])
      (by simp [Egress.Looping])
  | release hy he =>
    exact shifts_set hy hx (fun _ => nofun) fun _ hyx => hyx ▸ .left _ nofun (by simp [Egress.Looping, he])
      (by simp [Egress.Looping])

/-- A session that a step begins has no tasks yet. -/
theorem step_begins {e : Event k} (h : s.step e = some s') (hnone : s.sessions[sid]? = none)
    (hx' : s'.sessions[sid]? = some x') : ∃ p, x' = .new k p := by
  have hset : ∀ (i : Nat) (y : Session k), (s.sessions.set i y)[sid]? = some x' → False := by
    intro i y hx'
    rw [List.getElem?_eq_none (by rw [List.length_set]; exact List.getElem?_eq_none_iff.1 hnone)] at hx'
    cases hx'
  cases step_moves h with
  | same hsessions =>
    rw [hsessions, hnone] at hx'
    cases hx'
  | @began p attempt caps hs hsessions =>
    rw [hsessions, List.getElem?_append_right (List.getElem?_eq_none_iff.1 hnone)] at hx'
    exact ⟨p, List.mem_singleton.1 (List.mem_of_getElem? hx')⟩
  | proceeded he hu hproceed =>
    cases proceeds_of_proceed hproceed with
    | prepare | register | fail | install => cases hnone.symm.trans hx'
    | spawnIngress | spawnEgress | spawnPinger => exact (hset _ _ hx').elim
  | set hx hsessions =>
    rw [hsessions] at hx'
    exact (hset _ _ hx').elim

/-! ## The rounds of the pinger -/

/-- The pinger of the session starts a round. -/
abbrev startsPing (sid : Nat) : Event k := .task sid .startPing

/-- The ingress router of the session receives a pong. -/
abbrev receivesPong (sid : Nat) : Event k := .task sid (.receive .pong)

/-- What the pinger sends when a round has no pong. -/
def pingTimeout : DisconnectSignal := ⟨.localInitiator, .pingTimeout⟩

/-- The events since the pinger of the session has started its round. -/
structure Round (sid : Nat) (es mid : List (Event k)) : Prop where
  began : ∃ pre, es = pre ++ startsPing sid :: mid
  current : startsPing sid ∉ mid

/-- The pinger of the session has ended a round without a pong. -/
def Unanswered (sid : Nat) (es : List (Event k)) : Prop :=
  ∃ pre mid post, es = pre ++ startsPing sid :: (mid ++ .task sid .checkPing :: post) ∧ startsPing sid ∉ mid ∧
    receivesPong sid ∉ mid

/-- What the events so far say about the pinger of a session. -/
structure Timed (sid : Nat) (es : List (Event k)) (x : Session k) : Prop where
  round : x.pinger = .pinging ∨ x.pinger = .sleeping →
    ∃ mid, Round sid es mid ∧ (x.pinged = true ↔ receivesPong sid ∉ mid)
  signalled : pingTimeout ∈ x.signals → Unanswered sid es

variable {es : List (Event k)} {e : Event k}

theorem Round.snoc {mid : List (Event k)} (h : Round sid es mid) (he : e ≠ startsPing sid) :
    Round sid (es ++ [e]) (mid ++ [e]) where
  began := by
    obtain ⟨pre, rfl⟩ := h.began
    exact ⟨pre, by rw [List.append_assoc, List.cons_append]⟩
  current := by simp [h.current, Ne.symm he]

/-- There is one current round. -/
theorem Round.unique {mid mid' : List (Event k)} (h : Round sid es mid) (h' : Round sid es mid') : mid = mid' := by
  obtain ⟨pre, hpre⟩ := h.began
  obtain ⟨pre', hpre'⟩ := h'.began
  rw [hpre] at hpre'
  rcases List.append_eq_append_iff.1 hpre' with ⟨as, hpre', hmid⟩ | ⟨as, hpre', hmid⟩
  · cases as with
    | nil => exact (List.cons.inj hmid).2
    | cons a as =>
      rw [List.cons_append, List.cons.injEq] at hmid
      exact absurd (hmid.2 ▸ List.mem_append_right as (List.mem_cons_self ..)) h.current
  · cases as with
    | nil => exact (List.cons.inj hmid).2.symm
    | cons a as =>
      rw [List.cons_append, List.cons.injEq] at hmid
      exact absurd (hmid.2 ▸ List.mem_append_right as (List.mem_cons_self ..)) h'.current

theorem Unanswered.snoc (h : Unanswered sid es) (e : Event k) : Unanswered sid (es ++ [e]) := by
  obtain ⟨pre, mid, post, rfl, hs, hp⟩ := h
  exact ⟨pre, mid, post ++ [e], by simp, hs, hp⟩

/-- A step that neither starts a round nor receives a pong, and leaves the pinger of the session in its round or outside
of one. -/
theorem Timed.keep (h : Timed sid es x) (hs : e ≠ startsPing sid) (hp : e ≠ receivesPong sid)
    (hround : x'.pinger = .pinging ∨ x'.pinger = .sleeping → x.pinger = .pinging ∨ x.pinger = .sleeping)
    (hpinged : x'.pinged = x.pinged) (hsignals : pingTimeout ∈ x'.signals → pingTimeout ∈ x.signals) :
    Timed sid (es ++ [e]) x' where
  round hr := by
    obtain ⟨mid, hmid, hpong⟩ := h.round (hround hr)
    exact ⟨mid ++ [e], hmid.snoc hs, by rw [hpinged, hpong]; simp [Ne.symm hp]⟩
  signalled hsig := (h.signalled (hsignals hsig)).snoc e

theorem Timed.keep_task {te : TaskEvent} (h : Timed sid es x) (ha : x.Acts te x') :
    Timed sid (es ++ [.task sid te]) x' := by
  cases ha with
  | receive received hi =>
    cases received with
    | pong =>
      refine ⟨fun hr => ?_, fun hsig => (h.signalled hsig).snoc _⟩
      obtain ⟨mid, hmid, -⟩ := h.round hr
      refine ⟨_, hmid.snoc fun he => ?_, iff_of_false (by simp [Session.receive]) (by simp [receivesPong])⟩
      cases he
    | message | ping | disconnect | closed =>
      exact h.keep nofun nofun id rfl (by simp [Session.receive, pingTimeout])
  | startPing hp =>
    refine ⟨fun _ => ⟨[], ⟨⟨es, rfl⟩, nofun⟩, by simp⟩, fun hsig => (h.signalled hsig).snoc _⟩
  | timeout hp hpinged =>
    obtain ⟨mid, ⟨⟨pre, rfl⟩, hs⟩, hpong⟩ := h.round (.inr hp)
    refine ⟨nofun, fun _ => ⟨pre, mid, [], by simp, hs, hpong.1 hpinged⟩⟩
  | answer | sent | stopPinging | goOn => exact h.keep nofun nofun (by simp) rfl id
  | pinged hp => exact h.keep nofun nofun (fun _ => .inl hp) rfl id
  | select he hnone hsignals => exact h.keep nofun nofun id rfl (hsignals _)
  | flush => exact h.keep nofun nofun id rfl id

/-- **Every step keeps the sessions timed.** -/
theorem step_timed {t t' : Swarm k} (h : ∀ sid x, t.sessions[sid]? = some x → Timed sid es x)
    (hstep : t.step e = some t') : ∀ sid x, t'.sessions[sid]? = some x → Timed sid (es ++ [e]) x := by
  intro sid x' hx'
  cases hx : t.sessions[sid]? with
  | none =>
    obtain ⟨p, rfl⟩ := step_begins hstep hx hx'
    exact ⟨by simp [Session.new], by simp [Session.new]⟩
  | some x =>
    obtain ⟨x'', hx'', hshift⟩ := step_shifts hstep hx
    obtain rfl : x'' = x' := Option.some.inj (hx''.symm.trans hx')
    have ht := h sid x hx
    cases hshift with
    | same he => exact ht.keep (he _) (he _) id rfl id
    | task he ha => exact he ▸ ht.keep_task ha
    | spawnIngress he | spawnEgress he => exact ht.keep (by rw [he]; nofun) (by rw [he]; nofun) id rfl id
    | spawnPinger he => exact ht.keep (by rw [he]; nofun) (by rw [he]; nofun) (by simp) rfl id
    | handled _ _ he => exact ht.keep (he.elsewhere _) (he.elsewhere _) id rfl id
    | left _ he => exact ht.keep (he _) (he _) id rfl id

/-- **Ping timeouts are exact**, in every run of a new swarm. A `PingTimeout` is signalled only at the end of a round in
which no pong was received. And when the pinger of a session ends a round, it signals a `PingTimeout` and is finished if
no pong was received since it has started the round, and it goes on if one was. -/
theorem timeouts_exact {maxPeers : Nat} {es : List (Event k)} {s : Swarm k}
    (h : Runs.run step (new k maxPeers) es = some s) (hx : s.sessions[sid]? = some x) :
    (pingTimeout ∈ x.signals → Unanswered sid es) ∧
      ∀ pre mid, es = pre ++ startsPing sid :: (mid ++ [.task sid .checkPing]) → startsPing sid ∉ mid →
        (receivesPong sid ∉ mid → x.pinger = .finished ∧ pingTimeout ∈ x.signals) ∧
        (receivesPong sid ∈ mid → x.pinger = .looping) := by
  have htimed : ∀ (es : List (Event k)) {s : Swarm k}, Runs.run step (new k maxPeers) es = some s →
      ∀ sid x, s.sessions[sid]? = some x → Timed sid es x :=
    Runs.history (by simp [new]) fun es t e t' _ ht hstep => step_timed ht hstep
  refine ⟨(htimed es h sid x hx).signalled, fun pre mid hes hmid => ?_⟩
  have hround : Round sid (pre ++ startsPing sid :: mid) mid := ⟨⟨pre, rfl⟩, hmid⟩
  rw [hes, show pre ++ startsPing sid :: (mid ++ [.task sid .checkPing]) =
    (pre ++ startsPing sid :: mid) ++ [.task sid .checkPing] by simp, Runs.run_snoc] at h
  obtain ⟨t, ht, hstep⟩ := Option.bind_eq_some_iff.1 h
  cases steps_of_step hstep with
  | @task _ y y' _ hy hact =>
    obtain rfl : y' = x := by
      have := getElem?_set_of (i := sid) y' hy
      rw [if_pos rfl] at this
      exact Option.some.inj (this.symm.trans hx)
    have hty := htimed _ ht sid y hy
    cases Session.acts_of_step hact with
    | timeout hp hpinged =>
      obtain ⟨mid', hmid', hpong⟩ := hty.round (.inr hp)
      obtain rfl := hmid'.unique hround
      exact ⟨fun _ => ⟨rfl, by simp [pingTimeout]⟩, fun hmem => absurd hmem (hpong.1 hpinged)⟩
    | goOn hp hpinged =>
      obtain ⟨mid', hmid', hpong⟩ := hty.round (.inr hp)
      obtain rfl := hmid'.unique hround
      refine ⟨fun hnone => ?_, fun _ => rfl⟩
      rw [hpong.2 hnone] at hpinged
      cases hpinged

end Swarm

/-! ## The channels between the tasks -/

/-- Where the trigger is that the pinger has made for its ping. -/
inductive PingTrigger where
  /-- There is none. -/
  | idle
  /-- It is in the channel of pings. -/
  | queued
  /-- The egress router has it, and sends the ping. -/
  | held
  | fired
  | dropped
  deriving DecidableEq

/-- The channels of a session. -/
structure Channels where
  trigger : PingTrigger
  /-- What is in the channel of pongs. -/
  pongs : Nat
  /-- The ingress router waits for room in the channel of pongs. -/
  ponging : Bool

namespace Channels

def new : Channels := ⟨.idle, 0, false⟩

/-- The channels let a task take the step. -/
def allows (w : Channels) : TaskEvent → Bool
  | .sent => !w.ponging || w.pongs < 1
  | .select .ping => w.trigger = .queued
  | .select .pong => 0 < w.pongs
  | .pinged => w.trigger = .fired
  | .stopPinging => w.trigger = .dropped
  | _ => true

/-- The channels after the step. -/
def after (w : Channels) : TaskEvent → Channels
  | .receive .ping => { w with ponging := true }
  | .sent => if w.ponging then { w with pongs := w.pongs + 1, ponging := false } else w
  | .startPing => { w with trigger := .queued }
  | .select .ping => { w with trigger := .held }
  | .select .pong => { w with pongs := w.pongs - 1 }
  | .flush ok => if w.trigger = .held then { w with trigger := if ok then .fired else .dropped } else w
  | .pinged | .stopPinging => { w with trigger := .idle }
  | _ => w

/-- The pings that were received and are not answered yet. -/
def owed (w : Channels) : Nat := w.pongs + w.ponging.toNat

end Channels

/-- A swarm with the channels of its sessions. -/
structure Keepalive (k : ForkCrates) where
  swarm : Swarm k
  channels : Nat → Channels

namespace Keepalive

def new (k : ForkCrates) (maxPeers : Nat) : Keepalive k := ⟨.new k maxPeers, fun _ => .new⟩

/-- **A step** of the swarm, if the channels allow it. -/
def step (s : Keepalive k) (e : Event k) : Option (Keepalive k) :=
  match e with
  | .task sid te =>
    if (s.channels sid).allows te then
      (s.swarm.step e).map fun swarm => ⟨swarm, update s.channels sid ((s.channels sid).after te)⟩
    else none
  | _ => (s.swarm.step e).map fun swarm => { s with swarm := swarm }

end Keepalive

namespace Stage

/-- The pinger is spawned last. -/
def beforePinger : Stage → Bool
  | .pingerSpawned => false
  | _ => true

/-- The ingress router is spawned after the registration. -/
def beforeIngress : Stage → Bool
  | .called _ | .prepared _ | .registered => true
  | _ => false

end Stage

namespace Swarm

/-- What `setup_peer_state` has not spawned yet. -/
def ToSpawn (s : Swarm k) : Prop :=
  ∀ u, s.setup = some u → ∀ x, s.sessions[u.session]? = some x →
    (u.stage.beforeIngress = true → x.ingress = .unspawned) ∧ (u.stage.beforePinger = true → x.pinger = .unspawned)

variable {s s' : Swarm k} {sid : Nat} {x x' : Session k} {e : Event k}

theorem acts_unspawned {te : TaskEvent} (h : x.Acts te x') :
    (x.ingress = .unspawned → x'.ingress = .unspawned) ∧ (x.pinger = .unspawned → x'.pinger = .unspawned) := by
  cases h with
  | receive received hi => cases received <;> simp_all [Session.receive]
  | answer | sent | startPing | pinged | stopPinging | timeout | goOn => simp_all
  | select | flush => exact ⟨id, id⟩

/-- The tasks that `setup_peer_state` has not spawned do not run. -/
theorem step_toSpawn (hs : s.ToSpawn) (h : s.step e = some s') : s'.ToSpawn := by
  intro u' hu' x' hx'
  cases hx : s.sessions[u'.session]? with
  | none =>
    obtain ⟨p, rfl⟩ := step_begins h hx hx'
    exact ⟨fun _ => rfl, fun _ => rfl⟩
  | some x =>
    obtain ⟨x'', hx'', hshift⟩ := step_shifts h hx
    obtain rfl : x'' = x' := Option.some.inj (hx''.symm.trans hx')
    by_cases he : e = .proceed
    · subst he
      obtain ⟨u, hu, hproceed⟩ := Option.bind_eq_some_iff.1 h
      have hold := hs u hu
      have hself : ∀ {y z : Session k}, s.sessions[u.session]? = some y →
          (s.sessions.set u.session z)[u.session]? = some x'' → x'' = z := by
        intro y z hy hz
        rw [List.getElem?_set_self (List.getElem?_eq_some_iff.1 hy).1] at hz
        exact (Option.some.inj hz).symm
      cases proceeds_of_proceed hproceed with
      | prepare hstage | register hstage =>
        cases hu'
        exact (hold x'' hx').imp (fun h _ => h (by rw [hstage]; rfl)) (fun h _ => h (by rw [hstage]; rfl))
      | fail => exact hs u' hu' x'' hx'
      | install => cases hu'
      | @spawnIngress y hstage hy =>
        cases hu'
        obtain rfl := hself hy hx'
        exact ⟨nofun, fun _ => (hold y hy).2 (by rw [hstage]; rfl)⟩
      | @spawnEgress y hstage hy hegress =>
        cases hu'
        obtain rfl := hself hy hx'
        exact ⟨nofun, fun _ => (hold y hy).2 (by rw [hstage]; rfl)⟩
      | spawnPinger =>
        cases hu'
        exact ⟨nofun, nofun⟩
    · have hu : s.setup = some u' := by
        cases step_moves h with
        | same hsessions hsetup => exact hsetup ▸ hu'
        | began hs hsessions hsetup =>
          rw [hsetup] at hu'
          cases hu'
          rw [List.getElem?_eq_none le_rfl] at hx
          cases hx
        | proceeded hp => exact absurd hp he
        | set _ hsessions hsetup => exact hsetup ▸ hu'
      have hold := hs u' hu x hx
      cases hshift with
      | same | left => exact hold
      | task _ ha =>
        obtain ⟨hi, hp⟩ := acts_unspawned ha
        exact hold.imp (fun h hb => hi (h hb)) (fun h hb => hp (h hb))
      | handled _ _ _ _ hne => exact ⟨fun hb => absurd (hold.1 hb) hne, hold.2⟩
      | spawnIngress hp | spawnEgress hp | spawnPinger hp => exact absurd hp he

end Swarm

/-- What the channels of a session say about its tasks. -/
structure Channels.Fits (w : Channels) (x : Session k) : Prop where
  pongs : w.pongs ≤ 1
  ponging : w.ponging = true → x.ingress = .sending
  idle : w.trigger = .idle ↔ x.pinger ≠ .pinging
  held : w.trigger = .held → x.egress = .flushing none
  dropped : w.trigger = .dropped → ¬x.egress.Looping

namespace Channels

variable {w : Channels} {x x' : Session k}

theorem new_fits (p : PeerId) : Channels.new.Fits (Session.new k p) :=
  ⟨Nat.zero_le 1, nofun, by simp [Channels.new, Session.new], nofun, nofun⟩

theorem Fits.not_ponging (h : w.Fits x) (hi : x.ingress ≠ .sending) : w.ponging = false := by
  rw [← Bool.not_eq_true]
  exact fun hp => hi (h.ponging hp)

/-- The ingress router goes on, when it does not wait for room. -/
theorem Fits.ingress (h : w.Fits x) (hi : x.ingress ≠ .sending) (hp : x'.pinger = x.pinger)
    (he : x'.egress = x.egress) : w.Fits x' where
  pongs := h.pongs
  ponging hpon := by
    rw [h.not_ponging hi] at hpon
    cases hpon
  idle := by rw [hp, h.idle]
  held := he ▸ h.held
  dropped := he ▸ h.dropped

/-- A pinger that does not wait goes on, and does not wait. -/
theorem Fits.pinger (h : w.Fits x) (hi : x'.ingress = x.ingress) (hp : x.pinger ≠ .pinging) (hp' : x'.pinger ≠ .pinging)
    (he : x'.egress = x.egress) : w.Fits x' where
  pongs := h.pongs
  ponging := hi ▸ h.ponging
  idle := iff_of_true (h.idle.2 hp) hp'
  held := he ▸ h.held
  dropped := he ▸ h.dropped

/-- The egress router goes on, when its trigger is not at stake. -/
theorem Fits.egress (h : w.Fits x) (hi : x'.ingress = x.ingress) (hp : x'.pinger = x.pinger) (hheld : w.trigger ≠ .held)
    (hdropped : w.trigger = .dropped → ¬x'.egress.Looping) : w.Fits x' where
  pongs := h.pongs
  ponging := hi ▸ h.ponging
  idle := by rw [hp, h.idle]
  held ht := absurd ht hheld
  dropped := hdropped

/-- The trigger moves on while the pinger waits. -/
theorem Fits.moved (h : w.Fits x) (x' : Session k) (trigger : PingTrigger) (hi : x'.ingress = x.ingress)
    (hw : w.trigger ≠ .idle) (hp : x'.pinger = x.pinger) (ht : trigger ≠ .idle)
    (hheld : trigger = .held → x'.egress = .flushing none)
    (hdropped : trigger = .dropped → ¬x'.egress.Looping) : Fits { w with trigger := trigger } x' where
  pongs := h.pongs
  ponging := hi ▸ h.ponging
  idle := by
    rw [hp, ← h.idle]
    exact iff_of_false ht hw
  held := hheld
  dropped := hdropped

/-- The steps of the tasks. -/
theorem Fits.acts (h : w.Fits x) {te : TaskEvent} (ha : x.Acts te x') (hw : w.allows te = true) :
    (w.after te).Fits x' := by
  have hloop : x.egress = .selecting → w.trigger ≠ .held ∧ w.trigger ≠ .dropped := by
    refine fun he => ⟨fun ht => ?_, fun ht => h.dropped ht (.inr (.inl he))⟩
    rw [h.held ht] at he
    cases he
  cases ha with
  | receive received hi =>
    have hne : x.ingress ≠ .sending := by simp [hi]
    cases received with
    | ping => exact ⟨h.pongs, fun _ => rfl, h.idle, h.held, h.dropped⟩
    | message | pong | disconnect | closed => exact h.ingress hne rfl rfl
  | answer result hi => exact h.ingress (by simp [hi]) rfl rfl
  | sent hi =>
    rw [after]
    split
    · rename_i hpon
      have hroom : w.pongs < 1 := by simpa [allows, hpon] using hw
      exact ⟨hroom, nofun, h.idle, h.held, h.dropped⟩
    · rename_i hpon
      exact ⟨h.pongs, fun hp => absurd hp hpon, h.idle, h.held, h.dropped⟩
  | startPing hp => exact ⟨h.pongs, h.ponging, by simp [after], nofun, nofun⟩
  | pinged hp => exact ⟨h.pongs, h.ponging, by simp [after], nofun, nofun⟩
  | stopPinging hp => exact ⟨h.pongs, h.ponging, by simp [after], nofun, nofun⟩
  | timeout hp => exact h.pinger rfl (by simp [hp]) (by simp) rfl
  | goOn hp => exact h.pinger rfl (by simp [hp]) (by simp) rfl
  | @select selected egress signals he hnone hsignals =>
    obtain ⟨hheld, hdropped⟩ := hloop he
    cases selected with
    | ping =>
      have hqueued : w.trigger = .queued := by simpa [allows] using hw
      exact h.moved { x with egress := egress, signals := signals } .held rfl (by simp [hqueued]) rfl nofun
        (fun _ => hnone (.inl rfl)) nofun
    | pong =>
      exact ⟨(Nat.sub_le _ _).trans h.pongs, h.ponging, h.idle, fun ht => absurd ht hheld, fun ht => absurd ht hdropped⟩
    | event | signal => exact h.egress rfl rfl hheld fun ht => absurd ht hdropped
  | @flush d egress ok he hl =>
    rw [after]
    split
    · rename_i hheld
      have hd : d = none := by
        have := h.held hheld
        rw [he] at this
        exact Egress.flushing.inj this
      cases ok with
      | true => exact h.moved { x with egress := egress } .fired rfl (by simp [hheld]) rfl nofun nofun nofun
      | false =>
        exact h.moved { x with egress := egress } .dropped rfl (by simp [hheld]) rfl nofun nofun fun _ => hl (.inl rfl)
    · rename_i hheld
      refine h.egress rfl rfl hheld fun ht => hl (.inr fun hd => h.dropped ht (.inr (.inr ?_)))
      rw [he, hd]

end Channels

namespace Keepalive

variable {s s' : Keepalive k} {sid : Nat} {x x' : Session k} {e : Event k}

/-- **The invariant of the channels.** -/
structure Sound (s : Keepalive k) : Prop where
  toSpawn : s.swarm.ToSpawn
  fits : ∀ sid x, s.swarm.sessions[sid]? = some x → (s.channels sid).Fits x
  unused : ∀ sid, s.swarm.sessions[sid]? = none → s.channels sid = .new

/-- The event is of a task, which the channels let take the step, or it does not touch the channels. -/
theorem step_eq (h : s.step e = some s') : s.swarm.step e = some s'.swarm ∧
    ((∃ sid te, e = .task sid te ∧ (s.channels sid).allows te = true ∧
        s'.channels = update s.channels sid ((s.channels sid).after te)) ∨
      (∀ sid, Swarm.Elsewhere sid e) ∧ s'.channels = s.channels) := by
  unfold step at h
  split at h
  · split at h
    · rename_i sid te hw
      obtain ⟨_, hs, rfl⟩ := Option.map_eq_some_iff.1 h
      exact ⟨hs, .inl ⟨sid, te, rfl, hw, rfl⟩⟩
    · cases h
  · rename_i hne
    obtain ⟨_, hs, rfl⟩ := Option.map_eq_some_iff.1 h
    exact ⟨hs, .inr ⟨hne, rfl⟩⟩

/-- **The swarm with channels refines the swarm**: its runs are runs of the swarm. -/
theorem run_swarm : ∀ (es : List (Event k)) {s s' : Keepalive k}, Runs.run step s es = some s' →
    Runs.run Swarm.step s.swarm es = some s'.swarm
  | [], _, _, h => by
    cases h
    rfl
  | e :: es, s, s', h => by
    obtain ⟨t, ht, h⟩ := Option.bind_eq_some_iff.1 h
    rw [Runs.run_cons, (step_eq ht).1]
    exact run_swarm es h

theorem step_sound (hs : s.Sound) (h : s.step e = some s') : s'.Sound := by
  obtain ⟨hstep, hchannels⟩ := step_eq h
  have hget : ∀ sid, (Swarm.Elsewhere sid e → s'.channels sid = s.channels sid) ∧
      ∀ te, e = .task sid te → (s.channels sid).allows te = true ∧
        s'.channels sid = (s.channels sid).after te := by
    intro sid
    rcases hchannels with ⟨sid', te, rfl, hw, hc⟩ | ⟨hne, hc⟩
    · refine ⟨fun hne => ?_, fun te' he => ?_⟩
      · have hsid : sid ≠ sid' := fun heq => hne te (by rw [heq])
        rw [hc, Function.update_of_ne hsid]
      · obtain ⟨rfl, rfl⟩ := Event.task.inj he
        exact ⟨hw, by rw [hc, Function.update_self]⟩
    · exact ⟨fun _ => by rw [hc], fun te he => absurd he (hne sid te)⟩
  refine ⟨Swarm.step_toSpawn hs.toSpawn hstep, fun sid x' hx' => ?_, fun sid hnone => ?_⟩
  · cases hx : s.swarm.sessions[sid]? with
    | none =>
      obtain ⟨p, rfl⟩ := Swarm.step_begins hstep hx hx'
      have helse : Swarm.Elsewhere sid e := by
        rintro te rfl
        simp [Swarm.step, hx] at hstep
      rw [(hget sid).1 helse, hs.unused sid hx]
      exact Channels.new_fits p
    | some x =>
      obtain ⟨x'', hx'', hshift⟩ := Swarm.step_shifts hstep hx
      obtain rfl : x'' = x' := Option.some.inj (hx''.symm.trans hx')
      have hf := hs.fits sid x hx
      cases hshift with
      | same he => exact (hget sid).1 he ▸ hf
      | task he ha =>
        obtain ⟨hw, hc⟩ := (hget sid).2 _ he
        exact hc ▸ hf.acts ha hw
      | spawnIngress he hu hsid hstage =>
        rw [(hget sid).1 (by rw [he]; intro te hte; cases hte)]
        have hun := (hs.toSpawn _ hu x (hsid ▸ hx)).1 (by rw [hstage]; rfl)
        exact hf.ingress (by simp [hun]) rfl rfl
      | spawnEgress he hun =>
        rw [(hget sid).1 (by rw [he]; intro te hte; cases hte)]
        refine hf.egress rfl rfl (fun ht => ?_) fun ht => absurd (.inl hun) (hf.dropped ht)
        rw [hf.held ht] at hun
        cases hun
      | spawnPinger he hu hsid hstage =>
        rw [(hget sid).1 (by rw [he]; intro te hte; cases hte)]
        have hun := (hs.toSpawn _ hu x (hsid ▸ hx)).2 (by rw [hstage]; rfl)
        exact hf.pinger rfl (by simp [hun]) (by simp) rfl
      | handled _ _ he hne =>
        rw [(hget sid).1 he.elsewhere]
        exact hf.ingress hne rfl rfl
      | left _ he hl hg =>
        rw [(hget sid).1 he]
        exact hf.egress rfl rfl (fun ht => hl (.inr (.inr (hf.held ht)))) fun _ => hg
  · have hnone' : s.swarm.sessions[sid]? = none := by
      cases hx : s.swarm.sessions[sid]? with
      | none => rfl
      | some x =>
        obtain ⟨x', hx', -⟩ := Swarm.step_shifts hstep hx
        rw [hnone] at hx'
        cases hx'
    have helse : Swarm.Elsewhere sid e := by
      rintro te rfl
      simp [Swarm.step, hnone'] at hstep
    rw [(hget sid).1 helse]
    exact hs.unused sid hnone'

theorem new_sound (k : ForkCrates) (maxPeers : Nat) : (new k maxPeers).Sound :=
  ⟨nofun, by simp [new, Swarm.new], fun _ _ => rfl⟩

/-! ## Pings that are answered -/

/-- The ingress router of the session receives a ping. -/
def hearsPing (sid : Nat) : Event k → Bool
  | .task i (.receive .ping) => i = sid
  | _ => false

/-- The egress router of the session sends a pong. -/
def sendsPong (sid : Nat) : Event k → Bool
  | .task i (.select .pong) => i = sid
  | _ => false

/-- What a step adds to the pings and to the pongs is what it adds to the pings that are owed. -/
theorem step_owed (hs : s.Sound) (h : s.step e = some s') (sid : Nat) :
    (s'.channels sid).owed + (if sendsPong sid e then 1 else 0) =
      (s.channels sid).owed + if hearsPing sid e then 1 else 0 := by
  obtain ⟨hstep, ⟨i, te, rfl, hw, hc⟩ | ⟨hne, hc⟩⟩ := step_eq h
  · by_cases hi : i = sid
    · subst hi
      rw [hc, Function.update_self]
      generalize s'.swarm = t at hstep
      cases Swarm.steps_of_step hstep with
      | @task _ x x' _ hx hact =>
        have hf := hs.fits i x hx
        cases Session.acts_of_step hact with
        | receive received hi =>
          have hpon := hf.not_ponging (by simp [hi])
          cases received <;> simp [Channels.after, Channels.owed, sendsPong, hearsPing, hpon]
        | sent => by_cases hpon : (s.channels i).ponging = true <;>
            simp [Channels.after, Channels.owed, sendsPong, hearsPing, hpon]
        | @select selected => cases selected with
          | pong =>
            have hpos : 0 < (s.channels i).pongs := by simpa [Channels.allows] using hw
            simp only [Channels.after, Channels.owed, sendsPong, hearsPing, decide_true, ↓reduceIte, Bool.false_eq_true]
            omega
          | event | ping | signal => simp [Channels.after, Channels.owed, sendsPong, hearsPing]
        | flush ok =>
          by_cases ht : (s.channels i).trigger = .held <;>
            simp [Channels.after, Channels.owed, sendsPong, hearsPing, ht]
        | answer | startPing | pinged | stopPinging | timeout | goOn =>
          simp [Channels.after, Channels.owed, sendsPong, hearsPing]
    · have hother : sendsPong sid (.task i te : Event k) = false ∧ hearsPing sid (.task i te : Event k) = false := by
        constructor
        · unfold sendsPong
          split
          · rename_i heq
            cases heq
            simpa using hi
          · rfl
        · unfold hearsPing
          split
          · rename_i heq
            cases heq
            simpa using hi
          · rfl
      rw [hc, Function.update_of_ne (Ne.symm hi), hother.1, hother.2]
  · have hother : sendsPong sid e = false ∧ hearsPing sid e = false := by
      constructor
      · unfold sendsPong
        split
        · exact absurd rfl (hne _ _)
        · rfl
      · unfold hearsPing
        split
        · exact absurd rfl (hne _ _)
        · rfl
    rw [hc, hother.1, hother.2]

/-- The pings that were heard are answered or owed. -/
structure Counted (es : List (Event k)) (s : Keepalive k) : Prop where
  sound : s.Sound
  count : ∀ sid, es.countP (hearsPing sid) = es.countP (sendsPong sid) + (s.channels sid).owed

/-- What the events so far say about the pings that are owed. -/
theorem run_owed {maxPeers : Nat} (es : List (Event k)) {s : Keepalive k}
    (h : Runs.run step (new k maxPeers) es = some s) : Counted es s := by
  have hnew : Counted [] (new k maxPeers) := ⟨new_sound k maxPeers, fun _ => rfl⟩
  refine Runs.history hnew ?_ es h
  rintro es t e t' - ⟨hs, hcount⟩ hstep
  refine ⟨step_sound hs hstep, fun sid => ?_⟩
  have howed := step_owed hs hstep sid
  have := hcount sid
  simp only [List.countP_append, List.countP_singleton]
  omega

/-! ## Pingers that wait -/

/-- A task takes a step that the channels let it take. -/
theorem step_task {te : TaskEvent} (hx : s.swarm.sessions[sid]? = some x) (hw : (s.channels sid).allows te = true)
    (h : x.step te = some x') : step s (.task sid te) =
      some ⟨s.swarm.setSession sid x', update s.channels sid ((s.channels sid).after te)⟩ := by
  simp only [step, hw, ↓reduceIte, Swarm.step, hx, Option.bind_some, h, Option.map_some]

/-- The pinger is told that its ping was sent, by some steps of the egress router and its own. -/
def Told (s : Keepalive k) (sid : Nat) : Prop :=
  ∃ (tes : List TaskEvent) (s' : Keepalive k) (x' : Session k),
    (∀ te ∈ tes, te = .flush true ∨ te = .select .ping ∨ te = .pinged) ∧
    Runs.run step s (tes.map (.task sid)) = some s' ∧ s'.swarm.sessions[sid]? = some x' ∧ x'.pinger = .sleeping

/-- After one more step. -/
theorem Told.of_step {te : TaskEvent} (hte : te = .flush true ∨ te = .select .ping ∨ te = .pinged)
    (h : step s (.task sid te) = some s') (ht : s'.Told sid) : s.Told sid := by
  obtain ⟨tes, s'', x', htes, hrun, hx', hp⟩ := ht
  refine ⟨te :: tes, s'', x', ?_, ?_, hx', hp⟩
  · simpa [hte] using htes
  · rw [List.map_cons, Runs.run_cons, h]
    exact hrun

theorem getElem?_setSession (hx : s.swarm.sessions[sid]? = some x) (y : Session k) :
    (s.swarm.setSession sid y).sessions[sid]? = some y :=
  List.getElem?_set_self (List.getElem?_eq_some_iff.1 hx).1

theorem told_fired (hx : s.swarm.sessions[sid]? = some x) (hp : x.pinger = .pinging) (he : x.egress.Looping)
    (ht : (s.channels sid).trigger = .fired) : s.Told sid := by
  have hact : x.step .pinged = some { x with pinger := .sleeping } := by
    rcases he with he | he | he <;> simp [Session.step, hp, he]
  refine Told.of_step (.inr (.inr rfl)) (step_task hx (by simp [Channels.allows, ht]) hact) ?_
  exact ⟨[], _, _, nofun, rfl, getElem?_setSession hx _, rfl⟩

theorem told_held (hx : s.swarm.sessions[sid]? = some x) (hp : x.pinger = .pinging) (he : x.egress = .flushing none)
    (ht : (s.channels sid).trigger = .held) : s.Told sid := by
  have hact : x.step (.flush true) = some { x with egress := .selecting } := by simp [Session.step, he]
  refine Told.of_step (.inl rfl) (step_task hx rfl hact) ?_
  exact told_fired (getElem?_setSession hx _) hp (.inr (.inl rfl)) (by simp [Channels.after, ht])

theorem told_queued (hx : s.swarm.sessions[sid]? = some x) (hp : x.pinger = .pinging) (he : x.egress = .selecting)
    (ht : (s.channels sid).trigger = .queued) : s.Told sid := by
  have hact : x.step (.select .ping) = some { x with egress := .flushing none } := by
    simp [Session.step, Session.select, he]
  refine Told.of_step (.inr (.inl rfl)) (step_task hx (by simp [Channels.allows, ht]) hact) ?_
  exact told_held (getElem?_setSession hx _) hp rfl (by simp [Channels.after])

/-- **A pinger that waits is told**, as long as the egress router is in its loop and the sink takes what it is given. -/
theorem Sound.told (hs : s.Sound) (hx : s.swarm.sessions[sid]? = some x) (hp : x.pinger = .pinging)
    (he : x.egress = .selecting ∨ x.egress = .flushing none) : s.Told sid := by
  have hf := hs.fits sid x hx
  have hloop : x.egress.Looping := .inr he
  cases ht : (s.channels sid).trigger with
  | idle => exact absurd hp (hf.idle.1 ht)
  | dropped => exact absurd hloop (hf.dropped ht)
  | fired => exact told_fired hx hp hloop ht
  | held => exact told_held hx hp (hf.held ht) ht
  | queued =>
    rcases he with he | he
    · exact told_queued hx hp he ht
    · -- the egress router sends something else first
      have hact : x.step (.flush true) = some { x with egress := .selecting } := by simp [Session.step, he]
      refine Told.of_step (.inl rfl) (step_task hx rfl hact) ?_
      exact told_queued (getElem?_setSession hx _) hp rfl (by simp [Channels.after, ht])

/-- **Keepalive**, in every run of a new swarm with the channels of its sessions, which is a run of the swarm. The pings
that a session has received are the pongs that it has sent and at most two more, which wait in the channel or with the
ingress router. And a pinger that waits for its ping to be sent is told, after some steps of the egress router, as long
as that one is in its loop. -/
theorem keepalive {maxPeers : Nat} {es : List (Event k)} {s : Keepalive k}
    (h : Runs.run step (new k maxPeers) es = some s) (sid : Nat) :
    Runs.run Swarm.step (.new k maxPeers) es = some s.swarm ∧
      (es.countP (hearsPing sid) = es.countP (sendsPong sid) + (s.channels sid).owed ∧ (s.channels sid).owed ≤ 2) ∧
      ∀ x, s.swarm.sessions[sid]? = some x → x.pinger = .pinging →
        x.egress = .selecting ∨ x.egress = .flushing none → s.Told sid := by
  obtain ⟨hs, hcount⟩ := run_owed es h
  refine ⟨run_swarm es h, ⟨hcount sid, ?_⟩, fun x hx hp he => hs.told hx hp he⟩
  have hpongs : (s.channels sid).pongs ≤ 1 := by
    cases hx : s.swarm.sessions[sid]? with
    | none =>
      rw [hs.unused sid hx]
      exact Nat.zero_le 1
    | some x => exact (hs.fits sid x hx).pongs
  exact Nat.add_le_add hpongs (Bool.toNat_le _)

/-- A peer connects and pings twice; the pinger of its session has started a round. -/
def twoPings : List (Event genesisForks) :=
  Swarm.connectIncoming ++ [.task 0 .startPing, .task 0 (.receive .ping), .task 0 .sent, .task 0 (.receive .ping)]

/-- Both pings are owed, and the pinger is told. -/
theorem twoPings_owed : ∃ s, Runs.run step (new genesisForks 10) twoPings = some s ∧ (s.channels 0).owed = 2 ∧
    (twoPings.countP (hearsPing 0) = twoPings.countP (sendsPong 0) + (s.channels 0).owed) ∧ s.Told 0 := by
  have hrun : (Runs.run step (new genesisForks 10) twoPings).map (fun s => ((s.channels 0).owed,
      s.swarm.sessions[0]?.map fun x => (x.pinger, x.egress))) = some (2, some (.pinging, .selecting)) := by
    decide +kernel
  obtain ⟨s, hs, hp⟩ := Option.map_eq_some_iff.1 hrun
  obtain ⟨howed, hx⟩ := Prod.mk.inj hp
  obtain ⟨x, hx, he⟩ := Option.map_eq_some_iff.1 hx
  obtain ⟨hpinger, hegress⟩ := Prod.mk.inj he
  obtain ⟨-, ⟨hcount, -⟩, htold⟩ := keepalive hs 0
  exact ⟨s, hs, howed, hcount, htold x hx hpinger (.inl hegress)⟩

end Keepalive

namespace Swarm

/-- A peer connects, and two rounds of the pinger of its session pass, the first one with a pong. -/
def twoRounds : List (Event genesisForks) :=
  connectIncoming ++ [.task 0 .startPing, .task 0 (.select .ping), .task 0 (.flush true), .task 0 .pinged,
    .task 0 (.receive .pong), .task 0 .checkPing, .task 0 .startPing, .task 0 (.select .ping), .task 0 (.flush true),
    .task 0 .pinged, .task 0 .checkPing]

/-- The second round ends with a timeout. -/
theorem twoRounds_timeout : ∃ s x, Runs.run step (new genesisForks 10) twoRounds = some s ∧
    s.sessions[0]? = some x ∧ x.pinger = .finished ∧ pingTimeout ∈ x.signals := by
  have hrun : ((Runs.run step (new genesisForks 10) twoRounds).bind (·.sessions[0]?)).isSome := by decide +kernel
  obtain ⟨x, hx⟩ := Option.isSome_iff_exists.1 hrun
  obtain ⟨s, hs, hx⟩ := Option.bind_eq_some_iff.1 hx
  have hround := (timeouts_exact hs hx).2
    (connectIncoming ++ [.task 0 .startPing, .task 0 (.select .ping), .task 0 (.flush true), .task 0 .pinged,
      .task 0 (.receive .pong), .task 0 .checkPing])
    [.task 0 (.select .ping), .task 0 (.flush true), .task 0 .pinged] rfl (by simp [startsPing])
  obtain ⟨hp, hsignal⟩ := hround.1 (by simp [receivesPong])
  exact ⟨s, x, hs, hx, hp, hsignal⟩

end Swarm

end EthereumSentry
