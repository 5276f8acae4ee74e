import EthereumSentry.Discv4.Ingress
import EthereumSentry.Lib.Nested
import EthereumSentry.Lib.Runs

/-!
# Expected pings

A query expects a ping of the node that it asks: it registers a callback under the address of the node, and removes it
when it is done. A ping removes all callbacks of its address (`keepsQueries_ingress`). What a query does at its
end is not done when its future is dropped instead, so its callback stays; and a query takes the place of another one
that has drawn its id. `tidy_iff` says that nothing else goes wrong.
-/

set_option autoImplicit false

namespace EthereumSentry

namespace Discv4

/-! ## The ingress router -/

namespace Router

open Prog (after after_bind)

variable {c : Crates} {sk : c.SecretKey} {addr : SocketAddr} {buf : Bytes} {r r' : Router}

/-- What handling a datagram does to the callbacks of the queries: those that expect a ping of its address may be
removed. -/
def KeepsQueries (r : Router) (addr : SocketAddr) (r' : Router) : Prop :=
  r'.inflightFindNodeRequests = r.inflightFindNodeRequests ∧
    (r'.expectedPings = r.expectedPings ∨ r'.expectedPings = Nested.clear r.expectedPings addr)

theorem KeepsQueries.refl (r : Router) (addr : SocketAddr) : r.KeepsQueries addr r := ⟨rfl, .inl rfl⟩

theorem keepsQueries_handle (o : Opened) :
    r.KeepsQueries addr (after (handle c addr o.remoteId o.hash o.typ o.data) r) := by
  unfold handle
  cases MessageId.fromU8 o.typ with
  | none => exact .refl r addr
  | some id =>
    cases id with
    | ping =>
      refine after_decoded (P := r.KeepsQueries addr) (.refl r addr) fun pingData _ => ?_
      rw [after_bind (EStateM.run_modify _ _), after_bind (EStateM.run_modify _ _), after_bind (EStateM.run_get _)]
      split
      · exact ⟨rfl, .inr rfl⟩
      · exact ⟨rfl, .inl rfl⟩
    | pong =>
      refine after_decoded (P := r.KeepsQueries addr) (.refl r addr) fun message _ => ?_
      rw [after_bind (EStateM.run_get r)]
      split <;> exact ⟨rfl, .inl rfl⟩
    | findNode =>
      refine after_decoded (P := r.KeepsQueries addr) (.refl r addr) fun message _ => ?_
      rw [after_bind (EStateM.run_get r)]
      dsimp only
      split <;> exact ⟨rfl, .inl rfl⟩
    | neighbours =>
      simp only [handleNeighbours]
      rw [after_bind (EStateM.run_get r)]
      split
      · exact .refl r addr
      · exact after_decoded (P := r.KeepsQueries addr) (.refl r addr) fun message _ => ⟨rfl, .inl rfl⟩

/-- **What a datagram does to the callbacks of the queries.** -/
theorem keepsQueries_ingress : r.KeepsQueries addr (after (ingress c sk addr buf) r) := by
  by_cases hip : addr.ip.isIpv6
  · rw [ingress, if_pos hip]
    exact .refl r addr
  rw [after_ingress (Bool.not_eq_true _ ▸ hip)]
  cases openDatagram c buf with
  | error e => exact .refl r addr
  | ok o =>
    by_cases hid : o.remoteId = Node.ownId c sk
    · simp only [if_pos hid]
      exact .refl r addr
    · simp only [if_neg hid]
      exact keepsQueries_handle o

end Router

/-! ## The queries -/

/-- Where the future of a query is. All but the first and the last two are awaits within the timeout. -/
inductive Phase where
  | created
  | sendingPing
  | awaitingPong
  /-- The node has the opportunity to ping. -/
  | awaitingPing
  | sendingFindNode
  | awaitingNeighbours
  | returned
  | dropped
  deriving DecidableEq

/-- The await that follows when one has succeeded. -/
def Phase.next : Phase → Option Phase
  | .sendingPing => some .awaitingPong
  | .awaitingPong => some .awaitingPing
  | .awaitingPing => some .sendingFindNode
  | .sendingFindNode => some .awaitingNeighbours
  | .created | .awaitingNeighbours | .returned | .dropped => none

/-- The future is within its timeout. -/
def Phase.Awaits : Phase → Prop
  | .sendingPing | .awaitingPong | .awaitingPing | .sendingFindNode | .awaitingNeighbours => True
  | .created | .returned | .dropped => False

instance (phase : Phase) : Decidable phase.Awaits := by
  cases phase <;> unfold Phase.Awaits <;> infer_instance

structure QueryFuture where
  addr : SocketAddr
  expectedPingId : RequestId
  phase : Phase

/-- The future has neither returned nor been dropped. -/
def QueryFuture.Alive (f : QueryFuture) : Prop := f.phase ≠ .returned ∧ f.phase ≠ .dropped

instance (f : QueryFuture) : Decidable f.Alive := inferInstanceAs (Decidable (_ ∧ _))

/-- The futures of all queries, with the callbacks that they share. The callback of a query is its number. -/
structure QueryFutures where
  expectedPings : Nested SocketAddr RequestId Callback
  futures : List QueryFuture

namespace QueryFutures

inductive Event where
  | create (addr : SocketAddr) (expectedPingId : RequestId)
  /-- A future is polled for the first time. -/
  | poll (q : Callback)
  /-- An await of a future succeeds. -/
  | advance (q : Callback)
  /-- The timeout of a future is over, with neighbours, with an error, or because it has elapsed. -/
  | finish (q : Callback)
  /-- A future is dropped before it has returned. -/
  | cancel (q : Callback)
  /-- A ping from an address is handled. -/
  | ping (addr : SocketAddr)

def start : QueryFutures := ⟨.empty, []⟩

/-- A future is in another phase. -/
def goto (s : QueryFutures) (q : Callback) (f : QueryFuture) (phase : Phase) : QueryFutures :=
  { s with futures := s.futures.set q { f with phase := phase } }

/-- What a query does before its first await. -/
def register (s : QueryFutures) (q : Callback) (f : QueryFuture) : QueryFutures :=
  { s.goto q f .sendingPing with
    expectedPings := (s.expectedPings.orDefault f.addr).insert f.addr f.expectedPingId q }

/-- What a query does after its timeout. -/
def cleanup (s : QueryFutures) (q : Callback) (f : QueryFuture) : QueryFutures :=
  { s.goto q f .returned with expectedPings := s.expectedPings.remove f.addr f.expectedPingId }

def step (s : QueryFutures) : Event → Option QueryFutures
  | .create addr expectedPingId => some { s with futures := s.futures ++ [⟨addr, expectedPingId, .created⟩] }
  | .poll q => do
    let f ← s.futures[q]?
    if f.phase = .created then some (s.register q f) else none
  | .advance q => do
    let f ← s.futures[q]?
    let phase ← f.phase.next
    return s.goto q f phase
  | .finish q => do
    let f ← s.futures[q]?
    if f.phase.Awaits then some (s.cleanup q f) else none
  | .cancel q => do
    let f ← s.futures[q]?
    if f.Alive then some (s.goto q f .dropped) else none
  | .ping addr => some { s with expectedPings := s.expectedPings.clear addr }

/-- Every callback is that of a query that is alive, no inner map is empty, and the end of a query removes no callback
of another one. -/
structure Tidy (s : QueryFutures) : Prop where
  owned : ∀ addr expectedPingId q, (expectedPingId, q) ∈ s.expectedPings.entries addr →
    ∃ f, s.futures[q]? = some f ∧ f.Alive ∧ f.addr = addr ∧ f.expectedPingId = expectedPingId
  nonempty : ∀ addr, s.expectedPings addr ≠ some []
  spares : ∀ q s', s.step (.finish q) = some s' → ∀ addr e, e ∈ s.expectedPings.entries addr → e.2 ≠ q →
    e ∈ s'.expectedPings.entries addr

/-- A query does not register under an id that another one has drawn for its address and still waits with, and a future
is not dropped while its callback is registered. -/
def Careful (s : QueryFutures) : Event → Prop
  | .poll q => ∀ (f f' : QueryFuture) (q' : Callback), s.futures[q]? = some f → f.phase = .created →
    s.futures[q']? = some f' → f'.phase.Awaits → f'.addr = f.addr → f'.expectedPingId ≠ f.expectedPingId
  | .cancel q => ∀ f : QueryFuture, s.futures[q]? = some f → (f.expectedPingId, q) ∉ s.expectedPings.entries f.addr
  | _ => True

variable {s s' : QueryFutures}

/-! ## What a step does -/

theorem step_poll {q : Callback} : s.step (.poll q) = some s' ↔
    ∃ f, s.futures[q]? = some f ∧ f.phase = .created ∧ s' = s.register q f := by
  simp [step, Option.bind_eq_some_iff, @eq_comm _ s']

theorem step_advance {q : Callback} : s.step (.advance q) = some s' ↔
    ∃ f phase, s.futures[q]? = some f ∧ f.phase.next = some phase ∧ s' = s.goto q f phase := by
  simp [step, Option.bind_eq_some_iff, @eq_comm _ s']

theorem step_finish {q : Callback} : s.step (.finish q) = some s' ↔
    ∃ f, s.futures[q]? = some f ∧ f.phase.Awaits ∧ s' = s.cleanup q f := by
  simp [step, Option.bind_eq_some_iff, @eq_comm _ s']

theorem step_cancel {q : Callback} : s.step (.cancel q) = some s' ↔
    ∃ f, s.futures[q]? = some f ∧ f.Alive ∧ s' = s.goto q f .dropped := by
  simp [step, Option.bind_eq_some_iff, @eq_comm _ s']

theorem proper_of_step {e : Event} (hp : s.expectedPings.Proper) (h : s.step e = some s') :
    s'.expectedPings.Proper := by
  cases e with
  | create addr expectedPingId =>
    cases h
    exact hp
  | poll q =>
    obtain ⟨f, -, -, rfl⟩ := step_poll.1 h
    rw [register, Nested.insert_orDefault]
    exact hp.insert
  | advance q =>
    obtain ⟨f, phase, -, -, rfl⟩ := step_advance.1 h
    exact hp
  | finish q =>
    obtain ⟨f, -, -, rfl⟩ := step_finish.1 h
    exact hp.remove
  | cancel q =>
    obtain ⟨f, -, -, rfl⟩ := step_cancel.1 h
    exact hp
  | ping addr =>
    cases h
    exact hp.clear

/-- No callback but its own is registered where a query removes one at its end. -/
def Apart (s : QueryFutures) : Prop := ∀ q f, s.futures[q]? = some f → f.phase.Awaits →
  ∀ q', (f.expectedPingId, q') ∈ s.expectedPings.entries f.addr → q' = q

theorem spares_iff : (∀ q s', s.step (.finish q) = some s' → ∀ addr e, e ∈ s.expectedPings.entries addr → e.2 ≠ q →
    e ∈ s'.expectedPings.entries addr) ↔ s.Apart := by
  constructor
  · intro h q f hf hawaits q' hq'
    by_contra hne
    have hkept := h q _ (step_finish.2 ⟨f, hf, hawaits, rfl⟩) f.addr _ hq' hne
    exact (Nested.mem_remove.1 hkept).2 ⟨rfl, rfl⟩
  · intro h q s' hs addr e he hne
    obtain ⟨f, hf, hawaits, rfl⟩ := step_finish.1 hs
    refine Nested.mem_remove.2 ⟨he, ?_⟩
    obtain ⟨expectedPingId, q'⟩ := e
    rintro ⟨rfl, rfl⟩
    exact hne (h q f hf hawaits q' he)

theorem Tidy.apart (ht : s.Tidy) : s.Apart := spares_iff.1 ht.spares

theorem futures_goto {q : Callback} {f : QueryFuture} (hf : s.futures[q]? = some f) (phase : Phase) {q' : Callback}
    {f' : QueryFuture} : (s.goto q f phase).futures[q']? = some f' ↔
      q' = q ∧ f' = { f with phase := phase } ∨ q' ≠ q ∧ s.futures[q']? = some f' := by
  have hq : q < s.futures.length := (List.getElem?_eq_some_iff.1 hf).1
  rw [goto, List.getElem?_set]
  by_cases h : q = q'
  · subst h
    simp [hq, eq_comm]
  · simp [h, Ne.symm h]

/-- A future that does not start to wait, and dies only without a callback. -/
theorem tidy_goto (ht : s.Tidy) {q : Callback} {f : QueryFuture} (hf : s.futures[q]? = some f) {phase : Phase}
    {m : Nested SocketAddr RequestId Callback}
    (hsub : ∀ addr e, e ∈ m.entries addr → e ∈ s.expectedPings.entries addr) (hne : ∀ addr, m addr ≠ some [])
    (hawaits : phase.Awaits → f.phase.Awaits)
    (hdead : (phase ≠ .returned ∧ phase ≠ .dropped) ∨ (f.expectedPingId, q) ∉ m.entries f.addr) :
    Tidy { s.goto q f phase with expectedPings := m } := by
  refine ⟨fun addr expectedPingId q' hq' => ?_, hne, spares_iff.2 fun q' f' hf' ha' q'' hq'' => ?_⟩
  · obtain ⟨f', hf', halive, haddr, hid⟩ := ht.owned addr expectedPingId q' (hsub _ _ hq')
    by_cases h : q' = q
    · subst h
      obtain rfl : f = f' := Option.some.inj (hf.symm.trans hf')
      subst haddr hid
      exact ⟨_, (futures_goto hf phase).2 (.inl ⟨rfl, rfl⟩), hdead.resolve_right (not_not.2 hq'), rfl, rfl⟩
    · exact ⟨f', (futures_goto hf phase).2 (.inr ⟨h, hf'⟩), halive, haddr, hid⟩
  · rcases (futures_goto hf phase).1 hf' with ⟨rfl, rfl⟩ | ⟨-, hf'⟩
    · exact ht.apart q' f hf (hawaits ha') q'' (hsub _ _ hq'')
    · exact ht.apart q' f' hf' ha' q'' (hsub _ _ hq'')

theorem tidy_create (ht : s.Tidy) (addr : SocketAddr) (expectedPingId : RequestId) :
    Tidy { s with futures := s.futures ++ [⟨addr, expectedPingId, .created⟩] } := by
  refine ⟨fun addr' expectedPingId' q hq => ?_, ht.nonempty, spares_iff.2 fun q f hf ha => ?_⟩
  · obtain ⟨f, hf, hrest⟩ := ht.owned addr' expectedPingId' q hq
    exact ⟨f, by rw [List.getElem?_append_left (List.getElem?_eq_some_iff.1 hf).1, hf], hrest⟩
  · by_cases h : q < s.futures.length
    · rw [List.getElem?_append_left h] at hf
      exact ht.apart q f hf ha
    · obtain rfl : f = ⟨addr, expectedPingId, .created⟩ := by
        rw [List.getElem?_append_right (Nat.not_lt.1 h)] at hf
        exact List.mem_singleton.1 (List.mem_of_getElem? hf)
      exact ha.elim

theorem tidy_ping (hp : s.expectedPings.Proper) (ht : s.Tidy) (addr : SocketAddr) :
    Tidy { s with expectedPings := s.expectedPings.clear addr } := by
  refine ⟨fun addr' expectedPingId q hq => ?_, hp.clear.nonempty, spares_iff.2 fun q f hf ha q' hq' => ?_⟩
  · exact ht.owned addr' expectedPingId q (Nested.mem_clear.1 hq).1
  · exact ht.apart q f hf ha q' (Nested.mem_clear.1 hq').1

/-- Registering a callback keeps everything in its place unless another query waits in the same one. -/
theorem tidy_register_iff (hp : s.expectedPings.Proper) (ht : s.Tidy) {q : Callback} {f : QueryFuture}
    (hf : s.futures[q]? = some f) (hcreated : f.phase = .created) : (s.register q f).Tidy ↔ s.Careful (.poll q) := by
  have hentries : (s.register q f).expectedPings = s.expectedPings.insert f.addr f.expectedPingId q :=
    Nested.insert_orDefault
  constructor
  · intro h f₁ f' q' hf₁ _ hf' ha haddr hid
    obtain rfl : f = f₁ := Option.some.inj (hf.symm.trans hf₁)
    have hne : q' ≠ q := by
      rintro rfl
      obtain rfl : f = f' := Option.some.inj (hf.symm.trans hf')
      rw [hcreated] at ha
      exact ha
    have hnew : (f'.expectedPingId, q) ∈ (s.register q f).expectedPings.entries f'.addr := by
      rw [hentries]
      exact Nested.mem_insert.2 (.inl ⟨haddr, by rw [hid]⟩)
    exact hne (h.apart q' f' ((futures_goto hf _).2 (.inr ⟨hne, hf'⟩)) ha q hnew).symm
  · intro hc
    refine ⟨fun addr expectedPingId q' hq' => ?_, ?_, spares_iff.2 fun q' f' hf' ha q'' hq'' => ?_⟩
    · rw [hentries] at hq'
      rcases Nested.mem_insert.1 hq' with ⟨rfl, he⟩ | ⟨hq', -⟩
      · obtain ⟨rfl, rfl⟩ := Prod.mk.inj he
        exact ⟨_, (futures_goto hf _).2 (.inl ⟨rfl, rfl⟩), ⟨nofun, nofun⟩, rfl, rfl⟩
      · obtain ⟨f', hf', halive, haddr, hid⟩ := ht.owned addr expectedPingId q' hq'
        by_cases h : q' = q
        · subst h
          obtain rfl : f = f' := Option.some.inj (hf.symm.trans hf')
          exact ⟨_, (futures_goto hf _).2 (.inl ⟨rfl, rfl⟩), ⟨nofun, nofun⟩, haddr, hid⟩
        · exact ⟨f', (futures_goto hf _).2 (.inr ⟨h, hf'⟩), halive, haddr, hid⟩
    · rw [hentries]
      exact hp.insert.nonempty
    · rw [hentries] at hq''
      rcases (futures_goto hf _).1 hf' with ⟨rfl, rfl⟩ | ⟨-, hf'⟩
      · rcases Nested.mem_insert.1 hq'' with ⟨-, he⟩ | ⟨-, hother⟩
        · exact (Prod.mk.inj he).2
        · exact absurd ⟨rfl, rfl⟩ hother
      · rcases Nested.mem_insert.1 hq'' with ⟨haddr, he⟩ | ⟨hold, -⟩
        · exact absurd (Prod.mk.inj he).1 (hc f f' q' hf hcreated hf' ha haddr)
        · exact ht.apart q' f' hf' ha q'' hold

theorem tidy_step_iff (hp : s.expectedPings.Proper) (ht : s.Tidy) (e : Event) :
    (∀ s', s.step e = some s' → s'.Tidy) ↔ s.Careful e := by
  cases e with
  | create addr expectedPingId =>
    refine iff_of_true (fun s' h => ?_) trivial
    cases h
    exact tidy_create ht addr expectedPingId
  | poll q =>
    constructor
    · intro h f f' q' hf hcreated
      exact (tidy_register_iff hp ht hf hcreated).1 (h _ (step_poll.2 ⟨f, hf, hcreated, rfl⟩)) f f' q' hf hcreated
    · intro h s' hs
      obtain ⟨f, hf, hcreated, rfl⟩ := step_poll.1 hs
      exact (tidy_register_iff hp ht hf hcreated).2 h
  | advance q =>
    refine iff_of_true (fun s' h => ?_) trivial
    obtain ⟨f, phase, hf, hnext, rfl⟩ := step_advance.1 h
    refine tidy_goto ht hf (fun _ _ he => he) ht.nonempty (fun _ => ?_) (.inl ?_)
    · cases hphase : f.phase <;> simp [hphase, Phase.next] at hnext <;> trivial
    · cases hphase : f.phase <;> simp [hphase, Phase.next] at hnext <;> subst hnext <;> decide
  | finish q =>
    refine iff_of_true (fun s' h => ?_) trivial
    obtain ⟨f, hf, ha, rfl⟩ := step_finish.1 h
    refine tidy_goto ht hf (fun _ _ he => (Nested.mem_remove.1 he).1) hp.remove.nonempty (fun _ => ha)
      (.inr fun he => (Nested.mem_remove.1 he).2 ⟨rfl, rfl⟩)
  | cancel q =>
    constructor
    · intro h f hf hmem
      obtain ⟨f₁, hf₁, halive, -⟩ := ht.owned f.addr f.expectedPingId q hmem
      obtain rfl : f = f₁ := Option.some.inj (hf.symm.trans hf₁)
      obtain ⟨f', hf', halive', -⟩ := (h _ (step_cancel.2 ⟨f, hf, halive, rfl⟩)).owned f.addr f.expectedPingId q hmem
      rcases (futures_goto hf .dropped).1 hf' with ⟨-, rfl⟩ | ⟨hne, -⟩
      · exact halive'.2 rfl
      · exact hne rfl
    · intro h s' hs
      obtain ⟨f, hf, -, rfl⟩ := step_cancel.1 hs
      exact tidy_goto ht hf (fun _ _ he => he) ht.nonempty False.elim (.inr (h f hf))
  | ping addr =>
    refine iff_of_true (fun s' h => ?_) trivial
    cases h
    exact tidy_ping hp ht addr

/-- A datagram does nothing to the callbacks, or what a ping of its address does. -/
theorem step_ingress {r : Router} (h : r.expectedPings = s.expectedPings) (c : Crates) (sk : c.SecretKey)
    (addr : SocketAddr) (buf : Bytes) :
    let r' := Prog.after (Router.ingress c sk addr buf) r
    r'.expectedPings = s.expectedPings ∨ ∃ s', s.step (.ping addr) = some s' ∧ r'.expectedPings = s'.expectedPings := by
  obtain ⟨-, hsame | hcleared⟩ := @Router.keepsQueries_ingress c sk addr buf r
  · exact .inl (hsame.trans h)
  · exact .inr ⟨_, rfl, hcleared.trans (by rw [h])⟩

/-- **Expected pings are tidied up**, in every state of a run, exactly when no future of the run is dropped while its
callback is registered, and no query registers under an id that another one waits with. What the ingress router does to
the callbacks with a datagram is a step of a run. -/
theorem tidy_iff (es : List Event) : (Runs.Always step Tidy start es ↔ Runs.Along step Careful start es) ∧
    ∀ (s : QueryFutures) (r : Router), r.expectedPings = s.expectedPings →
      ∀ (c : Crates) (sk : c.SecretKey) (addr : SocketAddr) (buf : Bytes),
        let r' := Prog.after (Router.ingress c sk addr buf) r
        r'.expectedPings = s.expectedPings ∨
          ∃ s', s.step (.ping addr) = some s' ∧ r'.expectedPings = s'.expectedPings := by
  have ht : start.Tidy := ⟨by simp [start], Nested.proper_empty.nonempty, by simp [start]⟩
  exact ⟨Runs.always_iff_along (fun _ _ _ => proper_of_step) (fun _ e hp ht => tidy_step_iff hp ht e) es
    Nested.proper_empty ht, fun s r h => step_ingress h⟩

section Example

def exampleAddr : SocketAddr := ⟨.v4 (FixedBytes.ofNat 4 0x7f000001), 30303⟩

/-- A query that is dropped while it waits for its pong. -/
def cancelled : List Event := [.create exampleAddr 7, .poll 0, .advance 0, .cancel 0]

/-- Its callback stays. -/
theorem cancelled_not_tidy : ¬∀ es, Runs.Always step Tidy start es := by
  intro h
  obtain ⟨s, hs, hcallback, hdropped⟩ : ∃ s, Runs.run step start cancelled = some s ∧
      (7, 0) ∈ s.expectedPings.entries exampleAddr ∧ s.futures[0]? = some ⟨exampleAddr, 7, .dropped⟩ :=
    ⟨_, rfl, by decide, rfl⟩
  obtain ⟨f, hf, halive, -⟩ := ((h cancelled).run hs).owned exampleAddr 7 0 hcallback
  obtain rfl : f = ⟨exampleAddr, 7, .dropped⟩ := Option.some.inj (hf.symm.trans hdropped)
  exact halive.2 rfl

end Example

end QueryFutures

end Discv4

end EthereumSentry
