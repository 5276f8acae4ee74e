import EthereumSentry.Swarm.Ownership

/-!
# Two swarms that dial each other

Two swarms (`Pair`) run an attempt each to the other one, and the incoming handlers of the two connections. A handler
drops its connection when it finds any entry of the peer, also the one that its own swarm's attempt has put there. So
when both attempts have inserted their entries (`Crosses`), each connection is dropped by the side that was dialled;
otherwise the first connection is held by both sides. `held_iff` says that this is all that matters.
-/

set_option autoImplicit false

namespace EthereumSentry

open Function (update)

variable {k : ForkCrates}

/-! ## One of the swarms -/

/-- The steps of an attempt with its reaper, and of an incoming handler. -/
inductive Act where
  | poll
  | claim
  | adopt (caps : List (CapabilityName × Nat))
  | incoming (caps : List (CapabilityName × Nat))
  | proceed
  | reap
  | uncount
  deriving DecidableEq

def Act.event (cid : Nat) (peer : PeerId) : Act → Event k
  | .poll => .poll cid
  | .claim => .claim cid
  | .adopt caps => .adopt cid caps
  | .incoming caps => .incoming peer caps
  | .proceed => .proceed
  | .reap => .reap cid
  | .uncount => .uncount cid

namespace Swarm

/-- The attempt has not taken its lock, and the peer has no entry and is allowed. -/
structure Awaits (s : Swarm k) (cid : Nat) (peer : PeerId) : Prop where
  attempt : ∃ a, s.attempts[cid]? = some a ∧ a.remoteId = peer ∧ (a.future = .created ∨ a.future = .counted)
  free : s.mapping.lookup peer = none
  allowed : s.nodeFilter.allow s.mapping.keys.length peer = true
  unlocked : s.setup = none

/-- The attempt has inserted its entry; it has set up this session, if any. -/
inductive Dials (s : Swarm k) (cid : Nat) (peer : PeerId) : Option Nat → Prop
  | connecting {a : Attempt} (ha : s.attempts[cid]? = some a) (hp : a.remoteId = peer) (hf : a.future = .dialing)
    (hm : s.mapping.lookup peer = some (.connecting cid)) (hs : s.setup = none) : Dials s cid peer none
  | settingUp {a : Attempt} {u : Setup} (ha : s.attempts[cid]? = some a) (hp : a.remoteId = peer)
    (hf : a.future = .settingUp) (hm : s.mapping.lookup peer = some (.connecting cid)) (hs : s.setup = some u)
    (hu : u.attempt = some cid) (hup : u.peer = peer) : Dials s cid peer (some u.session)
  | connected {a : Attempt} {sid : Nat} (ha : s.attempts[cid]? = some a) (hp : a.remoteId = peer)
    (hf : a.future = .finished) (hm : s.mapping.lookup peer = some (.connected sid)) (hs : s.setup = none) :
    Dials s cid peer (some sid)

/-- The incoming handler has accepted the connection of the peer as this session, before the attempt took its lock. -/
inductive Accepts (s : Swarm k) (cid : Nat) (peer : PeerId) : Nat → Prop
  | settingUp {a : Attempt} {u : Setup} (ha : s.attempts[cid]? = some a) (hp : a.remoteId = peer)
    (hf : a.future = .created ∨ a.future = .counted) (hs : s.setup = some u) (hu : u.attempt = none)
    (hup : u.peer = peer) : Accepts s cid peer u.session
  | connected {a : Attempt} {sid : Nat} (ha : s.attempts[cid]? = some a) (hp : a.remoteId = peer)
    (hf : a.future = .created ∨ a.future = .counted ∨ a.future = .finished)
    (hm : s.mapping.lookup peer = some (.connected sid)) (hs : s.setup = none) : Accepts s cid peer sid

variable {s t : Swarm k} {cid : Nat} {peer : PeerId} {a : Attempt}

/-- The reaper of an attempt that has returned leaves a connected entry as it is. -/
theorem reap_keeps (ho : s.Owned) (ha : s.attempts[cid]? = some a) (h : s.step (.reap cid) = some t) :
    a.future = .finished ∧ t.setup = s.setup ∧
      (∃ b, t.attempts[cid]? = some b ∧ b.remoteId = a.remoteId ∧ b.future = a.future) ∧
      (s.mapping.lookup a.remoteId ≠ some (.connecting cid) → t.mapping = s.mapping) := by
  have hlt := (List.getElem?_eq_some_iff.1 ha).1
  simp only [step, ha, Option.bind_some] at h
  split at h
  · rename_i htrigger
    cases h
    exact ⟨ho.finished ha (by simp [htrigger]), rfl, ⟨_, List.getElem?_set_self hlt, rfl, rfl⟩, fun _ => rfl⟩
  · rename_i htrigger
    split at h <;> cases h
    refine ⟨ho.finished ha (by simp [htrigger]), ?_⟩
    unfold reap
    dsimp only
    split
    · rename_i hentry
      exact ⟨rfl, ⟨_, List.getElem?_set_self hlt, rfl, rfl⟩, fun hne => absurd hentry hne⟩
    · exact ⟨rfl, ⟨_, List.getElem?_set_self hlt, rfl, rfl⟩, fun _ => rfl⟩
  · cases h

theorem uncount_keeps (ha : s.attempts[cid]? = some a) (h : s.step (.uncount cid) = some t) :
    t.setup = s.setup ∧ t.mapping = s.mapping ∧ t.nodeFilter = s.nodeFilter ∧
      ∃ b, t.attempts[cid]? = some b ∧ b.remoteId = a.remoteId ∧ b.future = a.future := by
  have hlt := (List.getElem?_eq_some_iff.1 ha).1
  simp only [step, ha, Option.bind_some] at h
  split at h <;> cases h
  exact ⟨rfl, rfl, rfl, _, List.getElem?_set_self hlt, rfl, rfl⟩

/-- The end of a setup for an attempt. -/
theorem install_attempt {u : Setup} (ha : s.attempts[cid]? = some a) (hu : u.attempt = some cid) :
    (s.install u).attempts[cid]? = some { a with future := .finished, trigger := .sent } := by
  simp [install, hu, ha]

/-- The parts of a setup for an attempt. -/
theorem Dials.proceed {u : Setup} (ha : s.attempts[cid]? = some a) (hp : a.remoteId = peer)
    (hf : a.future = .settingUp) (hm : s.mapping.lookup peer = some (.connecting cid)) (hs : s.setup = some u)
    (hu : u.attempt = some cid) (hup : u.peer = peer) (h : s.proceed u = some t) :
    Dials t cid peer (some u.session) := by
  rcases proceed_cases h with rfl | ⟨hmap, hatt, -, hsetup | ⟨stage, hsetup⟩⟩
  · subst hup
    exact .connected (install_attempt ha hu) hp rfl (AList.lookup_insert _) rfl
  · exact .settingUp (hatt ▸ ha) hp hf (hmap ▸ hm) (hsetup.trans hs) hu hup
  · exact .settingUp (u := { u with stage := stage }) (hatt ▸ ha) hp hf (hmap ▸ hm) hsetup hu hup

/-- What an attempt has is told by its future, the entry of its peer and the setup. -/
theorem Dials.congr {own : Option Nat} {b : Attempt} (h : Dials s cid peer own) (ha : s.attempts[cid]? = some a)
    (hb : t.attempts[cid]? = some b) (hp : b.remoteId = a.remoteId) (hf : b.future = a.future)
    (hm : t.mapping = s.mapping) (hs : t.setup = s.setup) : Dials t cid peer own := by
  cases h with
  | connecting ha' hp' hf' hm' hs' =>
    obtain rfl := Option.some.inj (ha.symm.trans ha')
    exact .connecting hb (hp.trans hp') (hf.trans hf') (hm ▸ hm') (hs.trans hs')
  | settingUp ha' hp' hf' hm' hs' hu hup =>
    obtain rfl := Option.some.inj (ha.symm.trans ha')
    exact .settingUp hb (hp.trans hp') (hf.trans hf') (hm ▸ hm') (hs.trans hs') hu hup
  | connected ha' hp' hf' hm' hs' =>
    obtain rfl := Option.some.inj (ha.symm.trans ha')
    exact .connected hb (hp.trans hp') (hf.trans hf') (hm ▸ hm') (hs.trans hs')

theorem Accepts.congr {sid : Nat} {b : Attempt} (h : Accepts s cid peer sid) (ha : s.attempts[cid]? = some a)
    (hb : t.attempts[cid]? = some b) (hp : b.remoteId = a.remoteId) (hf : b.future = a.future)
    (hm : t.mapping = s.mapping) (hs : t.setup = s.setup) : Accepts t cid peer sid := by
  cases h with
  | settingUp ha' hp' hf' hs' hu hup =>
    obtain rfl := Option.some.inj (ha.symm.trans ha')
    exact .settingUp hb (hp.trans hp') (hf ▸ hf') (hs.trans hs') hu hup
  | connected ha' hp' hf' hm' hs' =>
    obtain rfl := Option.some.inj (ha.symm.trans ha')
    exact .connected hb (hp.trans hp') (hf ▸ hf') (hm ▸ hm') (hs.trans hs')

/-- An attempt that has its entry keeps it while it goes on, but for the adoption of its connection. -/
theorem Dials.step {own : Option Nat} (h : Dials s cid peer own) (ho : s.Owned) {act : Act}
    (hact : ∀ caps, act ≠ .adopt caps) (hstep : s.step (act.event cid peer) = some t) : Dials t cid peer own := by
  obtain ⟨a, ha, hp, hf⟩ : ∃ a, s.attempts[cid]? = some a ∧ a.remoteId = peer ∧
      (a.future = .dialing ∨ a.future = .settingUp ∨ a.future = .finished) := by
    cases h with
    | connecting ha hp hf => exact ⟨_, ha, hp, .inl hf⟩
    | settingUp ha hp hf => exact ⟨_, ha, hp, .inr (.inl hf)⟩
    | connected ha hp hf => exact ⟨_, ha, hp, .inr (.inr hf)⟩
  cases act with
  | poll => rcases hf with hf | hf | hf <;> simp [Act.event, Swarm.step, ha, hf] at hstep
  | claim => rcases hf with hf | hf | hf <;> simp [Act.event, Swarm.step, ha, hf] at hstep
  | adopt caps => exact absurd rfl (hact caps)
  | incoming caps =>
    -- the handler finds the entry of the attempt
    simp only [Act.event, Swarm.step] at hstep
    split at hstep <;> cases hstep
    cases h with
    | connecting ha hp hf hm hs =>
      simp only [Swarm.incoming, hm]
      exact .connecting ha hp hf hm hs
    | settingUp ha hp hf hm hs => simp_all
    | connected ha hp hf hm hs =>
      simp only [Swarm.incoming, hm]
      exact .connected ha hp hf hm hs
  | proceed =>
    obtain ⟨u, hu, hproceed⟩ := Option.bind_eq_some_iff.1 hstep
    cases h with
    | connecting ha hp hf hm hs => simp_all
    | settingUp ha hp hf hm hs hatt hup =>
      rw [hs] at hu
      cases hu
      exact Dials.proceed ha hp hf hm hs hatt hup hproceed
    | connected ha hp hf hm hs => simp_all
  | reap =>
    obtain ⟨hfin, hsetup, ⟨b, hb, hbp, hbf⟩, hmap⟩ := reap_keeps ho ha hstep
    have hentry : s.mapping.lookup a.remoteId ≠ some (.connecting cid) := by
      cases h with
      | connecting ha' hp' hf' => simp_all
      | settingUp ha' hp' hf' => simp_all
      | connected ha' hp' hf' hm hs =>
        rw [hp, hm]
        simp
    exact h.congr ha hb hbp hbf (hmap hentry) hsetup
  | uncount =>
    obtain ⟨hsetup, hmap, -, b, hb, hbp, hbf⟩ := uncount_keeps ha hstep
    exact h.congr ha hb hbp hbf hmap hsetup

/-- The attempt adopts its connection. -/
theorem Dials.adopt {own : Option Nat} (h : Dials s cid peer own) {caps : List (CapabilityName × Nat)}
    (hstep : s.step (.adopt cid caps) = some t) : Dials t cid peer (t.setup.map (·.session)) := by
  obtain ⟨a, ha, hstep⟩ := Option.bind_eq_some_iff.1 hstep
  split at hstep <;> cases hstep
  rename_i hf
  cases h with
  | connecting ha' hp hf' hm hs =>
    rw [ha] at ha'
    cases ha'
    subst hp
    simp only [Swarm.adopt, hm]
    exact .settingUp (List.getElem?_set_self (List.getElem?_eq_some_iff.1 ha).1) rfl rfl hm rfl rfl rfl
  | settingUp ha' hp hf' => simp_all
  | connected ha' hp hf' => simp_all

/-- The attempt takes its lock once. -/
theorem Dials.claim_eq_none {own : Option Nat} (h : Dials s cid peer own) : s.step (.claim cid) = none := by
  cases h with
  | connecting ha hp hf => simp [Swarm.step, ha, hf]
  | settingUp ha hp hf => simp [Swarm.step, ha, hf]
  | connected ha hp hf => simp [Swarm.step, ha, hf]

/-- The handler drops the connection of a peer that has an entry, and takes the lock for nothing. -/
theorem Dials.incoming {own : Option Nat} (h : Dials s cid peer own) {caps : List (CapabilityName × Nat)}
    (hstep : s.step (.incoming peer caps) = some t) : t.setup = none := by
  simp only [Swarm.step] at hstep
  split at hstep <;> cases hstep
  rename_i hs
  have hs : s.setup = none := by simpa using hs
  cases h with
  | connecting ha hp hf hm => simpa only [Swarm.incoming, hm] using hs
  | settingUp ha hp hf hm => simpa only [Swarm.incoming, hm] using hs
  | connected ha hp hf hm => simpa only [Swarm.incoming, hm] using hs

/-- An attempt that has not taken its lock can be polled, or take it, and the handler can take it. -/
theorem Awaits.act_cases (h : Awaits s cid peer) (ho : s.Owned) {act : Act}
    (hstep : s.step (act.event cid peer) = some t) : act = .poll ∨ act = .claim ∨ ∃ caps, act = .incoming caps := by
  obtain ⟨a, ha, -, hf⟩ := h.attempt
  have hheld := ho.held cid a ha (by rcases hf with hf | hf <;> simp [hf])
  cases act with
  | poll => exact .inl rfl
  | claim => exact .inr (.inl rfl)
  | incoming caps => exact .inr (.inr ⟨caps, rfl⟩)
  | adopt caps => rcases hf with hf | hf <;> simp [Act.event, Swarm.step, ha, hf] at hstep
  | proceed => simp [Act.event, Swarm.step, h.unlocked] at hstep
  | reap => simp [Act.event, Swarm.step, ha, hheld] at hstep
  | uncount => simp [Act.event, Swarm.step, ha, hheld] at hstep

theorem Awaits.poll (h : Awaits s cid peer) (hstep : s.step (.poll cid) = some t) : Awaits t cid peer := by
  obtain ⟨a, ha, hp, -⟩ := h.attempt
  simp only [Swarm.step, ha, Option.bind_some] at hstep
  split at hstep <;> cases hstep
  have hlt := (List.getElem?_eq_some_iff.1 ha).1
  exact ⟨⟨_, List.getElem?_set_self hlt, hp, .inr rfl⟩, h.free, h.allowed, h.unlocked⟩

/-- The attempt takes its lock first, and inserts its entry. -/
theorem Awaits.claim (h : Awaits s cid peer) (hstep : s.step (.claim cid) = some t) :
    Dials t cid peer none ∧ t.attempts[cid]?.map (·.future) = some .dialing := by
  obtain ⟨a, ha, rfl, -⟩ := h.attempt
  simp only [Swarm.step, ha, Option.bind_some] at hstep
  split at hstep <;> cases hstep
  have hlt := (List.getElem?_eq_some_iff.1 ha).1
  have hall : s.claim cid a = { s.setAttempt cid { a with future := .dialing } with
      mapping := s.mapping.insert a.remoteId (.connecting cid) } := by
    simp [Swarm.claim, h.free, h.allowed]
  rw [hall]
  refine ⟨.connecting (List.getElem?_set_self hlt) rfl rfl (AList.lookup_insert _) h.unlocked, ?_⟩
  simp [setAttempt, hlt]

/-- The handler takes the lock first, and accepts the connection. -/
theorem Awaits.incoming (h : Awaits s cid peer) {caps : List (CapabilityName × Nat)}
    (hstep : s.step (.incoming peer caps) = some t) :
    ∃ sid, t.setup.map (·.session) = some sid ∧ Accepts t cid peer sid := by
  obtain ⟨a, ha, hp, hf⟩ := h.attempt
  simp only [Swarm.step] at hstep
  split at hstep <;> cases hstep
  have hincoming : s.incoming peer caps = s.beginSetup peer none caps := by
    simp [Swarm.incoming, h.free, h.allowed]
  rw [hincoming]
  exact ⟨_, rfl, .settingUp ha hp hf rfl rfl rfl⟩

theorem Accepts.attempt {sid : Nat} (h : Accepts s cid peer sid) : ∃ a, s.attempts[cid]? = some a ∧
    a.remoteId = peer ∧ (a.future = .created ∨ a.future = .counted ∨ a.future = .finished) := by
  cases h with
  | settingUp ha hp hf => exact ⟨_, ha, hp, by rcases hf with hf | hf <;> simp [hf]⟩
  | connected ha hp hf => exact ⟨_, ha, hp, hf⟩

/-- The attempt does not dial. -/
theorem Accepts.not_dialing {sid : Nat} (h : Accepts s cid peer sid) :
    s.attempts[cid]?.map (·.future) ≠ some .dialing := by
  obtain ⟨a, ha, -, hf⟩ := h.attempt
  rcases hf with hf | hf | hf <;> simp [ha, hf]

/-- A connection that was accepted is kept. -/
theorem Accepts.step {sid : Nat} (h : Accepts s cid peer sid) (ho : s.Owned) {act : Act}
    (hact : ∀ caps, act ≠ .incoming caps) (hstep : s.step (act.event cid peer) = some t) :
    Accepts t cid peer sid ∧ ∀ caps, act ≠ .adopt caps := by
  obtain ⟨a, ha, hp, hf⟩ := h.attempt
  have hlt := (List.getElem?_eq_some_iff.1 ha).1
  cases act with
  | incoming caps => exact absurd rfl (hact caps)
  | adopt caps => rcases hf with hf | hf | hf <;> simp [Act.event, Swarm.step, ha, hf] at hstep
  | poll =>
    simp only [Act.event, Swarm.step, ha, Option.bind_some] at hstep
    split at hstep <;> cases hstep
    refine ⟨?_, by simp⟩
    cases h with
    | settingUp _ _ _ hs hu hup => exact .settingUp (List.getElem?_set_self hlt) hp (.inr rfl) hs hu hup
    | connected _ _ _ hm hs => exact .connected (List.getElem?_set_self hlt) hp (.inr (.inl rfl)) hm hs
  | claim =>
    -- the attempt finds the entry of the session
    simp only [Act.event, Swarm.step, ha, Option.bind_some] at hstep
    split at hstep <;> cases hstep
    rename_i hfs
    refine ⟨?_, by simp⟩
    cases h with
    | settingUp _ _ _ hs => simp_all
    | connected _ _ _ hm hs =>
      subst hp
      simp only [Swarm.claim, hm]
      exact .connected (List.getElem?_set_self hlt) rfl (.inr (.inr rfl)) hm hs
  | proceed =>
    obtain ⟨v, hv, hproceed⟩ := Option.bind_eq_some_iff.1 hstep
    refine ⟨?_, by simp⟩
    cases h with
    | settingUp ha' hp' hf' hs hu hup =>
      rw [hs] at hv
      cases hv
      rcases proceed_cases hproceed with rfl | ⟨hmap, hatt, -, hsetup | ⟨stage, hsetup⟩⟩
      · subst hup
        refine .connected (a := a) (by simpa [install, hu] using ha) hp hf (AList.lookup_insert _) rfl
      · exact .settingUp (hatt ▸ ha') hp' hf' (hsetup.trans hs) hu hup
      · exact Accepts.settingUp (u := { v with stage := stage }) (hatt ▸ ha') hp' hf' hsetup hu hup
    | connected _ _ _ hm hs => simp_all
  | reap =>
    obtain ⟨hfin, hsetup, ⟨b, hb, hbp, hbf⟩, hmap⟩ := reap_keeps ho ha hstep
    have hentry : s.mapping.lookup a.remoteId ≠ some (.connecting cid) := by
      cases h with
      | settingUp ha' _ hf' =>
        obtain rfl := Option.some.inj (ha.symm.trans ha')
        rcases hf' with hf' | hf' <;> simp_all
      | connected _ _ _ hm hs =>
        rw [hp, hm]
        simp
    exact ⟨h.congr ha hb hbp hbf (hmap hentry) hsetup, by simp⟩
  | uncount =>
    obtain ⟨hsetup, hmap, -, b, hb, hbp, hbf⟩ := uncount_keeps ha hstep
    exact ⟨h.congr ha hb hbp hbf hmap hsetup, by simp⟩

end Swarm

/-! ## Both swarms -/

/-- The ids of the two swarms, and the attempts by which they dial each other. -/
structure Parties where
  id : Bool → PeerId
  attempt : Bool → Nat

/-- How far the handler of the other side's connection has come. -/
inductive Handler where
  /-- There is no connection. -/
  | idle
  /-- The connection is made, and the handler has not taken its lock. -/
  | pending
  /-- It has taken its lock. -/
  | finished
  deriving DecidableEq, Repr

/-- Two swarms. -/
structure Pair (k : ForkCrates) where
  swarm : Bool → Swarm k
  handler : Bool → Handler
  /-- The session that the first side has set up over the connection that the second side has dialled. -/
  session : Bool → Bool → Option Nat

namespace Pair

/-- What a step of one side means for the connections: an attempt that dials makes its connection, whose handler on the
other side then takes its lock once. -/
def after (c : Parties) (s : Pair k) (side : Bool) (act : Act) (t : Swarm k) : Pair k where
  swarm := update s.swarm side t
  handler := match act with
    | .claim =>
      if t.attempts[c.attempt side]?.map (·.future) = some .dialing then update s.handler (!side) .pending
      else s.handler
    | .incoming _ => update s.handler side .finished
    | _ => s.handler
  session := match act with
    | .adopt _ => update s.session side (update (s.session side) side (t.setup.map (·.session)))
    | .incoming _ => update s.session side (update (s.session side) (!side) (t.setup.map (·.session)))
    | _ => s.session

/-- The handler of a connection runs when there is one. -/
def canAct (s : Pair k) (side : Bool) : Act → Bool
  | .incoming _ => s.handler side = .pending
  | _ => true

/-- **A step of one side.** -/
def step (c : Parties) (s : Pair k) (e : Bool × Act) : Option (Pair k) :=
  if s.canAct e.1 e.2 then
    ((s.swarm e.1).step (e.2.event (c.attempt e.1) (c.id !e.1))).map (s.after c e.1 e.2)
  else none

/-- The swarms have been asked to dial each other, they do not know each other yet, and there is room. -/
structure Ready (c : Parties) (s : Pair k) : Prop where
  reached : ∀ side, ∃ maxPeers es, Runs.run Swarm.step (Swarm.new k maxPeers) es = some (s.swarm side)
  attempt : ∀ side, ∃ a, (s.swarm side).attempts[c.attempt side]? = some a ∧ a.remoteId = c.id (!side) ∧
    a.future = .created
  free : ∀ side, (s.swarm side).mapping.lookup (c.id !side) = none
  allowed : ∀ side, (s.swarm side).nodeFilter.allow (s.swarm side).mapping.keys.length (c.id !side) = true
  unlocked : ∀ side, (s.swarm side).setup = none
  handler : ∀ side, s.handler side = .idle
  session : ∀ side dialler, s.session side dialler = none

/-- The attempts have returned, and the handlers of the connections that were made have. -/
def Finished (c : Parties) (s : Pair k) : Prop :=
  ∀ side, (s.swarm side).attempts[c.attempt side]?.map (·.future) = some .finished ∧ s.handler side ≠ .pending ∧
    (s.swarm side).setup = none

instance (c : Parties) (s : Pair k) : Decidable (s.Finished c) :=
  inferInstanceAs (Decidable (∀ side, (s.swarm side).attempts[c.attempt side]?.map (·.future) = some .finished ∧
    s.handler side ≠ .pending ∧ (s.swarm side).setup = none))

/-- Both sides are connected over the connection that a side has dialled. -/
def Held (c : Parties) (s : Pair k) (dialler : Bool) : Prop :=
  ∀ side, ∃ sid, s.session side dialler = some sid ∧
    (s.swarm side).mapping.lookup (c.id !side) = some (.connected sid)

/-- An attempt takes its lock before the handler of the other side's connection. -/
def Crosses (s : Pair k) (e : Bool × Act) : Prop := e.2 = .claim ∧ s.handler e.1 = .pending

instance (s : Pair k) (e : Bool × Act) : Decidable (s.Crosses e) :=
  inferInstanceAs (Decidable (e.2 = .claim ∧ s.handler e.1 = .pending))

variable {c : Parties} {s t : Pair k} {side : Bool}

/-- Both attempts have inserted their entries, and no handler has accepted a connection. -/
def Crossed (c : Parties) (s : Pair k) : Prop :=
  ∀ side, (s.swarm side).Dials (c.attempt side) (c.id !side) (s.session side side) ∧ s.session side (!side) = none

/-- One attempt at most has inserted its entry. -/
inductive Uncrossed (c : Parties) (s : Pair k) : Prop
  | idle (hawaits : ∀ side, (s.swarm side).Awaits (c.attempt side) (c.id !side))
    (hhandler : ∀ side, s.handler side = .idle) (hsession : ∀ side dialler, s.session side dialler = none)
  | pending (d : Bool) (hd : (s.swarm d).Dials (c.attempt d) (c.id !d) (s.session d d)) (hidle : s.handler d = .idle)
    (hnone : s.session d (!d) = none) (ho : (s.swarm !d).Awaits (c.attempt !d) (c.id d))
    (hpending : s.handler (!d) = .pending) (hnone' : ∀ dialler, s.session (!d) dialler = none)
  | accepted (d : Bool) {sid : Nat} (hd : (s.swarm d).Dials (c.attempt d) (c.id !d) (s.session d d))
    (hidle : s.handler d = .idle) (ho : (s.swarm !d).Accepts (c.attempt !d) (c.id d) sid)
    (hfinished : s.handler (!d) = .finished) (hsid : s.session (!d) d = some sid)

@[simp] theorem after_swarm_self (act : Act) (u : Swarm k) : (s.after c side act u).swarm side = u :=
  Function.update_self ..

theorem after_swarm_of_ne (act : Act) (u : Swarm k) {other : Bool} (h : other ≠ side) :
    (s.after c side act u).swarm other = s.swarm other := Function.update_of_ne h ..

@[simp] theorem after_swarm_not (act : Act) (u : Swarm k) : (s.after c side act u).swarm (!side) = s.swarm (!side) :=
  after_swarm_of_ne act u (by simp)

@[simp] theorem after_swarm_of_not (act : Act) (u : Swarm k) : (s.after c (!side) act u).swarm side = s.swarm side :=
  after_swarm_of_ne act u (by simp)

theorem step_eq_some {act : Act} (h : s.step c (side, act) = some t) : s.canAct side act = true ∧
    ∃ u, (s.swarm side).step (act.event (c.attempt side) (c.id !side)) = some u ∧ t = s.after c side act u := by
  unfold step at h
  split at h
  · rename_i hact
    obtain ⟨u, hu, rfl⟩ := Option.map_eq_some_iff.1 h
    exact ⟨hact, u, hu, rfl⟩
  · cases h

/-- The first step by which an attempt takes its lock. -/
theorem idle_step (ho : ∀ side, (s.swarm side).Owned)
    (hawaits : ∀ side, (s.swarm side).Awaits (c.attempt side) (c.id !side)) (hhandler : ∀ side, s.handler side = .idle)
    (hsession : ∀ side dialler, s.session side dialler = none) {act : Act} (h : s.step c (side, act) = some t) :
    t.Uncrossed c := by
  obtain ⟨hact, u, hu, rfl⟩ := step_eq_some h
  rcases (hawaits side).act_cases (ho side) hu with rfl | rfl | ⟨caps, rfl⟩
  · refine .idle (fun side' => ?_) hhandler hsession
    rcases Bool.eq_or_eq_not side' side with rfl | rfl
    · rw [after_swarm_self]
      exact (hawaits side').poll hu
    · rw [after_swarm_not]
      exact hawaits (!side)
  · obtain ⟨hd, hdialing⟩ := (hawaits side).claim hu
    refine .pending side ?_ ?_ (hsession ..) ?_ ?_ fun dialler => hsession ..
    · rw [after_swarm_self]
      exact hsession side side ▸ hd
    · simp [after, hdialing, hhandler]
    · simpa using hawaits (!side)
    · simp [after, hdialing]
  · simp [canAct, hhandler] at hact

/-- The side that has dialled goes on: its handler accepts nothing, and the other side is as before. -/
theorem dials_step {d : Bool} (ho : (s.swarm d).Owned)
    (hd : (s.swarm d).Dials (c.attempt d) (c.id !d) (s.session d d)) {act : Act} (h : s.step c (d, act) = some t) :
    (t.swarm d).Dials (c.attempt d) (c.id !d) (t.session d d) ∧
      (s.session d (!d) = none → t.session d (!d) = none) ∧ (s.handler d ≠ .pending → t.handler d = s.handler d) ∧
      t.swarm (!d) = s.swarm (!d) ∧ t.handler (!d) = s.handler (!d) ∧
      ∀ dialler, t.session (!d) dialler = s.session (!d) dialler := by
  obtain ⟨hact, u, hu, rfl⟩ := step_eq_some h
  rw [after_swarm_self]
  cases act with
  | claim =>
    rw [Act.event, hd.claim_eq_none] at hu
    cases hu
  | adopt caps =>
    have hd' : u.Dials (c.attempt d) (c.id !d) (u.setup.map (·.session)) := hd.adopt hu
    refine ⟨by simpa [after] using hd', fun hnone => ?_, fun _ => rfl, after_swarm_not .., rfl, fun dialler => ?_⟩
    · simpa [after] using hnone
    · simp [after]
  | incoming caps =>
    have hd' := hd.step ho (by simp) hu
    have hsetup : u.setup = none := hd.incoming hu
    refine ⟨by simpa [after] using hd', fun _ => by simp [after, hsetup], fun hne => ?_, after_swarm_not .., ?_, ?_⟩
    · exact absurd (by simpa [canAct] using hact) hne
    · simp [after]
    · simp [after]
  | poll | proceed | reap | uncount =>
    exact ⟨hd.step ho (by simp) hu, id, fun _ => rfl, after_swarm_not .., rfl, fun _ => rfl⟩

/-- The side that has not dialled yet goes on, while there is a connection for its handler. -/
theorem pending_step {d : Bool} (ho : (s.swarm !d).Owned)
    (hd : (s.swarm d).Dials (c.attempt d) (c.id !d) (s.session d d)) (hidle : s.handler d = .idle)
    (hnone : s.session d (!d) = none) (haw : (s.swarm !d).Awaits (c.attempt !d) (c.id d))
    (hpending : s.handler (!d) = .pending) (hnone' : ∀ dialler, s.session (!d) dialler = none) {act : Act}
    (h : s.step c (!d, act) = some t) : act = .claim ∧ t.Crossed c ∨ act ≠ .claim ∧ t.Uncrossed c := by
  obtain ⟨hact, u, hu, rfl⟩ := step_eq_some h
  rw [Bool.not_not] at hu
  rcases haw.act_cases ho hu with rfl | rfl | ⟨caps, rfl⟩
  · refine .inr ⟨by simp, .pending d ?_ hidle hnone ?_ hpending hnone'⟩
    · rw [after_swarm_of_not]
      exact hd
    · rw [after_swarm_self]
      exact haw.poll hu
  · -- the attempts cross
    obtain ⟨hd', hdialing⟩ := haw.claim hu
    refine .inl ⟨rfl, fun side => ?_⟩
    rcases Bool.eq_or_eq_not side d with rfl | rfl
    · rw [after_swarm_of_not]
      exact ⟨hd, hnone⟩
    · rw [after_swarm_self, Bool.not_not]
      exact ⟨(hnone' (!d)).symm ▸ hd', hnone' _⟩
  · obtain ⟨sid, hsid, hacc⟩ := haw.incoming hu
    have hacc' : ((s.after c (!d) (.incoming caps) u).swarm !d).Accepts (c.attempt !d) (c.id d) sid := by
      rw [after_swarm_self]
      exact hacc
    refine .inr ⟨by simp, .accepted d ?_ ?_ hacc' ?_ ?_⟩
    · rw [after_swarm_of_not]
      simpa [after] using hd
    · simpa [after] using hidle
    · simp [after]
    · simpa [after] using hsid

/-- The side that has accepted a connection goes on. -/
theorem accepted_step {d : Bool} {sid : Nat} (ho : (s.swarm !d).Owned)
    (hd : (s.swarm d).Dials (c.attempt d) (c.id !d) (s.session d d)) (hidle : s.handler d = .idle)
    (hacc : (s.swarm !d).Accepts (c.attempt !d) (c.id d) sid) (hfinished : s.handler (!d) = .finished)
    (hsid : s.session (!d) d = some sid) {act : Act} (h : s.step c (!d, act) = some t) : t.Uncrossed c := by
  obtain ⟨hact, u, hu, rfl⟩ := step_eq_some h
  rw [Bool.not_not] at hu
  have hne : ∀ caps, act ≠ .incoming caps := by
    rintro caps rfl
    simp [canAct, hfinished] at hact
  obtain ⟨hacc', hne'⟩ := hacc.step ho hne hu
  have hhandler : (s.after c (!d) act u).handler = s.handler := by
    cases act with
    | claim => simp [after, hacc'.not_dialing]
    | incoming caps => exact absurd rfl (hne caps)
    | poll | adopt | proceed | reap | uncount => rfl
  have hsession : (s.after c (!d) act u).session = s.session := by
    cases act with
    | adopt caps => exact absurd rfl (hne' caps)
    | incoming caps => exact absurd rfl (hne caps)
    | poll | claim | proceed | reap | uncount => rfl
  have hacc : ((s.after c (!d) act u).swarm !d).Accepts (c.attempt !d) (c.id d) sid := by
    rw [after_swarm_self]
    exact hacc'
  refine .accepted d ?_ (by rw [hhandler, hidle]) hacc (by rw [hhandler, hfinished]) (by rw [hsession, hsid])
  rw [after_swarm_of_not, hsession]
  exact hd

/-- Both swarms are sound, and their entries belong to their attempts. -/
def Sound (s : Pair k) : Prop := ∀ side, (s.swarm side).Sound ∧ (s.swarm side).Owned

theorem step_sound (s : Pair k) (e : Bool × Act) (t : Pair k) (h : s.Sound) (hstep : s.step c e = some t) :
    t.Sound := by
  obtain ⟨side, act⟩ := e
  obtain ⟨-, u, hu, rfl⟩ := step_eq_some hstep
  intro side'
  rcases Bool.eq_or_eq_not side' side with rfl | rfl
  · rw [after_swarm_self]
    exact ⟨Swarm.step_sound _ _ _ (h side').1 hu, Swarm.step_owned (h side').1 (h side').2 hu⟩
  · rw [after_swarm_not]
    exact h (!side)

/-- Once the attempts have crossed, both go on without their handlers. -/
theorem step_crossed (s : Pair k) (e : Bool × Act) (t : Pair k) (h : s.Sound ∧ s.Crossed c)
    (hstep : s.step c e = some t) : t.Sound ∧ t.Crossed c := by
  refine ⟨step_sound s e t h.1 hstep, ?_⟩
  obtain ⟨side, act⟩ := e
  obtain ⟨hd, hnone, -, hswarm, -, hsession⟩ := dials_step (h.1 side).2 (h.2 side).1 hstep
  intro side'
  rcases Bool.eq_or_eq_not side' side with rfl | rfl
  · exact ⟨hd, hnone (h.2 side').2⟩
  · rw [hswarm, hsession, hsession]
    exact h.2 (!side)

/-- **A step crosses the attempts**, or leaves one of them at most with an entry. -/
theorem step_uncrossed (hs : s.Sound) (h : s.Uncrossed c) {e : Bool × Act} (hstep : s.step c e = some t) :
    s.Crosses e ∧ t.Crossed c ∨ ¬s.Crosses e ∧ t.Uncrossed c := by
  obtain ⟨side, act⟩ := e
  cases h with
  | idle hawaits hhandler hsession =>
    refine .inr ⟨fun hc => ?_, idle_step (fun side => (hs side).2) hawaits hhandler hsession hstep⟩
    rw [Crosses, hhandler] at hc
    cases hc.2
  | pending d hd hidle hnone haw hpending hnone' =>
    rcases Bool.eq_or_eq_not side d with rfl | rfl
    · obtain ⟨hd', hsd, hh, hswarm, hhandler, hsession⟩ := dials_step (hs side).2 hd hstep
      refine .inr ⟨fun hc => ?_, .pending side hd' ((hh (by simp [hidle])).trans hidle) (hsd hnone) (hswarm ▸ haw)
        (hhandler.trans hpending) fun dialler => (hsession dialler).trans (hnone' dialler)⟩
      rw [Crosses, hidle] at hc
      cases hc.2
    · rcases pending_step (hs !d).2 hd hidle hnone haw hpending hnone' hstep with ⟨rfl, ht⟩ | ⟨hne, ht⟩
      · exact .inl ⟨⟨rfl, hpending⟩, ht⟩
      · exact .inr ⟨fun hc => hne hc.1, ht⟩
  | accepted d hd hidle hacc hfinished hsid =>
    rcases Bool.eq_or_eq_not side d with rfl | rfl
    · obtain ⟨hd', -, hh, hswarm, hhandler, hsession⟩ := dials_step (hs side).2 hd hstep
      refine .inr ⟨fun hc => ?_, .accepted side hd' ((hh (by simp [hidle])).trans hidle) (hswarm ▸ hacc)
        (hhandler.trans hfinished) ((hsession side).trans hsid)⟩
      rw [Crosses, hidle] at hc
      cases hc.2
    · refine .inr ⟨fun hc => ?_, accepted_step (hs !d).2 hd hidle hacc hfinished hsid hstep⟩
      rw [Crosses, hfinished] at hc
      cases hc.2

/-- A run has crossed the attempts exactly when one of its steps has. -/
theorem run_crossed {es : List (Bool × Act)} : ∀ {s : Pair k}, s.Sound → s.Uncrossed c →
    Runs.run (step c) s es = some t →
      Runs.Along (step c) (fun s e => ¬s.Crosses e) s es ∧ t.Uncrossed c ∨
      ¬Runs.Along (step c) (fun s e => ¬s.Crosses e) s es ∧ t.Crossed c := by
  induction es with
  | nil =>
    intro s _ h hr
    cases hr
    exact .inl ⟨trivial, h⟩
  | cons e es ih =>
    intro s hs h hr
    obtain ⟨u, hu, hr⟩ := Option.bind_eq_some_iff.1 hr
    have hs' := step_sound s e u hs hu
    rcases step_uncrossed hs h hu with ⟨hc, hu'⟩ | ⟨hc, hu'⟩
    · refine .inr ⟨fun ha => ha.1 hc, ?_⟩
      exact (Runs.invariant step_crossed es ⟨hs', hu'⟩ hr).2
    · rcases ih hs' hu' hr with ⟨ha, ht⟩ | ⟨ha, ht⟩
      · refine .inl ⟨⟨hc, fun v hv => ?_⟩, ht⟩
        rw [hu] at hv
        cases hv
        exact ha
      · exact .inr ⟨fun h => ha (h.2 u hu), ht⟩

/-- An attempt that has dialled and returned is connected. -/
theorem Dials.finished {s : Swarm k} {cid : Nat} {peer : PeerId} {own : Option Nat} (h : s.Dials cid peer own)
    (hf : s.attempts[cid]?.map (·.future) = some .finished) :
    ∃ sid, own = some sid ∧ s.mapping.lookup peer = some (.connected sid) := by
  cases h with
  | connecting ha hp hfut => simp [ha, hfut] at hf
  | settingUp ha hp hfut => simp [ha, hfut] at hf
  | connected ha hp hfut hm => exact ⟨_, rfl, hm⟩

/-- When all have finished, the connection of an attempt that has not crossed the other is held. -/
theorem Uncrossed.held (h : t.Uncrossed c) (hf : t.Finished c) : ∃ d, t.Held c d := by
  cases h with
  | idle hawaits =>
    obtain ⟨a, ha, -, hfut⟩ := (hawaits true).attempt
    have := (hf true).1
    rcases hfut with hfut | hfut <;> simp [ha, hfut] at this
  | pending d hd hidle hnone haw hpending => exact absurd hpending (hf !d).2.1
  | @accepted d sid hd hidle hacc hfinished hsid =>
    refine ⟨d, fun side => ?_⟩
    rcases Bool.eq_or_eq_not side d with rfl | rfl
    · exact Dials.finished hd (hf side).1
    · rw [Bool.not_not]
      refine ⟨sid, hsid, ?_⟩
      cases hacc with
      | settingUp ha hp hfut hs => simp [(hf !d).2.2] at hs
      | connected ha hp hfut hm => exact hm

/-- **Simultaneous dial**: when two swarms that dial each other have finished, a connection is held by both of them
exactly when neither attempt has taken its lock before the handler of the other side's connection. -/
theorem held_iff {s t : Pair k} {es : List (Bool × Act)} (hready : s.Ready c) (hr : Runs.run (step c) s es = some t)
    (hf : t.Finished c) : (∃ d, t.Held c d) ↔ Runs.Along (step c) (fun s e => ¬s.Crosses e) s es := by
  have hs : s.Sound := fun side => by
    obtain ⟨maxPeers, es, h⟩ := hready.reached side
    exact Swarm.run_sound_owned h
  have hidle : s.Uncrossed c := by
    refine .idle (fun side => ⟨?_, hready.free side, hready.allowed side, hready.unlocked side⟩) hready.handler
      hready.session
    obtain ⟨a, ha, hp, hfut⟩ := hready.attempt side
    exact ⟨a, ha, hp, .inl hfut⟩
  rcases run_crossed hs hidle hr with ⟨ha, ht⟩ | ⟨ha, ht⟩
  · exact iff_of_true (ht.held hf) ha
  · refine iff_of_false ?_ ha
    rintro ⟨d, hd⟩
    obtain ⟨sid, hsid, -⟩ := hd (!d)
    have hnone := (ht (!d)).2
    rw [Bool.not_not, hsid] at hnone
    cases hnone

section Example

/-- Two peers, each with one attempt. -/
def sampleParties : Parties := ⟨fun side => FixedBytes.ofNat 64 (if side then 1 else 2), fun _ => 0⟩

/-- Two swarms that have been asked to dial each other. -/
def samplePair : Pair genesisForks where
  swarm := fun side => { Swarm.new genesisForks 10 with
    attempts := [⟨sampleParties.id !side, true, .created, .held, .waiting⟩]
    server := { CapabilityServerImpl.new genesisForks with statusMessage := some genesisData } }
  handler := fun _ => .idle
  session := fun _ _ => none

theorem samplePair_ready : samplePair.Ready sampleParties where
  reached side := ⟨10, [.setStatus (some genesisData), .addPeer (sampleParties.id !side) true], rfl⟩
  attempt side := ⟨_, rfl, rfl, rfl⟩
  free side := rfl
  allowed side := by simp [samplePair, Swarm.new, MemoryNodeFilter.allow]
  unlocked side := rfl
  handler side := rfl
  session side dialler := rfl

/-- The parts of `setup_peer_state`. -/
def setUp (side : Bool) : List (Bool × Act) := List.replicate 6 (side, .proceed)

/-- Both attempts take their locks, both handlers drop their connections, and both attempts adopt theirs. -/
def crossing : List (Bool × Act) :=
  [(true, .poll), (false, .poll), (true, .claim), (false, .claim), (true, .incoming [(capabilityName, 65)]),
    (false, .incoming [(capabilityName, 65)]), (true, .adopt [(capabilityName, 65)])] ++ setUp true ++
  [(false, .adopt [(capabilityName, 65)])] ++ setUp false

/-- No connection is then held by both sides. -/
theorem crossing_drops_both : ¬∀ (c : Parties) (s t : Pair genesisForks) (es : List (Bool × Act)), s.Ready c →
    Runs.run (step c) s es = some t → t.Finished c → ∃ d, t.Held c d := by
  intro h
  have hrun : (Runs.run (step sampleParties) samplePair crossing).map (fun t =>
      decide (t.Finished sampleParties ∧ ∀ side, t.session (!side) side = none)) = some true := by decide +kernel
  obtain ⟨t, ht, hfin⟩ := Option.map_eq_some_iff.1 hrun
  obtain ⟨hfin, hnone⟩ := of_decide_eq_true hfin
  obtain ⟨d, hd⟩ := h sampleParties samplePair t crossing samplePair_ready ht hfin
  obtain ⟨sid, hsid, -⟩ := hd (!d)
  rw [hnone d] at hsid
  cases hsid

/-- One side dials, and the other one has accepted the connection when its attempt takes its lock. -/
def inTurn : List (Bool × Act) :=
  [(true, .poll), (true, .claim), (false, .poll), (false, .incoming [(capabilityName, 65)])] ++ setUp false ++
  [(false, .claim), (true, .adopt [(capabilityName, 65)])] ++ setUp true

/-- The connection is then held by both sides. -/
theorem inTurn_held : ∃ t : Pair genesisForks, Runs.run (step sampleParties) samplePair inTurn = some t ∧
    t.Finished sampleParties ∧ ∃ d, t.Held sampleParties d := by
  have hrun : (Runs.run (step sampleParties) samplePair inTurn).map (fun t => decide (t.Finished sampleParties)) =
      some true := by decide +kernel
  have halong : Runs.Along (step sampleParties) (fun s e => ¬s.Crosses e) samplePair inTurn := by decide +kernel
  obtain ⟨t, ht, hfin⟩ := Option.map_eq_some_iff.1 hrun
  have hfin := of_decide_eq_true hfin
  exact ⟨t, ht, hfin, (held_iff samplePair_ready ht hfin).2 halong⟩

end Example

end Pair

end EthereumSentry
