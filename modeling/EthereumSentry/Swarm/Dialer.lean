import EthereumSentry.Swarm.DialCounter
import EthereumSentry.Swarm.Limit

/-!
# The dialer

The task of `Swarm::new_inner` that waits for discovery while there are fewer entries than `max_peers`, and spawns a
task for the peer that it is given, unless there is one at work on it (`current_peers`). Such a task calls
`add_peer_inner`, under a timer that drops the future at its await.

In the sentry every attempt is the dialer's. `dials_once` says what holds in every run: a peer has one task at work, or
none and may be dialed again, so that no two attempts at it go on at once; no future is dropped before it has counted
itself, and the dial counter is exact; and the entries stay within the limit. `exists_forgotten` says that a task can be
brought to its end as soon as no session is set up.
-/

set_option autoImplicit false

namespace EthereumSentry

/-- How far a task that adds a peer has come. -/
inductive DialStage where
  | spawned
  /-- It awaits `add_peer_inner`, under the timer. -/
  | adding (connectionId : Nat)
  /-- The future has returned, or the timer has dropped it. -/
  | returned
  /-- It has taken its peer out of `current_peers`. -/
  | ended
  deriving DecidableEq

/-- A task that adds a peer. -/
structure DialTask where
  remoteId : PeerId
  stage : DialStage

/-- How far the dialer has come in its loop. -/
inductive DialerPhase where
  /-- It is about to look at the number of entries. -/
  | looking
  | discovering
  | sleeping
  | quit
  deriving DecidableEq

/-- What comes of `discovery_tasks.next()`. -/
inductive Discovered where
  | timedOut
  /-- The discoveries have ended. -/
  | ended
  | failed
  | found (remoteId : PeerId)

/-- A swarm whose attempts are the dialer's. -/
structure Dialer (k : ForkCrates) where
  dialing : Dialing k
  phase : DialerPhase
  currentPeers : Finset PeerId
  tasks : List DialTask

namespace Dialer

variable {k : ForkCrates}

inductive Action (k : ForkCrates) where
  /-- A step of the swarm, other than those of the tasks. -/
  | swarm (e : Event k)
  /-- The dialer looks at the number of entries. -/
  | look
  /-- The dialer hears of discovery. -/
  | discover (d : Discovered)
  | wake
  /-- A task calls `add_peer_inner`. -/
  | start (task : Nat)
  /-- The timer of a task is over. -/
  | timeOut (task : Nat)
  /-- The future of a task has returned. -/
  | finish (task : Nat)
  /-- A task takes its peer out of `current_peers`. -/
  | forget (task : Nat)

def new (k : ForkCrates) (maxPeers : Nat) : Dialer k := ⟨.start k maxPeers, .looking, ∅, []⟩

/-- The steps that only the tasks take. Nothing in the repository calls `ban`. -/
def allows : Event k → Bool
  | .addPeer _ _ | .drop _ | .ban _ => false
  | _ => true

/-- How far the future of an attempt has come. -/
def future (s : Dialer k) (cid : Nat) : Option Future := (s.dialing.swarm.attempts[cid]?).map (·.future)

/-- A task changes. -/
def setTask (s : Dialer k) (i : Nat) (t : DialTask) : Dialer k := { s with tasks := s.tasks.set i t }

/-- The dialer after `discovery_tasks.next()`. -/
def discovered (s : Dialer k) : Discovered → Dialer k
  | .timedOut | .failed => { s with phase := .sleeping }
  | .ended => { s with phase := .quit }
  | .found id =>
    if id ∈ s.currentPeers then { s with phase := .sleeping }
    else { s with
      phase := .sleeping
      currentPeers := insert id s.currentPeers
      tasks := s.tasks ++ [⟨id, .spawned⟩] }

/-- **A step** of the dialer, of one of its tasks, or of the swarm. -/
def step (s : Dialer k) : Action k → Option (Dialer k)
  | .swarm e => if allows e then (s.dialing.step e).map fun dialing => { s with dialing := dialing } else none
  | .look =>
    if s.phase = .looking ∧ s.dialing.swarm.setup = none then
      some { s with phase :=
        if s.dialing.swarm.mapping.keys.length < s.dialing.swarm.nodeFilter.maxPeers then .discovering else .sleeping }
    else none
  | .discover d => if s.phase = .discovering then some (s.discovered d) else none
  | .wake => if s.phase = .sleeping then some { s with phase := .looking } else none
  | .start i => s.tasks[i]?.bind fun t =>
    if t.stage = .spawned then
      (s.dialing.step (.addPeer t.remoteId true)).map fun dialing =>
        { s.setTask i { t with stage := .adding s.dialing.swarm.attempts.length } with dialing := dialing }
    else none
  | .timeOut i => s.tasks[i]?.bind fun t => match t.stage with
    -- the timer is asked after the future, which has been polled up to its await
    | .adding cid =>
      if s.future cid = some .dialing then
        (s.dialing.step (.drop cid)).map fun dialing =>
          { s.setTask i { t with stage := .returned } with dialing := dialing }
      else none
    | _ => none
  | .finish i => s.tasks[i]?.bind fun t => match t.stage with
    | .adding cid => if s.future cid = some .finished then some (s.setTask i { t with stage := .returned }) else none
    | _ => none
  | .forget i => s.tasks[i]?.bind fun t =>
    if t.stage = .returned then
      some { s.setTask i { t with stage := .ended } with currentPeers := s.currentPeers.erase t.remoteId }
    else none

/-- A task for the peer is at work. -/
def AtWork (tasks : List DialTask) (p : PeerId) (i : Nat) : Prop :=
  ∃ t, tasks[i]? = some t ∧ t.remoteId = p ∧ t.stage ≠ .ended

end Dialer

/-- An attempt that sets up a session is that of the setup. -/
def Swarm.Settled {k : ForkCrates} (s : Swarm k) : Prop :=
  ∀ (cid : Nat) (a : Attempt), s.attempts[cid]? = some a → a.future = .settingUp →
    ∃ u, s.setup = some u ∧ u.attempt = some cid

/-- What holds of a swarm whose attempts ask the filter, and are not dropped before they were polled. -/
structure Dialing.Tracked {k : ForkCrates} (maxPeers : Nat) (s : Dialing k) : Prop where
  sound : s.Sound
  limited : s.swarm.Limited maxPeers
  started : ∀ (cid : Nat) (a : Attempt), s.swarm.attempts[cid]? = some a → a.future ≠ .created → cid ∈ s.started
  counted : s.swarm.attempts.length < 2 ^ 64 → s.Counted
  settled : s.swarm.Settled

namespace Dialer

variable {k : ForkCrates}

/-- What holds in every run. -/
structure Sound (maxPeers : Nat) (s : Dialer k) : Prop where
  tracked : s.dialing.Tracked maxPeers
  /-- A task adds its peer. -/
  adds : ∀ (i : Nat) (t : DialTask) (cid : Nat), s.tasks[i]? = some t → t.stage = .adding cid →
    ∃ a, s.dialing.swarm.attempts[cid]? = some a ∧ a.remoteId = t.remoteId
  /-- An attempt that goes on has its task. -/
  owner : ∀ (cid : Nat) (a : Attempt), s.dialing.swarm.attempts[cid]? = some a → a.future ≠ .finished →
    ∃ (i : Nat) (t : DialTask), s.tasks[i]? = some t ∧ t.stage = .adding cid
  current : ∀ p, p ∈ s.currentPeers ↔ ∃ i, AtWork s.tasks p i
  unique : ∀ p i j, AtWork s.tasks p i → AtWork s.tasks p j → i = j

end Dialer

/-! ## What a step of the swarm does to the attempts -/

namespace Swarm

variable {k : ForkCrates} {s s' : Swarm k} {cid : Nat} {a b : Attempt} {e : Event k}

/-- Attempts keep their peers; those that have returned stay so, and those that were not polled are polled by the event,
or stay so. -/
def Carries (s : Swarm k) (e : Event k) (s' : Swarm k) : Prop :=
  s'.attempts.length = s.attempts.length ∧ ∀ (cid : Nat) (a : Attempt), s.attempts[cid]? = some a →
    ∃ a' : Attempt, s'.attempts[cid]? = some a' ∧ a'.remoteId = a.remoteId ∧
      (a.future = .finished → a'.future = .finished) ∧ (a.future = .created → a'.future = .created ∨ e = .poll cid)

theorem Carries.of_eq (h : s'.attempts = s.attempts) : s.Carries e s' :=
  ⟨by rw [h], fun _ a ha => ⟨a, h ▸ ha, rfl, id, .inl⟩⟩

theorem Carries.of_set (ha : s.attempts[cid]? = some a) (h : s'.attempts = s.attempts.set cid b)
    (hid : b.remoteId = a.remoteId) (hf : a.future = .finished → b.future = .finished)
    (hc : a.future = .created → b.future = .created ∨ e = .poll cid) : s.Carries e s' := by
  refine ⟨by rw [h, List.length_set], fun cid' a' ha' => ?_⟩
  rw [h]
  by_cases hcid : cid' = cid
  · subst hcid
    obtain rfl : a = a' := Option.some.inj (ha.symm.trans ha')
    exact ⟨b, (attempts_set ha b).2 (.inl ⟨rfl, rfl⟩), hid, hf, hc⟩
  · exact ⟨a', (attempts_set ha b).2 (.inr ⟨hcid, ha'⟩), rfl, id, .inl⟩

theorem finish_carries (ha : s.attempts[cid]? = some a) (hf : a.future ≠ .created) : s.Carries e (s.finish cid a) :=
  .of_set ha rfl rfl (fun _ => rfl) fun hc => absurd hc hf

/-- **The attempts after a step** that neither makes one nor drops one before its await. -/
theorem carries_of_step (ho : s.Owned) (hadd : ∀ p checkPeer, e ≠ .addPeer p checkPeer)
    (hdrop : ∀ cid a, e = .drop cid → s.attempts[cid]? = some a → a.future ≠ .created) (h : s.step e = some s') :
    s.Carries e s' := by
  cases steps_of_step h with
  | ban | setStatus | task | handle | disconnect | teardown | release => exact .of_eq rfl
  | addPeer => exact absurd rfl (hadd _ _)
  | poll ha hf => exact .of_set ha rfl rfl (fun hd => absurd (hf.symm.trans hd) (by simp)) fun _ => .inr rfl
  | uncount ha => exact .of_set ha rfl rfl id .inl
  | told ha => exact .of_set ha rfl rfl id .inl
  | incoming =>
    unfold incoming
    split
    · exact .of_eq rfl
    · split <;> exact .of_eq rfl
  | claim ha hf =>
    unfold claim
    split
    · exact finish_carries ha (by simp [hf])
    · split
      · exact finish_carries ha (by simp [hf])
      · exact .of_set ha rfl rfl (by simp [hf]) (by simp [hf])
  | adopt caps ha hf =>
    unfold adopt
    split
    · exact .of_set ha rfl rfl (by simp [hf]) (by simp [hf])
    · exact finish_carries ha (by simp [hf])
  | giveUp ha hf =>
    unfold giveUp
    split
    · exact .of_set ha rfl rfl (fun _ => rfl) (by simp [hf])
    · exact finish_carries ha (by simp [hf])
  | drop ha => exact finish_carries ha (hdrop _ _ rfl ha)
  | reap ha =>
    unfold reap
    dsimp only
    split <;> exact .of_set ha rfl rfl id .inl
  | accept =>
    unfold accept
    split <;> exact .of_eq rfl
  | reply =>
    unfold lookupSender
    split <;> exact .of_eq rfl
  | @proceed u s' hu h =>
    rcases proceed_cases h with rfl | ⟨-, hattempts, -⟩
    · unfold install
      cases hattempt : u.attempt with
      | none => exact .of_eq rfl
      | some cid' =>
        obtain ⟨a, ha, hf, -⟩ := ho.outgoing u cid' hu hattempt
        refine .of_set ha (b := { a with future := .finished, trigger := .sent }) ?_ rfl (fun _ => rfl) (by simp [hf])
        dsimp only
        rw [List.modify_eq_set_getElem?, ha]
        rfl
    · exact .of_eq hattempts

/-- No attempt sets up a session when the setup has ended: that of the setup has returned. -/
theorem install_settled (hs : s.Settled) {u : Setup} (hu : s.setup = some u) : (s.install u).Settled := by
  intro cid a ha hf
  have hother : ∀ b : Attempt, s.attempts[cid]? = some b → b.future = .settingUp → u.attempt = some cid := by
    intro b hb hf
    obtain ⟨u', hu', hcid⟩ := hs cid b hb hf
    rwa [Option.some.inj (hu.symm.trans hu')]
  unfold install at ha
  dsimp only at ha
  cases hattempt : u.attempt with
  | none =>
    rw [hattempt] at ha
    have := hother a ha hf
    rw [hattempt] at this
    cases this
  | some c =>
    rw [hattempt] at ha
    simp only [List.getElem?_modify] at ha
    obtain ⟨b, hb, hab⟩ := Option.map_eq_some_iff.1 ha
    by_cases hc : c = cid
    · rw [if_pos hc] at hab
      rw [← hab] at hf
      cases hf
    · rw [if_neg hc] at hab
      have := hother a (hab ▸ hb) hf
      rw [hattempt, Option.some.injEq] at this
      exact absurd this hc

/-- **Every step keeps the attempt that sets up a session** with its setup. -/
theorem step_settled (hs : s.Settled) (h : s.step e = some s') : s'.Settled := by
  intro cid a ha hf
  -- an attempt goes on, and the setup stays as it is
  have hset : ∀ {c : Nat} {x y : Attempt}, s.attempts[c]? = some x → s'.attempts = s.attempts.set c y →
      s'.setup = s.setup → (y.future = .settingUp → x.future = .settingUp) →
      ∃ u, s'.setup = some u ∧ u.attempt = some cid := by
    intro c x y hx hattempts hsetup hy
    rw [hsetup]
    rw [hattempts] at ha
    rcases (attempts_set hx y).1 ha with ⟨rfl, rfl⟩ | ⟨-, ha⟩
    · exact hs _ x hx (hy hf)
    · exact hs cid a ha hf
  by_cases hq : Quiet e
  · obtain ⟨-, hattempts, hsetup, -⟩ := step_quiet hq h
    rw [hsetup]
    exact hs cid a (hattempts ▸ ha) hf
  cases steps_of_step h with
  | ban => exact hs cid a ha hf
  | release => exact hs cid a ha hf
  | incoming remoteId caps hsetup =>
    have hattempts : (s.incoming remoteId caps).attempts = s.attempts := by
      unfold incoming
      split
      · rfl
      · split <;> rfl
    obtain ⟨u, hu, -⟩ := hs cid a (hattempts ▸ ha) hf
    rw [hsetup] at hu
    cases hu
  | addPeer =>
    rcases Nat.lt_or_ge cid s.attempts.length with hlt | hge
    · rw [List.getElem?_append_left hlt] at ha
      exact hs cid a ha hf
    · rw [List.getElem?_append_right hge] at ha
      obtain rfl := List.mem_singleton.1 (List.mem_of_getElem? ha)
      cases hf
  | poll hx => exact hset hx rfl rfl (by simp)
  | uncount hx => exact hset hx rfl rfl id
  | told hx => exact hset hx rfl rfl id
  | drop hx => exact hset hx rfl rfl (by simp)
  | @claim c x hx =>
    obtain ⟨y, hy, hsetup, hne⟩ : ∃ y, (s.claim c x).attempts = s.attempts.set c y ∧
        (s.claim c x).setup = s.setup ∧ y.future ≠ .settingUp := by
      unfold claim
      split
      · exact ⟨_, rfl, rfl, by simp⟩
      · split <;> exact ⟨_, rfl, rfl, by simp⟩
    exact hset hx hy hsetup fun hf => absurd hf hne
  | @giveUp c x hx =>
    obtain ⟨y, hy, hsetup, hne⟩ : ∃ y, (s.giveUp c x).attempts = s.attempts.set c y ∧
        (s.giveUp c x).setup = s.setup ∧ y.future ≠ .settingUp := by
      unfold giveUp
      split <;> exact ⟨_, rfl, rfl, by simp⟩
    exact hset hx hy hsetup fun hf => absurd hf hne
  | @reap c x hx =>
    obtain ⟨hy, hsetup⟩ : (s.reap c x).attempts = s.attempts.set c { x with reaper := .reaped } ∧
        (s.reap c x).setup = s.setup := by
      unfold reap
      dsimp only
      split <;> exact ⟨rfl, rfl⟩
    exact hset hx hy hsetup id
  | @adopt c x caps hx _ hsetup =>
    by_cases hentry : ∃ n, s.mapping.lookup x.remoteId = some (.connecting n)
    · obtain ⟨n, hentry⟩ := hentry
      simp only [adopt, hentry] at ha ⊢
      rcases (attempts_set hx _).1 ha with ⟨rfl, -⟩ | ⟨-, ha⟩
      · exact ⟨_, rfl, rfl⟩
      · obtain ⟨u, hu, -⟩ := hs cid a ha hf
        rw [hsetup] at hu
        cases hu
    · have hfinish : s.adopt c x caps = s.finish c x := by
        unfold adopt
        split
        · exact absurd ⟨_, ‹_›⟩ hentry
        · rfl
      rw [hfinish] at hset ⊢
      exact hset hx rfl rfl (by simp)
  | @proceed u s' hu h =>
    rcases proceed_cases h with rfl | ⟨-, hattempts, -, hsetup⟩
    · exact install_settled hs hu cid a ha hf
    · obtain ⟨u', hu', hattempt⟩ := hs cid a (hattempts ▸ ha) hf
      obtain rfl : u = u' := Option.some.inj (hu.symm.trans hu')
      rcases hsetup with hsetup | ⟨stage, hsetup⟩
      · exact ⟨u, hsetup.trans hu, hattempt⟩
      · exact ⟨_, hsetup, hattempt⟩
  | setStatus | task | handle | accept | reply | disconnect | teardown => exact absurd trivial hq

end Swarm

/-! ## The attempts of the dialer -/

namespace Dialing

open Swarm (attempts_set)

variable {k : ForkCrates} {s s' : Dialing k} {e : Event k} {maxPeers : Nat}

theorem start_tracked (k : ForkCrates) (maxPeers : Nat) : (start k maxPeers).Tracked maxPeers where
  sound := start_sound k maxPeers
  limited := Swarm.new_limited k maxPeers
  started cid a ha := by simp [start, Swarm.new] at ha
  counted _ := rfl
  settled cid a ha := by simp [start, Swarm.new] at ha

/-- An attempt that was not polled is not under way, so there is room for it among the attempts. -/
theorem Tracked.length_underway_lt (hs : s.Tracked maxPeers) {cid : Nat} {a : Attempt}
    (ha : s.swarm.attempts[cid]? = some a) (hf : a.future = .created) :
    s.underway.length + 1 ≤ s.swarm.attempts.length := by
  have hnew : cid ∉ s.started := fun hmem => by
    obtain ⟨a', ha', hf'⟩ := hs.sound.begun cid hmem
    rw [ha, Option.some.injEq] at ha'
    exact hf' (ha' ▸ hf)
  have hnodup : (cid :: s.underway).Nodup :=
    List.nodup_cons.2 ⟨fun hmem => hnew (mem_underway.1 hmem).1, hs.sound.nodup.filter _⟩
  have hsub : cid :: s.underway ⊆ List.range s.swarm.attempts.length := by
    intro c hc
    rw [List.mem_range]
    rcases List.mem_cons.1 hc with rfl | hc
    · exact (List.getElem?_eq_some_iff.1 ha).1
    · obtain ⟨a', ha', -⟩ := hs.sound.begun c (mem_underway.1 hc).1
      exact (List.getElem?_eq_some_iff.1 ha').1
  have := (List.subperm_of_subset hnodup hsub).length_le
  rwa [List.length_cons, List.length_range] at this

/-- The reapers take off only attempts that have been polled. -/
theorem Tracked.balanced (hs : s.Tracked maxPeers) (hlt : s.swarm.attempts.length < 2 ^ 64) (e : Event k) :
    s.Balanced e := by
  unfold Balanced
  split
  · intro a ha hf
    exact (hs.length_underway_lt ha hf).trans_lt hlt
  · rename_i cid
    intro a ha hr
    refine hs.started cid a ha fun hf => ?_
    have := (hs.sound.swarm.2.held cid a ha (by simp [hf])).2
    rw [hr] at this
    cases this
  · trivial

/-- **A step that asks the filter and drops nothing that was not polled** keeps track of the attempts. -/
theorem Tracked.step (hs : s.Tracked maxPeers) (hadd : ∀ p, e ≠ .addPeer p false) (hban : ∀ p, e ≠ .ban p)
    (hdrop : ∀ cid a, e = .drop cid → s.swarm.attempts[cid]? = some a → a.future ≠ .created)
    (h : s.step e = some s') : s'.Tracked maxPeers := by
  obtain ⟨hstep, hstarted⟩ := of_step h
  have hsub : s.started ⊆ s'.started := by
    rw [hstarted]
    unfold polled
    split
    · exact List.subset_append_left _ _
    · exact List.Subset.refl _
  obtain ⟨hlength, hnew⟩ : s.swarm.attempts.length ≤ s'.swarm.attempts.length ∧
      ∀ (cid : Nat) (a : Attempt), s'.swarm.attempts[cid]? = some a → a.future ≠ .created → cid ∈ s'.started := by
    by_cases hadded : ∃ p checkPeer, e = .addPeer p checkPeer
    · obtain ⟨p, checkPeer, rfl⟩ := hadded
      obtain hattempts : _ = s'.swarm := Option.some.inj hstep
      rw [← hattempts]
      refine ⟨by simp, fun cid a ha hf => hsub ?_⟩
      rcases Nat.lt_or_ge cid s.swarm.attempts.length with hlt | hge
      · exact hs.started cid a (by rwa [List.getElem?_append_left hlt] at ha) hf
      · rw [List.getElem?_append_right hge] at ha
        obtain rfl := List.mem_singleton.1 (List.mem_of_getElem? ha)
        exact absurd rfl hf
    · obtain ⟨hlength, hcarries⟩ := Swarm.carries_of_step hs.sound.swarm.2
        (fun p checkPeer he => hadded ⟨p, checkPeer, he⟩) hdrop hstep
      refine ⟨hlength.ge, fun cid a' ha' hf' => ?_⟩
      have hlt : cid < s.swarm.attempts.length := hlength ▸ (List.getElem?_eq_some_iff.1 ha').1
      obtain ⟨a₁, ha₁, -, -, hcreated⟩ := hcarries cid _ (List.getElem?_eq_getElem hlt)
      obtain rfl : a' = a₁ := Option.some.inj (ha'.symm.trans ha₁)
      by_cases hf : (s.swarm.attempts[cid]).future = .created
      · obtain rfl := (hcreated hf).resolve_left hf'
        rw [hstarted, polled]
        simp
      · exact hsub (hs.started cid _ (List.getElem?_eq_getElem hlt) hf)
  refine ⟨step_sound s e s' hs.sound h, ?_, hnew, fun hlt => ?_, ?_⟩
  · exact Swarm.step_limited hs.sound.swarm.2 hs.limited ⟨hadd, fun u _ _ => hban u.peer⟩ hstep
  · have hlt : s.swarm.attempts.length < 2 ^ 64 := hlength.trans_lt hlt
    exact (counted_step_iff hs.sound (hs.counted hlt) e).2 (hs.balanced hlt e) s' h
  · exact Swarm.step_settled hs.settled hstep

end Dialing

/-! ## Steps of the dialer -/

namespace Dialer

variable {k : ForkCrates} {s s' : Dialer k} {maxPeers : Nat} {i : Nat} {t : DialTask} {p : PeerId}

/-- The steps, each with what it requires. -/
inductive Moves (s : Dialer k) : Dialer k → Prop
  | swarm {e : Event k} {d : Dialing k} (he : allows e = true) (hd : s.dialing.step e = some d) :
    Moves s { s with dialing := d }
  | loop (phase : DialerPhase) : Moves s { s with phase := phase }
  | spawn {id : PeerId} (hid : id ∉ s.currentPeers) :
    Moves s { s with
      phase := .sleeping
      currentPeers := insert id s.currentPeers
      tasks := s.tasks ++ [⟨id, .spawned⟩] }
  | start {i : Nat} {t : DialTask} {d : Dialing k} (ht : s.tasks[i]? = some t) (hs : t.stage = .spawned)
    (hd : s.dialing.step (.addPeer t.remoteId true) = some d) :
    Moves s { s.setTask i { t with stage := .adding s.dialing.swarm.attempts.length } with dialing := d }
  | timeOut {i : Nat} {t : DialTask} {cid : Nat} {d : Dialing k} (ht : s.tasks[i]? = some t)
    (hs : t.stage = .adding cid) (hf : s.future cid = some .dialing) (hd : s.dialing.step (.drop cid) = some d) :
    Moves s { s.setTask i { t with stage := .returned } with dialing := d }
  | finish {i : Nat} {t : DialTask} {cid : Nat} (ht : s.tasks[i]? = some t) (hs : t.stage = .adding cid)
    (hf : s.future cid = some .finished) : Moves s (s.setTask i { t with stage := .returned })
  | forget {i : Nat} {t : DialTask} (ht : s.tasks[i]? = some t) (hs : t.stage = .returned) :
    Moves s { s.setTask i { t with stage := .ended } with currentPeers := s.currentPeers.erase t.remoteId }

/-- **The steps, one by one.** -/
theorem moves_of_step {a : Action k} (h : s.step a = some s') : Moves s s' := by
  cases a with
  | swarm e =>
    simp only [step] at h
    split at h
    · obtain ⟨d, hd, rfl⟩ := Option.map_eq_some_iff.1 h
      exact .swarm ‹_› hd
    · cases h
  | look =>
    simp only [step] at h
    split at h <;> cases h
    exact .loop _
  | discover d =>
    simp only [step] at h
    split at h <;> cases h
    cases d with
    | timedOut | ended | failed => exact .loop _
    | found id =>
      simp only [discovered]
      split
      · exact .loop _
      · exact .spawn ‹_›
  | wake =>
    simp only [step] at h
    split at h <;> cases h
    exact .loop _
  | start i =>
    obtain ⟨t, ht, h⟩ := Option.bind_eq_some_iff.1 h
    split at h
    · obtain ⟨d, hd, rfl⟩ := Option.map_eq_some_iff.1 h
      exact .start ht ‹_› hd
    · cases h
  | timeOut i =>
    obtain ⟨t, ht, h⟩ := Option.bind_eq_some_iff.1 h
    split at h
    · rename_i hs
      split at h
      · obtain ⟨d, hd, rfl⟩ := Option.map_eq_some_iff.1 h
        exact .timeOut ht hs ‹_› hd
      · cases h
    · cases h
  | finish i =>
    obtain ⟨t, ht, h⟩ := Option.bind_eq_some_iff.1 h
    split at h
    · rename_i hs
      split at h <;> cases h
      exact .finish ht hs ‹_›
    · cases h
  | forget i =>
    obtain ⟨t, ht, h⟩ := Option.bind_eq_some_iff.1 h
    split at h <;> cases h
    exact .forget ht ‹_›

/-- A task that goes on is at work as before. -/
theorem atWork_set {tasks : List DialTask} (ht : tasks[i]? = some t) (hs : t.stage ≠ .ended) {stage : DialStage}
    (hstage : stage ≠ .ended) {j : Nat} : AtWork (tasks.set i { t with stage := stage }) p j ↔ AtWork tasks p j := by
  unfold AtWork
  simp only [getElem?_set_iff ht]
  constructor
  · rintro ⟨u, ⟨rfl, rfl⟩ | ⟨-, hu⟩, hp, hu'⟩
    · exact ⟨t, ht, hp, hs⟩
    · exact ⟨u, hu, hp, hu'⟩
  · rintro ⟨u, hu, hp, hu'⟩
    by_cases hj : j = i
    · subst hj
      obtain rfl : t = u := Option.some.inj (ht.symm.trans hu)
      exact ⟨_, .inl ⟨rfl, rfl⟩, hp, hstage⟩
    · exact ⟨u, .inr ⟨hj, hu⟩, hp, hu'⟩

/-- A task that ends is not at work any more. -/
theorem atWork_end {tasks : List DialTask} (ht : tasks[i]? = some t) {j : Nat} :
    AtWork (tasks.set i { t with stage := .ended }) p j ↔ AtWork tasks p j ∧ j ≠ i := by
  unfold AtWork
  simp only [getElem?_set_iff ht]
  constructor
  · rintro ⟨u, ⟨rfl, rfl⟩ | ⟨hj, hu⟩, hp, hu'⟩
    · exact absurd rfl hu'
    · exact ⟨⟨u, hu, hp, hu'⟩, hj⟩
  · rintro ⟨⟨u, hu, hp, hu'⟩, hj⟩
    exact ⟨u, .inr ⟨hj, hu⟩, hp, hu'⟩

/-- A new task is at work on its peer. -/
theorem atWork_snoc {tasks : List DialTask} {id : PeerId} {j : Nat} :
    AtWork (tasks ++ [⟨id, .spawned⟩]) p j ↔ AtWork tasks p j ∨ j = tasks.length ∧ p = id := by
  unfold AtWork
  constructor
  · rintro ⟨u, hu, hp, hu'⟩
    rcases Nat.lt_trichotomy j tasks.length with hlt | rfl | hgt
    · rw [List.getElem?_append_left hlt] at hu
      exact .inl ⟨u, hu, hp, hu'⟩
    · rw [List.getElem?_concat_length, Option.some.injEq] at hu
      subst hu
      exact .inr ⟨rfl, hp.symm⟩
    · have hlt := (List.getElem?_eq_some_iff.1 hu).1
      rw [List.length_append, List.length_singleton] at hlt
      omega
  · rintro (⟨u, hu, hp, hu'⟩ | ⟨rfl, rfl⟩)
    · exact ⟨u, (List.getElem?_append_left (List.getElem?_eq_some_iff.1 hu).1).trans hu, hp, hu'⟩
    · exact ⟨_, List.getElem?_concat_length, rfl, by simp⟩

theorem new_sound (k : ForkCrates) (maxPeers : Nat) : (new k maxPeers).Sound maxPeers where
  tracked := Dialing.start_tracked k maxPeers
  adds i t cid ht := by simp [new] at ht
  owner cid a ha := by simp [new, Dialing.start, Swarm.new] at ha
  current p := by simp [new, AtWork]
  unique p i j hi := by simp [new, AtWork] at hi

/-- The peer of an attempt that a task adds, after a step. -/
theorem Sound.adds_carried (hs : s.Sound maxPeers) {e : Event k} {d : Dialing k}
    (hc : s.dialing.swarm.Carries e d.swarm) {cid : Nat} (ht : s.tasks[i]? = some t) (hstage : t.stage = .adding cid) :
    ∃ a, d.swarm.attempts[cid]? = some a ∧ a.remoteId = t.remoteId := by
  obtain ⟨a, ha, hid⟩ := hs.adds i t cid ht hstage
  obtain ⟨a', ha', hid', -⟩ := hc.2 cid a ha
  exact ⟨a', ha', hid'.trans hid⟩

/-- The task of an attempt that goes on after a step. -/
theorem Sound.owner_carried (hs : s.Sound maxPeers) {e : Event k} {d : Dialing k}
    (hc : s.dialing.swarm.Carries e d.swarm) {cid : Nat} {a : Attempt} (ha : d.swarm.attempts[cid]? = some a)
    (hf : a.future ≠ .finished) : ∃ (i : Nat) (t : DialTask), s.tasks[i]? = some t ∧ t.stage = .adding cid := by
  have hlt : cid < s.dialing.swarm.attempts.length := hc.1 ▸ (List.getElem?_eq_some_iff.1 ha).1
  obtain ⟨a', ha', -, hfinished, -⟩ := hc.2 cid _ (List.getElem?_eq_getElem hlt)
  obtain rfl : a = a' := Option.some.inj (ha.symm.trans ha')
  exact hs.owner cid _ (List.getElem?_eq_getElem hlt) fun h => hf (hfinished h)

/-- The task of an attempt stays when another one goes on. -/
theorem getElem?_set_of_adding {tasks : List DialTask} (ht : tasks[i]? = some t) (v : DialTask) {j cid : Nat}
    {u : DialTask} (hu : tasks[j]? = some u) (hcid : u.stage = .adding cid) (hne : t.stage ≠ .adding cid) :
    (tasks.set i v)[j]? = some u := by
  refine (getElem?_set_iff ht v).2 (.inr ⟨?_, hu⟩)
  rintro rfl
  obtain rfl : t = u := Option.some.inj (ht.symm.trans hu)
  exact hne hcid

/-- A task that does not call `add_peer_inner` adds no attempt. -/
theorem getElem?_of_adding {tasks : List DialTask} (ht : tasks[i]? = some t) {v : DialTask}
    (hv : ∀ cid, v.stage ≠ .adding cid) {j cid : Nat} {u : DialTask} (hu : (tasks.set i v)[j]? = some u)
    (hcid : u.stage = .adding cid) : tasks[j]? = some u := by
  rcases (getElem?_set_iff ht v).1 hu with ⟨-, rfl⟩ | ⟨-, hu⟩
  · exact absurd hcid (hv cid)
  · exact hu

/-- A task that goes on, next to what holds of the attempts. -/
theorem Sound.of_set (hs : s.Sound maxPeers) {d : Dialing k} {stage : DialStage} (hd : d.Tracked maxPeers)
    (ht : s.tasks[i]? = some t) (hstage : t.stage ≠ .ended) (hstage' : stage ≠ .ended)
    (hadds : ∀ (j : Nat) (u : DialTask) (cid : Nat), (s.tasks.set i { t with stage := stage })[j]? = some u →
      u.stage = .adding cid → ∃ a, d.swarm.attempts[cid]? = some a ∧ a.remoteId = u.remoteId)
    (howner : ∀ (cid : Nat) (a : Attempt), d.swarm.attempts[cid]? = some a → a.future ≠ .finished →
      ∃ (j : Nat) (u : DialTask), (s.tasks.set i { t with stage := stage })[j]? = some u ∧ u.stage = .adding cid) :
    Sound maxPeers { s.setTask i { t with stage := stage } with dialing := d } where
  tracked := hd
  adds := hadds
  owner := howner
  current p := by
    simp only [setTask, atWork_set ht hstage hstage']
    exact hs.current p
  unique p j j' := by
    simp only [setTask, atWork_set ht hstage hstage']
    exact hs.unique p j j'

/-- The swarm takes a step of its own. -/
theorem Sound.swarm (hs : s.Sound maxPeers) {e : Event k} {d : Dialing k} (he : allows e = true)
    (hd : s.dialing.step e = some d) : Sound maxPeers { s with dialing := d } := by
  have hadd : ∀ p checkPeer, e ≠ .addPeer p checkPeer := by
    rintro p checkPeer rfl
    cases he
  have hdrop : ∀ cid, e ≠ .drop cid := by
    rintro cid rfl
    cases he
  have hban : ∀ p, e ≠ .ban p := by
    rintro p rfl
    cases he
  have hc : s.dialing.swarm.Carries e d.swarm := Swarm.carries_of_step hs.tracked.sound.swarm.2 hadd
    (fun cid _ he => absurd he (hdrop cid)) (Dialing.of_step hd).1
  exact {
    tracked := hs.tracked.step (fun p => hadd p false) hban (fun cid _ he => absurd he (hdrop cid)) hd
    adds := fun i t cid ht hstage => hs.adds_carried hc ht hstage
    owner := fun cid a ha hf => hs.owner_carried hc ha hf
    current := hs.current
    unique := hs.unique }

/-- A task is spawned for a peer that none is at work on. -/
theorem Sound.spawn (hs : s.Sound maxPeers) {id : PeerId} (hid : id ∉ s.currentPeers) :
    Sound maxPeers { s with
      phase := .sleeping
      currentPeers := insert id s.currentPeers
      tasks := s.tasks ++ [⟨id, .spawned⟩] } := by
  have hnone : ∀ i, ¬AtWork s.tasks id i := fun i hi => hid ((hs.current id).2 ⟨i, hi⟩)
  refine ⟨hs.tracked, fun i t cid ht hstage => ?_, fun cid a ha hf => ?_, fun p => ?_, fun p i j hi hj => ?_⟩
  · rcases List.mem_append.1 (List.mem_of_getElem? ht) with hmem | hmem
    · obtain ⟨j, hj⟩ := List.mem_iff_getElem?.1 hmem
      exact hs.adds j t cid hj hstage
    · rw [List.mem_singleton.1 hmem] at hstage
      cases hstage
  · obtain ⟨i, t, ht, hstage⟩ := hs.owner cid a ha hf
    exact ⟨i, t, (List.getElem?_append_left (List.getElem?_eq_some_iff.1 ht).1).trans ht, hstage⟩
  · simp only [Finset.mem_insert, atWork_snoc, hs.current p]
    constructor
    · rintro (rfl | ⟨i, hi⟩)
      · exact ⟨_, .inr ⟨rfl, rfl⟩⟩
      · exact ⟨i, .inl hi⟩
    · rintro ⟨i, hi | ⟨-, rfl⟩⟩
      · exact .inr ⟨i, hi⟩
      · exact .inl rfl
  · rcases atWork_snoc.1 hi with hi | ⟨rfl, rfl⟩ <;> rcases atWork_snoc.1 hj with hj | ⟨rfl, hp⟩
    · exact hs.unique p i j hi hj
    · exact absurd (hp ▸ hi) (hnone i)
    · exact absurd hj (hnone j)
    · rfl

/-- A task calls `add_peer_inner`. -/
theorem Sound.start (hs : s.Sound maxPeers) {d : Dialing k} (ht : s.tasks[i]? = some t) (hstage : t.stage = .spawned)
    (hd : s.dialing.step (.addPeer t.remoteId true) = some d) : Sound maxPeers
      { s.setTask i { t with stage := .adding s.dialing.swarm.attempts.length } with dialing := d } := by
  have hattempts : d.swarm.attempts =
      s.dialing.swarm.attempts ++ [⟨t.remoteId, true, .created, .held, .waiting⟩] := by
    rw [← Option.some.inj (Dialing.of_step hd).1]
  refine hs.of_set (hs.tracked.step (by simp) (by simp) (by simp) hd) ht (by simp [hstage]) (by simp)
    (fun j u cid hu hcid => ?_) (fun cid a ha hf => ?_)
  · rw [hattempts]
    rcases (getElem?_set_iff ht _).1 hu with ⟨-, rfl⟩ | ⟨-, hu⟩
    · cases hcid
      exact ⟨_, List.getElem?_concat_length, rfl⟩
    · obtain ⟨a, ha, hid⟩ := hs.adds j u cid hu hcid
      exact ⟨a, (List.getElem?_append_left (List.getElem?_eq_some_iff.1 ha).1).trans ha, hid⟩
  · rw [hattempts] at ha
    rcases Nat.lt_trichotomy cid s.dialing.swarm.attempts.length with hlt | rfl | hgt
    · rw [List.getElem?_append_left hlt] at ha
      obtain ⟨j, u, hu, hcid⟩ := hs.owner cid a ha hf
      exact ⟨j, u, getElem?_set_of_adding ht _ hu hcid (by simp [hstage]), hcid⟩
    · exact ⟨i, _, (getElem?_set_iff ht _).2 (.inl ⟨rfl, rfl⟩), rfl⟩
    · have hlt := (List.getElem?_eq_some_iff.1 ha).1
      rw [List.length_append, List.length_singleton] at hlt
      omega

/-- The timer drops the future at its await. -/
theorem Sound.timeOut (hs : s.Sound maxPeers) {cid : Nat} {d : Dialing k} (ht : s.tasks[i]? = some t)
    (hstage : t.stage = .adding cid) (hf : s.future cid = some .dialing) (hd : s.dialing.step (.drop cid) = some d) :
    Sound maxPeers { s.setTask i { t with stage := .returned } with dialing := d } := by
  obtain ⟨a, ha, hfuture⟩ := Option.map_eq_some_iff.1 hf
  have hdrop : ∀ (c : Nat) (b : Attempt), Event.drop (k := k) cid = .drop c → s.dialing.swarm.attempts[c]? = some b →
      b.future ≠ .created := by
    rintro c b ⟨⟩ hb
    rw [ha, Option.some.injEq] at hb
    simp [← hb, hfuture]
  have hstep := (Dialing.of_step hd).1
  have hc : s.dialing.swarm.Carries (.drop cid) d.swarm :=
    Swarm.carries_of_step hs.tracked.sound.swarm.2 (by simp) hdrop hstep
  have hgone : ∀ b, d.swarm.attempts[cid]? = some b → b.future = .finished := by
    intro b hb
    simp only [Swarm.step, ha, Option.bind_some, hfuture, or_true, if_true, Option.some.injEq] at hstep
    rw [← hstep] at hb
    rcases (Swarm.attempts_set ha _).1 hb with ⟨-, rfl⟩ | ⟨hne, -⟩
    · rfl
    · exact absurd rfl hne
  refine hs.of_set (hs.tracked.step (by simp) (by simp) hdrop hd) ht (by simp [hstage]) (by simp)
    (fun j u c hu hcid => hs.adds_carried hc (getElem?_of_adding ht (by simp) hu hcid) hcid) (fun c b hb hf => ?_)
  obtain ⟨j, u, hu, hcid⟩ := hs.owner_carried hc hb hf
  refine ⟨j, u, getElem?_set_of_adding ht _ hu hcid ?_, hcid⟩
  rw [hstage, ne_eq, DialStage.adding.injEq]
  rintro rfl
  exact hf (hgone b hb)

/-- The future returns to its task. -/
theorem Sound.finish (hs : s.Sound maxPeers) {cid : Nat} (ht : s.tasks[i]? = some t) (hstage : t.stage = .adding cid)
    (hf : s.future cid = some .finished) : Sound maxPeers (s.setTask i { t with stage := .returned }) := by
  refine hs.of_set hs.tracked ht (by simp [hstage]) (by simp)
    (fun j u c hu hcid => hs.adds j u c (getElem?_of_adding ht (by simp) hu hcid) hcid) (fun c b hb hf' => ?_)
  obtain ⟨j, u, hu, hcid⟩ := hs.owner c b hb hf'
  refine ⟨j, u, getElem?_set_of_adding ht _ hu hcid ?_, hcid⟩
  rw [hstage, ne_eq, DialStage.adding.injEq]
  rintro rfl
  rw [future, hb, Option.map_some, Option.some.injEq] at hf
  exact hf' hf

/-- A task takes its peer out of `current_peers`: no other one is at work on it. -/
theorem Sound.forget (hs : s.Sound maxPeers) (ht : s.tasks[i]? = some t) (hstage : t.stage = .returned) :
    Sound maxPeers
      { s.setTask i { t with stage := .ended } with currentPeers := s.currentPeers.erase t.remoteId } := by
  have hwork : AtWork s.tasks t.remoteId i := ⟨t, ht, rfl, by simp [hstage]⟩
  refine ⟨hs.tracked, fun j u c hu hcid => hs.adds j u c (getElem?_of_adding ht (by simp) hu hcid) hcid,
    fun c b hb hf => ?_, fun p => ?_, fun p j j' hj hj' => ?_⟩
  · obtain ⟨j, u, hu, hcid⟩ := hs.owner c b hb hf
    exact ⟨j, u, getElem?_set_of_adding ht _ hu hcid (by simp [hstage]), hcid⟩
  · simp only [setTask, atWork_end ht, Finset.mem_erase, hs.current p]
    constructor
    · rintro ⟨hne, j, hj⟩
      refine ⟨j, hj, ?_⟩
      rintro rfl
      obtain ⟨u, hu, hp, -⟩ := hj
      obtain rfl : t = u := Option.some.inj (ht.symm.trans hu)
      exact hne hp.symm
    · rintro ⟨j, hj, hne⟩
      refine ⟨?_, j, hj⟩
      rintro rfl
      exact hne (hs.unique _ j i hj hwork)
  · exact hs.unique p j j' ((atWork_end ht).1 hj).1 ((atWork_end ht).1 hj').1

/-- **Every step keeps what holds.** -/
theorem step_sound (s : Dialer k) (a : Action k) (s' : Dialer k) (hs : s.Sound maxPeers) (h : s.step a = some s') :
    s'.Sound maxPeers := by
  cases moves_of_step h with
  | swarm he hd => exact hs.swarm he hd
  | loop phase => exact ⟨hs.tracked, hs.adds, hs.owner, hs.current, hs.unique⟩
  | spawn hid => exact hs.spawn hid
  | start ht hstage hd => exact hs.start ht hstage hd
  | timeOut ht hstage hf hd => exact hs.timeOut ht hstage hf hd
  | finish ht hstage hf => exact hs.finish ht hstage hf
  | forget ht hstage => exact hs.forget ht hstage

/-- They hold wherever a run leads. -/
theorem run_sound {as : List (Action k)} (h : Runs.run step (new k maxPeers) as = some s) : s.Sound maxPeers :=
  Runs.invariant step_sound as (new_sound k maxPeers) h

/-! ## What the dialer does -/

/-- **Every peer is dialed once at a time**: in every run of a new swarm whose attempts are the dialer's, the peers in
`current_peers` are those with a task at work, and each of them has one; two attempts at a peer do not go on at once;
the entries are within the limit; and the dial counter is the number of attempts under way, as long as there were not
`2 ^ 64` of them. -/
theorem dials_once {as : List (Action k)} (h : Runs.run step (new k maxPeers) as = some s) :
    (∀ p, p ∈ s.currentPeers ↔ ∃ i, AtWork s.tasks p i) ∧
    (∀ p i j, AtWork s.tasks p i → AtWork s.tasks p j → i = j) ∧
    (∀ (cid cid' : Nat) (a b : Attempt), s.dialing.swarm.attempts[cid]? = some a →
      s.dialing.swarm.attempts[cid']? = some b → a.remoteId = b.remoteId → a.future ≠ .finished →
        b.future ≠ .finished → cid = cid') ∧
    s.dialing.swarm.mapping.keys.length ≤ maxPeers ∧
    (s.dialing.swarm.attempts.length < 2 ^ 64 → s.dialing.dialing = s.dialing.underway.length) := by
  have hs := run_sound h
  refine ⟨hs.current, hs.unique, fun cid cid' a b ha hb hid hf hf' => ?_, hs.tracked.limited.size, hs.tracked.counted⟩
  obtain ⟨i, t, ht, hstage⟩ := hs.owner cid a ha hf
  obtain ⟨j, u, hu, hstage'⟩ := hs.owner cid' b hb hf'
  obtain ⟨a₁, ha₁, ht₁⟩ := hs.adds i t cid ht hstage
  obtain ⟨b₁, hb₁, hu₁⟩ := hs.adds j u cid' hu hstage'
  obtain rfl : a = a₁ := Option.some.inj (ha.symm.trans ha₁)
  obtain rfl : b = b₁ := Option.some.inj (hb.symm.trans hb₁)
  -- both attempts are those of the one task at work on the peer
  obtain rfl : i = j := hs.unique a.remoteId i j ⟨t, ht, ht₁.symm, by simp [hstage]⟩
    ⟨u, hu, hu₁.symm.trans hid.symm, by simp [hstage']⟩
  obtain rfl : t = u := Option.some.inj (ht.symm.trans hu)
  rw [hstage, DialStage.adding.injEq] at hstage'
  exact hstage'

/-! ## Tasks that end -/

/-- A peer can be taken out of `current_peers`. -/
def Forgets (s : Dialer k) (p : PeerId) : Prop := ∃ as s', Runs.run step s as = some s' ∧ p ∉ s'.currentPeers

theorem Forgets.of_step {a : Action k} (h : s.step a = some s') (hf : s'.Forgets p) : s.Forgets p := by
  obtain ⟨as, s'', hrun, hp⟩ := hf
  refine ⟨a :: as, s'', ?_, hp⟩
  rw [Runs.run_cons, h]
  exact hrun

section Forgets

variable {cid : Nat} {a : Attempt}

/-- The task of the peer, after a step of it. -/
theorem getElem?_setTask (ht : s.tasks[i]? = some t) (u : DialTask) : (s.setTask i u).tasks[i]? = some u :=
  List.getElem?_set_self (List.getElem?_eq_some_iff.1 ht).1

theorem forgets_returned (ht : s.tasks[i]? = some t) (hstage : t.stage = .returned) : s.Forgets t.remoteId := by
  refine ⟨[.forget i], { s.setTask i { t with stage := .ended } with currentPeers := s.currentPeers.erase t.remoteId },
    ?_, by simp⟩
  simp [step, ht, hstage]

theorem forgets_finished (ht : s.tasks[i]? = some t) (hstage : t.stage = .adding cid)
    (hf : s.future cid = some .finished) : s.Forgets t.remoteId := by
  have hstep : s.step (.finish i) = some (s.setTask i { t with stage := .returned }) := by
    simp [step, ht, hstage, hf]
  exact .of_step hstep (forgets_returned (t := { t with stage := .returned }) (getElem?_setTask ht _) rfl)

/-- The timer ends a task that awaits the connection. -/
theorem forgets_dialing (ht : s.tasks[i]? = some t) (hstage : t.stage = .adding cid)
    (hf : s.future cid = some .dialing) : s.Forgets t.remoteId := by
  obtain ⟨a, ha, hfuture⟩ := Option.map_eq_some_iff.1 hf
  have hdrop : s.dialing.step (.drop cid) = some ⟨s.dialing.swarm.finish cid a, s.dialing.started⟩ := by
    simp [Dialing.step, Dialing.polled, Swarm.step, ha, hfuture]
  have hstep : s.step (.timeOut i) = some { s.setTask i { t with stage := .returned } with
      dialing := ⟨s.dialing.swarm.finish cid a, s.dialing.started⟩ } := by
    simp [step, ht, hstage, hf, hdrop]
  exact .of_step hstep (forgets_returned (t := { t with stage := .returned }) (getElem?_setTask ht _) rfl)

/-- A future that gets the locks returns, or awaits the connection. -/
theorem forgets_counted (hs : s.dialing.swarm.setup = none) (ht : s.tasks[i]? = some t)
    (hstage : t.stage = .adding cid) (ha : s.dialing.swarm.attempts[cid]? = some a) (hf : a.future = .counted) :
    s.Forgets t.remoteId := by
  have hclaim : s.dialing.step (.claim cid) = some ⟨s.dialing.swarm.claim cid a, s.dialing.started⟩ := by
    simp [Dialing.step, Dialing.polled, Swarm.step, ha, hf, hs]
  have hstep : s.step (.swarm (.claim cid)) = some { s with
      dialing := ⟨s.dialing.swarm.claim cid a, s.dialing.started⟩ } := by
    simp [step, allows, hclaim]
  refine .of_step hstep ?_
  have hself := fun b => List.getElem?_set_self (a := b) (List.getElem?_eq_some_iff.1 ha).1
  have hcases : ∃ b : Attempt, (s.dialing.swarm.claim cid a).attempts[cid]? = some b ∧
      (b.future = .finished ∨ b.future = .dialing) := by
    unfold Swarm.claim
    split
    · exact ⟨_, hself _, .inl rfl⟩
    · split
      · exact ⟨_, hself _, .inl rfl⟩
      · exact ⟨_, hself _, .inr rfl⟩
  obtain ⟨b, hb, hf | hf⟩ := hcases
  · exact forgets_finished ht hstage (by rw [future, hb, Option.map_some, hf])
  · exact forgets_dialing ht hstage (by rw [future, hb, Option.map_some, hf])

theorem forgets_created (hs : s.dialing.swarm.setup = none) (ht : s.tasks[i]? = some t)
    (hstage : t.stage = .adding cid) (ha : s.dialing.swarm.attempts[cid]? = some a) (hf : a.future = .created) :
    s.Forgets t.remoteId := by
  have hpoll := Dialing.step_poll.2 ⟨a, ha, hf, rfl⟩
  have hstep : s.step (.swarm (.poll cid)) = some { s with dialing :=
      ⟨{ s.dialing.swarm.setAttempt cid { a with future := .counted } with
        currentlyConnecting := fetchAdd s.dialing.swarm.currentlyConnecting }, s.dialing.started ++ [cid]⟩ } := by
    simp [step, allows, hpoll]
  refine .of_step hstep ?_
  exact forgets_counted (a := { a with future := .counted }) hs ht hstage
    (List.getElem?_set_self (List.getElem?_eq_some_iff.1 ha).1) rfl

theorem forgets_spawned (hs : s.dialing.swarm.setup = none) (ht : s.tasks[i]? = some t)
    (hstage : t.stage = .spawned) : s.Forgets t.remoteId := by
  have hadd : s.dialing.step (.addPeer t.remoteId true) = some ⟨{ s.dialing.swarm with
      attempts := s.dialing.swarm.attempts ++ [⟨t.remoteId, true, .created, .held, .waiting⟩] },
      s.dialing.started⟩ := rfl
  refine .of_step (a := .start i) (by
    simp only [step, ht, Option.bind_some, hstage, if_true, hadd, Option.map_some]
    rfl) ?_
  exact forgets_created (t := { t with stage := .adding s.dialing.swarm.attempts.length }) hs (getElem?_setTask ht _)
    rfl List.getElem?_concat_length rfl

end Forgets

/-- **A peer can be dialed again**: in every state that a run reaches, while no session is set up under the lock, there
is a way on that ends the task at work on a peer. -/
theorem exists_forgotten {as : List (Action k)} (h : Runs.run step (new k maxPeers) as = some s)
    (hs : s.dialing.swarm.setup = none) (p : PeerId) :
    ∃ bs s', Runs.run step s bs = some s' ∧ p ∉ s'.currentPeers := by
  have hsound := run_sound h
  by_cases hp : p ∈ s.currentPeers
  · obtain ⟨i, t, ht, rfl, hstage⟩ := (hsound.current p).1 hp
    change s.Forgets t.remoteId
    cases hst : t.stage with
    | spawned => exact forgets_spawned hs ht hst
    | adding cid =>
      obtain ⟨a, ha, -⟩ := hsound.adds i t cid ht hst
      cases hf : a.future with
      | created => exact forgets_created hs ht hst ha hf
      | counted => exact forgets_counted hs ht hst ha hf
      | dialing => exact forgets_dialing ht hst (by rw [future, ha, Option.map_some, hf])
      | settingUp =>
        -- a session is set up under the lock
        obtain ⟨u, hu, -⟩ := hsound.tracked.settled cid a ha hf
        rw [hs] at hu
        cases hu
      | finished => exact forgets_finished ht hst (by rw [future, ha, Option.map_some, hf])
    | returned => exact forgets_returned ht hst
    | ended => exact absurd hst hstage
  · exact ⟨[], s, rfl, hp⟩

section Example

/-- A peer is discovered, and once more while its task is at work. -/
def discoverTwice : List (Action genesisForks) :=
  [.look, .discover (.found Swarm.samplePeer), .wake, .start 0, .swarm (.poll 0), .swarm (.claim 0), .look,
    .discover (.found Swarm.samplePeer), .wake]

end Example

/-- It has one task, and one entry. -/
theorem discoverTwice_once : ∃ s, Runs.run step (new genesisForks 10) discoverTwice = some s ∧ s.tasks.length = 1 ∧
    s.dialing.swarm.mapping.keys.length ≤ 10 ∧ s.dialing.dialing = 1 ∧ s.dialing.underway.length = 1 := by
  have hrun : (Runs.run step (new genesisForks 10) discoverTwice).map (fun s =>
      (s.tasks.length, s.dialing.swarm.attempts.length, s.dialing.dialing)) = some (1, 1, 1) := by decide +kernel
  obtain ⟨s, hs, h⟩ := Option.map_eq_some_iff.1 hrun
  obtain ⟨htasks, h⟩ := Prod.mk.inj h
  obtain ⟨hattempts, hdialing⟩ := Prod.mk.inj h
  obtain ⟨-, -, -, hsize, hcounted⟩ := dials_once hs
  exact ⟨s, hs, htasks, hsize, hdialing, by rw [← hcounted (by rw [hattempts]; decide), hdialing]⟩

/-- Its task can end, and then the peer can be dialed again. -/
theorem discoverTwice_forgotten : ∃ s s' bs, Runs.run step (new genesisForks 10) discoverTwice = some s ∧
    Swarm.samplePeer ∈ s.currentPeers ∧ Runs.run step s bs = some s' ∧ Swarm.samplePeer ∉ s'.currentPeers := by
  have hrun : (Runs.run step (new genesisForks 10) discoverTwice).map (fun s =>
      (s.dialing.swarm.setup.isNone, decide (Swarm.samplePeer ∈ s.currentPeers))) = some (true, true) := by
    decide +kernel
  obtain ⟨s, hs, h⟩ := Option.map_eq_some_iff.1 hrun
  obtain ⟨hsetup, hmem⟩ := Prod.mk.inj h
  obtain ⟨bs, s', hrun', hp⟩ := exists_forgotten hs (Option.isNone_iff_eq_none.1 hsetup) Swarm.samplePeer
  exact ⟨s, s', bs, hs, of_decide_eq_true hmem, hrun', hp⟩

end Dialer

end EthereumSentry
