import EthereumSentry.Swarm.Alternation

/-!
# Who owns an entry

A `Connecting` entry belongs to the attempt with its connection id: an attempt that connects or sets up its session has
its entry, and an entry is that of an attempt that does, or that was dropped and whose reaper has yet to run (`Owned`).
The future of `add_peer_inner` removes or upgrades the entry of its peer without a look at the connection id. It is its
own, since no other step can have replaced it (`step_owned`, `slots_owned`).
-/

set_option autoImplicit false

namespace EthereumSentry

variable {k : ForkCrates}

/-- The elements of a list after a change of one of them. -/
theorem getElem?_set_iff {α : Type} {l : List α} {i j : Nat} {x z : α} (hx : l[i]? = some x) (y : α) :
    (l.set i y)[j]? = some z ↔ (j = i ∧ z = y) ∨ (j ≠ i ∧ l[j]? = some z) := by
  by_cases h : j = i
  · subst h
    rw [List.getElem?_set_self (List.getElem?_eq_some_iff.1 hx).1]
    simp [eq_comm]
  · rw [List.getElem?_set_ne (Ne.symm h)]
    simp [h]

namespace Attempt

/-- The future has inserted its entry, and has not returned. -/
def Running (a : Attempt) : Prop := a.future = .dialing ∨ a.future = .settingUp

/-- The future runs, or it was dropped and the reaper has yet to run. -/
def Responsible (a : Attempt) : Prop := a.Running ∨ (a.trigger = .dropped ∧ a.reaper = .waiting)

theorem not_running_of_finished {a : Attempt} (h : a.future = .finished) : ¬a.Running := by
  rintro (hr | hr) <;> rw [h] at hr <;> cases hr

theorem Responsible.not_of_held {a : Attempt} (h : ¬a.Running) (ht : a.trigger = .held) : ¬a.Responsible := by
  rintro (hr | ⟨hd, -⟩)
  · exact h hr
  · rw [ht] at hd
    cases hd

end Attempt

namespace Swarm

/-- **Entries and attempts belong together.** -/
structure Owned (s : Swarm k) : Prop where
  entry : ∀ p cid, s.mapping.lookup p = some (.connecting cid) →
    ∃ a, s.attempts[cid]? = some a ∧ a.remoteId = p ∧ a.Responsible
  running : ∀ (cid : Nat) (a : Attempt), s.attempts[cid]? = some a → a.Running →
    s.mapping.lookup a.remoteId = some (.connecting cid)
  held : ∀ (cid : Nat) (a : Attempt), s.attempts[cid]? = some a → a.future ≠ .finished →
    a.trigger = .held ∧ a.reaper = .waiting
  outgoing : ∀ u cid, s.setup = some u → u.attempt = some cid →
    ∃ a, s.attempts[cid]? = some a ∧ a.future = .settingUp ∧ a.remoteId = u.peer
  incoming : ∀ u, s.setup = some u → u.attempt = none → s.mapping.lookup u.peer = none

variable {s s' : Swarm k} {cid : Nat} {a c : Attempt}

/-- The other attempts stay as they are. -/
theorem attempts_set (ha : s.attempts[cid]? = some a) (c : Attempt) {cid' : Nat} {b : Attempt} :
    (s.attempts.set cid c)[cid']? = some b ↔ (cid' = cid ∧ b = c) ∨ (cid' ≠ cid ∧ s.attempts[cid']? = some b) :=
  getElem?_set_iff ha c

/-- A change that leaves entries, attempts and the setup as they are. -/
theorem Owned.of_eq (h : s.Owned) (hm : s'.mapping = s.mapping) (ha : s'.attempts = s.attempts)
    (hs : s'.setup.map (fun u => (u.peer, u.attempt)) = s.setup.map fun u => (u.peer, u.attempt)) : s'.Owned := by
  have hsetup : ∀ u', s'.setup = some u' → ∃ u, s.setup = some u ∧ u.peer = u'.peer ∧ u.attempt = u'.attempt := by
    intro u' hu'
    rw [hu', Option.map_some, eq_comm, Option.map_eq_some_iff] at hs
    obtain ⟨u, hu, he⟩ := hs
    exact ⟨u, hu, congrArg Prod.fst he, congrArg Prod.snd he⟩
  constructor
  · rw [hm, ha]
    exact h.entry
  · rw [hm, ha]
    exact h.running
  · rw [ha]
    exact h.held
  · intro u' cid hu' hcid
    obtain ⟨u, hu, hpeer, hattempt⟩ := hsetup u' hu'
    rw [ha, ← hpeer]
    exact h.outgoing u cid hu (hattempt.trans hcid)
  · intro u' hu' hnone
    obtain ⟨u, hu, hpeer, hattempt⟩ := hsetup u' hu'
    rw [hm, ← hpeer]
    exact h.incoming u hu (hattempt.trans hnone)

/-- An attempt that sets nothing up goes on, and the entries stay. -/
theorem Owned.of_set_attempt (h : s.Owned) (ha : s.attempts[cid]? = some a) (hf : a.future ≠ .settingUp)
    (hm : s'.mapping = s.mapping) (hs : s'.setup = s.setup) (hattempts : s'.attempts = s.attempts.set cid c)
    (hid : c.remoteId = a.remoteId) (hresp : a.Responsible → c.Responsible) (hrun : c.Running → a.Running)
    (hheld : c.future ≠ .finished → c.trigger = .held ∧ c.reaper = .waiting) : s'.Owned := by
  have hset := fun {cid' : Nat} {b : Attempt} =>
    (attempts_set ha c : (s.attempts.set cid c)[cid']? = some b ↔ _)
  constructor
  · intro p cid' hp
    rw [hm] at hp
    obtain ⟨b, hb, hbp, hbr⟩ := h.entry p cid' hp
    rw [hattempts]
    by_cases hc : cid' = cid
    · subst hc
      rw [ha] at hb
      cases hb
      exact ⟨c, hset.2 (.inl ⟨rfl, rfl⟩), hid.trans hbp, hresp hbr⟩
    · exact ⟨b, hset.2 (.inr ⟨hc, hb⟩), hbp, hbr⟩
  · intro cid' b hb hr
    rw [hattempts] at hb
    rw [hm]
    rcases hset.1 hb with ⟨rfl, rfl⟩ | ⟨-, hb⟩
    · rw [hid]
      exact h.running cid' a ha (hrun hr)
    · exact h.running cid' b hb hr
  · intro cid' b hb hne
    rw [hattempts] at hb
    rcases hset.1 hb with ⟨rfl, rfl⟩ | ⟨-, hb⟩
    · exact hheld hne
    · exact h.held cid' b hb hne
  · intro u cid' hu hc
    rw [hs] at hu
    obtain ⟨b, hb, hbf, hbp⟩ := h.outgoing u cid' hu hc
    rw [hattempts]
    refine ⟨b, hset.2 (.inr ⟨fun he => ?_, hb⟩), hbf, hbp⟩
    subst he
    rw [ha] at hb
    cases hb
    exact hf hbf
  · rw [hm, hs]
    exact h.incoming

/-- An attempt goes on with the entry of its peer, while nothing is set up before. -/
theorem Owned.of_set_entry (h : s.Owned) (ha : s.attempts[cid]? = some a)
    (hattempts : s'.attempts = s.attempts.set cid c) (hid : c.remoteId = a.remoteId)
    (hm : ∀ q, q ≠ a.remoteId → s'.mapping.lookup q = s.mapping.lookup q)
    (hother : ∀ cid', cid' ≠ cid → (s'.mapping.lookup a.remoteId = some (.connecting cid') ↔
      s.mapping.lookup a.remoteId = some (.connecting cid')))
    (hself : s'.mapping.lookup a.remoteId = some (.connecting cid) → c.Responsible)
    (hrun : c.Running → s'.mapping.lookup a.remoteId = some (.connecting cid))
    (hheld : c.future ≠ .finished → c.trigger = .held ∧ c.reaper = .waiting)
    (hsetup : s'.setup = none ∨ ∃ u, s'.setup = some u ∧ u.attempt = some cid ∧ c.future = .settingUp ∧
      u.peer = a.remoteId) : s'.Owned := by
  have hset := fun {cid' : Nat} {b : Attempt} =>
    (attempts_set ha c : (s.attempts.set cid c)[cid']? = some b ↔ _)
  constructor
  · intro p cid' hp
    rw [hattempts]
    by_cases hpa : p = a.remoteId
    · subst hpa
      by_cases hc : cid' = cid
      · subst hc
        exact ⟨c, hset.2 (.inl ⟨rfl, rfl⟩), hid, hself hp⟩
      · obtain ⟨b, hb, hbp, hbr⟩ := h.entry _ cid' ((hother cid' hc).1 hp)
        exact ⟨b, hset.2 (.inr ⟨hc, hb⟩), hbp, hbr⟩
    · rw [hm p hpa] at hp
      obtain ⟨b, hb, hbp, hbr⟩ := h.entry p cid' hp
      refine ⟨b, hset.2 (.inr ⟨fun he => ?_, hb⟩), hbp, hbr⟩
      subst he
      rw [ha] at hb
      cases hb
      exact hpa hbp.symm
  · intro cid' b hb hr
    rw [hattempts] at hb
    rcases hset.1 hb with ⟨rfl, rfl⟩ | ⟨hc, hb⟩
    · rw [hid]
      exact hrun hr
    · have hlookup := h.running cid' b hb hr
      by_cases hpa : b.remoteId = a.remoteId
      · rw [hpa] at hlookup ⊢
        exact (hother cid' hc).2 hlookup
      · rw [hm _ hpa]
        exact hlookup
  · intro cid' b hb hne
    rw [hattempts] at hb
    rcases hset.1 hb with ⟨rfl, rfl⟩ | ⟨-, hb⟩
    · exact hheld hne
    · exact h.held cid' b hb hne
  · intro u cid' hu hc
    rcases hsetup with hnone | ⟨u', hu', hc', hf, hp⟩
    · rw [hnone] at hu
      cases hu
    · rw [hu'] at hu
      cases hu
      rw [hc'] at hc
      cases hc
      rw [hattempts]
      exact ⟨c, hset.2 (.inl ⟨rfl, rfl⟩), hf, hid.trans hp.symm⟩
  · intro u hu hc
    rcases hsetup with hnone | ⟨u', hu', hc', -⟩
    · rw [hnone] at hu
      cases hu
    · rw [hu'] at hu
      cases hu
      rw [hc'] at hc
      cases hc

/-- The steps that touch neither entries nor attempts, nor how far a setup has come. -/
def Quiet : Event k → Prop
  | .setStatus _ => True
  | .task _ _ => True
  | .handle _ => True
  | .accept _ => True
  | .reply _ => True
  | .disconnect _ => True
  | .teardown _ => True
  | _ => False

theorem step_quiet {e : Event k} (he : Quiet e) (h : s.step e = some s') :
    s'.mapping = s.mapping ∧ s'.attempts = s.attempts ∧ s'.setup = s.setup ∧ s'.nodeFilter = s.nodeFilter := by
  cases steps_of_step h with
  | setStatus | task | handle | disconnect | teardown => exact ⟨rfl, rfl, rfl, rfl⟩
  | accept =>
    unfold accept
    split <;> exact ⟨rfl, rfl, rfl, rfl⟩
  | reply =>
    unfold lookupSender
    split <;> exact ⟨rfl, rfl, rfl, rfl⟩
  | ban | incoming | addPeer | poll | claim | adopt | giveUp | drop | told | reap | uncount | proceed | release =>
    cases he

/-- A part of `setup_peer_state` is its end, or touches neither entries nor attempts. -/
theorem proceed_cases {u : Setup} (h : s.proceed u = some s') : s' = s.install u ∨
    s'.mapping = s.mapping ∧ s'.attempts = s.attempts ∧ s'.nodeFilter = s.nodeFilter ∧
      (s'.setup = s.setup ∨ ∃ stage, s'.setup = some { u with stage := stage }) := by
  cases proceeds_of_proceed h with
  | prepare | register | spawnIngress | spawnEgress | spawnPinger => exact .inr ⟨rfl, rfl, rfl, .inr ⟨_, rfl⟩⟩
  | fail => exact .inr ⟨rfl, rfl, rfl, .inl rfl⟩
  | install => exact .inl rfl

/-! ## Steps -/

/-- An attempt that has not been polled to its end is let go of: its reaper is waiting. -/
theorem Owned.finish (h : s.Owned) (ha : s.attempts[cid]? = some a) (hf : a.future ≠ .settingUp)
    (hf' : a.future ≠ .finished) : (s.finish cid a).Owned := by
  refine h.of_set_attempt ha hf rfl rfl rfl rfl (fun _ => .inr ⟨rfl, (h.held cid a ha hf').2⟩) (fun hr => ?_)
    fun hne => absurd rfl hne
  exact absurd hr (Attempt.not_running_of_finished rfl)

theorem Owned.claim (h : s.Owned) (hs : s.setup = none) (ha : s.attempts[cid]? = some a) (hf : a.future = .counted) :
    (s.claim cid a).Owned := by
  unfold Swarm.claim
  split
  · exact h.finish ha (by simp [hf]) (by simp [hf])
  · rename_i hnone
    split
    · exact h.finish ha (by simp [hf]) (by simp [hf])
    · refine h.of_set_entry ha (c := { a with future := .dialing }) rfl rfl
        (fun q hq => AList.lookup_insert_ne hq) (fun cid' hc => ?_) (fun _ => .inl (.inl rfl))
        (fun _ => AList.lookup_insert _) (fun _ => h.held cid a ha (by simp [hf])) (.inl hs)
      simp [hnone, Ne.symm hc]

/-- The entry is the attempt's own. -/
theorem Owned.lookup_eq (h : s.Owned) (ha : s.attempts[cid]? = some a) (hf : a.future = .dialing) :
    s.mapping.lookup a.remoteId = some (.connecting cid) := h.running cid a ha (.inl hf)

theorem Owned.adopt (h : s.Owned) (ha : s.attempts[cid]? = some a) (hf : a.future = .dialing)
    (caps : List (CapabilityName × Nat)) : (s.adopt cid a caps).Owned := by
  have hentry := h.lookup_eq ha hf
  simp only [Swarm.adopt, hentry]
  exact h.of_set_entry ha (c := { a with future := .settingUp }) rfl rfl (fun _ _ => rfl) (fun _ _ => Iff.rfl)
    (fun _ => .inl (.inr rfl)) (fun _ => hentry) (fun _ => h.held cid a ha (by simp [hf]))
    (.inr ⟨_, rfl, rfl, rfl, rfl⟩)

theorem Owned.giveUp (h : s.Owned) (hs : s.setup = none) (ha : s.attempts[cid]? = some a) (hf : a.future = .dialing) :
    (s.giveUp cid a).Owned := by
  have hentry := h.lookup_eq ha hf
  simp only [Swarm.giveUp, hentry]
  refine h.of_set_entry ha (c := { a with future := .finished, trigger := .dropped }) rfl rfl
    (fun q hq => AList.lookup_erase_ne hq) (fun cid' hc => ?_) (fun hself => ?_) (fun hr => ?_)
    (fun hne => absurd rfl hne) (.inl hs)
  · simp [hentry, Ne.symm hc]
  · simp at hself
  · exact absurd hr (Attempt.not_running_of_finished rfl)

/-- A trigger is held until the future has returned. -/
theorem Owned.finished (h : s.Owned) (ha : s.attempts[cid]? = some a) (ht : a.trigger ≠ .held) :
    a.future = .finished := by
  by_contra hf
  exact ht (h.held cid a ha hf).1

theorem Owned.reap (h : s.Owned) (hs : s.setup = none) (ha : s.attempts[cid]? = some a) (ht : a.trigger = .dropped) :
    (s.reap cid a).Owned := by
  have hf := h.finished ha (by simp [ht])
  have hrun : ¬Attempt.Running { a with reaper := .reaped } := Attempt.not_running_of_finished hf
  unfold Swarm.reap
  dsimp only
  split
  · rename_i hentry
    refine h.of_set_entry ha (c := { a with reaper := .reaped }) rfl rfl (fun q hq => AList.lookup_erase_ne hq)
      (fun cid' hc => ?_) (fun hself => ?_) (fun hr => absurd hr hrun) (fun hne => absurd hf hne) (.inl hs)
    · simp [hentry, Ne.symm hc]
    · simp at hself
  · rename_i hentry
    exact h.of_set_entry ha (c := { a with reaper := .reaped }) rfl rfl (fun _ _ => rfl) (fun _ _ => Iff.rfl)
      (fun hself => absurd hself hentry) (fun hr => absurd hr hrun) (fun hne => absurd hf hne) (.inl hs)

/-- A new attempt. -/
theorem Owned.addPeer (h : s.Owned) (remoteId : PeerId) (checkPeer : Bool) :
    Owned { s with attempts := s.attempts ++ [⟨remoteId, checkPeer, .created, .held, .waiting⟩] } := by
  have hold : ∀ {cid b}, s.attempts[cid]? = some b →
      (s.attempts ++ [⟨remoteId, checkPeer, .created, .held, .waiting⟩])[cid]? = some b := fun hb =>
    (List.getElem?_append_left (List.getElem?_eq_some_iff.1 hb).1).trans hb
  have hnew : ∀ {cid : Nat} {b : Attempt},
      (s.attempts ++ [⟨remoteId, checkPeer, .created, .held, .waiting⟩])[cid]? = some b →
        s.attempts[cid]? = some b ∨ b = ⟨remoteId, checkPeer, .created, .held, .waiting⟩ := by
    intro cid b hb
    rcases Nat.lt_or_ge cid s.attempts.length with hlt | hge
    · exact .inl (by rwa [List.getElem?_append_left hlt] at hb)
    · rw [List.getElem?_append_right hge] at hb
      exact .inr (List.mem_singleton.1 (List.mem_of_getElem? hb))
  constructor
  · intro p cid hp
    obtain ⟨b, hb, hbp, hbr⟩ := h.entry p cid hp
    exact ⟨b, hold hb, hbp, hbr⟩
  · intro cid b hb hr
    rcases hnew hb with hb | rfl
    · exact h.running cid b hb hr
    · rcases hr with hr | hr <;> cases hr
  · intro cid b hb hne
    rcases hnew hb with hb | rfl
    · exact h.held cid b hb hne
    · exact ⟨rfl, rfl⟩
  · intro u cid hu hc
    obtain ⟨b, hb, hbf, hbp⟩ := h.outgoing u cid hu hc
    exact ⟨b, hold hb, hbf, hbp⟩
  · exact h.incoming

/-- A connection is set up: nobody else has an entry for its peer. -/
theorem Owned.install (h : s.Owned) {u : Setup} (hs : s.setup = some u) : (s.install u).Owned := by
  cases hattempt : u.attempt with
  | some cid =>
    obtain ⟨a, ha, hf, hp⟩ := h.outgoing u cid hs hattempt
    have hentry := h.running cid a ha (.inr hf)
    have hset : s.attempts.modify cid (fun a => { a with future := .finished, trigger := .sent }) =
        s.attempts.set cid { a with future := .finished, trigger := .sent } := by
      rw [List.modify_eq_set_getElem?, ha]
      rfl
    refine h.of_set_entry ha (c := { a with future := .finished, trigger := .sent })
      (by simp only [Swarm.install, hattempt, hset]) rfl (fun q hq => ?_) (fun cid' hc => ?_) (fun hself => ?_)
      (fun hr => ?_) (fun hne => absurd rfl hne) (.inl rfl)
    · exact AList.lookup_insert_ne (hp ▸ hq)
    · simp [Swarm.install, ← hp, hentry, Ne.symm hc]
    · simp [Swarm.install, ← hp] at hself
    · exact absurd hr (Attempt.not_running_of_finished rfl)
  | none =>
    have hnone := h.incoming u hs hattempt
    have hlookup : ∀ p cid, (s.install u).mapping.lookup p = some (.connecting cid) ↔
        s.mapping.lookup p = some (.connecting cid) := by
      intro p cid
      by_cases hp : p = u.peer
      · subst hp
        simp [Swarm.install, hnone]
      · rw [Swarm.install, AList.lookup_insert_ne hp]
    have hattempts : (s.install u).attempts = s.attempts := by simp only [Swarm.install, hattempt]
    constructor
    · intro p cid hp
      rw [hattempts]
      exact h.entry p cid ((hlookup p cid).1 hp)
    · intro cid b hb hr
      rw [hattempts] at hb
      exact (hlookup _ _).2 (h.running cid b hb hr)
    · rw [hattempts]
      exact h.held
    · intro u' cid hu'
      cases hu'
    · intro u' hu'
      cases hu'

/-- A session leaves the slot that it holds. -/
theorem Owned.release (h : s.Owned) (hs : s.setup = none) {p : PeerId} {sid : Nat}
    (hp : s.mapping.lookup p = some (.connected sid)) (hm : s'.mapping = s.mapping.erase p)
    (ha : s'.attempts = s.attempts) (hs' : s'.setup = s.setup) : s'.Owned := by
  have hlookup : ∀ q cid, s'.mapping.lookup q = some (.connecting cid) ↔
      s.mapping.lookup q = some (.connecting cid) := by
    intro q cid
    rw [hm]
    by_cases hq : q = p
    · subst hq
      simp [hp]
    · rw [AList.lookup_erase_ne hq]
  constructor
  · intro q cid hq
    rw [ha]
    exact h.entry q cid ((hlookup q cid).1 hq)
  · intro cid b hb hr
    rw [ha] at hb
    exact (hlookup _ _).2 (h.running cid b hb hr)
  · rw [ha]
    exact h.held
  · intro u cid hu
    rw [hs', hs] at hu
    cases hu
  · intro u hu
    rw [hs', hs] at hu
    cases hu

/-- The session that is released holds its slot. -/
theorem Sound.lookup_eq (h : s.Sound) (hs : s.setup = none) {sid : Nat} {x : Session k}
    (hx : s.sessions[sid]? = some x) (he : x.egress = .tornDown) :
    s.mapping.lookup x.peer = some (.connected sid) := by
  have hl : s.slots.life sid = some (x.peer, .torn) := by rw [slots_life hx, he]; rfl
  rcases h.1.held sid x.peer .torn hl (by decide) with hh | ⟨r, hr⟩
  · simp only [slots, holderOf] at hh
    split at hh
    · rename_i sid' hsid
      cases hh
      exact hsid
    · cases hh
  · simp [slots, hs] at hr

theorem Owned.incoming_owned (h : s.Owned) (remoteId : PeerId)
    (caps : List (CapabilityName × Nat)) : (s.incoming remoteId caps).Owned := by
  unfold Swarm.incoming
  split
  · exact h
  · rename_i hnone
    split
    · refine ⟨h.entry, h.running, h.held, fun u cid hu hc => ?_, fun u hu _ => ?_⟩
      · cases hu
        cases hc
      · cases hu
        exact hnone
    · exact h

theorem Owned.proceed (h : s.Owned) {u : Setup} (hs : s.setup = some u) (hstep : s.proceed u = some s') : s'.Owned := by
  rcases proceed_cases hstep with rfl | ⟨hm, ha, -, hsetup | ⟨stage, hsetup⟩⟩
  · exact h.install hs
  · exact h.of_eq hm ha (by rw [hsetup])
  · exact h.of_eq hm ha (by rw [hsetup, hs]; rfl)

/-- **Every step keeps entries and attempts together.** -/
theorem step_owned (hsound : s.Sound) (h : s.Owned) {e : Event k} (hstep : s.step e = some s') : s'.Owned := by
  by_cases hq : Quiet e
  · obtain ⟨hm, ha, hs, -⟩ := step_quiet hq hstep
    exact h.of_eq hm ha (by rw [hs])
  cases steps_of_step hstep with
  | ban => exact h.of_eq rfl rfl rfl
  | incoming remoteId caps => exact h.incoming_owned remoteId caps
  | addPeer remoteId checkPeer => exact h.addPeer remoteId checkPeer
  | @poll cid a ha hf =>
    have hrun : ¬a.Running := by rintro (hr | hr) <;> rw [hf] at hr <;> cases hr
    have hheld := h.held cid a ha (by simp [hf])
    refine h.of_set_attempt ha (c := { a with future := .counted }) (by simp [hf]) rfl rfl rfl rfl
      (fun hr => absurd hr (Attempt.Responsible.not_of_held hrun hheld.1)) (fun hr => ?_) fun _ => hheld
    rcases hr with hr | hr <;> cases hr
  | claim ha hf hs => exact h.claim hs ha hf
  | adopt caps ha hf => exact h.adopt ha hf caps
  | giveUp ha hf hs => exact h.giveUp hs ha hf
  | drop ha hf =>
    exact h.finish ha (by rcases hf with hf | hf <;> simp [hf]) (by rcases hf with hf | hf <;> simp [hf])
  | @told cid a ha hr ht =>
    have hf := h.finished ha (by simp [ht])
    refine h.of_set_attempt ha (c := { a with reaper := .reaped }) (by simp [hf]) rfl rfl rfl rfl (fun hr => ?_)
      (fun hr => hr) fun hne => absurd hf hne
    rcases hr with hr | hr
    · exact .inl hr
    · rw [ht] at hr
      cases hr.1
  | reap ha hr ht hs => exact h.reap hs ha ht
  | @uncount cid a ha hr =>
    have hf : a.future = .finished := by
      by_contra hf
      have := (h.held cid a ha hf).2
      rw [hr] at this
      cases this
    refine h.of_set_attempt ha (c := { a with reaper := .done }) (by simp [hf]) rfl rfl rfl rfl (fun hresp => ?_)
      (fun hr => hr) fun hne => absurd hf hne
    rcases hresp with hrun | ⟨-, hw⟩
    · exact .inl hrun
    · rw [hr] at hw
      cases hw
  | proceed hs hproceed => exact h.proceed hs hproceed
  | setStatus | task | handle | accept | reply | disconnect | teardown => exact absurd trivial hq
  | release hx he hs => exact h.release hs (hsound.lookup_eq hs hx he) rfl rfl rfl

/-! ## Changes of an entry -/

/-- The step removes or upgrades the entry of the attempt: it is one of the attempt itself, or of its reaper. -/
inductive ByOwner (s : Swarm k) (cid : Nat) (p : PeerId) : Event k → Swarm k → Prop
  | giveUp {s' : Swarm k} (h : s'.mapping.lookup p = none) : ByOwner s cid p (.giveUp cid) s'
  | reap {s' : Swarm k} (h : s'.mapping.lookup p = none) : ByOwner s cid p (.reap cid) s'
  | install {u : Setup} {s' : Swarm k} (hs : s.setup = some u) (ha : u.attempt = some cid) (hp : u.peer = p)
      (h : s'.mapping.lookup p = some (.connected u.session)) : ByOwner s cid p .proceed s'

/-- What a step does to the entry of a peer. -/
inductive Changes (s : Swarm k) (p : PeerId) (e : Event k) (s' : Swarm k) : Prop
  | same (h : s'.mapping.lookup p = s.mapping.lookup p)
  | claimed {cid : Nat} {a : Attempt} (h : s.mapping.lookup p = none) (he : e = .claim cid)
    (ha : s.attempts[cid]? = some a) (hp : a.remoteId = p)
    (hallow : a.checkPeer = true → s.nodeFilter.allow s.mapping.keys.length p = true)
  | accepted {u : Setup} (h : s.mapping.lookup p = none) (he : e = .proceed) (hs : s.setup = some u)
    (hu : u.attempt = none) (hp : u.peer = p)
  | owner {cid : Nat} (h : s.mapping.lookup p = some (.connecting cid)) (ho : ByOwner s cid p e s')
  | released {sid : Nat} (h : s.mapping.lookup p = some (.connected sid)) (he : e = .release sid)
      (h' : s'.mapping.lookup p = none)

theorem claim_changes (ha : s.attempts[cid]? = some a) (p : PeerId) : Changes s p (.claim cid) (s.claim cid a) := by
  unfold Swarm.claim
  split
  · exact .same rfl
  · rename_i hnone
    split
    · exact .same rfl
    · rename_i hallow
      by_cases hp : p = a.remoteId
      · subst hp
        exact .claimed hnone rfl ha rfl fun hc => by simpa [hc] using hallow
      · exact .same (AList.lookup_insert_ne hp)

theorem giveUp_changes (h : s.Owned) (ha : s.attempts[cid]? = some a) (hf : a.future = .dialing) (p : PeerId) :
    Changes s p (.giveUp cid) (s.giveUp cid a) := by
  have hentry := h.lookup_eq ha hf
  simp only [Swarm.giveUp, hentry]
  by_cases hp : p = a.remoteId
  · subst hp
    exact .owner hentry (.giveUp (AList.lookup_erase _ _))
  · exact .same (AList.lookup_erase_ne hp)

theorem reap_changes (cid : Nat) (a : Attempt) (p : PeerId) : Changes s p (.reap cid) (s.reap cid a) := by
  unfold Swarm.reap
  dsimp only
  split
  · rename_i hentry
    by_cases hp : p = a.remoteId
    · subst hp
      exact .owner hentry (.reap (AList.lookup_erase _ _))
    · exact .same (AList.lookup_erase_ne hp)
  · exact .same rfl

theorem install_changes (h : s.Owned) {u : Setup} (hs : s.setup = some u) (p : PeerId) :
    Changes s p .proceed (s.install u) := by
  by_cases hp : p = u.peer
  · subst hp
    cases hattempt : u.attempt with
    | some cid =>
      obtain ⟨a, ha, hf, hpeer⟩ := h.outgoing u cid hs hattempt
      have hentry := h.running cid a ha (.inr hf)
      rw [hpeer] at hentry
      exact .owner hentry (.install hs hattempt rfl (AList.lookup_insert _))
    | none => exact .accepted (h.incoming u hs hattempt) rfl hs hattempt rfl
  · exact .same (AList.lookup_insert_ne hp)

/-- **An entry is changed by its owner only.** -/
theorem step_changes (hsound : s.Sound) (h : s.Owned) {e : Event k} (hstep : s.step e = some s') (p : PeerId) :
    Changes s p e s' := by
  by_cases hq : Quiet e
  · exact .same (by rw [(step_quiet hq hstep).1])
  cases steps_of_step hstep with
  | ban | addPeer | poll | drop | told | uncount => exact .same rfl
  | incoming =>
    unfold Swarm.incoming
    split
    · exact .same rfl
    · split <;> exact .same rfl
  | claim ha => exact claim_changes ha p
  | adopt =>
    unfold Swarm.adopt
    split <;> exact .same rfl
  | giveUp ha hf => exact giveUp_changes h ha hf p
  | reap => exact reap_changes _ _ p
  | proceed hs hproceed =>
    rcases proceed_cases hproceed with rfl | ⟨hm, -⟩
    · exact install_changes h hs p
    · exact .same (by rw [hm])
  | @release sid x hx he hs =>
    by_cases hp : p = x.peer
    · subst hp
      exact .released (hsound.lookup_eq hs hx he) rfl (AList.lookup_erase _ _)
    · exact .same (AList.lookup_erase_ne hp)
  | setStatus | task | handle | accept | reply | disconnect | teardown => exact absurd trivial hq

/-! ## Runs -/

theorem new_owned (k : ForkCrates) (maxPeers : Nat) : (new k maxPeers).Owned where
  entry p cid h := by simp [new] at h
  running cid a h := by simp [new] at h
  held cid a h := by simp [new] at h
  outgoing u cid h := by simp [new] at h
  incoming u h := by simp [new] at h

/-- Both hold wherever a run leads. -/
theorem run_sound_owned {maxPeers : Nat} {es : List (Event k)} (h : Runs.run step (new k maxPeers) es = some s) :
    s.Sound ∧ s.Owned := by
  have hstep : ∀ (s : Swarm k) (e : Event k) (s' : Swarm k), s.Sound ∧ s.Owned → s.step e = some s' →
      s'.Sound ∧ s'.Owned := fun s e s' hi he => ⟨step_sound s e s' hi.1 he, step_owned hi.1 hi.2 he⟩
  exact Runs.invariant hstep es ⟨new_sound k maxPeers, new_owned k maxPeers⟩ h

/-- The reaper of a future that was dropped removes its entry, as soon as it gets the lock. -/
theorem Owned.reaper_frees {p : PeerId} (hs : s.setup = none)
    (hp : s.mapping.lookup p = some (.connecting cid)) (ha : s.attempts[cid]? = some a) (hid : a.remoteId = p)
    (ht : a.trigger = .dropped) (hr : a.reaper = .waiting) :
    ∃ s', s.step (.reap cid) = some s' ∧ s'.mapping.lookup p = none := by
  refine ⟨s.reap cid a, ?_, ?_⟩
  · simp [step, ha, ht, hr, hs]
  · subst hid
    simp [Swarm.reap, hp]

/-- **Ownership of peer slots.** In every state that a run of the tasks of a swarm reaches: a step changes the entry of
a peer only as its owner may, that is, a connecting entry by its attempt or the reaper of that attempt, a connected one
by the egress router of its session; and every connecting entry belongs to an attempt whose future runs, or whose future
was dropped and whose reaper has yet to run, which then removes the entry. -/
theorem slots_owned {maxPeers : Nat} {es : List (Event k)} (h : Runs.run step (new k maxPeers) es = some s) :
    (∀ e s', s.step e = some s' → ∀ p, Changes s p e s') ∧
    ∀ p cid, s.mapping.lookup p = some (.connecting cid) → ∃ a, s.attempts[cid]? = some a ∧ a.remoteId = p ∧
      (a.Running ∨ a.trigger = .dropped ∧ a.reaper = .waiting ∧
        (s.setup = none → ∃ s', s.step (.reap cid) = some s' ∧ s'.mapping.lookup p = none)) := by
  have hinv := run_sound_owned h
  refine ⟨fun e s' hstep p => step_changes hinv.1 hinv.2 hstep p, fun p cid hp => ?_⟩
  obtain ⟨a, ha, hid, hrun | ⟨ht, hr⟩⟩ := hinv.2.entry p cid hp
  · exact ⟨a, ha, hid, .inl hrun⟩
  · exact ⟨a, ha, hid, .inr ⟨ht, hr, fun hs => Owned.reaper_frees hs hp ha hid ht hr⟩⟩

/-- An attempt is dropped while it connects, and its reaper frees the slot. -/
theorem dropped_is_freed : ∃ s s' : Swarm genesisForks,
    Runs.run step (new genesisForks 10) [.addPeer samplePeer true, .poll 0, .claim 0, .drop 0] = some s ∧
      s.mapping.lookup samplePeer = some (.connecting 0) ∧ s.step (.reap 0) = some s' ∧
      s'.mapping.lookup samplePeer = none := by
  have hrun : ∃ s : Swarm genesisForks,
      Runs.run step (new genesisForks 10) [.addPeer samplePeer true, .poll 0, .claim 0, .drop 0] = some s ∧
        s.mapping.lookup samplePeer = some (.connecting 0) ∧ s.setup = none ∧
        s.attempts = [⟨samplePeer, true, .finished, .dropped, .waiting⟩] := ⟨_, rfl, by decide, rfl, rfl⟩
  obtain ⟨s, hs, hentry, hsetup, hattempts⟩ := hrun
  obtain ⟨a, ha, -, hrunning | ⟨-, -, hfree⟩⟩ := (slots_owned hs).2 samplePeer 0 hentry
  · rw [hattempts] at ha
    cases ha
    exact absurd hrunning (Attempt.not_running_of_finished rfl)
  · obtain ⟨s', hs', hnone⟩ := hfree hsetup
    exact ⟨s, s', hs, hentry, hs', hnone⟩

end Swarm

end EthereumSentry
