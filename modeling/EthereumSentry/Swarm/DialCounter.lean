import EthereumSentry.Swarm.Ownership

/-!
# The dial counter

The future of an attempt counts itself when it is polled for the first time, and the reaper of the attempt takes it off
again when the future is over, polled or not. `Dialing` is a swarm that knows which futures have been polled. The counter
is the number of attempts under way exactly as long as no reaper takes off a future that has not counted itself, and
the number fits the counter (`counted_iff`).
-/

set_option autoImplicit false

namespace EthereumSentry

/-- A swarm, with the attempts whose futures have been polled. -/
structure Dialing (k : ForkCrates) where
  swarm : Swarm k
  started : List Nat

namespace Dialing

variable {k : ForkCrates}

def start (k : ForkCrates) (maxPeers : Nat) : Dialing k := ⟨.new k maxPeers, []⟩

/-- The attempts whose futures have been polled after an event. -/
def polled (s : Dialing k) : Event k → List Nat
  | .poll cid => s.started ++ [cid]
  | _ => s.started

def step (s : Dialing k) (e : Event k) : Option (Dialing k) :=
  (s.swarm.step e).map fun swarm => ⟨swarm, s.polled e⟩

/-- `dialing`. -/
def dialing (s : Dialing k) : Nat := s.swarm.currentlyConnecting

/-- The attempts whose future has been polled and whose reaper has not ended. -/
def underway (s : Dialing k) : List Nat :=
  s.started.filter fun cid => (s.swarm.attempts[cid]?).map (·.reaper) ≠ some .done

/-- The counter is the number of attempts under way. -/
def Counted (s : Dialing k) : Prop := s.dialing = s.underway.length

/-- The counter is not zero when a reaper takes an attempt off. -/
def Positive (s : Dialing k) : Event k → Prop
  | .uncount cid => ∀ a : Attempt, s.swarm.attempts[cid]? = some a → a.reaper = .reaped → 0 < s.dialing
  | _ => True

/-- A reaper takes off nothing but what has been polled, and there is room for what is polled in the counter. -/
def Balanced (s : Dialing k) : Event k → Prop
  | .poll cid => ∀ a : Attempt, s.swarm.attempts[cid]? = some a → a.future = .created → s.underway.length + 1 < 2 ^ 64
  | .uncount cid => ∀ a : Attempt, s.swarm.attempts[cid]? = some a → a.reaper = .reaped → cid ∈ s.started
  | _ => True

/-- What holds in every run. -/
structure Sound (s : Dialing k) : Prop where
  swarm : s.swarm.Sound ∧ s.swarm.Owned
  nodup : s.started.Nodup
  fits : s.dialing < 2 ^ 64
  begun : ∀ cid ∈ s.started, ∃ a, s.swarm.attempts[cid]? = some a ∧ a.future ≠ .created

end Dialing

/-! ## What a step does to the attempts -/

namespace Swarm

variable {k : ForkCrates} {s s' : Swarm k} {cid : Nat} {a b : Attempt}

/-- The attempts that have been polled stay so, and their reapers are done as before. -/
def KeepsDone (s s' : Swarm k) : Prop := ∀ (cid : Nat) (a : Attempt), s.attempts[cid]? = some a →
  ∃ a' : Attempt, s'.attempts[cid]? = some a' ∧ (a'.reaper = .done ↔ a.reaper = .done) ∧
    (a.future ≠ .created → a'.future ≠ .created)

theorem KeepsDone.of_eq (h : s'.attempts = s.attempts) : s.KeepsDone s' :=
  fun _ a ha => ⟨a, h ▸ ha, Iff.rfl, fun hf => hf⟩

theorem KeepsDone.of_set (ha : s.attempts[cid]? = some a) (hs : s'.attempts = s.attempts.set cid b)
    (hr : b.reaper = .done ↔ a.reaper = .done) (hf : a.future ≠ .created → b.future ≠ .created) : s.KeepsDone s' := by
  intro cid' a' ha'
  rw [hs]
  by_cases h : cid' = cid
  · subst h
    obtain rfl : a = a' := Option.some.inj (ha.symm.trans ha')
    exact ⟨b, (attempts_set ha b).2 (.inl ⟨rfl, rfl⟩), hr, hf⟩
  · exact ⟨a', (attempts_set ha b).2 (.inr ⟨h, ha'⟩), Iff.rfl, fun hf => hf⟩

theorem finish_keepsDone (ha : s.attempts[cid]? = some a) : s.KeepsDone (s.finish cid a) :=
  .of_set ha rfl Iff.rfl fun _ => nofun

/-- **Only a poll and the end of a reaper touch the counter**, and what it counts. -/
theorem keepsDone_of_step {e : Event k} (hpoll : ∀ cid, e ≠ .poll cid) (huncount : ∀ cid, e ≠ .uncount cid)
    (h : s.step e = some s') : s'.currentlyConnecting = s.currentlyConnecting ∧ s.KeepsDone s' := by
  cases steps_of_step h with
  | ban | setStatus | task | handle | disconnect | teardown | release => exact ⟨rfl, .of_eq rfl⟩
  | poll => exact absurd rfl (hpoll _)
  | uncount => exact absurd rfl (huncount _)
  | incoming =>
    unfold incoming
    split
    · exact ⟨rfl, .of_eq rfl⟩
    · split <;> exact ⟨rfl, .of_eq rfl⟩
  | addPeer =>
    refine ⟨rfl, fun cid a ha => ⟨a, ?_, Iff.rfl, fun hf => hf⟩⟩
    exact (List.getElem?_append_left (List.getElem?_eq_some_iff.1 ha).1).trans ha
  | claim ha hf =>
    unfold claim
    split
    · exact ⟨rfl, finish_keepsDone ha⟩
    · split
      · exact ⟨rfl, finish_keepsDone ha⟩
      · exact ⟨rfl, .of_set ha rfl Iff.rfl fun _ => nofun⟩
  | adopt caps ha hf =>
    unfold adopt
    split
    · exact ⟨rfl, .of_set ha rfl Iff.rfl fun _ => nofun⟩
    · exact ⟨rfl, finish_keepsDone ha⟩
  | giveUp ha hf =>
    unfold giveUp
    split
    · exact ⟨rfl, finish_keepsDone ha⟩
    · exact ⟨rfl, finish_keepsDone ha⟩
  | drop ha hf => exact ⟨rfl, finish_keepsDone ha⟩
  | told ha hr => exact ⟨rfl, .of_set ha rfl (iff_of_false nofun (by simp [hr])) fun hf => hf⟩
  | reap ha hr =>
    unfold reap
    dsimp only
    split <;> exact ⟨rfl, .of_set ha rfl (iff_of_false nofun (by simp [hr])) fun hf => hf⟩
  | accept =>
    unfold accept
    split <;> exact ⟨rfl, .of_eq rfl⟩
  | reply =>
    unfold lookupSender
    split <;> exact ⟨rfl, .of_eq rfl⟩
  | @proceed u s' hu h =>
    cases proceeds_of_proceed h with
    | prepare | register | fail | spawnIngress | spawnEgress | spawnPinger => exact ⟨rfl, .of_eq rfl⟩
    | install =>
      refine ⟨rfl, fun cid a ha => ?_⟩
      unfold install
      cases u.attempt with
      | none => exact ⟨a, ha, Iff.rfl, fun hf => hf⟩
      | some cid' =>
        simp only [List.getElem?_modify, ha, Option.map_eq_map, Option.map_some]
        by_cases hc : cid' = cid
        · exact ⟨{ a with future := .finished, trigger := .sent }, by rw [if_pos hc], Iff.rfl, fun _ => nofun⟩
        · exact ⟨a, by rw [if_neg hc], Iff.rfl, fun hf => hf⟩

end Swarm

/-! ## What a step does to the counter -/

namespace Dialing

open Swarm (attempts_set)

variable {k : ForkCrates} {s s' : Dialing k} {e : Event k} {cid : Nat} {a : Attempt}

theorem mem_underway : cid ∈ s.underway ↔
    cid ∈ s.started ∧ (s.swarm.attempts[cid]?).map (·.reaper) ≠ some .done := by
  rw [underway, List.mem_filter, decide_eq_true_eq]

theorem of_step (h : s.step e = some s') : s.swarm.step e = some s'.swarm ∧ s'.started = s.polled e := by
  obtain ⟨swarm, hs, rfl⟩ := Option.map_eq_some_iff.1 h
  exact ⟨hs, rfl⟩

theorem step_poll : s.step (.poll cid) = some s' ↔ ∃ a, s.swarm.attempts[cid]? = some a ∧ a.future = .created ∧
    s' = ⟨{ s.swarm.setAttempt cid { a with future := .counted } with
      currentlyConnecting := fetchAdd s.swarm.currentlyConnecting }, s.started ++ [cid]⟩ := by
  simp [step, polled, Swarm.step, Option.bind_eq_some_iff, @eq_comm _ s']

theorem step_uncount : s.step (.uncount cid) = some s' ↔ ∃ a, s.swarm.attempts[cid]? = some a ∧ a.reaper = .reaped ∧
    s' = ⟨{ s.swarm.setAttempt cid { a with reaper := .done } with
      currentlyConnecting := fetchSub s.swarm.currentlyConnecting }, s.started⟩ := by
  simp [step, polled, Swarm.step, Option.bind_eq_some_iff, @eq_comm _ s']

theorem dialing_poll (h : s.step (.poll cid) = some s') : s'.dialing = fetchAdd s.dialing := by
  obtain ⟨a, -, -, rfl⟩ := step_poll.1 h
  rw [dialing, dialing]

theorem dialing_uncount (h : s.step (.uncount cid) = some s') : s'.dialing = fetchSub s.dialing := by
  obtain ⟨a, -, -, rfl⟩ := step_uncount.1 h
  rw [dialing, dialing]

/-- A step that neither polls nor takes off. -/
theorem step_other (hs : s.Sound) (hpoll : ∀ cid, e ≠ .poll cid) (huncount : ∀ cid, e ≠ .uncount cid)
    (h : s.step e = some s') : s'.dialing = s.dialing ∧ s'.underway = s.underway ∧ s'.started = s.started := by
  obtain ⟨hstep, hstarted⟩ := of_step h
  have hsame : s'.started = s.started := by
    rw [hstarted]
    unfold polled
    split
    · exact absurd rfl (hpoll _)
    · rfl
  obtain ⟨hcounter, hkeeps⟩ := Swarm.keepsDone_of_step hpoll huncount hstep
  refine ⟨hcounter, ?_, hsame⟩
  rw [underway, underway, hsame]
  refine List.filter_congr fun cid hcid => ?_
  obtain ⟨a, ha, -⟩ := hs.begun cid hcid
  obtain ⟨a', ha', hdone, -⟩ := hkeeps cid a ha
  simp [ha, ha', hdone]

/-- What is done with the reaper of one attempt. -/
theorem reaper_set (ha : s.swarm.attempts[cid]? = some a) (b : Attempt) (cid' : Nat) :
    ((s.swarm.attempts.set cid b)[cid']?).map (·.reaper) =
      if cid' = cid then some b.reaper else (s.swarm.attempts[cid']?).map (·.reaper) := by
  by_cases h : cid' = cid
  · subst h
    rw [(attempts_set ha b).2 (.inl ⟨rfl, rfl⟩), if_pos rfl, Option.map_some]
  · rw [List.getElem?_set_ne (Ne.symm h), if_neg h]

/-- The first poll of a future adds its attempt. -/
theorem underway_poll (hs : s.Sound) (ha : s.swarm.attempts[cid]? = some a) (hf : a.future = .created)
    (h : s.step (.poll cid) = some s') : s'.underway = s.underway ++ [cid] := by
  obtain ⟨a₁, ha₁, -, rfl⟩ := step_poll.1 h
  obtain rfl : a = a₁ := Option.some.inj (ha.symm.trans ha₁)
  have hreaper := (hs.swarm.2.held cid a ha (by simp [hf])).2
  simp only [underway, Swarm.setAttempt, reaper_set ha, List.filter_append]
  congr 1
  · refine List.filter_congr fun cid' hcid' => ?_
    by_cases hc : cid' = cid
    · subst hc
      rw [if_pos rfl, ha, Option.map_some]
    · rw [if_neg hc]
  · rw [List.filter_singleton, if_pos rfl]
    simp [hreaper]

/-- The end of a reaper takes its attempt off, if it is there. -/
theorem underway_uncount (hs : s.Sound) (h : s.step (.uncount cid) = some s') :
    s'.underway = s.underway.erase cid := by
  obtain ⟨a, ha, -, rfl⟩ := step_uncount.1 h
  have hnodup : s.underway.Nodup := hs.nodup.filter _
  rw [hnodup.erase_eq_filter]
  simp only [underway, Swarm.setAttempt, reaper_set ha, List.filter_filter]
  refine List.filter_congr fun cid' _ => ?_
  by_cases hc : cid' = cid
  · subst hc
    simp
  · simp [hc]

/-- The counter is a `usize`. -/
theorem fetchAdd_lt (n : Nat) : fetchAdd n < 2 ^ 64 := by
  rw [fetchAdd]
  exact Nat.mod_lt _ (Nat.two_pow_pos 64)

theorem fetchSub_lt (n : Nat) : fetchSub n < 2 ^ 64 := by
  rw [fetchSub]
  exact Nat.mod_lt _ (Nat.two_pow_pos 64)

theorem start_sound (k : ForkCrates) (maxPeers : Nat) : (start k maxPeers).Sound :=
  ⟨⟨Swarm.new_sound k maxPeers, Swarm.new_owned k maxPeers⟩, List.nodup_nil, Nat.two_pow_pos 64, nofun⟩

theorem step_sound (s : Dialing k) (e : Event k) (s' : Dialing k) (hs : s.Sound) (h : s.step e = some s') :
    s'.Sound := by
  obtain ⟨hstep, hstarted⟩ := of_step h
  have hswarm : s'.swarm.Sound ∧ s'.swarm.Owned :=
    ⟨Swarm.step_sound _ _ _ hs.swarm.1 hstep, Swarm.step_owned hs.swarm.1 hs.swarm.2 hstep⟩
  by_cases hpoll : ∃ cid, e = .poll cid
  · obtain ⟨cid, rfl⟩ := hpoll
    have hfits : s'.dialing < 2 ^ 64 := by
      rw [dialing_poll h]
      exact fetchAdd_lt _
    obtain ⟨a, ha, hf, rfl⟩ := step_poll.1 h
    have hnew : cid ∉ s.started := fun hmem => by
      obtain ⟨a₁, ha₁, hf₁⟩ := hs.begun cid hmem
      rw [ha] at ha₁
      cases ha₁
      exact hf₁ hf
    refine ⟨hswarm, ?_, hfits, fun cid' hcid' => ?_⟩
    · rw [List.nodup_append']
      exact ⟨hs.nodup, List.nodup_singleton _, by simpa using hnew⟩
    · by_cases hc : cid' = cid
      · subst hc
        exact ⟨_, (attempts_set ha _).2 (.inl ⟨rfl, rfl⟩), nofun⟩
      · have hold : cid' ∈ s.started := by simpa [hc] using hcid'
        obtain ⟨a', ha', hf'⟩ := hs.begun cid' hold
        exact ⟨a', (attempts_set ha _).2 (.inr ⟨hc, ha'⟩), hf'⟩
  by_cases huncount : ∃ cid, e = .uncount cid
  · obtain ⟨cid, rfl⟩ := huncount
    have hfits : s'.dialing < 2 ^ 64 := by
      rw [dialing_uncount h]
      exact fetchSub_lt _
    obtain ⟨a, ha, hr, rfl⟩ := step_uncount.1 h
    refine ⟨hswarm, hs.nodup, hfits, fun cid' hcid' => ?_⟩
    obtain ⟨a', ha', hf'⟩ := hs.begun cid' hcid'
    by_cases hc : cid' = cid
    · subst hc
      rw [ha] at ha'
      cases ha'
      exact ⟨_, (attempts_set ha _).2 (.inl ⟨rfl, rfl⟩), hf'⟩
    · exact ⟨a', (attempts_set ha _).2 (.inr ⟨hc, ha'⟩), hf'⟩
  · have hpoll' : ∀ cid, e ≠ .poll cid := fun cid he => hpoll ⟨cid, he⟩
    have huncount' : ∀ cid, e ≠ .uncount cid := fun cid he => huncount ⟨cid, he⟩
    obtain ⟨hdialing, -, hsame⟩ := step_other hs hpoll' huncount' h
    refine ⟨hswarm, hsame ▸ hs.nodup, hdialing ▸ hs.fits, fun cid' hcid' => ?_⟩
    obtain ⟨a, ha, hf⟩ := hs.begun cid' (hsame ▸ hcid')
    obtain ⟨a', ha', -, hf'⟩ := (Swarm.keepsDone_of_step hpoll' huncount' hstep).2 cid' a ha
    exact ⟨a', ha', hf' hf⟩

/-- An attempt that is taken off is under way when it has been polled. -/
theorem mem_underway_iff (ha : s.swarm.attempts[cid]? = some a) (hr : a.reaper = .reaped) :
    cid ∈ s.underway ↔ cid ∈ s.started := by
  rw [mem_underway, ha, Option.map_some, hr]
  simp

theorem counted_poll_iff (hs : s.Sound) (hc : s.Counted) (ha : s.swarm.attempts[cid]? = some a)
    (hf : a.future = .created) (h : s.step (.poll cid) = some s') : s'.Counted ↔ s.underway.length + 1 < 2 ^ 64 := by
  have hcounter : s'.dialing = (s.underway.length + 1) % 2 ^ 64 := by
    rw [dialing_poll h, fetchAdd, hc]
  rw [Counted, hcounter, underway_poll hs ha hf h, List.length_append, List.length_singleton]
  omega

theorem counted_uncount_iff (hs : s.Sound) (hc : s.Counted) (ha : s.swarm.attempts[cid]? = some a)
    (hr : a.reaper = .reaped) (h : s.step (.uncount cid) = some s') : s'.Counted ↔ cid ∈ s.started := by
  have hcounter : s'.dialing = (s.underway.length + (2 ^ 64 - 1)) % 2 ^ 64 := by
    rw [dialing_uncount h, fetchSub, hc]
  have hfits : s.underway.length < 2 ^ 64 := hc ▸ hs.fits
  rw [Counted, hcounter, underway_uncount hs h, ← mem_underway_iff ha hr, List.length_erase]
  by_cases hmem : cid ∈ s.underway
  · have hpos := List.length_pos_of_mem hmem
    refine iff_of_true ?_ hmem
    rw [if_pos hmem]
    omega
  · refine iff_of_false ?_ hmem
    rw [if_neg hmem]
    omega

theorem counted_step_iff (hs : s.Sound) (hc : s.Counted) (e : Event k) :
    (∀ s', s.step e = some s' → s'.Counted) ↔ s.Balanced e := by
  by_cases hpoll : ∃ cid, e = .poll cid
  · obtain ⟨cid, rfl⟩ := hpoll
    constructor
    · intro h a ha hf
      have hstep := step_poll.2 ⟨a, ha, hf, rfl⟩
      exact (counted_poll_iff hs hc ha hf hstep).1 (h _ hstep)
    · intro hb s' h
      obtain ⟨a, ha, hf, -⟩ := step_poll.1 h
      exact (counted_poll_iff hs hc ha hf h).2 (hb a ha hf)
  by_cases huncount : ∃ cid, e = .uncount cid
  · obtain ⟨cid, rfl⟩ := huncount
    constructor
    · intro h a ha hr
      have hstep := step_uncount.2 ⟨a, ha, hr, rfl⟩
      exact (counted_uncount_iff hs hc ha hr hstep).1 (h _ hstep)
    · intro hb s' h
      obtain ⟨a, ha, hr, -⟩ := step_uncount.1 h
      exact (counted_uncount_iff hs hc ha hr h).2 (hb a ha hr)
  · refine iff_of_true (fun s' h => ?_) ?_
    · obtain ⟨hdialing, hunderway, -⟩ :=
        step_other hs (fun cid he => hpoll ⟨cid, he⟩) (fun cid he => huncount ⟨cid, he⟩) h
      rw [Counted, hdialing, hunderway]
      exact hc
    · unfold Balanced
      split
      · exact absurd ⟨_, rfl⟩ hpoll
      · exact absurd ⟨_, rfl⟩ huncount
      · trivial

theorem positive_of_balanced (hc : s.Counted) (hb : s.Balanced e) : s.Positive e := by
  unfold Positive
  split
  · rename_i cid
    intro a ha hr
    rw [hc]
    exact List.length_pos_of_mem ((mem_underway_iff ha hr).2 (hb a ha hr))
  · trivial

/-- **The dial counter** is the number of attempts under way in every state of a run, and no reaper takes it below zero,
exactly when no reaper takes off an attempt whose future was not polled, and the number fits the counter. -/
theorem counted_iff (k : ForkCrates) (maxPeers : Nat) (es : List (Event k)) :
    (Runs.Always step Counted (start k maxPeers) es ∧ Runs.Along step Positive (start k maxPeers) es) ↔
      Runs.Along step Balanced (start k maxPeers) es := by
  have hiff := Runs.always_iff_along step_sound (fun _ e hs hc => counted_step_iff hs hc e) es (start_sound k maxPeers)
    rfl
  refine ⟨fun h => hiff.1 h.1, fun h => ⟨hiff.2 h, ?_⟩⟩
  have hstep : ∀ (s : Dialing k) e s', s.Sound ∧ s.Counted → s.Balanced e → s.step e = some s' →
      s'.Sound ∧ s'.Counted := fun s e s' hs hb h =>
    ⟨step_sound s e s' hs.1 h, (counted_step_iff hs.1 hs.2 e).2 hb s' h⟩
  exact h.carry hstep (fun s e hs hb => positive_of_balanced hs.2 hb) ⟨start_sound k maxPeers, rfl⟩

section Example

/-- A future that is dropped before it has been polled, and its reaper. -/
def unpolled : List (Event genesisForks) := [.addPeer Swarm.samplePeer false, .drop 0, .reap 0, .uncount 0]

/-- The counter wraps. -/
theorem unpolled_not_counted : ¬∀ es, Runs.Always step Counted (start genesisForks 50) es ∧
    Runs.Along step Positive (start genesisForks 50) es := by
  intro h
  obtain ⟨s, hs, hdialing, hunderway⟩ : ∃ s, Runs.run step (start genesisForks 50) unpolled = some s ∧
      s.dialing = fetchSub 0 ∧ s.underway = [] := ⟨_, rfl, rfl, rfl⟩
  have hc := (h unpolled).1.run hs
  rw [Counted, hdialing, hunderway] at hc
  exact absurd hc (by decide)

end Example

end Dialing

end EthereumSentry
