import EthereumSentry.Lib.Runs
import Mathlib.Data.List.Nodup
import Mathlib.Logic.Function.Basic

/-!
# Requests in flight

Requests wait under keys for answers. The first request of a key is sent, and later ones wait with it. Once it is sent, a
timer gives up whatever waits under its key then; an answer wakes whatever waits under the key that it names. Each
request may have a callback, which is the number of callbacks before it.
`Sound` holds in every run: a callback waits under one key at most, and is fired once at most. `Timed` and `Matched` are
kept by the steps that meet `Rescued` and `Agrees`: what waits under a key has a timer, and was asked of the receiver
that the key was sent to.
-/

set_option autoImplicit false

namespace Inflight

variable {κ ι : Type}

structure State (κ ι : Type) where
  /-- The callbacks that wait, by keys. -/
  waiting : κ → Option (List Nat)
  /-- What is being sent. -/
  busy : Option (κ × ι)
  timers : List (κ × ι)
  /-- Whom the requests with callbacks were for. -/
  asked : List ι
  fired : List Nat
  /-- The receiver that a key was last registered for. -/
  receiver : κ → Option ι

inductive Act (κ ι : Type) where
  | skip
  /-- A request is dropped with its callback. -/
  | drop (i : ι)
  | ask (k : κ) (i : ι) (callback : Bool)
  /-- Sending fails. -/
  | fail
  /-- The timer of what was sent is started. -/
  | arm
  | expire (k : κ) (i : ι)
  | answer (k : κ)

namespace State

/-- A callback waits under a key. -/
def Waits (s : State κ ι) (cb : Nat) (k : κ) : Prop := cb ∈ (s.waiting k).getD []

/-- The key is on its way to a receiver: it is being sent, or a timer runs. -/
def Out (s : State κ ι) (k : κ) (i : ι) : Prop := (k, i) ∈ s.timers ∨ s.busy = some (k, i)

/-- A callback of the past, that waits under no key but these. -/
def Within (s : State κ ι) (cb : Nat) (K : κ → Prop) : Prop := cb < s.asked.length ∧ ∀ k, s.Waits cb k → K k

/-- Callbacks wait under one key at most, and are fired once at most. -/
structure Sound (s : State κ ι) : Prop where
  fresh : ∀ cb k, s.Waits cb k → cb < s.asked.length
  nodup : ∀ k, ((s.waiting k).getD []).Nodup
  single : ∀ cb k k', s.Waits cb k → s.Waits cb k' → k = k'
  firedFresh : ∀ cb ∈ s.fired, cb < s.asked.length
  firedNodup : s.fired.Nodup
  apart : ∀ cb ∈ s.fired, ∀ k, ¬s.Waits cb k

theorem Sound.within {s : State κ ι} (hs : s.Sound) {cb : Nat} {k : κ} (hw : s.Waits cb k) : s.Within cb (· = k) :=
  ⟨hs.fresh cb k hw, fun k' hw' => hs.single cb k' k hw' hw⟩

/-- Whatever waits is being sent, or has a timer. -/
def Timed (s : State κ ι) : Prop := ∀ k, (s.waiting k).isSome → ∃ i, s.Out k i

/-- When sending fails, what waits under the key still has a timer. -/
def Rescued (s : State κ ι) : Act κ ι → Prop
  | .fail => ∀ k i, s.busy = some (k, i) → (s.waiting k).isSome → ∃ j, (k, j) ∈ s.timers
  | _ => True

theorem rescued_of_ne {s : State κ ι} {a : Act κ ι} (ha : a ≠ .fail) : s.Rescued a := by
  cases a with
  | fail => exact absurd rfl ha
  | skip | drop | ask | arm | expire | answer => trivial

/-- What waits has a receiver that its key is on the way to, and that all requests were for. -/
def Matched (s : State κ ι) : Prop := ∀ k cbs, s.waiting k = some cbs →
  ∃ i, s.receiver k = some i ∧ s.Out k i ∧ ∀ cb ∈ cbs, s.asked[cb]? = some i

/-- Requests join requests for the same receiver, and what fails to be sent has been sent before. -/
def Agrees (s : State κ ι) : Act κ ι → Prop
  | .ask k i _ => (s.waiting k).isSome → s.receiver k = some i
  | .fail => ∀ k i, s.busy = some (k, i) → (s.waiting k).isSome → (k, i) ∈ s.timers
  | _ => True

variable [DecidableEq κ] [DecidableEq ι]

/-- A request is registered; the first one of its key is to be sent. -/
def register (s : State κ ι) (k : κ) (i : ι) (callback : Bool) : State κ ι where
  waiting := Function.update s.waiting k
    (some ((s.waiting k).getD [] ++ if callback then [s.asked.length] else []))
  busy := if (s.waiting k).isSome then s.busy else some (k, i)
  timers := s.timers
  asked := if callback then s.asked ++ [i] else s.asked
  fired := s.fired
  receiver := if (s.waiting k).isSome then s.receiver else Function.update s.receiver k (some i)

/-- A request is taken when nothing is being sent. -/
def step (s : State κ ι) : Act κ ι → Option (State κ ι)
  | .skip => some s
  | .drop i => some { s with asked := s.asked ++ [i] }
  | .ask k i callback => if s.busy.isNone then some (s.register k i callback) else none
  | .fail => some { s with busy := none }
  | .arm => some { s with timers := s.timers ++ s.busy.toList, busy := none }
  | .expire k i => some { s with timers := s.timers.erase (k, i), waiting := Function.update s.waiting k none }
  | .answer k => some { s with
    waiting := Function.update s.waiting k none
    fired := s.fired ++ (s.waiting k).getD [] }

variable {s s' : State κ ι} {a : Act κ ι}

/-! ## Callbacks -/

/-- A step keeps the callbacks that wait; at most a new one is added. -/
theorem waits_of_step (h : s.step a = some s') {cb : Nat} {k : κ} (hw : s'.Waits cb k) :
    s.Waits cb k ∨ (∃ i, a = .ask k i true) ∧ cb = s.asked.length ∧ s'.asked.length = s.asked.length + 1 := by
  have hupdate : ∀ {k' : κ}, cb ∈ (Function.update s.waiting k' none k).getD [] → s.Waits cb k := by
    intro k' hm
    rw [Function.update_apply] at hm
    split at hm
    · simp at hm
    · exact hm
  cases a with
  | skip | drop i | fail | arm =>
    cases h
    exact .inl hw
  | ask k' i callback =>
    obtain ⟨-, h⟩ := Option.ite_none_right_eq_some.1 h
    cases h
    simp only [Waits, register, Function.update_apply] at hw
    split at hw
    · rename_i hk
      rcases List.mem_append.1 hw with hw | hw
      · exact .inl (hk ▸ hw)
      · cases callback with
        | false => simp at hw
        | true => exact .inr ⟨⟨i, by rw [hk]⟩, by simpa using hw, by simp [register]⟩
    · exact .inl hw
  | expire k' i =>
    cases h
    exact .inl (hupdate hw)
  | answer k' =>
    cases h
    exact .inl (hupdate hw)

theorem asked_of_step (h : s.step a = some s') : s.asked <+: s'.asked := by
  cases a with
  | skip | fail | arm | expire | answer =>
    cases h
    exact List.prefix_rfl
  | drop i =>
    cases h
    exact List.prefix_append _ _
  | ask k i callback =>
    obtain ⟨-, h⟩ := Option.ite_none_right_eq_some.1 h
    cases h
    cases callback
    · exact List.prefix_rfl
    · exact List.prefix_append _ _

theorem step_within {cb : Nat} {K : κ → Prop} (hs : s.Within cb K) (h : s.step a = some s') : s'.Within cb K := by
  refine ⟨Nat.lt_of_lt_of_le hs.1 (asked_of_step h).length_le, fun k hw => ?_⟩
  rcases waits_of_step h hw with hw | ⟨-, rfl, -⟩
  · exact hs.2 k hw
  · exact absurd hs.1 (Nat.lt_irrefl _)

/-- **A timer ends the wait** of a callback of its key. -/
theorem step_expire {cb : Nat} {k : κ} {i : ι} (hs : s.Within cb (· = k)) (h : s.step (.expire k i) = some s') :
    s'.Within cb fun _ => False := by
  refine ⟨(step_within hs h).1, fun k' hw => ?_⟩
  obtain rfl := (step_within hs h).2 k' hw
  cases h
  simp [Waits] at hw

/-- What a step fires: the callbacks under the key of an answer. -/
theorem fired_of_step (h : s.step a = some s') : s'.fired = s.fired ∨
    ∃ k, a = .answer k ∧ s'.fired = s.fired ++ (s.waiting k).getD [] ∧ ∀ cb, ¬s'.Waits cb k := by
  cases a with
  | skip | drop i | fail | arm | expire k i =>
    cases h
    exact .inl rfl
  | ask k i callback =>
    obtain ⟨-, h⟩ := Option.ite_none_right_eq_some.1 h
    cases h
    exact .inl rfl
  | answer k =>
    cases h
    exact .inr ⟨k, rfl, rfl, fun cb => by simp [Waits]⟩

/-- The callbacks under a key stay apart. -/
theorem nodup_of_step (hs : s.Sound) (h : s.step a = some s') (k : κ) : ((s'.waiting k).getD []).Nodup := by
  have hupdate : ∀ k' : κ, ((Function.update s.waiting k' none k).getD []).Nodup := by
    intro k'
    rw [Function.update_apply]
    split
    · exact List.nodup_nil
    · exact hs.nodup k
  cases a with
  | skip | drop i | fail | arm =>
    cases h
    exact hs.nodup k
  | ask k' i callback =>
    obtain ⟨-, h⟩ := Option.ite_none_right_eq_some.1 h
    cases h
    simp only [register, Function.update_apply]
    split
    · rw [Option.getD_some]
      refine (hs.nodup k').append ?_ ?_
      · split <;> simp
      · intro cb hold hnew
        have hlt := hs.fresh cb k' hold
        split at hnew <;> simp at hnew
        omega
    · exact hs.nodup k
  | expire k' i =>
    cases h
    exact hupdate k'
  | answer k' =>
    cases h
    exact hupdate k'

theorem step_sound (s : State κ ι) (a : Act κ ι) (s' : State κ ι) (hs : s.Sound) (h : s.step a = some s') :
    s'.Sound := by
  have hlen := (asked_of_step h).length_le
  refine ⟨fun cb k hw => ?_, nodup_of_step hs h, fun cb k k' hw hw' => ?_, fun cb hcb => ?_, ?_, fun cb hcb k hw => ?_⟩
  · rcases waits_of_step h hw with hw | ⟨-, rfl, hnew⟩
    · exact Nat.lt_of_lt_of_le (hs.fresh cb k hw) hlen
    · omega
  · rcases waits_of_step h hw with hold | ⟨⟨i, ha⟩, rfl, -⟩ <;>
      rcases waits_of_step h hw' with hold' | ⟨⟨i', ha'⟩, hcb, -⟩
    · exact hs.single cb k k' hold hold'
    · exact absurd (hs.fresh cb k hold) (by omega)
    · exact absurd (hs.fresh _ k' hold') (Nat.lt_irrefl _)
    · rw [ha] at ha'
      cases ha'
      rfl
  · refine Nat.lt_of_lt_of_le ?_ hlen
    rcases fired_of_step h with hf | ⟨k, -, hf, -⟩
    · exact hs.firedFresh cb (hf ▸ hcb)
    · rw [hf, List.mem_append] at hcb
      exact hcb.elim (hs.firedFresh cb) (hs.fresh cb k)
  · rcases fired_of_step h with hf | ⟨k, -, hf, -⟩
    · rw [hf]
      exact hs.firedNodup
    · rw [hf]
      exact hs.firedNodup.append (hs.nodup k) fun cb hcb hw => hs.apart cb hcb k hw
  · rcases fired_of_step h with hf | ⟨k', ha, hf, hnone⟩
    · rw [hf] at hcb
      rcases waits_of_step h hw with hold | ⟨-, rfl, -⟩
      · exact hs.apart cb hcb k hold
      · exact absurd (hs.firedFresh _ hcb) (Nat.lt_irrefl _)
    · rcases waits_of_step h hw with hold | ⟨⟨i, hask⟩, -⟩
      · rw [hf, List.mem_append] at hcb
        rcases hcb with hcb | hcb
        · exact hs.apart cb hcb k hold
        · -- what waited under the key waits no longer
          obtain rfl := hs.single cb k k' hold hcb
          exact hnone cb hw
      · rw [ha] at hask
        cases hask

/-! ## Timers -/

/-- A key that still waits is still on its way, unless sending has failed. -/
theorem out_of_step (h : s.step a = some s') (ha : a ≠ .fail) {k : κ} {i : ι} (ho : s.Out k i)
    (hw : (s'.waiting k).isSome) : s'.Out k i := by
  cases a with
  | skip | drop i | answer k' =>
    cases h
    exact ho
  | ask k' i' callback =>
    obtain ⟨hidle, h⟩ := Option.ite_none_right_eq_some.1 h
    cases h
    rw [Option.isNone_iff_eq_none] at hidle
    rcases ho with ho | ho
    · exact .inl ho
    · rw [hidle] at ho
      cases ho
  | fail => exact absurd rfl ha
  | arm =>
    cases h
    refine .inl (List.mem_append.2 (ho.imp_right fun ho => ?_))
    rw [ho]
    exact List.mem_singleton_self _
  | expire k' i' =>
    cases h
    have hne : k ≠ k' := by
      rintro rfl
      simp at hw
    exact ho.imp_left fun ho => (List.mem_erase_of_ne (fun he => hne (congrArg Prod.fst he))).2 ho

/-- What waits after a step. -/
theorem waiting_of_step (h : s.step a = some s') {k : κ} {cbs : List Nat} (hw : s'.waiting k = some cbs) :
    s.waiting k = some cbs ∨ ∃ i callback, a = .ask k i callback ∧ s' = s.register k i callback := by
  cases a with
  | skip | drop i | fail | arm =>
    cases h
    exact .inl hw
  | ask k' i callback =>
    obtain ⟨-, h⟩ := Option.ite_none_right_eq_some.1 h
    cases h
    by_cases hk : k = k'
    · subst hk
      exact .inr ⟨i, callback, rfl, rfl⟩
    · simp only [register, Function.update_apply, if_neg hk] at hw
      exact .inl hw
  | expire k' i | answer k' =>
    cases h
    simp only [Function.update_apply] at hw
    split at hw
    · cases hw
    · exact .inl hw

/-- What waits after a step waited before, or has just been asked for. -/
theorem isSome_of_step (h : s.step a = some s') {k : κ} (hw : (s'.waiting k).isSome) :
    (s.waiting k).isSome ∨ ∃ i callback, a = .ask k i callback ∧ s'.Out k i := by
  obtain ⟨cbs, hcbs⟩ := Option.isSome_iff_exists.1 hw
  rcases waiting_of_step h hcbs with hold | ⟨i, callback, rfl, rfl⟩
  · exact .inl (Option.isSome_of_eq_some hold)
  · by_cases hold : (s.waiting k).isSome
    · exact .inl hold
    · exact .inr ⟨i, callback, rfl, .inr (if_neg hold)⟩

/-- What waits still waits, unless it is answered or expires. -/
theorem isSome_waiting_of_step (h : s.step a = some s') {k : κ} (hw : (s.waiting k).isSome) (hanswer : a ≠ .answer k)
    (hexpire : ∀ i, a ≠ .expire k i) : (s'.waiting k).isSome := by
  cases a with
  | skip | drop i | fail | arm =>
    cases h
    exact hw
  | ask k' i callback =>
    obtain ⟨-, h⟩ := Option.ite_none_right_eq_some.1 h
    cases h
    simp only [register, Function.update_apply]
    split
    · rfl
    · exact hw
  | expire k' i =>
    cases h
    have hne : k ≠ k' := fun he => hexpire i (by rw [he])
    simpa [Function.update_of_ne hne] using hw
  | answer k' =>
    cases h
    have hne : k ≠ k' := fun he => hanswer (by rw [he])
    simpa [Function.update_of_ne hne] using hw

/-- **Timers are kept** by exactly the steps that do not orphan what waits. -/
theorem timed_step (hs : s.Timed) (h : s.step a = some s') : s'.Timed ↔ s.Rescued a := by
  by_cases ha : a = .fail
  · subst ha
    cases h
    constructor
    · intro ht k i _ hw
      obtain ⟨j, hj | hj⟩ := ht k hw
      · exact ⟨j, hj⟩
      · cases hj
    · intro hr k hw
      obtain ⟨j, hj | hj⟩ := hs k hw
      · exact ⟨j, .inl hj⟩
      · obtain ⟨j', hj'⟩ := hr k j hj hw
        exact ⟨j', .inl hj'⟩
  · refine iff_of_true (fun k hw => ?_) (rescued_of_ne ha)
    rcases isSome_of_step h hw with hold | ⟨i, -, -, ho⟩
    · obtain ⟨i, ho⟩ := hs k hold
      exact ⟨i, out_of_step h ha ho hw⟩
    · exact ⟨i, ho⟩

/-- The receiver of what waits stays the same. -/
theorem receiver_of_step (h : s.step a = some s') {k : κ} (hw : (s.waiting k).isSome) :
    s'.receiver k = s.receiver k := by
  cases a with
  | skip | drop i | fail | arm | expire k' i | answer k' =>
    cases h
    rfl
  | ask k' i callback =>
    obtain ⟨-, h⟩ := Option.ite_none_right_eq_some.1 h
    cases h
    simp only [register]
    split
    · rfl
    · rename_i hnew
      refine Function.update_of_ne ?_ _ _
      rintro rfl
      exact hnew hw

theorem asked_getElem (h : s.step a = some s') {cb : Nat} {i : ι} (hcb : s.asked[cb]? = some i) :
    s'.asked[cb]? = some i := by
  obtain ⟨l, hl⟩ := asked_of_step h
  obtain ⟨hlt, -⟩ := List.getElem?_eq_some_iff.1 hcb
  rw [← hl, List.getElem?_append_left hlt, hcb]

/-- **Requests stay matched** by the steps that agree. -/
theorem matched_step (hs : s.Matched) (ha : s.Agrees a) (h : s.step a = some s') : s'.Matched := by
  intro k cbs hw
  rcases waiting_of_step h hw with hold | ⟨i, callback, rfl, rfl⟩
  · obtain ⟨i, hr, ho, hcbs⟩ := hs k cbs hold
    have hsome : (s.waiting k).isSome := by rw [hold, Option.isSome_some]
    refine ⟨i, (receiver_of_step h hsome).trans hr, ?_, fun cb hcb => asked_getElem h (hcbs cb hcb)⟩
    by_cases hfail : a = .fail
    · subst hfail
      cases h
      exact .inl (ho.elim id fun hb => ha k i hb hsome)
    · exact out_of_step h hfail ho (by rw [hw, Option.isSome_some])
  · have hnew : ∀ cb ∈ (if callback then [s.asked.length] else []),
        (s.register k i callback).asked[cb]? = some i := by
      intro cb hcb
      cases callback with
      | false => simp at hcb
      | true =>
        obtain rfl : cb = s.asked.length := by simpa using hcb
        simp [register]
    have hcbs : (s.waiting k).getD [] ++ (if callback then [s.asked.length] else []) = cbs := by
      simpa [register] using hw
    cases hold : s.waiting k with
    | none =>
      rw [hold] at hcbs
      refine ⟨i, by simp [register, hold], .inr (by simp [register, hold]), fun cb hcb => hnew cb ?_⟩
      rw [← hcbs] at hcb
      exact hcb
    | some old =>
      have hsome : (s.waiting k).isSome := by rw [hold, Option.isSome_some]
      obtain ⟨j, hr, ho, hmatched⟩ := hs k old hold
      obtain rfl : j = i := Option.some.inj (hr.symm.trans (ha hsome))
      refine ⟨j, (receiver_of_step h hsome).trans hr,
        out_of_step h (by simp) ho (by rw [hw, Option.isSome_some]), fun cb hcb => ?_⟩
      rw [← hcbs, hold, Option.getD_some, List.mem_append] at hcb
      exact hcb.elim (fun hcb => asked_getElem h (hmatched cb hcb)) (hnew cb)

end State

end Inflight
