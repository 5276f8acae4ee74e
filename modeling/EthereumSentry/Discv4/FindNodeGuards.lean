import EthereumSentry.Discv4.Ingress
import EthereumSentry.Lib.Nested
import EthereumSentry.Lib.Runs

/-!
# Guards of the queries in flight

A query that waits for neighbours holds a guard (`InflightFindNode.add`), and dropping the guard removes its sender.
The ingress router clones the senders of a node (`InflightFindNode.get`) and sends into the channels. `FindNodes` is
what the queries and the router share, with the guards that live and the numbers of senders of the channels.
`Sound` is kept by every step (`sound_of_step`): senders and guards correspond, so nothing panics
(`guards_correspond`).
-/

set_option autoImplicit false

namespace EthereumSentry

namespace Discv4

/-- What would panic. -/
inductive Panic where
  /-- The sender of a guard is not there. -/
  | assertion
  /-- The node of a guard is not there. -/
  | unreachable
  /-- A query finds its channel closed. -/
  | expect
  deriving DecidableEq

structure InflightFindNode where
  inner : Nested NodeId RequestId Callback

structure InflightFindNodeRequestGuard where
  nodeId : NodeId
  requestId : RequestId
  deriving DecidableEq

/-- One round of the loop of `add`, with the id that it draws. There is no guard when the id is in use. -/
def InflightFindNode.add (self : InflightFindNode) (nodeId : NodeId) (sender : Callback) (requestId : RequestId) :
    InflightFindNode × Option InflightFindNodeRequestGuard :=
  let inner := self.inner.orDefault nodeId
  if requestId ∈ (inner.entries nodeId).map (·.1) then (⟨inner⟩, none)
  else (⟨inner.insert nodeId requestId sender⟩, some ⟨nodeId, requestId⟩)

def InflightFindNode.get (self : InflightFindNode) (nodeId : NodeId) : List Callback :=
  match self.inner nodeId with
  | some cbs => cbs.map (·.2)
  | none => []

/-- The sender of the guard is removed. -/
def InflightFindNodeRequestGuard.drop (self : InflightFindNodeRequestGuard) (inflight : InflightFindNode) :
    Except Panic (InflightFindNode × Callback) :=
  match inflight.inner self.nodeId with
  | some cbs =>
    match cbs.find? (·.1 = self.requestId) with
    | some (_, sender) => .ok (⟨inflight.inner.remove self.nodeId self.requestId⟩, sender)
    | none => .error .assertion
  | none => .error .unreachable

/-- The queries in flight, with the channels of all that wait. -/
structure FindNodes where
  inflight : InflightFindNode
  /-- The guards that live, with the senders that they were returned for. -/
  guards : List (InflightFindNodeRequestGuard × Callback)
  /-- The senders that the ingress router has cloned. -/
  clones : List Callback
  /-- How many senders of a channel there are, in the map and with the ingress router. -/
  senders : Callback → Nat
  buffered : Callback → List NeighboursMessage
  panicked : Option Panic

namespace FindNodes

inductive Event where
  | add (nodeId : NodeId) (sender : Callback) (requestId : RequestId)
  | get (nodeId : NodeId)
  /-- The ingress router sends a message with a clone, when there is room. -/
  | send (cb : Callback) (message : NeighboursMessage)
  /-- The ingress router gives up a clone. -/
  | release (cb : Callback)
  /-- The query of a guard waits for neighbours. -/
  | recv (guard : InflightFindNodeRequestGuard × Callback)
  | drop (guard : InflightFindNodeRequestGuard × Callback)

def start : FindNodes := ⟨⟨.empty⟩, [], [], fun _ => 0, fun _ => [], none⟩

/-- A clone is dropped. -/
def release (s : FindNodes) (cb : Callback) : FindNodes :=
  { s with clones := s.clones.erase cb, senders := Function.update s.senders cb (s.senders cb - 1) }

def step (s : FindNodes) : Event → Option FindNodes
  | .add nodeId sender requestId =>
    match s.inflight.add nodeId sender requestId with
    | (inflight, some guard) => some { s with
      inflight := inflight
      guards := s.guards ++ [(guard, sender)]
      senders := Function.update s.senders sender (s.senders sender + 1) }
    | (inflight, none) => some { s with inflight := inflight }
  | .get nodeId =>
    let cbs := s.inflight.get nodeId
    some { s with clones := s.clones ++ cbs, senders := fun cb => s.senders cb + cbs.count cb }
  | .send cb message =>
    if cb ∈ s.clones ∧ (s.buffered cb).length < 1 then
      some { s.release cb with buffered := Function.update s.buffered cb (s.buffered cb ++ [message]) }
    else none
  | .release cb => if cb ∈ s.clones then some (s.release cb) else none
  | .recv guard =>
    if guard ∈ s.guards then
      match s.buffered guard.2 with
      | _ :: rest => some { s with buffered := Function.update s.buffered guard.2 rest }
      -- without a message, an open channel is waited for
      | [] => if s.senders guard.2 = 0 then some { s with panicked := some .expect } else none
    else none
  | .drop guard =>
    if guard ∈ s.guards then
      match guard.1.drop s.inflight with
      | .ok (inflight, sender) => some { s with
        inflight := inflight
        guards := s.guards.erase guard
        senders := Function.update s.senders sender (s.senders sender - 1) }
      | .error panic => some { s with guards := s.guards.erase guard, panicked := some panic }
    else none

end FindNodes

/-! ## The map of senders -/

section

variable {inflight : InflightFindNode} {nodeId : NodeId}

theorem InflightFindNode.get_eq : inflight.get nodeId = (inflight.inner.entries nodeId).map (·.2) := by
  unfold get Nested.entries
  cases inflight.inner nodeId <;> rfl

/-- It is what the ingress router asks for. -/
theorem InflightFindNode.get_eq_waiting (r : Router) : get ⟨r.inflightFindNodeRequests⟩ nodeId = r.waiting nodeId :=
  get_eq

/-- A round of `add` enters the sender under an id that is free, or leaves everything as it is. -/
theorem InflightFindNode.add_cases (inflight : InflightFindNode) (nodeId : NodeId) (sender : Callback)
    (requestId : RequestId) :
    ((∀ e ∈ inflight.inner.entries nodeId, e.1 ≠ requestId) ∧ inflight.add nodeId sender requestId =
      (⟨inflight.inner.insert nodeId requestId sender⟩, some ⟨nodeId, requestId⟩)) ∨
    inflight.add nodeId sender requestId = (inflight, none) := by
  unfold add
  simp only [Nested.entries_orDefault, Nested.insert_orDefault]
  split
  · rename_i hused
    obtain ⟨e, he, -⟩ := List.mem_map.1 hused
    exact .inr (by rw [Nested.orDefault_of_mem he])
  · rename_i hfree
    exact .inl ⟨fun e he hid => hfree (List.mem_map.2 ⟨e, he, hid⟩), rfl⟩

/-- A guard whose sender is there is dropped with it. -/
theorem InflightFindNodeRequestGuard.drop_of_mem {guard : InflightFindNodeRequestGuard} {sender : Callback}
    (hp : inflight.inner.Proper) (hmem : (guard.requestId, sender) ∈ inflight.inner.entries guard.nodeId) :
    guard.drop inflight = .ok (⟨inflight.inner.remove guard.nodeId guard.requestId⟩, sender) := by
  have hfind := hp.find hmem
  unfold drop
  cases hcbs : inflight.inner guard.nodeId with
  | none => simp [Nested.entries, hcbs] at hmem
  | some cbs =>
    rw [Nested.entries, hcbs, Option.getD_some] at hfind
    simp only [hfind]

end

namespace FindNodes

/-- Guards and senders correspond, and what has panicked is nothing. -/
structure Sound (s : FindNodes) : Prop where
  proper : s.inflight.inner.Proper
  nodup : (s.guards.map (·.1)).Nodup
  mem : ∀ nodeId e, e ∈ s.inflight.inner.entries nodeId ↔ (⟨nodeId, e.1⟩, e.2) ∈ s.guards
  senders : ∀ cb, s.senders cb = (s.guards.map (·.2)).count cb + s.clones.count cb
  panicked : s.panicked = none

variable {s s' : FindNodes}

theorem sound_start : start.Sound := ⟨Nested.proper_empty, by simp [start], by simp [start], by simp [start], rfl⟩

/-- The channel of a guard that lives has a sender. -/
theorem Sound.pos (hs : s.Sound) {guard : InflightFindNodeRequestGuard × Callback} (hg : guard ∈ s.guards) :
    0 < s.senders guard.2 := by
  have hcount : 0 < (s.guards.map (·.2)).count guard.2 := List.count_pos_iff.2 (List.mem_map_of_mem hg)
  rw [hs.senders]
  omega

theorem sound_add (hs : s.Sound) {nodeId : NodeId} {sender : Callback} {requestId : RequestId}
    (h : s.step (.add nodeId sender requestId) = some s') : s'.Sound := by
  rcases s.inflight.add_cases nodeId sender requestId with ⟨hfree, hadd⟩ | hadd
  · simp only [step, hadd, Option.some.injEq] at h
    subst h
    have hnew : ∀ guard ∈ s.guards, guard.1 ≠ ⟨nodeId, requestId⟩ := by
      rintro ⟨guard, cb⟩ hg rfl
      exact hfree _ ((hs.mem nodeId (requestId, cb)).2 hg) rfl
    refine ⟨hs.proper.insert, ?_, fun nodeId' e => ?_, fun cb => ?_, hs.panicked⟩
    · rw [List.map_append, List.nodup_append']
      refine ⟨hs.nodup, List.nodup_singleton _, fun guard hg hg' => ?_⟩
      obtain ⟨g, hmem, rfl⟩ := List.mem_map.1 hg
      exact hnew g hmem (List.mem_singleton.1 hg')
    · have hother : (⟨nodeId', e.1⟩, e.2) ∈ s.guards → ¬(nodeId' = nodeId ∧ e.1 = requestId) := by
        rintro hg ⟨rfl, rfl⟩
        exact hnew _ hg rfl
      obtain ⟨requestId', sender'⟩ := e
      simp only [Nested.mem_insert, hs.mem, List.mem_append, List.mem_singleton, Prod.mk.injEq,
        InflightFindNodeRequestGuard.mk.injEq] at hother ⊢
      tauto
    · simp only [Function.update_apply, List.map_append, List.count_append, hs.senders, List.map_cons, List.map_nil,
        List.count_singleton, beq_iff_eq]
      split
      · rename_i hcb
        rw [hcb, if_pos rfl]
        omega
      · rename_i hcb
        rw [if_neg fun hsender => hcb hsender.symm, Nat.add_zero]
  · simp only [step, hadd, Option.some.injEq] at h
    subst h
    exact hs

theorem sound_get (hs : s.Sound) {nodeId : NodeId} (h : s.step (.get nodeId) = some s') : s'.Sound := by
  cases h
  refine ⟨hs.proper, hs.nodup, hs.mem, fun cb => ?_, hs.panicked⟩
  simp only [List.count_append, hs.senders, Nat.add_assoc]

theorem sound_release (hs : s.Sound) {cb : Callback} (hcb : cb ∈ s.clones) : (s.release cb).Sound := by
  refine ⟨hs.proper, hs.nodup, hs.mem, fun cb' => ?_, hs.panicked⟩
  have hcount : 0 < s.clones.count cb := List.count_pos_iff.2 hcb
  simp only [release, Function.update_apply, List.count_erase, hs.senders]
  split
  · rename_i h
    subst h
    simp
    omega
  · rename_i h
    simp [Ne.symm h]

theorem sound_drop (hs : s.Sound) {guard : InflightFindNodeRequestGuard × Callback}
    (h : s.step (.drop guard) = some s') : s'.Sound := by
  obtain ⟨hg, h⟩ := Option.ite_none_right_eq_some.1 h
  have hmem := (hs.mem guard.1.nodeId (guard.1.requestId, guard.2)).2 hg
  simp only [InflightFindNodeRequestGuard.drop_of_mem hs.proper hmem, Option.some.injEq] at h
  subst h
  refine ⟨hs.proper.remove, hs.nodup.sublist (List.erase_sublist.map _), fun nodeId e => ?_, fun cb => ?_, hs.panicked⟩
  · rw [Nested.mem_remove, hs.mem, hs.nodup.of_map.mem_erase_iff, and_comm]
    refine and_congr_left fun he => not_congr ⟨?_, ?_⟩
    · rintro ⟨hnode, hid⟩
      refine List.inj_on_of_nodup_map hs.nodup he hg ?_
      rw [hnode, hid]
    · rintro rfl
      exact ⟨rfl, rfl⟩
  · have hperm := ((List.perm_cons_erase hg).map (·.2)).count_eq cb
    rw [List.map_cons, List.count_cons] at hperm
    simp only [Function.update_apply, hs.senders]
    split
    · rename_i hcb
      subst hcb
      simp at hperm
      omega
    · rename_i hcb
      simp [Ne.symm hcb] at hperm
      omega

theorem sound_recv (hs : s.Sound) {guard : InflightFindNodeRequestGuard × Callback}
    (h : s.step (.recv guard) = some s') : s'.Sound := by
  obtain ⟨hg, h⟩ := Option.ite_none_right_eq_some.1 h
  split at h
  · cases h
    exact ⟨hs.proper, hs.nodup, hs.mem, hs.senders, hs.panicked⟩
  · rw [if_neg (hs.pos hg).ne'] at h
    cases h

/-- Every step keeps the correspondence. -/
theorem sound_of_step {e : Event} (hs : s.Sound) (h : s.step e = some s') : s'.Sound := by
  cases e with
  | add nodeId sender requestId => exact sound_add hs h
  | get nodeId => exact sound_get hs h
  | send cb message =>
    obtain ⟨⟨hcb, -⟩, h⟩ := Option.ite_none_right_eq_some.1 h
    cases h
    have hr := sound_release hs hcb
    exact ⟨hr.proper, hr.nodup, hr.mem, hr.senders, hr.panicked⟩
  | release cb =>
    obtain ⟨hcb, h⟩ := Option.ite_none_right_eq_some.1 h
    cases h
    exact sound_release hs hcb
  | recv guard => exact sound_recv hs h
  | drop guard => exact sound_drop hs h

/-- The senders of a node are those of its guards. -/
theorem Sound.get_perm (hs : s.Sound) (nodeId : NodeId) :
    (s.inflight.get nodeId).Perm ((s.guards.filter (·.1.nodeId = nodeId)).map (·.2)) := by
  have hperm : (s.inflight.inner.entries nodeId).Perm
      ((s.guards.filter (·.1.nodeId = nodeId)).map fun guard => (guard.1.requestId, guard.2)) := by
    refine (List.perm_ext_iff_of_nodup (hs.proper.nodup nodeId).of_map ?_).2 fun e => ?_
    · refine (hs.nodup.of_map.filter _).map_on ?_
      rintro ⟨⟨n, i⟩, cb⟩ hg ⟨⟨n', i'⟩, cb'⟩ hg' heq
      simp only [List.mem_filter, decide_eq_true_eq] at hg hg'
      obtain ⟨rfl, rfl⟩ := Prod.mk.injEq .. ▸ heq
      rw [hg.2, hg'.2]
    · rw [hs.mem]
      simp only [List.mem_map, List.mem_filter, decide_eq_true_eq]
      constructor
      · intro hg
        exact ⟨_, ⟨hg, rfl⟩, rfl⟩
      · rintro ⟨⟨⟨n, i⟩, cb⟩, ⟨hg, rfl⟩, rfl⟩
        exact hg
  rw [InflightFindNode.get_eq]
  have hmap := hperm.map (·.2)
  rwa [List.map_map] at hmap

/-- **Guards and senders correspond**, in every run: there is one sender for each guard that lives, and none else, no
inner map is empty, nothing panics, a node's senders are those of its guards, and the channel of a query that holds
its guard is open. -/
theorem guards_correspond {es : List Event} (h : Runs.run step start es = some s) :
    (s.guards.map (·.1)).Nodup ∧
    (∀ nodeId, ((s.inflight.inner.entries nodeId).map (·.1)).Nodup) ∧
    (∀ nodeId requestId sender, (requestId, sender) ∈ s.inflight.inner.entries nodeId ↔
      (⟨nodeId, requestId⟩, sender) ∈ s.guards) ∧
    (∀ nodeId, s.inflight.inner nodeId ≠ some []) ∧
    s.panicked = none ∧
    (∀ nodeId, (s.inflight.get nodeId).Perm ((s.guards.filter (·.1.nodeId = nodeId)).map (·.2))) ∧
    ∀ guard ∈ s.guards, 0 < s.senders guard.2 := by
  have hs : s.Sound := Runs.invariant (fun _ _ _ => sound_of_step) es sound_start h
  exact ⟨hs.nodup, hs.proper.nodup, fun nodeId requestId sender => hs.mem nodeId (requestId, sender),
    hs.proper.nonempty, hs.panicked, hs.get_perm, fun _ => hs.pos⟩

section Example

def exampleId : NodeId := FixedBytes.ofNat 64 1

/-- Two queries of a node overlap. The second one draws the id of the first one at first; the first one is answered and
ends. -/
def overlap : List Event :=
  [.add exampleId 0 7, .add exampleId 1 7, .add exampleId 1 8, .get exampleId, .send 0 ⟨[], 0⟩, .release 1,
    .recv (⟨exampleId, 7⟩, 0), .drop (⟨exampleId, 7⟩, 0)]

/-- The sender of the second query stays. -/
theorem overlap_corresponds : ∃ s, Runs.run step start overlap = some s ∧
    s.panicked = none ∧ (s.inflight.get exampleId).Perm [1] := by
  obtain ⟨s, hs, hguards⟩ : ∃ s, Runs.run step start overlap = some s ∧ s.guards = [(⟨exampleId, 8⟩, 1)] :=
    ⟨_, rfl, rfl⟩
  obtain ⟨-, -, -, -, hpanicked, hperm, -⟩ := guards_correspond hs
  have hget := hperm exampleId
  rw [hguards] at hget
  exact ⟨s, hs, hpanicked, hget⟩

end Example

end FindNodes

end Discv4

end EthereumSentry
