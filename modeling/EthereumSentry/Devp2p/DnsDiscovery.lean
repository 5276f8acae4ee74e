import EthereumSentry.Devp2p.ReservedPeers
import EthereumSentry.Dnsdisc.Complete

/-!
# Peers from DNS

The task of `DnsDiscovery::new`, `src/devp2p/src/disc/dns.rs`: it asks one query after the other, sends the node records
that have a TCP address over a channel with one place, and begins a new query after an error, at the end of a query and
when half an hour is over. The zone may be another one for every query.

`discovery_truthful` says what comes out of the channel in any run: the nodes of the records that the queries have
yielded, in their order, none lost and none twice, and all of them from the ENR subtrees of the trees that are reached.
`discovery_complete` says that a query that comes to its end has offered all the leaves of its zone.
-/

set_option autoImplicit false

namespace EthereumSentry

open Dnsdisc

/-- What is read off a node record: `tcp_socket`, and `pk2id` of its public key. -/
structure EnrNodes (k : EnrCrates) where
  tcpSocket : k.Enr → Option SocketAddr
  id : k.Enr → PeerId

/-- What is sent for an item of a query. -/
def EnrNodes.offer {k : EnrCrates} (n : EnrNodes k) : Item k → Option (Except (DnsError k) NodeRecord)
  | .error e => some (.error e)
  | .ok record => (n.tcpSocket record).map fun addr => .ok ⟨n.id record, addr⟩

/-- What the task is at. -/
inductive PumpPhase (k : EnrCrates) where
  /-- It awaits the next item of the query, for ten seconds. -/
  | polling
  /-- It awaits room in the channel, and asks a new query afterwards if it sends an error. -/
  | sending (item : Except (DnsError k) NodeRecord)
  /-- It is about to look at the clock. -/
  | checking

/-- What was taken of a query that is over. -/
structure QueryRound (k : EnrCrates) where
  items : List (Item k)
  /-- The stream of the query has ended. -/
  complete : Bool

/-- `DnsDiscovery`, with its task. -/
structure DnsDiscovery (k : EnrCrates) where
  /-- The queries before this one. -/
  rounds : List (QueryRound k)
  query : Query k
  /-- How many items were taken of the query. -/
  taken : Nat
  phase : PumpPhase k
  /-- The place of the channel. -/
  buffer : Option (Except (DnsError k) NodeRecord)
  /-- What `DnsDiscovery::poll_next` has returned. -/
  received : List (Except (DnsError k) NodeRecord)

namespace DnsDiscovery

variable {k : EnrCrates}

inductive Action where
  /-- A task of the query takes a step. -/
  | task (i : Nat)
  /-- The stream of the query is polled. -/
  | poll
  /-- The query has an item, or has ended. -/
  | next
  /-- Ten seconds are over. -/
  | timeOut
  /-- There is room in the channel. -/
  | sent
  /-- The task looks at the clock. -/
  | check (late : Bool)
  /-- `DnsDiscovery::poll_next`. -/
  | recv

section

variable (zones : Nat → Backend) (q : Tree k) (n : EnrNodes k)

def new : DnsDiscovery k := ⟨[], .start q, 0, .polling, none, []⟩

/-- The task drops the query, and asks a new one. -/
def restart (s : DnsDiscovery k) (complete : Bool) : DnsDiscovery k :=
  { s with
    rounds := s.rounds ++ [⟨s.query.yielded.take s.taken, complete⟩]
    query := .start q
    taken := 0
    phase := .polling }

/-- What has been yielded next, and was not taken yet. -/
def item (s : DnsDiscovery k) : Option (Item k) := s.query.yielded[s.taken]?

/-- The query takes a step. -/
def advance (s : DnsDiscovery k) (e : Dnsdisc.Event) : Option (DnsDiscovery k) :=
  (s.query.step (zones s.rounds.length) e).map fun query => { s with query := query }

/-- The task has taken an item. -/
def take (s : DnsDiscovery k) (item : Item k) : DnsDiscovery k :=
  { s with
    taken := s.taken + 1
    phase := match n.offer item with
      | some node => .sending node
      | none => .checking }

/-- **A step** of the task, of its query, or of the receiver. -/
def step (s : DnsDiscovery k) : Action → Option (DnsDiscovery k)
  | .task i => s.advance zones (.task i)
  | .poll => match s.phase, s.item with
    | .polling, none => s.advance zones .stream
    | _, _ => none
  | .next => match s.phase, s.item with
    | .polling, some item => some (s.take n item)
    | .polling, none => if s.query.stream.isNone then some (s.restart q true) else none
    | _, _ => none
  | .timeOut => match s.phase, s.item with
    | .polling, none => if s.query.stream.isSome then some { s with phase := .checking } else none
    | _, _ => none
  | .sent => match s.phase, s.buffer with
    | .sending (.ok node), none => some { s with buffer := some (.ok node), phase := .checking }
    | .sending (.error e), none => some { s.restart q false with buffer := some (.error e) }
    | _, _ => none
  | .check late => match s.phase with
    | .checking => some (if late then s.restart q false else { s with phase := .polling })
    | _ => none
  | .recv => s.buffer.map fun item => { s with buffer := none, received := s.received ++ [item] }

end

/-- What is on its way to the receiver. -/
def pending (s : DnsDiscovery k) : List (Except (DnsError k) NodeRecord) :=
  s.buffer.toList ++ match s.phase with
    | .sending item => [item]
    | _ => []

/-- What was taken of all the queries so far. -/
def items (s : DnsDiscovery k) : List (Item k) := s.rounds.flatMap (·.items) ++ s.query.yielded.take s.taken

/-- What holds in every run. -/
structure Sound (zones : Nat → Backend) (q : Tree k) (n : EnrNodes k) (s : DnsDiscovery k) : Prop where
  taken : s.taken ≤ s.query.yielded.length
  current : ∃ es, Runs.run (Query.step (zones s.rounds.length)) (.start q) es = some s.query
  past : ∀ (i : Nat) (r : QueryRound k), s.rounds[i]? = some r → ∃ es t,
    Runs.run (Query.step (zones i)) (.start q) es = some t ∧ r.items <+: t.yielded ∧
      (r.complete = true → t.stream = none ∧ r.items = t.yielded)
  offered : s.received ++ s.pending = s.items.filterMap n.offer

end DnsDiscovery

/-! ## What a query has yielded -/

namespace Dnsdisc

variable {k : EnrCrates} {backend : Backend} {s s' : Query k}

namespace Query

theorem recv_yielded {c : Nat} {received : Option (Item k)} (hr : s.recv c = some (s', received)) :
    s'.yielded = s.yielded := by
  unfold recv at hr
  split at hr
  · cases hr
    rfl
  · split at hr <;> cases hr
    rfl

theorem send_yielded {c : Nat} {item : Item k} (hs : s.send c item = some s') : s'.yielded = s.yielded := by
  unfold send at hs
  split at hs <;> cases hs
  all_goals rfl

theorem dropSource_yielded (s : Query k) (source : Source k) : (s.dropSource source).yielded = s.yielded := by
  unfold dropSource
  cases source.channel <;> rfl

end Query

theorem TreeStream.poll_yielded {stream : TreeStream k} {answer : Poll (TreeStream k) k}
    (hp : stream.poll backend s = some (s', answer)) : s'.yielded = s.yielded := by
  cases stream with
  | start t =>
    simp only [TreeStream.poll] at hp
    cases hf : t.find backend <;> rw [hf] at hp <;> cases hp
    all_goals rfl
  | link c t base =>
    obtain ⟨⟨s₁, received⟩, hr, hanswer⟩ := Option.bind_eq_some_iff.1 hp
    rw [← Query.recv_yielded hr]
    rcases received with _ | _ | _ <;> cases hanswer
    all_goals rfl
  | enr c =>
    obtain ⟨⟨s₁, received⟩, hr, hanswer⟩ := Option.bind_eq_some_iff.1 hp
    rw [← Query.recv_yielded hr]
    rcases received with _ | _ | _ <;> cases hanswer
    all_goals rfl
  | failed c =>
    cases c <;> cases hp
    all_goals rfl

theorem Source.poll_yielded {source : Source k} {answer : Poll (Source k) k}
    (hp : source.poll backend s = some (s', answer)) : s'.yielded = s.yielded := by
  cases source with
  | branch c =>
    obtain ⟨⟨s₁, received⟩, hr, hanswer⟩ := Option.bind_eq_some_iff.1 hp
    rw [← Query.recv_yielded hr]
    cases received <;> cases hanswer
    all_goals rfl
  | tree stream =>
    obtain ⟨⟨s₁, answer₁⟩, hstream, hanswer⟩ := Option.bind_eq_some_iff.1 hp
    have h := stream.poll_yielded hstream
    cases answer₁ <;> cases hanswer
    all_goals exact h

namespace Query

theorem taskStep_yielded {i : Nat} {t : Task k} (hs : s.taskStep backend i t = some s') : s'.yielded = s.yielded := by
  unfold taskStep at hs
  cases htp : t.progress with
  | fetching =>
    rw [htp] at hs
    cases hf : t.child.find backend <;> simp only [hf, Option.some.injEq] at hs <;> subst hs
    all_goals rfl
  | forwarding source =>
    rw [htp] at hs
    obtain ⟨⟨s₁, answer⟩, hpoll, hanswer⟩ := Option.bind_eq_some_iff.1 hs
    have h := source.poll_yielded hpoll
    rcases answer with source' | ⟨e | record, source'⟩ | _ <;> cases hanswer
    · exact h
    · exact (dropSource_yielded s₁ source').trans h
    · exact h
    · exact h
  | sending item source =>
    rw [htp] at hs
    obtain ⟨s₁, hsend, hgo⟩ := Option.bind_eq_some_iff.1 hs
    rw [← send_yielded hsend]
    cases source <;> cases hgo
    all_goals rfl
  | finished =>
    rw [htp] at hs
    cases hs

/-- **A query takes nothing back** of what it has yielded. -/
theorem step_yielded {e : Event} (hs : s.step backend e = some s') : s.yielded <+: s'.yielded := by
  cases e with
  | stream =>
    obtain ⟨stream, -, hs⟩ := Option.bind_eq_some_iff.1 hs
    obtain ⟨⟨s₁, answer⟩, hpoll, hanswer⟩ := Option.bind_eq_some_iff.1 hs
    rw [← stream.poll_yielded hpoll]
    cases answer <;> cases hanswer
    · exact List.prefix_rfl
    · exact List.prefix_append _ _
    · exact List.prefix_rfl
  | task i =>
    obtain ⟨t, -, hs⟩ := Option.bind_eq_some_iff.1 hs
    rw [taskStep_yielded hs]

end Query

end Dnsdisc

/-! ## Steps -/

namespace DnsDiscovery

variable {k : EnrCrates} {zones : Nat → Backend} {q : Tree k} {n : EnrNodes k} {s s' : DnsDiscovery k}

theorem new_sound (zones : Nat → Backend) (q : Tree k) (n : EnrNodes k) : (new q).Sound zones q n where
  taken := Nat.zero_le _
  current := ⟨[], rfl⟩
  past i r hr := by simp [new] at hr
  offered := by simp [new, pending, items, Query.start]

/-- What is on its way moves on. -/
theorem Sound.move (hs : s.Sound zones q n) (hrounds : s'.rounds = s.rounds) (hquery : s'.query = s.query)
    (htaken : s'.taken = s.taken) (hsent : s'.received ++ s'.pending = s.received ++ s.pending) :
    s'.Sound zones q n := by
  refine ⟨?_, ?_, ?_, ?_⟩
  · rw [htaken, hquery]
    exact hs.taken
  · rw [hrounds, hquery]
    exact hs.current
  · rw [hrounds]
    exact hs.past
  · rw [hsent, hs.offered, items, items, hrounds, hquery, htaken]

/-- The query takes a step, and what was taken of it stays. -/
theorem Sound.advance (hs : s.Sound zones q n) {e : Dnsdisc.Event} (h : s.advance zones e = some s') :
    s'.Sound zones q n := by
  obtain ⟨query, hquery, rfl⟩ := Option.map_eq_some_iff.1 h
  obtain ⟨rest, hrest⟩ := Query.step_yielded hquery
  obtain ⟨es, hes⟩ := hs.current
  refine ⟨?_, ⟨es ++ [e], ?_⟩, hs.past, ?_⟩
  · rw [← hrest, List.length_append]
    exact Nat.le_add_right_of_le hs.taken
  · rw [Runs.run_snoc, hes]
    exact hquery
  · have hitems : items { s with query := query } = s.items := by
      simp only [items, ← hrest, List.take_append_of_le_length hs.taken]
    rw [hitems]
    exact hs.offered

/-- The task takes an item. -/
theorem Sound.take (hs : s.Sound zones q n) (hphase : s.phase = .polling) {item : Item k} (hitem : s.item = some item) :
    (s.take n item).Sound zones q n := by
  refine ⟨(List.getElem?_eq_some_iff.1 hitem).1, hs.current, hs.past, ?_⟩
  have hitems : (s.take n item).items = s.items ++ [item] := by
    simp only [items, DnsDiscovery.take, List.append_assoc]
    rw [List.take_add_one, show s.query.yielded[s.taken]? = some item from hitem]
    rfl
  have hpending : (s.take n item).pending = s.pending ++ (n.offer item).toList := by
    simp only [pending, DnsDiscovery.take, hphase]
    cases n.offer item <;> simp
  have hoffer : [item].filterMap n.offer = (n.offer item).toList := by
    cases h : n.offer item <;> simp [h]
  rw [hitems, hpending, List.filterMap_append, hoffer, ← hs.offered, List.append_assoc]
  rfl

/-- What was taken stays when the task asks a new query. -/
theorem items_restart (s : DnsDiscovery k) (complete : Bool) : (s.restart q complete).items = s.items := by
  simp [items, restart, Query.start]

/-- What was taken of the query is among the rounds when the task asks a new one. -/
theorem Sound.past_restart (hs : s.Sound zones q n) {complete : Bool}
    (hc : complete = true → s.query.stream = none ∧ s.query.yielded.length ≤ s.taken) (i : Nat) (r : QueryRound k)
    (hr : (s.restart q complete).rounds[i]? = some r) : ∃ es t,
      Runs.run (Query.step (zones i)) (.start q) es = some t ∧ r.items <+: t.yielded ∧
        (r.complete = true → t.stream = none ∧ r.items = t.yielded) := by
  rcases Nat.lt_trichotomy i s.rounds.length with hlt | rfl | hgt
  · exact hs.past i r (by rwa [restart, List.getElem?_append_left hlt] at hr)
  · simp only [restart, List.getElem?_concat_length, Option.some.injEq] at hr
    subst hr
    obtain ⟨es, hes⟩ := hs.current
    exact ⟨es, _, hes, List.take_prefix _ _, fun h => ⟨(hc h).1, List.take_of_length_le (hc h).2⟩⟩
  · have hlt := (List.getElem?_eq_some_iff.1 hr).1
    rw [restart, List.length_append, List.length_singleton] at hlt
    omega

/-- The task asks a new query, when it sends nothing. -/
theorem Sound.restart (hs : s.Sound zones q n) {complete : Bool}
    (hc : complete = true → s.query.stream = none ∧ s.query.yielded.length ≤ s.taken)
    (hphase : ∀ item, s.phase ≠ .sending item) : (s.restart q complete).Sound zones q n := by
  refine ⟨Nat.zero_le _, ⟨[], rfl⟩, hs.past_restart hc, ?_⟩
  have hpending : (s.restart q complete).pending = s.pending := by
    unfold pending
    cases hp : s.phase with
    | sending item => exact absurd hp (hphase item)
    | polling | checking => rfl
  rw [items_restart, ← hs.offered, hpending]
  rfl

/-- The task asks a new query, when it has sent an error. -/
theorem Sound.fail (hs : s.Sound zones q n) {e : DnsError k} (hphase : s.phase = .sending (.error e))
    (hbuffer : s.buffer = none) : Sound zones q n { s.restart q false with buffer := some (.error e) } := by
  refine ⟨Nat.zero_le _, ⟨[], rfl⟩, hs.past_restart (by simp), ?_⟩
  have hpending : s.pending = [.error e] := by simp [pending, hphase, hbuffer]
  have hitems : items { s.restart q false with buffer := some (.error e) } = s.items := items_restart s false
  rw [hitems, ← hs.offered, hpending]
  rfl

/-- **Every step keeps what holds.** -/
theorem step_sound (s : DnsDiscovery k) (a : Action) (s' : DnsDiscovery k) (hs : s.Sound zones q n)
    (h : s.step zones q n a = some s') : s'.Sound zones q n := by
  cases a with
  | task i => exact hs.advance h
  | poll =>
    simp only [step] at h
    split at h
    · exact hs.advance h
    · cases h
  | next =>
    simp only [step] at h
    split at h
    · cases h
      exact hs.take ‹_› ‹_›
    · rename_i hphase hitem
      split at h <;> cases h
      refine hs.restart (fun _ => ⟨Option.isNone_iff_eq_none.1 ‹_›, List.getElem?_eq_none_iff.1 hitem⟩)
        fun item hp => ?_
      rw [hphase] at hp
      cases hp
    · cases h
  | timeOut =>
    simp only [step] at h
    split at h
    · rename_i hphase _
      split at h <;> cases h
      exact hs.move rfl rfl rfl (by simp [pending, hphase])
    · cases h
  | sent =>
    simp only [step] at h
    split at h
    · rename_i node hphase hbuffer
      cases h
      exact hs.move rfl rfl rfl (by simp [pending, hphase, hbuffer])
    · cases h
      exact hs.fail ‹_› ‹_›
    · cases h
  | check late =>
    simp only [step] at h
    split at h
    · rename_i hphase
      cases h
      split
      · refine hs.restart (by simp) fun item hp => ?_
        rw [hphase] at hp
        cases hp
      · exact hs.move rfl rfl rfl (by simp [pending, hphase])
    · cases h
  | recv =>
    obtain ⟨item, hbuffer, rfl⟩ := Option.map_eq_some_iff.1 h
    exact hs.move rfl rfl rfl (by simp [pending, hbuffer])

/-- They hold wherever a run leads. -/
theorem run_sound {as : List Action} (h : Runs.run (step zones q n) (new q) as = some s) : s.Sound zones q n :=
  Runs.invariant step_sound as (new_sound zones q n) h

/-! ## What comes out of the channel -/

/-- What is taken of a query is what it has yielded. -/
theorem Sound.mem_items (hs : s.Sound zones q n) {item : Item k} (h : item ∈ s.items) :
    ∃ i es t, i ≤ s.rounds.length ∧ Runs.run (Query.step (zones i)) (.start q) es = some t ∧ item ∈ t.yielded := by
  rcases List.mem_append.1 h with h | h
  · obtain ⟨r, hr, hitem⟩ := List.mem_flatMap.1 h
    obtain ⟨i, hi⟩ := List.mem_iff_getElem?.1 hr
    obtain ⟨es, t, hrun, hprefix, -⟩ := hs.past i r hi
    exact ⟨i, es, t, (List.getElem?_eq_some_iff.1 hi).1.le, hrun, hprefix.subset hitem⟩
  · obtain ⟨es, hes⟩ := hs.current
    exact ⟨_, es, _, le_rfl, hes, List.mem_of_mem_take h⟩

/-- What is sent for a node record. -/
theorem offer_eq_ok {item : Item k} {node : NodeRecord} : n.offer item = some (.ok node) ↔
    ∃ record, item = .ok record ∧ n.tcpSocket record = some node.addr ∧ n.id record = node.id := by
  cases item with
  | error e => simp [EnrNodes.offer]
  | ok record =>
    simp only [EnrNodes.offer, Option.map_eq_some_iff, Except.ok.injEq, exists_eq_left']
    constructor
    · rintro ⟨addr, ha, rfl⟩
      exact ⟨ha, rfl⟩
    · rintro ⟨ha, hid⟩
      exact ⟨node.addr, ha, by rw [hid]⟩

/-- **DNS offers what the trees hold**: in every run, what `DnsDiscovery` has returned, and what is on its way, is what
was taken of the queries, in order, without the node records that have no TCP address; what was taken of a query is what
it has yielded first; and every node is that of a record in an ENR subtree that a query reached. -/
theorem discovery_truthful {as : List Action} (h : Runs.run (step zones q n) (new q) as = some s) :
    s.received ++ s.pending = s.items.filterMap n.offer ∧
    (∀ (i : Nat) (r : QueryRound k), s.rounds[i]? = some r → ∃ es t,
      Runs.run (Query.step (zones i)) (.start q) es = some t ∧ r.items <+: t.yielded) ∧
    (∃ es, Runs.run (Query.step (zones s.rounds.length)) (.start q) es = some s.query) ∧
    ∀ node, .ok node ∈ s.received → ∃ (i : Nat) (record : k.Enr) (c : Child k), i ≤ s.rounds.length ∧
      n.tcpSocket record = some node.addr ∧ n.id record = node.id ∧ Reached (zones i) q (.child c) ∧ c.kind = .enr ∧
        Serves (zones i) c.fqdn (.enr record) := by
  have hs := run_sound h
  refine ⟨hs.offered, fun i r hr => ?_, hs.current, fun node hnode => ?_⟩
  · obtain ⟨es, t, hrun, hprefix, -⟩ := hs.past i r hr
    exact ⟨es, t, hrun, hprefix⟩
  · have hmem : .ok node ∈ s.items.filterMap n.offer := hs.offered ▸ List.mem_append_left _ hnode
    obtain ⟨item, hitem, hoffer⟩ := List.mem_filterMap.1 hmem
    obtain ⟨record, rfl, haddr, hid⟩ := offer_eq_ok.1 hoffer
    obtain ⟨i, es, t, hi, hrun, hyielded⟩ := hs.mem_items hitem
    obtain ⟨c, hc, hkind, hserves⟩ := (Query.run_sound hrun).yielded _ hyielded record rfl
    exact ⟨i, record, c, hi, haddr, hid, hc, hkind, hserves⟩

/-- **A query that ends has offered all of its zone**: when the zone of the query has finitely many records, no path
from the query that comes back to itself, and is well formed, all the leaves were taken, each as often as paths lead to
it, and the node of each that has a TCP address has come out of the channel, or is on its way. -/
theorem discovery_complete {as : List Action} (h : Runs.run (step zones q n) (new q) as = some s) {i : Nat}
    {r : QueryRound k} (hr : s.rounds[i]? = some r) (hc : r.complete = true)
    (hzone : {name | ∃ text, zones i name = .ok (some text)}.Finite)
    (hacyclic : ∀ v, Reached (zones i) q v → ¬Relation.TransGen (fun v w => w ∈ v.next (zones i)) v v)
    (hformed : WellFormed (zones i) q) :
    ∃ (m : Nat) (l : List k.Enr),
      (∀ m', m ≤ m' → ∀ v, Reached (zones i) q v → v.leaves (zones i) m' = v.leaves (zones i) m) ∧
      r.items = l.map .ok ∧ l = (Visit.tree q).leaves (zones i) m ∧
      ∀ record ∈ l, ∀ addr, n.tcpSocket record = some addr → .ok ⟨n.id record, addr⟩ ∈ s.received ++ s.pending := by
  have hs := run_sound h
  obtain ⟨es, t, hrun, -, hend⟩ := hs.past i r hr
  obtain ⟨hstream, hitems⟩ := hend hc
  obtain ⟨m, hstable, hcomplete⟩ := query_complete (zones i) q hzone hacyclic hformed
  obtain ⟨-, -, -, hleaves⟩ := hcomplete es t hrun
  obtain ⟨l₁, l₂, hyielded, hl, -⟩ := hleaves hstream
  refine ⟨m, l₁ ++ l₂, hstable, hitems.trans hyielded, by rw [← hl]; rfl, fun record hrecord addr haddr => ?_⟩
  rw [hs.offered]
  refine List.mem_filterMap.2 ⟨.ok record, List.mem_append_left _ ?_, offer_eq_ok.2 ⟨record, rfl, haddr, rfl⟩⟩
  refine List.mem_flatMap.2 ⟨r, List.mem_of_getElem? hr, ?_⟩
  rw [hitems, hyielded]
  exact List.mem_map_of_mem hrecord

section Example

/-- The node of the record listens at one address. -/
def exampleNodes : EnrNodes exampleCrates :=
  ⟨fun _ => some (.v4 (FixedBytes.ofNat 4 1) 30303), fun _ => FixedBytes.ofNat 64 1⟩

/-- The query takes an item, and the node comes out of the channel. -/
def takeNext : List Action := [.poll, .next, .sent, .recv, .check false]

/-- The query of the zone with a link comes to its end. -/
def discoverLinked : List Action :=
  -- the link, and the tree behind it
  [.poll, .task 0, .task 1, .task 2, .task 1, .task 3, .task 1, .task 4, .task 4, .task 1, .task 1, .task 0, .task 0] ++
  takeNext ++
  -- the branch, and its children
  [.task 1, .task 0, .poll, .task 5, .task 6, .task 6, .task 7, .task 8, .task 5, .task 5] ++ takeNext ++
  [.task 8, .task 5, .task 5] ++ takeNext ++ [.task 5, .poll, .next]

theorem discoverLinked_run : (Runs.run (step (fun _ => linkedZone) confinedQuery exampleNodes) (new confinedQuery)
    discoverLinked).map (fun s => (s.received.map Except.toOption, s.rounds.map (·.complete))) =
      some (List.replicate 3 (some ⟨FixedBytes.ofNat 64 1, .v4 (FixedBytes.ofNat 4 1) 30303⟩), [true]) := by
  decide +kernel

end Example

/-- The nodes are those of records of the zone. -/
theorem discoverLinked_truthful : ∃ s, Runs.run (step (fun _ => linkedZone) confinedQuery exampleNodes)
    (new confinedQuery) discoverLinked = some s ∧ s.received.length = 3 ∧ ∀ node, .ok node ∈ s.received →
      ∃ (c : Child exampleCrates) (record : exampleCrates.Enr), Reached linkedZone confinedQuery (.child c) ∧
        Serves linkedZone c.fqdn (.enr record) := by
  obtain ⟨s, hs, h⟩ := Option.map_eq_some_iff.1 discoverLinked_run
  have hlength := congrArg List.length (Prod.mk.inj h).1
  rw [List.length_map, List.length_replicate] at hlength
  refine ⟨s, hs, hlength, fun node hnode => ?_⟩
  obtain ⟨i, record, c, -, -, -, hc, -, hserves⟩ := (discovery_truthful hs).2.2.2 node hnode
  exact ⟨c, record, hc, hserves⟩

/-- The query of it has offered all of the zone: the record behind the link, and those below the branch. -/
theorem discoverLinked_complete : ∃ s r, Runs.run (step (fun _ => linkedZone) confinedQuery exampleNodes)
    (new confinedQuery) discoverLinked = some s ∧ s.rounds[0]? = some r ∧
      r.items = [.ok exampleEnr, .ok exampleEnr, .ok exampleEnr] := by
  obtain ⟨s, hs, h⟩ := Option.map_eq_some_iff.1 discoverLinked_run
  obtain ⟨r, hr, hcomplete⟩ : ∃ r, s.rounds[0]? = some r ∧ r.complete = true := by
    have h := congrArg (·[0]?) (Prod.mk.inj h).2
    simpa using h
  obtain ⟨m, l, hstable, hitems, hl, -⟩ :=
    discovery_complete hs hr hcomplete linkedZone_finite linkedZone_acyclic linkedZone_formed
  have hcounts := linkedZone_formed.counts (n := m) (hstable _ (Nat.le_succ _))
  have hthree : (l : Multiset exampleCrates.Enr) = ↑[exampleEnr, exampleEnr, exampleEnr] :=
    hl.trans (linkedZone_leaves hcounts)
  refine ⟨s, r, hs, hr, ?_⟩
  rw [hitems, List.perm_replicate (n := 3).1 (Multiset.coe_eq_coe.1 hthree)]
  rfl

end DnsDiscovery

end EthereumSentry
