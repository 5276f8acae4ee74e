import Mathlib.Data.Finite.Prod
import Mathlib.Data.Finset.Lattice.Fold
import Mathlib.Data.Set.Finite.Lattice
import EthereumSentry.Dnsdisc.Cost

/-!
# Resolution ends

Nothing keeps a query from following a record that leads back to itself: in the zone of `loop_unbounded` a branch lists
itself, and no run ends. Where no record that a query reaches leads back to itself, its runs are bounded, and a run that
cannot go on has ended the stream (`query_terminates`): the records of a finite zone that it reaches are finitely many
and have prices, and where the stream waits, some task does not.
-/

set_option autoImplicit false

namespace EthereumSentry

namespace Dnsdisc

variable {k : EnrCrates} {backend : Backend} {q : Tree k} {depth : Nat → Nat} {s s' : Query k}

/-! ## Waiting -/

/-- A stream waits for nothing but an item. -/
theorem TreeStream.poll_eq_none {stream : TreeStream k} (h : stream.poll backend s = none) :
    ∃ c, stream.channel = some c ∧ s.recv c = none := by
  cases stream with
  | start t =>
    simp only [TreeStream.poll] at h
    cases hf : t.find backend <;> rw [hf] at h <;> cases h
  | link c t base =>
    refine ⟨c, rfl, ?_⟩
    cases hr : s.recv c with
    | none => rfl
    | some r =>
      obtain ⟨s₁, _ | _ | _⟩ := r <;> simp [TreeStream.poll, hr] at h
  | enr c =>
    refine ⟨c, rfl, ?_⟩
    cases hr : s.recv c with
    | none => rfl
    | some r =>
      obtain ⟨s₁, _ | _ | _⟩ := r <;> simp [TreeStream.poll, hr] at h
  | failed c => cases c <;> cases h

theorem Source.poll_eq_none {source : Source k} (h : source.poll backend s = none) :
    ∃ c, source.channel = some c ∧ s.recv c = none := by
  cases source with
  | branch c =>
    refine ⟨c, rfl, ?_⟩
    cases hr : s.recv c with
    | none => rfl
    | some r =>
      obtain ⟨s₁, _ | _⟩ := r <;> simp [Source.poll, hr] at h
  | tree stream =>
    cases hp : stream.poll backend s with
    | none => exact stream.poll_eq_none hp
    | some r =>
      obtain ⟨s₁, _ | _ | _⟩ := r <;> simp [Source.poll, hp] at h

namespace Query

/-- No item is there, but a task is still to send one. -/
def Awaits (s : Query k) (c : Nat) : Prop :=
  (∀ item closed, s.channels[c]? ≠ some ⟨some item, closed⟩) ∧ ∃ t ∈ s.tasks, t.sends c = true

theorem awaits_of_recv {c : Nat} (h : s.recv c = none) : s.Awaits c := by
  unfold recv at h
  split at h
  · cases h
  · rename_i hc
    split at h
    · rename_i hany
      exact ⟨hc, List.any_eq_true.1 hany⟩
    · cases h

/-- A task with its channel empty can take a step, unless it waits for a deeper channel itself. -/
theorem exists_taskStep (backend : Backend) (i : Nat) {t : Task k} {c : Nat}
    (hempty : ∀ item closed, s.channels[c]? ≠ some ⟨some item, closed⟩)
    (ht : t.sends c = true) (hrecv : ∀ x ∈ t.progress.source, ∀ d ∈ x.channel, ∃ r, s.recv d = some r) :
    ∃ s', s.taskStep backend i t = some s' := by
  rw [← Option.ne_none_iff_exists']
  intro h
  rw [Task.sends, Bool.and_eq_true, decide_eq_true_eq] at ht
  obtain ⟨rfl, hsends⟩ := ht
  unfold taskStep at h
  cases htp : t.progress with
  | fetching =>
    rw [htp] at h
    cases hf : t.child.find backend <;> simp [hf] at h
  | forwarding source =>
    rw [htp] at h
    cases hp : source.poll backend s with
    | none =>
      obtain ⟨d, hd, hr⟩ := Source.poll_eq_none hp
      obtain ⟨r, hr'⟩ := hrecv source (by rw [htp]; rfl) d hd
      rw [hr] at hr'
      cases hr'
    | some r =>
      obtain ⟨s₁, _ | ⟨_ | _, _⟩ | _⟩ := r <;> simp [hp] at h
  | sending item source =>
    rw [htp] at h
    cases hs : s.send t.out item with
    | none =>
      unfold send at hs
      split at hs
      · cases hs
      · rename_i buffered hc
        exact hempty buffered false hc
      · cases hs
    | some s₁ => cases source <;> simp [hs] at h
  | finished =>
    rw [htp] at hsends
    cases hsends

/-- Where a channel is waited for, some task can take a step: the one that is to send, or one that it waits for. The
induction is on how far the channel is from the deepest one. -/
theorem exists_step_of_awaits (hwired : s.Wired depth) {bound : Nat}
    (hbound : ∀ c < s.channels.length, depth c ≤ bound) :
    ∀ (n : Nat) {c : Nat}, bound - depth c = n → c < s.channels.length → s.Awaits c →
      ∃ e s', s.step backend e = some s' := fun n => by
  induction n using Nat.strong_induction_on with
  | _ n ih =>
    intro c hn hc h
    obtain ⟨hempty, t, htmem, ht⟩ := h
    obtain ⟨i, hi⟩ := List.mem_iff_getElem?.1 htmem
    by_cases hrecv : ∀ x ∈ t.progress.source, ∀ d ∈ x.channel, ∃ r, s.recv d = some r
    · obtain ⟨s', hs⟩ := exists_taskStep backend i hempty ht hrecv
      exact ⟨.task i, s', by rw [step, hi, Option.bind_some, hs]⟩
    · -- the task waits for a deeper channel
      simp only [not_forall, not_exists] at hrecv
      obtain ⟨x, hx, d, hd, hnone⟩ := hrecv
      obtain ⟨hlt, hle⟩ := hwired.source t htmem x hx d hd
      have hout : t.out = c := by
        rw [Task.sends, Bool.and_eq_true, decide_eq_true_eq] at ht
        exact ht.1
      have := hbound d hlt
      rw [hout] at hle
      exact ih (bound - depth d) (by omega) rfl hlt (awaits_of_recv (Option.eq_none_iff_forall_ne_some.2 hnone))

/-- A query that has not ended its stream can take a step. -/
theorem exists_step (backend : Backend) (hwired : s.Wired depth) {stream : TreeStream k}
    (hstream : s.stream = some stream) (hreads : Reads depth s 0 stream.channel) :
    ∃ e s', s.step backend e = some s' := by
  cases hs : s.streamStep backend stream with
  | some s' => exact ⟨.stream, s', by rw [step, hstream, Option.bind_some, hs]⟩
  | none =>
    cases hp : stream.poll backend s with
    | some r =>
      obtain ⟨s₁, _ | _ | _⟩ := r <;> simp [streamStep, hp] at hs
    | none =>
      obtain ⟨c, hc, hr⟩ := stream.poll_eq_none hp
      exact exists_step_of_awaits hwired (fun c hc => Finset.le_sup (f := depth) (Finset.mem_range.2 hc)) _ rfl
        (hreads c hc).1 (awaits_of_recv hr)

/-! ## Visits -/

theorem recv_visited {c : Nat} {received : Option (Item k)} (hr : s.recv c = some (s', received)) :
    s'.visited = s.visited := by
  unfold recv at hr
  split at hr
  · cases hr
    rfl
  · split at hr <;> cases hr
    rfl

theorem send_visited {c : Nat} {item : Item k} (hs : s.send c item = some s') : s'.visited = s.visited := by
  unfold send at hs
  split at hs <;> cases hs
  all_goals rfl

theorem dropSource_visited (s : Query k) (source : Source k) : (s.dropSource source).visited = s.visited := by
  unfold dropSource
  cases source.channel <;> rfl

theorem visit_visited (s : Query k) (v : Visit k) : (s.visit v).visited.length = s.visited.length + 1 := by
  simp [visit]

end Query

theorem TreeStream.poll_visited {stream : TreeStream k} {answer : Poll (TreeStream k) k}
    (hp : stream.poll backend s = some (s', answer)) : s'.visited.length ≤ s.visited.length + 1 := by
  cases stream with
  | start t =>
    simp only [TreeStream.poll] at hp
    cases hf : t.find backend <;> rw [hf] at hp <;> cases hp
    all_goals exact (Query.visit_visited s _).le
  | link c t base =>
    obtain ⟨⟨s₁, received⟩, hr, hanswer⟩ := Option.bind_eq_some_iff.1 hp
    rw [← Query.recv_visited hr]
    rcases received with _ | _ | _ <;> cases hanswer
    all_goals exact Nat.le_succ _
  | enr c =>
    obtain ⟨⟨s₁, received⟩, hr, hanswer⟩ := Option.bind_eq_some_iff.1 hp
    rw [← Query.recv_visited hr]
    rcases received with _ | _ | _ <;> cases hanswer
    all_goals exact Nat.le_succ _
  | failed c =>
    cases c <;> cases hp
    all_goals exact Nat.le_succ _

theorem Source.poll_visited {source : Source k} {answer : Poll (Source k) k}
    (hp : source.poll backend s = some (s', answer)) : s'.visited.length ≤ s.visited.length + 1 := by
  cases source with
  | branch c =>
    obtain ⟨⟨s₁, received⟩, hr, hanswer⟩ := Option.bind_eq_some_iff.1 hp
    rw [← Query.recv_visited hr]
    cases received <;> cases hanswer
    all_goals exact Nat.le_succ _
  | tree stream =>
    obtain ⟨⟨s₁, answer₁⟩, hstream, hanswer⟩ := Option.bind_eq_some_iff.1 hp
    have h := stream.poll_visited hstream
    cases answer₁ <;> cases hanswer
    all_goals exact h

namespace Query

theorem taskStep_visited {i : Nat} {t : Task k} (hs : s.taskStep backend i t = some s') :
    s'.visited.length ≤ s.visited.length + 1 := by
  unfold taskStep at hs
  cases htp : t.progress with
  | fetching =>
    rw [htp] at hs
    cases hf : t.child.find backend <;> simp only [hf, Option.some.injEq] at hs <;> subst hs
    all_goals exact (visit_visited s _).le
  | forwarding source =>
    rw [htp] at hs
    obtain ⟨⟨s₁, answer⟩, hpoll, hanswer⟩ := Option.bind_eq_some_iff.1 hs
    have h := source.poll_visited hpoll
    rcases answer with source' | ⟨e | record, source'⟩ | _ <;> cases hanswer
    · exact h
    · exact (dropSource_visited s₁ source').symm ▸ h
    · exact h
    · exact h
  | sending item source =>
    rw [htp] at hs
    obtain ⟨s₁, hsend, hgo⟩ := Option.bind_eq_some_iff.1 hs
    rw [← send_visited hsend]
    cases source <;> cases hgo
    all_goals exact Nat.le_succ _
  | finished =>
    rw [htp] at hs
    cases hs

/-- A step asks for at most one record. -/
theorem step_visited {e : Event} (hs : s.step backend e = some s') : s'.visited.length ≤ s.visited.length + 1 := by
  cases e with
  | stream =>
    obtain ⟨stream, -, hs⟩ := Option.bind_eq_some_iff.1 hs
    obtain ⟨⟨s₁, answer⟩, hpoll, hanswer⟩ := Option.bind_eq_some_iff.1 hs
    have h := stream.poll_visited hpoll
    cases answer <;> cases hanswer
    all_goals exact h
  | task i =>
    obtain ⟨t, -, hs⟩ := Option.bind_eq_some_iff.1 hs
    exact taskStep_visited hs

theorem run_visited : ∀ (es : List Event) {s s' : Query k}, Runs.run (step backend) s es = some s' →
    s'.visited.length ≤ s.visited.length + es.length
  | [], _, _, hr => by
    cases hr
    exact Nat.le_add_right _ _
  | e :: es, s, s', hr => by
    obtain ⟨t, ht, hr⟩ := Option.bind_eq_some_iff.1 hr
    have h := step_visited ht
    have h' := run_visited es hr
    rw [List.length_cons]
    omega

end Query

/-! ## Finite zones -/

/-- The subdomains that a record names. -/
def DnsRecord.subdomains : DnsRecord k → List Base32Hash
  | .root record => [record.base.linkRoot, record.base.enrRoot]
  | .branch children => children
  | _ => []

/-- The tree that a link leads to. -/
def DnsRecord.trees (remoteWhitelist : Option (Whitelist k)) : DnsRecord k → List (Tree k)
  | .link publicKey domain => [⟨domain, some publicKey, none, remoteWhitelist⟩]
  | _ => []

/-- The tree of the query, or one that a record of the zone leads to. -/
def Tree.InZone (backend : Backend) (t q : Tree k) : Prop :=
  t = q ∨ ∃ record : DnsRecord k, (∃ name, Serves backend name record) ∧ t ∈ record.trees q.remoteWhitelist

/-- A child of such a tree, at a subdomain that a record of the zone names. -/
def Child.InZone (backend : Backend) (q : Tree k) (c : Child k) : Prop :=
  (∃ t : Tree k, t.InZone backend q ∧ t.host = c.host) ∧
    (∃ record : DnsRecord k, (∃ name, Serves backend name record) ∧ c.subdomain ∈ record.subdomains) ∧
    (c.kind = .enr ∨ c.kind = .link q.remoteWhitelist)

def Visit.InZone (backend : Backend) (q : Tree k) : Visit k → Prop
  | .tree t => t.InZone backend q
  | .child c => c.InZone backend q

theorem Tree.InZone.remoteWhitelist {t : Tree k} (h : t.InZone backend q) :
    t.remoteWhitelist = q.remoteWhitelist := by
  rcases h with rfl | ⟨record, -, ht⟩
  · rfl
  · cases record with
    | link publicKey domain =>
      rw [List.mem_singleton.1 ht]
    | _ => cases ht

/-- Nothing is reached but what the records of the zone name. -/
theorem Reached.inZone {v : Visit k} (h : Reached backend q v) : v.InZone backend q := by
  induction h with
  | query => exact .inl rfl
  | @link t record _ hserves _ ih =>
    exact ⟨⟨t, ih, rfl⟩, ⟨.root record, ⟨_, hserves⟩, .head _⟩, .inr (congrArg BranchKind.link ih.remoteWhitelist)⟩
  | @enr t record _ hserves _ ih =>
    exact ⟨⟨t, ih, rfl⟩, ⟨.root record, ⟨_, hserves⟩, .tail _ (.head _)⟩, .inl rfl⟩
  | @branch c children h _ hserves hh ih => exact ⟨ih.1, ⟨.branch children, ⟨_, hserves⟩, hh⟩, ih.2.2⟩
  | @tree c remoteWhitelist publicKey domain _ hkind hserves _ ih =>
    refine .inr ⟨.link publicKey domain, ⟨_, hserves⟩, ?_⟩
    rcases ih.2.2 with h | h
    · rw [h] at hkind
      cases hkind
    · rw [h] at hkind
      cases hkind
      exact .head _

/-- The record at a name. -/
def recordAt (k : EnrCrates) (backend : Backend) (name : Text) : Option (DnsRecord k) :=
  match backend name with
  | .ok (some text) => (DnsRecord.fromStr k text).toOption
  | _ => none

/-- The records of a finite zone are finitely many. -/
theorem finite_records (k : EnrCrates) (hzone : {name | ∃ text, backend name = .ok (some text)}.Finite) :
    {record : DnsRecord k | ∃ name, Serves backend name record}.Finite := by
  refine ((hzone.image (recordAt k backend)).preimage (f := some) fun _ _ _ _ h => Option.some.inj h).subset ?_
  rintro record ⟨name, text, htext, hrecord⟩
  refine ⟨name, ⟨text, htext⟩, ?_⟩
  rw [recordAt, htext]
  simp only [hrecord]
  rfl

/-- A query of a finite zone reaches finitely many records. -/
theorem finite_reached (hzone : {name | ∃ text, backend name = .ok (some text)}.Finite) (q : Tree k) :
    {v | Reached backend q v}.Finite := by
  have hrecords := finite_records k hzone
  have htrees : {t : Tree k | t.InZone backend q}.Finite :=
    ((hrecords.biUnion fun record _ => List.finite_toSet (record.trees q.remoteWhitelist)).insert q).subset
      fun t ht => ht.imp id fun ⟨record, hserves, ht⟩ => Set.mem_biUnion hserves ht
  have hnames := (htrees.image Tree.host).prod
    (hrecords.biUnion fun record _ => List.finite_toSet record.subdomains)
  have hchildren : {c : Child k | c.InZone backend q}.Finite := by
    refine ((hnames.image fun n => (⟨n.1, n.2, .enr⟩ : Child k)).union
      (hnames.image fun n => ⟨n.1, n.2, .link q.remoteWhitelist⟩)).subset ?_
    rintro ⟨host, subdomain, kind⟩ ⟨⟨t, ht, rfl⟩, ⟨record, hserves, hh⟩, rfl | rfl⟩
    · exact .inl ⟨(_, _), ⟨⟨t, ht, rfl⟩, Set.mem_biUnion hserves hh⟩, rfl⟩
    · exact .inr ⟨(_, _), ⟨⟨t, ht, rfl⟩, Set.mem_biUnion hserves hh⟩, rfl⟩
  refine ((htrees.image Visit.tree).union (hchildren.image Visit.child)).subset fun v hv => ?_
  have h := Reached.inZone hv
  cases v with
  | tree t => exact .inl ⟨t, h, rfl⟩
  | child c => exact .inr ⟨c, h, rfl⟩

/-- **Resolution ends, where nothing leads back to itself.** For every finite zone, host, key and whitelist such that no
record the query reaches leads back to itself, the runs of the query are bounded, and so are the records they ask for; a
run that cannot go on has ended the stream. -/
theorem query_terminates (backend : Backend) (q : Tree k)
    (hzone : {name | ∃ text, backend name = .ok (some text)}.Finite)
    (hacyclic : ∀ v, Reached backend q v → ¬Relation.TransGen (fun v w => w ∈ v.next backend) v v) :
    ∃ n, ∀ es s, Runs.run (Query.step backend) (.start q) es = some s →
      es.length ≤ n ∧ s.visited.length ≤ n ∧ ((∀ e, s.step backend e = none) → s.stream = none) := by
  obtain ⟨price, hprice⟩ := Acyclic.exists_price
    (Acyclic.wellFounded (finite_reached hzone q) hacyclic) fun d => 2 * d + 5
  refine ⟨price (.tree q) 0, fun es s hr => ?_⟩
  obtain ⟨m, hm, hbudget⟩ := Runs.length_le_budget (fun _ _ _ _ => Query.step_budget hprice) es
    (Query.Budget.start backend price) hr
  have hvisited := Query.run_visited es hr
  refine ⟨by omega, ?_, fun hstuck => ?_⟩
  · simp only [Query.start, List.length_nil] at hvisited
    omega
  · obtain ⟨-, depth, hwired, hreads, -⟩ := hbudget
    cases hstream : s.stream with
    | none => rfl
    | some stream =>
      obtain ⟨e, s', hs⟩ := Query.exists_step backend hwired hstream (hreads stream hstream)
      rw [hstuck e] at hs
      cases hs

/-! ## Zones of two records -/

def hashX : Base32Hash := ⟨['X'], by decide⟩

def hashY : Base32Hash := ⟨['Y'], by decide⟩

def smallRoot : UnsignedRoot := ⟨hashX, hashX, 1⟩

/-- A root with both subtrees at one name, and the record there. -/
def smallZone (record : Text) : Backend := fun name =>
  if name = exampleHost then .ok (some "enrtree-root:v1 e=X l=X seq=1 sig=".toList)
  else if name = "X.n".toList then .ok (some record)
  else .ok none

def smallQuery : Tree exampleCrates := ⟨exampleHost, none, none, none⟩

/-- A branch that lists itself. -/
def loopZone : Backend := smallZone "enrtree-branch:X".toList

/-- A branch that lists a child without a record. -/
def chainZone : Backend := smallZone "enrtree-branch:Y".toList

def Tree.Found.base : Tree.Found k → Option UnsignedRoot
  | .root base => some base
  | _ => none

theorem Tree.find_of_base {backend : Backend} {t : Tree k} {base : UnsignedRoot}
    (h : (t.find backend).base = some base) : t.find backend = .root base := by
  cases hf : t.find backend with
  | root base' =>
    rw [hf] at h
    rw [Option.some.inj h]
  | _ =>
    rw [hf] at h
    cases h

theorem smallQuery_find : smallQuery.find loopZone = .root smallRoot := Tree.find_of_base (by decide +kernel)

/-- The child that lists itself. -/
def loopChild : Child exampleCrates := ⟨exampleHost, hashX, .link none⟩

theorem loopChild_find : loopChild.find loopZone = .branch [hashX] := rfl

namespace Query

theorem recv_of_awaits {c : Nat} (h : s.Awaits c) : s.recv c = none := by
  obtain ⟨hempty, t, ht, hsends⟩ := h
  unfold recv
  split
  · rename_i item closed hc
    exact absurd hc (hempty item closed)
  · rw [if_pos (List.any_eq_true.2 ⟨t, ht, hsends⟩)]

/-- A new channel is empty. -/
theorem getElem?_resolveBranch {children : List (Child k)} {c : Nat} {item : Item k} {closed : Bool}
    (h : (s.resolveBranch children).1.channels[c]? = some ⟨some item, closed⟩) :
    s.channels[c]? = some ⟨some item, closed⟩ := by
  by_cases hc : c < s.channels.length
  · rwa [resolveBranch, List.getElem?_append_left hc] at h
  · rw [resolveBranch, List.getElem?_append_right (not_lt.1 hc)] at h
    cases List.mem_singleton.1 (List.mem_of_getElem? h)

/-- The channel of a branch is waited for. -/
theorem awaits_new (s : Query k) (child : Child k) : (s.resolveBranch [child]).1.Awaits s.channels.length := by
  refine ⟨fun item closed h => ?_, ⟨child, s.channels.length, .fetching⟩, by simp [resolveBranch], by simp [Task.sends]⟩
  have h := getElem?_resolveBranch h
  rw [List.getElem?_eq_none le_rfl] at h
  cases h

theorem Awaits.resolveBranch {c : Nat} (h : s.Awaits c) (children : List (Child k)) :
    (s.resolveBranch children).1.Awaits c := by
  obtain ⟨hempty, t, ht, hsends⟩ := h
  exact ⟨fun item closed h => hempty item closed (getElem?_resolveBranch h), t, List.mem_append_left _ ht, hsends⟩

/-- A task that goes on forwarding is still to send. -/
theorem Awaits.setTask {c i : Nat} {t : Task k} (h : s.Awaits c) (ht : s.tasks[i]? = some t) (source : Source k) :
    (s.setTask i { t with progress := .forwarding source }).Awaits c := by
  obtain ⟨hempty, u, hu, hsends⟩ := h
  have hlt := (List.getElem?_eq_some_iff.1 ht).1
  obtain ⟨j, hj⟩ := List.mem_iff_getElem?.1 hu
  by_cases hij : i = j
  · rw [hij, hj] at ht
    cases ht
    refine ⟨hempty, _, List.mem_set hlt _, ?_⟩
    rw [Task.sends, Bool.and_eq_true] at hsends
    rw [Task.sends, Bool.and_eq_true]
    exact ⟨hsends.1, rfl⟩
  · exact ⟨hempty, u, List.mem_of_getElem? ((List.getElem?_set_ne hij).trans hj), hsends⟩

/-- All tasks are for the child that lists itself, and one that does not ask for its record waits for another one. So
does the stream. -/
structure Looping (s : Query exampleCrates) : Prop where
  tasks : ∀ t ∈ s.tasks, t.child = loopChild ∧
    (t.progress = .fetching ∨ ∃ c, t.progress = .forwarding (.branch c) ∧ s.Awaits c)
  stream : s.stream = some (.start smallQuery) ∨ ∃ c t base, s.stream = some (.link c t base) ∧ s.Awaits c

variable {s s' : Query exampleCrates}

/-- A task of the loop spawns another one. -/
theorem taskStep_loop {i : Nat} {t : Task exampleCrates} (hchild : t.child = loopChild) (hp : t.progress = .fetching) :
    s.taskStep loopZone i t = some (((s.visit (.child loopChild)).resolveBranch [loopChild]).1.setTask i
      { t with progress := .forwarding (.branch s.channels.length) }) := by
  rw [taskStep, hp, hchild]
  simp only [loopChild_find]
  rfl

theorem Looping.start : (Query.start smallQuery).Looping := ⟨by rintro _ ⟨⟩, .inl rfl⟩

/-- Every step of the loop asks for a record, and leaves a task that is to ask for one. -/
theorem Looping.step {e : Event} (h : s.Looping) (hs : s.step loopZone e = some s') :
    s'.Looping ∧ s'.visited.length = s.visited.length + 1 ∧ ∃ t ∈ s'.tasks, t.progress = .fetching := by
  cases e with
  | stream =>
    obtain ⟨stream, hstream, hs⟩ := Option.bind_eq_some_iff.1 hs
    rcases h.stream with hx | ⟨c, t, base, hx, hawaits⟩
    · rw [hstream] at hx
      cases hx
      rw [streamStep, TreeStream.poll, smallQuery_find] at hs
      cases hs
      have hnew := awaits_new (s.visit (.tree smallQuery)) loopChild
      refine ⟨⟨fun t ht => ?_, .inr ⟨_, _, _, rfl, hnew⟩⟩, visit_visited s (.tree smallQuery), ?_⟩
      · rcases List.mem_append.1 ht with ht | ht
        · obtain ⟨hchild, hp | ⟨c, hp, hc⟩⟩ := h.tasks t ht
          · exact ⟨hchild, .inl hp⟩
          · exact ⟨hchild, .inr ⟨c, hp, Awaits.resolveBranch (s := s.visit (.tree smallQuery)) hc [loopChild]⟩⟩
        · rw [List.mem_singleton.1 ht]
          exact ⟨rfl, .inl rfl⟩
      · exact ⟨⟨loopChild, s.channels.length, .fetching⟩, List.mem_append_right _ (.head _), rfl⟩
    · rw [hstream] at hx
      cases hx
      simp [streamStep, TreeStream.poll, recv_of_awaits hawaits] at hs
  | task i =>
    obtain ⟨t, ht, hs⟩ := Option.bind_eq_some_iff.1 hs
    obtain ⟨hchild, hp | ⟨c, hp, hawaits⟩⟩ := h.tasks t (List.mem_of_getElem? ht)
    · rw [taskStep_loop hchild hp] at hs
      cases hs
      have hnew := awaits_new (s.visit (.child loopChild)) loopChild
      have hi : ((s.visit (.child loopChild)).resolveBranch [loopChild]).1.tasks[i]? = some t :=
        (List.getElem?_append_left (List.getElem?_eq_some_iff.1 ht).1).trans ht
      have hkeep : ∀ c, s.Awaits c → (((s.visit (.child loopChild)).resolveBranch [loopChild]).1.setTask i
          { t with progress := .forwarding (.branch s.channels.length) }).Awaits c := fun c hc =>
        (Awaits.resolveBranch (s := s.visit (.child loopChild)) hc [loopChild]).setTask hi _
      refine ⟨⟨fun u hu => ?_, ?_⟩, visit_visited s (.child loopChild), ?_⟩
      · rcases List.mem_or_eq_of_mem_set hu with hu | rfl
        · rcases List.mem_append.1 hu with hu | hu
          · obtain ⟨hchild', hp' | ⟨c, hp', hc⟩⟩ := h.tasks u hu
            · exact ⟨hchild', .inl hp'⟩
            · exact ⟨hchild', .inr ⟨c, hp', hkeep c hc⟩⟩
          · rw [List.mem_singleton.1 hu]
            exact ⟨rfl, .inl rfl⟩
        · exact ⟨hchild, .inr ⟨s.channels.length, rfl, hnew.setTask hi _⟩⟩
      · rcases h.stream with hx | ⟨c, t', base, hx, hc⟩
        · exact .inl hx
        · exact .inr ⟨c, t', base, hx, hkeep c hc⟩
      · refine ⟨⟨loopChild, s.channels.length, .fetching⟩, ?_, rfl⟩
        have hlt : i < s.tasks.length := (List.getElem?_eq_some_iff.1 ht).1
        refine List.mem_of_getElem? (i := s.tasks.length) ?_
        change ((s.tasks ++ [_]).set i _)[s.tasks.length]? = _
        rw [List.getElem?_set_ne hlt.ne, List.getElem?_concat_length]
        rfl
    · simp [taskStep, hp, Source.poll, recv_of_awaits hawaits] at hs

/-- The loop goes on: a task that asks for a record can. -/
theorem Looping.exists_run (n : Nat) : ∃ es s, Runs.run (Query.step loopZone) (.start smallQuery) es = some s ∧
    s.Looping ∧ n + 1 = s.visited.length ∧ ∃ t ∈ s.tasks, t.progress = .fetching := by
  induction n with
  | zero =>
    obtain ⟨s, hs⟩ : ∃ s, (Query.start smallQuery).step loopZone .stream = some s := by
      rw [Query.step, Query.start, Option.bind_some, streamStep, TreeStream.poll, smallQuery_find]
      exact ⟨_, rfl⟩
    obtain ⟨h, hvisited, ht⟩ := Looping.start.step hs
    exact ⟨[.stream], s, by rw [Runs.run_cons, hs]; rfl, h, hvisited.symm, ht⟩
  | succ n ih =>
    obtain ⟨es, s, hr, h, hn, t, ht, hp⟩ := ih
    obtain ⟨i, hi⟩ := List.mem_iff_getElem?.1 ht
    obtain ⟨s', hs⟩ : ∃ s', s.step loopZone (.task i) = some s' := by
      rw [Query.step, hi, Option.bind_some, taskStep_loop (h.tasks t ht).1 hp]
      exact ⟨_, rfl⟩
    obtain ⟨h', hvisited, ht'⟩ := h.step hs
    refine ⟨es ++ [.task i], s', ?_, h', by rw [hvisited, hn], ht'⟩
    rw [Runs.run_append, hr, Option.bind_some, Runs.run_cons, hs]
    rfl

end Query

/-- The zones have two records. -/
theorem smallZone_finite (record : Text) : {name | ∃ text, smallZone record name = .ok (some text)}.Finite := by
  refine (Set.toFinite {exampleHost, "X.n".toList}).subset ?_
  rintro name ⟨text, htext⟩
  unfold smallZone at htext
  split at htext
  · exact .inl ‹_›
  · split at htext
    · exact .inr ‹_›
    · cases htext

/-- **A branch that lists itself.** A query of a zone of two records does not end in any run, and asks for as many
records as one likes. -/
theorem loop_unbounded : {name | ∃ text, loopZone name = .ok (some text)}.Finite ∧
    (∀ es s, Runs.run (Query.step loopZone) (.start smallQuery) es = some s → s.stream ≠ none) ∧
    ∀ n, ∃ es s, Runs.run (Query.step loopZone) (.start smallQuery) es = some s ∧ n < s.visited.length := by
  refine ⟨smallZone_finite _, fun es s hr => ?_, fun n => ?_⟩
  · have h := Runs.invariant (fun _ _ _ h hs => (Query.Looping.step h hs).1) es Query.Looping.start hr
    rcases h.stream with hx | ⟨c, t, base, hx, -⟩
    · rw [hx]
      exact Option.some_ne_none _
    · rw [hx]
      exact Option.some_ne_none _
  · obtain ⟨es, s, hr, -, hn, -⟩ := Query.Looping.exists_run n
    exact ⟨es, s, hr, by omega⟩

/-! ## A chain -/

/-- A child of the chain has no record but the branch. -/
theorem chainZone_serves {c : Child exampleCrates} {record : DnsRecord exampleCrates}
    (h : Serves chainZone c.fqdn record) : c.fqdn = "X.n".toList ∧ record = .branch [hashY] := by
  obtain ⟨text, htext, hrecord⟩ := h
  unfold chainZone smallZone at htext
  split at htext
  · -- the name of a child has a dot in it
    rename_i hname
    have hdot : '.' ∈ c.fqdn := List.mem_append_right _ (.head _)
    rw [hname] at hdot
    exact absurd hdot (by decide)
  · split at htext
    · rename_i hname
      cases htext
      exact ⟨hname, (Except.ok.inj hrecord).symm⟩
    · cases htext

/-- How far a record of the chain is from the root. -/
def chainRank : Visit exampleCrates → Nat
  | .tree _ => 0
  | .child c => if c.fqdn = "X.n".toList then 1 else 2

/-- A record of the chain leads away from the root. -/
theorem chainRank_lt {v w : Visit exampleCrates} (h : w ∈ v.next chainZone) : chainRank v < chainRank w := by
  have hpos : ∀ c, 0 < chainRank (.child c) := fun c => by
    rw [chainRank]
    split <;> omega
  cases v with
  | tree t =>
    cases hf : t.find chainZone with
    | root base =>
      simp only [Visit.next, hf, List.mem_cons, List.not_mem_nil, or_false] at h
      rcases h with rfl | rfl
      all_goals exact hpos _
    | _ => simp [Visit.next, hf] at h
  | child c =>
    cases hf : c.find chainZone with
    | branch children =>
      obtain ⟨hname, hbranch⟩ := chainZone_serves (Child.find_branch hf)
      cases hbranch
      simp only [Visit.next, hf, List.map_cons, List.map_nil, List.mem_singleton] at h
      subst h
      have hother : (⟨c.host, hashY, c.kind⟩ : Child exampleCrates).fqdn ≠ "X.n".toList := fun hy =>
        absurd (List.cons.inj hy).1 (by decide)
      simp only [chainRank, if_pos hname, if_neg hother]
      decide
    | tree t =>
      obtain ⟨_, _, -, hserves, -⟩ := Child.find_tree hf
      cases (chainZone_serves hserves).2
    | _ => simp [Visit.next, hf] at h

/-- A query of a zone of two records that ends. -/
theorem chain_terminates : ∃ n, ∀ es s, Runs.run (Query.step chainZone) (.start smallQuery) es = some s →
    es.length ≤ n ∧ s.visited.length ≤ n ∧ ((∀ e, s.step chainZone e = none) → s.stream = none) := by
  refine query_terminates chainZone smallQuery (smallZone_finite _) ?_
  exact Acyclic.of_rank chainRank (fun _ hv _ hw => hv.next hw) fun _ _ _ hw => chainRank_lt hw

end Dnsdisc

end EthereumSentry
