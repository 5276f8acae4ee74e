import EthereumSentry.Dnsdisc.Reached
import EthereumSentry.Lib.Budget

/-!
# What is left of a query

What is left to do is priced (`Priced`). A record costs what its task does with it, and what it leads to. An item in a
channel costs two steps for every channel it is yet to pass, so the price of a record depends on how many channels lie
between its task and the stream of the query, its depth. A task reads a channel that is deeper than the one it sends
over (`Query.Wired`). `Query.step_budget` says that every step of a query leaves less to do.
-/

set_option autoImplicit false

namespace EthereumSentry

namespace Dnsdisc

variable {k : EnrCrates}

/-! ## Costs -/

section cost

variable (price : Visit k → Nat → Nat) (depth : Nat → Nat)

/-- What is left of a stream with `r` channels above it. -/
def TreeStream.cost (r : Nat) : TreeStream k → Nat
  | .start t => price (.tree t) r
  | .link _ t base => 2 + price (.child (t.enrChild base)) (r + 1)
  | _ => 1

def Source.cost (r : Nat) : Source k → Nat
  | .branch _ => 0
  | .tree stream => stream.cost price r

/-- What is left of a task that sends over a channel of depth `d`, but for what is in the channel it reads. -/
def Task.cost (d : Nat) (t : Task k) : Nat :=
  match t.progress with
  | .fetching => price (.child t.child) d
  | .forwarding source => 1 + source.cost price (d + 1)
  | .sending _ source => 2 * d + 2 + source.elim 0 fun x => 1 + x.cost price (d + 1)
  | .finished => 0

@[simp] theorem Task.cost_fetching (d : Nat) (c : Child k) (out : Nat) :
    (⟨c, out, .fetching⟩ : Task k).cost price d = price (.child c) d := rfl

/-- What is left of an item in a channel. -/
def Channel.cost (d : Nat) (c : Channel k) : Nat := c.buffer.elim 0 fun _ => 2 * d + 1

@[simp] theorem Channel.cost_empty (d : Nat) (closed : Bool) : (⟨none, closed⟩ : Channel k).cost d = 0 := rfl

/-- What is left of an answer: an item that is ready is yet to pass `r` channels. -/
def Poll.cost {α : Type} (f : α → Nat) (r : Nat) : Poll α k → Nat
  | .running stream => f stream
  | .ready _ stream => 2 * r + f stream
  | .ended => 0

/-- What is left of the tasks and the channels. -/
def Query.cost (s : Query k) : Nat :=
  (s.tasks.map fun t => t.cost price (depth t.out)).sum + (s.channels.mapIdx fun i c => c.cost (depth i)).sum

end cost

/-- A record costs what its task does with it, and what it leads to one level further down. -/
def Priced (backend : Backend) (q : Tree k) (price : Visit k → Nat → Nat) : Prop :=
  ∀ v, Reached backend q v → ∀ d, price v d = 2 * d + 5 + ((v.next backend).map (price · (d + 1))).sum

/-! ## Depths -/

/-- A reader with `r` channels above it reads a channel with at least as many. -/
def Reads (depth : Nat → Nat) (s : Query k) (r : Nat) (c : Option Nat) : Prop :=
  ∀ i ∈ c, i < s.channels.length ∧ r ≤ depth i

def Progress.source : Progress k → Option (Source k)
  | .forwarding source => some source
  | .sending _ source => source
  | _ => none

def Poll.stream {α : Type} : Poll α k → Option α
  | .running stream => some stream
  | .ready _ stream => some stream
  | .ended => none

namespace Query

/-- A task reads a channel that is deeper than the one it sends over. -/
structure Wired (depth : Nat → Nat) (s : Query k) : Prop where
  out : ∀ t ∈ s.tasks, t.out < s.channels.length
  source : ∀ t ∈ s.tasks, ∀ x ∈ t.progress.source, Reads depth s (depth t.out + 1) x.channel

/-- There are no fewer channels and tasks, and the depths of those that were there stay. -/
structure Grows (depth depth' : Nat → Nat) (s s' : Query k) : Prop where
  length : s.channels.length ≤ s'.channels.length
  depth : ∀ c < s.channels.length, depth' c = depth c
  tasks : s.tasks <+: s'.tasks

variable {depth depth' : Nat → Nat} {s s' : Query k}

theorem Grows.reads (h : Grows depth depth' s s') {r : Nat} {c : Option Nat} (hc : Reads depth s r c) :
    Reads depth' s' r c := fun i hi => by
  obtain ⟨hlt, hle⟩ := hc i hi
  exact ⟨hlt.trans_le h.length, (h.depth i hlt).symm ▸ hle⟩

theorem Grows.getElem? (h : Grows depth depth' s s') {i : Nat} {t : Task k} (ht : s.tasks[i]? = some t) :
    s'.tasks[i]? = some t := by
  obtain ⟨new, hnew⟩ := h.tasks
  rw [← hnew, List.getElem?_append_left (List.getElem?_eq_some_iff.1 ht).1, ht]

/-- A step that touches no more than what is in the channels. -/
theorem Grows.of_eq (htasks : s'.tasks = s.tasks) (hlength : s'.channels.length = s.channels.length) :
    Grows depth depth s s' :=
  ⟨hlength.ge, fun _ _ => rfl, htasks ▸ List.prefix_rfl⟩

theorem Grows.trans_eq {s₁ : Query k} (h : Grows depth depth' s s₁) (htasks : s'.tasks = s₁.tasks)
    (hlength : s'.channels.length = s₁.channels.length) : Grows depth depth' s s' :=
  ⟨h.length.trans_eq hlength.symm, h.depth, htasks ▸ h.tasks⟩

theorem Wired.of_eq (h : s.Wired depth) (htasks : s'.tasks = s.tasks)
    (hlength : s'.channels.length = s.channels.length) : s'.Wired depth where
  out := fun t ht => hlength ▸ h.out t (htasks ▸ ht)
  source := fun t ht x hx => (Grows.of_eq htasks hlength).reads (h.source t (htasks ▸ ht) x hx)

theorem Wired.setTask (h : s.Wired depth) {i : Nat} {t : Task k} (hout : t.out < s.channels.length)
    (hsource : ∀ x ∈ t.progress.source, Reads depth s (depth t.out + 1) x.channel) : (s.setTask i t).Wired depth where
  out := fun u hu => by
    rcases List.mem_or_eq_of_mem_set hu with hu | rfl
    · exact h.out u hu
    · exact hout
  source := fun u hu => by
    rcases List.mem_or_eq_of_mem_set hu with hu | rfl
    · exact h.source u hu
    · exact hsource

/-! ## What the operations cost -/

variable (price : Visit k → Nat → Nat)

theorem cost_setTask (depth : Nat → Nat) {i : Nat} {t : Task k} (ht : s.tasks[i]? = some t) (t' : Task k) :
    (s.setTask i t').cost price depth + t.cost price (depth t.out) =
      s.cost price depth + t'.cost price (depth t'.out) := by
  have h := List.sum_set_add (t'.cost price (depth t'.out)) (a := t.cost price (depth t.out))
    (l := s.tasks.map fun t => t.cost price (depth t.out)) (i := i)
    (by rw [List.getElem?_map, ht, Option.map_some])
  simp only [cost, setTask, List.map_set]
  omega

theorem cost_setChannel {i : Nat} {c : Channel k} (hc : s.channels[i]? = some c) (c' : Channel k) :
    ({ s with channels := s.channels.set i c' } : Query k).cost price depth + c.cost (depth i) =
      s.cost price depth + c'.cost (depth i) := by
  have h := List.sum_set_add (c'.cost (depth i)) (a := c.cost (depth i))
    (l := s.channels.mapIdx fun i c => c.cost (depth i)) (i := i)
    (by rw [List.getElem?_mapIdx, hc, Option.map_some])
  simp only [cost, List.mapIdx_set]
  omega

/-- An item that is received is taken off what is left. -/
theorem recv_cases (depth : Nat → Nat) {c : Nat} {received : Option (Item k)} (hr : s.recv c = some (s', received)) :
    (received = none ∧ s' = s) ∨ ∃ item, received = some item ∧ s'.tasks = s.tasks ∧
      s'.channels.length = s.channels.length ∧ s'.stream = s.stream ∧
      s'.cost price depth + (2 * depth c + 1) = s.cost price depth := by
  unfold recv at hr
  split at hr
  · rename_i item closed hc
    cases hr
    exact .inr ⟨item, rfl, rfl, List.length_set, rfl, cost_setChannel price hc ⟨none, closed⟩⟩
  · split at hr <;> cases hr
    exact .inl ⟨rfl, rfl⟩

/-- An item that is sent is added to it, unless the receiver is gone. -/
theorem send_cases (depth : Nat → Nat) {c : Nat} {item : Item k} (hs : s.send c item = some s') :
    s'.tasks = s.tasks ∧ s'.channels.length = s.channels.length ∧ s'.stream = s.stream ∧
      s'.cost price depth ≤ s.cost price depth + (2 * depth c + 1) := by
  unfold send at hs
  split at hs
  · rename_i hc
    cases hs
    exact ⟨rfl, List.length_set, rfl, (cost_setChannel price hc ⟨some item, false⟩).le⟩
  · cases hs
  · cases hs
    exact ⟨rfl, rfl, rfl, Nat.le_add_right _ _⟩

theorem cost_close (depth : Nat → Nat) (s : Query k) (c : Nat) : (s.close c).cost price depth ≤ s.cost price depth := by
  cases hc : s.channels[c]? with
  | none =>
    have hset : s.channels.set c ⟨none, true⟩ = s.channels :=
      List.set_eq_of_length_le (List.getElem?_eq_none_iff.1 hc)
    rw [close, hset]
  | some channel => exact (Nat.le_add_right _ _).trans (cost_setChannel price hc ⟨none, true⟩).le

theorem dropSource_eq (depth : Nat → Nat) (s : Query k) (source : Source k) : (s.dropSource source).tasks = s.tasks ∧
    (s.dropSource source).channels.length = s.channels.length ∧ (s.dropSource source).stream = s.stream ∧
    (s.dropSource source).cost price depth ≤ s.cost price depth := by
  unfold dropSource
  cases source.channel with
  | none => exact ⟨rfl, rfl, rfl, le_rfl⟩
  | some c => exact ⟨rfl, List.length_set, rfl, cost_close price depth s c⟩

/-- The tasks of a branch cost what their records do, at the depth of their channel. -/
theorem resolveBranch_cost (h : s.Wired depth) (children : List (Child k)) (d : Nat) : ∃ depth',
    Grows depth depth' s (s.resolveBranch children).1 ∧ (s.resolveBranch children).1.Wired depth' ∧
      depth' s.channels.length = d ∧
      (s.resolveBranch children).1.cost price depth' =
        s.cost price depth + (children.map fun c => price (.child c) d).sum := by
  refine ⟨Function.update depth s.channels.length d, ?_⟩
  generalize hdepth' : Function.update depth s.channels.length d = depth'
  have hnew : depth' s.channels.length = d := by rw [← hdepth', Function.update_self]
  have hold : ∀ c < s.channels.length, depth' c = depth c := fun c hc => by
    rw [← hdepth', Function.update_of_ne hc.ne]
  have hgrows : Grows depth depth' s (s.resolveBranch children).1 :=
    ⟨by simp [resolveBranch], hold, List.prefix_append _ _⟩
  refine ⟨hgrows, ⟨fun t ht => ?_, fun t ht x hx => ?_⟩, hnew, ?_⟩
  · rcases List.mem_append.1 ht with ht | ht
    · exact (h.out t ht).trans_le hgrows.length
    · obtain ⟨c, -, rfl⟩ := List.mem_map.1 ht
      simp [resolveBranch]
  · rcases List.mem_append.1 ht with ht | ht
    · rw [hold t.out (h.out t ht)]
      exact hgrows.reads (h.source t ht x hx)
    · obtain ⟨c, -, rfl⟩ := List.mem_map.1 ht
      cases hx
  · have htasks : (s.tasks.map fun t => t.cost price (depth' t.out)) =
        s.tasks.map fun t => t.cost price (depth t.out) :=
      List.map_congr_left fun t ht => by rw [hold t.out (h.out t ht)]
    have hchannels : (s.channels.mapIdx fun i c => c.cost (depth' i)) = s.channels.mapIdx fun i c => c.cost (depth i) :=
      List.ext_getElem? fun i => by
        rw [List.getElem?_mapIdx, List.getElem?_mapIdx]
        cases hi : s.channels[i]? with
        | none => rfl
        | some c => rw [Option.map_some, Option.map_some, hold i (List.getElem?_eq_some_iff.1 hi).1]
    simp [cost, resolveBranch, List.mapIdx_append, htasks, hchannels, Function.comp_def, hnew, add_right_comm]

end Query

/-! ## What a step costs -/

variable {backend : Backend} {q : Tree k} {price : Visit k → Nat → Nat} {depth : Nat → Nat} {s s' : Query k}

/-- The price of a tree whose root is opened. -/
theorem Priced.tree (h : Priced backend q price) {t : Tree k} (ht : Reached backend q (.tree t)) {base : UnsignedRoot}
    (hf : t.find backend = .root base) (r : Nat) : price (.tree t) r =
      2 * r + 5 + (price (.child (t.linkChild base)) (r + 1) + price (.child (t.enrChild base)) (r + 1)) := by
  rw [h _ ht]
  simp [Visit.next, hf]

/-- A poll lowers what is left, also by what its reader has yet to do with an item. -/
theorem TreeStream.poll_cost (hprice : Priced backend q price) {stream : TreeStream k}
    {answer : Poll (TreeStream k) k} (hsound : stream.Sound backend q) (hwired : s.Wired depth) {r : Nat}
    (hreads : Reads depth s r stream.channel) (hp : stream.poll backend s = some (s', answer)) :
    ∃ depth', Query.Grows depth depth' s s' ∧ s'.Wired depth' ∧ s'.stream = s.stream ∧
      (∀ x ∈ answer.stream, Reads depth' s' r x.channel) ∧
      s'.cost price depth' + answer.cost (TreeStream.cost price r) r < s.cost price depth + stream.cost price r := by
  cases stream with
  | start t =>
    have hvisit : Query.Grows depth depth s (s.visit (.tree t)) := .of_eq rfl rfl
    have hwired' : (s.visit (.tree t)).Wired depth := hwired.of_eq rfl rfl
    have hcost : (s.visit (.tree t)).cost price depth = s.cost price depth := rfl
    simp only [TreeStream.poll] at hp
    cases hf : t.find backend with
    | nothing =>
      rw [hf] at hp
      cases hp
      refine ⟨depth, hvisit, hwired', rfl, (by rintro _ ⟨⟩), ?_⟩
      simp only [Poll.cost, TreeStream.cost, hprice _ hsound]
      omega
    | failed e =>
      rw [hf] at hp
      cases hp
      refine ⟨depth, hvisit, hwired', rfl, fun x hx => ?_, ?_⟩
      · cases hx
        rintro _ ⟨⟩
      · simp only [Poll.cost, TreeStream.cost, hprice _ hsound]
        omega
    | root base =>
      rw [hf] at hp
      cases hp
      obtain ⟨depth', hgrows, hwired', hnew, hcost'⟩ :=
        Query.resolveBranch_cost price hwired' [t.linkChild base] (r + 1)
      refine ⟨depth', ⟨hgrows.length, hgrows.depth, hgrows.tasks⟩, hwired', rfl, fun x hx i hi => ?_, ?_⟩
      · cases hx
        cases hi
        exact ⟨by simp [Query.resolveBranch], (Nat.le_succ r).trans hnew.ge⟩
      · simp only [Poll.cost, TreeStream.cost, hprice.tree hsound hf]
        simp only [List.map_cons, List.map_nil, List.sum_cons, List.sum_nil] at hcost'
        omega
  | link c t base =>
    obtain ⟨⟨s₁, received⟩, hr, hanswer⟩ := Option.bind_eq_some_iff.1 hp
    obtain ⟨hlt, hle⟩ := hreads c rfl
    rcases Query.recv_cases price depth hr with
      ⟨rfl, rfl⟩ | ⟨item, rfl, htasks, hlength, hstream, hcost⟩
    · cases hanswer
      obtain ⟨depth', hgrows, hwired', hnew, hcost'⟩ :=
        Query.resolveBranch_cost price hwired [t.enrChild base] (r + 1)
      refine ⟨depth', hgrows, hwired', rfl, fun x hx i hi => ?_, ?_⟩
      · cases hx
        cases hi
        exact ⟨by simp, (Nat.le_succ r).trans hnew.ge⟩
      · change (s₁.resolveBranch [t.enrChild base]).1.cost price depth' + 1 <
          s₁.cost price depth + (2 + price (.child (t.enrChild base)) (r + 1))
        simp only [List.map_cons, List.map_nil, List.sum_cons, List.sum_nil] at hcost'
        omega
    · have hgrows : Query.Grows depth depth s s₁ := .of_eq htasks hlength
      cases item <;> cases hanswer
      all_goals
        refine ⟨depth, hgrows, hwired.of_eq htasks hlength, hstream, fun x hx => ?_, ?_⟩
        · cases hx
          exact hgrows.reads hreads
        · simp only [Poll.cost, TreeStream.cost]
          omega
  | enr c =>
    obtain ⟨⟨s₁, received⟩, hr, hanswer⟩ := Option.bind_eq_some_iff.1 hp
    obtain ⟨hlt, hle⟩ := hreads c rfl
    rcases Query.recv_cases price depth hr with
      ⟨rfl, rfl⟩ | ⟨item, rfl, htasks, hlength, hstream, hcost⟩
    · cases hanswer
      refine ⟨depth, .of_eq rfl rfl, hwired, rfl, (by rintro _ ⟨⟩), ?_⟩
      simp only [Poll.cost, TreeStream.cost]
      omega
    · have hgrows : Query.Grows depth depth s s₁ := .of_eq htasks hlength
      cases item <;> cases hanswer
      all_goals
        refine ⟨depth, hgrows, hwired.of_eq htasks hlength, hstream, fun x hx => ?_, ?_⟩
        · cases hx
          exact hgrows.reads hreads
        · simp only [Poll.cost, TreeStream.cost]
          omega
  | failed c =>
    cases c with
    | none =>
      cases hp
      refine ⟨depth, .of_eq rfl rfl, hwired, rfl, (by rintro _ ⟨⟩), ?_⟩
      simp only [Poll.cost, TreeStream.cost]
      omega
    | some c =>
      cases hp
      have hlength : (s.close c).channels.length = s.channels.length := List.length_set
      refine ⟨depth, .of_eq rfl hlength, hwired.of_eq rfl hlength, rfl, (by rintro _ ⟨⟩), ?_⟩
      have hcost := Query.cost_close price depth s c
      simp only [Poll.cost, TreeStream.cost]
      omega

/-- The same for a stream that a task forwards. -/
theorem Source.poll_cost (hprice : Priced backend q price) {source : Source k} {answer : Poll (Source k) k}
    (hsound : source.Sound backend q) (hwired : s.Wired depth) {r : Nat} (hreads : Reads depth s r source.channel)
    (hp : source.poll backend s = some (s', answer)) :
    ∃ depth', Query.Grows depth depth' s s' ∧ s'.Wired depth' ∧ s'.stream = s.stream ∧
      (∀ x ∈ answer.stream, Reads depth' s' r x.channel) ∧
      s'.cost price depth' + answer.cost (fun x => 1 + x.cost price r) r <
        s.cost price depth + (1 + source.cost price r) := by
  cases source with
  | branch c =>
    obtain ⟨⟨s₁, received⟩, hr, hanswer⟩ := Option.bind_eq_some_iff.1 hp
    obtain ⟨hlt, hle⟩ := hreads c rfl
    rcases Query.recv_cases price depth hr with
      ⟨rfl, rfl⟩ | ⟨item, rfl, htasks, hlength, hstream, hcost⟩
    · cases hanswer
      refine ⟨depth, .of_eq rfl rfl, hwired, rfl, (by rintro _ ⟨⟩), ?_⟩
      simp only [Poll.cost, Source.cost]
      omega
    · cases hanswer
      have hgrows : Query.Grows depth depth s s' := .of_eq htasks hlength
      refine ⟨depth, hgrows, hwired.of_eq htasks hlength, hstream, fun x hx => ?_, ?_⟩
      · cases hx
        exact hgrows.reads hreads
      · simp only [Poll.cost, Source.cost]
        omega
  | tree stream =>
    obtain ⟨⟨s₁, answer₁⟩, hstream, hanswer⟩ := Option.bind_eq_some_iff.1 hp
    obtain ⟨depth', hgrows, hwired', hsame, hreads', hcost⟩ := stream.poll_cost hprice hsound hwired hreads hstream
    cases answer₁ <;> cases hanswer
    · refine ⟨depth', hgrows, hwired', hsame, fun x hx => ?_, ?_⟩
      · cases hx
        exact hreads' _ rfl
      · simp only [Poll.cost, Source.cost] at hcost ⊢
        omega
    · refine ⟨depth', hgrows, hwired', hsame, fun x hx => ?_, ?_⟩
      · cases hx
        exact hreads' _ rfl
      · simp only [Poll.cost, Source.cost] at hcost ⊢
        omega
    · refine ⟨depth', hgrows, hwired', hsame, (by rintro _ ⟨⟩), ?_⟩
      simp only [Poll.cost, Source.cost] at hcost ⊢
      omega

namespace Query

/-- A step that lowers what is left of the tasks and the channels, and does not touch the stream. -/
def Lowers (price : Visit k → Nat → Nat) (depth : Nat → Nat) (s s' : Query k) : Prop :=
  ∃ depth', s'.Wired depth' ∧ s'.stream = s.stream ∧ (∀ r c, Reads depth s r c → Reads depth' s' r c) ∧
    s'.cost price depth' < s.cost price depth

/-- A task goes on after what it has done. -/
theorem Lowers.of_setTask {depth' : Nat → Nat} {i : Nat} {t : Task k} (ht : s.tasks[i]? = some t)
    (hwired : s.Wired depth) {s₁ : Query k} (hgrows : Grows depth depth' s s₁) (hwired' : s₁.Wired depth')
    (hstream : s₁.stream = s.stream) (p : Progress k)
    (hsource : ∀ x ∈ p.source, Reads depth' s₁ (depth t.out + 1) x.channel)
    (hcost : s₁.cost price depth' + ({ t with progress := p } : Task k).cost price (depth t.out) <
      s.cost price depth + t.cost price (depth t.out)) :
    Lowers price depth s (s₁.setTask i { t with progress := p }) := by
  have hout : t.out < s.channels.length := hwired.out t (List.mem_of_getElem? ht)
  have hdepth : depth' t.out = depth t.out := hgrows.depth t.out hout
  refine ⟨depth', hwired'.setTask (hout.trans_le hgrows.length) fun x hx => ?_, hstream, fun r c => hgrows.reads, ?_⟩
  · simp only [hdepth]
    exact hsource x hx
  · have h := cost_setTask price depth' (hgrows.getElem? ht) { t with progress := p }
    simp only [hdepth] at h
    omega

/-- A step of a task lowers what is left. -/
theorem taskStep_cost (hprice : Priced backend q price) {i : Nat} {t : Task k} (ht : s.tasks[i]? = some t)
    (hsound : t.Sound backend q) (hwired : s.Wired depth) (hs : s.taskStep backend i t = some s') :
    Lowers price depth s s' := by
  obtain ⟨hchild, hp⟩ := hsound
  have hsource := hwired.source t (List.mem_of_getElem? ht)
  unfold taskStep at hs
  cases htp : t.progress with
  | fetching =>
    rw [htp] at hs
    have hvisit : Grows depth depth s (s.visit (.child t.child)) := .of_eq rfl rfl
    have hwired' : (s.visit (.child t.child)).Wired depth := hwired.of_eq rfl rfl
    have hcost : t.cost price (depth t.out) = price (.child t.child) (depth t.out) := by rw [Task.cost, htp]
    rw [hprice _ hchild] at hcost
    -- nothing is below what was found
    have hleaf : ∀ p : Progress k, p.source = none →
        ({ t with progress := p } : Task k).cost price (depth t.out) < t.cost price (depth t.out) →
        Lowers price depth s ((s.visit (.child t.child)).setTask i { t with progress := p }) := by
      intro p hnone hlt
      apply Lowers.of_setTask ht hwired hvisit hwired' rfl p
      · rw [hnone]
        rintro _ ⟨⟩
      · exact Nat.add_lt_add_left hlt (s.cost price depth)
    cases hf : t.child.find backend with
    | nothing =>
      simp only [hf, Option.some.injEq] at hs
      subst hs
      apply hleaf _ rfl
      rw [hcost]
      simp only [Task.cost]
      omega
    | failed e =>
      simp only [hf, Option.some.injEq] at hs
      subst hs
      apply hleaf _ rfl
      rw [hcost]
      simp only [Task.cost, Option.elim_none]
      omega
    | enr record =>
      simp only [hf, Option.some.injEq] at hs
      subst hs
      apply hleaf _ rfl
      rw [hcost]
      simp only [Task.cost, Option.elim_none]
      omega
    | branch children =>
      simp only [hf, Option.some.injEq] at hs
      subst hs
      obtain ⟨depth', hgrows, hwired', hnew, hcost'⟩ := resolveBranch_cost price hwired'
        (children.map fun h => { t.child with subdomain := h }) (depth t.out + 1)
      refine .of_setTask ht hwired ⟨hgrows.length, hgrows.depth, hgrows.tasks⟩ hwired' rfl _ (fun x hx j hj => ?_) ?_
      · cases hx
        cases hj
        exact ⟨by simp [resolveBranch], hnew.ge⟩
      · rw [hcost, hcost']
        simp only [Task.cost, Source.cost, Visit.next, hf, List.map_map, Function.comp_def]
        change s.cost price depth + _ + _ < _
        omega
    | tree t' =>
      simp only [hf, Option.some.injEq] at hs
      subst hs
      refine .of_setTask ht hwired hvisit hwired' rfl _ (fun x hx => ?_) ?_
      · cases hx
        rintro _ ⟨⟩
      · rw [hcost]
        simp only [Task.cost, Source.cost, TreeStream.cost, Visit.next, hf, List.map_cons, List.map_nil, List.sum_cons,
          List.sum_nil]
        change s.cost price depth + _ < _
        omega
  | forwarding source =>
    rw [htp] at hs hp
    obtain ⟨⟨s₁, answer⟩, hpoll, hanswer⟩ := Option.bind_eq_some_iff.1 hs
    obtain ⟨depth', hgrows, hwired', hstream, hreads, hcost⟩ :=
      source.poll_cost hprice hp hwired (hsource source (by rw [htp]; rfl)) hpoll
    have htcost : t.cost price (depth t.out) = 1 + source.cost price (depth t.out + 1) := by rw [Task.cost, htp]
    rcases answer with source' | ⟨e | record, source'⟩ | _ <;> cases hanswer
    · refine .of_setTask ht hwired hgrows hwired' hstream _ (fun x hx => ?_) (htcost ▸ hcost)
      cases hx
      exact hreads _ rfl
    · obtain ⟨htasks, hlength, hstream', hcost'⟩ := dropSource_eq price depth' s₁ source'
      refine .of_setTask ht hwired (hgrows.trans_eq htasks hlength) (hwired'.of_eq htasks hlength)
        (hstream'.trans hstream) _ (by rintro _ ⟨⟩) ?_
      rw [htcost]
      simp only [Poll.cost] at hcost
      simp only [Task.cost, Option.elim_none]
      omega
    · refine .of_setTask ht hwired hgrows hwired' hstream _ (fun x hx => ?_) ?_
      · cases hx
        exact hreads _ rfl
      · rw [htcost]
        simp only [Poll.cost] at hcost
        simp only [Task.cost, Option.elim_some]
        omega
    · exact .of_setTask ht hwired hgrows hwired' hstream _ (by rintro _ ⟨⟩) (htcost ▸ hcost)
  | sending item source =>
    rw [htp] at hs hp
    obtain ⟨s₁, hsend, hgo⟩ := Option.bind_eq_some_iff.1 hs
    obtain ⟨htasks, hlength, hstream, hcost⟩ := send_cases price depth hsend
    have hgrows : Grows depth depth s s₁ := .of_eq htasks hlength
    have htcost : t.cost price (depth t.out) =
        2 * depth t.out + 2 + source.elim 0 fun x => 1 + x.cost price (depth t.out + 1) := by rw [Task.cost, htp]
    cases source <;> cases hgo
    · refine .of_setTask ht hwired hgrows (hwired.of_eq htasks hlength) hstream _ (by rintro _ ⟨⟩) ?_
      rw [htcost]
      simp only [Task.cost, Option.elim_none]
      omega
    · refine .of_setTask ht hwired hgrows (hwired.of_eq htasks hlength) hstream _ (fun x hx => ?_) ?_
      · cases hx
        exact hgrows.reads (hsource _ (by rw [htp]; rfl))
      · rw [htcost]
        simp only [Task.cost, Option.elim_some]
        omega
  | finished =>
    rw [htp] at hs
    cases hs

/-- A query that is wired has no more left than `n`. -/
def Budget (backend : Backend) (q : Tree k) (price : Visit k → Nat → Nat) (s : Query k) (n : Nat) : Prop :=
  s.Sound backend q ∧ ∃ depth, s.Wired depth ∧ (∀ x ∈ s.stream, Reads depth s 0 x.channel) ∧
    s.cost price depth + s.stream.elim 0 (TreeStream.cost price 0) ≤ n

theorem Budget.start (backend : Backend) (price : Visit k → Nat → Nat) :
    (Query.start q).Budget backend q price (price (.tree q) 0) := by
  refine ⟨.start, fun _ => 0, ⟨by rintro _ ⟨⟩, by rintro _ ⟨⟩⟩, fun x hx => ?_, ?_⟩
  · cases hx
    rintro _ ⟨⟩
  · simp [cost, Query.start, TreeStream.cost]

/-- Every step leaves less to do. -/
theorem step_budget (hprice : Priced backend q price) {e : Event} {n : Nat} (h : s.Budget backend q price n)
    (hs : s.step backend e = some s') : ∃ m < n, s'.Budget backend q price m := by
  obtain ⟨hsound, depth, hwired, hreads, hcost⟩ := h
  have hsound' := step_sound hsound hs
  cases e with
  | stream =>
    obtain ⟨stream, hstream, hs⟩ := Option.bind_eq_some_iff.1 hs
    obtain ⟨⟨s₁, answer⟩, hpoll, hanswer⟩ := Option.bind_eq_some_iff.1 hs
    obtain ⟨depth', -, hwired', -, hreads', hcost'⟩ :=
      stream.poll_cost hprice (hsound.stream stream hstream) hwired (hreads stream hstream) hpoll
    rw [hstream, Option.elim_some] at hcost
    refine ⟨_, hcost'.trans_le hcost, hsound', depth', ?_⟩
    rcases answer with stream' | ⟨item, stream'⟩ | _ <;> cases hanswer
    · exact ⟨⟨hwired'.out, hwired'.source⟩, fun x hx => hreads' x hx, le_rfl⟩
    · exact ⟨⟨hwired'.out, hwired'.source⟩, fun x hx => hreads' x hx, by
        simp only [Poll.cost, Option.elim_some]
        change s₁.cost price depth' + _ ≤ _
        omega⟩
    · exact ⟨⟨hwired'.out, hwired'.source⟩, (by rintro _ ⟨⟩), le_rfl⟩
  | task i =>
    obtain ⟨t, ht, hs⟩ := Option.bind_eq_some_iff.1 hs
    obtain ⟨depth', hwired', hstream, hreads', hcost'⟩ :=
      taskStep_cost hprice ht (hsound.tasks t (List.mem_of_getElem? ht)) hwired hs
    refine ⟨_, Nat.lt_of_lt_of_le (Nat.add_lt_add_right hcost' _) hcost, hsound', depth', hwired', ?_, ?_⟩
    · rw [hstream]
      exact fun x hx => hreads' 0 _ (hreads x hx)
    · rw [hstream]

end Query

end Dnsdisc

end EthereumSentry
