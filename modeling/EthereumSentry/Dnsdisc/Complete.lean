import Mathlib.Tactic.Abel
import EthereumSentry.Dnsdisc.Confined
import EthereumSentry.Dnsdisc.Leaves
import EthereumSentry.Dnsdisc.RoundTrip

/-!
# Resolution is complete

The leaves that the tasks and the channels of a query have yet to bring (`Query.rest`) are, in a well-formed zone,
neither lost nor doubled by a step (`Turn`). A channel that something is still to come out of has a reader
(`Query.Attended`), so where the stream of the query finds its channel at an end, nothing is left anywhere
(`Query.all_drained`). In every run the stream ends without an error, and has then yielded the leaves of the link
subtree and after them those of the ENR subtree (`query_complete`).
-/

set_option autoImplicit false

namespace EthereumSentry

namespace Dnsdisc

variable {k : EnrCrates}

/-! ## What is left -/

section rest

variable (leaf : Visit k → Multiset k.Enr)

/-- The leaf that an item brings. -/
def itemLeaf : Item k → Multiset k.Enr
  | .ok record => {record}
  | .error _ => 0

/-- The leaves that a stream has yet to ask for. -/
def TreeStream.rest : TreeStream k → Multiset k.Enr
  | .start t => leaf (.tree t)
  | .link _ t base => leaf (.child (t.enrChild base))
  | _ => 0

def Source.rest : Source k → Multiset k.Enr
  | .branch _ => 0
  | .tree stream => stream.rest leaf

/-- The leaves that a task has yet to ask for or to send. -/
def Task.rest (t : Task k) : Multiset k.Enr :=
  match t.progress with
  | .fetching => leaf (.child t.child)
  | .forwarding source => source.rest leaf
  | .sending item source => itemLeaf item + source.elim 0 (Source.rest leaf)
  | .finished => 0

def Channel.rest (c : Channel k) : Multiset k.Enr := c.buffer.elim 0 itemLeaf

def Poll.rest {α : Type} (f : α → Multiset k.Enr) : Poll α k → Multiset k.Enr
  | .running stream => f stream
  | .ready item stream => itemLeaf item + f stream
  | .ended => 0

/-- The leaves that the tasks and the channels have yet to bring. -/
def Query.rest (s : Query k) : Multiset k.Enr :=
  (s.tasks.map (Task.rest leaf)).sum + (s.channels.map Channel.rest).sum

end rest

/-! ## No errors -/

def TreeStream.Intact : TreeStream k → Prop
  | .failed _ => False
  | _ => True

def Source.Intact : Source k → Prop
  | .branch _ => True
  | .tree stream => stream.Intact

/-- A record, and no error. -/
def Found (item : Item k) : Prop := ∃ record, item = .ok record

def Task.Intact (t : Task k) : Prop :=
  match t.progress with
  | .forwarding source => source.Intact
  | .sending item source => Found item ∧ ∀ x ∈ source, x.Intact
  | _ => True

def Poll.Intact {α : Type} (P : α → Prop) : Poll α k → Prop
  | .running stream => P stream
  | .ready item stream => Found item ∧ P stream
  | .ended => True

namespace Query

/-- No error is on its way, and every receiver is there. -/
structure Intact (s : Query k) : Prop where
  channels : ∀ c ∈ s.channels, c.closed = false ∧ ∀ item ∈ c.buffer, Found item
  tasks : ∀ t ∈ s.tasks, t.Intact
  stream : ∀ x ∈ s.stream, x.Intact

/-- Nothing more comes out of a channel. -/
def Drained (s : Query k) (c : Nat) : Prop :=
  (∀ item closed, s.channels[c]? ≠ some ⟨some item, closed⟩) ∧ ∀ t ∈ s.tasks, t.sends c = false

/-- A channel is drained, or the stream or a task receives from it. -/
def Attended (s : Query k) : Prop :=
  ∀ c, s.Drained c ∨ (∃ x ∈ s.stream, x.channel = some c) ∨
    ∃ t ∈ s.tasks, t.progress.source.bind Source.channel = some c

variable {s s' : Query k} {depth : Nat → Nat}

theorem sends_of_unfinished {t : Task k} (h : t.progress ≠ .finished) : t.sends t.out = true := by
  unfold Task.sends
  cases hp : t.progress with
  | finished => exact absurd hp h
  | _ => simp

theorem not_drained {t : Task k} (ht : t ∈ s.tasks) (h : t.progress ≠ .finished) : ¬s.Drained t.out := fun hd =>
  Bool.false_ne_true ((hd.2 t ht).symm.trans (sends_of_unfinished h))

/-- **Where the stream has nothing more to receive, nothing is left.** A channel with a task that reads it is deeper
than the one that the task sends over, by induction on the depth. -/
theorem all_drained (hwired : s.Wired depth) (h : s.Attended)
    (hstream : ∀ x ∈ s.stream, ∀ c ∈ x.channel, s.Drained c) : ∀ (n : Nat) {c : Nat}, depth c = n → s.Drained c :=
  fun n => by
    induction n using Nat.strong_induction_on with
    | _ n ih =>
      intro c hn
      rcases h c with hd | ⟨x, hx, hc⟩ | ⟨t, ht, hc⟩
      · exact hd
      · exact hstream x hx c hc
      · obtain ⟨x, hx, hc⟩ := Option.bind_eq_some_iff.1 hc
        obtain ⟨-, hlt⟩ := hwired.source t ht x hx c hc
        have hp : t.progress ≠ .finished := fun hp => by
          rw [hp] at hx
          cases hx
        exact absurd (ih (depth t.out) (by omega) rfl) (not_drained ht hp)

/-- Where all channels are drained, no leaf is left. -/
theorem rest_of_drained (leaf : Visit k → Multiset k.Enr) (h : ∀ c, s.Drained c) : s.rest leaf = 0 := by
  have htasks : ∀ t ∈ s.tasks, t.rest leaf = 0 := fun t ht => by
    by_cases hp : t.progress = .finished
    · rw [Task.rest, hp]
    · exact absurd (h t.out) (not_drained ht hp)
  have hchannels : ∀ c ∈ s.channels, c.rest = 0 := fun c hc => by
    obtain ⟨i, hi⟩ := List.mem_iff_getElem?.1 hc
    obtain ⟨_ | item, closed⟩ := c
    · rfl
    · exact absurd hi ((h i).1 item closed)
  rw [rest, List.sum_eq_zero (List.forall_mem_map.2 htasks), List.sum_eq_zero (List.forall_mem_map.2 hchannels),
    add_zero]

/-! ## Turns -/

variable (leaf : Visit k → Multiset k.Enr)

/-- What a party does that receives from `c` and has `r` to bring itself, and receives from `c'` and has `r'` to bring
then. It loses no leaf, and leaves nothing unattended. -/
structure Turn (s s' : Query k) (c c' : Option Nat) (r r' : Multiset k.Enr) : Prop where
  rest : s'.rest leaf + r' = s.rest leaf + r
  drained : ∀ i, s.Drained i ∨ c = some i → s'.Drained i ∨ c' = some i
  intact : s'.Intact
  tasks : s.tasks <+: s'.tasks
  stream : s'.stream = s.stream
  yielded : s'.yielded = s.yielded

variable {leaf}

theorem Drained.setChannel {i j : Nat} {c : Channel k} (h : s.Drained i) (hc : c.buffer = none ∨ j ≠ i) :
    ({ s with channels := s.channels.set j c } : Query k).Drained i := by
  refine ⟨fun item closed hi => ?_, h.2⟩
  change (s.channels.set j c)[i]? = _ at hi
  by_cases hji : j = i
  · subst hji
    rw [List.getElem?_set_self'] at hi
    cases hs : s.channels[j]? with
    | none =>
      rw [hs] at hi
      cases hi
    | some c' =>
      rw [hs] at hi
      cases hi
      exact hc.elim (fun h => nomatch h) fun h => h rfl
  · rw [List.getElem?_set_ne hji] at hi
    exact h.1 item closed hi

variable (leaf) in
theorem rest_setChannel {i : Nat} {c : Channel k} (hc : s.channels[i]? = some c) (c' : Channel k) :
    ({ s with channels := s.channels.set i c' } : Query k).rest leaf + c.rest = s.rest leaf + c'.rest := by
  have h := List.sum_set_add c'.rest (a := c.rest) (l := s.channels.map Channel.rest) (i := i)
    (by rw [List.getElem?_map, hc, Option.map_some])
  simp only [rest, List.map_set, add_assoc, h]

theorem rest_setTask {i : Nat} {t : Task k} (ht : s.tasks[i]? = some t) (t' : Task k) :
    (s.setTask i t').rest leaf + t.rest leaf = s.rest leaf + t'.rest leaf := by
  have h := List.sum_set_add (t'.rest leaf) (a := t.rest leaf) (l := s.tasks.map (Task.rest leaf)) (i := i)
    (by rw [List.getElem?_map, ht, Option.map_some])
  simp only [rest, setTask, List.map_set]
  rw [add_right_comm, h, add_right_comm]

theorem Intact.setChannel (h : s.Intact) (i : Nat) {c : Channel k} (hc : c.closed = false)
    (hitem : ∀ item ∈ c.buffer, Found item) : ({ s with channels := s.channels.set i c } : Query k).Intact where
  channels := fun x hx => by
    rcases List.mem_or_eq_of_mem_set hx with hx | rfl
    · exact h.channels x hx
    · exact ⟨hc, hitem⟩
  tasks := h.tasks
  stream := h.stream

/-- What is asked for does not count. -/
theorem Turn.of_visit {v : Visit k} {c c' : Option Nat} {r r' : Multiset k.Enr}
    (h : Turn leaf (s.visit v) s' c c' r r') : Turn leaf s s' c c' r r' :=
  ⟨h.rest, h.drained, h.intact, h.tasks, h.stream, h.yielded⟩

theorem Intact.visit (h : s.Intact) (v : Visit k) : (s.visit v).Intact := ⟨h.channels, h.tasks, h.stream⟩

/-- A turn that touches no channel and no task. -/
theorem Turn.idle (h : s.Intact) {c c' : Option Nat} (hc : ∀ i, c = some i → s.Drained i ∨ c' = some i)
    (r : Multiset k.Enr) : Turn leaf s s c c' r r :=
  ⟨rfl, fun i hi => hi.elim .inl (hc i), h, List.prefix_rfl, rfl, rfl⟩

/-- A record is received. -/
theorem Turn.take (h : s.Intact) {i : Nat} {record : k.Enr} {closed : Bool}
    (hi : s.channels[i]? = some ⟨some (.ok record), closed⟩) (r : Multiset k.Enr) :
    Turn leaf s { s with channels := s.channels.set i ⟨none, closed⟩ } (some i) (some i) r ({record} + r) where
  rest := by
    have hrest := rest_setChannel leaf hi ⟨none, closed⟩
    have hnone : (⟨none, closed⟩ : Channel k).rest = 0 := rfl
    have hsome : (⟨some (.ok record), closed⟩ : Channel k).rest = {record} := rfl
    rw [hnone, hsome, add_zero] at hrest
    rw [← add_assoc, hrest]
  drained := fun j hj => hj.imp_left fun hd => hd.setChannel (.inl rfl)
  intact := h.setChannel i (h.channels _ (List.mem_of_getElem? hi)).1 fun _ h => nomatch h
  tasks := List.prefix_rfl
  stream := rfl
  yielded := rfl

variable (leaf) in
/-- A branch is opened, and its channel received from. -/
theorem Turn.opens (h : s.Intact) {c : Option Nat} (hc : ∀ i, c = some i → s.Drained i) (children : List (Child k))
    (r : Multiset k.Enr) : Turn leaf s (s.resolveBranch children).1 c (some s.channels.length)
      ((children.map fun child => leaf (.child child)).sum + r) r where
  rest := by
    have hnew : (children.map fun child => (⟨child, s.channels.length, .fetching⟩ : Task k).rest leaf) =
        children.map fun child => leaf (.child child) := rfl
    have hnone : (⟨none, false⟩ : Channel k).rest = 0 := rfl
    simp only [Query.rest, resolveBranch, List.map_append, List.map_map, Function.comp_def, hnew, List.sum_append,
      List.map_cons, List.map_nil, List.sum_singleton, hnone, add_zero]
    abel
  drained := fun i hi => by
    have hd : s.Drained i := hi.elim id (hc i)
    by_cases hnew : s.channels.length = i
    · exact .inr (congrArg some hnew)
    · refine .inl ⟨fun item closed hitem => hd.1 item closed (getElem?_resolveBranch hitem), fun t ht => ?_⟩
      rcases List.mem_append.1 ht with ht | ht
      · exact hd.2 t ht
      · obtain ⟨child, -, rfl⟩ := List.mem_map.1 ht
        simp [Task.sends, hnew]
  intact :=
    { channels := fun x hx => by
        rcases List.mem_append.1 hx with hx | hx
        · exact h.channels x hx
        · rw [List.mem_singleton.1 hx]
          exact ⟨rfl, by rintro _ ⟨⟩⟩
      tasks := fun t ht => by
        rcases List.mem_append.1 ht with ht | ht
        · exact h.tasks t ht
        · obtain ⟨child, -, rfl⟩ := List.mem_map.1 ht
          trivial
      stream := h.stream }
  tasks := List.prefix_append _ _
  stream := rfl
  yielded := rfl

variable (leaf) in
/-- A record is sent by a task that has not finished. -/
theorem Turn.send (h : s.Intact) {t : Task k} (ht : t ∈ s.tasks) (hp : t.progress ≠ .finished)
    (hout : t.out < s.channels.length) {item : Item k} (hitem : Found item) (hs : s.send t.out item = some s')
    (c : Option Nat) (r : Multiset k.Enr) : Turn leaf s s' c c (itemLeaf item + r) r := by
  have hnot := not_drained ht hp
  obtain ⟨channel, hc⟩ : ∃ channel, s.channels[t.out]? = some channel := ⟨_, List.getElem?_eq_getElem hout⟩
  have hopen := (h.channels _ (List.mem_of_getElem? hc)).1
  unfold Query.send at hs
  split at hs
  · rename_i hempty
    cases hs
    refine ⟨?_, fun i hi => hi.imp_left fun hd => hd.setChannel (.inr fun hi => hnot (hi ▸ hd)),
      h.setChannel _ rfl fun x hx => ?_, List.prefix_rfl, rfl, rfl⟩
    · have hrest := rest_setChannel leaf hempty ⟨some item, false⟩
      have hnone : (⟨none, false⟩ : Channel k).rest = 0 := rfl
      have hsome : (⟨some item, false⟩ : Channel k).rest = itemLeaf item := rfl
      rw [hnone, hsome, add_zero] at hrest
      rw [hrest, add_assoc]
    · cases hx
      exact hitem
  · cases hs
  · rename_i hfree hfull
    obtain ⟨_ | buffered, closed⟩ := channel
    all_goals
      subst hopen
      simp [hc] at hfree hfull

/-- What is received is a record, or the channel is drained. -/
theorem recv_intact (h : s.Intact) {c : Nat} {received : Option (Item k)} (hr : s.recv c = some (s', received)) :
    (received = none ∧ s' = s ∧ s.Drained c) ∨ ∃ record closed, received = some (.ok record) ∧
      s.channels[c]? = some ⟨some (.ok record), closed⟩ ∧
        s' = { s with channels := s.channels.set c ⟨none, closed⟩ } := by
  unfold recv at hr
  split at hr
  · rename_i item closed hc
    cases hr
    obtain ⟨record, rfl⟩ := (h.channels _ (List.mem_of_getElem? hc)).2 item rfl
    exact .inr ⟨record, closed, rfl, hc, rfl⟩
  · rename_i hempty
    split at hr
    · cases hr
    · rename_i hany
      cases hr
      refine .inl ⟨rfl, rfl, hempty, fun t ht => ?_⟩
      rw [List.any_eq_true, not_exists] at hany
      exact Bool.eq_false_iff.2 fun hsends => hany t ⟨ht, hsends⟩

end Query

/-! ## Steps -/

section steps

variable {leaf : Visit k → Multiset k.Enr} {backend : Backend} {q : Tree k} {depth : Nat → Nat} {s s' : Query k}

/-- A poll of a stream is a turn, and answers no error. -/
theorem TreeStream.poll_turn (hcounts : Counts backend q leaf) {stream : TreeStream k} {answer : Poll (TreeStream k) k}
    (hsound : stream.Sound backend q) (hi : stream.Intact) (h : s.Intact)
    (hp : stream.poll backend s = some (s', answer)) :
    Query.Turn leaf s s' stream.channel (answer.stream.bind TreeStream.channel) (stream.rest leaf)
      (answer.rest (TreeStream.rest leaf)) ∧ answer.Intact TreeStream.Intact := by
  cases stream with
  | start t =>
    simp only [TreeStream.poll] at hp
    rcases hcounts.tree t hsound with ⟨hf, hleaf⟩ | ⟨base, hf, hleaf⟩
    · rw [hf] at hp
      cases hp
      rw [TreeStream.rest, hleaf]
      exact ⟨.of_visit (.idle (h.visit _) (by rintro _ ⟨⟩) 0), trivial⟩
    · rw [hf] at hp
      cases hp
      have hturn := Query.Turn.opens leaf (h.visit (.tree t)) (c := none) (by rintro _ ⟨⟩) [t.linkChild base]
        (leaf (.child (t.enrChild base)))
      rw [List.map_singleton, List.sum_singleton, ← hleaf] at hturn
      exact ⟨hturn.of_visit, trivial⟩
  | link c t base =>
    obtain ⟨⟨s₁, received⟩, hr, hanswer⟩ := Option.bind_eq_some_iff.1 hp
    rcases Query.recv_intact h hr with ⟨rfl, rfl, hd⟩ | ⟨record, closed, rfl, hc, rfl⟩ <;> cases hanswer
    · have hturn := Query.Turn.opens leaf h (c := some c) (fun i hi => Option.some.inj hi ▸ hd)
        [t.enrChild base] 0
      rw [List.map_singleton, List.sum_singleton, add_zero] at hturn
      exact ⟨hturn, trivial⟩
    · exact ⟨.take h hc _, ⟨record, rfl⟩, trivial⟩
  | enr c =>
    obtain ⟨⟨s₁, received⟩, hr, hanswer⟩ := Option.bind_eq_some_iff.1 hp
    rcases Query.recv_intact h hr with ⟨rfl, rfl, hd⟩ | ⟨record, closed, rfl, hc, rfl⟩ <;> cases hanswer
    · exact ⟨.idle h (fun i hi => .inl (Option.some.inj hi ▸ hd)) 0, trivial⟩
    · exact ⟨.take h hc _, ⟨record, rfl⟩, trivial⟩
  | failed c => exact hi.elim

/-- The same for a stream that a task forwards. -/
theorem Source.poll_turn (hcounts : Counts backend q leaf) {source : Source k} {answer : Poll (Source k) k}
    (hsound : source.Sound backend q) (hi : source.Intact) (h : s.Intact)
    (hp : source.poll backend s = some (s', answer)) :
    Query.Turn leaf s s' source.channel (answer.stream.bind Source.channel) (source.rest leaf)
      (answer.rest (Source.rest leaf)) ∧ answer.Intact Source.Intact := by
  cases source with
  | branch c =>
    obtain ⟨⟨s₁, received⟩, hr, hanswer⟩ := Option.bind_eq_some_iff.1 hp
    rcases Query.recv_intact h hr with ⟨rfl, rfl, hd⟩ | ⟨record, closed, rfl, hc, rfl⟩ <;> cases hanswer
    · exact ⟨.idle h (fun i hi => .inl (Option.some.inj hi ▸ hd)) 0, trivial⟩
    · exact ⟨.take h hc _, ⟨record, rfl⟩, trivial⟩
  | tree stream =>
    obtain ⟨⟨s₁, answer₁⟩, hstream, hanswer⟩ := Option.bind_eq_some_iff.1 hp
    obtain ⟨hturn, ha⟩ := stream.poll_turn hcounts hsound hi h hstream
    cases answer₁ <;> cases hanswer
    all_goals exact ⟨hturn, ha⟩

namespace Query

/-- A step of a task is a turn, after which it goes on. -/
theorem taskStep_turn (hcounts : Counts backend q leaf) (hwired : s.Wired depth) {i : Nat} {t : Task k}
    (ht : t ∈ s.tasks) (hsound : t.Sound backend q) (h : s.Intact) (hs : s.taskStep backend i t = some s') :
    t.progress ≠ .finished ∧ ∃ s₁ p, s' = s₁.setTask i { t with progress := p } ∧
      ({ t with progress := p } : Task k).Intact ∧
      Turn leaf s s₁ (t.progress.source.bind Source.channel) (p.source.bind Source.channel) (t.rest leaf)
        (({ t with progress := p } : Task k).rest leaf) := by
  obtain ⟨hchild, hp⟩ := hsound
  have hi := h.tasks t ht
  unfold taskStep at hs
  unfold Task.Intact at hi
  cases htp : t.progress with
  | fetching =>
    rw [htp] at hs
    refine ⟨by rintro ⟨⟩, ?_⟩
    have hidle : ∀ r, Turn leaf s (s.visit (.child t.child)) none none r r := fun r =>
      .of_visit (.idle (h.visit _) (by rintro _ ⟨⟩) r)
    have hrest : t.rest leaf = leaf (.child t.child) := by rw [Task.rest, htp]
    rw [hrest]
    rcases hcounts.child t.child hchild with ⟨hf, hleaf⟩ | ⟨record, hf, hleaf⟩ | ⟨children, hf, hleaf⟩ | ⟨t', hf, hleaf⟩
    · simp only [hf, Option.some.injEq] at hs
      rw [hleaf]
      exact ⟨_, _, hs.symm, trivial, hidle 0⟩
    · simp only [hf, Option.some.injEq] at hs
      rw [hleaf]
      exact ⟨_, _, hs.symm, ⟨⟨record, rfl⟩, fun _ h => nomatch h⟩, hidle {record}⟩
    · simp only [hf, Option.some.injEq] at hs
      have hturn := Turn.opens leaf (h.visit (.child t.child)) (c := none) (by rintro _ ⟨⟩)
        (children.map fun h => { t.child with subdomain := h }) 0
      rw [List.map_map, add_zero, Function.comp_def, ← hleaf] at hturn
      exact ⟨_, _, hs.symm, trivial, hturn.of_visit⟩
    · simp only [hf, Option.some.injEq] at hs
      rw [hleaf]
      exact ⟨_, _, hs.symm, trivial, hidle _⟩
  | forwarding source =>
    rw [htp] at hs hp hi
    refine ⟨by rintro ⟨⟩, ?_⟩
    have hrest : t.rest leaf = source.rest leaf := by rw [Task.rest, htp]
    rw [hrest]
    obtain ⟨⟨s₁, answer⟩, hpoll, hs⟩ := Option.bind_eq_some_iff.1 hs
    obtain ⟨hturn, ha⟩ := source.poll_turn hcounts hp hi h hpoll
    rcases answer with source' | ⟨e | record, source'⟩ | _ <;> cases hs
    · exact ⟨_, _, rfl, ha, hturn⟩
    · obtain ⟨⟨_, ⟨⟩⟩, -⟩ := ha
    · refine ⟨_, _, rfl, ⟨⟨record, rfl⟩, fun x hx => ?_⟩, hturn⟩
      cases hx
      exact ha.2
    · exact ⟨_, _, rfl, trivial, hturn⟩
  | sending item source =>
    rw [htp] at hs hi
    have hunfinished : t.progress ≠ .finished := by
      rw [htp]
      rintro ⟨⟩
    refine ⟨by rintro ⟨⟩, ?_⟩
    have hrest : t.rest leaf = itemLeaf item + source.elim 0 (Source.rest leaf) := by rw [Task.rest, htp]
    rw [hrest]
    obtain ⟨s₁, hsend, hs⟩ := Option.bind_eq_some_iff.1 hs
    have hturn := fun c r => Turn.send leaf h ht hunfinished (hwired.out t ht) hi.1 hsend c r
    cases source <;> cases hs
    · exact ⟨_, _, rfl, trivial, hturn _ _⟩
    · exact ⟨_, _, rfl, hi.2 _ rfl, hturn _ _⟩
  | finished =>
    rw [htp] at hs
    cases hs

/-- A channel that a task does not send over stays drained when the task goes on. -/
theorem Drained.setTask {i j : Nat} {t : Task k} (h : s.Drained j) (ht : t ∈ s.tasks) (hp : t.progress ≠ .finished)
    (p : Progress k) : (s.setTask i { t with progress := p }).Drained j := by
  refine ⟨h.1, fun u hu => ?_⟩
  rcases List.mem_or_eq_of_mem_set hu with hu | rfl
  · exact h.2 u hu
  · have hout : t.out ≠ j := fun hout => not_drained ht hp (hout ▸ h)
    simp [Task.sends, hout]

/-- **A step of a task loses no leaf and leaves nothing unattended.** -/
theorem taskStep_complete (hcounts : Counts backend q leaf) (hwired : s.Wired depth) {i : Nat} {t : Task k}
    (ht : s.tasks[i]? = some t) (hsound : t.Sound backend q) (h : s.Intact) (ha : s.Attended)
    (hs : s.taskStep backend i t = some s') :
    s'.Intact ∧ s'.Attended ∧ s'.rest leaf = s.rest leaf ∧ s'.stream = s.stream ∧ s'.yielded = s.yielded := by
  have hmem := List.mem_of_getElem? ht
  obtain ⟨hp, s₁, p, rfl, hi, hturn⟩ := taskStep_turn hcounts hwired hmem hsound h hs
  obtain ⟨new, hnew⟩ := hturn.tasks
  have hlt := (List.getElem?_eq_some_iff.1 ht).1
  have ht₁ : s₁.tasks[i]? = some t := by rw [← hnew, List.getElem?_append_left hlt, ht]
  have hmem₁ := List.mem_of_getElem? ht₁
  have hset : ({ t with progress := p } : Task k) ∈ (s₁.setTask i { t with progress := p }).tasks :=
    List.mem_set (List.getElem?_eq_some_iff.1 ht₁).1 _
  have hdrained : ∀ c, s.Drained c ∨ t.progress.source.bind Source.channel = some c →
      (s₁.setTask i { t with progress := p }).Drained c ∨ ∃ u ∈ (s₁.setTask i { t with progress := p }).tasks,
        u.progress.source.bind Source.channel = some c := fun c hc =>
    (hturn.drained c hc).imp (fun hd => hd.setTask hmem₁ hp p) fun hd => ⟨_, hset, hd⟩
  refine ⟨⟨hturn.intact.channels, fun u hu => ?_, hturn.intact.stream⟩, fun c => ?_, ?_, hturn.stream, hturn.yielded⟩
  · rcases List.mem_or_eq_of_mem_set hu with hu | rfl
    · exact hturn.intact.tasks u hu
    · exact hi
  · rcases ha c with hd | ⟨x, hx, hc⟩ | ⟨u, hu, hc⟩
    · exact (hdrained c (.inl hd)).imp_right .inr
    · exact .inr (.inl ⟨x, hturn.stream.symm ▸ hx, hc⟩)
    · obtain ⟨j, hj⟩ := List.mem_iff_getElem?.1 hu
      by_cases hij : i = j
      · rw [← hij, ht] at hj
        cases hj
        exact (hdrained c (.inr hc)).imp_right .inr
      · refine .inr (.inr ⟨u, List.mem_of_getElem? ((List.getElem?_set_ne hij).trans ?_), hc⟩)
        rw [← hnew, List.getElem?_append_left (List.getElem?_eq_some_iff.1 hj).1, hj]
  · exact add_right_cancel ((rest_setTask ht₁ _).trans hturn.rest)

/-- The stream has not opened the root yet, has yielded some of the leaves of the link subtree, or all of them and some
of those of the ENR subtree. The other ones are left, until it ends. -/
def Phase (leaf : Visit k → Multiset k.Enr) (backend : Backend) (q : Tree k) (s : Query k) : Prop :=
  match s.stream with
  | some (.start t) => t = q ∧ s.yielded = [] ∧ s.rest leaf = 0
  | some (.link _ t base) => t = q ∧ q.find backend = .root base ∧ ∃ l : List k.Enr, s.yielded = l.map .ok ∧
      l + s.rest leaf = leaf (.child (q.linkChild base))
  | some (.enr _) => ∃ base, q.find backend = .root base ∧ ∃ l₁ l₂ : List k.Enr, s.yielded = (l₁ ++ l₂).map .ok ∧
      l₁ = leaf (.child (q.linkChild base)) ∧ l₂ + s.rest leaf = leaf (.child (q.enrChild base))
  | some (.failed _) => False
  | none => (q.find backend = .nothing ∧ s.yielded = []) ∨ ∃ base, q.find backend = .root base ∧
      ∃ l₁ l₂ : List k.Enr, s.yielded = (l₁ ++ l₂).map .ok ∧ l₁ = leaf (.child (q.linkChild base)) ∧
        l₂ = leaf (.child (q.enrChild base))

/-- No error, no channel unattended, and no leaf lost. -/
structure Complete (leaf : Visit k → Multiset k.Enr) (backend : Backend) (q : Tree k) (s : Query k) : Prop where
  intact : s.Intact
  attended : s.Attended
  phase : s.Phase leaf backend q

theorem Complete.start : (Query.start q).Complete leaf backend q where
  intact := ⟨(by rintro _ ⟨⟩), (by rintro _ ⟨⟩), by rintro _ ⟨⟩; trivial⟩
  attended := fun c => .inl ⟨(by rintro _ _ ⟨⟩), by rintro _ ⟨⟩⟩
  phase := ⟨rfl, rfl, rfl⟩

/-- What the stream does leaves nothing unattended. -/
theorem attended_of_turn {stream : TreeStream k} {c : Option Nat} {r r' : Multiset k.Enr} (ha : s.Attended)
    (hstream : s.stream = some stream) (hturn : Turn leaf s s' stream.channel c r r') (i : Nat) :
    s'.Drained i ∨ c = some i ∨ ∃ t ∈ s'.tasks, t.progress.source.bind Source.channel = some i := by
  rcases ha i with hd | ⟨x, hx, hc⟩ | ⟨t, ht, hc⟩
  · exact (hturn.drained i (.inl hd)).imp_right .inl
  · rw [hstream] at hx
    cases hx
    exact (hturn.drained i (.inr hc)).imp_right .inl
  · exact .inr (.inr ⟨t, hturn.tasks.subset ht, hc⟩)

/-- A leaf that is yielded is no longer left. -/
theorem yield_rest {l : List k.Enr} {record : k.Enr} {m m' r total : Multiset k.Enr} (hl : l + m = total)
    (h : m' + ({record} + r) = m + r) : (l ++ [record] : List k.Enr) + m' = total := by
  have hm : m' + {record} = m := add_right_cancel ((add_assoc _ _ _).trans h)
  rw [← hl, ← hm, ← Multiset.coe_add, Multiset.coe_singleton]
  abel

/-- A step of the stream goes on to the next phase, or stays in its own. -/
theorem streamStep_phase (hcounts : Counts backend q leaf) {stream : TreeStream k} (hstream : s.stream = some stream)
    (hsound : stream.Sound backend q) (h : s.Complete leaf backend q)
    (hend : (∀ c ∈ stream.channel, s.Drained c) → s.rest leaf = 0) (hs : s.streamStep backend stream = some s') :
    s'.Phase leaf backend q := by
  obtain ⟨⟨s₁, answer⟩, hpoll, hanswer⟩ := Option.bind_eq_some_iff.1 hs
  have hrest := (stream.poll_turn hcounts hsound (h.intact.stream stream hstream) h.intact hpoll).1.rest
  have hphase := h.phase
  rw [Phase, hstream] at hphase
  cases stream with
  | start t =>
    obtain ⟨rfl, hyielded, -⟩ := hphase
    simp only [TreeStream.poll] at hpoll
    rcases hcounts.tree t hsound with ⟨hf, -⟩ | ⟨base, hf, hleaf⟩
    · rw [hf] at hpoll
      cases hpoll
      cases hanswer
      exact .inl ⟨hf, hyielded⟩
    · rw [hf] at hpoll
      cases hpoll
      cases hanswer
      refine ⟨rfl, hf, [], hyielded, ?_⟩
      simp only [Poll.rest, TreeStream.rest, hend (by rintro _ ⟨⟩), hleaf, zero_add] at hrest
      rw [Multiset.coe_nil, zero_add]
      exact add_right_cancel hrest
  | link c t base =>
    obtain ⟨rfl, hf, l, hyielded, hl⟩ := hphase
    obtain ⟨⟨s₂, received⟩, hr, hpolled⟩ := Option.bind_eq_some_iff.1 hpoll
    rcases recv_intact h.intact hr with ⟨rfl, rfl, hd⟩ | ⟨record, closed, rfl, hc, rfl⟩ <;> cases hpolled <;>
      cases hanswer
    · have hzero := hend fun i hi => Option.some.inj hi ▸ hd
      rw [hzero, add_zero] at hl
      refine ⟨base, hf, l, [], by rw [List.append_nil]; exact hyielded, hl, ?_⟩
      simp only [Poll.rest, TreeStream.rest, hzero, zero_add, add_zero] at hrest
      rw [Multiset.coe_nil, zero_add]
      exact hrest
    · refine ⟨rfl, hf, l ++ [record], by simp [hyielded], yield_rest hl hrest⟩
  | enr c =>
    obtain ⟨base, hf, l₁, l₂, hyielded, hl₁, hl₂⟩ := hphase
    obtain ⟨⟨s₂, received⟩, hr, hpolled⟩ := Option.bind_eq_some_iff.1 hpoll
    rcases recv_intact h.intact hr with ⟨rfl, rfl, hd⟩ | ⟨record, closed, rfl, hc, rfl⟩ <;> cases hpolled <;>
      cases hanswer
    · have hzero := hend fun i hi => Option.some.inj hi ▸ hd
      rw [hzero, add_zero] at hl₂
      exact .inr ⟨base, hf, l₁, l₂, hyielded, hl₁, hl₂⟩
    · refine ⟨base, hf, l₁, l₂ ++ [record], by simp [hyielded], hl₁, yield_rest hl₂ hrest⟩
  | failed c => exact hphase.elim

/-- **A step of the stream keeps the query complete.** -/
theorem streamStep_complete (hcounts : Counts backend q leaf) (hwired : s.Wired depth) {stream : TreeStream k}
    (hstream : s.stream = some stream) (hsound : stream.Sound backend q) (h : s.Complete leaf backend q)
    (hs : s.streamStep backend stream = some s') : s'.Complete leaf backend q := by
  have hphase := streamStep_phase hcounts hstream hsound h (fun hd => rest_of_drained leaf fun c =>
    all_drained hwired h.attended (fun x hx => by
      rw [hstream] at hx
      cases hx
      exact hd) (depth c) rfl) hs
  obtain ⟨⟨s₁, answer⟩, hpoll, hanswer⟩ := Option.bind_eq_some_iff.1 hs
  obtain ⟨hturn, hintact⟩ := stream.poll_turn hcounts hsound (h.intact.stream stream hstream) h.intact hpoll
  have hattended := attended_of_turn h.attended hstream hturn
  rcases answer with stream' | ⟨item, stream'⟩ | _ <;> cases hanswer
  · refine ⟨⟨hturn.intact.channels, hturn.intact.tasks, fun x hx => ?_⟩, fun i => ?_, hphase⟩
    · cases hx
      exact hintact
    · exact (hattended i).imp_right (.imp_left fun hc => ⟨stream', rfl, hc⟩)
  · refine ⟨⟨hturn.intact.channels, hturn.intact.tasks, fun x hx => ?_⟩, fun i => ?_, hphase⟩
    · cases hx
      exact hintact.2
    · exact (hattended i).imp_right (.imp_left fun hc => ⟨stream', rfl, hc⟩)
  · refine ⟨⟨hturn.intact.channels, hturn.intact.tasks, by rintro _ ⟨⟩⟩, fun i => ?_, hphase⟩
    exact (hattended i).imp_right (.imp_left fun hc => nomatch hc)

/-- **Every step keeps the query complete.** -/
theorem step_complete (hcounts : Counts backend q leaf) (hwired : s.Wired depth) {e : Event}
    (hsound : s.Sound backend q) (h : s.Complete leaf backend q) (hs : s.step backend e = some s') :
    s'.Complete leaf backend q := by
  cases e with
  | stream =>
    obtain ⟨stream, hstream, hs⟩ := Option.bind_eq_some_iff.1 hs
    exact streamStep_complete hcounts hwired hstream (hsound.stream stream hstream) h hs
  | task i =>
    obtain ⟨t, ht, hs⟩ := Option.bind_eq_some_iff.1 hs
    obtain ⟨hintact, hattended, hrest, hstream, hyielded⟩ :=
      taskStep_complete hcounts hwired ht (hsound.tasks t (List.mem_of_getElem? ht)) h.intact h.attended hs
    refine ⟨hintact, hattended, ?_⟩
    have hphase := h.phase
    unfold Phase at hphase ⊢
    rw [hstream, hyielded, hrest]
    exact hphase

/-- So does every run. -/
theorem run_complete {price : Visit k → Nat → Nat} (hprice : Priced backend q price) (hcounts : Counts backend q leaf)
    {es : List Event} (hr : Runs.run (step backend) (start q) es = some s) : s.Complete leaf backend q := by
  have hstep : ∀ (s : Query k) (e : Event) (s' : Query k),
      (∃ n, s.Budget backend q price n) ∧ s.Complete leaf backend q → s.step backend e = some s' →
        (∃ n, s'.Budget backend q price n) ∧ s'.Complete leaf backend q := fun s e s' ⟨⟨n, hbudget⟩, hcomplete⟩ hs => by
    obtain ⟨m, -, hbudget'⟩ := step_budget hprice hbudget hs
    obtain ⟨hsound, depth, hwired, -⟩ := hbudget
    exact ⟨⟨m, hbudget'⟩, step_complete hcounts hwired hsound hcomplete hs⟩
  exact (Runs.invariant hstep es ⟨⟨_, Budget.start backend price⟩, .start⟩ hr).2

/-- What has been yielded are records. -/
theorem Complete.found (h : s.Complete leaf backend q) : ∀ item ∈ s.yielded, Found item := by
  have hmap : ∀ l : List k.Enr, ∀ item ∈ l.map Except.ok, Found (k := k) item := fun l item hitem => by
    obtain ⟨record, -, rfl⟩ := List.mem_map.1 hitem
    exact ⟨record, rfl⟩
  have hphase := h.phase
  unfold Phase at hphase
  split at hphase
  · obtain ⟨-, hyielded, -⟩ := hphase
    rw [hyielded]
    rintro _ ⟨⟩
  · obtain ⟨-, -, l, hyielded, -⟩ := hphase
    exact hyielded ▸ hmap l
  · obtain ⟨base, -, l₁, l₂, hyielded, -⟩ := hphase
    exact hyielded ▸ hmap _
  · exact hphase.elim
  · rcases hphase with ⟨-, hyielded⟩ | ⟨base, -, l₁, l₂, hyielded, -⟩
    · rw [hyielded]
      rintro _ ⟨⟩
    · exact hyielded ▸ hmap _

end Query

end steps

/-! ## Runs -/

variable {backend : Backend} {q : Tree k} {s : Query k}

theorem not_seen {seenSequence : Option Nat} {sequence : Nat} (h : ∀ seen ∈ seenSequence, seen < sequence) :
    ¬seenSequence.any (sequence ≤ ·) = true := by
  cases seenSequence with
  | none => exact Bool.false_ne_true
  | some seen => simpa using h seen rfl

/-- **Resolution is complete.** In a finite and well-formed zone where nothing that a query reaches leads back to
itself, the leaves are those that paths of some length find. In every run of the query no error is yielded; the run is
bounded, and where it cannot go on the stream has ended. The stream has then yielded all the leaves, each as often as
there are paths to it, and those of the link subtree of the root before those of its ENR subtree. -/
theorem query_complete (backend : Backend) (q : Tree k)
    (hzone : {name | ∃ text, backend name = .ok (some text)}.Finite)
    (hacyclic : ∀ v, Reached backend q v → ¬Relation.TransGen (fun v w => w ∈ v.next backend) v v)
    (hformed : WellFormed backend q) :
    ∃ n, (∀ m, n ≤ m → ∀ v, Reached backend q v → v.leaves backend m = v.leaves backend n) ∧
      ∀ es s, Runs.run (Query.step backend) (.start q) es = some s →
        es.length ≤ n ∧ ((∀ e, s.step backend e = none) → s.stream = none) ∧ (∀ item ∈ s.yielded, Found item) ∧
        (s.stream = none → ∃ l₁ l₂ : List k.Enr, s.yielded = (l₁ ++ l₂).map .ok ∧
          l₁ + l₂ = (Visit.tree q).leaves backend n ∧
          ∀ record : RootRecord, Serves backend q.host (.root record : DnsRecord k) →
            (∀ seen ∈ q.seenSequence, seen < record.base.sequence) →
            l₁ = (Visit.child (q.linkChild record.base)).leaves backend n ∧
            l₂ = (Visit.child (q.enrChild record.base)).leaves backend n) := by
  obtain ⟨bound, hends⟩ := query_terminates backend q hzone hacyclic
  obtain ⟨length, hstable⟩ := exists_leaves_stable hformed hzone hacyclic
  have hsame : ∀ m, max bound length ≤ m → ∀ v, Reached backend q v →
      v.leaves backend m = v.leaves backend (max bound length) := fun m hm v hv => by
    rw [hstable m ((le_max_right _ _).trans hm) v hv, hstable _ (le_max_right _ _) v hv]
  have hcounts := hformed.counts (n := max bound length) (hsame _ (Nat.le_succ _))
  obtain ⟨price, hprice⟩ := Acyclic.exists_price
    (Acyclic.wellFounded (finite_reached hzone q) hacyclic) fun d => 2 * d + 5
  refine ⟨max bound length, hsame, fun es s hr => ?_⟩
  obtain ⟨hlength, -, hstuck⟩ := hends es s hr
  have hcomplete := Query.run_complete hprice hcounts hr
  refine ⟨hlength.trans (le_max_left _ _), hstuck, hcomplete.found, fun hstream => ?_⟩
  have hphase := hcomplete.phase
  rw [Query.Phase, hstream] at hphase
  rcases hphase with ⟨hf, hyielded⟩ | ⟨base, hf, l₁, l₂, hyielded, hl₁, hl₂⟩
  · refine ⟨[], [], hyielded, ?_, fun record hserves hseen => ?_⟩
    · rcases hcounts.tree q .query with ⟨-, hleaf⟩ | ⟨base, hf', -⟩
      · exact hleaf.symm
      · rw [hf] at hf'
        cases hf'
    · obtain ⟨root, hroot, hverify⟩ := hformed.roots q .query _ hserves
      cases hroot
      rw [Tree.find_of_serves hserves hverify, if_neg (not_seen hseen)] at hf
      cases hf
  · refine ⟨l₁, l₂, hyielded, ?_, fun record hserves hseen => ?_⟩
    · rcases hcounts.tree q .query with ⟨hf', -⟩ | ⟨base', hf', hleaf⟩
      · rw [hf] at hf'
        cases hf'
      · rw [hf] at hf'
        cases hf'
        rw [hleaf, hl₁, hl₂]
    · obtain ⟨root, hroot, hverify⟩ := hformed.roots q .query _ hserves
      cases hroot
      rw [Tree.find_of_serves hserves hverify, if_neg (not_seen hseen)] at hf
      cases hf
      exact ⟨hl₁, hl₂⟩

/-! ## A zone with a link -/

namespace Counts

variable {leaf : Visit k → Multiset k.Enr} (h : Counts backend q leaf)
include h

theorem of_root {t : Tree k} {base : UnsignedRoot} (ht : Reached backend q (.tree t))
    (hf : t.find backend = .root base) :
    leaf (.tree t) = leaf (.child (t.linkChild base)) + leaf (.child (t.enrChild base)) := by
  have ht := h.tree t ht
  simpa [hf] using ht

variable {c : Child k} (hc : Reached backend q (.child c))
include hc

theorem of_nothing (hf : c.find backend = .nothing) : leaf (.child c) = 0 := by
  have hc := h.child c hc
  simpa [hf] using hc

theorem of_enr {record : k.Enr} (hf : c.find backend = .enr record) : leaf (.child c) = {record} := by
  have hc := h.child c hc
  simpa [hf] using hc

theorem of_branch {children : List Base32Hash} (hf : c.find backend = .branch children) :
    leaf (.child c) = (children.map fun h => leaf (.child { c with subdomain := h })).sum := by
  have hc := h.child c hc
  simpa [hf] using hc

theorem of_tree {t : Tree k} (hf : c.find backend = .tree t) : leaf (.child c) = leaf (.tree t) := by
  have hc := h.child c hc
  simpa [hf] using hc

end Counts

/-- The tree that the first link leads to. -/
def linkedTree : Tree exampleCrates := ⟨exampleDomain, some exampleKey, none, some exampleWhitelist⟩

/-- A child of the link subtree of the host. -/
def linkAt (h : Base32Hash) : Child exampleCrates := ⟨exampleHost, h, .link (some exampleWhitelist)⟩

/-- A child of the ENR subtree of the host. -/
def enrAt (h : Base32Hash) : Child exampleCrates := ⟨exampleHost, h, .enr⟩

def hashA : Base32Hash := ⟨['A'], by decide⟩

def hashB : Base32Hash := ⟨['B'], by decide⟩

def hashC : Base32Hash := ⟨['C'], by decide⟩

/-! ### What the records say -/

theorem exampleRecord_verify : exampleRecord.verify exampleCrates exampleKey = true := by
  have htext : exampleBase.display = exampleRoot := by decide +kernel
  simp only [RootRecord.verify, exampleRecord, htext, and_self, decide_true]

/-- What a link says. -/
def DnsRecord.target : DnsRecord k → Option (k.PublicKey × Text)
  | .link publicKey domain => some (publicKey, domain)
  | _ => none

theorem parse_of_target {text : Text} {publicKey : k.PublicKey} {domain : Text}
    (h : (DnsRecord.fromStr k text).toOption.bind DnsRecord.target = some (publicKey, domain)) :
    DnsRecord.fromStr k text = .ok (.link publicKey domain) := by
  cases hparse : DnsRecord.fromStr k text with
  | error e =>
    rw [hparse] at h
    cases h
  | ok record =>
    rw [hparse] at h
    cases record with
    | link =>
      cases h
      rfl
    | _ => cases h

theorem exampleLink_parses : DnsRecord.fromStr exampleCrates exampleLink = .ok (.link exampleKey exampleDomain) :=
  parse_of_target (k := exampleCrates) (by decide +kernel)

theorem foreignLink_parses : DnsRecord.fromStr exampleCrates foreignLink = .ok (.link exampleKey "o".toList) :=
  parse_of_target (k := exampleCrates) (by decide +kernel)

theorem exampleEnr_parses : DnsRecord.fromStr exampleCrates exampleEnr = .ok (.enr exampleEnr) := by
  have hprefix : stripPrefix rootPrefix exampleEnr = none ∧ stripPrefix linkPrefix exampleEnr = none ∧
      stripPrefix branchPrefix exampleEnr = none ∧ enrPrefix.isPrefixOf exampleEnr = true := by decide +kernel
  obtain ⟨hroot, hlink, hbranch, henr⟩ := hprefix
  simp only [DnsRecord.fromStr, hroot, hlink, hbranch, henr, if_true]

theorem linkedRecords_parse : ∀ x ∈ linkedRecords, ∃ record : DnsRecord exampleCrates,
    DnsRecord.fromStr exampleCrates x.2 = .ok record := by
  simp only [linkedRecords, List.forall_mem_cons, List.not_mem_nil, false_imp_iff, implies_true, and_true]
  exact ⟨⟨_, exampleRecord_parses⟩, ⟨_, rfl⟩, ⟨_, exampleLink_parses⟩, ⟨_, foreignLink_parses⟩, ⟨_, rfl⟩,
    ⟨_, exampleEnr_parses⟩, ⟨_, exampleEnr_parses⟩, ⟨_, exampleRecord_parses⟩, ⟨_, exampleEnr_parses⟩⟩

theorem linkedZone_serves {name text : Text} {record : DnsRecord exampleCrates}
    (hlookup : linkedRecords.lookup name = some text) (hparse : DnsRecord.fromStr exampleCrates text = .ok record) :
    Serves linkedZone name record := ⟨text, congrArg Except.ok hlookup, hparse⟩

/-! ### What is found -/

theorem confinedQuery_find : confinedQuery.find linkedZone = .root exampleBase := by
  have hserves : Serves linkedZone confinedQuery.host (.root exampleRecord : DnsRecord exampleCrates) :=
    linkedZone_serves rfl exampleRecord_parses
  have hverify : ∀ pk ∈ confinedQuery.publicKey, exampleRecord.verify exampleCrates pk = true :=
    fun _ h => Option.some.inj h ▸ exampleRecord_verify
  exact Tree.find_of_serves hserves hverify

theorem linkedTree_find : linkedTree.find linkedZone = .root exampleBase := by
  have hserves : Serves linkedZone linkedTree.host (.root exampleRecord : DnsRecord exampleCrates) :=
    linkedZone_serves rfl exampleRecord_parses
  have hverify : ∀ pk ∈ linkedTree.publicKey, exampleRecord.verify exampleCrates pk = true :=
    fun _ h => Option.some.inj h ▸ exampleRecord_verify
  exact Tree.find_of_serves hserves hverify

theorem find_of_missing {c : Child exampleCrates} (h : linkedRecords.lookup c.fqdn = none) :
    c.find linkedZone = .nothing := by
  rw [Child.find, linkedZone, h]

theorem links_find : (linkAt exampleBase.linkRoot).find linkedZone = .branch [hashX, hashY] :=
  have hserves : Serves linkedZone _ (.branch [hashX, hashY] : DnsRecord exampleCrates) := linkedZone_serves rfl rfl
  Child.find_of_serves hserves

theorem linkX_find : (linkAt hashX).find linkedZone = .tree linkedTree := by
  rw [Child.find_of_serves (linkedZone_serves rfl exampleLink_parses)]
  have hallowed : domainIsAllowed (some exampleWhitelist) exampleDomain exampleKey = true := by
    simp only [domainIsAllowed, exampleWhitelist, if_true, decide_true]
  simp only [Child.found, linkAt, hallowed, if_true, linkedTree]

theorem linkY_find : (linkAt hashY).find linkedZone = .nothing := by
  rw [Child.find_of_serves (linkedZone_serves rfl foreignLink_parses)]
  rfl

theorem enrs_find : (enrAt exampleBase.enrRoot).find linkedZone = .branch [hashA, hashB, hashC] :=
  have hserves : Serves linkedZone _ (.branch [hashA, hashB, hashC] : DnsRecord exampleCrates) :=
    linkedZone_serves rfl rfl
  Child.find_of_serves hserves

/-- A child of an ENR subtree with the node record. -/
theorem find_of_enr {c : Child exampleCrates} (hkind : c.kind = .enr)
    (h : linkedRecords.lookup c.fqdn = some exampleEnr) : c.find linkedZone = .enr exampleEnr := by
  rw [Child.find_of_serves (linkedZone_serves h exampleEnr_parses), Child.found, hkind]

theorem linkRoot_find : (linkedTree.linkChild exampleBase).find linkedZone = .nothing := find_of_missing rfl

theorem enrRoot_find : (linkedTree.enrChild exampleBase).find linkedZone = .enr exampleEnr := find_of_enr rfl rfl

theorem enrA_find : (enrAt hashA).find linkedZone = .enr exampleEnr := find_of_enr rfl rfl

theorem enrB_find : (enrAt hashB).find linkedZone = .nothing := find_of_missing rfl

theorem enrC_find : (enrAt hashC).find linkedZone = .enr exampleEnr := find_of_enr rfl rfl

/-! ### What is asked for -/

/-- What a query of the zone asks for. -/
inductive LinkedVisit : Visit exampleCrates → Prop
  | host : LinkedVisit (.tree confinedQuery)
  | links : LinkedVisit (.child (linkAt exampleBase.linkRoot))
  | linkX : LinkedVisit (.child (linkAt hashX))
  | linkY : LinkedVisit (.child (linkAt hashY))
  | domain : LinkedVisit (.tree linkedTree)
  | linkRoot : LinkedVisit (.child (linkedTree.linkChild exampleBase))
  | enrRoot : LinkedVisit (.child (linkedTree.enrChild exampleBase))
  | enrs : LinkedVisit (.child (enrAt exampleBase.enrRoot))
  | enrA : LinkedVisit (.child (enrAt hashA))
  | enrB : LinkedVisit (.child (enrAt hashB))
  | enrC : LinkedVisit (.child (enrAt hashC))

/-- How many records lead to a visit of the zone. -/
def linkedRank : Visit exampleCrates → Nat
  | .tree t => if t.host = exampleHost then 0 else 3
  | .child c =>
    if c.host = exampleDomain then 4
    else if c.subdomain = exampleBase.linkRoot ∨ c.subdomain = exampleBase.enrRoot then 1
    else 2

theorem LinkedVisit.next {v : Visit exampleCrates} (h : LinkedVisit v) :
    ∀ w ∈ v.next linkedZone, LinkedVisit w ∧ linkedRank v < linkedRank w := by
  cases h with
  | host =>
    rw [Visit.next_root confinedQuery_find]
    exact List.forall_mem_cons.2 ⟨⟨.links, by decide⟩, List.forall_mem_singleton.2 ⟨.enrs, by decide⟩⟩
  | links =>
    rw [Visit.next_branch links_find]
    exact List.forall_mem_cons.2 ⟨⟨.linkX, by decide⟩, List.forall_mem_singleton.2 ⟨.linkY, by decide⟩⟩
  | linkX =>
    rw [Visit.next_link linkX_find]
    exact List.forall_mem_singleton.2 ⟨.domain, by decide⟩
  | domain =>
    rw [Visit.next_root linkedTree_find]
    exact List.forall_mem_cons.2 ⟨⟨.linkRoot, by decide⟩, List.forall_mem_singleton.2 ⟨.enrRoot, by decide⟩⟩
  | enrs =>
    rw [Visit.next_branch enrs_find]
    exact List.forall_mem_cons.2 ⟨⟨.enrA, by decide⟩, List.forall_mem_cons.2 ⟨⟨.enrB, by decide⟩,
      List.forall_mem_singleton.2 ⟨.enrC, by decide⟩⟩⟩
  | linkY =>
    rw [Visit.next_nothing linkY_find]
    rintro _ ⟨⟩
  | linkRoot =>
    rw [Visit.next_nothing linkRoot_find]
    rintro _ ⟨⟩
  | enrRoot =>
    rw [Visit.next_enr enrRoot_find]
    rintro _ ⟨⟩
  | enrA =>
    rw [Visit.next_enr enrA_find]
    rintro _ ⟨⟩
  | enrB =>
    rw [Visit.next_nothing enrB_find]
    rintro _ ⟨⟩
  | enrC =>
    rw [Visit.next_enr enrC_find]
    rintro _ ⟨⟩

theorem linkedZone_reached {v : Visit exampleCrates} (h : Reached linkedZone confinedQuery v) : LinkedVisit v :=
  h.known .host (fun _ hv w hw => (hv.next w hw).1) fun t ht => by cases ht <;> rfl

theorem linkedZone_acyclic (v : Visit exampleCrates) (h : Reached linkedZone confinedQuery v) :
    ¬Relation.TransGen (fun v w => w ∈ v.next linkedZone) v v :=
  Acyclic.of_rank linkedRank (fun _ hv w hw => (LinkedVisit.next hv w hw).1)
    (fun _ hv w hw => (LinkedVisit.next hv w hw).2) v (linkedZone_reached h)

theorem mem_of_lookup {name text : Text} (h : linkedZone name = .ok (some text)) : (name, text) ∈ linkedRecords := by
  obtain ⟨before, after, hsplit, -⟩ := List.lookup_eq_some_iff.1 (Except.ok.inj h)
  rw [hsplit]
  exact List.mem_append_right _ (.head _)

theorem linkedZone_finite : {name | ∃ text, linkedZone name = .ok (some text)}.Finite := by
  refine (List.finite_toSet (linkedRecords.map (·.1))).subset ?_
  rintro name ⟨text, htext⟩
  exact List.mem_map.2 ⟨_, mem_of_lookup htext, rfl⟩

theorem linkedZone_formed : WellFormed linkedZone confinedQuery := by
  refine .of_known (fun _ => linkedZone_reached) (fun _ _ => by rintro ⟨⟩)
    (fun name text h => linkedRecords_parse (name, text) (mem_of_lookup h)) (fun t ht => ?_) fun c hc e he => ?_
  · cases ht with
    | host => exact ⟨_, confinedQuery_find⟩
    | domain => exact ⟨_, linkedTree_find⟩
  · cases hc with
    | links => cases links_find.symm.trans he
    | linkX => cases linkX_find.symm.trans he
    | linkY => cases linkY_find.symm.trans he
    | linkRoot => cases linkRoot_find.symm.trans he
    | enrRoot => cases enrRoot_find.symm.trans he
    | enrs => cases enrs_find.symm.trans he
    | enrA => cases enrA_find.symm.trans he
    | enrB => cases enrB_find.symm.trans he
    | enrC => cases enrC_find.symm.trans he

/-! ### The leaves -/

theorem LinkedVisit.reached {v : Visit exampleCrates} (h : LinkedVisit v) : Reached linkedZone confinedQuery v := by
  have hlinks : Reached linkedZone confinedQuery (.child (linkAt exampleBase.linkRoot)) :=
    Reached.query.next (by rw [Visit.next_root confinedQuery_find]; exact .head _)
  have hdomain : Reached linkedZone confinedQuery (.tree linkedTree) :=
    (hlinks.next (by rw [Visit.next_branch links_find]; exact .head _) :
      Reached linkedZone confinedQuery (.child (linkAt hashX))).next (by rw [Visit.next_link linkX_find]; exact .head _)
  have henrs : Reached linkedZone confinedQuery (.child (enrAt exampleBase.enrRoot)) :=
    Reached.query.next (by rw [Visit.next_root confinedQuery_find]; exact .tail _ (.head _))
  have hbranch : ∀ h ∈ [hashA, hashB, hashC], Reached linkedZone confinedQuery (.child (enrAt h)) := fun h hh =>
    henrs.next (by rw [Visit.next_branch enrs_find]; exact List.mem_map_of_mem hh)
  cases h with
  | host => exact .query
  | links => exact hlinks
  | linkX => exact hlinks.next (by rw [Visit.next_branch links_find]; exact .head _)
  | linkY => exact hlinks.next (by rw [Visit.next_branch links_find]; exact .tail _ (.head _))
  | domain => exact hdomain
  | linkRoot => exact hdomain.next (by rw [Visit.next_root linkedTree_find]; exact .head _)
  | enrRoot => exact hdomain.next (by rw [Visit.next_root linkedTree_find]; exact .tail _ (.head _))
  | enrs => exact henrs
  | enrA => exact hbranch _ (.head _)
  | enrB => exact hbranch _ (.tail _ (.head _))
  | enrC => exact hbranch _ (.tail _ (.tail _ (.head _)))

/-- The node record is found behind the link, and twice under the branch of node records. -/
theorem linkedZone_leaves {leaf : Visit exampleCrates → Multiset Text} (h : Counts linkedZone confinedQuery leaf) :
    leaf (.tree confinedQuery) = {exampleEnr, exampleEnr, exampleEnr} := by
  have hlinks : leaf (.child (linkAt exampleBase.linkRoot)) = {exampleEnr} := calc
    _ = leaf (.child (linkAt hashX)) + (leaf (.child (linkAt hashY)) + 0) :=
      h.of_branch LinkedVisit.links.reached links_find
    _ = leaf (.tree linkedTree) := by
      rw [h.of_tree LinkedVisit.linkX.reached linkX_find, h.of_nothing LinkedVisit.linkY.reached linkY_find, add_zero,
        add_zero]
    _ = {exampleEnr} := by
      rw [h.of_root LinkedVisit.domain.reached linkedTree_find, h.of_nothing LinkedVisit.linkRoot.reached linkRoot_find,
        h.of_enr LinkedVisit.enrRoot.reached enrRoot_find, zero_add]
  have henrs : leaf (.child (enrAt exampleBase.enrRoot)) = {exampleEnr, exampleEnr} := calc
    _ = leaf (.child (enrAt hashA)) + (leaf (.child (enrAt hashB)) + (leaf (.child (enrAt hashC)) + 0)) :=
      h.of_branch LinkedVisit.enrs.reached enrs_find
    _ = {exampleEnr, exampleEnr} := by
      rw [h.of_enr LinkedVisit.enrA.reached enrA_find, h.of_nothing LinkedVisit.enrB.reached enrB_find,
        h.of_enr LinkedVisit.enrC.reached enrC_find, zero_add, add_zero]
      rfl
  calc
    _ = leaf (.child (linkAt exampleBase.linkRoot)) + leaf (.child (enrAt exampleBase.enrRoot)) :=
      h.of_root .query confinedQuery_find
    _ = {exampleEnr, exampleEnr, exampleEnr} := by
      rw [hlinks, henrs]
      rfl

/-- The three leaves of the zone are what a query yields that comes to its end. -/
theorem linkedZone_complete : ∃ n, ∀ es s, Runs.run (Query.step linkedZone) (.start confinedQuery) es = some s →
    es.length ≤ n ∧ ((∀ e, s.step linkedZone e = none) → s.stream = none) ∧
      (s.stream = none → s.yielded = [.ok exampleEnr, .ok exampleEnr, .ok exampleEnr]) := by
  obtain ⟨n, hstable, hcomplete⟩ := query_complete linkedZone confinedQuery linkedZone_finite linkedZone_acyclic
    linkedZone_formed
  refine ⟨n, fun es s hr => ?_⟩
  obtain ⟨hlength, hstuck, -, hleaves⟩ := hcomplete es s hr
  refine ⟨hlength, hstuck, fun hend => ?_⟩
  obtain ⟨l₁, l₂, hyielded, hl, -⟩ := hleaves hend
  have hcounts := linkedZone_formed.counts (n := n) (hstable _ (Nat.le_succ _))
  have hthree : ((l₁ ++ l₂ : List Text) : Multiset Text) = ↑[exampleEnr, exampleEnr, exampleEnr] := by
    rw [← Multiset.coe_add, hl]
    exact linkedZone_leaves hcounts
  rw [hyielded, List.perm_replicate (n := 3).1 (Multiset.coe_eq_coe.1 hthree)]
  rfl

end Dnsdisc

end EthereumSentry
