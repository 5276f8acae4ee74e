import EthereumSentry.Dnsdisc.Resolve
import EthereumSentry.Lib.Crypto

/-!
# What a query reaches

A query asks for no record but those that are named, from the root on, by records it has asked for (`Reached`), and an
item that it yields is the ENR record at such a name. `query_reached` says so for every run. Nothing compares the text
of a record with the name it was asked for: `forged_record` is a run that yields a record below a branch whose text does
not hash to its name.
-/

set_option autoImplicit false

namespace EthereumSentry

namespace Dnsdisc

variable {k : EnrCrates}

/-- A name has a record. -/
def Serves (backend : Backend) (name : Text) (record : DnsRecord k) : Prop :=
  ∃ text, backend name = .ok (some text) ∧ DnsRecord.fromStr k text = .ok record

/-- The records that a query may ask for: that of its tree, the two subtrees of a verified root, the children of a
branch, and the tree of a link that is allowed. -/
inductive Reached (backend : Backend) (q : Tree k) : Visit k → Prop where
  | query : Reached backend q (.tree q)
  | link {t : Tree k} {record : RootRecord} : Reached backend q (.tree t) →
      Serves backend t.host (.root record : DnsRecord k) → (∀ pk ∈ t.publicKey, record.verify k pk = true) →
      Reached backend q (.child (t.linkChild record.base))
  | enr {t : Tree k} {record : RootRecord} : Reached backend q (.tree t) →
      Serves backend t.host (.root record : DnsRecord k) → (∀ pk ∈ t.publicKey, record.verify k pk = true) →
      Reached backend q (.child (t.enrChild record.base))
  | branch {c : Child k} {children : List Base32Hash} {h : Base32Hash} : Reached backend q (.child c) →
      Serves backend c.fqdn (.branch children : DnsRecord k) → h ∈ children →
      Reached backend q (.child { c with subdomain := h })
  | tree {c : Child k} {remoteWhitelist : Option (Whitelist k)} {publicKey : k.PublicKey} {domain : Text} :
      Reached backend q (.child c) → c.kind = .link remoteWhitelist → Serves backend c.fqdn (.link publicKey domain) →
      domainIsAllowed remoteWhitelist domain publicKey = true →
      Reached backend q (.tree ⟨domain, some publicKey, none, remoteWhitelist⟩)

/-- What is asked for because of a record. -/
def Visit.next (backend : Backend) : Visit k → List (Visit k)
  | .tree t => match t.find backend with
    | .root base => [.child (t.linkChild base), .child (t.enrChild base)]
    | _ => []
  | .child c => match c.find backend with
    | .branch children => children.map fun h => .child { c with subdomain := h }
    | .tree t => [.tree t]
    | _ => []

variable {backend : Backend}

namespace Visit

theorem next_root {t : Tree k} {base : UnsignedRoot} (h : t.find backend = .root base) :
    (tree t).next backend = [.child (t.linkChild base), .child (t.enrChild base)] := by
  simp only [next, h]

variable {c : Child k}

theorem next_branch {children : List Base32Hash} (h : c.find backend = .branch children) :
    (child c).next backend = children.map fun h => .child { c with subdomain := h } := by
  simp only [next, h]

theorem next_link {t : Tree k} (h : c.find backend = .tree t) : (child c).next backend = [.tree t] := by
  simp only [next, h]

theorem next_enr {record : k.Enr} (h : c.find backend = .enr record) : (child c).next backend = [] := by
  simp only [next, h]

theorem next_nothing (h : c.find backend = .nothing) : (child c).next backend = [] := by
  simp only [next, h]

end Visit

/-! ## What is found -/

theorem Tree.find_root {t : Tree k} {base : UnsignedRoot} (h : t.find backend = .root base) :
    ∃ record : RootRecord, Serves backend t.host (.root record : DnsRecord k) ∧
      (∀ pk ∈ t.publicKey, record.verify k pk = true) ∧ record.base = base := by
  unfold Tree.find at h
  split at h
  · cases h
  · cases h
  · rename_i text htext
    split at h
    · cases h
    · rename_i record hrecord
      split at h
      · cases h
      · rename_i hverify
        split at h <;> cases h
        refine ⟨record, ⟨text, htext, hrecord⟩, fun pk hpk => ?_, rfl⟩
        rw [hpk] at hverify
        simpa using hverify
    · cases h

/-- What is found for a child comes from a record that is served for it. -/
theorem Child.find_spec (backend : Backend) (c : Child k) : match c.find backend with
    | .branch children => Serves backend c.fqdn (.branch children : DnsRecord k)
    | .enr record => c.kind = .enr ∧ Serves backend c.fqdn (.enr record)
    | .tree t => ∃ remoteWhitelist publicKey, c.kind = .link remoteWhitelist ∧
        Serves backend c.fqdn (.link publicKey t.host) ∧ domainIsAllowed remoteWhitelist t.host publicKey = true ∧
        t = ⟨t.host, some publicKey, none, remoteWhitelist⟩
    | _ => True := by
  unfold Child.find
  cases htext : backend c.fqdn with
  | error e => trivial
  | ok text =>
    cases text with
    | none => trivial
    | some text =>
      dsimp only
      cases hrecord : DnsRecord.fromStr k text with
      | error e => trivial
      | ok record =>
        have hserves : Serves backend c.fqdn record := ⟨text, htext, hrecord⟩
        cases record with
        | root record => trivial
        | branch children => exact hserves
        | link publicKey domain =>
          cases hkind : c.kind with
          | enr => trivial
          | link remoteWhitelist =>
            by_cases hallowed : domainIsAllowed remoteWhitelist domain publicKey = true
            · simp only [if_pos hallowed]
              exact ⟨remoteWhitelist, publicKey, rfl, hserves, hallowed, rfl⟩
            · simp only [if_neg hallowed]
        | enr record =>
          cases hkind : c.kind with
          | enr => exact ⟨rfl, hserves⟩
          | link remoteWhitelist => trivial

theorem Child.find_branch {c : Child k} {children : List Base32Hash} (h : c.find backend = .branch children) :
    Serves backend c.fqdn (.branch children : DnsRecord k) := by
  have hspec := c.find_spec backend
  rwa [h] at hspec

theorem Child.find_tree {c : Child k} {t : Tree k} (h : c.find backend = .tree t) :
    ∃ remoteWhitelist publicKey, c.kind = .link remoteWhitelist ∧ Serves backend c.fqdn (.link publicKey t.host) ∧
      domainIsAllowed remoteWhitelist t.host publicKey = true ∧ t = ⟨t.host, some publicKey, none, remoteWhitelist⟩ := by
  have hspec := c.find_spec backend
  rwa [h] at hspec

theorem Child.find_enr {c : Child k} {record : k.Enr} (h : c.find backend = .enr record) :
    c.kind = .enr ∧ Serves backend c.fqdn (.enr record) := by
  have hspec := c.find_spec backend
  rwa [h] at hspec

variable {q : Tree k}

/-- What is asked for because of a record that is reached is reached. -/
theorem Reached.next {v w : Visit k} (hv : Reached backend q v) (hw : w ∈ v.next backend) : Reached backend q w := by
  cases v with
  | tree t =>
    cases hf : t.find backend with
    | root base =>
      obtain ⟨record, hserves, hverify, rfl⟩ := Tree.find_root hf
      simp only [Visit.next, hf, List.mem_cons, List.not_mem_nil, or_false] at hw
      rcases hw with rfl | rfl
      · exact .link hv hserves hverify
      · exact .enr hv hserves hverify
    | _ => simp [Visit.next, hf] at hw
  | child c =>
    cases hf : c.find backend with
    | branch children =>
      simp only [Visit.next, hf, List.mem_map] at hw
      obtain ⟨h, hh, rfl⟩ := hw
      exact .branch hv (Child.find_branch hf) hh
    | tree t =>
      simp only [Visit.next, hf, List.mem_singleton] at hw
      obtain ⟨remoteWhitelist, publicKey, hkind, hserves, hallowed, ht⟩ := Child.find_tree hf
      rw [hw, ht]
      exact .tree hv hkind hserves hallowed
    | _ => simp [Visit.next, hf] at hw

/-- The root of the query is verified before anything below it is asked for. -/
theorem Reached.verified {v : Visit k} (hv : Reached backend q v) : v = .tree q ∨ ∃ record : RootRecord,
    Serves backend q.host (.root record : DnsRecord k) ∧ ∀ pk ∈ q.publicKey, record.verify k pk = true := by
  induction hv with
  | query => exact .inl rfl
  | @link t record _ hserves hverify ih | @enr t record _ hserves hverify ih =>
    rcases ih with ih | ih
    · cases ih
      exact .inr ⟨record, hserves, hverify⟩
    · exact .inr ih
  | branch _ _ _ ih | tree _ _ _ _ ih =>
    rcases ih with ih | ih
    · cases ih
    · exact .inr ih

/-! ## The invariant -/

/-- An item is an error, or the record of a child of an ENR subtree. -/
def Genuine (backend : Backend) (q : Tree k) (item : Item k) : Prop :=
  ∀ record, item = .ok record → ∃ c : Child k, Reached backend q (.child c) ∧ c.kind = .enr ∧
    Serves backend c.fqdn (.enr record)

/-- What a stream has yet to ask for is reached. -/
def TreeStream.Sound (backend : Backend) (q : Tree k) : TreeStream k → Prop
  | .start t => Reached backend q (.tree t)
  | .link _ t base => Reached backend q (.child (t.enrChild base))
  | _ => True

def Source.Sound (backend : Backend) (q : Tree k) : Source k → Prop
  | .branch _ => True
  | .tree stream => stream.Sound backend q

/-- A task is there for a child that is reached, and what it sends is genuine. -/
def Task.Sound (backend : Backend) (q : Tree k) (t : Task k) : Prop :=
  Reached backend q (.child t.child) ∧ match t.progress with
    | .forwarding source => source.Sound backend q
    | .sending item source => Genuine backend q item ∧ ∀ x ∈ source, x.Sound backend q
    | _ => True

def Poll.Sound {α : Type} (P : α → Prop) (backend : Backend) (q : Tree k) : Poll α k → Prop
  | .running stream => P stream
  | .ready item stream => Genuine backend q item ∧ P stream
  | .ended => True

/-- What is asked for is reached, and what is on its way or has been yielded is genuine. -/
structure Query.Sound (backend : Backend) (q : Tree k) (s : Query k) : Prop where
  visited : ∀ v ∈ s.visited, Reached backend q v
  tasks : ∀ t ∈ s.tasks, t.Sound backend q
  channels : ∀ c ∈ s.channels, ∀ item ∈ c.buffer, Genuine backend q item
  stream : ∀ x ∈ s.stream, x.Sound backend q
  yielded : ∀ item ∈ s.yielded, Genuine backend q item

theorem genuine_error (e : DnsError k) : Genuine backend q (.error e) := fun _ h => nomatch h

namespace Query

variable {s s' : Query k}

theorem Sound.start : (Query.start q).Sound backend q where
  visited := fun _ h => nomatch h
  tasks := fun _ h => nomatch h
  channels := fun _ h => nomatch h
  stream := fun x h => by
    cases h
    exact .query
  yielded := fun _ h => nomatch h

theorem Sound.visit (h : s.Sound backend q) {v : Visit k} (hv : Reached backend q v) : (s.visit v).Sound backend q where
  visited := fun w hw => by
    rcases List.mem_append.1 hw with hw | hw
    · exact h.visited w hw
    · rw [List.mem_singleton.1 hw]
      exact hv
  tasks := h.tasks
  channels := h.channels
  stream := h.stream
  yielded := h.yielded

theorem Sound.setTask (h : s.Sound backend q) {i : Nat} {t : Task k} (ht : t.Sound backend q) :
    (s.setTask i t).Sound backend q where
  visited := h.visited
  tasks := fun x hx => by
    rcases List.mem_or_eq_of_mem_set hx with hx | rfl
    · exact h.tasks x hx
    · exact ht
  channels := h.channels
  stream := h.stream
  yielded := h.yielded

theorem Sound.resolveBranch (h : s.Sound backend q) {children : List (Child k)}
    (hc : ∀ c ∈ children, Reached backend q (.child c)) : (s.resolveBranch children).1.Sound backend q where
  visited := h.visited
  tasks := fun t ht => by
    rcases List.mem_append.1 ht with ht | ht
    · exact h.tasks t ht
    · obtain ⟨c, hmem, rfl⟩ := List.mem_map.1 ht
      exact ⟨hc c hmem, trivial⟩
  channels := fun c hmem => by
    rcases List.mem_append.1 hmem with hmem | hmem
    · exact h.channels c hmem
    · rw [List.mem_singleton.1 hmem]
      exact fun _ h => nomatch h
  stream := h.stream
  yielded := h.yielded

/-- What is put into a channel is genuine. -/
theorem Sound.setChannel (h : s.Sound backend q) (i : Nat) {c : Channel k}
    (hc : ∀ item ∈ c.buffer, Genuine backend q item) :
    ({ s with channels := s.channels.set i c } : Query k).Sound backend q where
  visited := h.visited
  tasks := h.tasks
  channels := fun x hx => by
    rcases List.mem_or_eq_of_mem_set hx with hx | rfl
    · exact h.channels x hx
    · exact hc
  stream := h.stream
  yielded := h.yielded

theorem Sound.close (h : s.Sound backend q) (c : Nat) : (s.close c).Sound backend q :=
  h.setChannel c fun _ h => nomatch h

theorem Sound.recv (h : s.Sound backend q) {c : Nat} {received : Option (Item k)}
    (hr : s.recv c = some (s', received)) : s'.Sound backend q ∧ ∀ item ∈ received, Genuine backend q item := by
  unfold Query.recv at hr
  split at hr
  · rename_i item closed hc
    cases hr
    refine ⟨h.setChannel c (fun _ h => nomatch h), fun x hx => ?_⟩
    cases hx
    exact h.channels _ (List.mem_of_getElem? hc) item rfl
  · split at hr <;> cases hr
    exact ⟨h, fun _ h => nomatch h⟩

theorem Sound.send (h : s.Sound backend q) {c : Nat} {item : Item k} (hi : Genuine backend q item)
    (hs : s.send c item = some s') : s'.Sound backend q := by
  unfold Query.send at hs
  split at hs
  · cases hs
    refine h.setChannel c fun x hx => ?_
    cases hx
    exact hi
  · cases hs
  · cases hs
    exact h

theorem Sound.dropSource (h : s.Sound backend q) (source : Source k) : (s.dropSource source).Sound backend q := by
  unfold Query.dropSource
  cases source.channel with
  | none => exact h
  | some c => exact h.close c

end Query

/-! ## Steps -/

variable {s s' : Query k}

theorem TreeStream.poll_sound {stream : TreeStream k} {answer : Poll (TreeStream k) k} (h : s.Sound backend q)
    (hs : stream.Sound backend q) (hp : stream.poll backend s = some (s', answer)) :
    s'.Sound backend q ∧ answer.Sound (TreeStream.Sound backend q) backend q := by
  cases stream with
  | start t =>
    have h := h.visit hs
    simp only [TreeStream.poll] at hp
    cases hf : t.find backend with
    | nothing =>
      rw [hf] at hp
      cases hp
      exact ⟨h, trivial⟩
    | failed e =>
      rw [hf] at hp
      cases hp
      exact ⟨h, genuine_error e, trivial⟩
    | root base =>
      rw [hf] at hp
      cases hp
      have hnext : ∀ w ∈ (Visit.tree t).next backend, Reached backend q w := fun w => hs.next
      simp only [Visit.next, hf, List.forall_mem_cons] at hnext
      exact ⟨h.resolveBranch (List.forall_mem_singleton.2 hnext.1), hnext.2.1⟩
  | link c t base =>
    obtain ⟨⟨s₁, received⟩, hr, hp⟩ := Option.bind_eq_some_iff.1 hp
    obtain ⟨h, hi⟩ := h.recv hr
    rcases received with _ | e | record <;> cases hp
    · exact ⟨h.resolveBranch (List.forall_mem_singleton.2 hs), trivial⟩
    · exact ⟨h, genuine_error e, trivial⟩
    · exact ⟨h, hi _ rfl, hs⟩
  | enr c =>
    obtain ⟨⟨s₁, received⟩, hr, hp⟩ := Option.bind_eq_some_iff.1 hp
    obtain ⟨h, hi⟩ := h.recv hr
    rcases received with _ | e | record <;> cases hp
    · exact ⟨h, trivial⟩
    · exact ⟨h, genuine_error e, trivial⟩
    · exact ⟨h, hi _ rfl, trivial⟩
  | failed c =>
    cases c <;> cases hp
    · exact ⟨h, trivial⟩
    · exact ⟨h.close _, trivial⟩

theorem Source.poll_sound {source : Source k} {answer : Poll (Source k) k} (h : s.Sound backend q)
    (hs : source.Sound backend q) (hp : source.poll backend s = some (s', answer)) :
    s'.Sound backend q ∧ answer.Sound (Source.Sound backend q) backend q := by
  cases source with
  | branch c =>
    obtain ⟨⟨s₁, received⟩, hr, hp⟩ := Option.bind_eq_some_iff.1 hp
    obtain ⟨h, hi⟩ := h.recv hr
    cases received <;> cases hp
    · exact ⟨h, trivial⟩
    · exact ⟨h, hi _ rfl, trivial⟩
  | tree stream =>
    obtain ⟨⟨s₁, answer₁⟩, hstream, hp⟩ := Option.bind_eq_some_iff.1 hp
    obtain ⟨h, ha⟩ := stream.poll_sound h hs hstream
    cases answer₁ <;> cases hp
    all_goals exact ⟨h, ha⟩

namespace Query

theorem taskStep_sound {i : Nat} {t : Task k} (h : s.Sound backend q) (ht : t.Sound backend q)
    (hs : s.taskStep backend i t = some s') : s'.Sound backend q := by
  obtain ⟨hchild, hp⟩ := ht
  unfold taskStep at hs
  cases htp : t.progress with
  | fetching =>
    rw [htp] at hs
    have h := h.visit hchild
    have hnext : ∀ w ∈ (Visit.child t.child).next backend, Reached backend q w := fun w => hchild.next
    cases hf : t.child.find backend with
    | nothing =>
      simp only [hf, Option.some.injEq] at hs
      subst hs
      exact h.setTask ⟨hchild, trivial⟩
    | failed e =>
      simp only [hf, Option.some.injEq] at hs
      subst hs
      exact h.setTask ⟨hchild, genuine_error e, fun _ h => nomatch h⟩
    | enr record =>
      simp only [hf, Option.some.injEq] at hs
      subst hs
      refine h.setTask ⟨hchild, fun r hr => ?_, fun _ h => nomatch h⟩
      cases hr
      exact ⟨t.child, hchild, Child.find_enr hf⟩
    | branch children =>
      simp only [hf, Option.some.injEq] at hs
      subst hs
      simp only [Visit.next, hf, List.forall_mem_map] at hnext
      exact (h.resolveBranch (List.forall_mem_map.2 hnext)).setTask ⟨hchild, trivial⟩
    | tree t' =>
      simp only [hf, Option.some.injEq] at hs
      subst hs
      simp only [Visit.next, hf, List.forall_mem_singleton] at hnext
      exact h.setTask ⟨hchild, hnext⟩
  | forwarding source =>
    rw [htp] at hs hp
    obtain ⟨⟨s₁, answer⟩, hpoll, hs⟩ := Option.bind_eq_some_iff.1 hs
    obtain ⟨h, ha⟩ := source.poll_sound h hp hpoll
    rcases answer with source | ⟨e | record, source⟩ | _ <;> cases hs
    · exact h.setTask ⟨hchild, ha⟩
    · exact (h.dropSource source).setTask ⟨hchild, genuine_error e, fun _ h => nomatch h⟩
    · refine h.setTask ⟨hchild, ha.1, fun x hx => ?_⟩
      cases hx
      exact ha.2
    · exact h.setTask ⟨hchild, trivial⟩
  | sending item source =>
    rw [htp] at hs hp
    obtain ⟨s₁, hsend, hs⟩ := Option.bind_eq_some_iff.1 hs
    have h := h.send hp.1 hsend
    cases source <;> cases hs
    · exact h.setTask ⟨hchild, trivial⟩
    · exact h.setTask ⟨hchild, hp.2 _ rfl⟩
  | finished =>
    rw [htp] at hs
    cases hs

theorem streamStep_sound {stream : TreeStream k} (h : s.Sound backend q) (hstream : stream.Sound backend q)
    (hs : s.streamStep backend stream = some s') : s'.Sound backend q := by
  obtain ⟨⟨s₁, answer⟩, hpoll, hs⟩ := Option.bind_eq_some_iff.1 hs
  obtain ⟨h, ha⟩ := stream.poll_sound h hstream hpoll
  rcases answer with stream | ⟨item, stream⟩ | _ <;> cases hs
  · exact { h with stream := fun x hx => by cases hx; exact ha }
  · refine { h with stream := fun x hx => by cases hx; exact ha.2, yielded := fun x hx => ?_ }
    rcases List.mem_append.1 hx with hx | hx
    · exact h.yielded x hx
    · rw [List.mem_singleton.1 hx]
      exact ha.1
  · exact { h with stream := fun _ hx => nomatch hx }

/-- A step keeps what is asked for reached, and what is yielded genuine. -/
theorem step_sound {e : Event} (h : s.Sound backend q) (hs : s.step backend e = some s') : s'.Sound backend q := by
  cases e with
  | stream =>
    obtain ⟨stream, hx, hs⟩ := Option.bind_eq_some_iff.1 hs
    exact streamStep_sound h (h.stream stream hx) hs
  | task i =>
    obtain ⟨t, ht, hs⟩ := Option.bind_eq_some_iff.1 hs
    exact taskStep_sound h (h.tasks t (List.mem_of_getElem? ht)) hs

/-- So does a run. -/
theorem run_sound {es : List Event} (hr : Runs.run (step backend) (start q) es = some s) : s.Sound backend q :=
  Runs.invariant (fun _ _ _ h hs => step_sound h hs) es Sound.start hr

end Query

/-- **What a query asks for is named, from a verified root on.** Whatever the backend serves, in every run the records
asked for are reached from the query, and if one of them is below the root, the root is verified with the key of the
query; the records yielded are those of children of ENR subtrees that are reached. -/
theorem query_reached (backend : Backend) (q : Tree k) (es : List Event)
    (hr : Runs.run (Query.step backend) (.start q) es = some s) :
    (∀ v ∈ s.visited, Reached backend q v ∧ (v = .tree q ∨ ∃ record : RootRecord,
      Serves backend q.host (.root record : DnsRecord k) ∧ ∀ pk ∈ q.publicKey, record.verify k pk = true)) ∧
    ∀ record, .ok record ∈ s.yielded → ∃ c : Child k, Reached backend q (.child c) ∧ c.kind = .enr ∧
      Serves backend c.fqdn (.enr record) := by
  have h := Query.run_sound hr
  exact ⟨fun v hv => ⟨h.visited v hv, (h.visited v hv).verified⟩, fun record hy => h.yielded _ hy record rfl⟩

/-! ## A forged record -/

def exampleHost : Text := "n".toList

/-- The key of the link "enrtree://AKPYQIUQIL7PSIACI32J7FGZW56E5FKHEFCCOFHILBIMW3M6LWXS2@n". -/
def exampleKey : Bytes :=
  (BaseN.decode 5 BaseN.base32 "AKPYQIUQIL7PSIACI32J7FGZW56E5FKHEFCCOFHILBIMW3M6LWXS2".toList).getD []

/-- What the root of the example signs. -/
def exampleRoot : Text := "enrtree-root:v1 e=INDMVBZEEQ4ESVYAKGIYU74EAA l=C7HRFPF3BLGF3YR4DY5KX3SMBE seq=3".toList

def exampleSignature : Text :=
  "Vl3AmunLur0JZ3sIyJPSH6A3Vvdp4F40jWQeCmkIhmcgwE4VC5U9wpK8C_uL_CMY29fd6FAhspRvq2z_VysTLAA".toList

/-- A branch in the place of the ENR subtree of the example. -/
def forgedBranch : Text := "enrtree-branch:H4FHT4B454P6UXFD7JCYQ5PWDY".toList

/-- A node record that the root of the example does not commit to. -/
def exampleEnr : Text :=
  ("enr:-HW4QAggRauloj2SDLtIHN1XBkvhFZ1vtf1raYQp9TBW2RD5EEawDzbtSmlXUfnaHcvwOizhVYLtr7e6vw7NAf6mTuoCgmlkgnY0iXNlY3Ay" ++
    "NTZrMaECjrXI8TLNXU0f8cthpAMxEshUyQlK-AM0PW2wfrnacNI").toList

/-- The crates on the records of the example: one key, one signature and one node record. -/
abbrev exampleCrates : EnrCrates where
  PublicKey := Bytes
  Enr := Text
  decodePublic data := if data.length = 33 then some data else none
  encode := id
  verifyV4 pk message signature := decide (pk = exampleKey ∧ message = Text.utf8 exampleRoot ∧
    signature = ((BaseN.decode 6 BaseN.base64url exampleSignature).getD []).take 64)
  parseEnr s := if s = exampleEnr then some s else none

/-- The name of a text in a tree: its hash, cut and written in Base32. -/
def hashName (text : Text) : Text := BaseN.encode 5 BaseN.base32 ((Keccak.hash (Text.utf8 text)).bytes.take 16)

/-- A signed root, and in the place of its ENR subtree a branch that lists a record of another tree. -/
def forgedZone : Backend := fun name =>
  if name = exampleHost then .ok (some (exampleRoot ++ " sig=".toList ++ exampleSignature))
  else if name = "INDMVBZEEQ4ESVYAKGIYU74EAA.n".toList then .ok (some forgedBranch)
  else if name = "H4FHT4B454P6UXFD7JCYQ5PWDY.n".toList then .ok (some exampleEnr)
  else .ok none

def exampleQuery : Tree exampleCrates := ⟨exampleHost, some exampleKey, none, none⟩

/-- The stream opens the root, finds the link subtree empty, and forwards what the two tasks of the ENR subtree find. -/
def forgedEvents : List Event :=
  [.stream, .task 0, .stream, .task 1, .task 2, .task 2, .task 1, .task 1, .stream]

/-- The name and the subdomain that were asked for. -/
def Visit.names : Visit k → Option (Text × Text)
  | .tree _ => none
  | .child c => some (c.fqdn, c.subdomain.text)

theorem forged_run : (Runs.run (Query.step forgedZone) (.start exampleQuery) forgedEvents).map (fun s =>
    (s.visited.map Visit.names, s.yielded.map Except.toOption)) = some ([none,
      some ("C7HRFPF3BLGF3YR4DY5KX3SMBE.n".toList, "C7HRFPF3BLGF3YR4DY5KX3SMBE".toList),
      some ("INDMVBZEEQ4ESVYAKGIYU74EAA.n".toList, "INDMVBZEEQ4ESVYAKGIYU74EAA".toList),
      some ("H4FHT4B454P6UXFD7JCYQ5PWDY.n".toList, "H4FHT4B454P6UXFD7JCYQ5PWDY".toList)], [some exampleEnr]) := by
  decide +kernel

/-- A run that yields a record. -/
theorem query_reached_forged : ∃ s, Runs.run (Query.step forgedZone) (.start exampleQuery) forgedEvents = some s ∧
    (∀ v ∈ s.visited, Reached forgedZone exampleQuery v ∧ (v = .tree exampleQuery ∨ ∃ record : RootRecord,
      Serves forgedZone exampleHost (.root record : DnsRecord exampleCrates) ∧
        ∀ pk ∈ exampleQuery.publicKey, record.verify exampleCrates pk = true)) ∧
    ∀ record, .ok record ∈ s.yielded → ∃ c : Child exampleCrates, Reached forgedZone exampleQuery (.child c) ∧
      c.kind = .enr ∧ Serves forgedZone c.fqdn (.enr record) := by
  obtain ⟨s, hr, -⟩ := Option.map_eq_some_iff.1 forged_run
  exact ⟨s, hr, query_reached forgedZone exampleQuery forgedEvents hr⟩

theorem forgedZone_branch : forgedZone "INDMVBZEEQ4ESVYAKGIYU74EAA.n".toList = .ok (some forgedBranch) := by
  unfold forgedZone
  rw [if_neg (by decide +kernel), if_pos rfl]

theorem hashName_forgedBranch : hashName forgedBranch ≠ "INDMVBZEEQ4ESVYAKGIYU74EAA".toList := by decide +kernel

/-- **A record in the place of another.** The root of the query is verified with its key, but the branch in the place of
its ENR subtree is not the one the root names, and the record below it is yielded all the same. -/
theorem forged_record : ∃ s, Runs.run (Query.step forgedZone) (.start exampleQuery) forgedEvents = some s ∧
    Except.ok exampleEnr ∈ s.yielded ∧ ¬∀ c, Visit.child c ∈ s.visited → ∀ text, forgedZone c.fqdn = .ok (some text) →
      hashName text = c.subdomain.text := by
  obtain ⟨s, hr, h⟩ := Option.map_eq_some_iff.1 forged_run
  obtain ⟨hvisited, hyielded⟩ := Prod.mk.inj h
  refine ⟨s, hr, ?_, fun hall => ?_⟩
  · obtain ⟨item, hmem, hitem⟩ := List.mem_map.1 (hyielded ▸ List.mem_singleton.2 rfl)
    cases item with
    | error => cases hitem
    | ok record => exact Option.some.inj hitem ▸ hmem
  · have hmem : some ("INDMVBZEEQ4ESVYAKGIYU74EAA.n".toList, "INDMVBZEEQ4ESVYAKGIYU74EAA".toList) ∈
        s.visited.map Visit.names := by
      rw [hvisited]
      exact .tail _ (.tail _ (.head _))
    obtain ⟨v, hv, hnames⟩ := List.mem_map.1 hmem
    cases v with
    | tree => cases hnames
    | child c =>
      obtain ⟨hfqdn, hsubdomain⟩ := Prod.mk.inj (Option.some.inj hnames)
      have hname := hall c hv forgedBranch (hfqdn ▸ forgedZone_branch)
      exact hashName_forgedBranch (hname.trans hsubdomain)

end Dnsdisc

end EthereumSentry
