import EthereumSentry.Dnsdisc.Reached

/-!
# A whitelist confines a query

The domains that a query may get to are linked from its host, link by link, each with the key that the whitelist has
for it (`Linked`). Whatever a backend serves, a query with a whitelist asks for no tree but at such a domain, follows
links of link subtrees only, and yields the records of ENR subtrees only (`query_confined`).
-/

set_option autoImplicit false

namespace EthereumSentry

namespace Dnsdisc

variable {k : EnrCrates}

/-! ## Subtrees and links -/

/-- The name of a subdomain of a host. -/
def fqdn (host : Text) (subdomain : Base32Hash) : Text := subdomain.text ++ '.' :: host

/-- A hash of the subtree of a host at a root hash, which branches lead to. -/
inductive Below (k : EnrCrates) (backend : Backend) (host : Text) (root : Base32Hash) : Base32Hash → Prop
  | root : Below k backend host root root
  | child {h h' : Base32Hash} {children : List Base32Hash} (hh : Below k backend host root h)
      (hb : Serves backend (fqdn host h) (.branch children : DnsRecord k)) (hc : h' ∈ children) :
      Below k backend host root h'

/-- The root record of a domain, verified under a key if there is one. -/
structure RootAt (backend : Backend) (domain : Text) (publicKey : Option k.PublicKey) (record : RootRecord) : Prop where
  serves : Serves backend domain (.root record : DnsRecord k)
  verified : ∀ pk ∈ publicKey, record.verify k pk = true

/-- A domain, and its key, at the end of a chain of links from a host. Every link is in the link subtree of a verified
root, and the whitelist has its domain with its key. -/
inductive Linked (backend : Backend) (w : Whitelist k) (host : Text) (publicKey : Option k.PublicKey) :
    Text → Option k.PublicKey → Prop
  | host : Linked backend w host publicKey host publicKey
  | link {d : Text} {pk : Option k.PublicKey} {record : RootRecord} {h : Base32Hash} {d' : Text} {pk' : k.PublicKey}
      (hd : Linked backend w host publicKey d pk) (hr : RootAt backend d pk record)
      (hh : Below k backend d record.base.linkRoot h) (hl : Serves backend (fqdn d h) (.link pk' d'))
      (hw : w d' = some pk') : Linked backend w host publicKey d' (some pk')

/-- A hash of the ENR subtree of a linked domain. -/
def InEnrSubtree (backend : Backend) (w : Whitelist k) (host : Text) (publicKey : Option k.PublicKey) (d : Text)
    (h : Base32Hash) : Prop :=
  ∃ pk record, Linked backend w host publicKey d pk ∧ RootAt backend d pk record ∧
    Below k backend d record.base.enrRoot h

/-- A hash of the link subtree of a linked domain. -/
def InLinkSubtree (backend : Backend) (w : Whitelist k) (host : Text) (publicKey : Option k.PublicKey) (d : Text)
    (h : Base32Hash) : Prop :=
  ∃ pk record, Linked backend w host publicKey d pk ∧ RootAt backend d pk record ∧
    Below k backend d record.base.linkRoot h

variable {backend : Backend} {w : Whitelist k} {host : Text} {publicKey : Option k.PublicKey}

/-- What the whitelist allows it has, when keys are told apart by their encodings. -/
theorem domainIsAllowed_some (hk : Function.Injective k.encode) {domain : Text} {pk : k.PublicKey}
    (h : domainIsAllowed (some w) domain pk = true) : w domain = some pk := by
  unfold domainIsAllowed at h
  cases hd : w domain with
  | none => simp [hd] at h
  | some pk' =>
    simp only [hd, decide_eq_true_eq] at h
    rw [hk h]

/-! ## Where a query gets to -/

/-- A tree is that of a linked domain, and a child is in one of its subtrees, of which its task knows which. -/
def Visit.Confined (backend : Backend) (w : Whitelist k) (host : Text) (publicKey : Option k.PublicKey) :
    Visit k → Prop
  | .tree t => Linked backend w host publicKey t.host t.publicKey ∧ t.remoteWhitelist = some w
  | .child c => (c.kind = .enr ∧ InEnrSubtree backend w host publicKey c.host c.subdomain) ∨
      (c.kind = .link (some w) ∧ InLinkSubtree backend w host publicKey c.host c.subdomain)

/-- **What is reached is confined.** -/
theorem Reached.confined (hk : Function.Injective k.encode) {seenSequence : Option Nat} {v : Visit k}
    (hv : Reached backend ⟨host, publicKey, seenSequence, some w⟩ v) : v.Confined backend w host publicKey := by
  induction hv with
  | query => exact ⟨.host, rfl⟩
  | @link t record _ hserves hverify ih =>
    exact .inr ⟨congrArg BranchKind.link ih.2, t.publicKey, record, ih.1, ⟨hserves, hverify⟩, .root⟩
  | @enr t record _ hserves hverify ih =>
    exact .inl ⟨rfl, t.publicKey, record, ih.1, ⟨hserves, hverify⟩, .root⟩
  | @branch c children h _ hserves hh ih =>
    rcases ih with ⟨hkind, pk, record, hd, hr, hb⟩ | ⟨hkind, pk, record, hd, hr, hb⟩
    · exact .inl ⟨hkind, pk, record, hd, hr, hb.child hserves hh⟩
    · exact .inr ⟨hkind, pk, record, hd, hr, hb.child hserves hh⟩
  | @tree c remoteWhitelist pk' domain _ hkind hserves hallowed ih =>
    rcases ih with ⟨hkind', -⟩ | ⟨hkind', pk, record, hd, hr, hb⟩
    · -- a link in an ENR subtree is not followed
      rw [hkind] at hkind'
      cases hkind'
    · rw [hkind] at hkind'
      cases hkind'
      exact ⟨.link hd hr hb hserves (domainIsAllowed_some hk hallowed), rfl⟩

/-- **A whitelist confines a query.** Whatever the backend serves, in every run of a query with a whitelist each record
that is yielded is in the ENR subtree of a domain that is linked from the host, and each tree and each child that is
asked for is that of such a domain. A task of a link subtree takes no ENR record, and a task of an ENR subtree follows
no link. -/
theorem query_confined (hk : Function.Injective k.encode) (backend : Backend) (w : Whitelist k) (host : Text)
    (publicKey : Option k.PublicKey) (seenSequence : Option Nat) (es : List Event) {s : Query k}
    (hr : Runs.run (Query.step backend) (.start ⟨host, publicKey, seenSequence, some w⟩) es = some s) :
    (∀ record, .ok record ∈ s.yielded → ∃ d h, InEnrSubtree backend w host publicKey d h ∧
      Serves backend (fqdn d h) (.enr record)) ∧
    (∀ v ∈ s.visited, v.Confined backend w host publicKey) ∧
    ∀ c : Child k, (∀ record, c.find backend = .enr record → c.kind = .enr) ∧
      ∀ t, c.find backend = .tree t → ∃ remoteWhitelist, c.kind = .link remoteWhitelist := by
  have h := Query.run_sound hr
  refine ⟨fun record hy => ?_, fun v hv => (h.visited v hv).confined hk,
    fun c => ⟨fun record hf => ?_, fun t hf => ?_⟩⟩
  · obtain ⟨c, hc, hkind, hserves⟩ := h.yielded _ hy record rfl
    rcases hc.confined hk with ⟨-, hsub⟩ | ⟨hkind', -⟩
    · exact ⟨c.host, c.subdomain, hsub, hserves⟩
    · rw [hkind] at hkind'
      cases hkind'
  · exact (Child.find_enr hf).1
  · obtain ⟨remoteWhitelist, -, hkind, -⟩ := Child.find_tree hf
    exact ⟨remoteWhitelist, hkind⟩

/-! ## A link that is followed, and one that is not -/

/-- Another domain, with the same root. -/
def exampleDomain : Text := "m".toList

/-- A link to the domain, under the key of the example. -/
def exampleLink : Text := "enrtree://AKPYQIUQIL7PSIACI32J7FGZW56E5FKHEFCCOFHILBIMW3M6LWXS2@m".toList

/-- A link to a third domain, under the same key. -/
def foreignLink : Text := "enrtree://AKPYQIUQIL7PSIACI32J7FGZW56E5FKHEFCCOFHILBIMW3M6LWXS2@o".toList

/-- The host has a branch of both links and a branch of node records, one of which is missing; the domain that the first
link leads to has a node record. -/
def linkedRecords : List (Text × Text) := [
  (exampleHost, exampleRoot ++ " sig=".toList ++ exampleSignature),
  ("C7HRFPF3BLGF3YR4DY5KX3SMBE.n".toList, "enrtree-branch:X,Y".toList),
  ("X.n".toList, exampleLink),
  ("Y.n".toList, foreignLink),
  ("INDMVBZEEQ4ESVYAKGIYU74EAA.n".toList, "enrtree-branch:A,B,C".toList),
  ("A.n".toList, exampleEnr),
  ("C.n".toList, exampleEnr),
  (exampleDomain, exampleRoot ++ " sig=".toList ++ exampleSignature),
  ("INDMVBZEEQ4ESVYAKGIYU74EAA.m".toList, exampleEnr)]

def linkedZone : Backend := fun name => .ok (linkedRecords.lookup name)

/-- The first domain is allowed. -/
def exampleWhitelist : Whitelist exampleCrates := fun domain =>
  if domain = exampleDomain then some exampleKey else none

def confinedQuery : Tree exampleCrates := { exampleQuery with remoteWhitelist := some exampleWhitelist }

/-- The link subtree of the host spawns a task for either link; the first goes through the tree of its domain, and what
it finds there is passed on to the stream. -/
def linkedEvents : List Event :=
  [.stream, .task 0, .task 1, .task 2, .task 1, .task 3, .task 1, .task 4, .task 4, .task 1, .task 1, .task 0, .task 0,
    .stream]

/-- The domain that is asked, and whether its root is asked for. -/
def Visit.domain : Visit k → Text × Bool
  | .tree t => (t.host, true)
  | .child c => (c.host, false)

theorem linked_run : (Runs.run (Query.step linkedZone) (.start confinedQuery) linkedEvents).map (fun s =>
    (s.visited.map Visit.domain, s.yielded.map Except.toOption)) = some ([(exampleHost, true), (exampleHost, false),
      (exampleHost, false), (exampleHost, false), (exampleDomain, true), (exampleDomain, false), (exampleDomain, false)],
      [some exampleEnr]) := by
  decide +kernel

/-- The node record of the domain that is allowed is yielded, and nothing is asked of the other one. -/
theorem query_confined_example : ∃ s,
    Runs.run (Query.step linkedZone) (.start confinedQuery) linkedEvents = some s ∧
      s.yielded.map Except.toOption = [some exampleEnr] ∧ (∀ v ∈ s.visited, v.domain.1 ≠ "o".toList) ∧
      (∀ record, .ok record ∈ s.yielded → ∃ d h,
        InEnrSubtree (k := exampleCrates) linkedZone exampleWhitelist exampleHost (some exampleKey) d h ∧
          Serves linkedZone (fqdn d h) (.enr record)) ∧
      ∀ v ∈ s.visited, v.Confined linkedZone exampleWhitelist exampleHost (some exampleKey) := by
  obtain ⟨s, hs, h⟩ := Option.map_eq_some_iff.1 linked_run
  obtain ⟨hvisited, hyielded⟩ := Prod.mk.inj h
  have hconfined := query_confined Function.injective_id linkedZone exampleWhitelist exampleHost (some exampleKey) none
    linkedEvents hs
  have hdomains : ∀ d ∈ s.visited.map Visit.domain, d.1 ≠ "o".toList := by
    rw [hvisited]
    decide
  exact ⟨s, hs, hyielded, fun v hv => hdomains _ (List.mem_map_of_mem hv), hconfined.1, hconfined.2.1⟩

end Dnsdisc

end EthereumSentry
