import Mathlib.Order.Filter.AtTopBot.Basic
import Mathlib.Order.Filter.Finite
import EthereumSentry.Dnsdisc.Terminates

/-!
# The leaves of a zone

What a query ought to yield: the node records at the ends of the paths from its root, each as often as there are paths
to it (`Visit.leaves`). The paths of a well-formed zone (`WellFormed`) whose records do not lead back to themselves are
bounded, so the leaves stay the same from some length of paths on (`exists_leaves_stable`). They count what the tasks of
a query find (`Counts`).
-/

set_option autoImplicit false

namespace EthereumSentry

namespace Dnsdisc

variable {k : EnrCrates}

/-- The leaves at the ends of the paths of at most `n` records from a visit: those of the link subtree and of the ENR
subtree of a root, those of the children of a branch, and those of the tree of a link that is allowed. -/
def Visit.leaves (backend : Backend) : Nat → Visit k → Multiset k.Enr
  | 0, _ => 0
  | n + 1, .tree t => match recordAt k backend t.host with
    | some (.root record) =>
      if t.seenSequence.any (record.base.sequence ≤ ·) then 0
      else leaves backend n (.child (t.linkChild record.base)) + leaves backend n (.child (t.enrChild record.base))
    | _ => 0
  | n + 1, .child c => match recordAt k backend c.fqdn with
    | some (.enr record) => {record}
    | some (.branch children) => (children.map fun h => leaves backend n (.child { c with subdomain := h })).sum
    | some (.link publicKey domain) => match c.kind with
      | .link remoteWhitelist =>
        if domainIsAllowed remoteWhitelist domain publicKey then
          leaves backend n (.tree ⟨domain, some publicKey, none, remoteWhitelist⟩)
        else 0
      | .enr => 0
    | _ => 0

/-- The records that belong into a subtree. -/
def DnsRecord.Fits : BranchKind k → DnsRecord k → Prop
  | .enr, .enr _ => True
  | .link _, .link _ _ => True
  | _, .branch _ => True
  | _, _ => False

/-- A zone that a query can resolve: every name is looked up, and every record there is parses. The record of a tree
that is reached is a root that its key verifies, and that of a child belongs into its subtree. -/
structure WellFormed (backend : Backend) (q : Tree k) : Prop where
  available : ∀ name e, backend name ≠ .error e
  parses : ∀ name text, backend name = .ok (some text) → ∃ record : DnsRecord k, DnsRecord.fromStr k text = .ok record
  roots : ∀ t, Reached backend q (.tree t) → ∀ record : DnsRecord k, Serves backend t.host record →
    ∃ root : RootRecord, record = .root root ∧ ∀ pk ∈ t.publicKey, root.verify k pk = true
  kinds : ∀ c, Reached backend q (.child c) → ∀ record : DnsRecord k, Serves backend c.fqdn record →
    record.Fits c.kind

/-- The leaves of what a query reaches are those of what it finds there. -/
structure Counts (backend : Backend) (q : Tree k) (leaf : Visit k → Multiset k.Enr) : Prop where
  tree : ∀ t, Reached backend q (.tree t) → (t.find backend = .nothing ∧ leaf (.tree t) = 0) ∨ ∃ base,
    t.find backend = .root base ∧ leaf (.tree t) = leaf (.child (t.linkChild base)) + leaf (.child (t.enrChild base))
  child : ∀ c, Reached backend q (.child c) → (c.find backend = .nothing ∧ leaf (.child c) = 0) ∨
    (∃ record, c.find backend = .enr record ∧ leaf (.child c) = {record}) ∨
    (∃ children, c.find backend = .branch children ∧
      leaf (.child c) = (children.map fun h => leaf (.child { c with subdomain := h })).sum) ∨
    ∃ t, c.find backend = .tree t ∧ leaf (.child c) = leaf (.tree t)

/-! ## What is found in a well-formed zone -/

variable {backend : Backend} {q : Tree k}

/-- A name has no record, or one that parses. -/
theorem WellFormed.lookup (h : WellFormed backend q) (name : Text) :
    (backend name = .ok none ∧ recordAt k backend name = none) ∨ ∃ text, ∃ record : DnsRecord k,
      backend name = .ok (some text) ∧ DnsRecord.fromStr k text = .ok record ∧
        recordAt k backend name = some record := by
  cases hname : backend name with
  | error e => exact absurd hname (h.available name e)
  | ok found =>
    cases found with
    | none => exact .inl ⟨rfl, by rw [recordAt, hname]⟩
    | some text =>
      obtain ⟨record, hrecord⟩ := h.parses name text hname
      refine .inr ⟨text, record, rfl, hrecord, ?_⟩
      rw [recordAt, hname]
      simp only [hrecord]
      rfl

/-- A root that is served and verified is opened, unless its sequence has been seen. -/
theorem Tree.find_of_serves {t : Tree k} {record : RootRecord} (h : Serves backend t.host (.root record : DnsRecord k))
    (hverify : ∀ pk ∈ t.publicKey, record.verify k pk = true) : t.find backend =
      if t.seenSequence.any (record.base.sequence ≤ ·) then .nothing else .root record.base := by
  obtain ⟨text, htext, hrecord⟩ := h
  have hany : t.publicKey.any (! record.verify k ·) = false := by
    cases hpk : t.publicKey with
    | none => rfl
    | some pk => simp [hverify pk hpk]
  rw [Tree.find, htext]
  simp only [hrecord, hany, Bool.false_eq_true, if_false]

theorem WellFormed.find_tree (h : WellFormed backend q) {t : Tree k} (ht : Reached backend q (.tree t)) :
    (t.find backend = .nothing ∧ ∀ n, (Visit.tree t).leaves backend n = 0) ∨ ∃ base, t.find backend = .root base ∧
      ∀ n, (Visit.tree t).leaves backend (n + 1) =
        (Visit.child (t.linkChild base)).leaves backend n + (Visit.child (t.enrChild base)).leaves backend n := by
  rcases h.lookup t.host with ⟨hname, hat⟩ | ⟨text, record, hname, hrecord, hat⟩
  · refine .inl ⟨by rw [Tree.find, hname], fun n => ?_⟩
    cases n with
    | zero => rfl
    | succ n => rw [Visit.leaves, hat]
  · obtain ⟨root, rfl, hverify⟩ := h.roots t ht record ⟨text, hname, hrecord⟩
    have hfind := Tree.find_of_serves ⟨text, hname, hrecord⟩ hverify
    by_cases hseen : t.seenSequence.any (root.base.sequence ≤ ·) = true
    · refine .inl ⟨by rw [hfind, if_pos hseen], fun n => ?_⟩
      cases n with
      | zero => rfl
      | succ n =>
        rw [Visit.leaves, hat]
        exact if_pos hseen
    · refine .inr ⟨root.base, by rw [hfind, if_neg hseen], fun n => ?_⟩
      rw [Visit.leaves, hat]
      exact if_neg hseen

theorem WellFormed.find_child (h : WellFormed backend q) {c : Child k} (hc : Reached backend q (.child c)) :
    (c.find backend = .nothing ∧ ∀ n, (Visit.child c).leaves backend n = 0) ∨
    (∃ record, c.find backend = .enr record ∧ ∀ n, (Visit.child c).leaves backend (n + 1) = {record}) ∨
    (∃ children, c.find backend = .branch children ∧ ∀ n, (Visit.child c).leaves backend (n + 1) =
      (children.map fun h => (Visit.child { c with subdomain := h }).leaves backend n).sum) ∨
    ∃ t, c.find backend = .tree t ∧ ∀ n, (Visit.child c).leaves backend (n + 1) = (Visit.tree t).leaves backend n := by
  rcases h.lookup c.fqdn with ⟨hname, hat⟩ | ⟨text, record, hname, hrecord, hat⟩
  · refine .inl ⟨by rw [Child.find, hname], fun n => ?_⟩
    cases n with
    | zero => rfl
    | succ n => rw [Visit.leaves, hat]
  · have hfits := h.kinds c hc record ⟨text, hname, hrecord⟩
    cases record with
    | root root => cases hkind : c.kind <;> rw [hkind] at hfits <;> cases hfits
    | branch children =>
      refine .inr (.inr (.inl ⟨children, ?_, fun n => by rw [Visit.leaves, hat]⟩))
      rw [Child.find, hname]
      simp only [hrecord]
    | enr record =>
      cases hkind : c.kind with
      | link remoteWhitelist =>
        rw [hkind] at hfits
        cases hfits
      | enr =>
        refine .inr (.inl ⟨record, ?_, fun n => by rw [Visit.leaves, hat]⟩)
        rw [Child.find, hname]
        simp only [hrecord, hkind]
    | link publicKey domain =>
      cases hkind : c.kind with
      | enr =>
        rw [hkind] at hfits
        cases hfits
      | link remoteWhitelist =>
        by_cases hallowed : domainIsAllowed remoteWhitelist domain publicKey = true
        · refine .inr (.inr (.inr ⟨⟨domain, some publicKey, none, remoteWhitelist⟩, ?_, fun n => ?_⟩))
          · rw [Child.find, hname]
            simp only [hrecord, hkind, if_pos hallowed]
          · rw [Visit.leaves, hat]
            simp only [hkind, if_pos hallowed]
        · refine .inl ⟨?_, fun n => ?_⟩
          · rw [Child.find, hname]
            simp only [hrecord, hkind, if_neg hallowed]
          · cases n with
            | zero => rfl
            | succ n =>
              rw [Visit.leaves, hat]
              simp only [hkind, if_neg hallowed]

/-- One more record on the paths finds no other leaves where it finds no others further down. -/
theorem WellFormed.leaves_succ (h : WellFormed backend q) {v : Visit k} (hv : Reached backend q v) {n : Nat}
    (hnext : ∀ w ∈ v.next backend, w.leaves backend (n + 1) = w.leaves backend n) :
    v.leaves backend (n + 2) = v.leaves backend (n + 1) := by
  cases v with
  | tree t =>
    rcases h.find_tree hv with ⟨-, hleaves⟩ | ⟨base, hf, hleaves⟩
    · rw [hleaves, hleaves]
    · simp only [Visit.next, hf, List.forall_mem_cons] at hnext
      rw [hleaves, hleaves, hnext.1, hnext.2.1]
  | child c =>
    rcases h.find_child hv with ⟨-, hleaves⟩ | ⟨record, -, hleaves⟩ | ⟨children, hf, hleaves⟩ | ⟨t, hf, hleaves⟩
    · rw [hleaves, hleaves]
    · rw [hleaves, hleaves]
    · simp only [Visit.next, hf, List.forall_mem_map] at hnext
      rw [hleaves, hleaves, List.map_congr_left hnext]
    · simp only [Visit.next, hf, List.forall_mem_singleton] at hnext
      rw [hleaves, hleaves, hnext]

/-- **The leaves are all found** by paths of some length, where nothing that is reached leads back to itself. -/
theorem exists_leaves_stable (h : WellFormed backend q)
    (hzone : {name | ∃ text, backend name = .ok (some text)}.Finite)
    (hacyclic : ∀ v, Reached backend q v → ¬Relation.TransGen (fun v w => w ∈ v.next backend) v v) :
    ∃ n, ∀ m, n ≤ m → ∀ v, Reached backend q v → v.leaves backend m = v.leaves backend n := by
  have hfinite := finite_reached hzone q
  -- from what a visit leads to, to the visit
  have hconst : ∀ v, Reached backend q v →
      ∀ᶠ n in Filter.atTop, v.leaves backend (n + 1) = v.leaves backend n := fun v => by
    induction v using (Acyclic.wellFounded hfinite hacyclic).induction with
    | _ v ih =>
      intro hv
      have hnext : ∀ᶠ n in Filter.atTop, ∀ w ∈ {w | w ∈ v.next backend},
          w.leaves backend (n + 1) = w.leaves backend n :=
        (Filter.eventually_all_finite (List.finite_toSet _)).2 fun w hw => ih w ⟨hv, hw⟩ (hv.next hw)
      obtain ⟨n, hn⟩ := Filter.eventually_atTop.1 hnext
      refine Filter.eventually_atTop.2 ⟨n + 1, fun m hm => ?_⟩
      obtain ⟨m, rfl⟩ := Nat.exists_eq_add_of_le' hm
      exact h.leaves_succ hv (hn (m + n) (Nat.le_add_left n m))
  obtain ⟨n, hn⟩ := Filter.eventually_atTop.1 ((Filter.eventually_all_finite hfinite).2 hconst)
  refine ⟨n, fun m hm v hv => ?_⟩
  induction m, hm using Nat.le_induction with
  | base => rfl
  | succ m hm ih => rw [hn m hm v hv, ih]

/-- The leaves that are all found are what the tasks find. -/
theorem WellFormed.counts (h : WellFormed backend q) {n : Nat}
    (hstable : ∀ v, Reached backend q v → v.leaves backend (n + 1) = v.leaves backend n) :
    Counts backend q (·.leaves backend n) where
  tree := fun t ht => by
    rcases h.find_tree ht with ⟨hf, hleaves⟩ | ⟨base, hf, hleaves⟩
    · exact .inl ⟨hf, hleaves n⟩
    · exact .inr ⟨base, hf, by rw [← hstable _ ht, hleaves]⟩
  child := fun c hc => by
    rcases h.find_child hc with ⟨hf, hleaves⟩ | ⟨record, hf, hleaves⟩ | ⟨children, hf, hleaves⟩ | ⟨t, hf, hleaves⟩
    · exact .inl ⟨hf, hleaves n⟩
    · exact .inr (.inl ⟨record, hf, by rw [← hstable _ hc, hleaves]⟩)
    · exact .inr (.inr (.inl ⟨children, hf, by rw [← hstable _ hc, hleaves]⟩))
    · exact .inr (.inr (.inr ⟨t, hf, by rw [← hstable _ hc, hleaves]⟩))

/-! ## Zones that are known -/

/-- What a task makes of the record of its child. -/
def Child.found (c : Child k) : DnsRecord k → Child.Found k
  | .branch children => .branch children
  | .link publicKey domain => match c.kind with
    | .link remoteWhitelist =>
      if domainIsAllowed remoteWhitelist domain publicKey then .tree ⟨domain, some publicKey, none, remoteWhitelist⟩
      else .nothing
    | .enr => .failed (.unexpectedLink c.subdomain)
  | .enr record => match c.kind with
    | .enr => .enr record
    | .link _ => .failed (.unexpectedEnr c.subdomain)
  | .root _ => .failed (.unexpectedRoot c.subdomain)

theorem Child.find_of_serves {c : Child k} {record : DnsRecord k} (h : Serves backend c.fqdn record) :
    c.find backend = c.found record := by
  obtain ⟨text, htext, hrecord⟩ := h
  rw [Child.find, htext]
  simp only [hrecord]
  cases record <;> rfl

/-- What a query reaches is known, when its tree is known and all that is asked for because of what is known. -/
theorem Reached.known {K : Visit k → Prop} (hq : K (.tree q)) (hnext : ∀ v, K v → ∀ w ∈ v.next backend, K w)
    (hseen : ∀ t, K (.tree t) → t.seenSequence = none) {v : Visit k} (h : Reached backend q v) : K v := by
  have hroot : ∀ {t : Tree k} {record : RootRecord}, K (.tree t) → Serves backend t.host (.root record : DnsRecord k) →
      (∀ pk ∈ t.publicKey, record.verify k pk = true) → t.find backend = .root record.base := by
    intro _ _ ht hserves hverify
    rw [Tree.find_of_serves hserves hverify, hseen _ ht]
    rfl
  induction h with
  | query => exact hq
  | @link t record _ hserves hverify ih =>
    refine hnext _ ih _ ?_
    rw [Visit.next_root (hroot ih hserves hverify)]
    exact .head _
  | @enr t record _ hserves hverify ih =>
    refine hnext _ ih _ ?_
    rw [Visit.next_root (hroot ih hserves hverify)]
    exact .tail _ (.head _)
  | @branch c children h _ hserves hh ih =>
    refine hnext _ ih _ ?_
    rw [Visit.next_branch (Child.find_of_serves hserves)]
    exact List.mem_map_of_mem hh
  | @tree c remoteWhitelist publicKey domain _ hkind hserves hallowed ih =>
    have hfind : c.find backend = .tree ⟨domain, some publicKey, none, remoteWhitelist⟩ := by
      simp only [Child.find_of_serves hserves, Child.found, hkind, if_pos hallowed]
    refine hnext _ ih _ ?_
    rw [Visit.next_link hfind]
    exact .head _

/-- A zone is well formed when every record parses, every known tree has a root, and no known child fails. -/
theorem WellFormed.of_known {K : Visit k → Prop} (hreached : ∀ v, Reached backend q v → K v)
    (havailable : ∀ name e, backend name ≠ .error e)
    (hparses : ∀ name text, backend name = .ok (some text) → ∃ record : DnsRecord k,
      DnsRecord.fromStr k text = .ok record)
    (hroots : ∀ t, K (.tree t) → ∃ base, t.find backend = .root base)
    (hkinds : ∀ c, K (.child c) → ∀ e, c.find backend ≠ .failed e) : WellFormed backend q where
  available := havailable
  parses := hparses
  roots := fun t ht record ⟨text, htext, hrecord⟩ => by
    obtain ⟨base, hbase⟩ := hroots t (hreached _ ht)
    obtain ⟨root, ⟨text', htext', hroot⟩, hverify, -⟩ := Tree.find_root hbase
    rw [htext] at htext'
    cases htext'
    rw [hrecord] at hroot
    exact ⟨root, Except.ok.inj hroot, hverify⟩
  kinds := fun c hc record hserves => by
    have hok := hkinds c (hreached _ hc)
    rw [Child.find_of_serves hserves] at hok
    cases record with
    | root record => exact absurd rfl (hok _)
    | branch children => cases c.kind <;> trivial
    | link publicKey domain =>
      cases hkind : c.kind with
      | enr =>
        simp only [Child.found, hkind] at hok
        exact absurd rfl (hok _)
      | link remoteWhitelist => trivial
    | enr record =>
      cases hkind : c.kind with
      | enr => trivial
      | link remoteWhitelist =>
        simp only [Child.found, hkind] at hok
        exact absurd rfl (hok _)

end Dnsdisc

end EthereumSentry
