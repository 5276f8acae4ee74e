import EthereumSentry.Discv4.Structure

/-!
# The order of a bucket

A clock next to the table says when a record was refreshed last (`Refresh`): when it was verified in the list, or when
it entered the list. Verified records are put in front and others behind, so the list of a bucket has the verified ones
first, the latest one in front, and behind them those that were not verified since they entered, the latest one at the
end (`Clock.Orders`). The candidate for eviction is at the end: it is the record refreshed last of those that are not
verified, when there is one, and the verified record refreshed first, when there is none (`oldest_candidate`).
-/

set_option autoImplicit false

namespace EthereumSentry

namespace Discv4

/-- How an operation refreshes a record. -/
inductive Refresh where
  /-- It is verified, in the list. -/
  | verified (id : NodeId)
  /-- It enters the list, and is not verified. -/
  | entered (id : NodeId)
  deriving DecidableEq

def Refresh.id : Refresh → NodeId
  | verified id | entered id => id

/-- The time, and when the ids were refreshed last; `verified` is whether they were verified then. -/
structure Clock where
  now : Nat
  last : NodeId → Nat
  verified : NodeId → Bool

namespace Clock

def start : Clock := ⟨0, fun _ => 0, fun _ => false⟩

def tick (c : Clock) : Option Refresh → Clock
  | none => { c with now := c.now + 1 }
  | some (.verified id) => ⟨c.now + 1, Function.update c.last id c.now, Function.update c.verified id true⟩
  | some (.entered id) => ⟨c.now + 1, Function.update c.last id c.now, Function.update c.verified id false⟩

/-- The first id is in front of the second one. -/
def Before (c : Clock) (a b : NodeId) : Prop :=
  if c.verified a then c.verified b = true → c.last b < c.last a else c.verified b = false ∧ c.last a < c.last b

/-- The ids are in order, and all of them were refreshed in the past. -/
structure Orders (c : Clock) (ids : List NodeId) : Prop where
  pairwise : ids.Pairwise c.Before
  past : ∀ id ∈ ids, c.last id < c.now

variable {c : Clock} {l l' : List NodeId} {id : NodeId}

theorem Orders.sublist (h : c.Orders l) (hs : l'.Sublist l) : c.Orders l' :=
  ⟨h.pairwise.sublist hs, fun id hid => h.past id (hs.subset hid)⟩

/-- What is refreshed elsewhere does not count. -/
theorem Orders.tick (h : c.Orders l) {r : Option Refresh}
    (hr : ∀ x ∈ r, x.id ∉ l) : (c.tick r).Orders l := by
  have hlast : ∀ id ∈ l, (c.tick r).last id = c.last id ∧ (c.tick r).verified id = c.verified id := by
    intro id hid
    rcases r with _ | x | x
    · exact ⟨rfl, rfl⟩
    all_goals
      have hne : id ≠ x := fun he => hr _ rfl (he ▸ hid)
      simp [Clock.tick, Function.update_of_ne hne]
  have hnow : (c.tick r).now = c.now + 1 := by
    rcases r with _ | x | x <;> rfl
  refine ⟨h.pairwise.imp_of_mem fun {a b} ha hb hab => ?_, fun id hid => ?_⟩
  · unfold Before at hab ⊢
    rwa [(hlast a ha).1, (hlast a ha).2, (hlast b hb).1, (hlast b hb).2]
  · rw [(hlast id hid).1, hnow]
    exact Nat.lt_succ_of_lt (h.past id hid)

/-- A record that is verified goes to the front. -/
theorem Orders.front (h : c.Orders l) (hid : id ∉ l) : (c.tick (some (.verified id))).Orders (id :: l) := by
  have htick := h.tick (r := some (.verified id)) (by simpa [Refresh.id] using hid)
  refine ⟨List.pairwise_cons.2 ⟨fun b hb => ?_, htick.pairwise⟩, List.forall_mem_cons.2 ⟨?_, htick.past⟩⟩
  · have hne : b ≠ id := fun he => hid (he ▸ hb)
    simp only [Before, Clock.tick, Function.update_self, if_true, Function.update_of_ne hne]
    exact fun _ => h.past b hb
  · simp [Clock.tick]

/-- A record that enters goes to the end. -/
theorem Orders.back (h : c.Orders l) (hid : id ∉ l) : (c.tick (some (.entered id))).Orders (l ++ [id]) := by
  have htick := h.tick (r := some (.entered id)) (by simpa [Refresh.id] using hid)
  refine ⟨List.pairwise_append.2 ⟨htick.pairwise, List.pairwise_singleton _ _, fun a ha b hb => ?_⟩, fun x hx => ?_⟩
  · rw [List.mem_singleton.1 hb]
    have hne : a ≠ id := fun he => hid (he ▸ ha)
    simp only [Before, Clock.tick, Function.update_self, Function.update_of_ne hne]
    split
    · exact fun h => nomatch h
    · exact ⟨trivial, h.past a ha⟩
  · rcases List.mem_append.1 hx with hx | hx
    · exact htick.past x hx
    · simp [Clock.tick, List.mem_singleton.1 hx]

/-- **What is at the end**: the id that entered last of those not verified, or the id that was verified first. -/
theorem Orders.getLast (h : c.Orders l) (hl : l.getLast? = some id) :
    (∃ a ∈ l, c.verified a = false) ∧ c.verified id = false ∧ (∀ a ∈ l, c.verified a = false → c.last a ≤ c.last id) ∨
      (∀ a ∈ l, c.verified a = true) ∧ ∀ a ∈ l, c.last id ≤ c.last a := by
  obtain ⟨front, rfl⟩ := List.getLast?_eq_some_iff.1 hl
  have hbefore : ∀ a ∈ front, c.Before a id := fun a ha =>
    (List.pairwise_append.1 h.pairwise).2.2 a ha id (List.mem_singleton_self id)
  cases hv : c.verified id with
  | false =>
    refine .inl ⟨⟨id, by simp, hv⟩, rfl, fun a ha hav => ?_⟩
    rcases List.mem_append.1 ha with ha | ha
    · have hb := hbefore a ha
      rw [Before, if_neg (by simp [hav])] at hb
      exact hb.2.le
    · rw [List.mem_singleton.1 ha]
  | true =>
    have hall : ∀ a ∈ front, c.verified a = true ∧ c.last id ≤ c.last a := fun a ha => by
      have hb := hbefore a ha
      unfold Before at hb
      split at hb
      · rename_i hav
        exact ⟨hav, (hb hv).le⟩
      · rw [hv] at hb
        exact absurd hb.1 (by decide)
    refine .inr ⟨fun a ha => ?_, fun a ha => ?_⟩
    all_goals rcases List.mem_append.1 ha with ha | ha
    · exact (hall a ha).1
    · rw [List.mem_singleton.1 ha, hv]
    · exact (hall a ha).2
    · rw [List.mem_singleton.1 ha]

end Clock

/-! ## In a bucket -/

/-- What an operation does to the ids of a list, and how it refreshes one of them. -/
inductive Shuffle (l : List NodeId) : Option Refresh → List NodeId → Prop
  | kept : Shuffle l none l
  | front {l' : List NodeId} {id : NodeId} (hs : l'.Sublist l) (hid : id ∉ l') :
      Shuffle l (some (.verified id)) (id :: l')
  | back {l' : List NodeId} {id : NodeId} (hs : l'.Sublist l) (hid : id ∉ l') :
      Shuffle l (some (.entered id)) (l' ++ [id])

theorem Shuffle.orders {c : Clock} {l l' : List NodeId} {r : Option Refresh} (h : Shuffle l r l') (hl : c.Orders l) :
    (c.tick r).Orders l' := by
  cases h with
  | kept => exact hl.tick fun _ hx => nomatch hx
  | front hs hid => exact (hl.sublist hs).front hid
  | back hs hid => exact (hl.sublist hs).back hid

namespace KBucket

/-- The record of the list that an operation refreshes: the verified node, if it is in the list then, or the record that
enters the list. -/
def refresh (b : KBucket) : Table.Op → Option Refresh
  | .addVerified node => if node.id ∈ ids (b.addVerified node).bucket then some (.verified node.id) else none
  | .addSeen node =>
    if node.id ∉ ids b.bucket ∧ node.id ∈ ids (b.addSeen node).bucket then some (.entered node.id) else none
  | .remove node =>
    match b.replacements, b.findPeerPos node with
    | replacement :: _, some _ => some (.entered replacement.id)
    | _, _ => none

variable {b : KBucket}

theorem ids_eraseIdx_sublist (i : Nat) : (ids (b.bucket.eraseIdx i)).Sublist (ids b.bucket) :=
  (List.eraseIdx_sublist b.bucket i).map NodeRecord.id

/-- A record that is found is no longer in the list without it. -/
theorem not_mem_ids_eraseIdx (hu : b.Unique) {peer : NodeId} {i : Nat} (h : b.findPeerPos peer = some i) :
    peer ∉ ids (b.bucket.eraseIdx i) := by
  obtain ⟨hi, hid⟩ := of_findPeerPos h
  have hperm : (b.bucket[i].id :: ids (b.bucket.eraseIdx i)).Perm (ids b.bucket) :=
    (List.getElem_cons_eraseIdx_perm hi).map NodeRecord.id
  have hnodup := hperm.nodup_iff.2 hu.bucket
  rw [hid] at hnodup
  exact (List.nodup_cons.1 hnodup).1

/-- **What an operation does to the list.** -/
theorem perform_shuffle (hb : b.Bounded) (hu : b.Unique) (op : Table.Op) :
    Shuffle (ids b.bucket) (b.refresh op) (ids (b.perform op).bucket) := by
  cases op with
  | addVerified node =>
    rw [refresh, perform]
    cases h : b.findPeerPos node.id with
    | some i =>
      rw [addVerified_of_some hb h, ids_cons, if_pos List.mem_cons_self]
      exact .front (ids_eraseIdx_sublist i) (not_mem_ids_eraseIdx hu h)
    | none =>
      have hn := findPeerPos_eq_none.1 h
      unfold addVerified
      simp only [h]
      split
      · rw [ids_cons, if_pos List.mem_cons_self]
        exact .front (.refl _) hn
      · rw [pushReplacement_bucket, if_neg hn]
        exact .kept
  | addSeen node =>
    rw [refresh, perform, addSeen]
    cases h : b.findPeerPos node.id with
    | some i =>
      simp only [Option.isSome_some, if_true]
      rw [if_neg fun hc => hc.1 hc.2]
      exact .kept
    | none =>
      have hn := findPeerPos_eq_none.1 h
      simp only [Option.isSome_none, Bool.false_eq_true, if_false]
      split
      · rw [ids_append, if_pos ⟨hn, by simp⟩]
        exact .back (.refl _) hn
      · rw [pushReplacement_bucket, if_neg fun hc => hn hc.2]
        exact .kept
  | remove node =>
    rw [refresh, perform]
    cases hr : b.replacements with
    | nil =>
      rw [remove_of_none (.inl hr)]
      exact .kept
    | cons replacement rest =>
      cases h : b.findPeerPos node with
      | none =>
        rw [remove_of_none (.inr h)]
        exact .kept
      | some i =>
        rw [remove_of_some hr h, ids_append]
        refine .back (ids_eraseIdx_sublist i) fun hmem => ?_
        exact hu.disjoint _ ((ids_eraseIdx_sublist i).subset hmem) (by simp [hr])

/-- What is refreshed is in the list then. -/
theorem refresh_mem (hb : b.Bounded) (hu : b.Unique) {op : Table.Op} {r : Refresh} (h : b.refresh op = some r) :
    r.id ∈ ids (b.perform op).bucket := by
  have hs := perform_shuffle hb hu op
  rw [h] at hs
  generalize ids (b.perform op).bucket = l at hs ⊢
  cases hs with
  | front => exact List.mem_cons_self
  | back => exact List.mem_append_right _ (List.mem_singleton_self _)

end KBucket

/-! ## In a table -/

/-- The record that an operation refreshes. -/
def Table.refresh (keccak256 : Bytes → H256) (t : Table) (op : Table.Op) : Option Refresh :=
  (t.site keccak256 op).bind fun i => (t.kbucket i).refresh op

/-- A table, and the clock next to it. -/
structure Aged where
  table : Table
  clock : Clock

namespace Aged

open Table

open KBucket (ids)

def start (keccak256 : Bytes → H256) (id : NodeId) : Aged := ⟨Table.new keccak256 id, .start⟩

def step (keccak256 : Bytes → H256) (s : Aged) (op : Op) : Option Aged :=
  (Table.step keccak256 s.table op).map fun t => ⟨t, s.clock.tick (s.table.refresh keccak256 op)⟩

/-- The records of a bucket. -/
def bucket (s : Aged) (n : UInt8) : List NodeRecord := (s.table.kbucket (bucketIndex n)).bucket

/-- `oldest` returns the record that was refreshed first. -/
def ReturnsOldest (s : Aged) (n : UInt8) : Prop :=
  ∃ node ∈ s.bucket n, s.table.oldest n = some (some node) ∧
    ∀ m ∈ s.bucket n, s.clock.last node.id ≤ s.clock.last m.id

/-- The table is ordered and unique, and so are its lists. -/
structure Sorted (keccak256 : Bytes → H256) (s : Aged) : Prop where
  ordered : s.table.Ordered keccak256
  unique : s.table.Unique
  orders : ∀ i : Fin addressBits, s.clock.Orders (ids (s.table.kbucket i).bucket)

variable {keccak256 : Bytes → H256} {s : Aged}

theorem start_sorted (id : NodeId) : (start keccak256 id).Sorted keccak256 := by
  refine ⟨new_ordered id, new_unique id, fun i => ?_⟩
  have hnil : ids ((start keccak256 id).table.kbucket i).bucket = [] := by simp [start, Table.new, KBucket.empty]
  rw [hnil]
  exact ⟨.nil, fun _ hx => absurd hx List.not_mem_nil⟩

/-- The ids of a list are those of its bucket. -/
theorem logdistance_of_mem {t : Table} (ht : t.Ordered keccak256) {i : Fin addressBits} {id : NodeId}
    (h : id ∈ ids (t.kbucket i).bucket) : t.logdistance keccak256 id = some i := by
  obtain ⟨node, hnode, rfl⟩ := List.mem_map.1 h
  exact (ht.belongs i node (List.mem_append_left _ hnode)).2

theorem step_sorted (s : Aged) (op : Op) (s' : Aged) (hs : s.Sorted keccak256)
    (hq : ¬s.table.Requeues keccak256 op) (h : step keccak256 s op = some s') : s'.Sorted keccak256 := by
  obtain ⟨t', ht, rfl⟩ := Option.map_eq_some_iff.1 h
  have hordered := step_ordered s.table op t' hs.ordered ht
  refine ⟨hordered, (step_unique hs.ordered.bounded hs.unique op).2 hq t' ht, fun i => ?_⟩
  have hbucket := kbuckets_of_step ht i
  dsimp only at hbucket ⊢
  by_cases hsite : s.table.site keccak256 op = some i
  · rw [hbucket, if_pos hsite]
    have hr : s.table.refresh keccak256 op = (s.table.kbucket i).refresh op := by rw [Table.refresh, hsite]; rfl
    rw [hr]
    exact (KBucket.perform_shuffle (hs.ordered.bounded i) (hs.unique i) op).orders (hs.orders i)
  · -- what is refreshed is in the list of another bucket
    have hsame : t'.kbucket i = s.table.kbucket i := hbucket.trans (if_neg hsite)
    rw [hsame]
    refine (hs.orders i).tick fun r hr hmem => hsite ?_
    obtain ⟨j, hj, hr⟩ := Option.bind_eq_some_iff.1 hr
    have hin := KBucket.refresh_mem (hs.ordered.bounded j) (hs.unique j) hr
    have hperform : t'.kbucket j = (s.table.kbucket j).perform op := (kbuckets_of_step ht j).trans (if_pos hj)
    rw [← hperform] at hin
    rw [← hsame] at hmem
    have hij := (logdistance_of_mem hordered hin).symm.trans (logdistance_of_mem hordered hmem)
    rw [hj, Option.some.inj hij]

/-- **The candidate for eviction.** In a run in which no id that waits as a replacement is queued again, `oldest` returns
the record that entered last of those in the bucket that were not verified since they entered, when there are such
records, and else the record whose last verification lies furthest in the past. -/
theorem oldest_candidate (keccak256 : Bytes → H256) (id : NodeId) (ops : List Op)
    (h : Runs.run (step keccak256) (start keccak256 id) ops = some s)
    (hq : Runs.Along (step keccak256) (fun s op => ¬s.table.Requeues keccak256 op) (start keccak256 id) ops) (n : UInt8)
    (hne : s.bucket n ≠ []) : ∃ node ∈ s.bucket n, s.table.oldest n = some (some node) ∧
      ((∃ m ∈ s.bucket n, s.clock.verified m.id = false) ∧ s.clock.verified node.id = false ∧
          (∀ m ∈ s.bucket n, s.clock.verified m.id = false → s.clock.last m.id ≤ s.clock.last node.id) ∨
        (∀ m ∈ s.bucket n, s.clock.verified m.id = true) ∧
          ∀ m ∈ s.bucket n, s.clock.last node.id ≤ s.clock.last m.id) := by
  have hs : s.Sorted keccak256 :=
    Runs.Along.invariant (fun s op s' hs hok hstep => step_sorted s op s' hs hok hstep) ops hq (start_sorted id) h
  have hlast : (s.bucket n).getLast? = some ((s.bucket n).getLast hne) := List.getLast?_eq_some_getLast hne
  refine ⟨(s.bucket n).getLast hne, List.getLast_mem hne, ?_, ?_⟩
  · rw [oldest_eq, ← hlast]
    rfl
  · have horders : s.clock.Orders (ids (s.bucket n)) := hs.orders (bucketIndex n)
    have hids : (ids (s.bucket n)).getLast? = some ((s.bucket n).getLast hne).id := by
      rw [ids, List.getLast?_map, hlast, Option.map_some]
    simpa [ids] using horders.getLast hids

/-! ## A seen node behind a verified one -/

/-- Two nodes of one bucket: the first one is verified, and then the second one is seen. -/
def verifyAndSee : List Op := [.addVerified (sampleNode 3), .addSeen (sampleNode 6)]

/-- The nodes are where the run says, and the first one was refreshed first. -/
theorem verifyAndSee_run : (Runs.run (step sampleHash) (start sampleHash (sampleId 0)) verifyAndSee).map (fun s =>
    (s.bucket 255, s.table.oldest 255, s.clock.last (sampleId 3), s.clock.last (sampleId 6))) =
      some ([sampleNode 3, sampleNode 6], some (some (sampleNode 6)), 0, 1) := by
  decide +kernel

theorem verifyAndSee_along : Runs.Along (step sampleHash) (fun s op => ¬s.table.Requeues sampleHash op)
    (start sampleHash (sampleId 0)) verifyAndSee := by
  decide +kernel

/-- The node that was seen last is the candidate. -/
theorem seen_is_candidate : ∃ s : Aged,
    Runs.run (step sampleHash) (start sampleHash (sampleId 0)) verifyAndSee = some s ∧
    ∃ node ∈ s.bucket 255, s.table.oldest 255 = some (some node) ∧
      ((∃ m ∈ s.bucket 255, s.clock.verified m.id = false) ∧ s.clock.verified node.id = false ∧
          (∀ m ∈ s.bucket 255, s.clock.verified m.id = false → s.clock.last m.id ≤ s.clock.last node.id) ∨
        (∀ m ∈ s.bucket 255, s.clock.verified m.id = true) ∧
          ∀ m ∈ s.bucket 255, s.clock.last node.id ≤ s.clock.last m.id) := by
  obtain ⟨s, hr, hs⟩ := Option.map_eq_some_iff.1 verifyAndSee_run
  have hne : s.bucket 255 ≠ [] := by
    rw [(Prod.mk.inj hs).1]
    simp
  exact ⟨s, hr, oldest_candidate sampleHash (sampleId 0) verifyAndSee hr verifyAndSee_along 255 hne⟩

/-- It is not the node that was refreshed first. -/
theorem oldest_not_first : ¬∀ (keccak256 : Bytes → H256) (id : NodeId) (ops : List Op) (s : Aged),
    Runs.run (step keccak256) (start keccak256 id) ops = some s →
    Runs.Along (step keccak256) (fun s op => ¬s.table.Requeues keccak256 op) (start keccak256 id) ops →
    ∀ n : UInt8, s.bucket n ≠ [] → s.ReturnsOldest n := by
  intro h
  obtain ⟨s, hr, hs⟩ := Option.map_eq_some_iff.1 verifyAndSee_run
  simp only [Prod.mk.injEq] at hs
  obtain ⟨hbucket, holdest, hfirst, hsecond⟩ := hs
  obtain ⟨node, -, hnode, hle⟩ :=
    h sampleHash (sampleId 0) verifyAndSee s hr verifyAndSee_along 255 (by rw [hbucket]; simp)
  rw [holdest] at hnode
  cases hnode
  have h3 := hle (sampleNode 3) (by rw [hbucket]; simp)
  simp only [sampleNode] at h3
  omega

end Aged

end Discv4

end EthereumSentry
