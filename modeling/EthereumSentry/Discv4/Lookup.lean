import EthereumSentry.Discv4.Message
import EthereumSentry.Discv4.Structure
import Mathlib.Data.Finset.Card

/-!
# Iterative lookups

A lookup asks the nodes that are closest to its target for nodes that are closer, round by round, until the closest
nodes that it knows have all been asked (`Lookup.run`). Every round asks nodes at distances that were not asked before,
of which there are finitely many, so the lookup ends. `lookup_complete` says what it has done then.
-/

set_option autoImplicit false

namespace EthereumSentry

namespace Discv4

def alpha : Nat := 3

structure QueryNode where
  record : NodeRecord
  queried : Bool
  responded : Bool
  deriving DecidableEq

abbrev NearestNodes : Type := Std.TreeMap H256 QueryNode

/-- A node that was asked, in a round. -/
structure Query where
  lookupRound : Nat
  distance : H256
  record : NodeRecord
  deriving DecidableEq

/-- What the queries of the rounds are answered with, by the distances of the nodes that are asked. -/
abbrev Answers : Type := Nat → H256 → Option (List NeighboursMessage)

/-- The state of a lookup, with what it has asked and been told. -/
structure Lookup where
  nearestNodes : NearestNodes
  lookupRound : Nat
  asked : List Query
  told : List (H256 × List NeighboursMessage)

/-- The records of the table by their distances. -/
def Table.nearestNodeEntries (keccak256 : Bytes → H256) (t : Table) (target : NodeId) : Std.TreeMap H256 NodeRecord :=
  Std.TreeMap.ofList (t.records.map fun n => (distance keccak256 n.id target, n))

/-- The distances of the records of the table. -/
def Table.distances (keccak256 : Bytes → H256) (t : Table) (target : NodeId) : Finset H256 :=
  (t.records.map fun n => distance keccak256 target n.id).toFinset

/-- One of the `alpha` closest distances of the table. -/
def Table.IsSeed (keccak256 : Bytes → H256) (t : Table) (target : NodeId) (d : H256) : Prop :=
  d ∈ t.distances keccak256 target ∧ ((t.distances keccak256 target).filter fun d' => d'.toNat < d.toNat).card < alpha

namespace Lookup

section

variable (keccak256 : Bytes → H256) (target : NodeId) (answers : Answers)

/-- The closest nodes of the table. -/
def start (t : Table) : Lookup where
  nearestNodes := Std.TreeMap.ofList <| ((t.nearestNodeEntries keccak256 target).toList.map fun (distance, record) =>
    (distance, QueryNode.mk record false false)).take alpha
  lookupRound := 0
  asked := []
  told := []

/-- The nodes of the closest ones that were not queried yet. -/
def pickedNodes (s : Lookup) : List (H256 × QueryNode) :=
  (s.nearestNodes.toList.take alpha).filter fun (_, node) => !node.queried

/-- A query is sent to a node. -/
def query (s : Lookup) (distance : H256) (node : QueryNode) : Lookup :=
  { s with
    nearestNodes := s.nearestNodes.modify distance fun node => { node with queried := true }
    asked := s.asked ++ [⟨s.lookupRound, distance, node.record⟩] }

/-- A node that was not seen yet is added. -/
def discover (nearestNodes : NearestNodes) (record : NodeRecord) : NearestNodes :=
  nearestNodes.insertIfNew (Table.distance keccak256 target record.id) ⟨record, false, false⟩

/-- A query has been answered. The node has to be there. -/
def respond (s : Lookup) (distance : H256) (messages : List NeighboursMessage) : Option Lookup :=
  if distance ∈ s.nearestNodes then
    let nearestNodes := s.nearestNodes.modify distance fun node => { node with responded := true }
    some { s with
      nearestNodes := messages.foldl (fun nearestNodes message =>
        message.nodes.foldl (discover keccak256 target) nearestNodes) nearestNodes
      told := s.told ++ [(distance, messages)] }
  else none

/-- A query ends. -/
def finish (s : Lookup) (distance : H256) : Option Lookup :=
  match answers s.lookupRound distance with
  | some messages => s.respond keccak256 target distance messages
  | none => some s

/-- One round: all picked nodes are queried, and the answers are taken in their order. -/
def round (s : Lookup) : Option Lookup := do
  let pickedNodes := s.pickedNodes
  let s := pickedNodes.foldl (fun s (distance, node) => s.query distance node) s
  let s ← pickedNodes.foldlM (fun s (distance, _) => s.finish keccak256 target answers distance) s
  return { s with lookupRound := s.lookupRound + 1 }

/-- The records of the nodes that have answered, closest first. -/
def result (s : Lookup) : List NodeRecord :=
  s.nearestNodes.toList.filterMap fun (_, node) => if node.responded then some node.record else none

end

variable {keccak256 : Bytes → H256} {target : NodeId} {answers : Answers} {s s' : Lookup}

/-! ## What a query and an answer do -/

theorem getElem_query (d : H256) (node : QueryNode) (k : H256) : (s.query d node).nearestNodes[k]? =
    if d = k then s.nearestNodes[k]?.map fun node => { node with queried := true } else s.nearestNodes[k]? := by
  simp only [query, Std.TreeMap.getElem?_modify, Std.LawfulEqOrd.compare_eq_iff_eq]
  split
  · rename_i h
    rw [h]
  · rfl

/-- Records were added, unless there was one at their distance. -/
structure Learns (keccak256 : Bytes → H256) (target : NodeId) (records : List NodeRecord) (m m' : NearestNodes) :
    Prop where
  kept : ∀ (k : H256) node, m[k]? = some node → m'[k]? = some node
  added : ∀ (k : H256) node, m'[k]? = some node → m[k]? = some node ∨
    k ∉ m ∧ ∃ record ∈ records, node = ⟨record, false, false⟩ ∧ Table.distance keccak256 target record.id = k
  known : ∀ record ∈ records, Table.distance keccak256 target record.id ∈ m'

theorem mem_of_getElem {m : NearestNodes} {k : H256} {node : QueryNode} (h : m[k]? = some node) : k ∈ m :=
  Std.TreeMap.mem_iff_isSome_getElem?.2 (Option.isSome_of_eq_some h)

theorem exists_of_mem {m : NearestNodes} {k : H256} (h : k ∈ m) : ∃ node, m[k]? = some node :=
  Option.isSome_iff_exists.1 (Std.TreeMap.mem_iff_isSome_getElem?.1 h)

theorem getElem_discover (m : NearestNodes) (record : NodeRecord) (k : H256) :
    (discover keccak256 target m record)[k]? =
      if Table.distance keccak256 target record.id = k ∧ k ∉ m then some ⟨record, false, false⟩ else m[k]? := by
  simp only [discover, Std.TreeMap.getElem?_insertIfNew, Std.LawfulEqOrd.compare_eq_iff_eq]
  by_cases h : Table.distance keccak256 target record.id = k
  · rw [h]
  · rw [if_neg fun hc => h hc.1, if_neg fun hc => h hc.1]

theorem foldl_discover (keccak256 : Bytes → H256) (target : NodeId) (records : List NodeRecord) : ∀ m : NearestNodes,
    Learns keccak256 target records m (records.foldl (discover keccak256 target) m) := by
  induction records with
  | nil => exact fun m => ⟨fun _ _ h => h, fun _ _ h => .inl h, fun _ h => nomatch h⟩
  | cons record records ih =>
    intro m
    have hrest := ih (discover keccak256 target m record)
    have hkept : ∀ (k : H256) node, m[k]? = some node → (discover keccak256 target m record)[k]? = some node := by
      intro k node h
      rw [getElem_discover, if_neg fun hc => hc.2 (mem_of_getElem h), h]
    refine ⟨fun k node h => hrest.kept k node (hkept k node h), fun k node h => ?_, fun r hr => ?_⟩
    · rcases hrest.added k node h with h | ⟨hnot, r, hr, hnode, hd⟩
      · rw [getElem_discover] at h
        split at h
        · rename_i hnew
          exact .inr ⟨hnew.2, record, List.mem_cons_self, (Option.some.inj h).symm, hnew.1⟩
        · exact .inl h
      · refine .inr ⟨fun hmem => hnot ?_, r, List.mem_cons_of_mem _ hr, hnode, hd⟩
        obtain ⟨node', hnode'⟩ := exists_of_mem hmem
        exact mem_of_getElem (hkept k node' hnode')
    · rcases List.mem_cons.1 hr with rfl | hr
      · have hmem : Table.distance keccak256 target r.id ∈ discover keccak256 target m r := by
          simp [discover]
        obtain ⟨node, hnode⟩ := exists_of_mem hmem
        exact mem_of_getElem (hrest.kept _ node hnode)
      · exact hrest.known r hr

/-- **What an answer does**: its node has responded, and its records are added. -/
theorem respond_spec (keccak256 : Bytes → H256) (target : NodeId) {d : H256} (messages : List NeighboursMessage)
    (hd : d ∈ s.nearestNodes) : ∃ s', s.respond keccak256 target d messages = some s' ∧
      s'.lookupRound = s.lookupRound ∧ s'.asked = s.asked ∧ s'.told = s.told ++ [(d, messages)] ∧
      Learns keccak256 target (messages.flatMap (·.nodes))
        (s.nearestNodes.modify d fun node => { node with responded := true }) s'.nearestNodes := by
  refine ⟨_, if_pos hd, rfl, rfl, rfl, ?_⟩
  have hfold := foldl_discover keccak256 target (messages.flatMap (·.nodes))
    (s.nearestNodes.modify d fun node => { node with responded := true })
  rwa [List.foldl_flatMap] at hfold

/-! ## Queried nodes -/

/-- There is a node at the distance, which was queried. -/
def Queried (s : Lookup) (d : H256) : Prop := ∃ node, s.nearestNodes[d]? = some node ∧ node.queried = true

theorem Queried.query {k : H256} (h : s.Queried k) (d : H256) (node : QueryNode) : (s.query d node).Queried k := by
  obtain ⟨node', hnode', hq⟩ := h
  rw [Queried, getElem_query]
  split
  · rw [hnode']
    exact ⟨_, rfl, rfl⟩
  · exact ⟨node', hnode', hq⟩

theorem Queried.finish {k d : H256} (h : s.Queried k) (hs : s.finish keccak256 target answers d = some s') :
    s'.Queried k := by
  unfold Lookup.finish at hs
  split at hs
  · rename_i messages _
    by_cases hd : d ∈ s.nearestNodes
    · obtain ⟨s₁, hs₁, -, -, -, hlearns⟩ := respond_spec keccak256 target messages hd
      obtain rfl : s₁ = s' := Option.some.inj (hs₁.symm.trans hs)
      obtain ⟨node, hnode, hq⟩ := h
      have hmodify : (s.nearestNodes.modify d fun node => { node with responded := true })[k]? =
          some (if d = k then { node with responded := true } else node) := by
        simp only [Std.TreeMap.getElem?_modify, Std.LawfulEqOrd.compare_eq_iff_eq]
        split
        · rename_i hk
          rw [hk, hnode]
          rfl
        · exact hnode
      refine ⟨_, hlearns.kept k _ hmodify, ?_⟩
      split <;> exact hq
    · rw [respond, if_neg hd] at hs
      cases hs
  · cases hs
    exact h

theorem mem_pickedNodes {p : H256 × QueryNode} (h : p ∈ s.pickedNodes) :
    s.nearestNodes[p.1]? = some p.2 ∧ p.2.queried = false := by
  obtain ⟨hmem, hq⟩ := List.mem_filter.1 h
  refine ⟨?_, by simpa using hq⟩
  rw [← Std.TreeMap.mem_toList_iff_getElem?_eq_some]
  exact (List.take_subset _ _) hmem

theorem mem_query {k : H256} (h : k ∈ s.nearestNodes) (d : H256) (node : QueryNode) :
    k ∈ (s.query d node).nearestNodes :=
  Std.TreeMap.mem_modify.2 h

/-- The queries of a round leave every node that is picked queried. -/
theorem queried_foldl_query : ∀ (l : List (H256 × QueryNode)) (s : Lookup),
    (∀ k, s.Queried k → (l.foldl (fun s p => s.query p.1 p.2) s).Queried k) ∧
      ∀ p ∈ l, p.1 ∈ s.nearestNodes → (l.foldl (fun s p => s.query p.1 p.2) s).Queried p.1
  | [], _ => ⟨fun _ h => h, fun _ h => nomatch h⟩
  | p :: l, s => by
    obtain ⟨hkept, hmem⟩ := queried_foldl_query l (s.query p.1 p.2)
    refine ⟨fun k h => hkept k (h.query p.1 p.2), fun p' hp' hin => ?_⟩
    rcases List.mem_cons.1 hp' with rfl | hp'
    · obtain ⟨node, hnode⟩ := exists_of_mem hin
      refine hkept _ ⟨{ node with queried := true }, ?_, rfl⟩
      rw [getElem_query, if_pos rfl, hnode]
      rfl
    · exact hmem p' hp' (mem_query hin p.1 p.2)

theorem queried_foldlM_finish : ∀ (l : List (H256 × QueryNode)) {s s' : Lookup},
    l.foldlM (fun s p => s.finish keccak256 target answers p.1) s = some s' → ∀ k, s.Queried k → s'.Queried k
  | [], s, s', h, _, hk => by
    cases h
    exact hk
  | p :: l, s, s', h, k, hk => by
    obtain ⟨s₁, h₁, h⟩ := Option.bind_eq_some_iff.1 h
    exact queried_foldlM_finish l h k (hk.finish h₁)

/-- **A round queries more nodes.** -/
theorem queried_round (h : s.round keccak256 target answers = some s') :
    (∀ k, s.Queried k → s'.Queried k) ∧ ∀ p ∈ s.pickedNodes, s'.Queried p.1 := by
  obtain ⟨s₁, h₁, h⟩ := Option.bind_eq_some_iff.1 h
  cases h
  obtain ⟨hkept, hpicked⟩ := queried_foldl_query s.pickedNodes s
  have hfinish := queried_foldlM_finish s.pickedNodes h₁
  exact ⟨fun k hk => hfinish k (hkept k hk),
    fun p hp => hfinish _ (hpicked p hp (mem_of_getElem (mem_pickedNodes hp).1))⟩

/-- The distances that were queried. -/
def queriedDistances (s : Lookup) : Finset Nat :=
  ((s.nearestNodes.toList.filter (·.2.queried)).map (·.1.toNat)).toFinset

theorem mem_queriedDistances {x : Nat} : x ∈ s.queriedDistances ↔ ∃ d, s.Queried d ∧ d.toNat = x := by
  simp only [queriedDistances, List.mem_toFinset, List.mem_map, List.mem_filter, Prod.exists,
    Std.TreeMap.mem_toList_iff_getElem?_eq_some, Queried]
  constructor
  · rintro ⟨d, node, ⟨hnode, hq⟩, rfl⟩
    exact ⟨d, ⟨node, hnode, hq⟩, rfl⟩
  · rintro ⟨d, ⟨node, hnode, hq⟩, rfl⟩
    exact ⟨d, node, ⟨hnode, hq⟩, rfl⟩

theorem card_queriedDistances_le (s : Lookup) : s.queriedDistances.card ≤ 256 ^ 32 := by
  have hsub : s.queriedDistances ⊆ Finset.range (256 ^ 32) := fun x hx => by
    obtain ⟨d, -, rfl⟩ := mem_queriedDistances.1 hx
    exact Finset.mem_range.2 d.toNat_lt
  simpa using Finset.card_le_card hsub

theorem card_queriedDistances_lt (hp : s.pickedNodes ≠ []) (h : s.round keccak256 target answers = some s') :
    s.queriedDistances.card < s'.queriedDistances.card := by
  obtain ⟨hkept, hpicked⟩ := queried_round h
  obtain ⟨p, hp⟩ := List.exists_mem_of_ne_nil _ hp
  obtain ⟨hnode, hfresh⟩ := mem_pickedNodes hp
  refine Finset.card_lt_card (Finset.ssubset_iff_of_subset (fun x hx => ?_) |>.2 ⟨p.1.toNat, ?_, fun hx => ?_⟩)
  · obtain ⟨d, hd, rfl⟩ := mem_queriedDistances.1 hx
    exact mem_queriedDistances.2 ⟨d, hkept d hd, rfl⟩
  · exact mem_queriedDistances.2 ⟨p.1, hpicked p hp, rfl⟩
  · obtain ⟨d, ⟨node, hd, hq⟩, hx⟩ := mem_queriedDistances.1 hx
    obtain rfl := FixedBytes.toNat_inj.1 hx
    rw [hnode, Option.some.injEq] at hd
    rw [← hd, hfresh] at hq
    cases hq

/-- Rounds, until no node is picked. Every round queries another distance. -/
def run (keccak256 : Bytes → H256) (target : NodeId) (answers : Answers) (s : Lookup) : Option Lookup :=
  if _hp : s.pickedNodes = [] then some s
  else
    match _h : s.round keccak256 target answers with
    | none => none
    | some s' => run keccak256 target answers s'
  termination_by 256 ^ 32 - s.queriedDistances.card
  decreasing_by
    have hlt := card_queriedDistances_lt _hp _h
    have hle := card_queriedDistances_le s'
    omega

/-! ## What a lookup knows -/

variable {seeds : H256 → Prop} {records : List NodeRecord}

/-- The nodes are those that the lookup started with or was told of, at their distances. Those were queried that were
asked, and those have responded that have told something; nobody was asked twice. -/
structure Inv (keccak256 : Bytes → H256) (target : NodeId) (seeds : H256 → Prop) (records : List NodeRecord)
    (s : Lookup) : Prop where
  keyed : ∀ (d : H256) node, s.nearestNodes[d]? = some node → Table.distance keccak256 target node.record.id = d
  queried : ∀ (d : H256) node, s.nearestNodes[d]? = some node →
    (node.queried = true ↔ d ∈ s.asked.map Query.distance)
  responded : ∀ (d : H256) node, s.nearestNodes[d]? = some node → (node.responded = true ↔ d ∈ s.told.map Prod.fst)
  found : ∀ q ∈ s.asked, ∃ node, s.nearestNodes[q.distance]? = some node ∧ node.record = q.record
  once : (s.asked.map Query.distance).Nodup
  answers : s.told.map Prod.fst ⊆ s.asked.map Query.distance
  known : ∀ d, d ∈ s.nearestNodes ↔ seeds d ∨
    ∃ x ∈ s.told, ∃ m ∈ x.2, ∃ record ∈ m.nodes, Table.distance keccak256 target record.id = d
  sourced : ∀ (d : H256) node, s.nearestNodes[d]? = some node → node.record ∈ records ∨
    ∃ x ∈ s.told, ∃ m ∈ x.2, node.record ∈ m.nodes

theorem Inv.mem_of_asked (hs : s.Inv keccak256 target seeds records) {d : H256} (hd : d ∈ s.asked.map Query.distance) :
    d ∈ s.nearestNodes := by
  obtain ⟨q, hq, rfl⟩ := List.mem_map.1 hd
  obtain ⟨node, hnode, -⟩ := hs.found q hq
  exact mem_of_getElem hnode

/-- A query of a node that was not asked. -/
theorem Inv.query (hs : s.Inv keccak256 target seeds records) {d : H256} {node node' : QueryNode}
    (hd : s.nearestNodes[d]? = some node') (hrecord : node'.record = node.record)
    (hnew : d ∉ s.asked.map Query.distance) : (s.query d node).Inv keccak256 target seeds records := by
  have hget : ∀ (k : H256) n, (s.query d node).nearestNodes[k]? = some n →
      ∃ n', s.nearestNodes[k]? = some n' ∧ n = if d = k then { n' with queried := true } else n' := fun k n h => by
    rw [getElem_query] at h
    split at h
    · rename_i hk
      obtain ⟨n', hn', rfl⟩ := Option.map_eq_some_iff.1 h
      exact ⟨n', hn', (if_pos hk).symm⟩
    · rename_i hk
      exact ⟨n, h, (if_neg hk).symm⟩
  have hasked : (s.query d node).asked.map Query.distance = s.asked.map Query.distance ++ [d] := by
    simp [Lookup.query]
  refine ⟨fun k n h => ?_, fun k n h => ?_, fun k n h => ?_, fun q hq => ?_, ?_, fun x hx => ?_, fun k => ?_,
    fun k n h => ?_⟩
  · obtain ⟨n', hn', rfl⟩ := hget k n h
    rw [apply_ite QueryNode.record, ite_self]
    exact hs.keyed k n' hn'
  · obtain ⟨n', hn', rfl⟩ := hget k n h
    rw [hasked, List.mem_append, List.mem_singleton]
    by_cases hk : d = k
    · rw [if_pos hk]
      exact iff_of_true rfl (.inr hk.symm)
    · rw [if_neg hk, hs.queried k n' hn']
      exact ⟨.inl, fun h => h.resolve_right fun he => hk he.symm⟩
  · obtain ⟨n', hn', rfl⟩ := hget k n h
    rw [apply_ite QueryNode.responded, ite_self]
    exact hs.responded k n' hn'
  · have hkeep : ∀ (k : H256) n', s.nearestNodes[k]? = some n' →
        ∃ n, (s.query d node).nearestNodes[k]? = some n ∧ n.record = n'.record := fun k n' hn' => by
      rw [getElem_query, hn']
      split <;> exact ⟨_, rfl, rfl⟩
    rcases List.mem_append.1 hq with hq | hq
    · obtain ⟨n', hn', hr⟩ := hs.found q hq
      obtain ⟨n, hn, hr'⟩ := hkeep _ n' hn'
      exact ⟨n, hn, hr'.trans hr⟩
    · obtain rfl := List.mem_singleton.1 hq
      obtain ⟨n, hn, hr'⟩ := hkeep d node' hd
      exact ⟨n, hn, hr'.trans hrecord⟩
  · rw [hasked]
    exact hs.once.append (List.nodup_singleton d) (by simpa using hnew)
  · rw [hasked]
    exact List.mem_append_left _ (hs.answers hx)
  · exact Std.TreeMap.mem_modify.trans (hs.known k)
  · obtain ⟨n', hn', rfl⟩ := hget k n h
    rw [apply_ite QueryNode.record, ite_self]
    exact hs.sourced k n' hn'

/-- An answer of a node that was asked. -/
theorem Inv.respond (hs : s.Inv keccak256 target seeds records) {d : H256} (messages : List NeighboursMessage)
    (hd : d ∈ s.asked.map Query.distance) : ∃ s', s.respond keccak256 target d messages = some s' ∧
      s'.lookupRound = s.lookupRound ∧ s'.asked = s.asked ∧ s'.told = s.told ++ [(d, messages)] ∧
      s'.Inv keccak256 target seeds records := by
  obtain ⟨s', hs', hround, hasked, htold, hlearns⟩ := respond_spec keccak256 target messages (hs.mem_of_asked hd)
  refine ⟨s', hs', hround, hasked, htold, ?_⟩
  have hfst : s'.told.map Prod.fst = s.told.map Prod.fst ++ [d] := by simp [htold]
  have hmodify : ∀ (k : H256), (s.nearestNodes.modify d fun node => { node with responded := true })[k]? =
      s.nearestNodes[k]?.map fun n => if d = k then { n with responded := true } else n := fun k => by
    simp only [Std.TreeMap.getElem?_modify, Std.LawfulEqOrd.compare_eq_iff_eq]
    split
    · rename_i hk
      rw [hk]
    · rw [Option.map_id']
  -- a node is as before but for the response, or it is new
  have hget : ∀ (k : H256) n, s'.nearestNodes[k]? = some n →
      (∃ n', s.nearestNodes[k]? = some n' ∧ n = if d = k then { n' with responded := true } else n') ∨
      k ∉ s.nearestNodes ∧ n.queried = false ∧ n.responded = false ∧
        Table.distance keccak256 target n.record.id = k ∧ ∃ m ∈ messages, n.record ∈ m.nodes := fun k n h => by
    rcases hlearns.added k n h with h | ⟨hnot, record, hrecord, rfl, hk⟩
    · rw [hmodify] at h
      obtain ⟨n', hn', rfl⟩ := Option.map_eq_some_iff.1 h
      exact .inl ⟨n', hn', rfl⟩
    · exact .inr ⟨fun hk => hnot (Std.TreeMap.mem_modify.2 hk), rfl, rfl, hk, List.mem_flatMap.1 hrecord⟩
  refine ⟨fun k n h => ?_, fun k n h => ?_, fun k n h => ?_, fun q hq => ?_, ?_, fun x hx => ?_, fun k => ?_,
    fun k n h => ?_⟩
  · rcases hget k n h with ⟨n', hn', rfl⟩ | ⟨-, -, -, hk, -⟩
    · rw [apply_ite QueryNode.record, ite_self]
      exact hs.keyed k n' hn'
    · exact hk
  · rw [hasked]
    rcases hget k n h with ⟨n', hn', rfl⟩ | ⟨hnot, hq, -⟩
    · rw [apply_ite QueryNode.queried, ite_self]
      exact hs.queried k n' hn'
    · rw [hq]
      exact iff_of_false Bool.false_ne_true fun hk => hnot (hs.mem_of_asked hk)
  · rw [hfst, List.mem_append, List.mem_singleton]
    rcases hget k n h with ⟨n', hn', rfl⟩ | ⟨hnot, -, hr, -⟩
    · by_cases hk : d = k
      · rw [if_pos hk]
        exact iff_of_true rfl (.inr hk.symm)
      · rw [if_neg hk, hs.responded k n' hn']
        exact ⟨.inl, fun h => h.resolve_right fun he => hk he.symm⟩
    · rw [hr]
      refine iff_of_false Bool.false_ne_true fun hk => hnot (hs.mem_of_asked ?_)
      exact hk.elim (fun hk => hs.answers hk) fun hk => hk ▸ hd
  · rw [hasked] at hq
    obtain ⟨n', hn', hr⟩ := hs.found q hq
    have hmod : (s.nearestNodes.modify d fun node => { node with responded := true })[q.distance]? =
        some (if d = q.distance then { n' with responded := true } else n') := by rw [hmodify, hn', Option.map_some]
    refine ⟨_, hlearns.kept _ _ hmod, ?_⟩
    rw [apply_ite QueryNode.record, ite_self]
    exact hr
  · rw [hasked]
    exact hs.once
  · rw [hasked]
    rw [hfst, List.mem_append, List.mem_singleton] at hx
    exact hx.elim (fun hx => hs.answers hx) fun hx => hx ▸ hd
  · rw [htold]
    constructor
    · intro hk
      obtain ⟨n, hn⟩ := exists_of_mem hk
      rcases hlearns.added k n hn with h | ⟨-, record, hrecord, -, hk⟩
      · have hold : k ∈ s.nearestNodes := Std.TreeMap.mem_modify.1 (mem_of_getElem h)
        refine ((hs.known k).1 hold).imp_right ?_
        rintro ⟨x, hx, hm⟩
        exact ⟨x, List.mem_append_left _ hx, hm⟩
      · obtain ⟨m, hm, hrecord⟩ := List.mem_flatMap.1 hrecord
        exact .inr ⟨(d, messages), List.mem_append_right _ (List.mem_singleton_self _), m, hm, record, hrecord, hk⟩
    · have hkept : ∀ k, k ∈ s.nearestNodes → k ∈ s'.nearestNodes := fun k hk => by
        obtain ⟨n, hn⟩ := exists_of_mem (Std.TreeMap.mem_modify.2 hk)
        exact mem_of_getElem (hlearns.kept k n hn)
      rintro (hk | ⟨x, hx, m, hm, record, hrecord, hk⟩)
      · exact hkept k ((hs.known k).2 (.inl hk))
      · rcases List.mem_append.1 hx with hx | hx
        · exact hkept k ((hs.known k).2 (.inr ⟨x, hx, m, hm, record, hrecord, hk⟩))
        · obtain rfl := List.mem_singleton.1 hx
          exact hk ▸ hlearns.known record (List.mem_flatMap.2 ⟨m, hm, hrecord⟩)
  · rw [htold]
    rcases hget k n h with ⟨n', hn', rfl⟩ | ⟨-, -, -, -, hm⟩
    · rw [apply_ite QueryNode.record, ite_self]
      exact (hs.sourced k n' hn').imp_right fun ⟨x, hx, hm⟩ => ⟨x, List.mem_append_left _ hx, hm⟩
    · exact .inr ⟨(d, messages), List.mem_append_right _ (List.mem_singleton_self _), hm⟩

/-! ## Rounds -/

/-- What was told is what the queries were answered with. -/
def Settled (answers : Answers) (s : Lookup) : Prop :=
  s.told = s.asked.filterMap fun q => (answers q.lookupRound q.distance).map fun messages => (q.distance, messages)

/-- The queries of a round. -/
theorem Inv.foldl_query : ∀ (l : List (H256 × QueryNode)) {s : Lookup}, s.Inv keccak256 target seeds records →
    (∀ p ∈ l, ∃ node, s.nearestNodes[p.1]? = some node ∧ node.record = p.2.record) →
    (∀ p ∈ l, p.1 ∉ s.asked.map Query.distance) → (l.map Prod.fst).Nodup →
    let s' := l.foldl (fun s p => s.query p.1 p.2) s
    s'.Inv keccak256 target seeds records ∧ s'.lookupRound = s.lookupRound ∧ s'.told = s.told ∧
      s'.asked = s.asked ++ l.map fun p => ⟨s.lookupRound, p.1, p.2.record⟩
  | [], s, hs, _, _, _ => ⟨hs, rfl, rfl, (List.append_nil _).symm⟩
  | p :: l, s, hs, hfound, hnew, hnodup => by
    obtain ⟨node, hnode, hrecord⟩ := hfound p List.mem_cons_self
    obtain ⟨hp, hnodup⟩ := List.nodup_cons.1 hnodup
    have hquery := hs.query hnode hrecord (hnew p List.mem_cons_self)
    have hfound' : ∀ p' ∈ l, ∃ node, (s.query p.1 p.2).nearestNodes[p'.1]? = some node ∧ node.record = p'.2.record := by
      intro p' hp'
      obtain ⟨node', hnode', hrecord'⟩ := hfound p' (List.mem_cons_of_mem _ hp')
      have hne : p.1 ≠ p'.1 := fun he => hp (he ▸ List.mem_map_of_mem hp')
      exact ⟨node', by rwa [getElem_query, if_neg hne], hrecord'⟩
    have hnew' : ∀ p' ∈ l, p'.1 ∉ (s.query p.1 p.2).asked.map Query.distance := by
      intro p' hp'
      have hne : p'.1 ≠ p.1 := fun he => hp (he ▸ List.mem_map_of_mem hp')
      simpa [Lookup.query, hne] using hnew p' (List.mem_cons_of_mem _ hp')
    obtain ⟨hinv, hround, htold, hasked⟩ := Inv.foldl_query l hquery hfound' hnew' hnodup
    exact ⟨hinv, hround, htold, hasked.trans (by simp [Lookup.query])⟩

/-- The answers of a round. -/
theorem Inv.foldlM_finish (answers : Answers) : ∀ (l : List (H256 × QueryNode)) {s : Lookup},
    s.Inv keccak256 target seeds records → (∀ p ∈ l, p.1 ∈ s.asked.map Query.distance) →
    ∃ s', l.foldlM (fun s p => s.finish keccak256 target answers p.1) s = some s' ∧
      s'.Inv keccak256 target seeds records ∧ s'.asked = s.asked ∧ s'.told = s.told ++
        l.filterMap fun p => (answers s.lookupRound p.1).map fun messages => (p.1, messages)
  | [], s, hs, _ => ⟨s, rfl, hs, rfl, (List.append_nil _).symm⟩
  | p :: l, s, hs, hasked => by
    have hl : ∀ p' ∈ l, p'.1 ∈ s.asked.map Query.distance := fun p' hp' => hasked p' (List.mem_cons_of_mem _ hp')
    cases ha : answers s.lookupRound p.1 with
    | none =>
      obtain ⟨s', hs', hinv, hsame, htold⟩ := Inv.foldlM_finish answers l hs hl
      refine ⟨s', ?_, hinv, hsame, by rw [htold, List.filterMap_cons, ha]; rfl⟩
      rw [List.foldlM_cons, Lookup.finish, ha]
      exact hs'
    | some messages =>
      obtain ⟨s₁, hs₁, hround₁, hasked₁, htold₁, hinv₁⟩ := hs.respond messages (hasked p List.mem_cons_self)
      obtain ⟨s', hs', hinv, hsame, htold⟩ := Inv.foldlM_finish answers l hinv₁ (hasked₁ ▸ hl)
      refine ⟨s', ?_, hinv, hsame.trans hasked₁, ?_⟩
      · rw [List.foldlM_cons, Lookup.finish, ha]
        simp only [hs₁]
        exact hs'
      · rw [htold, htold₁, hround₁, List.filterMap_cons, ha, Option.map_some, List.append_assoc]
        rfl

theorem nodup_keys (m : NearestNodes) : (m.toList.map Prod.fst).Nodup := by
  rw [List.Nodup, List.pairwise_map]
  exact Std.TreeMap.distinct_keys_toList.imp fun h he => h (Std.LawfulEqOrd.compare_eq_iff_eq.2 he)

/-- **A round does not panic**, and keeps what the lookup knows. -/
theorem Inv.round (hs : s.Inv keccak256 target seeds records) (ha : s.Settled answers) : ∃ s',
    s.round keccak256 target answers = some s' ∧ s'.Inv keccak256 target seeds records ∧ s'.Settled answers := by
  have hnew : ∀ p ∈ s.pickedNodes, p.1 ∉ s.asked.map Query.distance := fun p hp hasked => by
    obtain ⟨hnode, hq⟩ := mem_pickedNodes hp
    rw [(hs.queried p.1 p.2 hnode).2 hasked] at hq
    cases hq
  have hnodup : (s.pickedNodes.map Prod.fst).Nodup :=
    (nodup_keys s.nearestNodes).sublist ((List.filter_sublist.trans (List.take_sublist _ _)).map _)
  obtain ⟨hinv₁, hround₁, htold₁, hasked₁⟩ := Inv.foldl_query s.pickedNodes hs
    (fun p hp => ⟨p.2, (mem_pickedNodes hp).1, rfl⟩) hnew hnodup
  obtain ⟨s', hs', hinv, hsame, htold⟩ := Inv.foldlM_finish answers s.pickedNodes hinv₁ (fun p hp => by
    rw [hasked₁]
    simp only [List.map_append, List.map_map, List.mem_append, List.mem_map]
    exact .inr ⟨p, hp, rfl⟩)
  refine ⟨{ s' with lookupRound := s'.lookupRound + 1 }, ?_, ?_, ?_⟩
  · unfold Lookup.round
    exact Option.bind_eq_some_iff.2 ⟨s', hs', rfl⟩
  · exact ⟨hinv.keyed, hinv.queried, hinv.responded, hinv.found, hinv.once, hinv.answers, hinv.known,
      hinv.sourced⟩
  · simp only [Settled, htold, hsame, hasked₁, htold₁, hround₁, List.filterMap_append, List.filterMap_map]
    rw [← ha]
    rfl

/-- **The lookup ends** when no node is left to pick. -/
theorem Inv.run (hs : s.Inv keccak256 target seeds records) (answers : Answers) (ha : s.Settled answers) : ∃ s',
    s.run keccak256 target answers = some s' ∧ s'.Inv keccak256 target seeds records ∧ s'.Settled answers ∧
      s'.pickedNodes = [] := by
  fun_induction Lookup.run keccak256 target answers s with
  | case1 s hp => exact ⟨s, rfl, hs, ha, hp⟩
  | case2 s _ h =>
    obtain ⟨s', hs', -⟩ := hs.round ha
    rw [h] at hs'
    cases hs'
  | case3 s _ s₁ h ih =>
    obtain ⟨s', hs', hinv, hsettled⟩ := hs.round ha
    obtain rfl := Option.some.inj (h.symm.trans hs')
    exact ih hinv hsettled

/-! ## The start -/

theorem mem_of_getElem_insertMany {κ ν : Type} [Ord κ] [Std.TransOrd κ] [Std.LawfulEqOrd κ] {k : κ} {v : ν} :
    ∀ (l : List (κ × ν)) (m : Std.TreeMap κ ν), (m.insertMany l)[k]? = some v → (k, v) ∈ l ∨ m[k]? = some v
  | [], m, h => .inr (by rwa [Std.TreeMap.insertMany_nil] at h)
  | (k', v') :: l, m, h => by
    rw [Std.TreeMap.insertMany_cons] at h
    rcases mem_of_getElem_insertMany l _ h with hl | hinsert
    · exact .inl (List.mem_cons_of_mem _ hl)
    · rw [Std.TreeMap.getElem?_insert] at hinsert
      by_cases hk : compare k' k = .eq
      · rw [if_pos hk, Option.some.injEq] at hinsert
        obtain rfl := Std.LawfulEqOrd.compare_eq_iff_eq.1 hk
        exact .inl (hinsert ▸ List.mem_cons_self)
      · exact .inr (by rwa [if_neg hk] at hinsert)

/-- What is found in a map was in the list that it was made of. -/
theorem mem_of_getElem_ofList {κ ν : Type} [Ord κ] [Std.TransOrd κ] [Std.LawfulEqOrd κ] {l : List (κ × ν)} {k : κ}
    {v : ν} (h : (Std.TreeMap.ofList l)[k]? = some v) : (k, v) ∈ l := by
  rw [Std.TreeMap.ofList_eq_insertMany_empty] at h
  exact (mem_of_getElem_insertMany l ∅ h).resolve_right (by simp)

/-- A node at the start has a record of the table, and is at its distance. -/
theorem getElem_start {t : Table} {d : H256} {node : QueryNode}
    (h : (start keccak256 target t).nearestNodes[d]? = some node) : node.record ∈ t.records ∧
      Table.distance keccak256 target node.record.id = d ∧ node.queried = false ∧ node.responded = false := by
  have hmem := (List.take_subset _ _) (mem_of_getElem_ofList h)
  obtain ⟨⟨d', record⟩, hentry, heq⟩ := List.mem_map.1 hmem
  simp only [Prod.mk.injEq] at heq
  obtain ⟨rfl, rfl⟩ := heq
  rw [Std.TreeMap.mem_toList_iff_getElem?_eq_some] at hentry
  obtain ⟨n, hn, heq⟩ := List.mem_map.1 (mem_of_getElem_ofList hentry)
  simp only [Prod.mk.injEq] at heq
  obtain ⟨rfl, rfl⟩ := heq
  exact ⟨hn, FixedBytes.xor_comm _ _, rfl, rfl⟩

/-- In an ascending list, the first elements are those that have few elements below them. -/
theorem mem_take_iff_card_lt {α : Type} [DecidableEq α] (f : α → Nat) : ∀ {l : List α},
    l.Pairwise (fun a b => f a < f b) → ∀ {n : Nat} {x : α},
      x ∈ l.take n ↔ x ∈ l ∧ (l.toFinset.filter fun y => f y < f x).card < n
  | [], _, n, x => by simp
  | a :: l, _, 0, x => by simp
  | a :: l, h, n + 1, x => by
    obtain ⟨ha, hl⟩ := List.pairwise_cons.1 h
    rw [List.take_succ_cons, List.mem_cons, List.mem_cons, mem_take_iff_card_lt f hl, List.toFinset_cons,
      Finset.filter_insert]
    by_cases hx : x = a
    · -- nothing is below the first element
      subst hx
      have hempty : (l.toFinset.filter fun y => f y < f x) = ∅ :=
        Finset.filter_eq_empty_iff.2 fun y hy => Nat.not_lt.2 (ha y (List.mem_toFinset.1 hy)).le
      simp [hempty]
    · have hnot : a ∉ l.toFinset.filter fun y => f y < f x := fun hmem =>
        absurd (ha a (List.mem_toFinset.1 (Finset.mem_filter.1 hmem).1)) (Nat.lt_irrefl _)
      rw [or_iff_right hx, or_iff_right hx]
      refine and_congr_right fun hmem => ?_
      rw [if_pos (ha x hmem), Finset.card_insert_of_notMem hnot, Nat.add_lt_add_iff_right]

/-- **The lookup starts** at the `alpha` closest distances of the table. -/
theorem mem_start_iff {t : Table} {d : H256} :
    d ∈ (start keccak256 target t).nearestNodes ↔ t.IsSeed keccak256 target d := by
  let entries := t.nearestNodeEntries keccak256 target
  have hcomm : (fun n : NodeRecord => Table.distance keccak256 n.id target) =
      fun n => Table.distance keccak256 target n.id := funext fun n => FixedBytes.xor_comm _ _
  have hmem : ∀ k, k ∈ entries ↔ k ∈ t.distances keccak256 target := fun k => by
    simp only [entries, Table.nearestNodeEntries, Std.TreeMap.mem_ofList, List.map_map, List.contains_iff_mem,
      Table.distances, List.mem_toFinset, Function.comp_def, hcomm]
  have hkeys : entries.keys.toFinset = t.distances keccak256 target := by
    ext k
    rw [List.mem_toFinset, Std.TreeMap.mem_keys, hmem]
  have hordered : entries.keys.Pairwise fun a b => a.toNat < b.toNat :=
    Std.TreeMap.ordered_keys.imp FixedBytes.compare_eq_lt.1
  have hstart : d ∈ (start keccak256 target t).nearestNodes ↔ d ∈ entries.keys.take alpha := by
    simp only [start, Std.TreeMap.mem_ofList, List.contains_iff_mem, List.map_take, List.map_map, entries,
      ← Std.TreeMap.map_fst_toList_eq_keys]
    rfl
  rw [hstart, mem_take_iff_card_lt FixedBytes.toNat hordered, hkeys, Std.TreeMap.mem_keys, hmem, Table.IsSeed]

theorem start_inv (keccak256 : Bytes → H256) (target : NodeId) (t : Table) :
    (start keccak256 target t).Inv keccak256 target (t.IsSeed keccak256 target) t.records where
  keyed d node h := (getElem_start h).2.1
  queried d node h := by
    rw [(getElem_start h).2.2.1]
    exact iff_of_false Bool.false_ne_true List.not_mem_nil
  responded d node h := by
    rw [(getElem_start h).2.2.2]
    exact iff_of_false Bool.false_ne_true List.not_mem_nil
  found q hq := nomatch hq
  once := List.nodup_nil
  answers := List.Subset.refl _
  known d := mem_start_iff.trans (or_iff_left fun ⟨_, hx, _⟩ => absurd hx List.not_mem_nil).symm
  sourced d node h := .inl (getElem_start h).1

end Lookup

/-- `Node::lookup_inner`, from the table at its start. -/
def lookupInner (keccak256 : Bytes → H256) (t : Table) (target : NodeId) (answers : Answers) : Option Lookup :=
  (Lookup.start keccak256 target t).run keccak256 target answers

namespace Lookup

/-- The record was in the table, or an answer had it. -/
def Sourced (t : Table) (answers : Answers) (s : Lookup) (record : NodeRecord) : Prop :=
  record ∈ t.records ∨ ∃ q ∈ s.asked, ∃ messages, answers q.lookupRound q.distance = some messages ∧
    ∃ m ∈ messages, record ∈ m.nodes

/-- What a lookup has done when it ends: no distance was asked twice; its nodes are the `alpha` closest ones of the
table and those of the answers; the closest of all were asked; and the result has the nodes that have answered, the
closest first. Every node was asked at the distance of its record, which was in the table or in an answer. -/
structure Complete (keccak256 : Bytes → H256) (t : Table) (target : NodeId) (answers : Answers) (s : Lookup) :
    Prop where
  once : (s.asked.map Query.distance).Nodup
  discovered : ∀ d, d ∈ s.nearestNodes ↔ t.IsSeed keccak256 target d ∨
    ∃ q ∈ s.asked, ∃ messages, answers q.lookupRound q.distance = some messages ∧
      ∃ m ∈ messages, ∃ record ∈ m.nodes, Table.distance keccak256 target record.id = d
  closest : ∀ p ∈ s.nearestNodes.toList.take alpha, ∃ q ∈ s.asked, q.distance = p.1
  answered : ∀ record, record ∈ s.result ↔
    ∃ q ∈ s.asked, q.record = record ∧ (answers q.lookupRound q.distance).isSome
  ordered : s.result.Pairwise fun a b =>
    (Table.distance keccak256 target a.id).toNat < (Table.distance keccak256 target b.id).toNat
  sourced : ∀ q ∈ s.asked, Table.distance keccak256 target q.record.id = q.distance ∧ Sourced t answers s q.record

variable {keccak256 : Bytes → H256} {target : NodeId} {answers : Answers} {s : Lookup} {seeds : H256 → Prop}
  {records : List NodeRecord}

theorem Settled.mem_told (ha : s.Settled answers) {d : H256} {messages : List NeighboursMessage} :
    (d, messages) ∈ s.told ↔
      ∃ q ∈ s.asked, q.distance = d ∧ answers q.lookupRound q.distance = some messages := by
  rw [ha, List.mem_filterMap]
  constructor
  · rintro ⟨q, hq, h⟩
    obtain ⟨messages', hm, h⟩ := Option.map_eq_some_iff.1 h
    cases h
    exact ⟨q, hq, rfl, hm⟩
  · rintro ⟨q, hq, rfl, hm⟩
    exact ⟨q, hq, by rw [hm]; rfl⟩

/-- The distances of the records of the result are those of their nodes. -/
theorem Inv.ordered (hs : s.Inv keccak256 target seeds records) : s.result.Pairwise fun a b =>
    (Table.distance keccak256 target a.id).toNat < (Table.distance keccak256 target b.id).toNat := by
  have hkeyed : ∀ p ∈ s.nearestNodes.toList, Table.distance keccak256 target p.2.record.id = p.1 := fun p hp =>
    hs.keyed p.1 p.2 (Std.TreeMap.mem_toList_iff_getElem?_eq_some.1 hp)
  rw [result, List.pairwise_filterMap]
  refine Std.TreeMap.ordered_keys_toList.imp_of_mem fun {p p'} hp hp' hlt a ha b hb => ?_
  obtain ⟨-, ha⟩ := Option.ite_none_right_eq_some.1 ha
  obtain ⟨-, hb⟩ := Option.ite_none_right_eq_some.1 hb
  cases ha
  cases hb
  rw [hkeyed p hp, hkeyed p' hp']
  exact FixedBytes.compare_eq_lt.1 hlt

theorem Inv.answered (hs : s.Inv keccak256 target seeds records) (ha : s.Settled answers) (record : NodeRecord) :
    record ∈ s.result ↔ ∃ q ∈ s.asked, q.record = record ∧ (answers q.lookupRound q.distance).isSome := by
  rw [result, List.mem_filterMap]
  constructor
  · rintro ⟨⟨d, node⟩, hmem, h⟩
    obtain ⟨hresponded, h⟩ := Option.ite_none_right_eq_some.1 h
    cases h
    have hnode := Std.TreeMap.mem_toList_iff_getElem?_eq_some.1 hmem
    obtain ⟨⟨d', messages⟩, htold, rfl⟩ := List.mem_map.1 ((hs.responded d node hnode).1 hresponded)
    obtain ⟨q, hq, rfl, hm⟩ := ha.mem_told.1 htold
    obtain ⟨node', hnode', hrecord⟩ := hs.found q hq
    obtain rfl := Option.some.inj (hnode'.symm.trans hnode)
    exact ⟨q, hq, hrecord.symm, Option.isSome_of_eq_some hm⟩
  · rintro ⟨q, hq, rfl, hsome⟩
    obtain ⟨messages, hm⟩ := Option.isSome_iff_exists.1 hsome
    obtain ⟨node, hnode, hrecord⟩ := hs.found q hq
    refine ⟨(q.distance, node), Std.TreeMap.mem_toList_iff_getElem?_eq_some.2 hnode, ?_⟩
    have hresponded := (hs.responded _ node hnode).2 (List.mem_map_of_mem (ha.mem_told.2 ⟨q, hq, rfl, hm⟩))
    exact Option.ite_none_right_eq_some.2 ⟨hresponded, congrArg some hrecord⟩

/-- Where the records of the nodes that were asked come from. -/
theorem Inv.sourced_asked {t : Table} (hs : s.Inv keccak256 target seeds t.records) (ha : s.Settled answers) {q : Query}
    (hq : q ∈ s.asked) : Table.distance keccak256 target q.record.id = q.distance ∧ Sourced t answers s q.record := by
  obtain ⟨node, hnode, hrecord⟩ := hs.found q hq
  rw [← hrecord]
  refine ⟨hs.keyed _ node hnode, (hs.sourced _ node hnode).imp_right ?_⟩
  rintro ⟨⟨d, messages⟩, htold, m, hm, hmem⟩
  obtain ⟨q', hq', -, hmessages⟩ := ha.mem_told.1 htold
  exact ⟨q', hq', messages, hmessages, m, hm, hmem⟩

/-- **Lookups are complete**: from every table, for every target and whatever the queries are answered with, a lookup
ends without a panic, and has done what it should. -/
theorem lookup_complete (keccak256 : Bytes → H256) (t : Table) (target : NodeId) (answers : Answers) :
    ∃ s, lookupInner keccak256 t target answers = some s ∧ s.Complete keccak256 t target answers := by
  obtain ⟨s, hrun, hs, ha, hpicked⟩ := (start_inv keccak256 target t).run answers rfl
  refine ⟨s, hrun, hs.once, fun d => ?_, fun p hp => ?_, hs.answered ha, hs.ordered, fun q => hs.sourced_asked ha⟩
  · rw [hs.known d]
    refine or_congr_right ⟨?_, ?_⟩
    · rintro ⟨⟨d', messages⟩, htold, hm⟩
      obtain ⟨q, hq, -, hq'⟩ := ha.mem_told.1 htold
      exact ⟨q, hq, messages, hq', hm⟩
    · rintro ⟨q, hq, messages, hq', hm⟩
      exact ⟨(q.distance, messages), ha.mem_told.2 ⟨q, hq, rfl, hq'⟩, hm⟩
  · have hnode := Std.TreeMap.mem_toList_iff_getElem?_eq_some.1 ((List.take_subset _ _) hp)
    have hqueried : p.2.queried = true := by
      by_contra hq
      have hmem : p ∈ s.pickedNodes := List.mem_filter.2 ⟨hp, by simpa using hq⟩
      rw [hpicked] at hmem
      exact absurd hmem List.not_mem_nil
    obtain ⟨q, hq, hd⟩ := List.mem_map.1 ((hs.queried p.1 p.2 hnode).1 hqueried)
    exact ⟨q, hq, hd⟩

end Lookup

end Discv4

end EthereumSentry
