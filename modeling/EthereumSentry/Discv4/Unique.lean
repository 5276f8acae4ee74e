import Mathlib.Data.List.Nodup
import Mathlib.Data.List.Perm.Basic
import EthereumSentry.Discv4.Kad
import EthereumSentry.Lib.Runs

/-!
# Uniqueness in the Kademlia table

No id is twice in a bucket (`KBucket.Unique`) as long as no queued replacement is added again while the queue has room
(`Requeues`): the two `add` operations look for the id in the list of the bucket alone. `unique_iff` says that in a run
of the operations the table has this property throughout exactly when no operation of the run requeues a node.
-/

set_option autoImplicit false

namespace EthereumSentry

namespace Discv4

namespace KBucket

variable {b : KBucket}

theorem unique_iff_nodup : b.Unique ↔ (ids b.bucket ++ ids b.replacements).Nodup := by
  rw [List.nodup_append']
  constructor
  · intro h
    exact ⟨h.bucket, h.replacements, fun id hb hr => h.disjoint id hb hr⟩
  · rintro ⟨h₁, h₂, h₃⟩
    exact ⟨h₁, h₂, fun id hb hr => h₃ hb hr⟩

/-- Uniqueness depends on the ids alone, in any order. -/
theorem unique_congr {b' : KBucket}
    (h : (ids b'.bucket ++ ids b'.replacements).Perm (ids b.bucket ++ ids b.replacements)) : b'.Unique ↔ b.Unique := by
  rw [unique_iff_nodup, unique_iff_nodup, h.nodup_iff]

theorem empty_unique : empty.Unique := unique_iff_nodup.2 (by simp [empty])

/-- A new replacement. -/
theorem pushReplacement_unique (hu : b.Unique) {node : NodeRecord} (hn : node.id ∉ ids b.bucket) :
    (b.pushReplacement node).Unique ↔ ¬b.Requeues node := by
  unfold pushReplacement
  split
  · rename_i hroom
    have hperm : (ids b.bucket ++ ids (b.replacements ++ [node])).Perm
        (node.id :: (ids b.bucket ++ ids b.replacements)) := by
      rw [ids_append, ← List.append_assoc]
      exact List.perm_append_singleton _ _
    rw [unique_iff_nodup, hperm.nodup_iff, List.nodup_cons, List.mem_append]
    constructor
    · rintro ⟨h, -⟩ ⟨hr, -⟩
      exact h (.inr hr)
    · intro h
      refine ⟨?_, unique_iff_nodup.1 hu⟩
      rintro (hb | hr)
      · exact hn hb
      · exact h ⟨hr, hroom⟩
  · rename_i hfull
    exact iff_of_true hu fun h => hfull h.2

/-- A new record in a bucket with room. -/
theorem place_unique (hb : b.Bounded) (hu : b.Unique) {node : NodeRecord} (hn : node.id ∉ ids b.bucket)
    (hroom : b.bucket.length < bucketSize) {bucket : List NodeRecord}
    (hp : (ids bucket).Perm (node.id :: ids b.bucket)) :
    KBucket.Unique { b with bucket := bucket } ↔ ¬b.Requeues node := by
  have hnil := hb.replacements_eq_nil hroom
  refine iff_of_true (unique_iff_nodup.2 ?_) fun h => ?_
  · simp only [hnil, ids_nil, List.append_nil, hp.nodup_iff]
    exact List.nodup_cons.2 ⟨hn, hu.bucket⟩
  · rw [Requeues, hnil] at h
    exact absurd h.1 (by simp)

/-- A record of the list is not queued. -/
theorem not_requeues (hu : b.Unique) {node : NodeRecord} {i : Nat} (h : b.findPeerPos node.id = some i) :
    ¬b.Requeues node := by
  obtain ⟨hi, hid⟩ := of_findPeerPos h
  rintro ⟨hr, -⟩
  exact hu.disjoint node.id (hid ▸ List.mem_map_of_mem (List.getElem_mem hi)) hr

theorem addVerified_unique (hb : b.Bounded) (hu : b.Unique) (node : NodeRecord) :
    (b.addVerified node).Unique ↔ ¬b.Requeues node := by
  cases h : b.findPeerPos node.id with
  | some i =>
    -- the record moves to the front
    obtain ⟨hi, hid⟩ := of_findPeerPos h
    have hperm : (ids (node :: b.bucket.eraseIdx i)).Perm (ids b.bucket) := by
      rw [ids_cons, ← hid]
      exact (List.getElem_cons_eraseIdx_perm hi).map NodeRecord.id
    rw [addVerified_of_some hb h]
    exact iff_of_true ((unique_congr (hperm.append_right _)).2 hu) (not_requeues hu h)
  | none =>
    have hn := findPeerPos_eq_none.1 h
    unfold addVerified
    simp only [h]
    split
    · rename_i hroom
      exact place_unique hb hu hn hroom (.refl _)
    · exact pushReplacement_unique hu hn

theorem addSeen_unique (hb : b.Bounded) (hu : b.Unique) (node : NodeRecord) :
    (b.addSeen node).Unique ↔ ¬b.Requeues node := by
  unfold addSeen
  cases h : b.findPeerPos node.id with
  | some i => exact iff_of_true hu (not_requeues hu h)
  | none =>
    have hn := findPeerPos_eq_none.1 h
    simp only [Option.isSome_none, Bool.false_eq_true, if_false]
    split
    · rename_i hroom
      exact place_unique hb hu hn hroom (by rw [ids_append]; exact List.perm_append_singleton _ _)
    · exact pushReplacement_unique hu hn

/-- A promoted replacement leaves the queue. -/
theorem remove_unique (hu : b.Unique) (node : NodeId) : (b.remove node).Unique := by
  rcases remove_cases b node with h | ⟨i, replacement, rest, hr, -, h⟩
  · rwa [h]
  · rw [h]
    have hall := unique_iff_nodup.1 hu
    rw [hr] at hall
    have hsub : (ids (b.bucket.eraseIdx i) ++ ids (replacement :: rest)).Sublist
        (ids b.bucket ++ ids (replacement :: rest)) :=
      ((List.eraseIdx_sublist b.bucket i).map NodeRecord.id).append_right _
    rw [unique_iff_nodup, ids_append, List.append_assoc]
    exact hall.sublist hsub

end KBucket

namespace Table

variable {keccak256 : Bytes → H256} {t : Table}

theorem new_unique (id : NodeId) : (new keccak256 id).Unique := fun i => by
  simpa [new] using KBucket.empty_unique

theorem step_bounded (t : Table) (op : Op) (t' : Table) (ht : t.Bounded) (h : step keccak256 t op = some t') :
    t'.Bounded := by
  cases op with
  | addVerified node =>
    cases h
    exact addVerified_bounded ht node
  | addSeen node =>
    cases h
    exact addSeen_bounded ht node
  | remove node =>
    cases h
    exact remove_bounded ht node

/-- An addition to a bucket keeps the table unique exactly when it keeps the bucket unique. -/
theorem add_unique (hb : t.Bounded) (hu : t.Unique) {node : NodeRecord} {f : KBucket → KBucket}
    (hf : ∀ b : KBucket, b.Bounded → b.Unique → ((f b).Unique ↔ ¬b.Requeues node)) :
    (if node.address.isIpv6 then t else t.bucketMut keccak256 node.id f).Unique ↔
      ¬t.Requeues keccak256 (.addSeen node) := by
  cases hv : node.address.isIpv6 with
  | true => exact iff_of_true hu (by simp [Requeues, hv])
  | false =>
    simp only [Requeues, hv, Bool.false_eq_true, if_false, true_and, not_exists, not_and]
    rw [Unique, bucketMut_forall hu]
    exact forall₂_congr fun i _ => hf _ (hb i) (hu i)

/-- **An operation keeps the table unique** exactly when it requeues no node. -/
theorem step_unique (ht : t.Bounded) (hu : t.Unique) (op : Op) :
    (∀ t', step keccak256 t op = some t' → t'.Unique) ↔ ¬t.Requeues keccak256 op := by
  cases op with
  | addVerified node =>
    simp only [step, Option.some.injEq, forall_eq']
    exact add_unique ht hu fun b hb hu => KBucket.addVerified_unique hb hu node
  | addSeen node =>
    simp only [step, Option.some.injEq, forall_eq']
    exact add_unique ht hu fun b hb hu => KBucket.addSeen_unique hb hu node
  | remove node =>
    simp only [step, Option.some.injEq, forall_eq']
    exact iff_of_true ((bucketMut_forall hu).2 fun i _ => KBucket.remove_unique (hu i) node) id

/-- **Uniqueness in runs**: in a run from the new table, every table has unique ids exactly when no operation adds a
node that waits as a replacement in its bucket, which has room for another one. -/
theorem unique_iff (id : NodeId) (ops : List Op) :
    Runs.Always (step keccak256) Unique (new keccak256 id) ops ↔
      Runs.Along (step keccak256) (fun t op => ¬t.Requeues keccak256 op) (new keccak256 id) ops :=
  Runs.always_iff_along step_bounded (fun _ op ht hu => step_unique ht hu op) ops (new_bounded id) (new_unique id)

section Example

/-- An id that is zero after its first byte. -/
def sampleId (x : UInt8) : NodeId := ⟨x :: List.replicate 63 0, by simp⟩

def sampleNode (x : UInt8) : NodeRecord := ⟨.v4 (FixedBytes.ofNat 4 0x7f000001), 30303, 30303, sampleId x⟩

/-- Keccak-256 of some of these ids. -/
def sampleHash (data : Bytes) : H256 :=
  FixedBytes.ofNat 32 <| (List.lookup (data.headD 0) [
    (0, 0xad3228b676f7d3cd4284a5443f17f1962b36e491b30a40b2405849e597ba5fb5),
    (3, 0x146e6cb4d588794d82e1f1f9c8525490a706312ed58647f47ac0418e4b3f59b4),
    (6, 0x59c0473b5a2e3ee10ff30aaaefd2f7a524bcf1e3dd36aff6da583d570d0d60a2),
    (10, 0x577e910b674ccd2b9eadd9d2f0975dfa854ff99681d1ddd1dd028cfc924fbae8),
    (11, 0x53c855c9db0c9edccc3bb5ecb0e58a157523d70a0ebd9cccd8eceb0aa911d0f6),
    (13, 0x44f16b3cabdfa393cd7fca443e964ad78ba9ed8e5493107214a0260d3c0ee3ad),
    (15, 0x227064ebe215268cade37b7ba2e41ac5febe0addf0bf1326f2b24fda17af852f),
    (16, 0x14184318b4299964f96ff8dfa1db97fc8a28d66e8c4434c0773f43adc6062152),
    (17, 0x169682a62bba58924211beb9757fcac9e31c5c9700b701a50aac645899014900),
    (18, 0x1ddde209e683abd27589f68cfd933fdfb264ee758311b320859eb0d2c010c1b1),
    (19, 0x59de874beb9815b5fa425c5289ff11a79260ea315f797e073a9ea686335336e4),
    (20, 0x2e2e7aed26af0a23e913755330122f84638940565044cd62c89e2a65d02b163e),
    (25, 0x6f7d683d7e7ed5ea495a975710af1ad459f9521a3a9d7f2f4f6ccb1b31a82986),
    (26, 0x7a054103b0e994de5690382c14f879f634a90d915950c1728ba0b00ed95156cc),
    (27, 0x0864b6daee85ad8b8da193dfad3c6311d27f2f89fed44d4d8fc3b93f3ecec8a1),
    (28, 0x1e31f487f86d28652b123e04bb569fbed756e3b05b640ce9ef2169d994e2705f),
    (29, 0x030a4d78938c9927bfb1dc734b2c94badbf13904def258606a475a848db5b5ab),
    (30, 0x1c0d3b82bcef0be9cdc1492a58e2ecbeecc2ec254e832db6d43a2e9b86d7a734)]).getD 0

/-- Seventeen nodes of the last bucket are added to the table of node 0, the last one twice. -/
def addTwice : List Op :=
  [3, 6, 10, 11, 13, 15, 16, 17, 18, 19, 20, 25, 26, 27, 28, 29, 30, 30].map fun x => .addVerified (sampleNode x)

/-- The seventeenth node is then twice among the replacements. -/
theorem replacement_twice : ¬∀ (id : NodeId) (ops : List Op),
    Runs.Always (step sampleHash) Unique (new sampleHash id) ops := by
  intro h
  have hrun : ∃ t, Runs.run (step sampleHash) (new sampleHash (sampleId 0)) addTwice = some t ∧
      t.kbuckets[255].replacements = [sampleNode 30, sampleNode 30] := ⟨_, rfl, by decide +kernel⟩
  obtain ⟨t, ht, hr⟩ := hrun
  have hn := ((h (sampleId 0) addTwice).run ht ⟨255, by decide⟩).replacements
  rw [Fin.getElem_fin, hr] at hn
  simp at hn

end Example

end Table

end Discv4

end EthereumSentry
