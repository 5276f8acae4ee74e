import Mathlib.Algebra.Order.BigOperators.Group.List
import EthereumSentry.Discv4.Unique

/-!
# The structure of the Kademlia table

A record is in the bucket of the binary logarithm of its distance to the table (`logdistance_eq_some`): the scan of the
bytes finds the highest bit of the distance (`topBit_eq`). In every run of the operations the buckets are `Structured`,
which is what the steps of `neighbours`, `filled_buckets` and `oldest` rely on that nothing checks (`table_structure`).
-/

set_option autoImplicit false

namespace EthereumSentry

namespace Discv4

/-! ## The highest bit -/

/-- The highest bit of a byte string, from its end. -/
def topBit : Bytes → Option Nat
  | [] => none
  | d :: b => if d = 0 then topBit b else some (b.length * 8 + (7 - leadingZeros d))

theorem highBitIndex_eq {d : UInt8} (h : d ≠ 0) : 7 - leadingZeros d = d.toNat.log2 := by
  have hd : d.toNat ≠ 0 := fun h0 => h (UInt8.toNat_inj.1 h0)
  have hlt : d.toNat.log2 < 8 := (Nat.log2_lt hd).2 d.toNat_lt
  rw [leadingZeros, if_neg h]
  omega

/-- **The highest bit is the binary logarithm** of the integer that the bytes spell. -/
theorem topBit_eq (b : Bytes) : topBit b = if ofBe b = 0 then none else some (ofBe b).log2 := by
  induction b with
  | nil => rfl
  | cons d b ih =>
    rw [topBit, ofBe_cons]
    by_cases hd : d = 0
    · rw [if_pos hd, ih, hd]
      simp
    · have hpos : d.toNat ≠ 0 := fun h0 => hd (UInt8.toNat_inj.1 h0)
      have hb := ofBe_lt b
      have hpow : 256 ^ b.length = 2 ^ (b.length * 8) := by
        rw [show 256 = 2 ^ 8 from rfl, ← Nat.pow_mul, Nat.mul_comm]
      rw [hpow] at hb ⊢
      have hne : d.toNat * 2 ^ (b.length * 8) + ofBe b ≠ 0 := by
        have := Nat.mul_pos (Nat.pos_of_ne_zero hpos) (Nat.two_pow_pos (b.length * 8))
        omega
      rw [if_neg hd, if_neg hne, highBitIndex_eq hd, Option.some.injEq, eq_comm, Nat.log2_eq_iff hne, Nat.add_comm,
        Nat.pow_add, Nat.add_right_comm, Nat.pow_add]
      have hle := Nat.log2_self_le hpos
      have hlt : d.toNat + 1 ≤ 2 ^ (d.toNat.log2 + 1) := Nat.lt_log2_self
      constructor
      · exact (Nat.mul_le_mul_right _ hle).trans (Nat.le_add_right _ _)
      · calc d.toNat * 2 ^ (b.length * 8) + ofBe b < (d.toNat + 1) * 2 ^ (b.length * 8) := by
              rw [Nat.succ_mul]
              omega
          _ ≤ 2 ^ (d.toNat.log2 + 1) * 2 ^ (b.length * 8) := Nat.mul_le_mul_right _ hlt

/-- The scan of the bytes, from the first one on. -/
theorem findSome_eq_topBit (b : Bytes) {n : Nat} (h : b.length = n) : ((List.finRange n).findSome? fun i =>
    if b.get (i.cast h.symm) = 0 then none
    else some (i.rev.val * 8 + (7 - leadingZeros (b.get (i.cast h.symm))))) = topBit b := by
  subst h
  induction b with
  | nil => rfl
  | cons d b ih =>
    have hrange : List.finRange (d :: b).length = 0 :: (List.finRange b.length).map Fin.succ := List.finRange_succ
    rw [topBit, ← ih, hrange, List.findSome?_cons, List.findSome?_map]
    by_cases hd : d = 0
    · simp [hd, Function.comp_def]
    · simp [hd]

/-! ## One bucket -/

/-- The id whose bucket an operation works on. -/
def Table.Op.target : Table.Op → Option NodeId
  | addVerified node | addSeen node => if node.address.isIpv6 then none else some node.id
  | remove node => some node

namespace KBucket

/-- What an operation does in its bucket. -/
def perform (b : KBucket) : Table.Op → KBucket
  | .addVerified node => b.addVerified node
  | .addSeen node => b.addSeen node
  | .remove node => b.remove node

variable {b : KBucket}

@[simp] theorem pushReplacement_bucket (node : NodeRecord) : (b.pushReplacement node).bucket = b.bucket := by
  unfold pushReplacement
  split <;> rfl

/-- **No operation makes the list shorter.** -/
theorem Bounded.length_perform (hb : b.Bounded) (op : Table.Op) : b.bucket.length ≤ (b.perform op).bucket.length := by
  cases op with
  | addVerified node =>
    rw [perform]
    cases h : b.findPeerPos node.id with
    | some i =>
      obtain ⟨hi, -⟩ := of_findPeerPos h
      rw [addVerified_of_some hb h]
      simp only [List.length_cons, List.length_eraseIdx, hi, if_true]
      omega
    | none =>
      unfold addVerified
      simp only [h]
      split <;> simp
  | addSeen node =>
    rw [perform, addSeen]
    split
    · exact le_rfl
    · split <;> simp
  | remove node =>
    rw [perform, remove]
    split
    · exact le_rfl
    · split
      · rename_i i h
        obtain ⟨hi, -⟩ := of_findPeerPos h
        simp only [List.length_append, List.length_singleton, List.length_eraseIdx, hi, if_true]
        omega
      · exact le_rfl

/-- What is true of the records of a bucket and of the node that is added. -/
theorem Holds.perform {P : NodeRecord → Prop} (hb : b.Holds P) {op : Table.Op}
    (hop : ∀ node, op = .addVerified node ∨ op = .addSeen node → P node) : (b.perform op).Holds P := by
  cases op with
  | addVerified node => exact addVerified_holds hb (hop node (.inl rfl))
  | addSeen node => exact addSeen_holds hb (hop node (.inr rfl))
  | remove node => exact remove_holds hb node

/-- **The array has room** for the neighbours of every peer. -/
theorem Bounded.neighbours_eq (hb : b.Bounded) (peer : NodeId) :
    (b.bucket.filter (peer ≠ ·.id)).length ≤ bucketSize ∧ b.neighbours peer = b.bucket.filter (peer ≠ ·.id) := by
  have hle := (List.length_filter_le (fun n : NodeRecord => decide (peer ≠ n.id)) b.bucket).trans hb.bucket
  exact ⟨hle, List.take_of_length_le hle⟩

end KBucket

/-! ## Where a record is -/

namespace Table

variable {keccak256 : Bytes → H256} {t : Table}

theorem logdistance_eq_topBit (t : Table) (peer : NodeId) :
    (t.logdistance keccak256 peer).map Fin.val = topBit (t.idHash.xor (keccak256 peer.bytes)).bytes := by
  set x := t.idHash.xor (keccak256 peer.bytes) with hx
  have hbyte : ∀ i : Fin addressBytesSize, byteAt t.idHash i ^^^ byteAt (keccak256 peer.bytes) i =
      x.bytes.get (i.cast x.length_bytes.symm) := by
    intro i
    simp only [byteAt, hx, FixedBytes.xor, List.get_eq_getElem, List.getElem_zipWith]
    rfl
  rw [← findSome_eq_topBit x.bytes x.length_bytes, logdistance]
  simp only [List.finRange_reverse, List.findSome?_map, List.map_findSome?, Function.comp_def, Fin.rev_rev, hbyte]
  congr 1
  funext i
  split <;> rfl

/-- **The bucket of a record** is the binary logarithm of its distance. -/
theorem logdistance_eq_some {peer : NodeId} {i : Fin addressBits} : t.logdistance keccak256 peer = some i ↔
    2 ^ i.val ≤ (t.idHash.xor (keccak256 peer.bytes)).toNat ∧
      (t.idHash.xor (keccak256 peer.bytes)).toNat < 2 ^ (i.val + 1) := by
  have htop : (t.logdistance keccak256 peer).map Fin.val = topBit (t.idHash.xor (keccak256 peer.bytes)).bytes :=
    logdistance_eq_topBit t peer
  rw [topBit_eq] at htop
  have hval : t.logdistance keccak256 peer = some i ↔ (t.logdistance keccak256 peer).map Fin.val = some i.val :=
    by
    cases t.logdistance keccak256 peer <;> simp [Fin.ext_iff]
  rw [hval, htop, ← FixedBytes.toNat]
  split
  · rename_i h0
    rw [h0]
    have := Nat.two_pow_pos i.val
    exact iff_of_false (by rintro ⟨⟩) (by omega)
  · rename_i h0
    rw [Option.some.injEq, Nat.log2_eq_iff h0]

theorem logdistance_eq_none {peer : NodeId} : t.logdistance keccak256 peer = none ↔ t.idHash = keccak256 peer.bytes := by
  rw [← Option.map_eq_none_iff, logdistance_eq_topBit, topBit_eq, ← FixedBytes.toNat, ← FixedBytes.toNat_xor_eq_zero]
  split <;> simp_all

/-! ## Operations -/

/-- The bucket that an operation works on. -/
def site (keccak256 : Bytes → H256) (t : Table) (op : Op) : Option (Fin addressBits) :=
  op.target.bind (t.logdistance keccak256)

/-- **An operation works on one bucket.** -/
theorem step_eq (t : Table) (op : Op) : step keccak256 t op = some ((t.site keccak256 op).elim t fun i =>
    t.setKbucket i ((t.kbucket i).perform op)) := by
  have hmut : ∀ id f, t.bucketMut keccak256 id f =
      (t.logdistance keccak256 id).elim t fun i => t.setKbucket i (f (t.kbucket i)) := by
    intro id f
    unfold bucketMut
    cases t.logdistance keccak256 id <;> rfl
  cases op with
  | addVerified node =>
    simp only [step, site, Op.target, addVerified, hmut]
    split <;> rfl
  | addSeen node =>
    simp only [step, site, Op.target, addSeen, hmut]
    split <;> rfl
  | remove node =>
    simp only [step, site, Op.target, remove, hmut]
    rfl

theorem step_idHash {op : Op} {t' : Table} (h : step keccak256 t op = some t') : t'.idHash = t.idHash := by
  rw [step_eq] at h
  cases h
  cases t.site keccak256 op <;> rfl

/-- The buckets after an operation. -/
theorem kbuckets_of_step {op : Op} {t' : Table} (h : step keccak256 t op = some t') (i : Fin addressBits) :
    t'.kbucket i = if t.site keccak256 op = some i then (t.kbucket i).perform op else t.kbucket i := by
  rw [step_eq] at h
  cases h
  cases hsite : t.site keccak256 op with
  | none => rfl
  | some j =>
    simp only [Option.elim_some, Fin.getElem_fin, Vector.getElem_set, Option.some.injEq, Fin.ext_iff]
    by_cases hij : j.val = i.val
    · rw [if_pos hij, if_pos hij, Fin.ext hij]
    · rw [if_neg hij, if_neg hij]

/-- What holds of the buckets before holds after, when it does of the bucket that is worked on. -/
theorem step_forall {P : Fin addressBits → KBucket → Prop} (ht : ∀ i : Fin addressBits, P i (t.kbucket i)) {op : Op}
    {t' : Table} (h : step keccak256 t op = some t')
    (hop : ∀ i, t.site keccak256 op = some i → P i ((t.kbucket i).perform op)) (i : Fin addressBits) :
    P i (t'.kbucket i) := by
  rw [kbuckets_of_step h]
  split
  · rename_i hsite
    exact hop i hsite
  · exact ht i

theorem logdistance_congr {t' : Table} (h : t'.idHash = t.idHash) (peer : NodeId) :
    t'.logdistance keccak256 peer = t.logdistance keccak256 peer := by
  obtain ⟨idHash, kbuckets⟩ := t
  obtain ⟨idHash', kbuckets'⟩ := t'
  cases h
  rfl

/-- A record that may be in a bucket. -/
def Belongs (keccak256 : Bytes → H256) (t : Table) (i : Fin addressBits) (node : NodeRecord) : Prop :=
  node.address.isIpv6 = false ∧ t.logdistance keccak256 node.id = some i

/-- The buckets are bounded, and their records belong there. -/
structure Ordered (keccak256 : Bytes → H256) (t : Table) : Prop where
  bounded : t.Bounded
  belongs : ∀ i : Fin addressBits, (t.kbucket i).Holds (t.Belongs keccak256 i)

theorem new_ordered (id : NodeId) : (new keccak256 id).Ordered keccak256 :=
  ⟨new_bounded id, fun i node h => by simp [new, KBucket.empty] at h⟩

/-- A node that is added belongs to the bucket that is worked on. -/
theorem belongs_of_site {op : Op} {i : Fin addressBits} (hsite : t.site keccak256 op = some i) {node : NodeRecord}
    (hop : op = .addVerified node ∨ op = .addSeen node) : t.Belongs keccak256 i node := by
  have htarget : op.target = if node.address.isIpv6 then none else some node.id := by
    rcases hop with rfl | rfl <;> rfl
  rw [site, htarget] at hsite
  split at hsite
  · cases hsite
  · rename_i hip
    exact ⟨by simpa using hip, hsite⟩

theorem step_ordered (t : Table) (op : Op) (t' : Table) (ht : t.Ordered keccak256)
    (h : step keccak256 t op = some t') : t'.Ordered keccak256 := by
  refine ⟨step_bounded t op t' ht.bounded h, ?_⟩
  have hsame : t'.Belongs keccak256 = t.Belongs keccak256 := by
    funext i node
    rw [Belongs, Belongs, logdistance_congr (step_idHash h)]
  rw [hsame]
  exact step_forall (P := fun i b => b.Holds (t.Belongs keccak256 i)) ht.belongs h fun i hsite =>
    (ht.belongs i).perform fun node hop => belongs_of_site hsite hop

/-- The table of a run is that of the node, and ordered. -/
theorem run_ordered (id : NodeId) (ops : List Op) (h : Runs.run (step keccak256) (new keccak256 id) ops = some t) :
    t.idHash = keccak256 id.bytes ∧ t.Ordered keccak256 := by
  have hstep : ∀ (t : Table) (op : Op) (t' : Table), t.idHash = keccak256 id.bytes ∧ t.Ordered keccak256 →
      step keccak256 t op = some t' → t'.idHash = keccak256 id.bytes ∧ t'.Ordered keccak256 :=
    fun t op t' ht hs => ⟨(step_idHash hs).trans ht.1, step_ordered t op t' ht.2 hs⟩
  exact Runs.invariant hstep ops ⟨rfl, new_ordered id⟩ h

/-! ## All records -/

/-- The records of all lists. -/
def records (t : Table) : List NodeRecord := t.kbuckets.toList.flatMap (·.bucket)

theorem mem_records {node : NodeRecord} : node ∈ t.records ↔ ∃ i : Fin addressBits, node ∈ (t.kbucket i).bucket := by
  simp only [records, List.mem_flatMap, Vector.mem_toList_iff, Vector.mem_iff_getElem]
  constructor
  · rintro ⟨b, ⟨i, hi, rfl⟩, h⟩
    exact ⟨⟨i, hi⟩, h⟩
  · rintro ⟨i, h⟩
    exact ⟨_, ⟨i, i.isLt, rfl⟩, h⟩

/-! ## The number of records -/

theorem len_eq_sum (t : Table) : t.len = (t.kbuckets.toList.map fun b => b.bucket.length).sum := by
  rw [len, List.sum_eq_foldl, List.foldl_map]

theorem len_le {t' : Table} (h : ∀ i : Fin addressBits, (t.kbucket i).bucket.length ≤ (t'.kbucket i).bucket.length) :
    t.len ≤ t'.len := by
  rw [len_eq_sum, len_eq_sum]
  refine List.Forall₂.sum_le_sum ?_
  rw [List.forall₂_map_left_iff, List.forall₂_map_right_iff, List.forall₂_iff_get]
  refine ⟨by simp, fun i hi _ => ?_⟩
  have hlt : i < addressBits := by simpa using hi
  simpa using h ⟨i, hlt⟩

/-- **No operation makes the table smaller.** -/
theorem step_len (ht : t.Bounded) {op : Op} {t' : Table} (h : step keccak256 t op = some t') : t.len ≤ t'.len :=
  len_le (step_forall (P := fun i b => (t.kbucket i).bucket.length ≤ b.bucket.length) (fun _ => le_rfl) h
    fun i _ => (ht i).length_perform op)

/-! ## Numbers of buckets -/

/-- The index of the bucket with a number. -/
def bucketIndex (n : UInt8) : Fin addressBits := ⟨n.toNat, n.toNat_lt⟩

/-- **The numbers of the filled buckets fit a byte.** -/
theorem filledBuckets_eq (t : Table) : ∃ l, t.filledBuckets = some l ∧
    ∀ n : UInt8, n ∈ l ↔ bucketSize ≤ (t.kbucket (bucketIndex n)).bucket.length := by
  have hlen : t.kbuckets.toList.length = 256 := Vector.length_toList
  have hfits : ∀ {b : KBucket} {i : Nat}, (b, i) ∈ t.kbuckets.toList.zipIdx → i < 256 := fun h => by
    obtain ⟨hi, -⟩ := List.getElem?_eq_some_iff.1 (List.mem_zipIdx_iff_getElem?.1 h)
    rwa [hlen] at hi
  refine ⟨_, List.mapM_eq_some_map (g := fun x => UInt8.ofNat x.2) ?_, fun n => ?_⟩
  · rintro ⟨b, i⟩ hx
    exact if_pos (hfits (List.mem_filter.1 hx).1)
  rw [List.mem_map]
  constructor
  · rintro ⟨⟨b, i⟩, hx, rfl⟩
    obtain ⟨hmem, hfull⟩ := List.mem_filter.1 hx
    have hi : bucketIndex (UInt8.ofNat i) = ⟨i, hfits hmem⟩ :=
      Fin.ext (UInt8.toNat_ofNat'.trans (Nat.mod_eq_of_lt (hfits hmem)))
    obtain ⟨hlt, hget⟩ := List.getElem?_eq_some_iff.1 (List.mem_zipIdx_iff_getElem?.1 hmem)
    simp only [hi, Fin.getElem_fin]
    rw [← Vector.getElem_toList hlt, hget]
    exact of_decide_eq_true hfull
  · intro hfull
    refine ⟨(t.kbucket (bucketIndex n), n.toNat), List.mem_filter.2 ⟨?_, decide_eq_true hfull⟩,
      UInt8.ofNat_toNat⟩
    rw [List.mem_zipIdx_iff_getElem?, Vector.getElem?_toList]
    exact Vector.getElem?_eq_getElem n.toNat_lt

/-- **The last record** of a bucket is found without an index out of range. -/
theorem oldest_eq (t : Table) (n : UInt8) :
    t.oldest n = some (t.kbucket (bucketIndex n)).bucket.getLast? := by
  have hn : t.kbuckets.toList[n.toNat]? = some (t.kbucket (bucketIndex n)) := by
    rw [Vector.getElem?_toList]
    exact Vector.getElem?_eq_getElem n.toNat_lt
  simp only [oldest, hn, bind, Option.bind]
  cases h : (t.kbucket (bucketIndex n)).bucket with
  | nil => rfl
  | cons node l =>
    rw [if_neg (by simp), List.getLast?_eq_getElem?]
    simp

/-! ## The structure in runs -/

/-- What holds of bucket `i` in the table of a node. -/
structure Structured (keccak256 : Bytes → H256) (id : NodeId) (i : Nat) (b : KBucket) : Prop where
  bucket : b.bucket.length ≤ bucketSize
  replacements : b.replacements.length ≤ replacementsSize
  full : b.replacements ≠ [] → b.bucket.length = bucketSize
  ipv4 : ∀ node ∈ b.bucket ++ b.replacements, node.address.isIpv6 = false
  distance : ∀ node ∈ b.bucket ++ b.replacements,
    2 ^ i ≤ (distance keccak256 node.id id).toNat ∧ (distance keccak256 node.id id).toNat < 2 ^ (i + 1)
  foreign : ∀ node ∈ b.bucket ++ b.replacements, keccak256 node.id.bytes ≠ keccak256 id.bytes

theorem Ordered.structured (ht : t.Ordered keccak256) {id : NodeId} (hid : t.idHash = keccak256 id.bytes)
    (i : Fin addressBits) : Structured keccak256 id i (t.kbucket i) where
  bucket := (ht.bounded i).bucket
  replacements := (ht.bounded i).replacements
  full := (ht.bounded i).full
  ipv4 := fun node hn => (ht.belongs i node hn).1
  distance := fun node hn => by
    rw [Table.distance, FixedBytes.xor_comm, ← hid]
    exact logdistance_eq_some.1 (ht.belongs i node hn).2
  foreign := fun node hn heq => by
    have hnone := logdistance_eq_none.2 (hid.trans heq.symm)
    exact Option.some_ne_none i ((ht.belongs i node hn).2.symm.trans hnone)

/-- **The structure of the table.** After any operations the buckets are structured; no operation makes the table
smaller; and so the array of the neighbours has room for all of them, the numbers of the filled buckets fit a byte, and
the oldest record of a bucket is found without an index out of range. -/
theorem table_structure (keccak256 : Bytes → H256) (id : NodeId) (ops : List Op)
    (h : Runs.run (step keccak256) (new keccak256 id) ops = some t) :
    (∀ i : Fin addressBits, Structured keccak256 id i (t.kbucket i)) ∧
    (∀ op t', step keccak256 t op = some t' → t.len ≤ t'.len) ∧
    (∀ (i : Fin addressBits) (peer : NodeId), ((t.kbucket i).bucket.filter (peer ≠ ·.id)).length ≤ bucketSize ∧
      (t.kbucket i).neighbours peer = (t.kbucket i).bucket.filter (peer ≠ ·.id)) ∧
    t.filledBuckets.isSome ∧ ∀ n, (t.oldest n).isSome := by
  obtain ⟨hid, ht⟩ := run_ordered id ops h
  refine ⟨ht.structured hid, fun op t' hs => step_len ht.bounded hs, fun i peer => (ht.bounded i).neighbours_eq peer,
    ?_, fun n => ?_⟩
  · obtain ⟨l, hl, -⟩ := filledBuckets_eq t
    rw [hl, Option.isSome_some]
  · rw [oldest_eq, Option.isSome_some]

/-- The table with the example's nodes. -/
theorem addTwice_structure : ∃ t, Runs.run (step sampleHash) (new sampleHash (sampleId 0)) addTwice = some t ∧
    (∀ i : Fin addressBits, Structured sampleHash (sampleId 0) i (t.kbucket i)) ∧
    (∀ op t', step sampleHash t op = some t' → t.len ≤ t'.len) ∧
    (∀ (i : Fin addressBits) (peer : NodeId), ((t.kbucket i).bucket.filter (peer ≠ ·.id)).length ≤ bucketSize ∧
      (t.kbucket i).neighbours peer = (t.kbucket i).bucket.filter (peer ≠ ·.id)) ∧
    t.filledBuckets.isSome ∧ ∀ n, (t.oldest n).isSome :=
  ⟨_, rfl, table_structure sampleHash (sampleId 0) addTwice rfl⟩

end Table

end Discv4

end EthereumSentry
