import EthereumSentry.Lib.Bytes

/-!
# The Kademlia table

`src/discv4/src/kad.rs`: 256 buckets, each with a list of records and a queue of replacements. A record goes into the
bucket of the highest bit in which the hashes of its id and of the table's id differ (`logdistance`). `KBucket.Bounded`
is kept by every operation: both queues have at most 16 records, and replacements wait only behind a full list.
-/

set_option autoImplicit false

namespace EthereumSentry

namespace Discv4

abbrev NodeId : Type := H512

inductive IpAddr where
  | v4 (octets : FixedBytes 4)
  | v6 (octets : FixedBytes 16)
  deriving DecidableEq

def IpAddr.isIpv6 : IpAddr → Bool
  | v4 _ => false
  | v6 _ => true

structure NodeRecord where
  address : IpAddr
  tcpPort : UInt16
  udpPort : UInt16
  id : NodeId
  deriving DecidableEq

structure Endpoint where
  address : IpAddr
  udpPort : UInt16
  tcpPort : UInt16
  deriving DecidableEq

/-- `Endpoint::from`. -/
def NodeRecord.endpoint (n : NodeRecord) : Endpoint := ⟨n.address, n.udpPort, n.tcpPort⟩

def bucketSize : Nat := 16

def replacementsSize : Nat := 16

def addressBytesSize : Nat := 32

def addressBits : Nat := 8 * addressBytesSize

/-! ## Buckets -/

structure KBucket where
  bucket : List NodeRecord
  replacements : List NodeRecord
  deriving DecidableEq

namespace KBucket

/-- `KBucket::default`. -/
def empty : KBucket := ⟨[], []⟩

def findPeerPos (b : KBucket) (peer : NodeId) : Option Nat := b.bucket.findIdx? (·.id == peer)

def pushReplacement (b : KBucket) (peer : NodeRecord) : KBucket :=
  if b.replacements.length < replacementsSize then { b with replacements := b.replacements ++ [peer] } else b

/-- `Table::add_verified`, in the bucket of the node. -/
def addVerified (b : KBucket) (node : NodeRecord) : KBucket :=
  let b := match b.findPeerPos node.id with
    | some pos => { b with bucket := b.bucket.eraseIdx pos }
    | none => b
  if b.bucket.length < bucketSize then { b with bucket := node :: b.bucket } else b.pushReplacement node

/-- `Table::add_seen`, in the bucket of the node. -/
def addSeen (b : KBucket) (node : NodeRecord) : KBucket :=
  if (b.findPeerPos node.id).isSome then b
  else if b.bucket.length < bucketSize then { b with bucket := b.bucket ++ [node] }
  else b.pushReplacement node

/-- `Table::remove`, in the bucket of the node. -/
def remove (b : KBucket) (node : NodeId) : KBucket :=
  match b.replacements with
  | [] => b
  | replacement :: rest =>
    match b.findPeerPos node with
    | some i => ⟨b.bucket.eraseIdx i ++ [replacement], rest⟩
    | none => b

/-- `Table::get`, in the bucket of the peer. -/
def get (b : KBucket) (peer : NodeId) : Option Endpoint := (b.bucket.find? (·.id == peer)).map NodeRecord.endpoint

/-- `Table::neighbours`, in the bucket of the peer. What an `ArrayVec` has no room for is dropped. -/
def neighbours (b : KBucket) (peer : NodeId) : List NodeRecord := (b.bucket.filter (peer ≠ ·.id)).take bucketSize

/-- The ids of a queue of records. -/
def ids (l : List NodeRecord) : List NodeId := l.map (·.id)

/-- No id is twice in the list, twice among the replacements, or in both. -/
structure Unique (b : KBucket) : Prop where
  bucket : (ids b.bucket).Nodup
  replacements : (ids b.replacements).Nodup
  disjoint : ∀ id ∈ ids b.bucket, id ∉ ids b.replacements

/-- The node waits as a replacement, and there is room for it to wait once more. -/
def Requeues (b : KBucket) (node : NodeRecord) : Prop :=
  node.id ∈ ids b.replacements ∧ b.replacements.length < replacementsSize

instance (b : KBucket) (node : NodeRecord) : Decidable (b.Requeues node) := inferInstanceAs (Decidable (_ ∧ _))

/-! ## Where a peer is found -/

@[simp] theorem ids_nil : ids [] = [] := rfl

@[simp] theorem ids_cons (node : NodeRecord) (l : List NodeRecord) : ids (node :: l) = node.id :: ids l := rfl

@[simp] theorem ids_append (l l' : List NodeRecord) : ids (l ++ l') = ids l ++ ids l' := List.map_append

variable {b : KBucket}

theorem findPeerPos_eq_none {peer : NodeId} : b.findPeerPos peer = none ↔ peer ∉ ids b.bucket := by
  simp [findPeerPos, ids, List.findIdx?_eq_none_iff]

theorem of_findPeerPos {peer : NodeId} {i : Nat} (h : b.findPeerPos peer = some i) :
    ∃ hi : i < b.bucket.length, b.bucket[i].id = peer := by
  obtain ⟨hi, hp, -⟩ := List.findIdx?_eq_some_iff_getElem.1 h
  exact ⟨hi, by simpa using hp⟩

/-! ## Sizes -/

/-- Both queues are bounded, and replacements wait behind a full list. -/
structure Bounded (b : KBucket) : Prop where
  bucket : b.bucket.length ≤ bucketSize
  replacements : b.replacements.length ≤ replacementsSize
  full : b.replacements ≠ [] → b.bucket.length = bucketSize

theorem empty_bounded : empty.Bounded := ⟨by simp [empty], by simp [empty], by simp [empty]⟩

/-- A bucket with room has no replacements. -/
theorem Bounded.replacements_eq_nil (hb : b.Bounded) (h : b.bucket.length < bucketSize) : b.replacements = [] := by
  by_contra hne
  have := hb.full hne
  omega

theorem pushReplacement_bounded (hb : b.Bounded) (h : ¬b.bucket.length < bucketSize) (node : NodeRecord) :
    (b.pushReplacement node).Bounded := by
  unfold pushReplacement
  split
  · have := hb.bucket
    exact ⟨hb.bucket, by simp; omega, fun _ => by simp; omega⟩
  · exact hb

/-- A record that is found is replaced; the bucket keeps its size. -/
theorem addVerified_of_some (hb : b.Bounded) {node : NodeRecord} {i : Nat} (h : b.findPeerPos node.id = some i) :
    b.addVerified node = { b with bucket := node :: b.bucket.eraseIdx i } := by
  obtain ⟨hi, -⟩ := of_findPeerPos h
  have hlen := hb.bucket
  unfold addVerified
  simp only [h, List.length_eraseIdx, hi, if_true]
  rw [if_pos (by omega)]

theorem addVerified_bounded (hb : b.Bounded) (node : NodeRecord) : (b.addVerified node).Bounded := by
  cases h : b.findPeerPos node.id with
  | some i =>
    rw [addVerified_of_some hb h]
    obtain ⟨hi, -⟩ := of_findPeerPos h
    have hlen : (node :: b.bucket.eraseIdx i).length = b.bucket.length := by
      simp only [List.length_cons, List.length_eraseIdx, hi, if_true]
      omega
    exact ⟨hlen ▸ hb.bucket, hb.replacements, fun hne => hlen.trans (hb.full hne)⟩
  | none =>
    unfold addVerified
    simp only [h]
    split
    · rename_i hroom
      exact ⟨hroom, hb.replacements, fun hne => absurd (hb.replacements_eq_nil hroom) hne⟩
    · rename_i hroom
      exact pushReplacement_bounded hb hroom node

theorem addSeen_bounded (hb : b.Bounded) (node : NodeRecord) : (b.addSeen node).Bounded := by
  unfold addSeen
  split
  · exact hb
  · split
    · rename_i hroom
      exact ⟨by rw [List.length_append]; exact hroom, hb.replacements,
        fun hne => absurd (hb.replacements_eq_nil hroom) hne⟩
    · rename_i hroom
      exact pushReplacement_bounded hb hroom node

/-- A removal replaces a record by the first replacement. -/
theorem remove_of_some {node : NodeId} {i : Nat} {replacement : NodeRecord} {rest : List NodeRecord}
    (hr : b.replacements = replacement :: rest) (h : b.findPeerPos node = some i) :
    b.remove node = ⟨b.bucket.eraseIdx i ++ [replacement], rest⟩ := by
  simp only [remove, hr, h]

theorem remove_of_none {node : NodeId} (h : b.replacements = [] ∨ b.findPeerPos node = none) : b.remove node = b := by
  unfold remove
  rcases h with h | h
  · rw [h]
  · rw [h]
    split <;> rfl

/-- A removal changes nothing, or it is of a record that is in the list while another one waits. -/
theorem remove_cases (b : KBucket) (node : NodeId) : b.remove node = b ∨
    ∃ i replacement rest, b.replacements = replacement :: rest ∧ b.findPeerPos node = some i ∧
      b.remove node = ⟨b.bucket.eraseIdx i ++ [replacement], rest⟩ := by
  cases hr : b.replacements with
  | nil => exact .inl (remove_of_none (.inl hr))
  | cons replacement rest =>
    cases h : b.findPeerPos node with
    | none => exact .inl (remove_of_none (.inr h))
    | some i => exact .inr ⟨i, replacement, rest, rfl, rfl, remove_of_some hr h⟩

theorem remove_bounded (hb : b.Bounded) (node : NodeId) : (b.remove node).Bounded := by
  rcases remove_cases b node with h | ⟨i, replacement, rest, hr, hpos, h⟩
  · rwa [h]
  · rw [h]
    obtain ⟨hi, -⟩ := of_findPeerPos hpos
    have hlen : (b.bucket.eraseIdx i ++ [replacement]).length = b.bucket.length := by
      simp only [List.length_append, List.length_singleton, List.length_eraseIdx, hi, if_true]
      omega
    have hrepl := hb.replacements
    rw [hr, List.length_cons] at hrepl
    exact ⟨hlen ▸ hb.bucket, by simp only; omega, fun _ => hlen.trans (hb.full (by simp [hr]))⟩

theorem exists_of_get {peer : NodeId} (h : (b.get peer).isSome) : ∃ node ∈ b.bucket, node.id = peer := by
  rw [get, Option.isSome_map, List.find?_isSome] at h
  simpa using h

/-- A peer that is found is not among its own neighbours. -/
theorem length_neighbours_lt (hb : b.Bounded) {peer : NodeId} (h : (b.get peer).isSome) :
    (b.neighbours peer).length < bucketSize := by
  obtain ⟨node, hnode, hid⟩ := exists_of_get h
  have hlt : (b.bucket.filter (peer ≠ ·.id)).length < b.bucket.length :=
    List.length_filter_lt_length_iff_exists.2 ⟨node, hnode, by simpa using hid.symm⟩
  have hlen := hb.bucket
  rw [neighbours, List.length_take]
  omega

/-! ## What a bucket holds -/

/-- Every record of the bucket, waiting or not, has a property. -/
def Holds (b : KBucket) (P : NodeRecord → Prop) : Prop := ∀ node ∈ b.bucket ++ b.replacements, P node

variable {P : NodeRecord → Prop}

theorem Holds.of_subset {c : KBucket} (hb : b.Holds P) (node : NodeRecord) (hn : P node)
    (hc : c.bucket ++ c.replacements ⊆ node :: (b.bucket ++ b.replacements)) : c.Holds P := fun r hr => by
  rcases List.mem_cons.1 (hc hr) with rfl | hr
  · exact hn
  · exact hb r hr

theorem pushReplacement_holds (hb : b.Holds P) {node : NodeRecord} (hn : P node) :
    (b.pushReplacement node).Holds P := by
  unfold pushReplacement
  split
  · exact hb.of_subset node hn (by simp)
  · exact hb

theorem addVerified_holds (hb : b.Holds P) {node : NodeRecord} (hn : P node) : (b.addVerified node).Holds P := by
  have herase : ∀ i, KBucket.Holds { b with bucket := b.bucket.eraseIdx i } P := fun i r hr => by
    refine hb r ?_
    rw [List.mem_append] at hr ⊢
    exact hr.imp_left fun h => (List.eraseIdx_sublist b.bucket i).subset h
  have hfound : ∀ c : KBucket, c.Holds P →
      (if c.bucket.length < bucketSize then { c with bucket := node :: c.bucket }
        else c.pushReplacement node).Holds P := by
    intro c hc
    split
    · exact hc.of_subset node hn (by simp)
    · exact pushReplacement_holds hc hn
  unfold addVerified
  simp only
  split
  · exact hfound _ (herase _)
  · exact hfound _ hb

theorem addSeen_holds (hb : b.Holds P) {node : NodeRecord} (hn : P node) : (b.addSeen node).Holds P := by
  unfold addSeen
  split
  · exact hb
  · split
    · exact hb.of_subset node hn (by intro r; simp; tauto)
    · exact pushReplacement_holds hb hn

theorem remove_holds (hb : b.Holds P) (node : NodeId) : (b.remove node).Holds P := by
  rcases remove_cases b node with h | ⟨i, replacement, rest, hr, -, h⟩
  · rwa [h]
  · rw [h]
    intro r hmem
    apply hb r
    rw [hr]
    rw [List.append_assoc, List.mem_append] at hmem
    rw [List.mem_append]
    exact hmem.imp_left fun h => (List.eraseIdx_sublist b.bucket i).subset h

theorem mem_neighbours {peer : NodeId} {node : NodeRecord} (h : node ∈ b.neighbours peer) : node ∈ b.bucket :=
  (List.mem_filter.1 ((List.take_subset _ _) h)).1

end KBucket

/-! ## Tables -/

structure Table where
  idHash : H256
  kbuckets : Vector KBucket addressBits

/-- `u8::leading_zeros`. -/
def leadingZeros (d : UInt8) : Nat := if d = 0 then 8 else 7 - d.toNat.log2

/-- `u8::try_from`. -/
def u8TryFrom (i : Nat) : Option UInt8 := if i < 256 then some (UInt8.ofNat i) else none

/-- The byte at an index. -/
def byteAt (h : H256) (i : Fin addressBytesSize) : UInt8 := h.bytes.get (i.cast h.length_bytes.symm)

namespace Table

variable (keccak256 : Bytes → H256)

/-- `distance`. -/
def distance (n1 n2 : NodeId) : H256 := (keccak256 n1.bytes).xor (keccak256 n2.bytes)

def new (id : NodeId) : Table := ⟨keccak256 id.bytes, Vector.replicate addressBits KBucket.empty⟩

def logdistance (t : Table) (peer : NodeId) : Option (Fin addressBits) :=
  let remoteHash := keccak256 peer.bytes
  (List.finRange addressBytesSize).reverse.findSome? fun (i : Fin addressBytesSize) =>
    let byteIndex := i.rev
    let d := byteAt t.idHash byteIndex ^^^ byteAt remoteHash byteIndex
    if d = 0 then none
    else
      let highBitIndex := 7 - leadingZeros d
      some ⟨i * 8 + highBitIndex, by have := i.isLt; simp only [addressBits, addressBytesSize] at *; omega⟩

/-- The bucket at an index. -/
abbrev kbucket (t : Table) (i : Fin addressBits) : KBucket := t.kbuckets[i]

/-- Another bucket at an index. -/
abbrev setKbucket (t : Table) (i : Fin addressBits) (b : KBucket) : Table :=
  { t with kbuckets := t.kbuckets.set i b }

/-- What is done with `bucket_mut`, when the peer has a bucket. -/
def bucketMut (t : Table) (peer : NodeId) (f : KBucket → KBucket) : Table :=
  match t.logdistance keccak256 peer with
  | some distance => { t with kbuckets := t.kbuckets.set distance (f t.kbuckets[distance]) }
  | none => t

/-- The bucket of a peer. -/
def bucket (t : Table) (peer : NodeId) : Option KBucket := (t.logdistance keccak256 peer).map (t.kbuckets[·])

def get (t : Table) (peer : NodeId) : Option Endpoint := (t.bucket keccak256 peer).bind (·.get peer)

def neighbours (t : Table) (peer : NodeId) : Option (List NodeRecord) :=
  (t.bucket keccak256 peer).map (·.neighbours peer)

def addVerified (t : Table) (node : NodeRecord) : Table :=
  if node.address.isIpv6 then t else t.bucketMut keccak256 node.id (·.addVerified node)

def addSeen (t : Table) (node : NodeRecord) : Table :=
  if node.address.isIpv6 then t else t.bucketMut keccak256 node.id (·.addSeen node)

def remove (t : Table) (node : NodeId) : Table := t.bucketMut keccak256 node (·.remove node)

/-- The numbers of the buckets with a full list, where every number has to fit a byte. -/
def filledBuckets (t : Table) : Option (List UInt8) :=
  (t.kbuckets.toList.zipIdx.filter fun (kbucket, _) => bucketSize ≤ kbucket.bucket.length).mapM fun (_, i) =>
    u8TryFrom i

/-- The last record of a bucket. The outer `none` is an index out of range. -/
def oldest (t : Table) (bucketNo : UInt8) : Option (Option NodeRecord) := do
  let b ← t.kbuckets.toList[bucketNo.toNat]?
  if b.bucket.isEmpty then some none else b.bucket[b.bucket.length - 1]?.map some

def len (t : Table) : Nat := t.kbuckets.toList.foldl (fun total bucket => total + bucket.bucket.length) 0

/-- The operations that change a table. -/
inductive Op where
  | addVerified (node : NodeRecord)
  | addSeen (node : NodeRecord)
  | remove (node : NodeId)

/-- Do an operation. -/
def step (t : Table) : Op → Option Table
  | .addVerified node => some (t.addVerified keccak256 node)
  | .addSeen node => some (t.addSeen keccak256 node)
  | .remove node => some (t.remove keccak256 node)

/-- The operation adds a node that waits in its bucket, which has room for another replacement. -/
def Requeues (t : Table) : Op → Prop
  | .addVerified node | .addSeen node =>
    node.address.isIpv6 = false ∧ ∃ i, t.logdistance keccak256 node.id = some i ∧ t.kbuckets[i].Requeues node
  | .remove _ => False

instance (t : Table) (op : Op) : Decidable (t.Requeues keccak256 op) := match op with
  | .addVerified node | .addSeen node =>
    inferInstanceAs (Decidable (_ ∧ ∃ i ∈ t.logdistance keccak256 node.id, t.kbuckets[i].Requeues node))
  | .remove _ => .isFalse id

/-- No bucket has an id twice. -/
def Unique (t : Table) : Prop := ∀ i : Fin addressBits, t.kbuckets[i].Unique

variable {keccak256} {t : Table}

/-- Only the bucket of the peer changes. -/
theorem bucketMut_forall {P : Fin addressBits → KBucket → Prop} {peer : NodeId} {f : KBucket → KBucket}
    (ht : ∀ i : Fin addressBits, P i t.kbuckets[i]) :
    (∀ i : Fin addressBits, P i (t.bucketMut keccak256 peer f).kbuckets[i]) ↔
      ∀ i, t.logdistance keccak256 peer = some i → P i (f t.kbuckets[i]) := by
  unfold bucketMut
  cases h : t.logdistance keccak256 peer with
  | none => simpa using ht
  | some d =>
    simp only [Option.some.injEq, forall_eq', Fin.getElem_fin]
    constructor
    · intro hall
      simpa using hall d
    · intro hd i
      rw [Vector.getElem_set]
      split
      · rename_i heq
        exact Fin.ext heq ▸ hd
      · exact ht i

/-- Every bucket is bounded. -/
def Bounded (t : Table) : Prop := ∀ i : Fin addressBits, t.kbuckets[i].Bounded

theorem new_bounded (id : NodeId) : (new keccak256 id).Bounded := fun i => by
  simpa [new] using KBucket.empty_bounded

theorem addVerified_bounded (ht : t.Bounded) (node : NodeRecord) : (t.addVerified keccak256 node).Bounded := by
  unfold addVerified
  split
  · exact ht
  · exact (bucketMut_forall ht).2 fun i _ => KBucket.addVerified_bounded (ht i) node

theorem addSeen_bounded (ht : t.Bounded) (node : NodeRecord) : (t.addSeen keccak256 node).Bounded := by
  unfold addSeen
  split
  · exact ht
  · exact (bucketMut_forall ht).2 fun i _ => KBucket.addSeen_bounded (ht i) node

theorem remove_bounded (ht : t.Bounded) (node : NodeId) : (t.remove keccak256 node).Bounded :=
  (bucketMut_forall ht).2 fun i _ => KBucket.remove_bounded (ht i) node

/-- Every record of the table has a property. -/
def Holds (t : Table) (P : NodeRecord → Prop) : Prop := ∀ i : Fin addressBits, t.kbuckets[i].Holds P

variable {P : NodeRecord → Prop}

theorem new_holds (id : NodeId) : (new keccak256 id).Holds P := fun i => by
  simp [new, KBucket.Holds, KBucket.empty]

theorem addVerified_holds (ht : t.Holds P) {node : NodeRecord} (hn : node.address.isIpv6 = false → P node) :
    (t.addVerified keccak256 node).Holds P := by
  unfold addVerified
  split
  · exact ht
  · rename_i h
    refine (bucketMut_forall (P := fun _ b => b.Holds P) ht).2 fun i _ => ?_
    exact KBucket.addVerified_holds (ht i) (hn (by simpa using h))

theorem addSeen_holds (ht : t.Holds P) {node : NodeRecord} (hn : node.address.isIpv6 = false → P node) :
    (t.addSeen keccak256 node).Holds P := by
  unfold addSeen
  split
  · exact ht
  · rename_i h
    refine (bucketMut_forall (P := fun _ b => b.Holds P) ht).2 fun i _ => ?_
    exact KBucket.addSeen_holds (ht i) (hn (by simpa using h))

theorem remove_holds (ht : t.Holds P) (node : NodeId) : (t.remove keccak256 node).Holds P :=
  (bucketMut_forall (P := fun _ b => b.Holds P) ht).2 fun i _ => KBucket.remove_holds (ht i) node

/-- A peer that is found has neighbours: fewer than a bucket of them, all from the table. -/
theorem neighbours_of_get {peer : NodeId} (h : (t.get keccak256 peer).isSome) :
    ∃ i : Fin addressBits, t.neighbours keccak256 peer = some (t.kbuckets[i].neighbours peer) ∧
      (t.kbuckets[i].get peer).isSome := by
  unfold get neighbours bucket at *
  cases hd : t.logdistance keccak256 peer with
  | none => simp [hd] at h
  | some i => exact ⟨i, by simp, by simpa [hd] using h⟩

end Table

end Discv4

end EthereumSentry
