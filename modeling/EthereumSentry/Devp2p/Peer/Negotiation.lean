import Mathlib.Data.Finset.Max
import EthereumSentry.Devp2p.Peer.Mux
import EthereumSentry.Devp2p.Peer.Hello

/-!
# Negotiation of capabilities

`PeerStream::new` keeps the local capabilities that the `Hello` of the remote offers too (`Common`), drops a version
when a higher one is kept, and sorts the rest by name. The result is one capability for each common name, in its highest
common version, with ascending names (`shareCapabilities_shared`). These properties determine the names and versions,
and they are symmetric, so two nodes that negotiate with each other agree (`Shared.keys_eq`).
-/

set_option autoImplicit false

namespace EthereumSentry

theorem CapabilityName.eq_of_text {a b : CapabilityName} (h : a.text = b.text) : a = b := by
  cases a
  cases b
  simpa using h

namespace CapabilityInfo

/-- The name and the version. -/
def key (cap : CapabilityInfo) : CapabilityMessage := ⟨cap.name, cap.version⟩

end CapabilityInfo

namespace PeerStream

variable {caps : List CapabilityInfo} {remote : List CapabilityMessage} {cap : CapabilityInfo}

/-! ## What is negotiated -/

/-- A local capability that the remote offers in the same version. -/
def Common (caps : List CapabilityInfo) (remote : List CapabilityMessage) (cap : CapabilityInfo) : Prop :=
  cap ∈ caps ∧ cap.key ∈ remote

/-- **One capability for each common name**: the local one in its highest common version, by name. -/
structure Shared (caps : List CapabilityInfo) (remote : List CapabilityMessage) (l : List CapabilityInfo) : Prop where
  ascending : l.Pairwise (·.name < ·.name)
  mem_iff : ∀ cap, cap ∈ l ↔
    Common caps remote cap ∧ ∀ other, Common caps remote other → other.name = cap.name → other.version ≤ cap.version

/-! ## The passes -/

/-- The loop drops a capability when a higher version of it is in the list. -/
theorem mem_foldl_retain : ∀ {originals kept : List CapabilityInfo},
    cap ∈ originals.foldl (fun kept cap => kept.filter fun v => v.name ≠ cap.name ∨ cap.version ≤ v.version) kept ↔
      cap ∈ kept ∧ ∀ other ∈ originals, other.name = cap.name → other.version ≤ cap.version
  | [], kept => by simp
  | other :: originals, kept => by
    rw [List.foldl_cons, mem_foldl_retain, List.mem_filter]
    simp only [decide_eq_true_eq, List.mem_cons, forall_eq_or_imp, ne_eq, eq_comm (a := cap.name), and_assoc,
      ← imp_iff_not_or]

/-- The loop that finds a local capability at the remote. -/
theorem any_eq_true_iff :
    (remote.any fun v => v.name = cap.name ∧ v.version = cap.version) = true ↔ cap.key ∈ remote := by
  simp only [List.any_eq_true, decide_eq_true_eq, CapabilityInfo.key]
  constructor
  · rintro ⟨⟨name, version⟩, hv, rfl, rfl⟩
    exact hv
  · exact fun hv => ⟨_, hv, rfl, rfl⟩

/-- What the passes leave. -/
theorem mem_shareCapabilities : cap ∈ shareCapabilities caps remote ↔
    Common caps remote cap ∧ ∀ other, Common caps remote other → other.name = cap.name →
      other.version ≤ cap.version := by
  have hcommon : ∀ d, (d ∈ caps.filter fun cap => remote.any fun v => v.name = cap.name ∧ v.version = cap.version) ↔
      Common caps remote d := fun d => by
    rw [List.mem_filter, any_eq_true_iff, Common]
  rw [shareCapabilities, List.mem_mergeSort, mem_foldl_retain]
  simp only [hcommon]

/-- In a list of distinct names and versions, a name is kept once. -/
theorem eq_of_mem_shareCapabilities (hd : (caps.map (·.key)).Nodup) {other : CapabilityInfo}
    (h : cap ∈ shareCapabilities caps remote) (h' : other ∈ shareCapabilities caps remote)
    (hname : other.name = cap.name) : other = cap := by
  rw [mem_shareCapabilities] at h h'
  have hversion : other.version = cap.version := Nat.le_antisymm (h.2 other h'.1 hname) (h'.2 cap h.1 hname.symm)
  have hkey : other.key = cap.key := by rw [CapabilityInfo.key, CapabilityInfo.key, hname, hversion]
  exact List.inj_on_of_nodup_map hd h'.1.1 h.1.1 hkey

/-- Nothing is kept twice. -/
theorem nodup_shareCapabilities (hd : (caps.map (·.key)).Nodup) : (shareCapabilities caps remote).Nodup := by
  have hfold : ∀ (originals kept : List CapabilityInfo), kept.Nodup →
      (originals.foldl (fun kept cap => kept.filter fun v => v.name ≠ cap.name ∨ cap.version ≤ v.version)
        kept).Nodup := by
    intro originals
    induction originals with
    | nil => exact fun _ h => h
    | cons other originals ih => exact fun _ h => ih _ (h.filter _)
  rw [shareCapabilities, (List.mergeSort_perm _ _).nodup_iff]
  exact hfold _ _ ((List.Nodup.of_map _ hd).filter _)

/-- **The passes negotiate**, whatever the order or the repetition in either list. -/
theorem shareCapabilities_shared (hd : (caps.map (·.key)).Nodup) (remote : List CapabilityMessage) :
    Shared caps remote (shareCapabilities caps remote) where
  ascending := by
    have hsorted : (shareCapabilities caps remote).Pairwise fun a b => ¬b.name < a.name := by
      refine (List.pairwise_mergeSort (fun a b d hab hbd => ?_) (fun a b => ?_) _).imp fun h => by simpa using h
      · simp only [decide_eq_true_eq] at hab hbd ⊢
        exact not_lt.2 ((not_lt.1 hab).trans (not_lt.1 hbd) : a.name.text ≤ d.name.text)
      · simp only [Bool.or_eq_true, decide_eq_true_eq]
        exact (le_total a.name.text b.name.text).imp not_lt.2 not_lt.2
    -- neighbours have different names, as a name is kept once
    refine (hsorted.and (nodup_shareCapabilities hd)).imp_of_mem fun {a b} ha hb h => ?_
    have hne : a.name.text ≠ b.name.text := fun he =>
      h.2 (eq_of_mem_shareCapabilities hd hb ha (CapabilityName.eq_of_text he))
    exact lt_of_le_of_ne (not_lt.1 h.1) hne
  mem_iff _ := mem_shareCapabilities

/-- A name that is common has one capability. -/
theorem Shared.exists_unique {l : List CapabilityInfo} (h : Shared caps remote l) (hd : (caps.map (·.key)).Nodup)
    (hcap : Common caps remote cap) : ∃! best, best ∈ l ∧ best.name = cap.name := by
  classical
  let named := (caps.filter fun d => d.name = cap.name ∧ d.key ∈ remote).toFinset
  have hmem : ∀ d, d ∈ named ↔ Common caps remote d ∧ d.name = cap.name := by
    intro d
    simp only [named, List.mem_toFinset, List.mem_filter, decide_eq_true_eq, Common]
    tauto
  obtain ⟨best, hbest, hmax⟩ := named.exists_max_image (·.version) ⟨cap, (hmem cap).2 ⟨hcap, rfl⟩⟩
  rw [hmem] at hbest
  have hin : best ∈ l := by
    refine (h.mem_iff best).2 ⟨hbest.1, fun other hother hname => ?_⟩
    exact hmax other ((hmem other).2 ⟨hother, hname.trans hbest.2⟩)
  refine ⟨best, ⟨hin, hbest.2⟩, fun other ⟨hother, hname⟩ => ?_⟩
  -- two entries of one name are at most as high as each other
  rw [h.mem_iff] at hother hin
  have hnames : other.name = best.name := hname.trans hbest.2.symm
  have hversion := Nat.le_antisymm (hin.2 other hother.1 hnames) (hother.2 best hin.1 hnames.symm)
  refine List.inj_on_of_nodup_map hd hother.1.1 hin.1.1 ?_
  rw [CapabilityInfo.key, CapabilityInfo.key, hnames, hversion]

/-! ## Agreement -/

theorem Shared.ascending_keys {l : List CapabilityInfo} (h : Shared caps remote l) :
    (l.map (·.key)).Pairwise (·.name < ·.name) := List.pairwise_map.2 h.ascending

/-- The names and versions, said of both lists alike. -/
theorem Shared.mem_keys_iff {capsB l : List CapabilityInfo} (h : Shared caps (capsB.map (·.key)) l)
    (k : CapabilityMessage) : k ∈ l.map (·.key) ↔
      (k ∈ caps.map (·.key) ∧ k ∈ capsB.map (·.key)) ∧ ∀ k', k' ∈ caps.map (·.key) → k' ∈ capsB.map (·.key) →
        k'.name = k.name → k'.version ≤ k.version := by
  simp only [List.mem_map]
  constructor
  · rintro ⟨cap, hcap, rfl⟩
    obtain ⟨⟨hcaps, hB⟩, hmax⟩ := (h.mem_iff cap).1 hcap
    refine ⟨⟨⟨cap, hcaps, rfl⟩, List.mem_map.1 hB⟩, ?_⟩
    rintro _ ⟨other, hother, rfl⟩ hotherB hname
    exact hmax other ⟨hother, List.mem_map.2 hotherB⟩ hname
  · rintro ⟨⟨⟨cap, hcap, rfl⟩, hB⟩, hmax⟩
    refine ⟨cap, (h.mem_iff cap).2 ⟨⟨hcap, List.mem_map.2 hB⟩, fun other hother hname => ?_⟩, rfl⟩
    exact hmax other.key ⟨other, hother.1, rfl⟩ (List.mem_map.1 hother.2) hname

/-- **Both ends have the same names and versions.** -/
theorem Shared.keys_eq {capsB l lB : List CapabilityInfo} (h : Shared caps (capsB.map (·.key)) l)
    (hB : Shared capsB (caps.map (·.key)) lB) : l.map (·.key) = lB.map (·.key) := by
  have hirrefl : Std.Irrefl fun k k' : CapabilityMessage => k.name < k'.name := ⟨fun k => lt_irrefl k.name.text⟩
  have hantisymm : Std.Antisymm fun k k' : CapabilityMessage => k.name < k'.name :=
    ⟨fun k k' h h' => absurd (lt_trans h h' : k.name.text < k.name.text) (lt_irrefl _)⟩
  refine h.ascending_keys.eq_of_mem_iff hB.ascending_keys fun k => ?_
  rw [h.mem_keys_iff, hB.mem_keys_iff]
  exact ⟨fun ⟨hk, hmax⟩ => ⟨hk.symm, fun k' hb ha => hmax k' ha hb⟩,
    fun ⟨hk, hmax⟩ => ⟨hk.symm, fun k' ha hb => hmax k' hb ha⟩⟩

/-- They have the same capabilities when the lengths agree. -/
theorem Shared.eq_of_lengths {capsB l lB : List CapabilityInfo} (h : Shared caps (capsB.map (·.key)) l)
    (hB : Shared capsB (caps.map (·.key)) lB)
    (hlen : ∀ x ∈ caps, ∀ y ∈ capsB, x.key = y.key → x.length = y.length) : l = lB := by
  have hkeys := h.keys_eq hB
  refine List.ext_getElem (by simpa using congrArg List.length hkeys) fun i h₁ h₂ => ?_
  have hkey : l[i].key = lB[i].key := by
    have := congrArg (·[i]?) hkeys
    simpa [List.getElem?_eq_getElem h₁, List.getElem?_eq_getElem h₂] using this
  have hlength := hlen _ ((h.mem_iff _).1 (List.getElem_mem h₁)).1.1 _ ((hB.mem_iff _).1 (List.getElem_mem h₂)).1.1 hkey
  generalize l[i] = x at hkey hlength
  generalize lB[i] = y at hkey hlength
  cases x
  cases y
  simp only [CapabilityInfo.key, CapabilityMessage.mk.injEq] at hkey
  simp_all

/-- The sum of the lengths does not depend on the stream. -/
theorem run_addLengths_congr {S T : Type} (cap : CapabilityInfo) (l : List CapabilityInfo) (m k : Nat)
    (s : PeerStream S) (t : PeerStream T) :
    (addLengths cap l m).run s = .ok k s ↔ (addLengths cap l m).run t = .ok k t := by
  induction l generalizing m with
  | nil => simp [addLengths]
  | cons scap l ih =>
    rw [addLengths, addLengths]
    split
    · simp
    · by_cases hlt : m + scap.length < usizeBound
      · rw [Prog.run_bind_ok (Prog.run_add hlt s), Prog.run_bind_ok (Prog.run_add hlt t), ih]
      · rw [Prog.run_bind_err (Prog.run_add_crash (Nat.not_lt.1 hlt) s),
          Prog.run_bind_err (Prog.run_add_crash (Nat.not_lt.1 hlt) t)]
        simp

/-! ## The streams that `new` returns -/

variable {c : Crates}

/-- **Negotiation.** Over any transport, the stream that `new` returns has one capability for each name that the local
list and the received `Hello` have in common, in the highest common version, with ascending names. Two nodes that
complete `new` with each other have the same names and versions, and the same offsets when their lengths agree. -/
theorem negotiation (hr : c.rlp.Lawful) (hl : c.rlp.ListLaws) :
    (∀ {S : Type} (F : Frames S) (n : Setup) (s s' : S) (p : PeerStream S), (n.capabilities.map (·.key)).Nodup →
      (n.new c F).run s = .ok (.ready p) s' →
      ∃ t frame hello, (F.startSend (helloFrame c n.hello)).run s = .ok () t ∧
        F.pollNext.run t = .ok (.ready (some frame)) s' ∧
        (readHello c frame : Prog HelloError S HelloMessage).run s' = .ok hello s' ∧
        Shared n.capabilities hello.capabilities p.sharedCapabilities ∧
        ∀ cap, Common n.capabilities hello.capabilities cap →
          ∃! best, best ∈ p.sharedCapabilities ∧ best.name = cap.name) ∧
    ∀ {S T : Type} (F : Frames S) (G : Frames T) (a b : Setup) (p : PeerStream S) (q : PeerStream T),
      (a.capabilities.map (·.key)).Nodup → (b.capabilities.map (·.key)).Nodup → a.hello.Fits c → b.hello.Fits c →
      Meet c F G a b p q →
      p.sharedCapabilities.map (·.key) = q.sharedCapabilities.map (·.key) ∧
      ((∀ x ∈ a.capabilities, ∀ y ∈ b.capabilities, x.key = y.key → x.length = y.length) →
        p.sharedCapabilities = q.sharedCapabilities ∧ ∀ cap offset,
          (addLengths cap p.sharedCapabilities 0x10).run p = .ok offset p ↔
            (addLengths cap q.sharedCapabilities 0x10).run q = .ok offset q) := by
  constructor
  · intro S F n s s' p hd hnew
    obtain ⟨t, frame, hello, hsend, hrecv, hread, _, rfl⟩ := run_new_eq_ok.1 hnew
    have hshared := shareCapabilities_shared hd hello.capabilities
    exact ⟨t, frame, hello, hsend, hrecv, hread, hshared, fun cap hcap => hshared.exists_unique hd hcap⟩
  · intro S T F G a b p q hda hdb hfa hfb hmeet
    have hp := shareCapabilities_shared hda b.hello.capabilities
    have hq := shareCapabilities_shared hdb a.hello.capabilities
    rw [hmeet.left.eq_stream hr hl hfb, hmeet.right.eq_stream hr hl hfa]
    refine ⟨hp.keys_eq hq, fun hlen => ?_⟩
    have heq := hp.eq_of_lengths hq hlen
    refine ⟨heq, fun cap offset => ?_⟩
    simp only [Setup.stream] at heq ⊢
    rw [heq]
    exact run_addLengths_congr cap _ _ _ _ _

section Example

open Software

/-- `eth` in an older version. -/
def eth65 : CapabilityInfo := ⟨eth.name, 65, 17⟩

/-- A node that offers `les`, and `eth` in two versions. -/
def ethLesNode : Setup := ⟨FixedBytes.zero 64, .v5, "a", [les, eth, eth65], 30303⟩

/-- A node that offers `eth` in two versions. -/
def ethNode : Setup := ⟨FixedBytes.zero 64, .v5, "b", [eth65, eth], 30304⟩

theorem hello_fits {n : Setup} (hv : ∀ cap ∈ n.hello.capabilities, cap.version < usizeBound) (hp : n.port < 2 ^ 16)
    (hs : (n.hello.encode crates).length < usizeBound) : n.hello.Fits crates where
  protocolVersion := by
    have : n.hello.protocolVersion = n.protocolVersion.toUsize := rfl
    rw [this]
    cases n.protocolVersion <;> decide
  versions := hv
  port := hp
  size := hs

theorem ethLesNode_fits : ethLesNode.hello.Fits crates := hello_fits (by decide) (by decide) (by decide +kernel)

theorem ethNode_fits : ethNode.hello.Fits crates := hello_fits (by decide) (by decide) (by decide +kernel)

/-- The two nodes complete `new` with each other. -/
theorem ethNodes_meet : ∃ p q, Meet crates FrameQueue.frames FrameQueue.frames ethLesNode ethNode p q :=
  ⟨_, _, opens_frameQueue Rlp.standard_lawful Rlp.standard_listLaws ethNode_fits (by decide +kernel),
    opens_frameQueue Rlp.standard_lawful Rlp.standard_listLaws ethLesNode_fits (by decide +kernel)⟩

/-- They agree on the names and versions, and on every offset. -/
theorem ethNodes_agree : ∃ p q, Meet crates FrameQueue.frames FrameQueue.frames ethLesNode ethNode p q ∧
    p.sharedCapabilities.map (·.key) = q.sharedCapabilities.map (·.key) ∧
    p.sharedCapabilities = q.sharedCapabilities := by
  obtain ⟨p, q, hmeet⟩ := ethNodes_meet
  obtain ⟨hkeys, hlen⟩ := (negotiation Rlp.standard_lawful Rlp.standard_listLaws).2 FrameQueue.frames FrameQueue.frames
    ethLesNode ethNode p q (by decide) (by decide) ethLesNode_fits ethNode_fits hmeet
  exact ⟨p, q, hmeet, hkeys, (hlen (by decide)).1⟩

end Example

end PeerStream

end EthereumSentry
