import EthereumSentry.Devp2p.Peer.Mux

/-!
# What the demultiplexer returns

The range of a capability starts where those of the capabilities before it end, and its ids are counted from there
(`Owns`). The loop of `poll_next` finds the owner of a received id, or that there is none, except where a range ends:
the first id of a range and the id after the last one are taken for ids of the capability before, and an id is counted
on into a later, shorter range (`demux_sound`).
-/

set_option autoImplicit false

namespace EthereumSentry

namespace PeerStream

variable {c : Crates}

/-! ## Owners -/

/-- A number is an id of a capability, counted over the ranges of those before it. -/
structure Owns (caps : List CapabilityInfo) (m : Nat) (before : List CapabilityInfo) (cap : CapabilityInfo)
    (after : List CapabilityInfo) (id : Nat) : Prop where
  split : caps = before ++ cap :: after
  lt : id < cap.length
  sum : totalLength before + id = m

theorem totalLength_cons (cap : CapabilityInfo) (caps : List CapabilityInfo) :
    totalLength (cap :: caps) = cap.length + totalLength caps := by
  simp [totalLength]

theorem totalLength_append (caps caps' : List CapabilityInfo) :
    totalLength (caps ++ caps') = totalLength caps + totalLength caps' := by
  simp [totalLength]

/-- A number below the total length has an owner. -/
theorem exists_owns : ∀ {caps : List CapabilityInfo} {m : Nat}, m < totalLength caps →
    ∃ before cap after id, Owns caps m before cap after id
  | [], m, h => absurd h (Nat.not_lt_zero m)
  | cap :: caps, m, h => by
    rw [totalLength_cons] at h
    by_cases hm : m < cap.length
    · exact ⟨[], cap, caps, m, rfl, hm, by simp [totalLength]⟩
    · have hm : m - cap.length < totalLength caps := by omega
      obtain ⟨before, cap', after, id, rfl, hlt, hsum⟩ := exists_owns hm
      exact ⟨cap :: before, cap', after, id, rfl, hlt, by rw [totalLength_cons]; omega⟩

/-- No other number has one. -/
theorem Owns.lt_total {caps before after : List CapabilityInfo} {cap : CapabilityInfo} {m id : Nat}
    (h : Owns caps m before cap after id) : m < totalLength caps := by
  have := h.lt
  rw [h.split, ← h.sum, totalLength_append, totalLength_cons]
  omega

/-- The ranges do not overlap. -/
theorem Owns.unique {before before' after after' : List CapabilityInfo} {cap cap' : CapabilityInfo} {id id' : Nat}
    {caps : List CapabilityInfo} {m : Nat} (h : Owns caps m before cap after id)
    (h' : Owns caps m before' cap' after' id') : before = before' ∧ cap = cap' ∧ after = after' ∧ id = id' := by
  have hnil : totalLength [] = 0 := rfl
  induction before generalizing caps before' m with
  | nil =>
    obtain ⟨rfl, hlt, hsum⟩ := h
    obtain ⟨hsplit, -, hsum'⟩ := h'
    cases before' with
    | nil =>
      cases hsplit
      exact ⟨rfl, rfl, rfl, by omega⟩
    | cons d before' =>
      cases hsplit
      rw [totalLength_cons] at hsum'
      omega
  | cons d before ih =>
    obtain ⟨rfl, hlt, hsum⟩ := h
    obtain ⟨hsplit, hlt', hsum'⟩ := h'
    rw [totalLength_cons] at hsum
    cases before' with
    | nil =>
      cases hsplit
      omega
    | cons d' before' =>
      obtain ⟨hd, hrest⟩ := List.cons.inj hsplit
      subst hd
      rw [totalLength_cons] at hsum'
      obtain ⟨rfl, hsame⟩ := ih (m := totalLength before + id) ⟨rfl, hlt, rfl⟩ ⟨hrest, hlt', by omega⟩
      exact ⟨rfl, hsame⟩

/-! ## The loop -/

/-- No more is taken off than there was. -/
theorem demux_le : ∀ (caps : List CapabilityInfo) (m i : Nat),
    (demux caps m i).1 ≤ m ∧ (demux caps m i).2 ≤ i + caps.length
  | [], _, _ => ⟨le_rfl, le_rfl⟩
  | cap :: caps, m, i => by
    rw [demux, List.length_cons]
    split
    · have := demux_le caps (m - cap.length) (i + 1)
      omega
    · have := demux_le caps m i
      omega

/-- The loop goes past the last capability only with a number beyond the ranges. -/
theorem demux_index_lt : ∀ {caps : List CapabilityInfo} {m : Nat} (i : Nat), caps ≠ [] → m ≤ totalLength caps →
    (demux caps m i).2 < i + caps.length
  | cap :: caps, m, i, _, h => by
    rw [totalLength_cons] at h
    rw [demux, List.length_cons]
    split
    · have hcaps : caps ≠ [] := fun hnil => by
        rw [hnil] at h
        simp only [totalLength, List.map_nil, List.sum_nil] at h
        omega
      have := demux_index_lt (i + 1) hcaps (m := m - cap.length) (by omega)
      omega
    · have := (demux_le caps m i).2
      omega

/-- The id stays as it is only when no later capability is shorter. -/
theorem demux_after_fst {after : List CapabilityInfo} (hpos : ∀ d ∈ after, 0 < d.length) (id i : Nat) :
    (demux after id i).1 = id ↔ ∀ d ∈ after, id ≤ d.length := by
  have hsnd : ∀ {after : List CapabilityInfo} (i : Nat), (∀ d ∈ after, 0 < d.length) →
      (demux after id i).1 = id → (demux after id i).2 = i := fun {after} => by
    induction after with
    | nil => exact fun _ _ _ => rfl
    | cons d after ih =>
      intro i hpos
      obtain ⟨hd, hafter⟩ := List.forall_mem_cons.1 hpos
      rw [demux]
      split
      · intro h
        have := (demux_le after (id - d.length) (i + 1)).1
        omega
      · exact ih i hafter
  exact ⟨fun h => (demux_after after id i).1 (Prod.ext h (hsnd i hpos h)),
    fun h => congrArg Prod.fst ((demux_after after id i).2 h)⟩

/-- The capabilities before the owner are taken off, unless nothing is left then. -/
theorem Owns.demux {caps before after : List CapabilityInfo} {cap : CapabilityInfo} {m id : Nat}
    (h : Owns caps m before cap after id) (hfirst : before = [] ∨ 0 < id) :
    demux caps m 0 = PeerStream.demux after id before.length := by
  have hlt := h.lt
  have hcap : ∀ i, PeerStream.demux (cap :: after) id i = PeerStream.demux after id i := fun i => by
    rw [PeerStream.demux, if_neg (by omega)]
  rw [h.split, ← h.sum]
  rcases hfirst with rfl | hid
  · simp [totalLength, hcap]
  · rw [demux_before _ _ _ hid, hcap, Nat.zero_add]

/-- Where the loop does what it ought to: beyond the ranges, without capabilities, and at an id that is not the first of
a later range and that no later capability is shorter than. -/
def Exact (caps : List CapabilityInfo) (m : Nat) : Prop :=
  totalLength caps < m ∨ caps = [] ∨ ∃ before cap after id, Owns caps m before cap after id ∧
    (before = [] ∨ 0 < id) ∧ ∀ d ∈ after, id ≤ d.length

/-- What the loop finds is the owner, and it finds none exactly when there is none. -/
def Sound (caps : List CapabilityInfo) (m : Nat) : Prop :=
  (∀ cap, caps[(demux caps m 0).2]? = some cap → ∃ before cap' after,
    Owns caps m before cap' after (demux caps m 0).1 ∧ cap'.name = cap.name) ∧
  (caps.length ≤ (demux caps m 0).2 ↔ totalLength caps ≤ m)

theorem sound_iff_exact {caps : List CapabilityInfo} (hpos : ∀ cap ∈ caps, 0 < cap.length) (m : Nat) :
    Sound caps m ↔ Exact caps m := by
  by_cases hlt : m < totalLength caps
  · obtain ⟨before, cap, after, id, ho⟩ := exists_owns hlt
    have hne : caps ≠ [] := fun h => by
      rw [ho.split] at h
      cases before <;> cases h
    have hindex : (demux caps m 0).2 < caps.length := by
      simpa using demux_index_lt 0 hne hlt.le
    have hposb : ∀ d ∈ before, 0 < d.length := fun d hd => hpos d (by rw [ho.split]; simp [hd])
    have hposa : ∀ d ∈ after, 0 < d.length := fun d hd => hpos d (by rw [ho.split]; simp [hd])
    have hexact : Exact caps m ↔ (before = [] ∨ 0 < id) ∧ ∀ d ∈ after, id ≤ d.length := by
      constructor
      · rintro (h | h | ⟨_, _, _, _, ho', h⟩)
        · omega
        · exact absurd h hne
        · obtain ⟨rfl, rfl, rfl, rfl⟩ := ho.unique ho'
          exact h
      · exact fun h => .inr (.inr ⟨before, cap, after, id, ho, h⟩)
    have hdemux : demux (before ++ cap :: after) _ 0 = _ ↔ _ := demux_eq hposb ho.lt
    rw [← ho.split, ho.sum] at hdemux
    rw [hexact, ← hdemux]
    constructor
    · rintro ⟨hfound, -⟩
      obtain ⟨_, _, _, ho', -⟩ := hfound _ (List.getElem?_eq_getElem hindex)
      obtain ⟨-, -, -, hid⟩ := ho.unique ho'
      -- where nothing is left of the id, nothing was received
      have hfirst : before = [] ∨ 0 < id := by
        by_cases hm : 0 < m
        · exact .inr (hid.symm ▸ demux_pos caps 0 hm)
        · have hsum := ho.sum
          cases before with
          | nil => exact .inl rfl
          | cons d before =>
            rw [totalLength_cons] at hsum
            have := hposb d (.head _)
            omega
      rw [hdemux, and_iff_right hfirst, ← demux_after_fst hposa id before.length, ← ho.demux hfirst]
      exact hid.symm
    · intro h
      refine ⟨fun found hfound => ?_, iff_of_false (by omega) (by omega)⟩
      rw [h] at hfound ⊢
      rw [ho.split, List.getElem?_append_right le_rfl, Nat.sub_self] at hfound
      cases hfound
      exact ⟨before, cap, after, ho, rfl⟩
  · have htotal := not_lt.1 hlt
    by_cases hgone : totalLength caps < m ∨ caps = []
    · have hdemux : demux caps m 0 = (m - totalLength caps, caps.length) := by
        rcases hgone with hbeyond | rfl
        · have hpos : 0 < m - totalLength caps := by omega
          have h := demux_before caps [] 0 hpos
          rwa [List.append_nil, Nat.add_sub_cancel' htotal, demux, Nat.zero_add] at h
        · rfl
      refine iff_of_true ⟨fun cap hcap => ?_, ?_⟩ (hgone.imp_right .inl)
      · rw [hdemux, List.getElem?_eq_none le_rfl] at hcap
        cases hcap
      · rw [hdemux]
        exact iff_of_true le_rfl htotal
    · -- the id after the last range is taken for one of the last capability
      obtain ⟨hle, hne⟩ := not_or.1 hgone
      have hindex := demux_index_lt 0 hne (not_lt.1 hle)
      refine iff_of_false (fun h => ?_) ?_
      · have := h.2.2 htotal
        omega
      · rintro (h | h | ⟨_, _, _, _, ho, -⟩)
        · exact hle h
        · exact hne h
        · exact hlt ho.lt_total

/-! ## Messages -/

variable {S : Type} {F : Frames S} {s : PeerStream S} {t : S} {frame data : Bytes} {received : Nat}

/-- A frame with a message id from `0x10` on comes to the loop. -/
theorem run_pollNext_subprotocol (hopen : s.disconnected = false)
    (hframe : F.pollNext.run s.stream = .ok (.ready (some frame)) t) (hne : frame ≠ [])
    (hid : c.rlp.uint 8 (frame.take 1) = .ok received) (hreceived : 0x10 ≤ received)
    (hdata : (readPayload c frame).run { s with stream := t } = .ok data { s with stream := t }) :
    (pollNext c F).run s = match s.sharedCapabilities[(demux s.sharedCapabilities (received - 0x10) 0).2]? with
      | some cap => .ok (.ready (some (.subprotocol
          ⟨cap.name, ⟨(demux s.sharedCapabilities (received - 0x10) 0).1, data⟩⟩))) { s with stream := t }
      | none => .error (.err (.other "invalid message id (out of cap range)")) { s with stream := t } := by
  have hslice : (Prog.slice frame 0 1 : Prog IoError (PeerStream S) Bytes).run { s with stream := t } =
      .ok (frame.take 1) { s with stream := t } :=
    Prog.run_slice (by decide) (List.length_pos_iff.2 hne) _
  have hloop : (onFrame c frame).run { s with stream := t } =
      (readSubprotocol received data).run { s with stream := t } := by
    unfold onFrame
    rw [Prog.run_bind_ok hslice]
    simp only [hid]
    rw [Prog.run_bind_ok hdata, if_neg (Nat.not_lt.2 hreceived)]
  rw [run_pollNext_frame hopen hframe, EStateM.run_bind, hloop, readSubprotocol,
    Prog.run_bind_ok (EStateM.run_get _), Prog.run_bind_ok (Prog.run_sub hreceived _)]
  by_cases hindex : s.sharedCapabilities.length ≤ (demux s.sharedCapabilities (received - 0x10) 0).2
  · simp only [if_pos hindex, List.getElem?_eq_none hindex]
    rfl
  · simp only [if_neg hindex, List.getElem?_eq_getElem (Nat.not_le.1 hindex)]
    rfl

/-- **The demultiplexer is sound exactly away from the ends of the ranges.** For a message with an id from `0x10` on
that is received over any transport, where all capabilities have messages: `poll_next` yields only messages of the
capability whose range has the id, and fails with the out-of-range error exactly when the id is beyond all ranges, if
and only if it is beyond the id after the last range, or the id of a capability that is not the first of a later range,
and that no later capability is shorter than. -/
theorem demux_sound (hpos : ∀ cap ∈ s.sharedCapabilities, 0 < cap.length) (hopen : s.disconnected = false)
    (hframe : F.pollNext.run s.stream = .ok (.ready (some frame)) t) (hne : frame ≠ [])
    (hid : c.rlp.uint 8 (frame.take 1) = .ok received) (hreceived : 0x10 ≤ received)
    (hdata : (readPayload c frame).run { s with stream := t } = .ok data { s with stream := t }) :
    ((∀ m s', (pollNext c F).run s = .ok (.ready (some (.subprotocol m))) s' →
        ∃ before cap after, s.sharedCapabilities = before ++ cap :: after ∧ cap.name = m.capName ∧
          m.message.id < cap.length ∧ 0x10 + totalLength before + m.message.id = received) ∧
      ((∃ s', (pollNext c F).run s = .error (.err (.other "invalid message id (out of cap range)")) s') ↔
        0x10 + totalLength s.sharedCapabilities ≤ received)) ↔
      Exact s.sharedCapabilities (received - 0x10) := by
  have hrange : 0x10 + totalLength s.sharedCapabilities ≤ received ↔
      totalLength s.sharedCapabilities ≤ received - 0x10 := by omega
  have howns : ∀ (name : CapabilityName) (id : Nat), (∃ before cap after,
      Owns s.sharedCapabilities (received - 0x10) before cap after id ∧ cap.name = name) ↔
      ∃ before cap after, s.sharedCapabilities = before ++ cap :: after ∧ cap.name = name ∧ id < cap.length ∧
        0x10 + totalLength before + id = received := fun name id => by
    constructor
    · rintro ⟨before, cap, after, ⟨hsplit, hlt, hsum⟩, hname⟩
      exact ⟨before, cap, after, hsplit, hname, hlt, by omega⟩
    · rintro ⟨before, cap, after, hsplit, hname, hlt, hsum⟩
      exact ⟨before, cap, after, ⟨hsplit, hlt, by omega⟩, hname⟩
  rw [← sound_iff_exact hpos, Sound, run_pollNext_subprotocol hopen hframe hne hid hreceived hdata, hrange,
    ← List.getElem?_eq_none_iff]
  simp only [← howns]
  cases hcap : s.sharedCapabilities[(demux s.sharedCapabilities (received - 0x10) 0).2]? with
  | none => simp
  | some cap => simp

section Example

open Software

/-- The stream that the second message of `les` is next to be received from. -/
theorem les_one_sound :
    (∀ m s', (pollNext crates FrameQueue.frames).run (ethLes.receiving [0x22, 0xc0]) =
        .ok (.ready (some (.subprotocol m))) s' → ∃ before cap after, [eth, les] = before ++ cap :: after ∧
          cap.name = m.capName ∧ m.message.id < cap.length ∧ 0x10 + totalLength before + m.message.id = 0x22) ∧
      ((∃ s', (pollNext crates FrameQueue.frames).run (ethLes.receiving [0x22, 0xc0]) =
        .error (.err (.other "invalid message id (out of cap range)")) s') ↔ 0x10 + totalLength [eth, les] ≤ 0x22) :=
  have hdata : (readPayload crates [0x22, 0xc0]).run ethLes = .ok [0xc0] ethLes := rfl
  (demux_sound (s := ethLes.receiving [0x22, 0xc0]) (t := ethLes.stream) (by decide) rfl rfl (by decide) rfl (by decide)
    hdata).2 (.inr (.inr ⟨[eth], les, [], 1, ⟨rfl, by decide, by decide⟩, .inr (by decide), by decide⟩))

/-- **The first id of a range is taken for one of the range before.** The first message of `les` is yielded as message
17 of `eth`, which has messages 0 to 16. -/
theorem les_zero_unsound : ¬∀ (s : PeerStream FrameQueue) (frame data : Bytes) (received : Nat),
    (∀ cap ∈ s.sharedCapabilities, 0 < cap.length) → s.disconnected = false → frame ≠ [] →
    crates.rlp.uint 8 (frame.take 1) = .ok received → 0x10 ≤ received → (readPayload crates frame).run s = .ok data s →
    ∀ m s', (pollNext crates FrameQueue.frames).run (s.receiving frame) = .ok (.ready (some (.subprotocol m))) s' →
      ∃ before cap after, s.sharedCapabilities = before ++ cap :: after ∧ cap.name = m.capName ∧
        m.message.id < cap.length ∧ 0x10 + totalLength before + m.message.id = received := by
  intro h
  obtain ⟨before, cap, after, hsplit, -, hlt, hsum⟩ := h ethLes [0x21, 0xc0] [0xc0] 0x21 (by decide) rfl (by decide) rfl
    (by decide) rfl ⟨eth.name, ⟨17, [0xc0]⟩⟩ ethLes rfl
  dsimp only at hlt hsum
  cases before with
  | nil =>
    cases hsplit
    exact absurd hlt (by decide)
  | cons d before =>
    obtain ⟨rfl, -⟩ := List.cons.inj hsplit
    have : eth.length = 17 := rfl
    rw [totalLength_cons] at hsum
    omega

end Example

end PeerStream

end EthereumSentry
