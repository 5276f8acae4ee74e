import EthereumSentry.Devp2p.Peer.Stream

/-!
# The exchange of `Hello` messages

What the decoder of `HelloMessage` does on a list of items (`HelloMessage.decode_list`): a `Hello` that was encoded is
read back (`HelloMessage.decode_encode`), so the first frame of a node tells the remote what the node offers
(`PeerStream.run_readHello_helloFrame`). When `PeerStream::new` returns a stream, it has sent its own frame, received
one, and read a `Hello` off it (`PeerStream.run_new_eq_ok`).
-/

set_option autoImplicit false

namespace EthereumSentry

variable {c : Crates}

/-! ## Strings -/

@[simp] theorem ofUtf8_utf8 (s : String) : ofUtf8 (utf8 s) = some s := by
  have h : (⟨(utf8 s).toArray⟩ : ByteArray) = s.toByteArray := by
    simp [utf8]
  rw [ofUtf8, String.fromUTF8?, h, dif_pos s.isValidUTF8]
  rfl

/-! ## Entries of the capability list -/

/-- The encoding of an entry, whatever its name. -/
def encodeEntry (c : Crates) (name : String) (version : Nat) : Bytes :=
  c.rlp.encodeList [c.rlp.encodeBytes (utf8 name), c.rlp.encodeUint version]

theorem encodeEntry_nested (name : String) {version : Nat} (h : version < usizeBound) :
    c.rlp.IsNested (encodeEntry c name version) := by
  refine .list fun x hx => ?_
  simp only [List.mem_cons, List.not_mem_nil, or_false] at hx
  rcases hx with rfl | rfl
  · exact .bytes _
  · exact .uint h

/-- **What is read off an entry**: its name when that fits, else an error. -/
theorem CapabilityMessage.decode_entry (hl : c.rlp.ListLaws) {name : String} {version : Nat} (h : version < usizeBound)
    (hsize : (encodeEntry c name version).length < usizeBound) :
    CapabilityMessage.decode c (encodeEntry c name version) =
      ((CapabilityName.ofString? name).elim (.error .rlpIsTooBig) fun n => .ok ⟨n, version⟩) := by
  have hnested : ∀ x ∈ [c.rlp.encodeBytes (utf8 name), c.rlp.encodeUint version], c.rlp.IsNested x := by
    intro x hx
    simp only [List.mem_cons, List.not_mem_nil, or_false] at hx
    rcases hx with rfl | rfl
    · exact .bytes _
    · exact .uint h
  have hname : (utf8 name).length < 2 ^ 64 :=
    ((hl.le_length_bytes (utf8 name)).trans (hl.length_item_le (List.mem_cons_self ..))).trans_lt hsize
  have hitem := fun i => hl.itemAt_nested _ [] i hnested hsize
  simp only [List.append_nil] at hitem
  unfold decode CapabilityName.decode encodeEntry
  rw [hitem 0, hitem 1]
  simp only [List.getElem?_cons_zero, List.getElem?_cons_succ, Option.elim, bind, Except.bind,
    hl.data_nested _ hname, ofUtf8_utf8, hl.uint_uint 8 version (by simpa [usizeBound] using h) h]
  cases CapabilityName.ofString? name <;> rfl

/-- The name of a local capability fits. -/
@[simp] theorem CapabilityName.ofString?_text (n : CapabilityName) : CapabilityName.ofString? n.text = some n := by
  rw [ofString?, dif_pos n.fits]

theorem CapabilityMessage.encode_eq (m : CapabilityMessage) : m.encode c = encodeEntry c m.name.text m.version := rfl

/-! ## The message -/

namespace HelloMessage

/-- The items of a `Hello`, with any items for its fields. -/
def items (c : Crates) (x₀ x₁ : Bytes) (entries : List Bytes) (rest : List Bytes) : List Bytes :=
  x₀ :: x₁ :: c.rlp.encodeList entries :: rest

/-- **What is decoded of a list of items.** -/
theorem decode_list (hl : c.rlp.ListLaws) {x₀ x₁ : Bytes} {entries rest : List Bytes}
    (h₀ : c.rlp.IsNested x₀) (h₁ : c.rlp.IsNested x₁) (he : ∀ x ∈ entries, c.rlp.IsNested x)
    (hr : ∀ x ∈ rest, c.rlp.IsNested x) (hsize : (c.rlp.encodeList (items c x₀ x₁ entries rest)).length < usizeBound)
    (tail : Bytes) :
    decode c (c.rlp.encodeList (items c x₀ x₁ entries rest) ++ tail) = (do
      let protocolVersion ← c.rlp.uint 8 x₀
      let clientVersion ← decodeString c x₁
      let capabilities ← entries.mapM (CapabilityMessage.decode c)
      let port ← c.rlp.uint 2 (← (rest[0]?).elim (.error .rlpIsTooShort) .ok)
      let id ← c.rlp.hash 64 (← (rest[1]?).elim (.error .rlpIsTooShort) .ok)
      .ok ⟨protocolVersion, clientVersion, capabilities, port, id⟩) := by
  have hnested : ∀ x ∈ items c x₀ x₁ entries rest, c.rlp.IsNested x := by
    simp only [items, List.mem_cons, forall_eq_or_imp]
    exact ⟨h₀, h₁, .list he, hr⟩
  have hinner : (c.rlp.encodeList entries).length < usizeBound :=
    (hl.length_item_le (by simp [items])).trans_lt hsize
  have hitem := fun i => hl.itemAt_nested _ tail i hnested hsize
  have hentries := hl.items_nested entries [] he hinner
  rw [List.append_nil] at hentries
  unfold decode
  rw [hitem 0, hitem 1, hitem 2, hitem 3, hitem 4]
  simp only [items, List.getElem?_cons_zero, List.getElem?_cons_succ, Option.elim_some, bind, Except.bind, hentries]

/-- The values are in the ranges of their types, and the encoding fits in memory. -/
structure Fits (c : Crates) (m : HelloMessage) : Prop where
  protocolVersion : m.protocolVersion < usizeBound
  versions : ∀ cap ∈ m.capabilities, cap.version < usizeBound
  port : m.port < 2 ^ 16
  size : (m.encode c).length < usizeBound

/-- **A `Hello` is read back.** -/
theorem decode_encode (hr : c.rlp.Lawful) (hl : c.rlp.ListLaws) {m : HelloMessage} (h : m.Fits c) :
    decode c (m.encode c) = .ok m := by
  let entries := m.capabilities.map (·.encode c)
  have hentries : (c.rlp.encodeList entries).length < usizeBound :=
    (hl.length_item_le (by simp [entries])).trans_lt h.size
  have hnested : ∀ x ∈ entries, c.rlp.IsNested x := by
    intro x hx
    obtain ⟨cap, hcap, rfl⟩ := List.mem_map.1 hx
    exact encodeEntry_nested _ (h.versions cap hcap)
  have hmap : entries.mapM (CapabilityMessage.decode c) = .ok m.capabilities := by
    refine Rlp.mapM_map_eq_ok fun cap hcap => ?_
    rw [CapabilityMessage.encode_eq, CapabilityMessage.decode_entry hl (h.versions cap hcap),
      CapabilityName.ofString?_text]
    · rfl
    · exact (hl.length_item_le (List.mem_map_of_mem hcap)).trans_lt hentries
  have hclient : (utf8 m.clientVersion).length < 2 ^ 64 :=
    ((hl.le_length_bytes _).trans (hl.length_item_le (by simp))).trans_lt h.size
  have hrest : ∀ x ∈ [c.rlp.encodeUint m.port, c.rlp.encodeBytes m.id.bytes], c.rlp.IsNested x := by
    simp only [List.mem_cons, List.not_mem_nil, or_false, forall_eq_or_imp, forall_eq]
    exact ⟨.uint (h.port.trans (by decide)), .bytes _⟩
  have hlist := decode_list hl (.uint h.protocolVersion) (.bytes (utf8 m.clientVersion)) hnested hrest h.size []
  rw [List.append_nil] at hlist
  refine hlist.trans ?_
  simp only [decodeString, hl.uint_uint 8 _ (by simpa [usizeBound] using h.protocolVersion) h.protocolVersion,
    hl.value_nested _ hclient, ofUtf8_utf8, hmap, List.getElem?_cons_zero, List.getElem?_cons_succ,
    Option.elim_some, hl.uint_uint 2 m.port h.port (h.port.trans (by decide)),
    hr.hash_bytes 64 m.id (by decide), bind, Except.bind]

end HelloMessage

/-! ## `PeerStream::new` -/

namespace PeerStream

variable {S : Type} {F : Frames S}

/-- A first frame with the message id `0`. -/
theorem run_readHello_zero (hr : c.rlp.Lawful) (hl : c.rlp.ListLaws) (payload : Bytes) (s : S) :
    (readHello c (c.rlp.encodeUint 0 ++ payload) : Prog HelloError S HelloMessage).run s =
      (Prog.ofExcept .rlp (HelloMessage.decode c payload)).run s := by
  have hid : c.rlp.uint 8 [0x80] = .ok 0 := by
    rw [← hr.uint_zero]
    exact hl.uint_uint 8 0 (by decide) (by decide)
  unfold readHello
  rw [hr.uint_zero, Prog.run_bind_ok (Prog.run_slice (by omega) (by simp) s)]
  simp only [List.singleton_append, List.take_succ_cons, List.take_zero, List.drop_zero, hid]
  rw [Prog.run_bind_ok (Prog.run_ofExcept_ok _ _ s), Prog.run_bind_ok (Prog.run_sliceFrom (by simp) s)]
  rfl

/-- **The first frame of a node is read by the other node.** -/
theorem run_readHello_helloFrame (hr : c.rlp.Lawful) (hl : c.rlp.ListLaws) {m : HelloMessage} (h : m.Fits c) (s : S) :
    (readHello c (helloFrame c m) : Prog HelloError S HelloMessage).run s = .ok m s := by
  rw [helloFrame, run_readHello_zero hr hl, HelloMessage.decode_encode hr hl h, Prog.run_ofExcept_ok]

/-- Reading the first frame leaves the transport as it is. -/
theorem readHello_keeps (frame : Bytes) : Prog.Keeps (readHello c frame : Prog HelloError S HelloMessage) := by
  refine Prog.keeps_bind (Prog.keeps_slice _ _ _) fun _ => Prog.keeps_bind (Prog.keeps_ofExcept _ _) fun _ =>
    Prog.keeps_bind (Prog.keeps_sliceFrom _ _) fun _ => ?_
  split
  · exact Prog.keeps_ofExcept _ _
  · exact Prog.keeps_fail _
  · exact Prog.keeps_fail _

/-- What a node passes to `new`. -/
structure Setup where
  id : PeerId
  protocolVersion : ProtocolVersion
  clientVersion : String
  capabilities : List CapabilityInfo
  port : Nat

/-- The `Hello` that the node sends. -/
def Setup.hello (n : Setup) : HelloMessage :=
  ⟨n.protocolVersion.toUsize, n.clientVersion, n.capabilities.map fun cap => ⟨cap.name, cap.version⟩, n.port, n.id⟩

/-- `new` with these arguments. -/
def Setup.new (c : Crates) (F : Frames S) (n : Setup) : Prog HelloError S (Poll (PeerStream S)) :=
  PeerStream.new c F n.id n.protocolVersion n.clientVersion n.capabilities n.port

/-- The stream that `new` returns once it has read a `Hello`. -/
def Setup.stream (n : Setup) (hello : HelloMessage) (s : S) : PeerStream S :=
  ⟨s, shareCapabilities n.capabilities hello.capabilities, n.protocolVersion = .v5, false⟩

/-- The end of `new`, once the capabilities are negotiated. -/
def Setup.finish (c : Crates) (F : Frames S) (n : Setup) (shared : List CapabilityInfo) :
    Prog HelloError S (Poll (PeerStream S)) := do
  let snappy := match n.protocolVersion with
    | .v4 => false
    | .v5 => true
  if shared.isEmpty then do
    Prog.zoom (fun s => (⟨s, shared, snappy, false⟩ : PeerStream S)) (fun s _ => s.stream) .io
      (Prog.ignore (startSend c F (.disconnect .uselessPeer)))
    Prog.fail .noSharedCapabilities
  else do
    let s ← get
    pure (.ready ⟨s, shared, snappy, false⟩)

/-- `new` up to its first `await`: the `Hello` is sent. -/
def Setup.sendHello (c : Crates) (F : Frames S) (n : Setup) : Prog HelloError S Unit :=
  Prog.zoom (fun s => s) (fun s _ => s) .io (F.startSend (helloFrame c n.hello))

/-- `new` at its second `await`: a `Hello` is received. -/
def Setup.receiveHello (c : Crates) (F : Frames S) (n : Setup) : Prog HelloError S (Poll (PeerStream S)) := do
  match ← Prog.zoom (fun s => s) (fun s _ => s) .io F.pollNext with
  | .pending => pure .pending
  | .ready none => Prog.fail .noValue
  | .ready (some frame) => do
    let hello ← readHello c frame
    n.finish c F (shareCapabilities n.capabilities hello.capabilities)

theorem Setup.new_eq (n : Setup) : n.new c F = (do
    n.sendHello c F
    n.receiveHello c F) := rfl

/-- **`new` after the exchange of frames**: it reads the frame that it has received. -/
theorem run_new_of_frame {n : Setup} {s t s' : S} {frame : Bytes}
    (hsend : (F.startSend (helloFrame c n.hello)).run s = .ok () t)
    (hrecv : F.pollNext.run t = .ok (.ready (some frame)) s') :
    (n.new c F).run s = (readHello c frame >>= fun hello =>
      n.finish c F (shareCapabilities n.capabilities hello.capabilities)).run s' := by
  rw [Setup.new_eq, Setup.sendHello, Prog.run_bind_ok (Prog.run_zoom_ok hsend), Setup.receiveHello,
    Prog.run_bind_ok (Prog.run_zoom_ok hrecv)]

/-- A capability is shared: the stream is returned. -/
theorem run_finish {n : Setup} {hello : HelloMessage}
    (h : shareCapabilities n.capabilities hello.capabilities ≠ []) (s : S) :
    (n.finish c F (shareCapabilities n.capabilities hello.capabilities)).run s = .ok (.ready (n.stream hello s)) s := by
  unfold Setup.finish Setup.stream
  rw [if_neg (by simpa using h), Prog.run_bind_ok (EStateM.run_get s)]
  cases n.protocolVersion <;> rfl

/-- None is shared: `new` fails. -/
theorem run_finish_nil (n : Setup) (s s' : S) (p : Poll (PeerStream S)) : (n.finish c F []).run s ≠ .ok p s' := by
  intro h
  obtain ⟨_, _, _, hfail⟩ := Prog.run_bind_eq_ok.1 h
  cases hfail

/-- **When `new` returns a stream**: it has sent its frame, received one, and read a `Hello` off it that shares a
capability. -/
theorem run_new_eq_ok {n : Setup} {s s' : S} {p : PeerStream S} : (n.new c F).run s = .ok (.ready p) s' ↔
    ∃ t frame hello, (F.startSend (helloFrame c n.hello)).run s = .ok () t ∧
      F.pollNext.run t = .ok (.ready (some frame)) s' ∧
      (readHello c frame : Prog HelloError S HelloMessage).run s' = .ok hello s' ∧
      shareCapabilities n.capabilities hello.capabilities ≠ [] ∧ p = n.stream hello s' := by
  constructor
  · intro h
    obtain ⟨_, _, hzoom, h₁⟩ := Prog.run_bind_eq_ok.1 h
    obtain ⟨t, hsend, rfl⟩ := Prog.run_zoom_eq_ok.1 hzoom
    obtain ⟨r, _, hzoom', h₂⟩ := Prog.run_bind_eq_ok.1 h₁
    obtain ⟨u, hrecv, rfl⟩ := Prog.run_zoom_eq_ok.1 hzoom'
    rcases r with _ | _ | frame
    · cases h₂
    · cases h₂
    · rw [run_new_of_frame hsend hrecv] at h
      obtain ⟨hello, _, hread, h₃⟩ := Prog.run_bind_eq_ok.1 h
      obtain rfl := readHello_keeps frame _ _ _ hread
      by_cases hne : shareCapabilities n.capabilities hello.capabilities = []
      · rw [hne] at h₃
        exact absurd h₃ (run_finish_nil n _ _ _)
      · rw [run_finish hne] at h₃
        cases h₃
        exact ⟨t, frame, hello, hsend, hrecv, hread, hne, rfl⟩
  · rintro ⟨t, frame, hello, hsend, hrecv, hread, hne, rfl⟩
    rw [run_new_of_frame hsend hrecv, Prog.run_bind_ok hread, run_finish hne]

/-! ## Two nodes -/

/-- The node sends its frame, receives this one, and `new` returns a stream. -/
def Setup.Opens (c : Crates) (F : Frames S) (n : Setup) (frame : Bytes) (p : PeerStream S) : Prop :=
  ∃ s t, (F.startSend (helloFrame c n.hello)).run s = .ok () t ∧
    F.pollNext.run t = .ok (.ready (some frame)) p.stream ∧ (n.new c F).run s = .ok (.ready p) p.stream

/-- **Two nodes that complete `new` with each other**: each receives the frame of the other. -/
structure Meet (c : Crates) {T : Type} (F : Frames S) (G : Frames T) (a b : Setup) (p : PeerStream S)
    (q : PeerStream T) : Prop where
  left : a.Opens c F (helloFrame c b.hello) p
  right : b.Opens c G (helloFrame c a.hello) q

/-- The stream of a node that has received the frame of another. -/
theorem Setup.Opens.eq_stream (hr : c.rlp.Lawful) (hl : c.rlp.ListLaws) {a b : Setup} {p : PeerStream S}
    (hb : b.hello.Fits c) (h : a.Opens c F (helloFrame c b.hello) p) : p = a.stream b.hello p.stream := by
  obtain ⟨s, t, hsend, hrecv, hnew⟩ := h
  rw [run_new_of_frame hsend hrecv, Prog.run_bind_ok (run_readHello_helloFrame hr hl hb _)] at hnew
  by_cases hne : shareCapabilities a.capabilities b.hello.capabilities = []
  · rw [hne] at hnew
    exact absurd hnew (run_finish_nil a _ _ _)
  · rw [run_finish hne] at hnew
    exact (Poll.ready.inj (EStateM.Result.ok.inj hnew).1).symm

/-- A node that finds the frame of another in its queue. -/
theorem opens_frameQueue (hr : c.rlp.Lawful) (hl : c.rlp.ListLaws) {a b : Setup} (hb : b.hello.Fits c)
    (hshared : shareCapabilities a.capabilities b.hello.capabilities ≠ []) :
    a.Opens c FrameQueue.frames (helloFrame c b.hello) (a.stream b.hello ⟨[], false, [helloFrame c a.hello]⟩) := by
  refine ⟨⟨[helloFrame c b.hello], false, []⟩, ⟨[helloFrame c b.hello], false, [helloFrame c a.hello]⟩, rfl, rfl, ?_⟩
  exact run_new_eq_ok.2 ⟨_, _, b.hello, rfl, rfl, run_readHello_helloFrame hr hl hb _, hshared, rfl⟩

end PeerStream

end EthereumSentry
