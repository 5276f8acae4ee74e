import EthereumSentry.Devp2p.Ecies.Session

/-!
# Frames

The bytes of a frame as a function of one direction of the session (`Half`), and what the codec does with them:
`encode` writes the frame of the egress half (`run_encode_message`), and `decode` reads it with the ingress half. A
reader `Carries` the pending messages when the bytes on their way to it are their frames, of which it may have read a
header. Every `decode` keeps this, and returns the next message or waits (`decode_carries`).
-/

set_option autoImplicit false

namespace EthereumSentry

variable {c : Crates}

namespace ECIES

/-! ## The bytes of a frame -/

/-- The header of a body of the given size, before encryption. -/
def headerPlain (size : Nat) : Bytes := be 3 size ++ [194, 128, 128] ++ List.replicate 10 0

@[simp] theorem length_headerPlain (size : Nat) : (headerPlain size).length = 16 := by
  simp [headerPlain]

/-- The body padded to whole blocks. -/
def padBody (data : Bytes) : Bytes := data ++ List.replicate (paddedLen data.length - data.length) 0

theorem le_paddedLen (n : Nat) : n ≤ paddedLen n := by
  unfold paddedLen
  split <;> omega

@[simp] theorem length_padBody (data : Bytes) : (padBody data).length = paddedLen data.length := by
  have := le_paddedLen data.length
  simp only [padBody, List.length_append, List.length_replicate]
  omega

namespace Half

variable (c)

/-- The encrypted header. -/
def header (h : Half) (size : Nat) : H128 := ⟨h.aes.apply c (headerPlain size), by simp⟩

/-- The half after the header. -/
def afterHeader (h : Half) (size : Nat) : Half := ⟨h.aes.advance 16, h.mac.updateHeader c (h.header c size)⟩

/-- The header and its tag. -/
def headerBytes (h : Half) (size : Nat) : Bytes :=
  (h.header c size).bytes ++ ((h.afterHeader c size).mac.digest c).bytes

/-- The half after the body. -/
def afterBody (h : Half) (data : Bytes) : Half :=
  ⟨h.aes.advance (paddedLen data.length), h.mac.updateBody c (h.aes.apply c (padBody data))⟩

/-- The body and its tag. -/
def bodyBytes (h : Half) (data : Bytes) : Bytes :=
  h.aes.apply c (padBody data) ++ ((h.afterBody c data).mac.digest c).bytes

@[simp] theorem length_headerBytes (h : Half) (size : Nat) : (h.headerBytes c size).length = headerLen := by
  simp [headerBytes, headerLen]

@[simp] theorem length_bodyBytes (h : Half) (data : Bytes) :
    (h.bodyBytes c data).length = paddedLen data.length + 16 := by
  simp [bodyBytes]

theorem mac_afterHeader (h : Half) (size : Nat) :
    (h.afterHeader c size).mac = h.mac.updateHeader c (h.header c size) := rfl

theorem mac_afterBody (h : Half) (data : Bytes) :
    (h.afterBody c data).mac = h.mac.updateBody c (h.aes.apply c (padBody data)) := rfl

/-- The half after a message. -/
def next (h : Half) (data : Bytes) : Half := (h.afterHeader c data.length).afterBody c data

/-- The frame of a message. -/
def frame (h : Half) (data : Bytes) : Bytes :=
  h.headerBytes c data.length ++ (h.afterHeader c data.length).bodyBytes c data

/-- The half after some messages. -/
def nexts (h : Half) (msgs : List Bytes) : Half := msgs.foldl (next c) h

/-- The frames of some messages. -/
def frames : Half → List Bytes → Bytes
  | _, [] => []
  | h, m :: msgs => h.frame c m ++ frames (h.next c m) msgs

theorem nexts_append (h : Half) (msgs : List Bytes) (m : Bytes) :
    h.nexts c (msgs ++ [m]) = (h.nexts c msgs).next c m := by
  simp [nexts]

theorem frames_append : ∀ (msgs : List Bytes) (h : Half) (m : Bytes),
    h.frames c (msgs ++ [m]) = h.frames c msgs ++ (h.nexts c msgs).frame c m
  | [], h, m => by simp [frames, nexts]
  | x :: msgs, h, m => by
    rw [List.cons_append, frames, frames_append msgs, frames, List.append_assoc]
    rfl

end Half

/-! ## Writing and reading a frame -/

/-- The state that writes with the half. -/
def withEgress (s : ECIES c) (h : Half) : ECIES c := { s with egressAes := some h.aes, egressMac := some h.mac }

/-- The state that reads with the half. -/
def withIngress (s : ECIES c) (h : Half) : ECIES c := { s with ingressAes := some h.aes, ingressMac := some h.mac }

theorem writes_withEgress (s : ECIES c) (h : Half) : (s.withEgress h).Writes h := ⟨rfl, rfl⟩

theorem run_writeHeader {s : ECIES c} {h : Half} (hw : s.Writes h) {size : Nat} (hs : size < 2 ^ 24) :
    (writeHeader size).run s = .ok (h.headerBytes c size) (s.withEgress (h.afterHeader c size)) := by
  unfold writeHeader encrypt egressTag
  simp only [hs, ↓reduceIte, pure_bind, bind_assoc]
  rw [Prog.run_bind_ok (EStateM.run_get _), Prog.run_bind_ok (Prog.run_unwrap_of hw.1 _),
    Prog.run_bind_ok (EStateM.run_modify _ _), FixedBytes.ofBytes?_eq_some (by simp),
    Prog.run_bind_ok (Prog.run_unwrap_some _ _), Prog.run_bind_ok (EStateM.run_get _),
    Prog.run_bind_ok (Prog.run_unwrap_of hw.2 _), Prog.run_bind_ok (EStateM.run_modify _ _)]
  rfl

theorem run_writeBody {s : ECIES c} {h : Half} (hw : s.Writes h) (data : Bytes) :
    (writeBody data).run s = .ok (h.bodyBytes c data) (s.withEgress (h.afterBody c data)) := by
  unfold writeBody encrypt egressTag
  simp only [bind_assoc, pure_bind]
  rw [Prog.run_bind_ok (EStateM.run_get _), Prog.run_bind_ok (Prog.run_unwrap_of hw.1 _),
    Prog.run_bind_ok (EStateM.run_modify _ _), Prog.run_bind_ok (EStateM.run_get _),
    Prog.run_bind_ok (Prog.run_unwrap_of hw.2 _), Prog.run_bind_ok (EStateM.run_modify _ _)]
  rw [show data ++ List.replicate (paddedLen data.length - data.length) 0 = padBody data from rfl, length_padBody]
  rfl

/-- The tag of a header is checked and its size is kept. -/
theorem run_readHeader {s : ECIES c} {h : Half} (hr : s.Reads h) {size : Nat} (hs : size < 2 ^ 24) :
    (readHeader (h.headerBytes c size)).run s =
      .ok size { s.withIngress (h.afterHeader c size) with bodySize := some size } := by
  have hsize : ofBe ((headerPlain size).take 3) = size := by
    rw [headerPlain, List.append_assoc, List.take_left' (length_be 3 size), ofBe_be (by simpa using hs)]
  unfold readHeader decrypt ingressTag Half.headerBytes
  simp only [bind_assoc, pure_bind]
  rw [Prog.run_bind_ok (Prog.run_splitAt_append (FixedBytes.length_bytes _) s)]
  dsimp only
  rw [FixedBytes.ofBytes?_bytes, Prog.run_bind_ok (Prog.run_unwrap_some _ _),
    Prog.run_bind_ok (Prog.run_splitAt (by simp) s)]
  dsimp only
  rw [List.take_of_length_le (by simp), FixedBytes.ofBytes?_bytes, Prog.run_bind_ok (Prog.run_unwrap_some _ _),
    Prog.run_bind_ok (EStateM.run_get _), Prog.run_bind_ok (Prog.run_unwrap_of hr.2 _),
    Prog.run_bind_ok (EStateM.run_modify _ _)]
  rw [Half.mac_afterHeader, if_neg (not_not.2 rfl), Prog.run_bind_ok (EStateM.run_get _),
    Prog.run_bind_ok (Prog.run_unwrap_of hr.1 _), Prog.run_bind_ok (EStateM.run_modify _ _)]
  simp only [Half.header, Aes256Ctr.apply_apply, hsize]
  rw [Prog.run_bind_ok (EStateM.run_modify _ _)]
  rfl

theorem run_bodyLen {s : ECIES c} {size : Nat} (h : s.bodySize = some size) :
    (bodyLen : Prog ECIESError (ECIES c) Nat).run s = .ok (paddedLen size + 16) s := by
  unfold bodyLen
  rw [Prog.run_bind_ok (EStateM.run_get s), Prog.run_bind_ok (Prog.run_unwrap_of h s)]
  rfl

/-- The tag of a body is checked and its padding is cut off. -/
theorem run_readBody {s : ECIES c} {h : Half} (hr : s.Reads h) {data : Bytes} (hs : s.bodySize = some data.length) :
    (readBody (h.bodyBytes c data)).run s =
      .ok data { s.withIngress (h.afterBody c data) with bodySize := none } := by
  unfold readBody decrypt ingressTag
  simp only [bind_assoc, pure_bind]
  rw [Prog.run_bind_ok (Prog.run_sub (by simp) s)]
  unfold Half.bodyBytes
  rw [Prog.run_bind_ok (Prog.run_splitAt_append (by simp) s)]
  dsimp only
  rw [FixedBytes.ofBytes?_bytes, Prog.run_bind_ok (Prog.run_unwrap_some _ _), Prog.run_bind_ok (EStateM.run_get _),
    Prog.run_bind_ok (Prog.run_unwrap_of hr.2 _), Prog.run_bind_ok (EStateM.run_modify _ _)]
  rw [Half.mac_afterBody, if_neg (not_not.2 rfl), Prog.run_bind_ok (EStateM.run_get _),
    Prog.run_bind_ok (Prog.run_unwrap_of hs _), Prog.run_bind_ok (EStateM.run_modify _ _),
    Prog.run_bind_ok (EStateM.run_get _),
    Prog.run_bind_ok (Prog.run_unwrap_of hr.1 _), Prog.run_bind_ok (EStateM.run_modify _ _)]
  have hsplit (t : ECIES c) : (Prog.splitAt (padBody data) data.length : Prog ECIESError (ECIES c) _).run t =
      .ok (data, List.replicate (paddedLen data.length - data.length) 0) t := Prog.run_splitAt_append rfl t
  rw [Aes256Ctr.apply_apply, Prog.run_bind_ok (hsplit _), Aes256Ctr.length_apply, length_padBody]
  rfl

end ECIES

open ECIES

namespace ECIESCodec

/-- **`encode`** writes the frame of the egress half. -/
theorem run_encode_message {codec : ECIESCodec c} {h : Half} (hw : codec.ecies.Writes h) {data : Bytes}
    (hs : data.length < 2 ^ 24) :
    (encode (.message data)).run codec =
      .ok (h.frame c data) { codec with ecies := codec.ecies.withEgress (h.next c data) } := by
  unfold encode
  rw [Prog.run_bind_ok (run_inEncode (run_writeHeader hw hs)),
    Prog.run_bind_ok (run_inEncode (run_writeBody (writes_withEgress _ _) data))]
  rfl

/-! ## A reader in step with the writer -/

/-- The reader gets the pending messages from the bytes, and its half is then that of the writer. -/
inductive Carries : ECIESCodec c → Bytes → List Bytes → Half → Prop
  /-- The next bytes are a header. -/
  | header {codec : ECIESCodec c} {h : Half} {pending : List Bytes} (hs : codec.state = .header)
      (hr : codec.ecies.Reads h) (hp : ∀ m ∈ pending, m.length < 2 ^ 24) :
      Carries codec (h.frames c pending) pending (h.nexts c pending)
  /-- The header of the first message has been read. -/
  | body {codec : ECIESCodec c} {h : Half} {m : Bytes} {pending : List Bytes} (hs : codec.state = .body)
      (hr : codec.ecies.Reads h) (hb : codec.ecies.bodySize = some m.length)
      (hp : ∀ m ∈ pending, m.length < 2 ^ 24) :
      Carries codec (h.bodyBytes c m ++ (h.afterBody c m).frames c pending) (m :: pending)
        ((h.afterBody c m).nexts c pending)

/-- Writing on the other direction does not disturb the reader. -/
theorem Carries.withEgress {codec : ECIESCodec c} {bytes : Bytes} {pending : List Bytes} {tx : Half}
    (h : Carries codec bytes pending tx) (e : Half) :
    Carries { codec with ecies := codec.ecies.withEgress e } bytes pending tx := by
  cases h with
  | header hs hr hp => exact .header hs hr hp
  | body hs hr hb hp => exact .body hs hr hb hp

/-- The frame of one more message. -/
theorem Carries.append {codec : ECIESCodec c} {bytes : Bytes} {pending : List Bytes} {tx : Half}
    (h : Carries codec bytes pending tx) {m : Bytes} (hm : m.length < 2 ^ 24) :
    Carries codec (bytes ++ tx.frame c m) (pending ++ [m]) (tx.next c m) := by
  have hall : ∀ ms : List Bytes, (∀ x ∈ ms, x.length < 2 ^ 24) → ∀ x ∈ ms ++ [m], x.length < 2 ^ 24 := by
    intro ms h x hx
    rcases List.mem_append.1 hx with hx | hx
    · exact h x hx
    · rw [List.mem_singleton.1 hx]; exact hm
  cases h with
  | @header h pending hs hr hp =>
    rw [← Half.frames_append, ← Half.nexts_append]
    exact .header hs hr (hall _ hp)
  | @body h m' pending hs hr hb hp =>
    rw [List.append_assoc, ← Half.frames_append, ← Half.nexts_append]
    exact .body hs hr hb (hall _ hp)

/-- What one `decode` does: it waits for more bytes, or returns the next message. -/
inductive Decoded (codec : ECIESCodec c) (buf wire : Bytes) (pending : List Bytes) (tx : Half) : Prop
  | wait (codec' : ECIESCodec c) (buf' : Bytes) (hrun : decode.run ⟨codec, buf⟩ = .ok none ⟨codec', buf'⟩)
      (hc : Carries codec' (buf' ++ wire) pending tx)
      (he : codec'.ecies.egressAes = codec.ecies.egressAes ∧ codec'.ecies.egressMac = codec.ecies.egressMac)
      (hw : wire = [] → pending = [])
  | message (codec' : ECIESCodec c) (buf' m : Bytes) (rest : List Bytes) (hp : pending = m :: rest)
      (hrun : decode.run ⟨codec, buf⟩ = .ok (some (.message m)) ⟨codec', buf'⟩)
      (hc : Carries codec' (buf' ++ wire) rest tx)
      (he : codec'.ecies.egressAes = codec.ecies.egressAes ∧ codec'.ecies.egressMac = codec.ecies.egressMac)

/-- A first part that ends within the bytes of another is a prefix of them, and the rest follows. -/
theorem take_drop_of_append {a b x y : Bytes} (h : a ++ b = x ++ y) (hl : x.length ≤ a.length) :
    a.take x.length = x ∧ a.drop x.length ++ b = y := by
  have ht := congrArg (List.take x.length) h
  have hd := congrArg (List.drop x.length) h
  rw [List.take_append_of_le_length hl, List.take_left] at ht
  rw [List.drop_append_of_le_length hl, List.drop_left] at hd
  exact ⟨ht, hd⟩

/-- The `Body` arm, in step with the writer. -/
theorem decodeBody_carries (codec : ECIESCodec c) {h : Half} {m : Bytes} {buf wire : Bytes} {pending : List Bytes}
    (hr : codec.ecies.Reads h) (hb : codec.ecies.bodySize = some m.length) (hp : ∀ m ∈ pending, m.length < 2 ^ 24)
    (hbytes : buf ++ wire = h.bodyBytes c m ++ (h.afterBody c m).frames c pending) :
    (buf.length < paddedLen m.length + 16 ∧ decodeBody.run ⟨codec, buf⟩ = .ok none ⟨codec, buf⟩) ∨
      ∃ codec' buf', decodeBody.run ⟨codec, buf⟩ = .ok (some (.message m)) ⟨codec', buf'⟩ ∧
        Carries codec' (buf' ++ wire) pending ((h.afterBody c m).nexts c pending) ∧
        codec'.ecies.egressAes = codec.ecies.egressAes ∧ codec'.ecies.egressMac = codec.ecies.egressMac := by
  unfold decodeBody
  rw [Prog.run_bind_ok (run_inDecode (run_bodyLen hb)), Prog.run_bind_ok (EStateM.run_get _)]
  by_cases hl : buf.length < paddedLen m.length + 16
  · refine .inl ⟨hl, ?_⟩
    simp only [hl, ↓reduceIte]
    rfl
  · obtain ⟨ht, hd⟩ := take_drop_of_append hbytes (by simpa using Nat.not_lt.1 hl)
    rw [Half.length_bodyBytes] at ht hd
    refine .inr ?_
    simp only [hl, ↓reduceIte]
    rw [Prog.run_bind_ok (run_splitTo (by simpa using Nat.not_lt.1 hl))]
    dsimp only
    rw [ht, Prog.run_bind_ok (run_inDecode (run_readBody hr hb)), setState,
      Prog.run_bind_ok (EStateM.run_modify _ _)]
    refine ⟨_, _, rfl, ?_, rfl, rfl⟩
    rw [hd]
    exact .header rfl ⟨rfl, rfl⟩ hp

/-- **Every `decode` keeps the reader in step** and returns the next message, or waits; it waits for nothing when all
bytes have arrived. -/
theorem decode_carries {codec : ECIESCodec c} {buf wire : Bytes} {pending : List Bytes} {tx : Half}
    (hc : Carries codec (buf ++ wire) pending tx) : Decoded codec buf wire pending tx := by
  generalize hbytes : buf ++ wire = bytes at hc
  cases hc with
  | @body h m pending hs hr hb hp =>
    have hd : (decode : Prog IoError (Decoding c) _).run ⟨codec, buf⟩ = decodeBody.run ⟨codec, buf⟩ := by
      unfold decode
      rw [Prog.run_bind_ok (EStateM.run_get _)]
      simp only [hs]
    rcases decodeBody_carries codec hr hb hp hbytes with ⟨hl, hrun⟩ | ⟨codec', buf', hrun, hc, he⟩
    · refine .wait codec buf (hd.trans hrun) (hbytes ▸ .body hs hr hb hp) ⟨rfl, rfl⟩ fun hw => ?_
      have := congrArg List.length hbytes
      rw [hw, List.append_nil, List.length_append, Half.length_bodyBytes] at this
      omega
    · exact .message codec' buf' m pending rfl (hd.trans hrun) hc he
  | @header h pending hs hr hp =>
    have hd : (decode : Prog IoError (Decoding c) _).run ⟨codec, buf⟩ = decodeHeader.run ⟨codec, buf⟩ := by
      unfold decode
      rw [Prog.run_bind_ok (EStateM.run_get _)]
      simp only [hs]
    by_cases hl : buf.length < headerLen
    · have hrun : (decodeHeader : Prog IoError (Decoding c) _).run ⟨codec, buf⟩ = .ok none ⟨codec, buf⟩ := by
        unfold decodeHeader
        rw [Prog.run_bind_ok (EStateM.run_get _)]
        simp only [hl, ↓reduceIte]
        rfl
      refine .wait codec buf (hd.trans hrun) (hbytes ▸ .header hs hr hp) ⟨rfl, rfl⟩ fun hw => ?_
      cases pending with
      | nil => rfl
      | cons m pending =>
        have := congrArg List.length hbytes
        rw [hw, List.append_nil, Half.frames, Half.frame, List.append_assoc, List.length_append,
          Half.length_headerBytes] at this
        omega
    · cases pending with
      | nil =>
        have := congrArg List.length hbytes
        rw [Half.frames, List.length_append, List.length_nil] at this
        unfold headerLen at hl
        omega
      | cons m pending =>
        rw [Half.frames, Half.frame, List.append_assoc] at hbytes
        obtain ⟨ht, hdrop⟩ := take_drop_of_append hbytes (by simpa using Nat.not_lt.1 hl)
        rw [Half.length_headerBytes] at ht hdrop
        have hm := hp m (by simp)
        have hp' : ∀ x ∈ pending, x.length < 2 ^ 24 := fun x hx => hp x (by simp [hx])
        -- after the header, the `Body` arm runs on the rest of the buffer
        have hrun : (decodeHeader : Prog IoError (Decoding c) _).run ⟨codec, buf⟩ = decodeBody.run
            ⟨⟨{ codec.ecies.withIngress (h.afterHeader c m.length) with bodySize := some m.length }, .body⟩,
              buf.drop headerLen⟩ := by
          unfold decodeHeader
          rw [Prog.run_bind_ok (EStateM.run_get _)]
          simp only [hl, ↓reduceIte]
          rw [Prog.run_bind_ok (run_splitTo (Nat.not_lt.1 hl))]
          dsimp only
          rw [ht, Prog.run_bind_ok (run_inDecode (run_readHeader hr hm)), setState,
            Prog.run_bind_ok (EStateM.run_modify _ _)]
        have hbody := decodeBody_carries
          ⟨{ codec.ecies.withIngress (h.afterHeader c m.length) with bodySize := some m.length }, .body⟩
          (h := h.afterHeader c m.length) ⟨rfl, rfl⟩ rfl hp' hdrop
        rcases hbody with ⟨hlt, hrun'⟩ | ⟨codec', buf', hrun', hc, he⟩
        · refine .wait _ _ (hd.trans (hrun.trans hrun')) ?_ ⟨rfl, rfl⟩ fun hw => ?_
          · rw [hdrop]
            exact .body rfl ⟨rfl, rfl⟩ rfl hp'
          · have := congrArg List.length hdrop
            rw [hw, List.append_nil, List.length_append, Half.length_bodyBytes] at this
            omega
        · exact .message codec' buf' m pending rfl (hd.trans (hrun.trans hrun')) hc he

end ECIESCodec

end EthereumSentry
