import EthereumSentry.Devp2p.Ecies.Chunking
import EthereumSentry.Devp2p.Ecies.Duplex

/-!
# A session on a network that cannot be trusted

Two ends of a connection after the handshake, where somebody else decides which bytes arrive at either end
(`Exposed.step`). Every header and every body is tagged, and a tag depends on all that was tagged before. So whatever
arrives, an end has received an initial part of what the other has sent; or a tag was accepted, after bytes that are
the other's, on a header or a body that is not (`tampering_detected`).
-/

set_option autoImplicit false

namespace EthereumSentry

variable {c : Crates}

namespace ECIES

/-! ## Accepted tags -/

namespace Half

variable (c)

/-- A header with a tag that is accepted. -/
def tagHeader (h : Half) (header : H128) : Bytes := header.bytes ++ ((h.mac.updateHeader c header).digest c).bytes

/-- A body with a tag that is accepted. -/
def tagBody (h : Half) (body : Bytes) : Bytes := body ++ ((h.mac.updateBody c body).digest c).bytes

theorem headerBytes_eq (h : Half) (size : Nat) : h.headerBytes c size = h.tagHeader c (h.header c size) := rfl

theorem bodyBytes_eq (h : Half) (data : Bytes) : h.bodyBytes c data = h.tagBody c (h.aes.apply c (padBody data)) := rfl

theorem length_tagBody (h : Half) (body : Bytes) : (h.tagBody c body).length = body.length + 16 := by
  simp [tagBody]

/-- A tag is accepted on a header or a body that is not that of the next message. -/
inductive ForgedAt (h : Half) (next : Option Bytes) (bytes : Bytes) : Prop
  | header (x : H128) (hx : ∀ m, next = some m → x ≠ h.header c m.length) (hbytes : h.tagHeader c x <+: bytes)
  | body (m body : Bytes) (hm : next = some m) (hl : body.length = paddedLen m.length)
      (hbody : body ≠ (h.afterHeader c m.length).aes.apply c (padBody m))
      (hbytes : h.headerBytes c m.length ++ (h.afterHeader c m.length).tagBody c body <+: bytes)

/-- A tag is accepted, after the frames of some messages, on what does not belong to the message after them. -/
def Forged (h : Half) (sent : List Bytes) (bytes : Bytes) : Prop :=
  ∃ k rest, bytes = h.frames c (sent.take k) ++ rest ∧ (h.nexts c (sent.take k)).ForgedAt c sent[k]? rest

variable {c}

/-- More bytes do not matter. -/
theorem Forged.append {h : Half} {sent : List Bytes} {bytes : Bytes} (hf : h.Forged c sent bytes) (more : Bytes) :
    h.Forged c sent (bytes ++ more) := by
  obtain ⟨k, rest, rfl, hf⟩ := hf
  refine ⟨k, rest ++ more, List.append_assoc _ _ _, ?_⟩
  cases hf with
  | header x hx hbytes => exact .header x hx (hbytes.trans (List.prefix_append _ _))
  | body m body hm hl hbody hbytes => exact .body m body hm hl hbody (hbytes.trans (List.prefix_append _ _))

/-- Another byte in the tag of the header leaves the frame without a tag. -/
theorem modify_frame_untagged (h : Half) (m : Bytes) {f : UInt8 → UInt8} (hf : ∀ b, f b ≠ b) (x : H128) :
    ((h.frame c m).modify 16 f).take headerLen ≠ h.tagHeader c x := by
  intro hx
  obtain ⟨b, tag, htag⟩ : ∃ b tag, ((h.afterHeader c m.length).mac.digest c).bytes = b :: tag :=
    List.exists_cons_of_length_pos (by simp)
  have hlen : tag.length = 15 := by
    have := congrArg List.length htag
    simpa using this.symm
  have hhead : (h.header c m.length).bytes.length = 16 := by simp
  have hframe : ((h.frame c m).modify 16 f).take headerLen = (h.header c m.length).bytes ++ f b :: tag := by
    have hsplit : h.frame c m = (h.header c m.length).bytes ++
        (b :: tag ++ (h.afterHeader c m.length).bodyBytes c m) := by
      rw [Half.frame, Half.headerBytes, htag, List.append_assoc]
    rw [hsplit, List.modify_eq_take_drop, List.take_left' hhead, List.drop_left' hhead, List.cons_append,
      List.modifyHead_cons, ← List.cons_append, ← List.append_assoc, List.take_left' (by simp [headerLen, hlen])]
  rw [hframe] at hx
  obtain ⟨hheader, hdigest⟩ := List.append_inj hx (by simp)
  obtain rfl : h.header c m.length = x := FixedBytes.ext hheader
  rw [← Half.mac_afterHeader, htag] at hdigest
  exact hf b (List.cons.inj hdigest).1

end Half

variable {s s' : ECIES c} {h : Half}

theorem tagHeader_of_readHeader (hr : s.Reads h) {data : Bytes} (hl : data.length = headerLen) {size : Nat}
    (hrun : (readHeader data).run s = .ok size s') : ∃ x, data = h.tagHeader c x := by
  unfold headerLen at hl
  unfold readHeader ingressTag at hrun
  simp only [bind_assoc, pure_bind] at hrun
  rw [Prog.run_bind_ok (Prog.run_splitAt (by omega) s)] at hrun
  dsimp only at hrun
  rw [FixedBytes.ofBytes?_eq_some (by simp; omega), Prog.run_bind_ok (Prog.run_unwrap_some _ _),
    Prog.run_bind_ok (Prog.run_splitAt (by simp; omega) s)] at hrun
  dsimp only at hrun
  rw [FixedBytes.ofBytes?_eq_some (by simp; omega), Prog.run_bind_ok (Prog.run_unwrap_some _ _),
    Prog.run_bind_ok (EStateM.run_get _), Prog.run_bind_ok (Prog.run_unwrap_of hr.2 _),
    Prog.run_bind_ok (EStateM.run_modify _ _)] at hrun
  split at hrun
  · cases hrun
  · rename_i htag
    refine ⟨⟨data.take 16, by simp; omega⟩, ?_⟩
    have hrest : (data.drop 16).take 16 = data.drop 16 := List.take_of_length_le (by rw [List.length_drop]; omega)
    rw [Half.tagHeader, not_not.1 htag]
    exact ((congrArg (data.take 16 ++ ·) hrest).trans (List.take_append_drop 16 data)).symm

theorem tagBody_of_readBody (hr : s.Reads h) {data : Bytes} (hl : 16 ≤ data.length) {ret : Bytes}
    (hrun : (readBody data).run s = .ok ret s') : ∃ body, data = h.tagBody c body := by
  unfold readBody ingressTag at hrun
  simp only [bind_assoc, pure_bind] at hrun
  rw [Prog.run_bind_ok (Prog.run_sub hl s), Prog.run_bind_ok (Prog.run_splitAt (by omega) s)] at hrun
  dsimp only at hrun
  rw [FixedBytes.ofBytes?_eq_some (by simp; omega), Prog.run_bind_ok (Prog.run_unwrap_some _ _),
    Prog.run_bind_ok (EStateM.run_get _), Prog.run_bind_ok (Prog.run_unwrap_of hr.2 _),
    Prog.run_bind_ok (EStateM.run_modify _ _)] at hrun
  split at hrun
  · cases hrun
  · rename_i htag
    refine ⟨data.take (data.length - 16), ?_⟩
    rw [Half.tagBody, not_not.1 htag]
    simp only [List.take_append_drop]

end ECIES

open ECIES

namespace ECIESCodec

/-! ## A reader among other bytes -/

/-- Where the reader is in the bytes that have come since the last message: before its next header, or after the header
of the next message. -/
inductive At (h : Half) (next : Option Bytes) (bytes : Bytes) (s : Decoding c) : Prop
  | header (hs : s.codec.state = .header) (hr : s.codec.ecies.Reads h) (hbytes : bytes = s.buf)
  | body (m : Bytes) (hm : next = some m) (hs : s.codec.state = .body)
      (hr : s.codec.ecies.Reads (h.afterHeader c m.length)) (hsize : s.codec.ecies.bodySize = some m.length)
      (hbytes : bytes = h.headerBytes c m.length ++ s.buf)

/-- More bytes come. -/
theorem At.extend {h : Half} {next : Option Bytes} {bytes : Bytes} {s : Decoding c} (hs : At h next bytes s)
    (more : Bytes) : At h next (bytes ++ more) (s.extend more) := by
  cases hs with
  | header hs hr hbytes => exact .header hs hr (by rw [hbytes, Decoding.extend_buf])
  | body m hm hs hr hsize hbytes =>
    exact .body m hm hs hr hsize (by rw [hbytes, Decoding.extend_buf, List.append_assoc])

/-- What a call that returns has done: a tag was accepted that should not have been; or it waits; or it returns the next
message. -/
inductive Outlasts (h : Half) (next : Option Bytes) (bytes : Bytes) : Option IngressECIESValue → Decoding c → Prop
  | forged (v : Option IngressECIESValue) (s : Decoding c) (hf : h.ForgedAt c next bytes) : Outlasts h next bytes v s
  | wait (s : Decoding c) (hs : At h next bytes s) : Outlasts h next bytes none s
  | message (m : Bytes) (s : Decoding c) (hm : next = some m) (hs : s.codec.state = .header)
      (hr : s.codec.ecies.Reads (h.next c m)) (hbytes : bytes = h.frame c m ++ s.buf) :
      Outlasts h next bytes (some (.message m)) s

variable {h : Half} {next : Option Bytes} {bytes : Bytes} {s s' : Decoding c} {v : Option IngressECIESValue}

theorem decodeBody_outlasts {m : Bytes} (hm : next = some m) (hs : s.codec.state = .body)
    (hr : s.codec.ecies.Reads (h.afterHeader c m.length)) (hsize : s.codec.ecies.bodySize = some m.length)
    (hbytes : bytes = h.headerBytes c m.length ++ s.buf) (hrun : decodeBody.run s = .ok v s') :
    Outlasts h next bytes v s' := by
  unfold decodeBody at hrun
  rw [Prog.run_bind_ok (run_inDecode (run_bodyLen hsize)), Prog.run_bind_ok (EStateM.run_get _)] at hrun
  by_cases hl : s.buf.length < paddedLen m.length + 16
  · rw [if_pos hl] at hrun
    cases hrun
    exact .wait s (.body m hm hs hr hsize hbytes)
  have hl := Nat.not_lt.1 hl
  have hlen : (s.buf.take (paddedLen m.length + 16)).length = paddedLen m.length + 16 :=
    List.length_take_of_le hl
  rw [if_neg (by omega), Prog.run_bind_ok (run_splitTo hl)] at hrun
  obtain ⟨ret, t, hzoom, hrun⟩ := Prog.run_bind_eq_ok.1 hrun
  obtain ⟨e, hread, rfl⟩ := Prog.run_zoom_eq_ok.1 hzoom
  obtain ⟨body, hbody⟩ := tagBody_of_readBody (s := s.codec.ecies) hr (by omega) hread
  have hsplit : h.headerBytes c m.length ++ s.buf =
      h.headerBytes c m.length ++ (h.afterHeader c m.length).tagBody c body ++
        s.buf.drop (paddedLen m.length + 16) := by
    rw [← hbody, List.append_assoc, List.take_append_drop]
  by_cases hgenuine : body = (h.afterHeader c m.length).aes.apply c (padBody m)
  · rw [hbody, hgenuine, ← Half.bodyBytes_eq] at hread
    obtain ⟨rfl, rfl⟩ := EStateM.Result.ok.inj ((run_readBody (s := s.codec.ecies) hr hsize).symm.trans hread)
    cases hrun
    refine .message _ _ hm rfl ⟨rfl, rfl⟩ ?_
    rw [hbytes, hsplit, hgenuine]
    rfl
  · refine .forged _ _ (.body m body hm ?_ hgenuine (hbytes ▸ hsplit ▸ List.prefix_append _ _))
    have hsame := congrArg List.length hbody
    rw [hlen, Half.length_tagBody] at hsame
    omega

/-- **A call of `decode`**, whatever has arrived. -/
theorem decode_outlasts (hnext : ∀ m, next = some m → m.length < 2 ^ 24) (hs : At h next bytes s)
    (hrun : decode.run s = .ok v s') : Outlasts h next bytes v s' := by
  cases hs with
  | body m hm hs hr hsize hbytes =>
    rw [run_decode_body hs] at hrun
    exact decodeBody_outlasts hm hs hr hsize hbytes hrun
  | header hs hr hbytes =>
    rw [run_decode_header hs, decodeHeader, Prog.run_bind_ok (EStateM.run_get _)] at hrun
    by_cases hl : s.buf.length < headerLen
    · rw [if_pos hl] at hrun
      cases hrun
      exact .wait s (.header hs hr hbytes)
    have hl := Nat.not_lt.1 hl
    rw [if_neg (by omega), Prog.run_bind_ok (run_splitTo hl)] at hrun
    obtain ⟨size, t, hzoom, hrun⟩ := Prog.run_bind_eq_ok.1 hrun
    obtain ⟨e, hread, rfl⟩ := Prog.run_zoom_eq_ok.1 hzoom
    obtain ⟨x, hx⟩ := tagHeader_of_readHeader (s := s.codec.ecies) hr (List.length_take_of_le hl) hread
    have hsplit : bytes = h.tagHeader c x ++ s.buf.drop headerLen := by
      rw [hbytes, ← hx, List.take_append_drop]
    by_cases hgenuine : ∃ m, next = some m ∧ x = h.header c m.length
    · obtain ⟨m, hm, rfl⟩ := hgenuine
      rw [hx, ← Half.headerBytes_eq] at hread
      obtain ⟨rfl, rfl⟩ :=
        EStateM.Result.ok.inj ((run_readHeader (s := s.codec.ecies) hr (hnext m hm)).symm.trans hread)
      rw [setState, Prog.run_bind_ok (EStateM.run_modify _ _)] at hrun
      refine decodeBody_outlasts hm rfl ⟨rfl, rfl⟩ rfl ?_ hrun
      exact hsplit
    · refine .forged _ _ (.header x (fun m hm hxm => hgenuine ⟨m, hm, hxm⟩) ?_)
      rw [hsplit]
      exact List.prefix_append _ _

/-- A header without a tag is not accepted. -/
theorem decode_untagged (hs : s.codec.state = .header) (hr : s.codec.ecies.Reads h) (hl : headerLen ≤ s.buf.length)
    (hx : ∀ x, s.buf.take headerLen ≠ h.tagHeader c x) (v : Option IngressECIESValue) (s' : Decoding c) :
    decode.run s ≠ .ok v s' := by
  intro hrun
  rw [run_decode_header hs, decodeHeader, Prog.run_bind_ok (EStateM.run_get _), if_neg (by omega),
    Prog.run_bind_ok (run_splitTo hl)] at hrun
  obtain ⟨size, t, hzoom, -⟩ := Prog.run_bind_eq_ok.1 hrun
  obtain ⟨e, hread, -⟩ := Prog.run_zoom_eq_ok.1 hzoom
  obtain ⟨x, h⟩ := tagHeader_of_readHeader (s := s.codec.ecies) hr (List.length_take_of_le hl) hread
  exact hx x h

end ECIESCodec

open ECIESCodec

/-! ## Both ends -/

/-- One end of a connection, with the bytes that it has written and those that have arrived. -/
structure Exposed (c : Crates) where
  codec : ECIESCodec c
  buf : Bytes
  sent : List Bytes
  written : Bytes
  arrived : Bytes
  received : List Bytes
  /-- A call has failed or panicked, or returned no message. -/
  failed : Bool

namespace Exposed

inductive Act where
  /-- The end encodes a message. -/
  | send (m : Bytes)
  /-- Some bytes arrive, whoever has made them. -/
  | arrive (bytes : Bytes)
  /-- The end calls `decode`. -/
  | receive

def encoded (e : Exposed c) (m : Bytes) : EStateM.Result (Stop IoError) (ECIESCodec c) Bytes → Exposed c
  | .ok out codec => { e with codec := codec, sent := e.sent ++ [m], written := e.written ++ out }
  | .error _ codec => { e with codec := codec, failed := true }

def decoded (e : Exposed c) : EStateM.Result (Stop IoError) (Decoding c) (Option IngressECIESValue) → Exposed c
  | .ok none s => { e with codec := s.codec, buf := s.buf }
  | .ok (some (.message m)) s => { e with codec := s.codec, buf := s.buf, received := e.received ++ [m] }
  | .ok (some _) s | .error _ s => { e with codec := s.codec, buf := s.buf, failed := true }

/-- One step of an end; an end that has failed takes no more calls. -/
def act (e : Exposed c) : Act → Option (Exposed c)
  | .send m => if e.failed then none else some (e.encoded m ((encode (.message m)).run e.codec))
  | .arrive bytes => some { e with buf := e.buf ++ bytes, arrived := e.arrived ++ bytes }
  | .receive => if e.failed then none else some (e.decoded (decode.run ⟨e.codec, e.buf⟩))

/-- Somebody else decides what arrives, so that the ends take their steps each for itself. -/
def step (s : Side → Exposed c) (e : Side × Act) : Option (Side → Exposed c) :=
  ((s e.1).act e.2).map (Function.update s e.1)

/-- The ends after the handshake. -/
def start (client server : ECIES c) : Side → Exposed c
  | .client => ⟨⟨client, .header⟩, [], [], [], [], [], false⟩
  | .server => ⟨⟨server, .header⟩, [], [], [], [], [], false⟩

/-! ## One end -/

variable {tx rx : Half} {sent : List Bytes} {e e' : Exposed c}

/-- The end has received the first of these messages from what has arrived, and is in it where their writer was. -/
def InTouch (rx : Half) (sent : List Bytes) (e : Exposed c) : Prop :=
  ∃ k bytes, e.received = sent.take k ∧ e.arrived = rx.frames c (sent.take k) ++ bytes ∧
    At (rx.nexts c (sent.take k)) sent[k]? bytes ⟨e.codec, e.buf⟩

/-- A tag should not have been accepted; or the end has received some first messages, and has failed or goes on. -/
def Follows (rx : Half) (sent : List Bytes) (e : Exposed c) : Prop :=
  rx.Forged c sent e.arrived ∨ e.received <+: sent ∧ (e.failed = true ∨ InTouch rx sent e)

/-- What an end writes is the frames of what it sends, and whatever the other end sends, this end follows it. -/
structure Inv (tx rx : Half) (e : Exposed c) : Prop where
  written : e.written = tx.frames c e.sent
  sized : ∀ m ∈ e.sent, m.length < 2 ^ 24
  writes : e.failed = true ∨ e.codec.Established ∧ e.codec.ecies.Writes (tx.nexts c e.sent)
  follows : ∀ sent : List Bytes, (∀ m ∈ sent, m.length < 2 ^ 24) → Follows rx sent e

/-- An end that fails without having received more. -/
theorem Follows.fail (h : Follows rx sent e) (harrived : e'.arrived = e.arrived) (hreceived : e'.received = e.received)
    (hfailed : e'.failed = true) : Follows rx sent e' := by
  rw [Follows, harrived, hreceived]
  exact h.imp_right fun h => ⟨h.1, .inl hfailed⟩

theorem run_writeHeader_oversized {s : ECIES c} {size : Nat} (hs : ¬size < 2 ^ 24) :
    (writeHeader size).run s = .error .panic s := by
  unfold writeHeader
  rw [if_neg hs]
  rfl

/-- **Sending** a message writes its frame, or fails. -/
theorem Inv.send (he : e.Inv tx rx) {m : Bytes} (h : e.act (.send m) = some e') : e'.Inv tx rx := by
  obtain ⟨hok, h⟩ := Option.ite_none_left_eq_some.1 h
  cases h
  obtain ⟨hestablished, hw⟩ := he.writes.resolve_left hok
  by_cases hm : m.length < 2 ^ 24
  · rw [run_encode_message hw hm]
    refine ⟨?_, ?_, .inr ?_, fun sent hsent => (he.follows sent hsent).imp_right fun h => ⟨h.1, .inr ?_⟩⟩
    · change e.written ++ _ = _
      rw [he.written, ← Half.frames_append]
      rfl
    · intro x hx
      rcases List.mem_append.1 hx with hx | hx
      · exact he.sized x hx
      · rw [List.mem_singleton.1 hx]
        exact hm
    · refine ⟨⟨hestablished.aes, hestablished.mac, hestablished.state⟩, ?_⟩
      change (e.codec.ecies.withEgress _).Writes (tx.nexts c (e.sent ++ [m]))
      rw [Half.nexts_append]
      exact writes_withEgress _ _
    · -- what is written does not matter for what is read
      obtain ⟨k, bytes, hreceived, harrived, hat⟩ := h.2.resolve_left hok
      refine ⟨k, bytes, hreceived, harrived, ?_⟩
      cases hat with
      | header hs hr hb => exact .header hs hr hb
      | body m' hm' hs hr hsize hb => exact .body m' hm' hs hr hsize hb
  · have hpanic : (encode (.message m)).run e.codec = .error .panic e.codec := by
      unfold encode
      refine Prog.run_bind_err ?_ _
      have hwrite := run_writeHeader_oversized (s := e.codec.ecies) hm
      simp only [EStateM.run] at hwrite
      simp only [inEncode, Prog.zoom, EStateM.run, hwrite]
    rw [hpanic]
    exact ⟨he.written, he.sized, .inl rfl, fun sent hsent => (he.follows sent hsent).fail rfl rfl rfl⟩

/-- **Bytes arrive**, whatever they are. -/
theorem Inv.arrive (he : e.Inv tx rx) {bytes : Bytes} (h : e.act (.arrive bytes) = some e') : e'.Inv tx rx := by
  cases h
  refine ⟨he.written, he.sized, he.writes, fun sent hsent => ?_⟩
  rcases he.follows sent hsent with hforged | ⟨hpre, hfollows⟩
  · exact .inl (hforged.append bytes)
  · refine .inr ⟨hpre, hfollows.imp_right ?_⟩
    rintro ⟨k, rest, hreceived, harrived, hat⟩
    refine ⟨k, rest ++ bytes, hreceived, ?_, hat.extend bytes⟩
    change e.arrived ++ bytes = _
    rw [harrived, List.append_assoc]

/-- **Receiving** a message follows the other end, or fails, or accepts a tag that it should not. -/
theorem follows_receive (hsent : ∀ m ∈ sent, m.length < 2 ^ 24) (hok : ¬e.failed = true) (h : Follows rx sent e) :
    Follows rx sent (e.decoded (decode.run ⟨e.codec, e.buf⟩)) := by
  have hfail : ∀ s : Decoding c, Follows rx sent { e with codec := s.codec, buf := s.buf, failed := true } := fun s =>
    h.fail rfl rfl rfl
  rcases h with hforged | ⟨hpre, hfollows⟩
  · left
    cases hrun : decode.run (⟨e.codec, e.buf⟩ : Decoding c) with
    | error => exact hforged
    | ok v s =>
      rcases v with _ | _ | _ | _ <;> exact hforged
  obtain ⟨k, bytes, hreceived, harrived, hat⟩ := hfollows.resolve_left hok
  have hnext : ∀ m, sent[k]? = some m → m.length < 2 ^ 24 := fun m hm => hsent m (List.mem_of_getElem? hm)
  cases hrun : decode.run (⟨e.codec, e.buf⟩ : Decoding c) with
  | error err s => exact hfail s
  | ok v s =>
    cases decode_outlasts hnext hat hrun with
    | forged _ _ hf =>
      left
      have hforged : rx.Forged c sent e.arrived := ⟨k, bytes, harrived, hf⟩
      rcases v with _ | _ | _ | _ <;> exact hforged
    | wait _ hs => exact .inr ⟨hpre, .inr ⟨k, bytes, hreceived, harrived, hs⟩⟩
    | message m _ hm hs hr hbytes =>
      have htake : sent.take (k + 1) = sent.take k ++ [m] := by rw [List.take_add_one, hm, Option.toList_some]
      have hmore : e.received ++ [m] = sent.take (k + 1) := by rw [hreceived, htake]
      refine .inr ⟨?_, .inr ⟨k + 1, s.buf, hmore, ?_, .header hs ?_ rfl⟩⟩
      · change e.received ++ [m] <+: sent
        rw [hmore]
        exact List.take_prefix _ _
      · change e.arrived = _
        rw [harrived, htake, Half.frames_append, hbytes, List.append_assoc]
      · rw [htake, Half.nexts_append]
        exact hr

theorem Inv.receive (he : e.Inv tx rx) (h : e.act .receive = some e') : e'.Inv tx rx := by
  obtain ⟨hok, h⟩ := Option.ite_none_left_eq_some.1 h
  cases h
  obtain ⟨hestablished, hw⟩ := he.writes.resolve_left hok
  have hfollows : ∀ sent : List Bytes, (∀ m ∈ sent, m.length < 2 ^ 24) →
      Follows rx sent (e.decoded (decode.run ⟨e.codec, e.buf⟩)) := fun sent hsent =>
    follows_receive hsent hok (he.follows sent hsent)
  cases hrun : decode.run (⟨e.codec, e.buf⟩ : Decoding c) with
  | error err s =>
    rw [hrun] at hfollows
    exact ⟨he.written, he.sized, .inl rfl, hfollows⟩
  | ok v s =>
    rw [hrun] at hfollows
    have hsafe := (Prog.wp_of_run hrun).1 (decode_safe (s := ⟨e.codec, e.buf⟩) hestablished)
    have hegress := egress_of_decode (s := ⟨e.codec, e.buf⟩) hestablished hrun
    have hkept : s.codec.ecies.Writes (tx.nexts c e.sent) :=
      ⟨(congrArg Prod.fst hegress).trans hw.1, (congrArg Prod.snd hegress).trans hw.2⟩
    rcases v with _ | _ | _ | _
    · exact ⟨he.written, he.sized, .inr ⟨hsafe, hkept⟩, hfollows⟩
    · exact ⟨he.written, he.sized, .inl rfl, hfollows⟩
    · exact ⟨he.written, he.sized, .inl rfl, hfollows⟩
    · exact ⟨he.written, he.sized, .inr ⟨hsafe, hkept⟩, hfollows⟩

theorem inv_start (s : ECIES c) (hw : s.Writes tx) (hr : s.Reads rx) :
    Inv tx rx ⟨⟨s, .header⟩, [], [], [], [], [], false⟩ where
  written := rfl
  sized := nofun
  writes := .inr ⟨⟨by rw [hr.1]; rfl, by rw [hr.2]; rfl, .inl rfl⟩, hw⟩
  follows sent _ := .inr ⟨List.nil_prefix, .inr ⟨0, [], rfl, rfl, .header rfl hr rfl⟩⟩

/-! ## Whole runs -/

/-- Each end writes with its half, and reads with that of the other. -/
def Paired (half : Side → Half) (s : Side → Exposed c) : Prop := ∀ x, (s x).Inv (half x) (half x.other)

/-- A step keeps the invariants of both ends. -/
theorem step_paired {half : Side → Half} {s s' : Side → Exposed c} {a : Side × Act} (hs : Paired half s)
    (h : step s a = some s') : Paired half s' := by
  obtain ⟨e, he, rfl⟩ := Option.map_eq_some_iff.1 h
  intro x
  rw [Function.update_apply]
  split
  · rename_i hx
    subst hx
    cases hact : a.2 with
    | send m => exact (hs a.1).send (hact ▸ he)
    | arrive bytes => exact (hs a.1).arrive (hact ▸ he)
    | receive => exact (hs a.1).receive (hact ▸ he)
  · exact hs x

/-! ## A byte that is changed -/

variable {h : Half} {m : Bytes}

/-- A reader with no message to come is between two messages. -/
theorem carries_nil {codec : ECIESCodec c} {bytes : Bytes} {tx : Half} (hc : Carries codec bytes [] tx) :
    codec.state = .header ∧ codec.ecies.Reads tx ∧ bytes = [] := by
  cases hc with
  | header hs hr hp => exact ⟨hs, hr, rfl⟩

theorem act_send (hok : e.failed = false) (hw : e.codec.ecies.Writes h) (hm : m.length < 2 ^ 24) :
    ∃ e', e.act (.send m) = some e' ∧ e'.failed = false ∧ e'.codec.ecies.Writes (h.next c m) ∧
      e'.written = e.written ++ h.frame c m := by
  refine ⟨_, if_neg (by simp [hok]), ?_⟩
  rw [run_encode_message hw hm]
  exact ⟨hok, writes_withEgress _ _, rfl⟩

theorem act_arrive (e : Exposed c) (bytes : Bytes) : ∃ e', e.act (.arrive bytes) = some e' ∧
    e'.buf = e.buf ++ bytes ∧ e'.codec = e.codec ∧ e'.received = e.received ∧ e'.failed = e.failed :=
  ⟨_, rfl, rfl, rfl, rfl, rfl⟩

/-- A frame of the other end is received. -/
theorem act_receive (hok : e.failed = false) (hs : e.codec.state = .header) (hr : e.codec.ecies.Reads h)
    (hbuf : e.buf = h.frame c m) (hm : m.length < 2 ^ 24) : ∃ e', e.act .receive = some e' ∧ e'.failed = false ∧
      e'.codec.state = .header ∧ e'.codec.ecies.Reads (h.next c m) ∧ e'.buf = [] ∧
      e'.received = e.received ++ [m] := by
  have hframes : e.buf ++ [] = h.frames c [m] := by rw [hbuf]; rfl
  have hcarries : Carries e.codec (h.frames c [m]) [m] (h.nexts c [m]) := .header hs hr (by simpa using hm)
  rw [← hframes] at hcarries
  cases decode_carries hcarries with
  | wait _ _ _ _ _ hw => cases hw rfl
  | message codec buf m' rest hp hrun hc =>
    cases hp
    obtain ⟨hs', hr', hbuf'⟩ := carries_nil hc
    rw [List.append_nil] at hbuf'
    refine ⟨_, if_neg (by simp [hok]), ?_⟩
    rw [hrun, hbuf']
    exact ⟨hok, hs', hr', rfl, rfl⟩

/-- A frame with another tag on its header is not received. -/
theorem act_receive_untagged (hok : e.failed = false) (hs : e.codec.state = .header) (hr : e.codec.ecies.Reads h)
    (hl : headerLen ≤ e.buf.length) (hx : ∀ x, e.buf.take headerLen ≠ h.tagHeader c x) :
    ∃ e', e.act .receive = some e' ∧ e'.received = e.received ∧ e'.failed = true := by
  refine ⟨_, if_neg (by simp [hok]), ?_⟩
  cases hrun : decode.run (⟨e.codec, e.buf⟩ : Decoding c) with
  | error => exact ⟨rfl, rfl⟩
  | ok v s' => exact absurd hrun (decode_untagged hs hr hl hx v s')

/-- The steps of one end. -/
theorem run_one (x : Side) : ∀ (as : List Act) (s : Side → Exposed c),
    Runs.run step s (as.map (x, ·)) = (Runs.run act (s x) as).map (Function.update s x)
  | [], s => by simp
  | a :: as, s => by
    rw [List.map_cons, Runs.run_cons, Runs.run_cons, step]
    cases (s x).act a with
    | none => rfl
    | some e =>
      have hupdate : Function.update (Function.update s x e) x = Function.update s x :=
        funext fun e' => Function.update_idem (a := x) e e' s
      simp only [Option.map_some, Option.bind_some, run_one x as, Function.update_self, hupdate]

/-- **A byte is changed on the way**: the frame of the first message arrives as it was written, and one byte is changed
in the tag on the header of the second one. The first message is received; then the end fails. -/
theorem run_changed {aesSecret macSecret : H256} {client server : ECIES c}
    (ha : Agree aesSecret macSecret client server) {m m' : Bytes} (hm : m.length < 2 ^ 24) (hm' : m'.length < 2 ^ 24) {n : Nat}
    (hn : n = headerLen + (paddedLen m.length + 16)) :
    ∃ s t, Runs.run step (start client server) [(.client, .send m), (.client, .send m')] = some s ∧
      Runs.run step s [(.server, .arrive ((s .client).written.take n)), (.server, .receive),
        (.server, .arrive (((s .client).written.drop n).modify 16 (· + 1))), (.server, .receive)] = some t ∧
      (t .server).received = [m] ∧ (t .server).failed = true := by
  obtain ⟨tx, -, -, hw, hr⟩ := ha.forth
  have hlen : (tx.frame c m).length = n := by
    rw [Half.frame, List.length_append, Half.length_headerBytes, Half.length_bodyBytes, hn]
  -- both frames are written
  obtain ⟨e₁, h₁, hok₁, hw₁, hwritten₁⟩ := act_send (e := start client server .client) rfl hw hm
  obtain ⟨e₂, h₂, -, -, hwritten₂⟩ := act_send hok₁ hw₁ hm'
  have hwritten : e₂.written = tx.frame c m ++ (tx.next c m).frame c m' := by rw [hwritten₂, hwritten₁]; rfl
  have hsend := run_one .client [.send m, .send m'] (start client server)
  simp only [Runs.run_cons, Runs.run_nil, h₁, h₂, Option.bind_some, Option.map_some] at hsend
  -- the first frame arrives
  obtain ⟨e₃, h₃, hbuf₃, hcodec₃, hreceived₃, hok₃⟩ := act_arrive (start client server .server) (tx.frame c m)
  obtain ⟨e₄, h₄, hok₄, hs₄, hr₄, hbuf₄, hreceived₄⟩ := act_receive hok₃ (by rw [hcodec₃]; rfl)
    (by rw [hcodec₃]; exact hr) hbuf₃ hm
  -- and the second one with another byte
  obtain ⟨e₅, h₅, hbuf₅, hcodec₅, hreceived₅, hok₅⟩ := act_arrive e₄ (((tx.next c m).frame c m').modify 16 (· + 1))
  rw [hbuf₄, List.nil_append] at hbuf₅
  obtain ⟨e₆, h₆, hreceived₆, hfailed⟩ := act_receive_untagged (hok₅.trans hok₄) (hcodec₅ ▸ hs₄) (hcodec₅ ▸ hr₄)
    (by rw [hbuf₅, List.length_modify, Half.frame, List.length_append, Half.length_headerBytes]; omega)
    (hbuf₅ ▸ Half.modify_frame_untagged _ _ fun b => by simp)
  have hreceive := run_one .server [.arrive (e₂.written.take n), .receive,
    .arrive ((e₂.written.drop n).modify 16 (· + 1)), .receive] (Function.update (start client server) .client e₂)
  rw [Function.update_of_ne (by decide)] at hreceive
  simp only [hwritten, List.take_left' hlen, List.drop_left' hlen, Runs.run_cons, Runs.run_nil, h₃, h₄, h₅, h₆,
    Option.bind_some, Option.map_some] at hreceive
  refine ⟨_, Function.update (Function.update (start client server) .client e₂) .server e₆, hsend, ?_, ?_, ?_⟩
  · rw [Function.update_self, hwritten, List.take_left' hlen, List.drop_left' hlen]
    exact hreceive
  · rw [Function.update_self, hreceived₆, hreceived₅, hreceived₄, hreceived₃]
    rfl
  · rw [Function.update_self, hfailed]

/-! ## Tampering -/

/-- **Tampering is detected**: after the handshake, whatever arrives at the ends, each writes the frames of what it
sends, and has received an initial part of what the other end has sent; or a tag was accepted, after the frames of the
first messages of the other end, on what does not belong to its next message. -/
theorem tampering_detected (h : c.SecpLaws) (hr : c.rlp.Lawful) (p : Parties c) :
    ∃ client server aesSecret macSecret, ∃ half : Side → Half, handshake p = some (client, server) ∧
      (∀ x, (half x).aes.key = aesSecret ∧ (half x).mac.secret = macSecret) ∧
      ∀ (as : List (Side × Act)) (s : Side → Exposed c), Runs.run step (start client server) as = some s →
        ∀ x, (s x).written = (half x).frames c (s x).sent ∧
          ((s x).received <+: (s x.other).sent ∨ (half x.other).Forged c (s x.other).sent (s x).arrived) := by
  obtain ⟨client, server, aesSecret, macSecret, hh, ha⟩ := handshake_agrees h hr p
  obtain ⟨tx, haes, hmac, hcw, hsr⟩ := ha.forth
  obtain ⟨rx, haes', hmac', hsw, hcr⟩ := ha.back
  refine ⟨client, server, aesSecret, macSecret, fun | .client => tx | .server => rx, hh, ?_, fun as s hrun x => ?_⟩
  · rintro (_ | _)
    · exact ⟨haes, hmac⟩
    · exact ⟨haes', hmac'⟩
  let half : Side → Half := fun | .client => tx | .server => rx
  have hstart : Paired half (start client server) := by
    rintro (_ | _)
    · exact inv_start client hcw hcr
    · exact inv_start server hsw hsr
  have hs : Paired half s := Runs.invariant (fun _ _ _ hs h => step_paired hs h) as hstart hrun
  refine ⟨(hs x).written, ?_⟩
  exact ((hs x).follows (s x.other).sent (hs x.other).sized).symm.imp_left And.left

/-- The example parties, and a byte of a pong of the client that is changed. -/
theorem tampering_example : ∃ client server aesSecret macSecret, ∃ half : Side → Half,
    handshake exampleParties = some (client, server) ∧
    (∀ x, (half x).aes.key = aesSecret ∧ (half x).mac.secret = macSecret) ∧
    (∀ (as : List (Side × Act)) (s : Side → Exposed Software.crates), Runs.run step (start client server) as = some s →
      ∀ x, (s x).written = (half x).frames Software.crates (s x).sent ∧
        ((s x).received <+: (s x.other).sent ∨
          (half x.other).Forged Software.crates (s x.other).sent (s x).arrived)) ∧
    ∃ s t, Runs.run step (start client server) [(.client, .send [0x02, 0xc0]), (.client, .send [0x03, 0xc0])] = some s ∧
      Runs.run step s [(.server, .arrive ((s .client).written.take 64)), (.server, .receive),
        (.server, .arrive (((s .client).written.drop 64).modify 16 (· + 1))), (.server, .receive)] = some t ∧
      (t .server).received = [[0x02, 0xc0]] ∧ (t .server).failed = true := by
  obtain ⟨client, server, aesSecret, macSecret, half, hh, hkeys, hruns⟩ :=
    tampering_detected Software.secpLaws Rlp.standard_lawful exampleParties
  obtain ⟨client', server', _, _, hh', ha⟩ := handshake_agrees Software.secpLaws Rlp.standard_lawful exampleParties
  obtain ⟨rfl, rfl⟩ := Prod.mk.inj (Option.some.inj (hh.symm.trans hh'))
  exact ⟨client, server, aesSecret, macSecret, half, hh, hkeys, hruns, run_changed ha (by decide) (by decide) rfl⟩

end Exposed

end EthereumSentry
