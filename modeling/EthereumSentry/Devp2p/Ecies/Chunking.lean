import EthereumSentry.Devp2p.Ecies.Frames
import EthereumSentry.Devp2p.Ecies.Stream
import EthereumSentry.Lib.Incremental

/-!
# The codec does not depend on the chunks

`decode` is an incremental decoder (`ECIESCodec.decoder`): either it waits, having consumed nothing or one whole header
(`Waits`), or it does the same on every longer buffer (`Completes`). So in whatever chunks the bytes arrive, draining
the codec after each returns the messages, and the first error, of the whole stream at once (`decode_chunking`).
-/

set_option autoImplicit false

namespace EthereumSentry

variable {c : Crates}

/-- The same codec on a longer buffer. -/
def Decoding.extend (s : Decoding c) (more : Bytes) : Decoding c := { s with buf := s.buf ++ more }

@[simp] theorem Decoding.extend_codec (s : Decoding c) (more : Bytes) : (s.extend more).codec = s.codec := rfl

@[simp] theorem Decoding.extend_buf (s : Decoding c) (more : Bytes) : (s.extend more).buf = s.buf ++ more := rfl

@[simp] theorem Decoding.extend_nil (s : Decoding c) : s.extend [] = s := by
  cases s
  simp [Decoding.extend]

namespace ECIESCodec

/-! ## Programs that leave the buffer alone -/

section Blind

variable {α β : Type}

/-- A result with its buffer replaced. -/
def withBuf (f : Bytes → Bytes) :
    EStateM.Result (Stop IoError) (Decoding c) α → EStateM.Result (Stop IoError) (Decoding c) α
  | .ok a s => .ok a { s with buf := f s.buf }
  | .error e s => .error e { s with buf := f s.buf }

/-- The program does not look at the buffer, and leaves it as it is. -/
def Blind (x : Prog IoError (Decoding c) α) : Prop :=
  ∀ codec buf, x.run ⟨codec, buf⟩ = withBuf (fun _ => buf) (x.run ⟨codec, []⟩)

theorem blind_pure (a : α) : Blind (pure a : Prog IoError (Decoding c) α) := fun _ _ => rfl

theorem blind_setState (state : ECIESState) : Blind (setState state : Prog IoError (Decoding c) Unit) := fun _ _ => rfl

theorem blind_inDecode (x : Prog ECIESError (ECIES c) α) : Blind (inDecode x) := by
  intro codec buf
  simp only [inDecode, Prog.zoom, EStateM.run]
  rcases x codec.ecies with ⟨a, e⟩ | ⟨_ | _, e⟩ <;> rfl

theorem blind_bind {x : Prog IoError (Decoding c) α} {f : α → Prog IoError (Decoding c) β} (hx : Blind x)
    (hf : ∀ a, Blind (f a)) : Blind (x >>= f) := by
  intro codec buf
  have hb := hx codec buf
  cases hr : x.run ⟨codec, []⟩ with
  | ok a s =>
    rw [hr] at hb
    rw [Prog.run_bind_ok hr, Prog.run_bind_ok hb, hf a s.codec buf, hf a s.codec s.buf]
    cases (f a).run ⟨s.codec, []⟩ <;> rfl
  | error e s =>
    rw [hr] at hb
    rw [Prog.run_bind_err hr, Prog.run_bind_err hb]
    rfl

theorem Blind.run_extend {x : Prog IoError (Decoding c) α} (h : Blind x) (s : Decoding c) (more : Bytes) :
    x.run (s.extend more) = withBuf (· ++ more) (x.run s) := by
  obtain ⟨codec, buf⟩ := s
  rw [h codec buf, Decoding.extend, h codec (buf ++ more)]
  cases x.run ⟨codec, []⟩ <;> rfl

theorem Blind.buf_eq {x : Prog IoError (Decoding c) α} (h : Blind x) {s s' : Decoding c} {a : α}
    (hr : x.run s = .ok a s') : s'.buf = s.buf := by
  obtain ⟨codec, buf⟩ := s
  rw [h codec buf] at hr
  cases hx : x.run ⟨codec, []⟩ with
  | ok b t =>
    rw [hx] at hr
    cases hr
    rfl
  | error e t =>
    rw [hx] at hr
    cases hr

/-- Whatever the program returns meets the condition. -/
def Returns (P : α → Prop) (x : Prog IoError (Decoding c) α) : Prop := ∀ s a s', x.run s = .ok a s' → P a

theorem returns_pure {P : α → Prop} {a : α} (h : P a) : Returns P (pure a : Prog IoError (Decoding c) α) := by
  intro s b s' hr
  cases hr
  exact h

theorem returns_bind {P : β → Prop} {x : Prog IoError (Decoding c) α} {f : α → Prog IoError (Decoding c) β}
    (h : ∀ a, Returns P (f a)) : Returns P (x >>= f) := by
  intro s b s' hr
  obtain ⟨a, t, -, hr⟩ := Prog.run_bind_eq_ok.1 hr
  exact h a t b s' hr

end Blind

/-! ## A call waits or completes -/

/-- The call does not wait: it does the same on a longer buffer, and takes a value that it returns off the buffer. -/
structure Completes (x : Prog IoError (Decoding c) (Option IngressECIESValue)) (s : Decoding c) : Prop where
  longer : ∀ more, x.run (s.extend more) = withBuf (· ++ more) (x.run s)
  ne_none : ∀ s', x.run s ≠ .ok none s'
  consumes : ∀ v s', x.run s = .ok (some v) s' → s'.buf.length < s.buf.length

/-- A call that goes on as another one does. -/
theorem Completes.of_run {x y : Prog IoError (Decoding c) (Option IngressECIESValue)} {s t : Decoding c}
    (h : Completes y t) (hr : ∀ more, x.run (s.extend more) = y.run (t.extend more))
    (hl : t.buf.length ≤ s.buf.length) : Completes x s := by
  have hrun : x.run s = y.run t := by simpa using hr []
  refine ⟨fun more => ?_, fun s' => ?_, fun v s' hv => ?_⟩
  · rw [hr, h.longer, hrun]
  · rw [hrun]
    exact h.ne_none s'
  · exact lt_of_lt_of_le (h.consumes v s' (hrun ▸ hv)) hl

theorem completes_of_error {x : Prog IoError (Decoding c) (Option IngressECIESValue)} {s t : Decoding c}
    {e : Stop IoError} (h : ∀ more, x.run (s.extend more) = .error e (t.extend more)) : Completes x s := by
  have hrun : x.run s = .error e t := by simpa using h []
  refine ⟨fun more => ?_, fun s' => ?_, fun v s' hv => ?_⟩
  · rw [h, hrun]
    rfl
  · rw [hrun]
    exact nofun
  · rw [hrun] at hv
    cases hv

theorem run_splitTo_extend {n : Nat} {s : Decoding c} (h : n ≤ s.buf.length) (more : Bytes) :
    (splitTo n).run (s.extend more) = .ok (s.buf.take n) (Decoding.extend { s with buf := s.buf.drop n } more) := by
  rw [run_splitTo (by rw [Decoding.extend_buf, List.length_append]; omega), Decoding.extend_buf,
    List.take_append_of_le_length h, List.drop_append_of_le_length h]
  rfl

/-- Some bytes off the buffer, and then no look at it. -/
theorem completes_splitTo {n : Nat} {s : Decoding c} {f : Bytes → Prog IoError (Decoding c) (Option IngressECIESValue)}
    (hn : n ≤ s.buf.length) (hpos : 0 < n) (hb : ∀ data, Blind (f data))
    (hsome : ∀ data, Returns (fun v => v.isSome) (f data)) : Completes (splitTo n >>= f) s := by
  have hrun : (splitTo n >>= f).run s = (f (s.buf.take n)).run { s with buf := s.buf.drop n } :=
    Prog.run_bind_ok (run_splitTo hn) f
  refine ⟨fun more => ?_, fun s' hr => ?_, fun v s' hr => ?_⟩
  · rw [hrun, Prog.run_bind_ok (run_splitTo_extend hn more)]
    exact (hb _).run_extend _ more
  · rw [hrun] at hr
    cases hsome _ _ _ _ hr
  · rw [hrun] at hr
    rw [(hb _).buf_eq hr, List.length_drop]
    omega

/-- What a call that waits has consumed: nothing, or a header. -/
inductive Waits (s : Decoding c) : Decoding c → Prop
  | still : Waits s s
  | header (size : Nat) (e : ECIES c) (hs : s.codec.state = .header) (hl : ECIES.headerLen ≤ s.buf.length)
      (hr : (ECIES.readHeader (s.buf.take ECIES.headerLen)).run s.codec.ecies = .ok size e) :
      Waits s ⟨⟨e, .body⟩, s.buf.drop ECIES.headerLen⟩

/-- A handshake message waits for all its bytes. -/
theorem decodeHandshake_cases {read : Bytes → Prog ECIESError (ECIES c) Unit}
    {value : Prog IoError (Decoding c) IngressECIESValue} (hv : Blind value) (s : Decoding c) :
    (decodeHandshake read value).run s = .ok none s ∨ Completes (decodeHandshake read value) s := by
  by_cases h2 : s.buf.length < 2
  · left
    rw [decodeHandshake, Prog.run_bind_ok (EStateM.run_get _), if_pos h2]
    rfl
  by_cases ht : s.buf.length < announced s.buf + 2
  · left
    rw [decodeHandshake, Prog.run_bind_ok (EStateM.run_get _), if_neg h2, if_pos ht]
    rfl
  right
  refine (completes_splitTo (n := announced s.buf + 2) (f := fun data => do
    inDecode (read data)
    setState .header
    let v ← value
    pure (some v)) (by omega) (by omega) (fun data => ?_) fun data => ?_).of_run (fun more => ?_) le_rfl
  · exact blind_bind (blind_inDecode _) fun _ => blind_bind (blind_setState _) fun _ =>
      blind_bind hv fun _ => blind_pure _
  · exact returns_bind fun _ => returns_bind fun _ => returns_bind fun _ => returns_pure rfl
  · -- the announced size is the same on the longer buffer
    have ha : announced (s.buf ++ more) = announced s.buf := by
      rw [announced, announced, List.take_append_of_le_length (by omega)]
    rw [decodeHandshake, Prog.run_bind_ok (EStateM.run_get _), Decoding.extend_buf, ha,
      if_neg (by rw [List.length_append]; omega), if_neg (by rw [List.length_append]; omega)]

/-- The `Body` arm waits for the whole body. -/
theorem decodeBody_cases (s : Decoding c) : decodeBody.run s = .ok none s ∨ Completes decodeBody s := by
  cases hb : s.codec.ecies.bodySize with
  | none =>
    right
    have hlen (t : Decoding c) (ht : t.codec.ecies.bodySize = none) : (inDecode ECIES.bodyLen).run t =
        .error .panic t := by
      have hcrash : (ECIES.bodyLen : Prog ECIESError (ECIES c) Nat).run t.codec.ecies =
          .error .panic t.codec.ecies := by
        rw [ECIES.bodyLen, Prog.run_bind_ok (EStateM.run_get _), ht]
        rfl
      simp only [EStateM.run] at hcrash
      simp only [inDecode, Prog.zoom, EStateM.run, hcrash]
    refine completes_of_error (e := .panic) (t := s) fun more => ?_
    rw [decodeBody, Prog.run_bind_err (hlen (s.extend more) hb)]
  | some size =>
    have hlen (t : Decoding c) (ht : t.codec.ecies.bodySize = some size) : (inDecode ECIES.bodyLen).run t =
        .ok (ECIES.paddedLen size + 16) t := run_inDecode (ECIES.run_bodyLen ht)
    by_cases hl : s.buf.length < ECIES.paddedLen size + 16
    · left
      rw [decodeBody, Prog.run_bind_ok (hlen s hb), Prog.run_bind_ok (EStateM.run_get _), if_pos hl]
      rfl
    right
    refine (completes_splitTo (n := ECIES.paddedLen size + 16) (f := fun data => do
      let ret ← inDecode (ECIES.readBody data)
      setState .header
      pure (some (.message ret))) (by omega) (by omega) (fun data => ?_) fun data => ?_).of_run (fun more => ?_) le_rfl
    · exact blind_bind (blind_inDecode _) fun _ => blind_bind (blind_setState _) fun _ => blind_pure _
    · exact returns_bind fun _ => returns_bind fun _ => returns_pure rfl
    · rw [decodeBody, Prog.run_bind_ok (hlen (s.extend more) hb), Prog.run_bind_ok (EStateM.run_get _),
        if_neg (by rw [Decoding.extend_buf, List.length_append]; omega)]

/-- **Every call waits or completes**; one that waits is resumed where it has left off. -/
theorem decode_cases (s : Decoding c) :
    (∃ s', decode.run s = .ok none s' ∧ Waits s s' ∧ ∀ more, decode.run (s.extend more) = decode.run (s'.extend more)) ∨
      Completes decode s := by
  have still {x : Prog IoError (Decoding c) (Option IngressECIESValue)} (hx : ∀ more, decode.run (s.extend more) =
      x.run (s.extend more)) (h : x.run s = .ok none s ∨ Completes x s) :
      (∃ s', decode.run s = .ok none s' ∧ Waits s s' ∧
        ∀ more, decode.run (s.extend more) = decode.run (s'.extend more)) ∨ Completes decode s := by
    rcases h with h | h
    · exact .inl ⟨s, by simpa [h] using hx [], .still, fun _ => rfl⟩
    · exact .inr (h.of_run hx le_rfl)
  cases hs : s.codec.state with
  | auth =>
    refine still (x := decodeHandshake ECIES.readAuth do
      let s ← get
      let id ← Prog.unwrap s.codec.ecies.remoteId
      pure (.authReceive id)) (fun more => ?_) (decodeHandshake_cases ?_ s)
    · rw [decode, Prog.run_bind_ok (EStateM.run_get _)]
      simp only [Decoding.extend_codec, hs]
    · intro codec buf
      rw [Prog.run_bind_ok (EStateM.run_get _), Prog.run_bind_ok (EStateM.run_get _)]
      cases codec.ecies.remoteId <;> rfl
  | ack =>
    refine still (x := decodeHandshake ECIES.readAck (pure .ack)) (fun more => ?_)
      (decodeHandshake_cases (blind_pure _) s)
    rw [decode, Prog.run_bind_ok (EStateM.run_get _)]
    simp only [Decoding.extend_codec, hs]
  | body => exact still (fun more => run_decode_body hs) (decodeBody_cases s)
  | header =>
    by_cases hl : s.buf.length < ECIES.headerLen
    · refine .inl ⟨s, ?_, .still, fun _ => rfl⟩
      rw [run_decode_header hs, decodeHeader, Prog.run_bind_ok (EStateM.run_get _), if_pos hl]
      rfl
    have hl : ECIES.headerLen ≤ s.buf.length := Nat.not_lt.1 hl
    -- the first bytes are a header, on every longer buffer
    let t : Decoding c := { s with buf := s.buf.drop ECIES.headerLen }
    let read : Prog IoError (Decoding c) Nat := inDecode (ECIES.readHeader (s.buf.take ECIES.headerLen))
    have hhead (more : Bytes) : decode.run (s.extend more) =
        (read >>= fun _ => setState .body >>= fun _ => decodeBody).run (t.extend more) := by
      rw [run_decode_header (s := s.extend more) hs, decodeHeader, Prog.run_bind_ok (EStateM.run_get _),
        if_neg (by rw [Decoding.extend_buf, List.length_append]; omega), Prog.run_bind_ok (run_splitTo_extend hl more)]
    have hread (more : Bytes) : read.run (t.extend more) = withBuf (· ++ more) (read.run t) :=
      (blind_inDecode _).run_extend t more
    cases hr : read.run t with
    | error e t' =>
      refine .inr (completes_of_error (e := e) (t := t') fun more => ?_)
      rw [hhead, Prog.run_bind_err ((hread more).trans (by rw [hr]; rfl))]
      rfl
    | ok size t' =>
      obtain ⟨e, he, rfl⟩ := Prog.run_zoom_eq_ok.1 hr
      have hbody (more : Bytes) : decode.run (s.extend more) =
          decodeBody.run (Decoding.extend ⟨⟨e, .body⟩, s.buf.drop ECIES.headerLen⟩ more) := by
        rw [hhead, Prog.run_bind_ok ((hread more).trans (by rw [hr]; rfl)), setState,
          Prog.run_bind_ok (EStateM.run_modify _ _)]
        rfl
      rcases decodeBody_cases ⟨⟨e, .body⟩, s.buf.drop ECIES.headerLen⟩ with h | h
      · refine .inl ⟨_, ?_, .header size e hs hl he, fun more => ?_⟩
        · have hbody := hbody []
          rw [Decoding.extend_nil, Decoding.extend_nil] at hbody
          rw [hbody, h]
        · rw [hbody, run_decode_body rfl]
      · exact .inr (h.of_run hbody (by simp))

/-! ## Draining the codec -/

/-- `decode` as a call on the codec and the receive buffer. -/
def outcome : EStateM.Result (Stop IoError) (Decoding c) (Option IngressECIESValue) →
    Outcome (Stop IoError) IngressECIESValue × ECIESCodec c × Bytes
  | .ok (some v) s => (.value v, s.codec, s.buf)
  | .ok none s => (.wait, s.codec, s.buf)
  | .error e s => (.stop e, s.codec, s.buf)

theorem outcome_withBuf (more : Bytes) :
    ∀ r : EStateM.Result (Stop IoError) (Decoding c) (Option IngressECIESValue), (∀ s, r ≠ .ok none s) →
      (outcome r).1 ≠ .wait ∧
        outcome (withBuf (· ++ more) r) = ((outcome r).1, (outcome r).2.1, (outcome r).2.2 ++ more)
  | .ok (some _) _, _ => ⟨nofun, rfl⟩
  | .ok none s, h => absurd rfl (h s)
  | .error _ _, _ => ⟨nofun, rfl⟩

/-- **`decode` is an incremental decoder.** -/
def decoder : Incremental (ECIESCodec c) UInt8 (Stop IoError) IngressECIESValue where
  call codec buf := outcome (decode.run ⟨codec, buf⟩)
  consumes codec buf v h := by
    rcases decode_cases ⟨codec, buf⟩ with ⟨s', hr, -, -⟩ | hc
    · rw [hr] at h
      cases h
    · cases hr : decode.run ⟨codec, buf⟩ with
      | ok r s' =>
        cases r with
        | none => exact absurd hr (hc.ne_none s')
        | some v' => exact hc.consumes v' s' hr
      | error e s' =>
        rw [hr] at h
        cases h
  extend codec buf more h := by
    rcases decode_cases ⟨codec, buf⟩ with ⟨s', hr, -, -⟩ | hc
    · rw [hr] at h
      exact absurd rfl h
    · have hl := hc.longer more
      rw [Decoding.extend] at hl
      rw [hl]
      exact (outcome_withBuf more _ hc.ne_none).2
  resume codec buf more h := by
    rcases decode_cases ⟨codec, buf⟩ with ⟨s', hr, -, hl⟩ | hc
    · rw [hr]
      exact congrArg outcome (hl more)
    · exact absurd h (outcome_withBuf more _ hc.ne_none).1

/-- Nothing, or a message. -/
def IsMessage (v : Option IngressECIESValue) : Prop := ∀ x, v = some x → ∃ m, x = .message m

theorem decodeBody_returns : Returns IsMessage (decodeBody : Prog IoError (Decoding c) _) := by
  refine returns_bind fun _ => returns_bind fun _ => ?_
  split
  · exact returns_pure nofun
  · exact returns_bind fun _ => returns_bind fun ret => returns_bind fun _ =>
      returns_pure fun x hx => ⟨ret, (Option.some.inj hx).symm⟩

theorem decodeHeader_returns : Returns IsMessage (decodeHeader : Prog IoError (Decoding c) _) := by
  refine returns_bind fun _ => ?_
  split
  · exact returns_pure nofun
  · exact returns_bind fun _ => returns_bind fun _ => returns_bind fun _ => decodeBody_returns

/-- After the handshake, `decode` returns messages only. -/
theorem decode_isMessage {codec : ECIESCodec c} (h : codec.Established) {buf : Bytes} {v : Option IngressECIESValue}
    {s' : Decoding c} (hr : decode.run ⟨codec, buf⟩ = .ok v s') : IsMessage v := by
  rcases h.state with hs | ⟨hs, -⟩
  · rw [run_decode_header hs] at hr
    exact decodeHeader_returns _ _ _ hr
  · rw [run_decode_body hs] at hr
    exact decodeBody_returns _ _ _ hr

/-- What a reader of an established session sees: messages and errors. -/
inductive Seen : Except (Stop IoError) IngressECIESValue → Prop
  | message (m : Bytes) : Seen (.ok (.message m))
  | error (e : IoError) : Seen (.error (.err e))

theorem feed_seen {codec : ECIESCodec c} (h : codec.Established) (buf : Bytes) (chunks : List Bytes) :
    ∀ o ∈ (decoder.feed codec buf chunks).1, Seen o := by
  refine Incremental.forall_mem_feed (I := ECIESCodec.Established) ?_ ?_ ?_ h buf chunks
  · intro codec buf v h hv
    cases hr : decode.run ⟨codec, buf⟩ with
    | ok r s' =>
      simp only [decoder, hr] at hv
      cases r with
      | none => cases hv
      | some v' =>
        cases hv
        obtain ⟨m, rfl⟩ := decode_isMessage h hr _ rfl
        exact .message m
    | error e s' =>
      simp only [decoder, hr] at hv
      cases hv
  · intro codec buf e h he
    have hsafe := Prog.wp_not_panics (decode_safe (s := ⟨codec, buf⟩) h)
    cases hr : decode.run ⟨codec, buf⟩ with
    | ok r s' =>
      simp only [decoder, hr] at he
      cases r <;> cases he
    | error e' s' =>
      simp only [decoder, hr] at he
      cases he
      cases e with
      | err e => exact .error e
      | panic => exact absurd ⟨s', hr⟩ hsafe
  · intro codec buf h
    have hsafe := decode_safe (s := ⟨codec, buf⟩) h
    simp only [KeepsEstablished, Prog.wp] at hsafe
    simp only [decoder]
    rcases hr : decode.run ⟨codec, buf⟩ with ⟨_ | _, s'⟩ | ⟨_ | _, s'⟩ <;> simp only [hr] at hsafe <;> exact hsafe

/-- There is nothing to decode in an empty buffer. -/
theorem run_decode_nil {codec : ECIESCodec c} (h : codec.Established) :
    decode.run ⟨codec, []⟩ = .ok none ⟨codec, []⟩ := by
  rcases h.state with hs | ⟨hs, hb⟩
  · rw [run_decode_header hs, decodeHeader, Prog.run_bind_ok (EStateM.run_get _), if_pos (by simp [ECIES.headerLen])]
    rfl
  · obtain ⟨size, hb⟩ := Option.isSome_iff_exists.1 hb
    rw [run_decode_body hs, decodeBody, Prog.run_bind_ok (run_inDecode (s := ⟨codec, []⟩) (ECIES.run_bodyLen hb)),
      Prog.run_bind_ok (EStateM.run_get _), if_pos (by simp)]
    rfl

/-- **The messages do not depend on the chunks.** In whatever chunks a stream reaches an established session, draining
the codec after each chunk returns messages and errors only; up to the first error they are those of the whole stream
at once, and without an error the codec and the buffer end the same. A call that waits has consumed a whole header and
nothing else, or has changed nothing. -/
theorem decode_chunking {codec : ECIESCodec c} (h : codec.Established) :
    (∀ (buf : Bytes) (chunks : List Bytes), buf = [] ∨ chunks ≠ [] →
      (∀ o ∈ (decoder.feed codec buf chunks).1, Seen o) ∧
      Incremental.untilError (decoder.feed codec buf chunks).1 =
        Incremental.untilError (decoder.feed codec buf [chunks.flatten]).1 ∧
      (Incremental.Clean (decoder.feed codec buf chunks).1 →
        (decoder.feed codec buf chunks).2 = (decoder.feed codec buf [chunks.flatten]).2)) ∧
    ∀ (buf : Bytes) (s' : Decoding c), decode.run ⟨codec, buf⟩ = .ok none s' → Waits ⟨codec, buf⟩ s' := by
  refine ⟨fun buf chunks hne => ⟨feed_seen h buf chunks, ?_⟩, fun buf s' hr => ?_⟩
  · by_cases hc : chunks = []
    · subst hc
      obtain rfl := hne.resolve_right fun h => h rfl
      have hwait : decoder.call codec [] = (.wait, codec, []) := congrArg outcome (run_decode_nil h)
      simp [Incremental.feed, Incremental.drain_wait hwait]
    · exact Incremental.feed_flatten codec buf hc
  · rcases decode_cases ⟨codec, buf⟩ with ⟨t, ht, hw, -⟩ | hc
    · rw [hr] at ht
      cases ht
      exact hw
    · exact absurd hr (hc.ne_none s')

/-- Draining the bytes of some frames returns their messages. -/
theorem drain_carries {pending : List Bytes} {tx : ECIES.Half} : ∀ {codec : ECIESCodec c} {buf : Bytes},
    Carries codec buf pending tx → (decoder.drain codec buf).1 = pending.map fun m => .ok (.message m) := by
  induction pending with
  | nil =>
    intro codec buf hc
    rw [← List.append_nil buf] at hc
    cases decode_carries hc with
    | wait codec' buf' hrun => rw [Incremental.drain_wait (congrArg outcome hrun), List.map_nil]
    | message _ _ _ _ hp => cases hp
  | cons m pending ih =>
    intro codec buf hc
    rw [← List.append_nil buf] at hc
    cases decode_carries hc with
    | wait _ _ _ _ _ hw => cases hw rfl
    | message codec' buf' m' rest hp hrun hc =>
      cases hp
      rw [List.append_nil] at hc
      rw [Incremental.drain_value (congrArg outcome hrun), ih hc, List.map_cons]

theorem feed_carries {codec : ECIESCodec c} {stream : Bytes} {pending : List Bytes} {tx : ECIES.Half}
    (hc : Carries codec stream pending tx) :
    (decoder.feed codec [] [stream]).1 = pending.map fun m => .ok (.message m) := by
  rw [Incremental.feed, Incremental.feed, List.nil_append, List.append_nil, drain_carries hc]

section Example

open ECIES Software

/-- What a client writes its first frames with. -/
def exampleSender : Half := ⟨Aes256Ctr.new (FixedBytes.zero 32) (FixedBytes.zero 16), MAC.new (FixedBytes.zero 32)⟩

/-- The session of its server, before the first frame. -/
def exampleSession : ECIESCodec crates where
  ecies := { ECIES.newStaticServer serverKey (FixedBytes.zero 32) serverEphemeralKey with
    ingressAes := some exampleSender.aes
    ingressMac := some exampleSender.mac }
  state := .header

/-- A ping and a pong, each in a frame of 64 bytes. -/
def pingPongFrames : Bytes := exampleSender.frames crates [[0x02, 0xc0], [0x03, 0xc0]]

/-- The first chunk ends in the body of the ping, the second in the header of the pong. -/
theorem decode_chunking_example : Incremental.untilError (decoder.feed exampleSession []
    [pingPongFrames.take 40, (pingPongFrames.drop 40).take 32, pingPongFrames.drop 72]).1 =
      [.ok (.message [0x02, 0xc0]), .ok (.message [0x03, 0xc0])] := by
  have hestablished : exampleSession.Established := ⟨by rfl, by rfl, .inl rfl⟩
  have hcarries : Carries exampleSession pingPongFrames [[0x02, 0xc0], [0x03, 0xc0]] _ :=
    .header rfl ⟨rfl, rfl⟩ (by decide)
  have hwhole : [pingPongFrames.take 40, (pingPongFrames.drop 40).take 32, pingPongFrames.drop 72].flatten =
      pingPongFrames := by
    have hrest : pingPongFrames.drop 72 = (pingPongFrames.drop 40).drop 32 := by rw [List.drop_drop]
    rw [hrest, List.flatten_cons, List.flatten_cons, List.flatten_cons, List.flatten_nil, List.append_nil,
      List.take_append_drop, List.take_append_drop]
  rw [((decode_chunking hestablished).1 [] _ (.inl rfl)).2.1, hwhole, feed_carries hcarries]
  rfl

end Example

end ECIESCodec

end EthereumSentry
