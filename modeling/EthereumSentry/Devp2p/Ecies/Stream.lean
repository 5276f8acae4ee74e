import EthereumSentry.Devp2p.Ecies.Proto

/-!
# The ECIES stream

`ECIESStream` of `ecies/proto.rs`: the codec over a transport. The loop of `Framed` decodes from its buffer, and reads
from the transport when there is no frame in it; a read of no bytes is the end of the transport. Once the handshake is
complete (`Established`), whatever bytes arrive, polling does not panic (`ECIESStream.pollNext_safe`).
-/

set_option autoImplicit false

namespace EthereumSentry

/-- `Poll`. -/
inductive Poll (α : Type) where
  | pending
  | ready (a : α)
  deriving DecidableEq, Repr

structure ECIESStream (c : Crates) where
  rx : Decoding c
  /-- What the next reads of the transport return. -/
  reads : List Bytes
  readable : Bool
  eof : Bool
  written : Bytes
  remoteId : PeerId

namespace ECIESStream

variable {c : Crates}

/-- Run `decode` on the buffer. -/
def inStream {α : Type} (x : Prog IoError (Decoding c) α) : Prog IoError (ECIESStream c) α :=
  Prog.zoom (·.rx) (fun d s => { s with rx := d }) id x

theorem run_inStream {α : Type} {x : Prog IoError (Decoding c) α} {s : ECIESStream c} {a : α} {d : Decoding c}
    (h : x.run s.rx = .ok a d) : (inStream x).run s = .ok a { s with rx := d } := Prog.run_zoom_ok h

/-- `decode_eof`. -/
def decodeEof : Prog IoError (ECIESStream c) (Option IngressECIESValue) := do
  match ← inStream ECIESCodec.decode with
  | some v => pure (some v)
  | none => do
    let s ← get
    if s.rx.buf = [] then pure none else Prog.fail (.other "bytes remaining on stream")

/-- What `Framed` decodes before it reads; nothing when it has to read. -/
def pollDecode : Prog IoError (ECIESStream c) (Option (Option IngressECIESValue)) := do
  let s ← get
  if s.readable then
    if s.eof then do
      let v ← decodeEof
      pure (some v)
    else
      match ← inStream ECIESCodec.decode with
      | some v => pure (some (some v))
      | none => do
        modify fun s => { s with readable := false }
        pure none
  else pure none

/-- `poll_next` of `Framed`, with the reads that are ready. -/
def pollFramed : List Bytes → Prog IoError (ECIESStream c) (Poll (Option IngressECIESValue))
  | [] => do
    match ← pollDecode with
    | some v => pure (.ready v)
    | none => pure .pending
  | read :: rest => do
    match ← pollDecode with
    | some v => pure (.ready v)
    | none => do
      modify fun s => { s with
        rx := { s.rx with buf := s.rx.buf ++ read }, reads := rest, eof := read.isEmpty, readable := true }
      pollFramed rest

/-- `poll_next`. -/
def pollNext : Prog IoError (ECIESStream c) (Poll (Option Bytes)) := fun s =>
  match (pollFramed s.reads).run s with
  | .ok .pending s => .ok .pending s
  | .ok (.ready none) s => .ok (.ready none) s
  | .ok (.ready (some (.message body))) s => .ok (.ready (some body)) s
  | .ok (.ready (some v)) s => .error (.err (.unexpectedValue v)) s
  | .error (.err e) s => .error (.err (.unexpectedError e)) s
  | .error .panic s => .error .panic s

/-- `start_send`. -/
def startSend (item : Bytes) : Prog IoError (ECIESStream c) Unit := do
  let out ← Prog.zoom (·.rx.codec) (fun codec s => { s with rx := { s.rx with codec := codec } }) id
    (ECIESCodec.encode (.message item))
  modify fun s => { s with written := s.written ++ out }

end ECIESStream

/-! ## An established session does not panic on what it reads -/

/-- The handshake is complete, and a header has been read when a body is next. -/
structure ECIESCodec.Established {c : Crates} (codec : ECIESCodec c) : Prop where
  aes : codec.ecies.ingressAes.isSome
  mac : codec.ecies.ingressMac.isSome
  state : codec.state = .header ∨ codec.state = .body ∧ codec.ecies.bodySize.isSome

namespace ECIES

variable {c : Crates}

/-- The ingress side is set up. -/
def CanRead (s : ECIES c) : Prop := s.ingressAes.isSome ∧ s.ingressMac.isSome

theorem wp_decrypt {s : ECIES c} (hs : s.CanRead) (data : Bytes) {Q : Bytes → ECIES c → Prop} {E : ECIES c → Prop}
    (hQ : ∀ out s', out.length = data.length → s'.CanRead → s'.bodySize = s.bodySize → Q out s') :
    Prog.wp (decrypt data) Q E s := by
  obtain ⟨aes, haes⟩ := Option.isSome_iff_exists.1 hs.1
  simp only [decrypt, Prog.wp_bind, Prog.wp_get, Prog.wp_unwrap, Prog.wp_modify, Prog.wp_pure]
  exact ⟨aes, haes, hQ _ _ (by simp) ⟨rfl, hs.2⟩ rfl⟩

theorem wp_ingressTag {s : ECIES c} (hs : s.CanRead) (f : MAC → MAC) {Q : H128 → ECIES c → Prop} {E : ECIES c → Prop}
    (hQ : ∀ tag s', s'.CanRead → s'.bodySize = s.bodySize → Q tag s') : Prog.wp (ingressTag f) Q E s := by
  obtain ⟨mac, hmac⟩ := Option.isSome_iff_exists.1 hs.2
  simp only [ingressTag, Prog.wp_bind, Prog.wp_get, Prog.wp_unwrap, Prog.wp_modify, Prog.wp_pure]
  exact ⟨mac, hmac, hQ _ _ ⟨hs.1, rfl⟩ rfl⟩

/-- A header of the right length is read without a panic; it leaves a body size when it is accepted. -/
theorem readHeader_safe {s : ECIES c} (hs : s.CanRead) {data : Bytes} (hl : data.length = headerLen) :
    Prog.wp (readHeader data) (fun _ s' => s'.CanRead ∧ s'.bodySize.isSome) CanRead s := by
  unfold headerLen at hl
  simp only [readHeader, Prog.wp_bind, Prog.wp_splitAt, Prog.wp_unwrap]
  refine ⟨by omega, _, FixedBytes.ofBytes?_eq_some (by simp; omega), by simp; omega, _,
    FixedBytes.ofBytes?_eq_some (by simp; omega), wp_ingressTag hs _ fun tag s₁ h₁ _ => ?_⟩
  simp only [Prog.wp_ite, Prog.wp_fail, Prog.wp_bind]
  split
  · exact h₁
  · exact wp_decrypt h₁ _ fun out s₂ _ h₂ _ => ⟨h₂, rfl⟩

/-- A body of the announced length is read without a panic: the announced bytes are within the padded ones. -/
theorem readBody_safe {s : ECIES c} (hs : s.CanRead) {data : Bytes} {size : Nat} (hb : s.bodySize = some size)
    (hl : data.length = paddedLen size + 16) :
    Prog.wp (readBody data) (fun _ s' => s'.CanRead) (fun s' => s'.CanRead ∧ s'.bodySize.isSome) s := by
  have hpad : size ≤ paddedLen size := by
    unfold paddedLen
    split <;> omega
  simp only [readBody, Prog.wp_bind, Prog.wp_sub, Prog.wp_splitAt, Prog.wp_unwrap]
  refine ⟨by omega, by omega, _, FixedBytes.ofBytes?_eq_some (by simp; omega),
    wp_ingressTag hs _ fun tag s₁ h₁ hb₁ => ?_⟩
  simp only [Prog.wp_ite, Prog.wp_fail, Prog.wp_bind, Prog.wp_get, Prog.wp_unwrap, Prog.wp_modify]
  split
  · exact ⟨h₁, by rw [hb₁, hb]; rfl⟩
  · refine ⟨size, by rw [hb₁, hb], wp_decrypt (s := { s₁ with bodySize := none }) h₁ _ fun out s₂ hlen h₂ _ => ?_⟩
    refine (Prog.wp_bind _ _ _ _ _).2 ((Prog.wp_splitAt _ _ _ _ _).2 ⟨?_, h₂⟩)
    rw [hlen, List.length_take]
    omega

end ECIES

namespace ECIESCodec

variable {c : Crates}

theorem wp_splitTo {n : Nat} {Q : Bytes → Decoding c → Prop} {E : Decoding c → Prop} {s : Decoding c} :
    Prog.wp (splitTo n) Q E s ↔ n ≤ s.buf.length ∧ Q (s.buf.take n) { s with buf := s.buf.drop n } := by
  simp only [splitTo, Prog.wp_bind, Prog.wp_get, Prog.wp_splitAt, Prog.wp_modify, Prog.wp_pure]

theorem wp_inDecode {α : Type} {x : Prog ECIESError (ECIES c) α} {Q : α → Decoding c → Prop}
    {E : Decoding c → Prop} {s : Decoding c} :
    Prog.wp (inDecode x) Q E s ↔ Prog.wp x (fun a e => Q a { s with codec := { s.codec with ecies := e } })
      (fun e => E { s with codec := { s.codec with ecies := e } }) s.codec.ecies := by
  simp only [inDecode, Prog.wp_zoom]

theorem wp_setState {state : ECIESState} {Q : Unit → Decoding c → Prop} {E : Decoding c → Prop} {s : Decoding c} :
    Prog.wp (setState state) Q E s ↔ Q () { s with codec := { s.codec with state := state } } := by
  simp only [setState, Prog.wp_modify]

/-- The outcomes of `decode` keep the session established. -/
abbrev KeepsEstablished (x : Prog IoError (Decoding c) (Option IngressECIESValue)) (s : Decoding c) : Prop :=
  Prog.wp x (fun _ s' => s'.codec.Established) (fun s' => s'.codec.Established) s

theorem decodeBody_safe {s : Decoding c} (hr : s.codec.ecies.CanRead) (hb : s.codec.ecies.bodySize.isSome)
    (hs : s.codec.state = .body) : KeepsEstablished decodeBody s := by
  obtain ⟨size, hb⟩ := Option.isSome_iff_exists.1 hb
  simp only [KeepsEstablished, decodeBody, Prog.wp_bind, wp_inDecode, ECIES.bodyLen, Prog.wp_get, Prog.wp_unwrap,
    Prog.wp_pure, Prog.wp_ite, wp_splitTo, wp_setState]
  refine ⟨size, hb, ?_⟩
  split
  · exact ⟨hr.1, hr.2, .inr ⟨hs, by rw [hb]; rfl⟩⟩
  · refine ⟨by omega, Prog.wp_mono (ECIES.readBody_safe hr hb (by rw [List.length_take]; omega)) ?_ ?_⟩
    · exact fun _ _ h => ⟨h.1, h.2, .inl rfl⟩
    · exact fun _ h => ⟨h.1.1, h.1.2, .inr ⟨hs, h.2⟩⟩

theorem decodeHeader_safe {s : Decoding c} (hr : s.codec.ecies.CanRead) (hs : s.codec.state = .header) :
    KeepsEstablished decodeHeader s := by
  simp only [KeepsEstablished, decodeHeader, Prog.wp_bind, wp_inDecode, Prog.wp_get, Prog.wp_pure, Prog.wp_ite,
    wp_splitTo, wp_setState]
  split
  · exact ⟨hr.1, hr.2, .inl hs⟩
  · refine ⟨by omega, Prog.wp_mono (ECIES.readHeader_safe hr (by rw [List.length_take]; omega)) ?_ ?_⟩
    · exact fun _ _ h => decodeBody_safe h.1 h.2 rfl
    · exact fun _ h => ⟨h.1, h.2, .inl hs⟩

/-- **`decode` on an established session** does not panic, whatever is in the buffer, and the session stays
established. -/
theorem decode_safe {s : Decoding c} (h : s.codec.Established) : KeepsEstablished decode s := by
  simp only [KeepsEstablished, decode, Prog.wp_bind, Prog.wp_get]
  rcases h.state with hs | ⟨hs, hb⟩
  · simp only [hs]
    exact decodeHeader_safe ⟨h.aes, h.mac⟩ hs
  · simp only [hs]
    exact decodeBody_safe ⟨h.aes, h.mac⟩ hb hs

end ECIESCodec

/-! ## Reading does not touch what is written with -/

namespace ECIES

variable {c : Crates}

/-- What a state writes with. -/
def egress (s : ECIES c) : Option Aes256Ctr × Option MAC := (s.egressAes, s.egressMac)

theorem spares_decrypt (data : Bytes) : Prog.Spares egress (decrypt data : Prog ECIESError (ECIES c) Bytes) :=
  Prog.spares_bind Prog.keeps_get.spares fun _ => Prog.spares_bind (Prog.keeps_unwrap _).spares fun _ =>
    Prog.spares_bind (Prog.spares_modify fun _ => rfl) fun _ => (Prog.keeps_pure _).spares

theorem spares_ingressTag (f : MAC → MAC) : Prog.Spares egress (ingressTag f : Prog ECIESError (ECIES c) H128) :=
  Prog.spares_bind Prog.keeps_get.spares fun _ => Prog.spares_bind (Prog.keeps_unwrap _).spares fun _ =>
    Prog.spares_bind (Prog.spares_modify fun _ => rfl) fun _ => (Prog.keeps_pure _).spares

theorem spares_readHeader (data : Bytes) : Prog.Spares egress (readHeader data : Prog ECIESError (ECIES c) Nat) :=
  Prog.spares_bind (Prog.keeps_splitAt _ _).spares fun _ => Prog.spares_bind (Prog.keeps_unwrap _).spares fun _ =>
    Prog.spares_bind (Prog.keeps_splitAt _ _).spares fun _ => Prog.spares_bind (Prog.keeps_unwrap _).spares fun _ =>
    Prog.spares_bind (spares_ingressTag _) fun _ => Prog.spares_ite (Prog.keeps_fail _).spares <|
    Prog.spares_bind (spares_decrypt _) fun _ => Prog.spares_bind (Prog.spares_modify fun _ => rfl) fun _ =>
    (Prog.keeps_pure _).spares

theorem spares_bodyLen : Prog.Spares egress (bodyLen : Prog ECIESError (ECIES c) Nat) :=
  Prog.spares_bind Prog.keeps_get.spares fun _ => Prog.spares_bind (Prog.keeps_unwrap _).spares fun _ =>
    (Prog.keeps_pure _).spares

theorem spares_readBody (data : Bytes) : Prog.Spares egress (readBody data : Prog ECIESError (ECIES c) Bytes) :=
  Prog.spares_bind (Prog.keeps_sub _ _).spares fun _ => Prog.spares_bind (Prog.keeps_splitAt _ _).spares fun _ =>
    Prog.spares_bind (Prog.keeps_unwrap _).spares fun _ => Prog.spares_bind (spares_ingressTag _) fun _ =>
    Prog.spares_ite (Prog.keeps_fail _).spares <| Prog.spares_bind Prog.keeps_get.spares fun _ =>
    Prog.spares_bind (Prog.keeps_unwrap _).spares fun _ => Prog.spares_bind (Prog.spares_modify fun _ => rfl) fun _ =>
    Prog.spares_bind (spares_decrypt _) fun _ => Prog.spares_bind (Prog.keeps_splitAt _ _).spares fun _ =>
    (Prog.keeps_pure _).spares

end ECIES

namespace ECIESCodec

variable {c : Crates}

open ECIES

theorem run_decode_body {s : Decoding c} (hs : s.codec.state = .body) : decode.run s = decodeBody.run s := by
  rw [decode, Prog.run_bind_ok (EStateM.run_get _)]
  simp only [hs]

theorem run_decode_header {s : Decoding c} (hs : s.codec.state = .header) : decode.run s = decodeHeader.run s := by
  rw [decode, Prog.run_bind_ok (EStateM.run_get _)]
  simp only [hs]

theorem spares_inDecode {α : Type} {x : Prog ECIESError (ECIES c) α} (hx : Prog.Spares egress x) :
    Prog.Spares (egress ·.codec.ecies) (inDecode x) := Prog.spares_zoom hx fun _ _ h => h

theorem spares_splitTo (n : Nat) : Prog.Spares (egress ·.codec.ecies) (splitTo n : Prog IoError (Decoding c) Bytes) :=
  Prog.spares_bind Prog.keeps_get.spares fun _ => Prog.spares_bind (Prog.keeps_splitAt _ _).spares fun _ =>
    Prog.spares_bind (Prog.spares_modify fun _ => rfl) fun _ => (Prog.keeps_pure _).spares

theorem spares_setState (state : ECIESState) :
    Prog.Spares (egress ·.codec.ecies) (setState state : Prog IoError (Decoding c) Unit) :=
  Prog.spares_modify fun _ => rfl

theorem spares_decodeBody : Prog.Spares (egress ·.codec.ecies) (decodeBody : Prog IoError (Decoding c) _) :=
  Prog.spares_bind (spares_inDecode spares_bodyLen) fun _ => Prog.spares_bind Prog.keeps_get.spares fun _ =>
    Prog.spares_ite (Prog.keeps_pure _).spares <| Prog.spares_bind (spares_splitTo _) fun _ =>
    Prog.spares_bind (spares_inDecode (spares_readBody _)) fun _ => Prog.spares_bind (spares_setState _) fun _ =>
    (Prog.keeps_pure _).spares

theorem spares_decodeHeader : Prog.Spares (egress ·.codec.ecies) (decodeHeader : Prog IoError (Decoding c) _) :=
  Prog.spares_bind Prog.keeps_get.spares fun _ => Prog.spares_ite (Prog.keeps_pure _).spares <|
    Prog.spares_bind (spares_splitTo _) fun _ => Prog.spares_bind (spares_inDecode (spares_readHeader _)) fun _ =>
    Prog.spares_bind (spares_setState _) fun _ => spares_decodeBody

theorem egress_of_decode {s s' : Decoding c} {v : Option IngressECIESValue} (hs : s.codec.Established)
    (hrun : decode.run s = .ok v s') :
    egress s'.codec.ecies = egress s.codec.ecies := by
  rcases hs.state with hs | ⟨hs, -⟩
  · rw [run_decode_header hs] at hrun
    exact spares_decodeHeader _ _ _ hrun
  · rw [run_decode_body hs] at hrun
    exact spares_decodeBody _ _ _ hrun

end ECIESCodec

/-! ## Polling -/

namespace ECIESStream

variable {c : Crates}

/-- The session of the stream is established. -/
def Established (s : ECIESStream c) : Prop := s.rx.codec.Established

section Invariant

/-! What every call of `decode` keeps of the codec, polling keeps; less may be known after an error. -/

variable {I E : ECIESCodec c → Prop} (hE : ∀ codec, I codec → E codec)
  (hI : ∀ d : Decoding c, I d.codec → Prog.wp ECIESCodec.decode (fun _ d' => I d'.codec) (fun d' => E d'.codec) d)

include hI in
theorem inStream_decode_keeps {s : ECIESStream c} (h : I s.rx.codec) :
    Prog.wp (inStream ECIESCodec.decode) (fun _ s' => I s'.rx.codec) (fun s' => E s'.rx.codec) s := by
  simp only [inStream, Prog.wp_zoom]
  exact hI _ h

include hE hI

theorem pollDecode_keeps {s : ECIESStream c} (h : I s.rx.codec) :
    Prog.wp pollDecode (fun _ s' => I s'.rx.codec) (fun s' => E s'.rx.codec) s := by
  simp only [pollDecode, decodeEof, Prog.wp_bind, Prog.wp_get, Prog.wp_ite, Prog.wp_pure]
  split
  · split
    · refine Prog.wp_mono (inStream_decode_keeps hI h) (fun v s' h' => ?_) fun _ h' => h'
      cases v with
      | some v => exact h'
      | none =>
        simp only [Prog.wp_bind, Prog.wp_get, Prog.wp_ite, Prog.wp_pure, Prog.wp_fail]
        split
        · exact h'
        · exact hE _ h'
    · refine Prog.wp_mono (inStream_decode_keeps hI h) (fun v s' h' => ?_) fun _ h' => h'
      cases v with
      | some v => exact h'
      | none => exact h'
  · exact h

theorem pollFramed_keeps : ∀ (reads : List Bytes) {s : ECIESStream c}, I s.rx.codec →
    Prog.wp (pollFramed reads) (fun _ s' => I s'.rx.codec) (fun s' => E s'.rx.codec) s
  | [], s, h => by
    simp only [pollFramed, Prog.wp_bind]
    refine Prog.wp_mono (pollDecode_keeps hE hI h) (fun v s' h' => ?_) fun _ h' => h'
    cases v <;> exact h'
  | read :: rest, s, h => by
    simp only [pollFramed, Prog.wp_bind]
    refine Prog.wp_mono (pollDecode_keeps hE hI h) (fun v s' h' => ?_) fun _ h' => h'
    cases v with
    | some v => exact h'
    | none =>
      simp only [Prog.wp_bind, Prog.wp_modify]
      exact pollFramed_keeps rest h'

theorem pollNext_keeps {s : ECIESStream c} (h : I s.rx.codec) :
    Prog.wp pollNext (fun _ s' => I s'.rx.codec) (fun s' => E s'.rx.codec) s := by
  have hf := pollFramed_keeps hE hI s.reads h
  simp only [Prog.wp, pollNext, EStateM.run] at hf ⊢
  -- a value that is not expected is an error
  rcases hr : pollFramed s.reads s with ⟨_ | _ | _ | _, s'⟩ | ⟨_ | _, s'⟩ <;> simp only [hr] at hf ⊢ <;>
    first | exact hf | exact hE _ hf

end Invariant

/-- **Polling an established stream** does not panic, whatever arrives; the stream stays established, and writes with
what it has written with. -/
theorem pollNext_safe {s : ECIESStream c} (h : s.Established) :
    Prog.wp pollNext (fun _ s' => s'.Established ∧ s'.rx.codec.ecies.egress = s.rx.codec.ecies.egress)
      Established s :=
  pollNext_keeps (I := fun codec => codec.Established ∧ codec.ecies.egress = s.rx.codec.ecies.egress)
    (fun _ => And.left) (fun _ ⟨hd, he⟩ => Prog.wp_and_of_run (ECIESCodec.decode_safe hd) fun _ _ hrun =>
      (ECIESCodec.egress_of_decode hd hrun).trans he) ⟨h, rfl⟩

end ECIESStream

end EthereumSentry
