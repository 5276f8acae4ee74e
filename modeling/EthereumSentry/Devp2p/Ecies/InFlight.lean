import EthereumSentry.Devp2p.Ecies.Frames
import EthereumSentry.Devp2p.Ecies.Stream

/-!
# Bytes in flight

The ECIES stream of a reader whose next bytes are known: they are in its buffer, in its next reads, or further away
(`ECIESStream.Inbound`). When decoding a part of them waits or returns the next value, polling the stream does too
(`ECIESStream.pollFramed_inbound`). The frames that were written and not yet returned are such bytes
(`ECIESStream.Expects`): polling returns the next of them or waits, and never fails (`ECIESStream.pollNext_expects`).
-/

set_option autoImplicit false

namespace EthereumSentry

open ECIES ECIESCodec

namespace ECIESStream

variable {c : Crates} {s s' : ECIESStream c} {wire : Bytes} {pending : List Bytes} {tx : Half}
  {J : ECIESCodec c → Bytes → Prop} {V : IngressECIESValue → ECIESCodec c → Bytes → Prop} {dry dry' : Prop}

/-! ## A reader with some bytes to come -/

/-- The codec and the bytes to come are related; `dry` says that there is no value in them. -/
structure Inbound (J : ECIESCodec c → Bytes → Prop) (dry : Prop) (s : ECIESStream c) (wire : Bytes) : Prop where
  bytes : J s.rx.codec (s.rx.buf ++ (s.reads.flatten ++ wire))
  /-- No read is the end of the transport. -/
  reads : ∀ read ∈ s.reads, read ≠ []
  eof : s.eof = false
  /-- There was no value in the buffer when it was last decoded. -/
  drained : s.readable = false → s.reads.flatten ++ wire = [] → dry

/-- Decoding a part of the bytes waits, or returns the next value; it waits for nothing when all bytes have arrived and
there is a value in them. -/
def Decodes (J : ECIESCodec c → Bytes → Prop) (V : IngressECIESValue → ECIESCodec c → Bytes → Prop)
    (dry : Prop) : Prop :=
  ∀ codec buf rest, J codec (buf ++ rest) →
    (∃ codec' buf', decode.run ⟨codec, buf⟩ = .ok none ⟨codec', buf'⟩ ∧ J codec' (buf' ++ rest) ∧ (rest = [] → dry)) ∨
    ∃ v codec' buf', decode.run ⟨codec, buf⟩ = .ok (some v) ⟨codec', buf'⟩ ∧ V v codec' (buf' ++ rest)

theorem Inbound.imp {J' : ECIESCodec c → Bytes → Prop} (h : s.Inbound J dry wire)
    (hJ : J s.rx.codec (s.rx.buf ++ (s.reads.flatten ++ wire)) →
      J' s.rx.codec (s.rx.buf ++ (s.reads.flatten ++ wire))) (hdry : dry → dry') : s.Inbound J' dry' wire :=
  ⟨hJ h.bytes, h.reads, h.eof, fun hr hnone => hdry (h.drained hr hnone)⟩

/-- Some of the bytes arrive, as one read. -/
theorem Inbound.deliver (h : s.Inbound J dry wire) {n : Nat} (hn : 0 < n) (hw : n ≤ wire.length) :
    { s with reads := s.reads ++ [wire.take n] }.Inbound J dry (wire.drop n) where
  bytes := by
    have hb := h.bytes
    rw [← List.take_append_drop n wire] at hb
    simpa only [List.flatten_append, List.flatten_cons, List.flatten_nil, List.append_nil, List.append_assoc] using hb
  reads read hr := by
    rcases List.mem_append.1 hr with hr | hr
    · exact h.reads read hr
    · rw [List.mem_singleton.1 hr, Ne, List.take_eq_nil_iff]
      rintro (rfl | rfl)
      · omega
      · simp at hw
        omega
  eof := h.eof
  drained hr hnone := h.drained hr (by
    simpa only [List.flatten_append, List.flatten_cons, List.flatten_nil, List.append_nil, List.append_assoc,
      List.take_append_drop] using hnone)

/-- What was written is handed to the network. -/
theorem Inbound.flushed (h : s.Inbound J dry wire) (out : Bytes) : { s with written := out }.Inbound J dry wire :=
  ⟨h.bytes, h.reads, h.eof, h.drained⟩

/-- Reading leaves what the stream has written, and the remote id. -/
structure Aside (s s' : ECIESStream c) : Prop where
  written : s'.written = s.written
  remoteId : s'.remoteId = s.remoteId

/-! ## Polling the reader -/

/-- What polling has come to: the next value, or waiting for bytes that are further away. -/
def Came (J : ECIESCodec c → Bytes → Prop) (V : IngressECIESValue → ECIESCodec c → Bytes → Prop) (dry : Prop)
    (wire : Bytes) : Poll (Option IngressECIESValue) → ECIESStream c → Prop
  | .pending, s' => s'.Inbound J dry wire ∧ (wire = [] → dry)
  | .ready (some v), s' => s'.Inbound (V v) False wire
  | .ready none, _ => False

/-- The buffer is decoded, or has been. -/
theorem pollDecode_inbound (hJ : Decodes J V dry) (h : s.Inbound J dry wire) :
    Prog.wp pollDecode (fun v s' => s.Aside s' ∧ match v with
      | none => s'.Inbound J dry wire ∧ s'.reads = s.reads ∧ s'.readable = false
      | some v => Came J V dry wire (.ready v) s') (fun _ => False) s := by
  obtain ⟨⟨codec, buf⟩, reads, readable, eof, written, remoteId⟩ := s
  have heof := h.eof
  dsimp only at heof
  subst heof
  cases readable with
  | false =>
    simp only [pollDecode, Prog.wp_bind, Prog.wp_get, Bool.false_eq_true, ↓reduceIte, Prog.wp_pure]
    exact ⟨⟨rfl, rfl⟩, h, trivial, trivial⟩
  | true =>
    simp only [pollDecode, Prog.wp_bind, Prog.wp_get, ↓reduceIte, Bool.false_eq_true, inStream, Prog.wp_zoom]
    rcases hJ codec buf _ h.bytes with ⟨codec', buf', hrun, hb, hdry⟩ | ⟨v, codec', buf', hrun, hb⟩
    · rw [Prog.wp_of_run hrun]
      exact ⟨⟨rfl, rfl⟩, ⟨hb, h.reads, rfl, fun _ => hdry⟩, rfl, rfl⟩
    · rw [Prog.wp_of_run hrun]
      exact ⟨⟨rfl, rfl⟩, hb, h.reads, rfl, by simp⟩

/-- **Polling the reader** decodes what has arrived, read by read. -/
theorem pollFramed_inbound (hJ : Decodes J V dry) : ∀ {reads : List Bytes} {s : ECIESStream c}, s.reads = reads →
    s.Inbound J dry wire →
    Prog.wp (pollFramed reads) (fun v s' => s.Aside s' ∧ Came J V dry wire v s') (fun _ => False) s := by
  intro reads
  induction reads with
  | nil =>
    intro s hreads h
    simp only [pollFramed, Prog.wp_bind]
    refine Prog.wp_mono (pollDecode_inbound hJ h) (fun v s' hd => ?_) fun _ h => h
    cases v with
    | none =>
      obtain ⟨ha, he, hsame, hreadable⟩ := hd
      refine ⟨ha, he, fun hwire => he.drained hreadable ?_⟩
      rw [hsame, hreads, hwire]
      rfl
    | some v => exact hd
  | cons read reads ih =>
    intro s hreads h
    simp only [pollFramed, Prog.wp_bind]
    refine Prog.wp_mono (pollDecode_inbound hJ h) (fun v s' hd => ?_) fun _ h => h
    cases v with
    | none =>
      obtain ⟨ha, he, hsame, -⟩ := hd
      have hs' : s'.reads = read :: reads := hsame.trans hreads
      have hne : read ≠ [] := he.reads read (by rw [hs']; exact List.mem_cons_self ..)
      simp only [Prog.wp_bind, Prog.wp_modify]
      refine Prog.wp_mono (ih rfl ⟨?_, ?_, ?_, by simp⟩) (fun v s'' hp => ?_) fun _ h => h
      · have hb := he.bytes
        rw [hs', List.flatten_cons, List.append_assoc] at hb
        rwa [List.append_assoc]
      · exact fun r hr => he.reads r (by rw [hs']; exact List.mem_cons_of_mem _ hr)
      · exact List.isEmpty_eq_false_iff.2 hne
      · exact ⟨⟨hp.1.written.trans ha.written, hp.1.remoteId.trans ha.remoteId⟩, hp.2⟩
    | some v => exact hd

/-! ## Frames in flight -/

/-- The reader will get the pending frames from its buffer, its reads and the bytes that are further away, and its half
is then that of the writer. -/
abbrev Expects (s : ECIESStream c) (wire : Bytes) (pending : List Bytes) (tx : Half) : Prop :=
  s.Inbound (fun codec bytes => Carries codec bytes pending tx) (pending = []) wire

/-- Reading leaves what the stream writes with, what it has written, and the remote id. -/
structure Reads (s s' : ECIESStream c) : Prop extends s.Aside s' where
  aes : s'.rx.codec.ecies.egressAes = s.rx.codec.ecies.egressAes
  mac : s'.rx.codec.ecies.egressMac = s.rx.codec.ecies.egressMac

/-- What the codec writes with. -/
def egress (codec : ECIESCodec c) : Option Aes256Ctr × Option MAC := (codec.ecies.egressAes, codec.ecies.egressMac)

/-- Decoding the bytes of some frames returns the next of them, or waits. -/
theorem decodes_frames (e : Option Aes256Ctr × Option MAC) (pending : List Bytes) (tx : Half) :
    Decodes (c := c) (fun codec bytes => Carries codec bytes pending tx ∧ egress codec = e)
      (fun v codec bytes => ∃ m rest, v = .message m ∧ pending = m :: rest ∧ Carries codec bytes rest tx ∧
        egress codec = e) (pending = []) := by
  rintro codec buf rest ⟨hc, rfl⟩
  cases decode_carries hc with
  | wait codec' buf' hrun hc he hwire => exact .inl ⟨codec', buf', hrun, ⟨hc, Prod.ext he.1 he.2⟩, hwire⟩
  | message codec' buf' m rest hp hrun hc he =>
    exact .inr ⟨.message m, codec', buf', hrun, m, rest, rfl, hp, hc, Prod.ext he.1 he.2⟩

/-- What polling the reader has come to: the next frame in flight, or waiting for bytes that are further away. -/
def Polls (s : ECIESStream c) (wire : Bytes) (pending : List Bytes) (tx : Half) :
    Poll (Option Bytes) → ECIESStream c → Prop
  | .pending, s' => s'.Expects wire pending tx ∧ s.Reads s' ∧ (wire = [] → pending = [])
  | .ready (some m), s' => ∃ rest, pending = m :: rest ∧ s'.Expects wire rest tx ∧ s.Reads s'
  | .ready none, _ => False

/-- **Polling the reader** returns the next frame in flight, or waits; it does not wait when every byte has come and a
frame is missing. -/
theorem pollNext_expects (h : s.Expects wire pending tx) :
    Prog.wp pollNext (s.Polls wire pending tx) (fun _ => False) s := by
  have hf := pollFramed_inbound (decodes_frames (egress s.rx.codec) pending tx) rfl (h.imp (⟨·, rfl⟩) id)
  simp only [Prog.wp, pollNext, EStateM.run] at hf ⊢
  rcases hr : pollFramed s.reads s with ⟨_ | _ | v, s'⟩ | ⟨_ | _, s'⟩ <;> simp only [hr] at hf ⊢
  · obtain ⟨ha, he, hwire⟩ := hf
    exact ⟨he.imp And.left id, ⟨ha, congrArg Prod.fst he.bytes.2, congrArg Prod.snd he.bytes.2⟩, hwire⟩
  · exact hf.2
  · obtain ⟨ha, he⟩ := hf
    obtain ⟨m, rest, rfl, hp, hc, hsame⟩ := he.bytes
    exact ⟨rest, hp, he.imp (fun _ => hc) False.elim, ha, congrArg Prod.fst hsame, congrArg Prod.snd hsame⟩

/-- One more frame is on its way. -/
theorem Expects.append (h : s.Expects wire pending tx) {m : Bytes} (hm : m.length < 2 ^ 24) :
    s.Expects (wire ++ tx.frame c m) (pending ++ [m]) (tx.next c m) where
  bytes := by
    have hc := h.bytes.append hm
    rwa [List.append_assoc, List.append_assoc] at hc
  reads := h.reads
  eof := h.eof
  drained _ hnone := by
    have hlen := congrArg List.length hnone
    simp only [List.length_append, Half.frame, Half.length_headerBytes, headerLen, List.length_nil] at hlen
    omega

/-- The reader does not depend on what it writes. -/
theorem Expects.writes (h : s.Expects wire pending tx) (half : Half) (out : Bytes) :
    { s with
      rx := { s.rx with codec := { s.rx.codec with ecies := s.rx.codec.ecies.withEgress half } }
      written := out }.Expects wire pending tx :=
  ⟨h.bytes.withEgress half, h.reads, h.eof, h.drained⟩

end ECIESStream

end EthereumSentry
