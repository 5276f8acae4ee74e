import EthereumSentry.Devp2p.Ecies.Frames
import EthereumSentry.Lib.Runs

/-!
# The session carries every message

Two ends of a connection after the handshake: each encodes messages into the stream towards the other, the streams
deliver bytes in parts of any size, and each decodes what has arrived. In every run, in whatever order these steps come
(`Duplex.step`), an end has received an initial part of what the other has sent, and its next `decode` returns the
next message or waits for bytes that are not there yet (`session_correct`).
-/

set_option autoImplicit false

namespace EthereumSentry

open ECIES ECIESCodec

variable {c : Crates}

/-- One end of a connection. -/
structure End (c : Crates) where
  codec : ECIESCodec c
  /-- Bytes that have arrived. -/
  buf : Bytes
  /-- Bytes on their way here. -/
  wire : Bytes
  sent : List Bytes
  received : List Bytes
  /-- A call has failed or panicked, or returned no message. -/
  failed : Bool

inductive Side where
  | client
  | server
  deriving DecidableEq, Repr

def Side.other : Side → Side
  | client => server
  | server => client

@[simp] theorem Side.other_other (x : Side) : x.other.other = x := by cases x <;> rfl

theorem Side.other_ne (x : Side) : x.other ≠ x := by cases x <;> decide

theorem Side.eq_or_eq_other (x y : Side) : x = y ∨ x = y.other := by cases x <;> cases y <;> decide

/-- Both ends. -/
abbrev Duplex (c : Crates) : Type := Side → End c

namespace Duplex

/-- The ends after the handshake. -/
def start (client server : ECIES c) : Duplex c
  | .client => ⟨⟨client, .header⟩, [], [], [], [], false⟩
  | .server => ⟨⟨server, .header⟩, [], [], [], [], false⟩

inductive Event where
  /-- An end encodes a message. -/
  | send (x : Side) (m : Bytes)
  /-- So many bytes arrive at an end. -/
  | deliver (x : Side) (n : Nat)
  /-- An end calls `decode`. -/
  | receive (x : Side)

/-- What an end keeps of a `decode`. -/
def End.decoded (e : End c) : EStateM.Result (Stop IoError) (Decoding c) (Option IngressECIESValue) → End c
  | .ok none s => { e with codec := s.codec, buf := s.buf }
  | .ok (some (.message m)) s => { e with codec := s.codec, buf := s.buf, received := e.received ++ [m] }
  | .ok (some _) s | .error _ s => { e with codec := s.codec, buf := s.buf, failed := true }

/-- One step; an end that has failed takes no more. -/
def step (d : Duplex c) : Event → Option (Duplex c)
  | .send x m =>
    if (d x).failed then none
    else match (encode (.message m)).run (d x).codec with
      | .ok out codec =>
        let d := Function.update d x { d x with codec := codec, sent := (d x).sent ++ [m] }
        some (Function.update d x.other { d x.other with wire := (d x.other).wire ++ out })
      | .error _ codec => some (Function.update d x { d x with codec := codec, failed := true })
  | .deliver x n =>
    if n ≤ (d x).wire.length then
      some (Function.update d x
        { d x with buf := (d x).buf ++ (d x).wire.take n, wire := (d x).wire.drop n })
    else none
  | .receive x =>
    if (d x).failed then none
    else some (Function.update d x (End.decoded (d x) (decode.run ⟨(d x).codec, (d x).buf⟩)))

/-- Messages are shorter than `2 ^ 24` bytes. -/
def Event.Sized : Event → Prop
  | .send _ m => m.length < 2 ^ 24
  | _ => True

/-! ## One direction -/

/-- What the reader has not received yet is on its way, and the reader is in step with the writer. -/
structure InStep (tx rx : End c) : Prop where
  carries : ∃ pending half, tx.sent = rx.received ++ pending ∧ tx.codec.ecies.Writes half ∧
    Carries rx.codec (rx.buf ++ rx.wire) pending half
  ok : rx.failed = false

/-- Both directions are in step. -/
def Synced (d : Duplex c) : Prop := ∀ x, InStep (d x) (d x.other)

theorem synced_of {d : Duplex c} (x : Side) (h : InStep (d x) (d x.other)) (h' : InStep (d x.other) (d x)) :
    Synced d := fun y => by
  rcases Side.eq_or_eq_other y x with rfl | rfl
  · exact h
  · rw [Side.other_other]
    exact h'

/-- The direction does not depend on what its writer receives, nor on what its reader sends. -/
theorem InStep.congr {tx rx tx' rx' : End c} (h : InStep tx rx) (hsent : tx'.sent = tx.sent)
    (haes : tx'.codec.ecies.egressAes = tx.codec.ecies.egressAes)
    (hmac : tx'.codec.ecies.egressMac = tx.codec.ecies.egressMac) (hrecv : rx'.received = rx.received)
    (hcodec : ∀ bytes pending half, Carries rx.codec bytes pending half → Carries rx'.codec bytes pending half)
    (hbytes : rx'.buf ++ rx'.wire = rx.buf ++ rx.wire) (hok : rx'.failed = rx.failed) : InStep tx' rx' where
  carries := by
    obtain ⟨pending, half, hs, hw, hc⟩ := h.carries
    refine ⟨pending, half, by rw [hsent, hs, hrecv], ⟨haes.trans hw.1, hmac.trans hw.2⟩, ?_⟩
    rw [hbytes]
    exact hcodec _ _ _ hc
  ok := hok.trans h.ok

/-- Sending keeps both directions in step. -/
theorem step_send {d d' : Duplex c} {x : Side} {m : Bytes} (hm : m.length < 2 ^ 24) (hd : Synced d)
    (h : step d (.send x m) = some d') : Synced d' := by
  obtain ⟨pending, half, hs, hw, hc⟩ := (hd x).carries
  have hback := hd x.other
  rw [Side.other_other] at hback
  simp only [step, hback.ok, Bool.false_eq_true, ↓reduceIte, run_encode_message hw hm, Option.some.injEq] at h
  subst h
  refine synced_of x ⟨⟨pending ++ [m], half.next c m, ?_, ?_, ?_⟩, ?_⟩ (hback.congr ?_ ?_ ?_ ?_ ?_ ?_ ?_) <;>
    simp only [Function.update_self, Function.update_of_ne (Side.other_ne x),
      Function.update_of_ne (Side.other_ne x).symm]
  · rw [hs, List.append_assoc]
  · exact writes_withEgress _ _
  · rw [← List.append_assoc]
    exact hc.append hm
  · exact (hd x).ok
  · exact fun _ _ _ hc => hc.withEgress _
  · exact hback.ok.symm

/-- Delivering keeps both directions in step. -/
theorem step_deliver {d d' : Duplex c} {x : Side} {n : Nat} (hd : Synced d)
    (h : step d (.deliver x n) = some d') : Synced d' := by
  have hback := hd x.other
  rw [Side.other_other] at hback
  simp only [step] at h
  split at h
  · cases h
    refine synced_of x ((hd x).congr ?_ ?_ ?_ ?_ ?_ ?_ ?_) (hback.congr ?_ ?_ ?_ ?_ ?_ ?_ ?_) <;>
      simp only [Function.update_self, Function.update_of_ne (Side.other_ne x)]
    · exact fun _ _ _ hc => hc
    · exact fun _ _ _ hc => hc
    · rw [List.append_assoc, List.take_append_drop]
  · cases h

/-- Receiving keeps both directions in step. -/
theorem step_receive {d d' : Duplex c} {x : Side} (hd : Synced d) (h : step d (.receive x) = some d') :
    Synced d' := by
  have hback := hd x.other
  rw [Side.other_other] at hback
  simp only [step, hback.ok, Bool.false_eq_true, ↓reduceIte, Option.some.injEq] at h
  subst h
  obtain ⟨pending, half, hs, hw, hc⟩ := hback.carries
  cases decode_carries hc with
  | wait codec' buf' hrun hc' he hwire =>
    rw [hrun]
    refine synced_of x ((hd x).congr ?_ ?_ ?_ ?_ ?_ ?_ ?_) ⟨⟨pending, half, ?_, ?_, ?_⟩, ?_⟩ <;>
      simp only [Function.update_self, Function.update_of_ne (Side.other_ne x), End.decoded]
    · exact he.1
    · exact he.2
    · exact fun _ _ _ hc => hc
    · exact hs
    · exact hw
    · exact hc'
    · exact hback.ok
  | message codec' buf' m rest hp hrun hc' he =>
    rw [hrun]
    refine synced_of x ((hd x).congr ?_ ?_ ?_ ?_ ?_ ?_ ?_) ⟨⟨rest, half, ?_, ?_, ?_⟩, ?_⟩ <;>
      simp only [Function.update_self, Function.update_of_ne (Side.other_ne x), End.decoded]
    · exact he.1
    · exact he.2
    · exact fun _ _ _ hc => hc
    · rw [hs, hp, List.append_assoc, List.singleton_append]
    · exact hw
    · exact hc'
    · exact hback.ok

theorem step_synced (d : Duplex c) (e : Event) (d' : Duplex c) (hd : Synced d) (he : e.Sized)
    (h : step d e = some d') : Synced d' := by
  cases e with
  | send x m => exact step_send he hd h
  | deliver x n => exact step_deliver hd h
  | receive x => exact step_receive hd h

theorem start_synced {client server : ECIES c} {aesSecret macSecret : H256}
    (h : Agree aesSecret macSecret client server) : Synced (start client server) := by
  obtain ⟨hc, -, -, hcw, hsr⟩ := h.forth
  obtain ⟨hs, -, -, hsw, hcr⟩ := h.back
  have hempty : ∀ m ∈ ([] : List Bytes), m.length < 2 ^ 24 := by simp
  exact synced_of .client ⟨⟨[], hc, rfl, hcw, .header rfl hsr hempty⟩, rfl⟩
    ⟨⟨[], hs, rfl, hsw, .header rfl hcr hempty⟩, rfl⟩

/-! ## Whole runs -/

/-- The reader has received an initial part of what the writer has sent; its next `decode` returns the next message, or
waits, and it does not wait when all bytes have arrived and a message is missing. -/
structure Delivers (tx rx : End c) : Prop where
  ok : rx.failed = false
  received : rx.received <+: tx.sent
  next : (∃ s, decode.run ⟨rx.codec, rx.buf⟩ = .ok none s ∧ (rx.wire = [] → rx.received = tx.sent)) ∨
    ∃ m s, decode.run ⟨rx.codec, rx.buf⟩ = .ok (some (.message m)) s ∧ rx.received ++ [m] <+: tx.sent

theorem InStep.delivers {tx rx : End c} (h : InStep tx rx) : Delivers tx rx := by
  obtain ⟨pending, half, hs, hw, hc⟩ := h.carries
  refine ⟨h.ok, ⟨pending, hs.symm⟩, ?_⟩
  cases decode_carries hc with
  | wait codec' buf' hrun hc' he hwire =>
    refine .inl ⟨_, hrun, fun hw => ?_⟩
    rw [hs, hwire hw, List.append_nil]
  | message codec' buf' m rest hp hrun hc' he =>
    exact .inr ⟨m, _, hrun, rest, by rw [hs, hp, List.append_assoc, List.singleton_append]⟩

/-- **The session is correct**: the handshake succeeds and both sides agree on its secrets; and in every run of
messages below `2 ^ 24` bytes in both directions, every end receives what the other has sent, in order. -/
theorem session_correct (h : c.SecpLaws) (hr : c.rlp.Lawful) (p : Parties c) :
    ∃ client server aesSecret macSecret, handshake p = some (client, server) ∧
      Agree aesSecret macSecret client server ∧
      ∀ (es : List Event) (d : Duplex c), (∀ e ∈ es, e.Sized) → Runs.run step (start client server) es = some d →
        ∀ x, Delivers (d x.other) (d x) := by
  obtain ⟨client, server, aesSecret, macSecret, hh, ha⟩ := handshake_agrees h hr p
  refine ⟨client, server, aesSecret, macSecret, hh, ha, fun es d hes hrun x => ?_⟩
  have hsync : Synced d :=
    Runs.Along.invariant step_synced es (Runs.Along.of_mem fun e he _ => hes e he) (start_synced ha) hrun
  have hx := hsync x.other
  rw [Side.other_other] at hx
  exact hx.delivers

/-- The example parties agree, and their session delivers. -/
theorem session_example : ∃ client server aesSecret macSecret, handshake exampleParties = some (client, server) ∧
    Agree aesSecret macSecret client server ∧
    ∀ (es : List Event) (d : Duplex Software.crates), (∀ e ∈ es, e.Sized) →
      Runs.run step (start client server) es = some d → ∀ x, Delivers (d x.other) (d x) :=
  session_correct Software.secpLaws Rlp.standard_lawful exampleParties

end Duplex

end EthereumSentry
