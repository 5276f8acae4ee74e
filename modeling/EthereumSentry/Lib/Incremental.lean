import Mathlib.Logic.Basic
import Mathlib.Tactic.Common

/-!
# Incremental decoders

A decoder is called on a buffer to which the input is appended as it arrives. A call takes a value off the front of the
buffer, waits for more input, or stops with an error. It may take bytes off the buffer also when it waits, and keeps
what it made of them in its state.

`Incremental` states what makes a decoder independent of how its input is cut: a call that does not wait does the same
on a longer buffer, and a call that waits is resumed where it has left off. A reader drains the decoder after every
chunk; what it sees before the first error is what it sees of the whole input at once (`Incremental.feed_flatten`).
-/

set_option autoImplicit false

/-- How a call on a buffer ends. -/
inductive Outcome (ε α : Type) where
  | value (a : α)
  | wait
  | stop (e : ε)
  deriving DecidableEq

/-- A decoder with states in `σ`, input in `β`, errors in `ε` and values in `α`. -/
structure Incremental (σ β ε α : Type) where
  /-- One call: how it ends, the state and the buffer. -/
  call : σ → List β → Outcome ε α × σ × List β
  /-- A value is taken off the buffer. -/
  consumes : ∀ s b a, (call s b).1 = .value a → (call s b).2.2.length < b.length
  /-- A call that does not wait does the same on a longer buffer. -/
  extend : ∀ s b more, (call s b).1 ≠ .wait →
    call s (b ++ more) = ((call s b).1, (call s b).2.1, (call s b).2.2 ++ more)
  /-- A call that waits is resumed where it has left off. -/
  resume : ∀ s b more, (call s b).1 = .wait → call s (b ++ more) = call (call s b).2.1 ((call s b).2.2 ++ more)

namespace Incremental

variable {σ β ε α : Type}

/-- What a reader sees that stops at the first error. -/
def untilError : List (Except ε α) → List (Except ε α)
  | [] => []
  | .ok a :: l => .ok a :: untilError l
  | .error e :: _ => [.error e]

/-- The reader has seen values only. -/
def Clean (l : List (Except ε α)) : Prop := ∀ e, .error e ∉ l

theorem clean_nil : Clean ([] : List (Except ε α)) := fun _ h => by cases h

theorem clean_cons {a : α} {l : List (Except ε α)} : Clean (.ok a :: l) ↔ Clean l := by
  simp [Clean]

theorem clean_append {l l' : List (Except ε α)} : Clean (l ++ l') ↔ Clean l ∧ Clean l' := by
  simp [Clean, forall_and, not_or]

theorem untilError_append_of_clean : ∀ {l : List (Except ε α)}, Clean l →
    ∀ l', untilError (l ++ l') = l ++ untilError l'
  | [], _, _ => rfl
  | .ok a :: l, h, l' => by
    rw [List.cons_append, untilError, untilError_append_of_clean (clean_cons.1 h), List.cons_append]
  | .error e :: _, h, _ => absurd (List.mem_cons_self) (h e)

/-- What comes after an error is not seen. -/
theorem untilError_append_of_not_clean : ∀ {l : List (Except ε α)}, ¬Clean l →
    ∀ l', untilError (l ++ l') = untilError l
  | [], h, _ => absurd clean_nil h
  | .ok a :: l, h, l' => by
    rw [List.cons_append, untilError, untilError, untilError_append_of_not_clean (clean_cons.not.1 h)]
  | .error _ :: _, _, _ => rfl

variable (d : Incremental σ β ε α)

/-- Call the decoder until it waits or stops. -/
def drain (s : σ) (b : List β) : List (Except ε α) × σ × List β :=
  match h : d.call s b with
  | (.wait, s', b') => ([], s', b')
  | (.stop e, s', b') => ([.error e], s', b')
  | (.value a, s', b') =>
    have : b'.length < b.length := by simpa [h] using d.consumes s b a (by rw [h])
    (.ok a :: (drain s' b').1, (drain s' b').2)
termination_by b.length

/-- Append the chunks one at a time, and drain the decoder after each. -/
def feed : σ → List β → List (List β) → List (Except ε α) × σ × List β
  | s, b, [] => ([], s, b)
  | s, b, chunk :: chunks =>
    let r := d.drain s (b ++ chunk)
    let rest := feed r.2.1 r.2.2 chunks
    (r.1 ++ rest.1, rest.2)

variable {d}

theorem drain_wait {s s' : σ} {b b' : List β} (h : d.call s b = (.wait, s', b')) : d.drain s b = ([], s', b') := by
  rw [drain]
  split <;> simp_all

theorem drain_stop {s s' : σ} {b b' : List β} {e : ε} (h : d.call s b = (.stop e, s', b')) :
    d.drain s b = ([.error e], s', b') := by
  rw [drain]
  split <;> simp_all

theorem drain_value {s s' : σ} {b b' : List β} {a : α} (h : d.call s b = (.value a, s', b')) :
    d.drain s b = (.ok a :: (d.drain s' b').1, (d.drain s' b').2) := by
  rw [drain]
  split <;> simp_all

/-- An error ends the draining. -/
theorem untilError_drain (s : σ) (b : List β) : untilError (d.drain s b).1 = (d.drain s b).1 := by
  induction s, b using drain.induct d with
  | case1 s b s' b' h => rw [drain_wait h, untilError]
  | case2 s b e s' b' h => rw [drain_stop h, untilError]
  | case3 s b a s' b' h _ ih => rw [drain_value h, untilError, ih]

/-- **Draining is resumed** on a longer buffer, unless it has stopped. -/
theorem drain_append (s : σ) (b more : List β) (hc : Clean (d.drain s b).1) :
    d.drain s (b ++ more) = ((d.drain s b).1 ++ (d.drain (d.drain s b).2.1 ((d.drain s b).2.2 ++ more)).1,
      (d.drain (d.drain s b).2.1 ((d.drain s b).2.2 ++ more)).2) := by
  induction s, b using drain.induct d with
  | case1 s b s' b' h =>
    have hr := d.resume s b more (by rw [h])
    rw [h] at hr
    -- both calls end in the same way, so both drain the same
    have hd : d.drain s (b ++ more) = d.drain s' (b' ++ more) := by
      rcases hcall : d.call s' (b' ++ more) with ⟨_ | _ | _, t, r⟩
      · rw [drain_value hcall, drain_value (hr.trans hcall)]
      · rw [drain_wait hcall, drain_wait (hr.trans hcall)]
      · rw [drain_stop hcall, drain_stop (hr.trans hcall)]
    rw [drain_wait h, hd, List.nil_append]
  | case2 s b e s' b' h =>
    rw [drain_stop h] at hc
    exact absurd (List.mem_singleton.2 rfl) (hc e)
  | case3 s b a s' b' h _ ih =>
    have hx := d.extend s b more (by rw [h]; simp)
    rw [h] at hx
    rw [drain_value h, clean_cons] at hc
    rw [drain_value h, drain_value hx, ih hc, List.cons_append]

/-- A draining that stops does the same on a longer buffer. -/
theorem drain_append_of_not_clean (s : σ) (b more : List β) (hc : ¬Clean (d.drain s b).1) :
    (d.drain s (b ++ more)).1 = (d.drain s b).1 := by
  induction s, b using drain.induct d with
  | case1 s b s' b' h =>
    rw [drain_wait h] at hc
    exact absurd clean_nil hc
  | case2 s b e s' b' h =>
    have hx := d.extend s b more (by rw [h]; simp)
    rw [h] at hx
    rw [drain_stop h, drain_stop hx]
  | case3 s b a s' b' h _ ih =>
    have hx := d.extend s b more (by rw [h]; simp)
    rw [h] at hx
    rw [drain_value h, clean_cons] at hc
    rw [drain_value h, drain_value hx, ih hc]

/-- **Cutting the input does not matter**: up to the first error, a reader of the chunks sees what draining the whole
input returns. -/
theorem untilError_feed : ∀ (chunks : List (List β)) (s : σ) (b chunk : List β),
    untilError (d.feed s b (chunk :: chunks)).1 = (d.drain s (b ++ (chunk :: chunks).flatten)).1
  | [], s, b, chunk => by
    simp only [feed, List.append_nil, List.flatten_cons, List.flatten_nil]
    exact untilError_drain s (b ++ chunk)
  | next :: chunks, s, b, chunk => by
    rw [feed, List.flatten_cons, ← List.append_assoc]
    by_cases hc : Clean (d.drain s (b ++ chunk)).1
    · rw [untilError_append_of_clean hc, untilError_feed chunks, drain_append _ _ _ hc]
    · rw [untilError_append_of_not_clean hc, untilError_drain, drain_append_of_not_clean _ _ _ hc]

/-- Without an error, the reader of the chunks ends where draining the whole input does. -/
theorem feed_state : ∀ (chunks : List (List β)) (s : σ) (b chunk : List β), Clean (d.feed s b (chunk :: chunks)).1 →
    (d.feed s b (chunk :: chunks)).2 = (d.drain s (b ++ (chunk :: chunks).flatten)).2
  | [], s, b, chunk, _ => by
    simp only [feed, List.append_nil, List.flatten_cons, List.flatten_nil]
  | next :: chunks, s, b, chunk, h => by
    rw [feed, clean_append] at h
    rw [feed, List.flatten_cons, ← List.append_assoc, drain_append _ _ _ h.1]
    exact feed_state chunks _ _ next h.2

/-- **Chunking independence**: in whatever chunks the input arrives, up to the first error a reader sees what it sees of
the whole input at once, and without an error it ends in the same state. -/
theorem feed_flatten (s : σ) (b : List β) {chunks : List (List β)} (hne : chunks ≠ []) :
    untilError (d.feed s b chunks).1 = untilError (d.feed s b [chunks.flatten]).1 ∧
      (Clean (d.feed s b chunks).1 → (d.feed s b chunks).2 = (d.feed s b [chunks.flatten]).2) := by
  obtain ⟨chunk, chunks, rfl⟩ := List.exists_cons_of_ne_nil hne
  refine ⟨?_, fun hc => ?_⟩
  · rw [untilError_feed, untilError_feed, List.flatten_singleton]
  · rw [feed_state chunks s b chunk hc, feed, feed]

/-- What every value and every error of the calls meets, a reader sees only. -/
theorem forall_mem_feed {I : σ → Prop} {P : Except ε α → Prop}
    (hvalue : ∀ s b a, I s → (d.call s b).1 = .value a → P (.ok a))
    (hstop : ∀ s b e, I s → (d.call s b).1 = .stop e → P (.error e))
    (hinv : ∀ s b, I s → I (d.call s b).2.1) {s : σ} (hs : I s) (b : List β) (chunks : List (List β)) :
    ∀ o ∈ (d.feed s b chunks).1, P o := by
  have hdrain : ∀ s b, I s → (∀ o ∈ (d.drain s b).1, P o) ∧ I (d.drain s b).2.1 := by
    intro s b
    induction s, b using drain.induct d with
    | case1 s b s' b' h =>
      intro hs
      have hi := hinv s b hs
      rw [h] at hi
      rw [drain_wait h]
      exact ⟨fun o ho => (List.not_mem_nil ho).elim, hi⟩
    | case2 s b e s' b' h =>
      intro hs
      have hi := hinv s b hs
      rw [h] at hi
      rw [drain_stop h]
      refine ⟨fun o ho => ?_, hi⟩
      rw [List.mem_singleton.1 ho]
      exact hstop s b e hs (by rw [h])
    | case3 s b a s' b' h _ ih =>
      intro hs
      have hi := hinv s b hs
      rw [h] at hi
      rw [drain_value h]
      refine ⟨fun o ho => ?_, (ih hi).2⟩
      rcases List.mem_cons.1 ho with rfl | ho
      · exact hvalue s b a hs (by rw [h])
      · exact (ih hi).1 o ho
  induction chunks generalizing s b with
  | nil => exact fun o ho => (List.not_mem_nil ho).elim
  | cons chunk chunks ih =>
    intro o ho
    rcases List.mem_append.1 ho with ho | ho
    · exact (hdrain s (b ++ chunk) hs).1 o ho
    · exact ih (hdrain s (b ++ chunk) hs).2 _ o ho

end Incremental
