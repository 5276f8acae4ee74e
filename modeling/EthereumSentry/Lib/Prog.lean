import Mathlib.Logic.Basic
import Mathlib.Tactic.Common

/-!
# Programs that return, fail or panic

A call of the modelled language ends in one of three ways: it returns a value, it returns an error value, or it
panics (a slice split out of range, a subtraction below zero, an `unwrap` of nothing, a failed assertion). Its state
is kept in all three cases. `Prog ε σ α` is such a call, with errors in `ε`, state in `σ` and values in `α`.

`Panics x s` says that `x`, started in `s`, panics. Each primitive has a rule that says exactly when it does, and
`panics_bind` composes them, so the panics of a whole program are computed by `simp` from those of its parts.
-/

set_option autoImplicit false

/-- How a call ends that does not return a value. -/
inductive Stop (ε : Type) where
  | err (e : ε)
  | panic
  deriving DecidableEq, Repr

/-- A call with errors in `ε`, state in `σ` and results in `α`. -/
abbrev Prog (ε σ α : Type) : Type := EStateM (Stop ε) σ α

namespace Prog

variable {ε ε' σ τ α β : Type}

/-! ## Primitives -/

/-- Return an error. -/
def fail (e : ε) : Prog ε σ α := throw (.err e)

/-- Panic. -/
def crash : Prog ε σ α := throw .panic

/-- `Option::unwrap`. -/
def unwrap : Option α → Prog ε σ α
  | some a => pure a
  | none => crash

/-- The `?` operator, with the conversion of the error. -/
def ofExcept (f : ε' → ε) : Except ε' α → Prog ε σ α
  | .ok a => pure a
  | .error e => fail (f e)

/-- `slice::split_at`: panics when `n` is past the end. -/
def splitAt (b : List α) (n : Nat) : Prog ε σ (List α × List α) :=
  if n ≤ b.length then pure (b.take n, b.drop n) else crash

/-- The slice `b[i..]`: panics when `i` is past the end. -/
def sliceFrom (b : List α) (i : Nat) : Prog ε σ (List α) := if i ≤ b.length then pure (b.drop i) else crash

/-- The slice `b[i..j]`: panics when it is out of range. -/
def slice (b : List α) (i j : Nat) : Prog ε σ (List α) :=
  if i ≤ j ∧ j ≤ b.length then pure ((b.take j).drop i) else crash

/-- Subtraction of unsigned integers: panics below zero. -/
def sub (a b : Nat) : Prog ε σ Nat := if b ≤ a then pure (a - b) else crash

/-- Addition of unsigned integers below `bound`: panics on overflow. -/
def add (bound a b : Nat) : Prog ε σ Nat := if a + b < bound then pure (a + b) else crash

/-- `Result::unwrap`. -/
def unwrapExcept : Except ε' α → Prog ε σ α
  | .ok a => pure a
  | .error _ => crash

/-- `let _ = ..`: drop the result, also when it is an error. -/
def ignore (x : Prog ε' σ α) : Prog ε σ Unit := fun s =>
  match x.run s with
  | .ok _ s' | .error (.err _) s' => .ok () s'
  | .error .panic s' => .error .panic s'

/-- Run a call on a part of the state, converting its errors. -/
def zoom (part : τ → σ) (put : σ → τ → τ) (f : ε → ε') (x : Prog ε σ α) : Prog ε' τ α := fun t =>
  match x.run (part t) with
  | .ok a s => .ok a (put s t)
  | .error (.err e) s => .error (.err (f e)) (put s t)
  | .error .panic s => .error .panic (put s t)

/-! ## What the primitives return -/

@[simp] theorem run_fail (e : ε) (s : σ) : (fail e : Prog ε σ α).run s = .error (.err e) s := rfl

@[simp] theorem run_crash (s : σ) : (crash : Prog ε σ α).run s = .error .panic s := rfl

@[simp] theorem run_unwrap_some (a : α) (s : σ) : (unwrap (some a) : Prog ε σ α).run s = .ok a s := rfl

theorem run_unwrap_of {o : Option α} {a : α} (h : o = some a) (s : σ) :
    (unwrap o : Prog ε σ α).run s = .ok a s := by
  subst h
  rfl

@[simp] theorem run_ofExcept_ok (f : ε' → ε) (a : α) (s : σ) :
    (ofExcept f (.ok a) : Prog ε σ α).run s = .ok a s := rfl

@[simp] theorem run_ofExcept_error (f : ε' → ε) (e : ε') (s : σ) :
    (ofExcept f (.error e) : Prog ε σ α).run s = .error (.err (f e)) s := rfl

theorem run_splitAt {b : List α} {n : Nat} (h : n ≤ b.length) (s : σ) :
    (splitAt b n : Prog ε σ (List α × List α)).run s = .ok (b.take n, b.drop n) s := by
  simp [splitAt, h]

/-- Splitting a list at the end of its first part. -/
theorem run_splitAt_append {a b : List α} {n : Nat} (h : a.length = n) (s : σ) :
    (splitAt (a ++ b) n : Prog ε σ (List α × List α)).run s = .ok (a, b) s := by
  subst h
  simp [run_splitAt]

theorem run_splitAt_crash {b : List α} {n : Nat} (h : b.length < n) (s : σ) :
    (splitAt b n : Prog ε σ (List α × List α)).run s = .error .panic s := by
  simp [splitAt, Nat.not_le.2 h]

theorem run_sliceFrom {b : List α} {i : Nat} (h : i ≤ b.length) (s : σ) :
    (sliceFrom b i : Prog ε σ (List α)).run s = .ok (b.drop i) s := by
  simp [sliceFrom, h]

theorem run_slice {b : List α} {i j : Nat} (hi : i ≤ j) (hj : j ≤ b.length) (s : σ) :
    (slice b i j : Prog ε σ (List α)).run s = .ok ((b.take j).drop i) s := by
  simp [slice, hi, hj]

theorem run_sub {a b : Nat} (h : b ≤ a) (s : σ) : (sub a b : Prog ε σ Nat).run s = .ok (a - b) s := by
  simp [sub, h]

theorem run_sub_crash {a b : Nat} (h : a < b) (s : σ) : (sub a b : Prog ε σ Nat).run s = .error .panic s := by
  simp [sub, Nat.not_le.2 h]

theorem run_add {bound a b : Nat} (h : a + b < bound) (s : σ) :
    (add bound a b : Prog ε σ Nat).run s = .ok (a + b) s := by
  simp [add, h]

theorem run_add_crash {bound a b : Nat} (h : bound ≤ a + b) (s : σ) :
    (add bound a b : Prog ε σ Nat).run s = .error .panic s := by
  simp [add, Nat.not_lt.2 h]

/-- A call on a part of the state that returns. -/
theorem run_zoom_ok {part : τ → σ} {put : σ → τ → τ} {f : ε → ε'} {x : Prog ε σ α} {t : τ} {a : α} {s : σ}
    (h : x.run (part t) = .ok a s) : (zoom part put f x).run t = .ok a (put s t) := by
  simp only [EStateM.run] at h
  simp [zoom, EStateM.run, h]

theorem run_ignore_ok {x : Prog ε' σ α} {s s' : σ} {a : α} (h : x.run s = .ok a s') :
    (ignore x : Prog ε σ Unit).run s = .ok () s' := by
  simp only [ignore, EStateM.run] at h ⊢
  rw [h]

/-! ## Panics -/

/-- The call panics. -/
def Panics (x : Prog ε σ α) (s : σ) : Prop := ∃ s', x.run s = .error .panic s'

@[simp] theorem panics_pure (a : α) (s : σ) : ¬Panics (pure a : Prog ε σ α) s := by
  rintro ⟨s', h⟩; cases h

@[simp] theorem panics_fail (e : ε) (s : σ) : ¬Panics (fail e : Prog ε σ α) s := by
  rintro ⟨s', h⟩; cases h

@[simp] theorem panics_crash (s : σ) : Panics (crash : Prog ε σ α) s := ⟨s, rfl⟩

@[simp] theorem panics_get (s : σ) : ¬Panics (get : Prog ε σ σ) s := by
  rintro ⟨s', h⟩; cases h

@[simp] theorem panics_modify (f : σ → σ) (s : σ) : ¬Panics (modify f : Prog ε σ PUnit) s := by
  rintro ⟨s', h⟩; cases h

@[simp] theorem panics_unwrap (o : Option α) (s : σ) : Panics (unwrap o : Prog ε σ α) s ↔ o = none := by
  cases o <;> simp [unwrap]

@[simp] theorem panics_ofExcept (f : ε' → ε) (r : Except ε' α) (s : σ) :
    ¬Panics (ofExcept f r : Prog ε σ α) s := by
  cases r <;> simp [ofExcept]

@[simp] theorem panics_splitAt (b : List α) (n : Nat) (s : σ) :
    Panics (splitAt b n : Prog ε σ (List α × List α)) s ↔ b.length < n := by
  by_cases h : n ≤ b.length <;> simp [splitAt, h]; omega

@[simp] theorem panics_slice (b : List α) (i j : Nat) (s : σ) :
    Panics (slice b i j : Prog ε σ (List α)) s ↔ ¬(i ≤ j ∧ j ≤ b.length) := by
  by_cases h : i ≤ j ∧ j ≤ b.length <;> simp [slice, h]

@[simp] theorem panics_sub (a b : Nat) (s : σ) : Panics (sub a b : Prog ε σ Nat) s ↔ a < b := by
  by_cases h : b ≤ a <;> simp [sub, h]; omega

@[simp] theorem panics_zoom (part : τ → σ) (put : σ → τ → τ) (f : ε → ε') (x : Prog ε σ α) (t : τ) :
    Panics (zoom part put f x) t ↔ Panics x (part t) := by
  simp only [Panics, zoom, EStateM.run]
  cases x (part t) with
  | ok a s => simp
  | error e s => cases e <;> simp

/-- **A sequence panics** when its first call does, or returns and the rest does. -/
@[simp] theorem panics_bind (x : Prog ε σ α) (f : α → Prog ε σ β) (s : σ) :
    Panics (x >>= f) s ↔ Panics x s ∨ ∃ a s', x.run s = .ok a s' ∧ Panics (f a) s' := by
  simp only [Panics, EStateM.run_bind]
  cases x.run s <;> simp

/-- After a call that returns, a sequence panics when the rest does. -/
theorem panics_bind_ok {x : Prog ε σ α} {f : α → Prog ε σ β} {s s' : σ} {a : α} (h : x.run s = .ok a s') :
    Panics (x >>= f) s ↔ Panics (f a) s' := by
  simp only [Panics, EStateM.run_bind, h]

/-- After a call that fails, a sequence does not panic. -/
theorem not_panics_bind_err {x : Prog ε σ α} {f : α → Prog ε σ β} {s s' : σ} {e : ε}
    (h : x.run s = .error (.err e) s') : ¬Panics (x >>= f) s := by
  simp only [Panics, EStateM.run_bind, h]
  rintro ⟨s'', h'⟩
  cases h'

/-- A sequence does not panic when its first call does not, nor the rest from wherever the first returns. -/
theorem not_panics_bind {x : Prog ε σ α} {f : α → Prog ε σ β} {s : σ} (hx : ¬Panics x s)
    (hf : ∀ a s', x.run s = .ok a s' → ¬Panics (f a) s') : ¬Panics (x >>= f) s := by
  rw [panics_bind]
  rintro (h | ⟨a, s', hr, h⟩)
  · exact hx h
  · exact hf a s' hr h

/-- After the `?` operator, only the value matters. -/
theorem not_panics_bind_ofExcept {g : ε' → ε} {r : Except ε' α} {f : α → Prog ε σ β} {s : σ}
    (hf : ∀ a, r = .ok a → ¬Panics (f a) s) : ¬Panics (ofExcept g r >>= f) s := by
  cases r with
  | error e => exact not_panics_bind_err (run_ofExcept_error g e s)
  | ok a => rw [panics_bind_ok (run_ofExcept_ok g a s)]; exact hf a rfl

/-! ## Returning -/

/-- A sequence returns when its first call does, and the rest from there. -/
theorem run_bind_eq_ok {x : Prog ε σ α} {f : α → Prog ε σ β} {s s' : σ} {b : β} :
    (x >>= f).run s = .ok b s' ↔ ∃ a t, x.run s = .ok a t ∧ (f a).run t = .ok b s' := by
  rw [EStateM.run_bind]
  cases x.run s <;> simp

/-- After a call that returns, a sequence runs as the rest. -/
theorem run_bind_ok {x : Prog ε σ α} {s t : σ} {a : α} (h : x.run s = .ok a t) (f : α → Prog ε σ β) :
    (x >>= f).run s = (f a).run t := by
  rw [EStateM.run_bind, h]

/-- After a call that fails, so does a sequence. -/
theorem run_bind_err {x : Prog ε σ α} {s t : σ} {e : Stop ε} (h : x.run s = .error e t) (f : α → Prog ε σ β) :
    (x >>= f).run s = .error e t := by
  rw [EStateM.run_bind, h]

/-- The state after a call, however it ends. -/
def after (x : Prog ε σ α) (s : σ) : σ :=
  match x.run s with
  | .ok _ s' | .error _ s' => s'

theorem after_ok {x : Prog ε σ α} {a : α} {s s' : σ} (h : x.run s = .ok a s') : after x s = s' := by
  simp [after, h]

theorem after_error {x : Prog ε σ α} {e : Stop ε} {s s' : σ} (h : x.run s = .error e s') : after x s = s' := by
  simp [after, h]

/-- The state after a call that goes on with another one. -/
theorem after_bind {x : Prog ε σ α} {f : α → Prog ε σ β} {a : α} {s t : σ} (h : x.run s = .ok a t) :
    after (x >>= f) s = after (f a) t := by
  rw [after, run_bind_ok h, after]

theorem run_unwrap_eq_ok {o : Option α} {s s' : σ} {a : α} :
    (unwrap o : Prog ε σ α).run s = .ok a s' ↔ o = some a ∧ s' = s := by
  cases o <;> simp [unwrap, eq_comm]

theorem run_ofExcept_eq_ok {g : ε' → ε} {r : Except ε' α} {s s' : σ} {a : α} :
    (ofExcept g r : Prog ε σ α).run s = .ok a s' ↔ r = .ok a ∧ s' = s := by
  cases r <;> simp [eq_comm]

theorem run_zoom_eq_ok {part : τ → σ} {put : σ → τ → τ} {f : ε → ε'} {x : Prog ε σ α} {t t' : τ} {a : α} :
    (zoom part put f x).run t = .ok a t' ↔ ∃ s, x.run (part t) = .ok a s ∧ put s t = t' := by
  simp only [zoom, EStateM.run]
  cases x (part t) with
  | ok b s => simp
  | error e s => cases e <;> simp

/-- The value and the state of a call that returns. -/
def result? (x : Prog ε σ α) (s : σ) : Option (α × σ) :=
  match x.run s with
  | .ok a s' => some (a, s')
  | .error _ _ => none

theorem result?_of_ok {x : Prog ε σ α} {s s' : σ} {a : α} (h : x.run s = .ok a s') : result? x s = some (a, s') := by
  simp [result?, h]

/-- The call leaves the state as it is when it returns. -/
def Keeps (x : Prog ε σ α) : Prop := ∀ s a s', x.run s = .ok a s' → s' = s

theorem keeps_pure (a : α) : Keeps (pure a : Prog ε σ α) := fun _ _ _ h => by cases h; rfl

theorem keeps_fail (e : ε) : Keeps (fail e : Prog ε σ α) := fun _ _ _ h => by cases h

theorem keeps_get : Keeps (get : Prog ε σ σ) := fun _ _ _ h => by cases h; rfl

theorem keeps_unwrap (o : Option α) : Keeps (unwrap o : Prog ε σ α) := fun _ _ _ h => (run_unwrap_eq_ok.1 h).2

theorem keeps_ofExcept (g : ε' → ε) (r : Except ε' α) : Keeps (ofExcept g r : Prog ε σ α) := fun _ _ _ h =>
  (run_ofExcept_eq_ok.1 h).2

theorem keeps_splitAt (b : List α) (n : Nat) : Keeps (splitAt b n : Prog ε σ (List α × List α)) := fun s a s' h => by
  by_cases hn : n ≤ b.length
  · rw [run_splitAt hn] at h; cases h; rfl
  · rw [run_splitAt_crash (by omega)] at h; cases h

theorem keeps_slice (b : List α) (i j : Nat) : Keeps (slice b i j : Prog ε σ (List α)) := fun s x s' h => by
  by_cases hb : i ≤ j ∧ j ≤ b.length
  · rw [run_slice hb.1 hb.2] at h; cases h; rfl
  · rw [slice, if_neg hb, run_crash] at h; cases h

theorem keeps_sliceFrom (b : List α) (i : Nat) : Keeps (sliceFrom b i : Prog ε σ (List α)) := fun s x s' h => by
  by_cases hb : i ≤ b.length
  · rw [run_sliceFrom hb] at h; cases h; rfl
  · rw [sliceFrom, if_neg hb, run_crash] at h; cases h

theorem keeps_sub (a b : Nat) : Keeps (sub a b : Prog ε σ Nat) := fun s x s' h => by
  by_cases hb : b ≤ a
  · rw [run_sub hb] at h; cases h; rfl
  · rw [run_sub_crash (by omega)] at h; cases h

theorem keeps_bind {x : Prog ε σ α} {f : α → Prog ε σ β} (hx : Keeps x) (hf : ∀ a, Keeps (f a)) :
    Keeps (x >>= f) := fun s b s' h => by
  obtain ⟨a, t, h₁, h₂⟩ := run_bind_eq_ok.1 h
  rw [hf a t b s' h₂, hx s a t h₁]

/-- The call leaves a part of the state alone when it returns. -/
def Spares (part : σ → τ) (x : Prog ε σ α) : Prop := ∀ s a s', x.run s = .ok a s' → part s' = part s

section

variable {part : σ → τ}

theorem Keeps.spares {x : Prog ε σ α} (h : Keeps x) : Spares part x := fun s a s' hr => congrArg part (h s a s' hr)

theorem spares_modify {f : σ → σ} (h : ∀ s, part (f s) = part s) : Spares part (modify f : Prog ε σ PUnit) :=
  fun s _ _ hr => by
    cases hr
    exact h s

theorem spares_bind {x : Prog ε σ α} {f : α → Prog ε σ β} (hx : Spares part x) (hf : ∀ a, Spares part (f a)) :
    Spares part (x >>= f) := fun s b s' h => by
  obtain ⟨a, t, h₁, h₂⟩ := run_bind_eq_ok.1 h
  rw [hf a t b s' h₂, hx s a t h₁]

theorem spares_ite {p : Prop} [Decidable p] {x y : Prog ε σ α} (hx : Spares part x) (hy : Spares part y) :
    Spares part (if p then x else y) := by
  split
  · exact hx
  · exact hy

/-- A call on a part of the state, which leaves alone what belongs to the other part. -/
theorem spares_zoom {υ : Type} {view : υ → σ} {put : σ → υ → υ} {f : ε → ε'} {part' : υ → τ} {x : Prog ε σ α}
    (hx : Spares part x) (hput : ∀ s t, part s = part (view t) → part' (put s t) = part' t) :
    Spares part' (zoom view put f x) := fun t a t' hr => by
  obtain ⟨s, hs, rfl⟩ := run_zoom_eq_ok.1 hr
  exact hput s t (hx (view t) a s hs)

end

/-! ## Weakest preconditions -/

/-- The call does not panic: it returns with `Q`, or fails with `E`. -/
def wp (x : Prog ε σ α) (Q : α → σ → Prop) (E : σ → Prop) (s : σ) : Prop :=
  match x.run s with
  | .ok a s' => Q a s'
  | .error (.err _) s' => E s'
  | .error .panic _ => False

section WeakestPrecondition

variable (Q : α → σ → Prop) (E : σ → Prop) (s : σ)

@[simp] theorem wp_pure (a : α) : wp (pure a : Prog ε σ α) Q E s ↔ Q a s := Iff.rfl

@[simp] theorem wp_fail (e : ε) : wp (fail e : Prog ε σ α) Q E s ↔ E s := Iff.rfl

@[simp] theorem wp_crash : wp (crash : Prog ε σ α) Q E s ↔ False := Iff.rfl

@[simp] theorem wp_get (Q : σ → σ → Prop) : wp (get : Prog ε σ σ) Q E s ↔ Q s s := Iff.rfl

@[simp] theorem wp_modify (f : σ → σ) (Q : PUnit → σ → Prop) :
    wp (modify f : Prog ε σ PUnit) Q E s ↔ Q ⟨⟩ (f s) := Iff.rfl

@[simp] theorem wp_unwrap (o : Option α) : wp (unwrap o : Prog ε σ α) Q E s ↔ ∃ a, o = some a ∧ Q a s := by
  cases o <;> simp [unwrap]

@[simp] theorem wp_ofExcept (g : ε' → ε) (r : Except ε' α) :
    wp (ofExcept g r : Prog ε σ α) Q E s ↔ (∀ a, r = .ok a → Q a s) ∧ ∀ e, r = .error e → E s := by
  cases r <;> simp [ofExcept]

@[simp] theorem wp_splitAt (b : List α) (n : Nat) (Q : List α × List α → σ → Prop) :
    wp (splitAt b n : Prog ε σ (List α × List α)) Q E s ↔ n ≤ b.length ∧ Q (b.take n, b.drop n) s := by
  by_cases h : n ≤ b.length <;> simp [splitAt, h]

@[simp] theorem wp_sub (a b : Nat) (Q : Nat → σ → Prop) :
    wp (sub a b : Prog ε σ Nat) Q E s ↔ b ≤ a ∧ Q (a - b) s := by
  by_cases h : b ≤ a <;> simp [sub, h]

@[simp] theorem wp_sliceFrom (b : List α) (i : Nat) (Q : List α → σ → Prop) :
    wp (sliceFrom b i : Prog ε σ (List α)) Q E s ↔ i ≤ b.length ∧ Q (b.drop i) s := by
  by_cases h : i ≤ b.length <;> simp [sliceFrom, h]

@[simp] theorem wp_slice (b : List α) (i j : Nat) (Q : List α → σ → Prop) :
    wp (slice b i j : Prog ε σ (List α)) Q E s ↔ (i ≤ j ∧ j ≤ b.length) ∧ Q ((b.take j).drop i) s := by
  by_cases h : i ≤ j ∧ j ≤ b.length <;> simp [slice, h]

@[simp] theorem wp_add (bound a b : Nat) (Q : Nat → σ → Prop) :
    wp (add bound a b : Prog ε σ Nat) Q E s ↔ a + b < bound ∧ Q (a + b) s := by
  by_cases h : a + b < bound <;> simp [add, h]

@[simp] theorem wp_unwrapExcept (r : Except ε' α) :
    wp (unwrapExcept r : Prog ε σ α) Q E s ↔ ∃ a, r = .ok a ∧ Q a s := by
  cases r <;> simp [unwrapExcept]

@[simp] theorem wp_ite {p : Prop} [Decidable p] (x y : Prog ε σ α) :
    wp (if p then x else y) Q E s ↔ if p then wp x Q E s else wp y Q E s := by
  split <;> rfl

/-- **The rule of sequences.** -/
@[simp] theorem wp_bind (x : Prog ε σ α) (f : α → Prog ε σ β) (Q : β → σ → Prop) :
    wp (x >>= f) Q E s ↔ wp x (fun a => wp (f a) Q E) E s := by
  simp only [wp, EStateM.run_bind]
  rcases x.run s with _ | ⟨_ | _⟩ <;> rfl

@[simp] theorem wp_zoom (part : τ → σ) (put : σ → τ → τ) (f : ε → ε') (x : Prog ε σ α) (Q : α → τ → Prop)
    (E : τ → Prop) (t : τ) :
    wp (zoom part put f x) Q E t ↔ wp x (fun a s => Q a (put s t)) (fun s => E (put s t)) (part t) := by
  simp only [wp, zoom, EStateM.run]
  rcases x (part t) with _ | ⟨_ | _⟩ <;> rfl

/-- `ignore` goes on where `x` returns or fails. -/
@[simp] theorem wp_ignore (x : Prog ε' σ α) (Q : Unit → σ → Prop) :
    wp (ignore x : Prog ε σ Unit) Q E s ↔ wp x (fun _ => Q ()) (Q ()) s := by
  simp only [wp, ignore, EStateM.run]
  rcases x s with _ | ⟨_ | _⟩ <;> rfl

end WeakestPrecondition

/-- Stronger outcomes have a stronger precondition. -/
theorem wp_mono {x : Prog ε σ α} {Q Q' : α → σ → Prop} {E E' : σ → Prop} {s : σ} (h : wp x Q E s)
    (hQ : ∀ a s', Q a s' → Q' a s') (hE : ∀ s', E s' → E' s') : wp x Q' E' s := by
  unfold wp at h ⊢
  split
  · rename_i hr; rw [hr] at h; exact hQ _ _ h
  · rename_i hr; rw [hr] at h; exact hE _ h
  · rename_i hr; rw [hr] at h; exact h

/-- The precondition of a call that is known to return. -/
theorem wp_of_run {x : Prog ε σ α} {Q : α → σ → Prop} {E : σ → Prop} {s s' : σ} {a : α} (h : x.run s = .ok a s') :
    wp x Q E s ↔ Q a s' := by
  simp only [wp, h]

/-- A call that neither panics nor fails returns. -/
theorem exists_run_of_wp {x : Prog ε σ α} {Q : α → σ → Prop} {s : σ} (h : wp x Q (fun _ => False) s) :
    ∃ a s', x.run s = .ok a s' ∧ Q a s' := by
  unfold wp at h
  split at h
  · rename_i hr
    exact ⟨_, _, hr, h⟩
  · exact h.elim
  · exact h.elim

/-- What is known of the calls that return. -/
theorem wp_and_of_run {x : Prog ε σ α} {Q R : α → σ → Prop} {E : σ → Prop} {s : σ} (h : wp x Q E s)
    (hR : ∀ a s', x.run s = .ok a s' → R a s') : wp x (fun a s' => Q a s' ∧ R a s') E s := by
  unfold wp at h ⊢
  split
  · rename_i hr
    rw [hr] at h
    exact ⟨h, hR _ _ hr⟩
  · rename_i hr
    rwa [hr] at h
  · rename_i hr
    rwa [hr] at h

theorem wp_not_panics {x : Prog ε σ α} {Q : α → σ → Prop} {E : σ → Prop} {s : σ} (h : wp x Q E s) :
    ¬Panics x s := by
  rintro ⟨s', hr⟩
  simp only [wp, hr] at h

end Prog
