import EthereumSentry.Lib.Prog

/-!
# Twin calls

`Twin x y Q E s t` compares the call `x` from the state `s` with the call `y` from the state `t`: both return the same
value, in states related by `Q`; or both fail with the same error, in states related by `E`; or both panic. Like
weakest preconditions, it is computed along the calls. A call that ends alike from a state and from every completion of
it does not panic for what the state lacks (`not_lacks`).
-/

set_option autoImplicit false

namespace Prog

variable {ε ε' σ τ α β : Type}

/-- The two results are twins. -/
inductive TwinResult (Q : α → σ → σ → Prop) (E : σ → σ → Prop) :
    EStateM.Result (Stop ε) σ α → EStateM.Result (Stop ε) σ α → Prop
  | ok {a : α} {s t : σ} (h : Q a s t) : TwinResult Q E (.ok a s) (.ok a t)
  | fail {e : ε} {s t : σ} (h : E s t) : TwinResult Q E (.error (.err e) s) (.error (.err e) t)
  | panic {s t : σ} : TwinResult Q E (.error .panic s) (.error .panic t)

/-- The two calls are twins. -/
def Twin (x y : Prog ε σ α) (Q : α → σ → σ → Prop) (E : σ → σ → Prop) (s t : σ) : Prop :=
  TwinResult Q E (x.run s) (y.run t)

section Rules

variable (Q : α → σ → σ → Prop) (E : σ → σ → Prop) (s t : σ)

@[simp] theorem twin_pure (a : α) : Twin (pure a : Prog ε σ α) (pure a) Q E s t ↔ Q a s t :=
  ⟨fun h => by cases h; assumption, .ok⟩

@[simp] theorem twin_fail (e : ε) : Twin (fail e : Prog ε σ α) (fail e) Q E s t ↔ E s t :=
  ⟨fun h => by cases h; assumption, .fail⟩

@[simp] theorem twin_crash : Twin (crash : Prog ε σ α) crash Q E s t := .panic

@[simp] theorem twin_modify (f g : σ → σ) (Q : PUnit → σ → σ → Prop) :
    Twin (modify f : Prog ε σ PUnit) (modify g) Q E s t ↔ Q ⟨⟩ (f s) (g t) :=
  ⟨fun h => by cases h; assumption, .ok⟩

@[simp] theorem twin_get_bind (f g : σ → Prog ε σ α) :
    Twin (get >>= f) (get >>= g) Q E s t ↔ Twin (f s) (g t) Q E s t := Iff.rfl

@[simp] theorem twin_modify_bind (f g : σ → σ) (k l : PUnit → Prog ε σ α) :
    Twin (modify f >>= k) (modify g >>= l) Q E s t ↔ Twin (k ⟨⟩) (l ⟨⟩) Q E (f s) (g t) := Iff.rfl

@[simp] theorem twin_unwrap_bind (o : Option β) (f g : β → Prog ε σ α) :
    Twin (unwrap o >>= f) (unwrap o >>= g) Q E s t ↔ ∀ b, o = some b → Twin (f b) (g b) Q E s t := by
  cases o with
  | none => exact iff_of_true .panic nofun
  | some b => exact ⟨fun h _ hb => by cases hb; exact h, fun h => h b rfl⟩

@[simp] theorem twin_ofExcept_bind (c : ε' → ε) (r : Except ε' β) (f g : β → Prog ε σ α) :
    Twin (ofExcept c r >>= f) (ofExcept c r >>= g) Q E s t ↔
      (∀ b, r = .ok b → Twin (f b) (g b) Q E s t) ∧ ∀ e, r = .error e → E s t := by
  cases r with
  | ok b => exact ⟨fun h => ⟨fun _ hb => by cases hb; exact h, nofun⟩, fun h => h.1 b rfl⟩
  | error e => exact ⟨fun h => ⟨nofun, fun _ _ => by cases h; assumption⟩, fun h => .fail (h.2 e rfl)⟩

@[simp] theorem twin_splitAt_bind (b : List β) (n : Nat) (f g : List β × List β → Prog ε σ α) :
    Twin (splitAt b n >>= f) (splitAt b n >>= g) Q E s t ↔
      (n ≤ b.length → Twin (f (b.take n, b.drop n)) (g (b.take n, b.drop n)) Q E s t) := by
  unfold splitAt
  split
  · rename_i h
    exact ⟨fun ha _ => ha, fun ha => ha h⟩
  · rename_i h
    exact iff_of_true .panic fun hn => absurd hn h

@[simp] theorem twin_sub_bind (a b : Nat) (f g : Nat → Prog ε σ α) :
    Twin (sub a b >>= f) (sub a b >>= g) Q E s t ↔ (b ≤ a → Twin (f (a - b)) (g (a - b)) Q E s t) := by
  unfold sub
  split
  · rename_i h
    exact ⟨fun ha _ => ha, fun ha => ha h⟩
  · rename_i h
    exact iff_of_true .panic fun hn => absurd hn h

@[simp] theorem twin_ite {p : Prop} [Decidable p] (x y x' y' : Prog ε σ α) :
    Twin (if p then x else y) (if p then x' else y') Q E s t ↔
      if p then Twin x x' Q E s t else Twin y y' Q E s t := by
  split <;> rfl

@[simp] theorem twin_crash_bind (f g : β → Prog ε σ α) : Twin (crash >>= f) (crash >>= g) Q E s t := .panic

variable {Q E s t}

/-- **The rule of sequences.** -/
theorem twin_bind {x y : Prog ε σ β} {f g : β → Prog ε σ α}
    (h : Twin x y (fun b => Twin (f b) (g b) Q E) E s t) : Twin (x >>= f) (y >>= g) Q E s t := by
  unfold Twin at h ⊢
  rw [EStateM.run_bind, EStateM.run_bind]
  generalize x.run s = r, y.run t = r' at h
  cases h with
  | ok h => exact h
  | fail h => exact .fail h
  | panic => exact .panic

/-- Calls on a part of the state. -/
theorem twin_zoom {part : τ → σ} {put : σ → τ → τ} {c : ε → ε'} {x y : Prog ε σ α} {Q : α → τ → τ → Prop}
    {E : τ → τ → Prop} {s t : τ}
    (h : Twin x y (fun a s' t' => Q a (put s' s) (put t' t)) (fun s' t' => E (put s' s) (put t' t)) (part s) (part t)) :
    Twin (zoom part put c x) (zoom part put c y) Q E s t := by
  simp only [Twin, zoom, EStateM.run] at h ⊢
  generalize x (part s) = r, y (part t) = r' at h
  cases h with
  | ok h => exact .ok h
  | fail h => exact .fail h
  | panic => exact .panic

/-- Calls that are known to return. -/
theorem twin_of_run {x y : Prog ε σ α} {s' t' : σ} {a : α} (hx : x.run s = .ok a s') (hy : y.run t = .ok a t') :
    Twin x y Q E s t ↔ Q a s' t' := by
  rw [Twin, hx, hy]
  exact ⟨fun h => by cases h; assumption, .ok⟩

theorem twin_mono {x y : Prog ε σ α} {Q' : α → σ → σ → Prop} {E' : σ → σ → Prop} (h : Twin x y Q E s t)
    (hQ : ∀ a s' t', Q a s' t' → Q' a s' t') (hE : ∀ s' t', E s' t' → E' s' t') : Twin x y Q' E' s t := by
  unfold Twin at h ⊢
  generalize x.run s = r, y.run t = r' at h
  cases h with
  | ok h => exact .ok (hQ _ _ _ h)
  | fail h => exact .fail (hE _ _ h)
  | panic => exact .panic

theorem Twin.panics_iff {x y : Prog ε σ α} (h : Twin x y Q E s t) : Panics x s ↔ Panics y t := by
  unfold Twin at h
  unfold Panics
  generalize x.run s = r, y.run t = r' at h
  cases h <;> simp

end Rules

/-- The call panics, and would not if the state were completed. -/
def Lacks (Completes : σ → σ → Prop) (x : Prog ε σ α) (s : σ) : Prop :=
  Panics x s ∧ ∃ t, Completes s t ∧ ¬Panics x t

/-- A call that ends alike from every completion lacks nothing. -/
theorem not_lacks {Completes : σ → σ → Prop} {x : Prog ε σ α} {Q : α → σ → σ → Prop} {E : σ → σ → Prop} {s : σ}
    (h : ∀ t, Completes s t → Twin x x Q E s t) : ¬Lacks Completes x s := by
  rintro ⟨hp, t, ht, hn⟩
  exact hn ((h t ht).panics_iff.1 hp)

end Prog
