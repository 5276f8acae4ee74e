import Mathlib.Data.List.Forall2
import EthereumSentry.Lib.Runs

/-!
# Tasks that ask

A task asks something outside one question after the other, and goes on with the answers (`Ask`). Whoever answers may
answer the same question differently from one time to the next: `Leads told t t'` says that `t` goes on as `t'` after
answers that were told. The answers of an oracle lead a task to one value only (`Leads.eval`).

Several tasks may be under way at once. They are told answers in any order (`tellAt`), and their values are taken in the
order of the tasks, one as soon as all before it were taken (`takeFirst`). `Led` is what holds of them throughout.
-/

set_option autoImplicit false

/-- A task, with the answers to each question. -/
inductive Ask {Q : Type} (A : Q → Type) (α : Type) : Type where
  | done (a : α)
  | ask (q : Q) (k : A q → Ask A α)

namespace Ask

variable {Q : Type} {A : Q → Type} {α β : Type}

def bind : Ask A α → (α → Ask A β) → Ask A β
  | done a, f => f a
  | ask q k, f => ask q fun a => (k a).bind f

instance : Monad (Ask A) where
  pure := done
  bind := bind

/-- Ask one question. -/
def question (q : Q) : Ask A (A q) := ask q done

/-- What a task comes to when an oracle answers. -/
def eval (oracle : ∀ q, A q) : Ask A α → α
  | done a => a
  | ask q k => (k (oracle q)).eval oracle

@[simp] theorem eval_bind (oracle : ∀ q, A q) (t : Ask A α) (f : α → Ask A β) :
    (t >>= f).eval oracle = (f (t.eval oracle)).eval oracle := by
  change (t.bind f).eval oracle = _
  induction t with
  | done a => rfl
  | ask q k ih => exact ih (oracle q)

/-! ## Answers that were told -/

/-- A task is told the answer to the question that it asks. -/
def tell [DecidableEq Q] : Ask A α → (Σ q, A q) → Option (Ask A α)
  | done _, _ => none
  | ask q k, x => if h : x.1 = q then some (k (h ▸ x.2)) else none

theorem tell_eq_some [DecidableEq Q] {t t' : Ask A α} {x : Σ q, A q} :
    t.tell x = some t' ↔ ∃ k, t = .ask x.1 k ∧ t' = k x.2 := by
  obtain ⟨q, a⟩ := x
  constructor
  · intro h
    cases t with
    | done b => cases h
    | ask q' k =>
      simp only [tell] at h
      split at h
      · rename_i hq
        subst hq
        cases h
        exact ⟨k, rfl, rfl⟩
      · cases h
  · rintro ⟨k, rfl, rfl⟩
    exact dif_pos rfl

/-- The first task goes on as the second after some of the answers. -/
inductive Leads (told : List (Σ q, A q)) : Ask A α → Ask A α → Prop
  | refl (t : Ask A α) : Leads told t t
  | told {q : Q} {k : A q → Ask A α} {a : A q} {t : Ask A α} (ha : ⟨q, a⟩ ∈ told) (h : Leads told (k a) t) :
    Leads told (.ask q k) t

variable {told told' : List (Σ q, A q)} {t t' u : Ask A α}

theorem Leads.mono (h : Leads told t t') (hsub : told ⊆ told') : Leads told' t t' := by
  induction h with
  | refl t => exact .refl t
  | told ha _ ih => exact .told (hsub ha) ih

theorem Leads.trans (h : Leads told t t') (h' : Leads told t' u) : Leads told t u := by
  induction h with
  | refl => exact h'
  | told ha _ ih => exact .told ha (ih h')

/-- One more answer. -/
theorem Leads.tell [DecidableEq Q] {x : Σ q, A q} (h : Leads told t t') (ht : t'.tell x = some u) (hx : x ∈ told) :
    Leads told t u := by
  obtain ⟨k, rfl, rfl⟩ := tell_eq_some.1 ht
  exact h.trans (.told hx (.refl _))

/-- A task that is done does not go on. -/
@[simp] theorem leads_done {a : α} : Leads told (.done a) t ↔ t = .done a := by
  constructor
  · intro h
    cases h
    rfl
  · rintro rfl
    exact .refl _

@[simp] theorem leads_pure {a b : α} : Leads told (pure a) (.done b) ↔ b = a := by
  change Leads told (.done a) (.done b) ↔ _
  rw [leads_done]
  exact ⟨fun h => by cases h; rfl, fun h => by rw [h]⟩

@[simp] theorem leads_question {q : Q} {a : A q} : Leads told (question q) (.done a) ↔ ⟨q, a⟩ ∈ told := by
  constructor
  · intro h
    cases h with
    | told ha h =>
      cases h
      exact ha
  · exact fun ha => .told ha (.refl _)

/-- What a task in two parts comes to. -/
@[simp] theorem leads_bind {f : α → Ask A β} {b : β} :
    Leads told (t >>= f) (.done b) ↔ ∃ a, Leads told t (.done a) ∧ Leads told (f a) (.done b) := by
  change Leads told (t.bind f) (.done b) ↔ _
  constructor
  · intro h
    induction t with
    | done a => exact ⟨a, .refl _, h⟩
    | ask q k ih =>
      cases h with
      | told ha h =>
        obtain ⟨a, ht, hf⟩ := ih _ h
        exact ⟨a, .told ha ht, hf⟩
  · rintro ⟨a, ht, hf⟩
    generalize hd : Ask.done a = d at ht
    induction ht with
    | refl =>
      subst hd
      exact hf
    | told ha _ ih => exact .told ha (ih hd)

/-- The answers are those of an oracle. -/
def Truthful (oracle : ∀ q, A q) (told : List (Σ q, A q)) : Prop := ∀ x ∈ told, x.2 = oracle x.1

/-- **The answers of an oracle** do not change what a task comes to. -/
theorem Leads.eval {oracle : ∀ q, A q} (h : Leads told t t') (ho : Truthful oracle told) :
    t'.eval oracle = t.eval oracle := by
  induction h with
  | refl => rfl
  | told ha _ ih =>
    have ha := ho _ ha
    dsimp only at ha
    rw [ih, ha]
    rfl

/-- **An oracle leads a task to its end**, in a system that has the task as a part. -/
theorem exists_run [DecidableEq Q] {σ ε : Type} {step : σ → ε → Option σ} (oracle : ∀ q, A q) (part : Ask A α → σ)
    (event : (Σ q, A q) → ε) (hstep : ∀ t x t', t.tell x = some t' → step (part t) (event x) = some (part t'))
    (t : Ask A α) : ∃ xs, Truthful oracle xs ∧
      Runs.run step (part t) (xs.map event) = some (part (.done (t.eval oracle))) := by
  induction t with
  | done a => exact ⟨[], by simp [Truthful], rfl⟩
  | ask q k ih =>
    obtain ⟨xs, hxs, hrun⟩ := ih (oracle q)
    refine ⟨⟨q, oracle q⟩ :: xs, List.forall_mem_cons.2 ⟨rfl, hxs⟩, ?_⟩
    have hfirst := hstep (.ask q k) ⟨q, oracle q⟩ _ (tell_eq_some.2 ⟨k, rfl, rfl⟩)
    rw [List.map_cons, Runs.run_cons, hfirst, Option.bind_some]
    exact hrun

/-! ## Tasks that are under way at once -/

/-- One of the tasks is told an answer. -/
def tellAt [DecidableEq Q] (ts : List (Ask A α)) (i : Nat) (x : Σ q, A q) : Option (List (Ask A α)) :=
  ts[i]?.bind fun t => (t.tell x).map (ts.set i)

/-- Some tasks, of which the first have come to values that were taken, and those after them. -/
def Led (told : List (Σ q, A q)) (start : List (Ask A α)) (taken : List α) (now : List (Ask A α)) : Prop :=
  List.Forall₂ (Leads told) start (taken.map done ++ now)

variable {ts now now' : List (Ask A α)} {taken : List α} {a : α}

theorem Led.start (told : List (Σ q, A q)) (ts : List (Ask A α)) : Led told ts [] ts :=
  List.forall₂_same.2 fun t _ => .refl t

theorem Led.mono (h : Led told ts taken now) (hsub : told ⊆ told') : Led told' ts taken now :=
  List.Forall₂.imp (fun _ _ hl => hl.mono hsub) h

/-- The value of the first task is taken. -/
theorem Led.take (h : Led told ts taken (.done a :: now)) : Led told ts (taken ++ [a]) now := by
  unfold Led
  rw [List.map_append, List.append_assoc]
  exact h

/-- An answer leads one of the tasks on. -/
theorem Led.tellAt [DecidableEq Q] {i : Nat} {x : Σ q, A q} (h : Led told ts taken now)
    (hs : Ask.tellAt now i x = some now') (hx : x ∈ told) : Led told ts taken now' := by
  obtain ⟨t, hi, hs⟩ := Option.bind_eq_some_iff.1 hs
  obtain ⟨t', ht, rfl⟩ := Option.map_eq_some_iff.1 hs
  obtain ⟨hlt, rfl⟩ := List.getElem?_eq_some_iff.1 hi
  have hset : taken.map done ++ now.set i t' = (taken.map done ++ now).set (taken.length + i) t' := by
    rw [List.set_append_right _ _ (by simp)]
    simp
  have hlen := List.Forall₂.length_eq h
  refine List.forall₂_iff_get.2 ⟨by rw [hset, List.length_set, hlen], fun j hj hj' => ?_⟩
  have hold := (List.forall₂_iff_get.1 h).2 j hj (hlen ▸ hj)
  simp only [List.get_eq_getElem, hset, List.getElem_set] at hold ⊢
  split
  · rename_i hij
    subst hij
    refine hold.tell ?_ hx
    rw [List.getElem_append_right (by simp)]
    simpa using ht
  · exact hold

/-- **With an oracle** the values that were taken, and those of the tasks after them, are the values of all tasks. -/
theorem Led.eval {oracle : ∀ q, A q} (h : Led told ts taken now) (ho : Truthful oracle told) :
    taken ++ now.map (Ask.eval oracle) = ts.map (Ask.eval oracle) := by
  have hmap : (taken.map done ++ now).map (Ask.eval oracle) = ts.map (Ask.eval oracle) := by
    unfold Led at h
    generalize taken.map done ++ now = now at h
    induction h with
    | nil => rfl
    | cons hl _ ih => rw [List.map_cons, List.map_cons, hl.eval ho, ih]
  rw [← hmap, List.map_append, List.map_map]
  congr 1
  exact (List.map_id _).symm

end Ask
