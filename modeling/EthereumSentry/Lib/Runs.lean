import Mathlib.Data.List.Induction
import Mathlib.Logic.Basic
import Mathlib.Tactic.Common

/-!
# Runs of a step function

A system takes steps on events, where a step may be impossible in a state (`none`). A run is a sequence of steps.
`Along ok` says that every step of a run meets a condition, and `Along.invariant` is the rule of invariants: what every
such step keeps, holds wherever the run leads.
`Always P` says that a condition holds in every state of a run; `always_iff_along` compares the two. `exists_rest` is the
rule of progress.
-/

set_option autoImplicit false

namespace Runs

variable {σ ε : Type} (step : σ → ε → Option σ)

/-- Take the steps on some events, one after the other. -/
def run : σ → List ε → Option σ
  | s, [] => some s
  | s, e :: es => (step s e).bind (run · es)

@[simp] theorem run_nil (s : σ) : run step s [] = some s := rfl

@[simp] theorem run_cons (s : σ) (e : ε) (es : List ε) : run step s (e :: es) = (step s e).bind (run step · es) := rfl

/-- A run goes on where another one leads. -/
theorem run_append : ∀ (es fs : List ε) (s : σ), run step s (es ++ fs) = (run step s es).bind (run step · fs)
  | [], _, _ => rfl
  | e :: es, fs, s => by
    rw [List.cons_append, run_cons, run_cons, Option.bind_assoc]
    congr 1
    funext t
    exact run_append es fs t

/-- Every step of the run meets the condition. -/
def Along (ok : σ → ε → Prop) : σ → List ε → Prop
  | _, [] => True
  | s, e :: es => ok s e ∧ ∀ s', step s e = some s' → Along ok s' es

/-- Every state of the run meets the condition. -/
def Always (P : σ → Prop) : σ → List ε → Prop
  | s, [] => P s
  | s, e :: es => P s ∧ ∀ s', step s e = some s' → Always P s' es

variable {step}

/-- Whether the steps of a run meet a condition can be computed. -/
instance Along.decidable {ok : σ → ε → Prop} [∀ s e, Decidable (ok s e)] : (s : σ) → (es : List ε) →
    Decidable (Along step ok s es)
  | _, [] => .isTrue trivial
  | s, e :: es => match h : step s e with
    | none => decidable_of_iff (ok s e) ⟨fun ho => ⟨ho, fun t ht => by simp [h] at ht⟩, And.left⟩
    | some t => @decidable_of_iff _ (ok s e ∧ Along step ok t es)
      ⟨fun ha => ⟨ha.1, fun t' ht => by
        rw [h] at ht
        cases ht
        exact ha.2⟩, fun ha => ⟨ha.1, ha.2 t h⟩⟩ (@instDecidableAnd _ _ _ (Along.decidable t es))

/-- A condition that these events meet in any state. -/
theorem Along.of_mem {ok : σ → ε → Prop} {es : List ε} (h : ∀ e ∈ es, ∀ s, ok s e) : ∀ {s : σ}, Along step ok s es := by
  induction es with
  | nil => exact trivial
  | cons e es ih => exact ⟨h e (by simp) _, fun s' _ => ih fun x hx => h x (by simp [hx])⟩

/-- **The rule of invariants**: what every step that meets the condition keeps, holds wherever a run leads. -/
theorem Along.invariant {ok : σ → ε → Prop} {Inv : σ → Prop}
    (hstep : ∀ s e s', Inv s → ok s e → step s e = some s' → Inv s') :
    ∀ (es : List ε) {s s' : σ}, Along step ok s es → Inv s → run step s es = some s' → Inv s'
  | [], _, _, _, hi, hr => by
    cases hr
    exact hi
  | e :: es, s, s', ha, hi, hr => by
    obtain ⟨t, ht, hr⟩ := Option.bind_eq_some_iff.1 hr
    exact invariant hstep es (ha.2 t ht) (hstep s e t hi ha.1 ht) hr

/-- What such steps keep holds in every state of the run. -/
theorem Along.always {ok : σ → ε → Prop} {Inv : σ → Prop}
    (hstep : ∀ s e s', Inv s → ok s e → step s e = some s' → Inv s') :
    ∀ {es : List ε} {s : σ}, Inv s → Along step ok s es → Always step Inv s es
  | [], _, hi, _ => hi
  | e :: _, s, hi, ha => ⟨hi, fun s' hs => Along.always hstep (hstep s e s' hi ha.1 hs) (ha.2 s' hs)⟩

/-- A condition that the steps meet next to an invariant. -/
theorem Along.carry {ok ok' : σ → ε → Prop} {Inv : σ → Prop}
    (hstep : ∀ s e s', Inv s → ok s e → step s e = some s' → Inv s') (hok : ∀ s e, Inv s → ok s e → ok' s e) :
    ∀ {es : List ε} {s : σ}, Inv s → Along step ok s es → Along step ok' s es
  | [], _, _, _ => trivial
  | e :: _, s, hi, ha =>
    ⟨hok s e hi ha.1, fun s' hs => Along.carry hstep hok (hstep s e s' hi ha.1 hs) (ha.2 s' hs)⟩

/-- What is always met is met at the start. -/
theorem Always.head {P : σ → Prop} {es : List ε} {s : σ} (h : Always step P s es) : P s := by
  cases es with
  | nil => exact h
  | cons => exact h.1

theorem Always.mono {P Q : σ → Prop} (h : ∀ s, P s → Q s) : ∀ {es : List ε} {s : σ}, Always step P s es →
    Always step Q s es
  | [], s, hp => h s hp
  | _ :: _, s, hp => ⟨h s hp.1, fun s' hs => (hp.2 s' hs).mono h⟩

/-- A condition that is carried along a run by the steps to states that meet another one. -/
theorem Always.carry {P Q : σ → Prop} (h : ∀ s e s', Q s → step s e = some s' → P s' → Q s') :
    ∀ {es : List ε} {s : σ}, Q s → Always step P s es → Always step Q s es
  | [], _, hq, _ => hq
  | e :: es, s, hq, hp => ⟨hq, fun s' hs => by
    have hp' := hp.2 s' hs
    exact Always.carry h (h s e s' hq hs hp'.head) hp'⟩

/-- What is always met is met where the run leads. -/
theorem Always.run {P : σ → Prop} : ∀ {es : List ε} {s s' : σ}, Always step P s es → run step s es = some s' → P s'
  | [], _, _, h, hr => by
    cases hr
    exact h
  | e :: es, s, s', h, hr => by
    obtain ⟨t, ht, hr⟩ := Option.bind_eq_some_iff.1 hr
    exact (h.2 t ht).run hr

/-- A condition that, next to an invariant, is kept by exactly the steps that meet `ok`, is always met exactly when all
steps meet `ok`. -/
theorem always_iff_along {ok : σ → ε → Prop} {Inv P : σ → Prop} (hinv : ∀ s e s', Inv s → step s e = some s' → Inv s')
    (hstep : ∀ s e, Inv s → P s → ((∀ s', step s e = some s' → P s') ↔ ok s e)) :
    ∀ (es : List ε) {s : σ}, Inv s → P s → (Always step P s es ↔ Along step ok s es)
  | [], _, _, hp => iff_of_true hp trivial
  | e :: es, s, hi, hp => by
    constructor
    · rintro ⟨-, h⟩
      have hok : ok s e := (hstep s e hi hp).1 fun s' hs => (h s' hs).head
      refine ⟨hok, fun s' hs => ?_⟩
      exact (always_iff_along hinv hstep es (hinv s e s' hi hs) ((hstep s e hi hp).2 hok s' hs)).1 (h s' hs)
    · rintro ⟨hok, h⟩
      refine ⟨hp, fun s' hs => ?_⟩
      exact (always_iff_along hinv hstep es (hinv s e s' hi hs) ((hstep s e hi hp).2 hok s' hs)).2 (h s' hs)

/-- The rule of invariants for runs of arbitrary steps. -/
theorem invariant {Inv : σ → Prop} (hstep : ∀ s e s', Inv s → step s e = some s' → Inv s') :
    ∀ (es : List ε) {s s' : σ}, Inv s → run step s es = some s' → Inv s'
  | [], _, _, hi, hr => by
    cases hr
    exact hi
  | e :: es, s, s', hi, hr => by
    obtain ⟨t, ht, hr⟩ := Option.bind_eq_some_iff.1 hr
    exact invariant hstep es (hstep s e t hi ht) hr

/-- A run with one more step. -/
theorem run_snoc (es : List ε) (e : ε) (s : σ) : run step s (es ++ [e]) = (run step s es).bind (step · e) := by
  rw [run_append]
  congr 1
  funext t
  rw [run_cons]
  cases step t e <;> rfl

/-- **The rule of invariants over the past**: what holds at the start, and what every step keeps for the events so far,
holds wherever a run leads. -/
theorem history {Inv : List ε → σ → Prop} {s : σ} (h₀ : Inv [] s)
    (hstep : ∀ es t e t', run step s es = some t → Inv es t → step t e = some t' → Inv (es ++ [e]) t') (es : List ε) :
    ∀ {s' : σ}, run step s es = some s' → Inv es s' := by
  induction es using List.reverseRecOn with
  | nil =>
    intro s' hr
    cases hr
    exact h₀
  | append_singleton es e ih =>
    intro s' hr
    rw [run_snoc] at hr
    obtain ⟨t, ht, he⟩ := Option.bind_eq_some_iff.1 hr
    exact hstep es t e s' ht (ih ht) he

/-- **The rule of progress**: when from every state a run leads to rest or to a state of lower measure, a run leads to
rest. -/
theorem exists_rest {Rest : σ → Prop} {ok : ε → Prop} (measure : σ → Nat)
    (hdown : ∀ s, ∃ es s', (∀ e ∈ es, ok e) ∧ run step s es = some s' ∧ (Rest s' ∨ measure s' < measure s)) (s : σ) :
    ∃ es s', (∀ e ∈ es, ok e) ∧ run step s es = some s' ∧ Rest s' := by
  induction hk : measure s using Nat.strongRecOn generalizing s with
  | _ k ih =>
    obtain ⟨es, t, hes, hrun, hrest | hlt⟩ := hdown s
    · exact ⟨es, t, hes, hrun, hrest⟩
    · obtain ⟨fs, s', hfs, hrun', hrest⟩ := ih _ (hk ▸ hlt) t rfl
      refine ⟨es ++ fs, s', fun e he => (List.mem_append.1 he).elim (hes e) (hfs e), ?_, hrest⟩
      rw [run_append, hrun, Option.bind_some, hrun']

end Runs
