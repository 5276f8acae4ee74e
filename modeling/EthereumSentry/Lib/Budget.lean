import Mathlib.Algebra.BigOperators.Group.List.Basic
import Mathlib.Data.Fintype.Card
import Mathlib.Data.Set.Finite.Basic
import Mathlib.Logic.Relation
import Mathlib.Tactic.Ring
import EthereumSentry.Lib.Runs

/-!
# Budgets

A state has a budget when every step leaves a smaller one: a run is then no longer than the budget it starts with
(`Runs.length_le_budget`). What a task costs together with all tasks it leads to is a price (`exists_price`), which
exists when the tasks are finitely many and none leads back to itself.
-/

set_option autoImplicit false

/-- **The rule of budgets**: when every step lowers the budget of a state, a run is paid for by the budget it starts
with. -/
theorem Runs.length_le_budget {σ ε : Type} {step : σ → ε → Option σ} {Budget : σ → Nat → Prop}
    (hstep : ∀ s e s' n, Budget s n → step s e = some s' → ∃ m < n, Budget s' m) :
    ∀ (es : List ε) {s s' : σ} {n : Nat}, Budget s n → run step s es = some s' → ∃ m, es.length + m ≤ n ∧ Budget s' m
  | [], _, _, n, hb, hr => by
    cases hr
    exact ⟨n, by simp, hb⟩
  | e :: es, s, s', n, hb, hr => by
    obtain ⟨t, ht, hr⟩ := Option.bind_eq_some_iff.1 hr
    obtain ⟨m, hm, hb⟩ := hstep s e t n hb ht
    obtain ⟨m', hm', hb⟩ := length_le_budget hstep es hb hr
    exact ⟨m', by rw [List.length_cons]; omega, hb⟩

/-- One summand is replaced by another. -/
theorem List.sum_set_add {M : Type} [AddCommMonoid M] : ∀ {l : List M} {i : Nat} {a : M} (b : M), l[i]? = some a →
    (l.set i b).sum + a = l.sum + b
  | x :: l, 0, a, b, h => by
    cases h
    rw [List.set_cons_zero, List.sum_cons, List.sum_cons, add_right_comm, add_comm b, add_right_comm]
  | x :: l, i + 1, a, b, h => by
    rw [List.set_cons_succ, List.sum_cons, List.sum_cons, add_assoc x, add_assoc x,
      sum_set_add b (by rwa [List.getElem?_cons_succ] at h)]

namespace Acyclic

variable {α : Type} {next : α → List α} {S : Set α}

/-- Where what a thing leads to has a greater rank, no thing leads back to itself. -/
theorem of_rank (rank : α → Nat) (hS : ∀ a ∈ S, ∀ b ∈ next a, b ∈ S) (hrank : ∀ a ∈ S, ∀ b ∈ next a, rank a < rank b) :
    ∀ a ∈ S, ¬Relation.TransGen (fun a b => b ∈ next a) a a := by
  have hpath : ∀ {a b}, a ∈ S → Relation.TransGen (fun a b => b ∈ next a) a b → b ∈ S ∧ rank a < rank b :=
    fun {a b} ha h => by
      induction h with
      | single h => exact ⟨hS _ ha _ h, hrank _ ha _ h⟩
      | tail _ h ih => exact ⟨hS _ ih.1 _ h, ih.2.trans (hrank _ ih.1 _ h)⟩
  exact fun a ha h => lt_irrefl _ (hpath ha h).2

/-- Where finitely many things lead to each other, and none to itself, every descent ends. -/
theorem wellFounded (hS : S.Finite) (hS' : ∀ a ∈ S, ¬Relation.TransGen (fun a b => b ∈ next a) a a) :
    WellFounded fun b a => a ∈ S ∧ b ∈ next a := by
  have : Finite S := hS
  let below : S → S → Prop := fun b a => Relation.TransGen (fun a b => b ∈ next a) a.1 b.1
  have : IsTrans S below := ⟨fun _ _ _ hab hbc => hbc.trans hab⟩
  have : Std.Irrefl below := ⟨fun a => hS' a.1 a.2⟩
  have hacc : ∀ a : S, Acc (fun b a => a ∈ S ∧ b ∈ next a) a.1 := fun a => by
    induction a using (Finite.wellFounded_of_trans_of_irrefl below).induction with
    | _ a ih =>
      refine ⟨a.1, fun b hb => ?_⟩
      by_cases hbS : b ∈ S
      · exact ih ⟨b, hbS⟩ (.single hb.2)
      · exact ⟨b, fun c hc => absurd hc.1 hbS⟩
  refine ⟨fun a => ?_⟩
  by_cases ha : a ∈ S
  · exact hacc ⟨a, ha⟩
  · exact ⟨a, fun b hb => absurd hb.1 ha⟩

/-- Where every descent ends, each thing has a price at each depth: its own there, and that of what it leads to one
level further down. -/
theorem exists_price (hwf : WellFounded fun b a => a ∈ S ∧ b ∈ next a) (base : Nat → Nat) :
    ∃ price : α → Nat → Nat, ∀ a ∈ S, ∀ d, price a d = base d + ((next a).map (price · (d + 1))).sum := by
  classical
  let sums : ∀ a, (∀ b, a ∈ S ∧ b ∈ next a → Nat → Nat) → Nat → Nat := fun a ih d =>
    base d + ((next a).attach.map fun b => if ha : a ∈ S then ih b.1 ⟨ha, b.2⟩ (d + 1) else 0).sum
  refine ⟨hwf.fix sums, fun a ha d => ?_⟩
  have hmap : (next a).attach.map (fun b => hwf.fix sums b.1 (d + 1)) = (next a).map (hwf.fix sums · (d + 1)) :=
    List.attach_map_val (f := fun b => hwf.fix sums b (d + 1))
  rw [WellFounded.fix_eq, ← hmap]
  simp only [sums, dif_pos ha]

end Acyclic
