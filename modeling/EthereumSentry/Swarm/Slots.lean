import Mathlib.Logic.Function.Basic
import Mathlib.Tactic.Common

/-!
# Sessions with exclusive slots

Peers of any type have at most one session at a time. A session is born when a peer without one is claimed, it is
registered and installed while no other session is set up, it closes, is torn down, and leaves its slot at the very end
(`Slots.Step`). The calls that announce a session (`Call.connect`) and its closing (`Call.disconnect`) then alternate
for each peer, and a peer that is about to be registered is not registered already (`Slots.WellFormed`,
`Slots.Step.wellFormed`). A session has the pipes of its peer from its registration until it is torn down
(`Slots.Piped`, `Slots.Step.piped`).
-/

set_option autoImplicit false

namespace EthereumSentry

/-- What is called for a peer. -/
inductive Call where
  | connect
  | disconnect
  deriving DecidableEq, Repr

/-- The calls alternate, and begin with `connect`. -/
def Alternates (calls : List Call) : Prop := ∀ (i : Nat) (c : Call), calls[i]? = some c → (c = .connect ↔ i % 2 = 0)

theorem alternates_nil : Alternates [] := fun _ _ h => by simp at h

/-- One more call. -/
theorem alternates_append {calls : List Call} {c : Call} (h : Alternates calls)
    (hc : c = .connect ↔ calls.length % 2 = 0) : Alternates (calls ++ [c]) := by
  intro i d hd
  rcases Nat.lt_trichotomy i calls.length with hi | hi | hi
  · rw [List.getElem?_append_left hi] at hd
    exact h i d hd
  · subst hi
    simp only [List.getElem?_concat_length, Option.some.injEq] at hd
    exact hd ▸ hc
  · rw [List.getElem?_eq_none (by simp; omega)] at hd
    cases hd

/-- How far a session has come. -/
inductive Life where
  /-- It is being set up, and nothing of it runs that could close it. -/
  | born
  | live
  /-- Its closing has been announced. -/
  | closing
  | torn
  /-- It has left its slot. -/
  | gone
  deriving DecidableEq, Repr

/-- The session has been announced, and its closing has not. -/
def Life.Open (l : Life) : Prop := l = .born ∨ l = .live

/-- The sessions of some peers. -/
@[ext] structure Slots (P : Type) where
  /-- The session that is installed for a peer. -/
  holder : P → Option Nat
  life : Nat → Option (P × Life)
  /-- The session that is set up, and whether it is registered. -/
  setup : Option (P × Nat × Bool)
  /-- The session that is registered for a peer. -/
  pipes : P → Option Nat
  calls : P → List Call

namespace Slots

variable {P : Type}

open Function (update)

/-- No session has been set up. -/
def empty (P : Type) : Slots P := ⟨fun _ => none, fun _ => none, none, fun _ => none, fun _ => []⟩

/-- What can happen. -/
inductive Step [DecidableEq P] : Slots P → Slots P → Prop where
  | claim {s : Slots P} {p : P} {sid : Nat} (hs : s.setup = none) (hh : s.holder p = none) (hl : s.life sid = none) :
    Step s { s with
      setup := some (p, sid, false)
      life := update s.life sid (some (p, .born))
      calls := update s.calls p (s.calls p ++ [.connect]) }
  | register {s : Slots P} {p : P} {sid : Nat} (hs : s.setup = some (p, sid, false)) :
    Step s { s with setup := some (p, sid, true), pipes := update s.pipes p (some sid) }
  | spawn {s : Slots P} {p : P} {sid : Nat} (hs : s.setup = some (p, sid, true)) (hl : s.life sid = some (p, .born)) :
    Step s { s with life := update s.life sid (some (p, .live)) }
  | install {s : Slots P} {p : P} {sid : Nat} (hs : s.setup = some (p, sid, true)) :
    Step s { s with setup := none, holder := update s.holder p (some sid) }
  | close {s : Slots P} {p : P} {sid : Nat} (hl : s.life sid = some (p, .live)) :
    Step s { s with
      life := update s.life sid (some (p, .closing))
      calls := update s.calls p (s.calls p ++ [.disconnect]) }
  | teardown {s : Slots P} {p : P} {sid : Nat} (hl : s.life sid = some (p, .closing)) :
    Step s { s with life := update s.life sid (some (p, .torn)), pipes := update s.pipes p none }
  | release {s : Slots P} {p : P} {sid : Nat} (hs : s.setup = none) (hl : s.life sid = some (p, .torn)) :
    Step s { s with life := update s.life sid (some (p, .gone)), holder := update s.holder p none }

/-- Every session that is not gone has the slot of its peer, or is about to get it. -/
structure WellFormed (s : Slots P) : Prop where
  holder : ∀ p sid, s.holder p = some sid → ∃ l, s.life sid = some (p, l) ∧ l ≠ .gone
  held : ∀ sid p l, s.life sid = some (p, l) → l ≠ .gone → s.holder p = some sid ∨ ∃ r, s.setup = some (p, sid, r)
  setup : ∀ p sid r, s.setup = some (p, sid, r) → s.holder p = none ∧ ∃ l, s.life sid = some (p, l) ∧ l ≠ .gone
  fresh : ∀ p sid, s.setup = some (p, sid, false) → s.pipes p = none ∧ s.life sid = some (p, .born)
  pipes : ∀ p sid, s.pipes p = some sid → ∃ l, s.life sid = some (p, l) ∧ l ≠ .torn ∧ l ≠ .gone
  alternates : ∀ p, Alternates (s.calls p)
  announced : ∀ p, (s.calls p).length % 2 = 1 ↔ ∃ sid l, s.life sid = some (p, l) ∧ l.Open

variable {s s' : Slots P}

theorem empty_wellFormed : (empty P).WellFormed where
  holder := by simp [empty]
  held := by simp [empty]
  setup := by simp [empty]
  fresh := by simp [empty]
  pipes := by simp [empty]
  alternates := fun _ => alternates_nil
  announced := by simp [empty]

/-- **A peer has one session** that is not gone. -/
theorem WellFormed.unique (h : s.WellFormed) {p : P} {sid sid' : Nat} {l l' : Life} (hl : s.life sid = some (p, l))
    (hg : l ≠ .gone) (hl' : s.life sid' = some (p, l')) (hg' : l' ≠ .gone) : sid = sid' := by
  rcases h.held sid p l hl hg with h₁ | ⟨r, h₁⟩ <;> rcases h.held sid' p l' hl' hg' with h₂ | ⟨r', h₂⟩
  · exact Option.some.inj (h₁.symm.trans h₂)
  · rw [(h.setup p sid' r' h₂).1] at h₁
    cases h₁
  · rw [(h.setup p sid r h₁).1] at h₂
    cases h₂
  · rw [h₁] at h₂
    cases h₂
    rfl

/-- A peer without a slot has no session, when none is set up. -/
theorem WellFormed.gone (h : s.WellFormed) {p : P} (hs : s.setup = none) (hh : s.holder p = none) {sid : Nat} {l : Life}
    (hl : s.life sid = some (p, l)) : l = .gone := by
  by_contra hg
  rcases h.held sid p l hl hg with h₁ | ⟨r, h₁⟩
  · rw [hh] at h₁
    cases h₁
  · rw [hs] at h₁
    cases h₁

/-- The life of a session changes. -/
theorem life_update {sid sid' : Nat} {x : Option (P × Life)} {y : P × Life}
    (h : update s.life sid x sid' = some y) : (sid' = sid ∧ x = some y) ∨ (sid' ≠ sid ∧ s.life sid' = some y) := by
  by_cases hs : sid' = sid
  · subst hs
    rw [Function.update_self] at h
    exact .inl ⟨rfl, h⟩
  · rw [Function.update_of_ne hs] at h
    exact .inr ⟨hs, h⟩

section

variable [DecidableEq P] {p : P} {sid : Nat}

/-- Claiming a slot keeps the slots well formed. -/
theorem claim_wellFormed (h : s.WellFormed) (hs : s.setup = none) (hh : s.holder p = none) (hl : s.life sid = none) :
    WellFormed { s with
      setup := some (p, sid, false)
      life := update s.life sid (some (p, .born))
      calls := update s.calls p (s.calls p ++ [.connect]) } := by
  -- the new session is no other one
  have hne : ∀ {sid' : Nat} {y : P × Life}, s.life sid' = some y → sid' ≠ sid := fun hy he => by
    rw [he, hl] at hy
    cases hy
  have hkeep : ∀ {sid' : Nat} {y : P × Life}, s.life sid' = some y →
      update s.life sid (some (p, .born)) sid' = some y := fun hy => by rw [Function.update_of_ne (hne hy), hy]
  have hnone : ∀ {sid' : Nat} {l : Life}, s.life sid' = some (p, l) → l = .gone := fun hy => h.gone hs hh hy
  have heven : (s.calls p).length % 2 = 0 := by
    rw [← Nat.mod_two_ne_one]
    intro hodd
    obtain ⟨sid', l, hy, ho⟩ := (h.announced p).1 hodd
    rw [hnone hy] at ho
    rcases ho with ho | ho <;> cases ho
  constructor
  · intro q sid' hq
    obtain ⟨l, hy, hg⟩ := h.holder q sid' hq
    exact ⟨l, hkeep hy, hg⟩
  · intro sid' q l hy hg
    rcases life_update hy with ⟨rfl, hx⟩ | ⟨-, hy⟩
    · cases hx
      exact .inr ⟨false, rfl⟩
    · rcases h.held sid' q l hy hg with hq | ⟨r, hr⟩
      · exact .inl hq
      · rw [hs] at hr
        cases hr
  · rintro q sid' r hr
    cases hr
    exact ⟨hh, .born, Function.update_self .., by decide⟩
  · rintro q sid' hr
    cases hr
    refine ⟨?_, Function.update_self ..⟩
    by_contra hp
    obtain ⟨sid', hp⟩ := Option.ne_none_iff_exists'.1 hp
    obtain ⟨l, hy, -, hg⟩ := h.pipes p sid' hp
    exact hg (hnone hy)
  · intro q sid' hq
    obtain ⟨l, hy, hg⟩ := h.pipes q sid' hq
    exact ⟨l, hkeep hy, hg⟩
  · intro q
    by_cases hq : q = p
    · subst hq
      simp only [Function.update_self]
      exact alternates_append (h.alternates q) (by simp [heven])
    · simp only [Function.update_of_ne hq]
      exact h.alternates q
  · intro q
    by_cases hq : q = p
    · subst hq
      simp only [Function.update_self, List.length_append, List.length_singleton]
      exact iff_of_true (by omega) ⟨sid, .born, Function.update_self .., .inl rfl⟩
    · simp only [Function.update_of_ne hq, h.announced q]
      constructor
      · rintro ⟨sid', l, hy, ho⟩
        exact ⟨sid', l, hkeep hy, ho⟩
      · rintro ⟨sid', l, hy, ho⟩
        rcases life_update hy with ⟨-, hx⟩ | ⟨-, hy⟩
        · cases hx
          exact absurd rfl hq
        · exact ⟨sid', l, hy, ho⟩

/-- Registering the session that is set up keeps the slots well formed. -/
theorem register_wellFormed (h : s.WellFormed) (hs : s.setup = some (p, sid, false)) :
    WellFormed { s with setup := some (p, sid, true), pipes := update s.pipes p (some sid) } := by
  obtain ⟨-, hborn⟩ := h.fresh p sid hs
  constructor
  · exact h.holder
  · intro sid' q l hy hg
    rcases h.held sid' q l hy hg with hq | ⟨r, hr⟩
    · exact .inl hq
    · rw [hs] at hr
      cases hr
      exact .inr ⟨true, rfl⟩
  · rintro q sid' r hr
    cases hr
    exact h.setup p sid false hs
  · rintro q sid' hr
    cases hr
  · intro q sid' hq
    by_cases hqp : q = p
    · subst hqp
      simp only [Function.update_self, Option.some.injEq] at hq
      subst hq
      exact ⟨.born, hborn, by decide, by decide⟩
    · simp only [Function.update_of_ne hqp] at hq
      exact h.pipes q sid' hq
  · exact h.alternates
  · exact h.announced

/-- Installing the session that is set up keeps the slots well formed. -/
theorem install_wellFormed (h : s.WellFormed) (hs : s.setup = some (p, sid, true)) :
    WellFormed { s with setup := none, holder := update s.holder p (some sid) } := by
  obtain ⟨hh, hlife⟩ := h.setup p sid true hs
  constructor
  · intro q sid' hq
    by_cases hqp : q = p
    · subst hqp
      simp only [Function.update_self, Option.some.injEq] at hq
      subst hq
      exact hlife
    · simp only [Function.update_of_ne hqp] at hq
      exact h.holder q sid' hq
  · intro sid' q l hy hg
    rcases h.held sid' q l hy hg with hq | ⟨r, hr⟩
    · have hqp : q ≠ p := fun he => by
        rw [he, hh] at hq
        cases hq
      exact .inl (by simp only [Function.update_of_ne hqp, hq])
    · rw [hs] at hr
      cases hr
      exact .inl (Function.update_self ..)
  · rintro q sid' r hr
    cases hr
  · rintro q sid' hr
    cases hr
  · exact h.pipes
  · exact h.alternates
  · exact h.announced

/-- A session that goes on and keeps its slot keeps the slots well formed, when it keeps its pipes unless it is torn
down and its announcements say whether it is open. -/
theorem advance_wellFormed (h : s.WellFormed) {l l' : Life} (hl : s.life sid = some (p, l)) (hg : l ≠ .gone)
    (hg' : l' ≠ .gone) {pipes : P → Option Nat} {calls : P → List Call} (hfresh : s.setup ≠ some (p, sid, false))
    (hpipes : ∀ q sid', pipes q = some sid' → s.pipes q = some sid' ∧ (sid' = sid → l' ≠ .torn))
    (halt : ∀ q, Alternates (calls q)) (hp : (calls p).length % 2 = 1 ↔ l'.Open)
    (hcalls : ∀ q ≠ p, calls q = s.calls q) :
    WellFormed { s with life := update s.life sid (some (p, l')), pipes := pipes, calls := calls } := by
  have hkeep : ∀ {sid' : Nat} {q : P} {m : Life}, s.life sid' = some (q, m) →
      ∃ m', update s.life sid (some (p, l')) sid' = some (q, m') ∧ (sid' = sid ∧ m' = l' ∨ sid' ≠ sid ∧ m' = m) := by
    intro sid' q m hy
    by_cases he : sid' = sid
    · subst he
      rw [hl] at hy
      cases hy
      exact ⟨l', Function.update_self .., .inl ⟨rfl, rfl⟩⟩
    · exact ⟨m, by rw [Function.update_of_ne he, hy], .inr ⟨he, rfl⟩⟩
  constructor
  · intro q sid' hq
    obtain ⟨m, hy, hm⟩ := h.holder q sid' hq
    obtain ⟨m', hy', ⟨-, rfl⟩ | ⟨-, rfl⟩⟩ := hkeep hy
    · exact ⟨m', hy', hg'⟩
    · exact ⟨m', hy', hm⟩
  · intro sid' q m hy hm
    rcases life_update hy with ⟨rfl, hx⟩ | ⟨-, hy⟩
    · cases hx
      exact h.held sid' p l hl hg
    · exact h.held sid' q m hy hm
  · intro q sid' r hr
    obtain ⟨hh, m, hy, hm⟩ := h.setup q sid' r hr
    obtain ⟨m', hy', ⟨-, rfl⟩ | ⟨-, rfl⟩⟩ := hkeep hy
    · exact ⟨hh, m', hy', hg'⟩
    · exact ⟨hh, m', hy', hm⟩
  · intro q sid' hr
    obtain ⟨hq, hborn⟩ := h.fresh q sid' hr
    have hne : sid' ≠ sid := fun he => by
      subst he
      rw [hl] at hborn
      cases hborn
      exact hfresh hr
    refine ⟨?_, by simp only [Function.update_of_ne hne, hborn]⟩
    by_contra hsome
    obtain ⟨sid'', hsome⟩ := Option.ne_none_iff_exists'.1 hsome
    rw [(hpipes q sid'' hsome).1] at hq
    cases hq
  · intro q sid' hq
    obtain ⟨hold, htorn⟩ := hpipes q sid' hq
    obtain ⟨m, hy, hm, hm'⟩ := h.pipes q sid' hold
    obtain ⟨m', hy', ⟨he, rfl⟩ | ⟨-, rfl⟩⟩ := hkeep hy
    · exact ⟨m', hy', htorn he, hg'⟩
    · exact ⟨m', hy', hm, hm'⟩
  · exact halt
  · intro q
    by_cases hq : q = p
    · subst hq
      rw [hp]
      constructor
      · intro ho
        exact ⟨sid, l', Function.update_self .., ho⟩
      · rintro ⟨sid', m, hy, ho⟩
        rcases life_update hy with ⟨-, hx⟩ | ⟨hne, hy⟩
        · cases hx
          exact ho
        · exact absurd (h.unique hy (by rcases ho with rfl | rfl <;> decide) hl hg) hne
    · simp only [hcalls q hq, h.announced q]
      constructor
      · rintro ⟨sid', m, hy, ho⟩
        obtain ⟨m', hy', ⟨rfl, -⟩ | ⟨-, rfl⟩⟩ := hkeep hy
        · rw [hl] at hy
          cases hy
          exact absurd rfl hq
        · exact ⟨sid', m', hy', ho⟩
      · rintro ⟨sid', m, hy, ho⟩
        rcases life_update hy with ⟨-, hx⟩ | ⟨-, hy⟩
        · cases hx
          exact absurd rfl hq
        · exact ⟨sid', m, hy, ho⟩

/-- A session that leaves its slot keeps the slots well formed. -/
theorem release_wellFormed (h : s.WellFormed) (hs : s.setup = none) (hl : s.life sid = some (p, .torn)) :
    WellFormed { s with life := update s.life sid (some (p, .gone)), holder := update s.holder p none } := by
  have hone : ∀ {sid' : Nat} {l : Life}, s.life sid' = some (p, l) → l ≠ .gone → sid' = sid := fun hy hg =>
    h.unique hy hg hl (by decide)
  have hkeep : ∀ {sid' : Nat} {q : P} {l : Life}, sid' ≠ sid → s.life sid' = some (q, l) →
      update s.life sid (some (p, .gone)) sid' = some (q, l) := fun he hy => by rw [Function.update_of_ne he, hy]
  constructor
  · intro q sid' hq
    have hqp : q ≠ p := fun he => by
      rw [he] at hq
      simp at hq
    simp only [Function.update_of_ne hqp] at hq
    obtain ⟨l, hy, hg⟩ := h.holder q sid' hq
    refine ⟨l, hkeep (fun he => ?_) hy, hg⟩
    rw [he, hl] at hy
    cases hy
    exact hqp rfl
  · intro sid' q l hy hg
    rcases life_update hy with ⟨-, hx⟩ | ⟨hne, hy⟩
    · cases hx
      exact absurd rfl hg
    · have hqp : q ≠ p := fun he => hne (hone (he ▸ hy) hg)
      simp only [Function.update_of_ne hqp]
      exact h.held sid' q l hy hg
  · intro q sid' r hr
    rw [hs] at hr
    cases hr
  · intro q sid' hr
    rw [hs] at hr
    cases hr
  · intro q sid' hq
    obtain ⟨l, hy, ht, hg⟩ := h.pipes q sid' hq
    refine ⟨l, hkeep (fun he => ?_) hy, ht, hg⟩
    rw [he, hl] at hy
    cases hy
    exact ht rfl
  · exact h.alternates
  · intro q
    rw [h.announced q]
    constructor
    · rintro ⟨sid', l, hy, ho⟩
      refine ⟨sid', l, hkeep (fun he => ?_) hy, ho⟩
      rw [he, hl] at hy
      cases hy
      rcases ho with ho | ho <;> cases ho
    · rintro ⟨sid', l, hy, ho⟩
      rcases life_update hy with ⟨-, hx⟩ | ⟨-, hy⟩
      · cases hx
        rcases ho with ho | ho <;> cases ho
      · exact ⟨sid', l, hy, ho⟩

/-- **Every step keeps the slots well formed.** -/
theorem Step.wellFormed (h : s.WellFormed) (hs : Step s s') : s'.WellFormed := by
  -- the announcements of a session that is open, or not
  have hodd : ∀ {sid : Nat} {p : P} {l : Life}, s.life sid = some (p, l) → l.Open → (s.calls p).length % 2 = 1 :=
    fun hl ho => (h.announced _).2 ⟨_, _, hl, ho⟩
  cases hs with
  | claim hs hh hl => exact claim_wellFormed h hs hh hl
  | register hs => exact register_wellFormed h hs
  | install hs => exact install_wellFormed h hs
  | release hs hl => exact release_wellFormed h hs hl
  | spawn hs hl =>
    refine advance_wellFormed h hl (by decide) (by decide) (by simp [hs]) (fun q sid' hq => ⟨hq, fun _ => by decide⟩)
      h.alternates ?_ fun _ _ => rfl
    exact iff_of_true (hodd hl (.inl rfl)) (.inr rfl)
  | @close p sid hl =>
    have := hodd hl (.inr rfl)
    refine advance_wellFormed h hl (by decide) (by decide) (fun hs => ?_) (fun q sid' hq => ⟨hq, fun _ => by decide⟩)
      (fun q => ?_) ?_ fun q hq => Function.update_of_ne hq ..
    · rw [(h.fresh p sid hs).2] at hl
      cases hl
    · by_cases hq : q = p
      · subst hq
        rw [Function.update_self]
        exact alternates_append (h.alternates q) (by simp [this])
      · rw [Function.update_of_ne hq]
        exact h.alternates q
    · rw [Function.update_self, List.length_append, List.length_singleton]
      exact iff_of_false (by omega) (by rintro (ho | ho) <;> cases ho)
  | @teardown p sid hl =>
    refine advance_wellFormed h hl (by decide) (by decide) (fun hs => ?_) (fun q sid' hq => ?_) h.alternates ?_
      fun _ _ => rfl
    · rw [(h.fresh p sid hs).2] at hl
      cases hl
    · by_cases hqp : q = p
      · rw [hqp, Function.update_self] at hq
        cases hq
      · rw [Function.update_of_ne hqp] at hq
        refine ⟨hq, fun he => absurd ?_ hqp⟩
        obtain ⟨l, hy, -⟩ := h.pipes q sid' hq
        rw [he, hl] at hy
        cases hy
        rfl
    · refine iff_of_false (fun ho => ?_) (by rintro (ho | ho) <;> cases ho)
      obtain ⟨sid', l, hy, ho⟩ := (h.announced p).1 ho
      have hg : l ≠ .gone := by rcases ho with rfl | rfl <;> decide
      rw [h.unique hy hg hl (by decide), hl] at hy
      cases hy
      rcases ho with ho | ho <;> cases ho

end

/-! ## Pipes -/

/-- Every session that is registered and not torn down has the pipes of its peer. -/
def Piped (s : Slots P) : Prop := ∀ p sid l, s.life sid = some (p, l) → l ≠ .torn → l ≠ .gone →
  s.setup ≠ some (p, sid, false) → s.pipes p = some sid

/-- **The pipes are those of the registered sessions.** -/
theorem Piped.pipes_eq_some (hp : s.Piped) (h : s.WellFormed) {p : P} {sid : Nat} : s.pipes p = some sid ↔
    ∃ l, s.life sid = some (p, l) ∧ l ≠ .torn ∧ l ≠ .gone ∧ s.setup ≠ some (p, sid, false) := by
  constructor
  · intro hsid
    obtain ⟨l, hl, ht, hg⟩ := h.pipes p sid hsid
    refine ⟨l, hl, ht, hg, fun hs => ?_⟩
    rw [(h.fresh p sid hs).1] at hsid
    cases hsid
  · rintro ⟨l, hl, ht, hg, hs⟩
    exact hp p sid l hl ht hg hs

/-- A session that goes on gets no pipes by it. -/
theorem Piped.advance (hp : s.Piped) {p : P} {sid : Nat} {l l' : Life} (hl : s.life sid = some (p, l))
    (ht : l ≠ .torn) (hg : l ≠ .gone) {calls : P → List Call} :
    Piped { s with life := update s.life sid (some (p, l')), calls := calls } := by
  intro q sid' m hy hm hm' hs
  rcases life_update hy with ⟨rfl, hx⟩ | ⟨-, hy⟩
  · cases hx
    exact hp p sid' l hl ht hg hs
  · exact hp q sid' m hy hm hm' hs

/-- **Every step keeps the pipes with their sessions.** -/
theorem Step.piped [DecidableEq P] (hw : s.WellFormed) (hp : s.Piped) (h : Step s s') : s'.Piped := by
  cases h with
  | @claim p sid hs hh hl =>
    intro q sid' l hy ht hg hne
    rcases life_update hy with ⟨rfl, hx⟩ | ⟨-, hy⟩
    · cases hx
      exact absurd rfl hne
    · exact hp q sid' l hy ht hg (by simp [hs])
  | @register p sid hs =>
    intro q sid' l hy ht hg _
    by_cases hq : q = p
    · subst hq
      obtain ⟨l', hl', hg'⟩ := (hw.setup q sid false hs).2
      rw [hw.unique hy hg hl' hg']
      exact Function.update_self ..
    · simp only [Function.update_of_ne hq]
      refine hp q sid' l hy ht hg fun hs' => hq ?_
      rw [hs] at hs'
      cases hs'
      rfl
  | spawn hs hl => exact hp.advance hl (by decide) (by decide)
  | install hs =>
    intro q sid' l hy ht hg _
    exact hp q sid' l hy ht hg (by simp [hs])
  | close hl => exact hp.advance hl (by decide) (by decide)
  | @teardown p sid hl =>
    intro q sid' l hy ht hg hne
    rcases life_update hy with ⟨-, hx⟩ | ⟨hsid, hy⟩
    · cases hx
      exact absurd rfl ht
    · have hq : q ≠ p := fun he => hsid (hw.unique (he ▸ hy) hg hl (by decide))
      simp only [Function.update_of_ne hq]
      exact hp q sid' l hy ht hg hne
  | release hs hl =>
    intro q sid' l hy ht hg hne
    rcases life_update hy with ⟨-, hx⟩ | ⟨-, hy⟩
    · cases hx
      exact absurd rfl hg
    · exact hp q sid' l hy ht hg hne

end Slots

end EthereumSentry
