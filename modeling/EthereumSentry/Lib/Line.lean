import Mathlib.Data.List.Forall2
import Mathlib.Data.List.Infix
import Mathlib.Data.List.Perm.Basic
import Mathlib.Tactic.Common

/-!
# Items that wait in line

A line has some items that come first, and a channel for those that come after them (`Line`). Nothing is lost, doubled
or overtaken on it: the first items and then those that the channel has accepted are those that were taken and then
those that still wait (`Ordered`). When nothing is taken after an item that stops the line, what was taken is a prefix
of the line cut after its first such item (`Ordered.taken_prefix`).

Some of the items may have owners, which a second list tells (`Labelled`).
-/

set_option autoImplicit false

/-- The items up to the first that stops, and this one. -/
def cutAfter {α : Type} (stop : α → Bool) : List α → List α
  | [] => []
  | a :: as => if stop a then [a] else a :: cutAfter stop as

/-- Items of which none but the last stops. -/
theorem prefix_cutAfter {α : Type} {stop : α → Bool} {as : List α} (bs : List α)
    (h : ∀ a ∈ as.dropLast, stop a = false) : as <+: cutAfter stop (as ++ bs) := by
  induction as with
  | nil => exact List.nil_prefix
  | cons a as ih =>
    rw [List.cons_append, cutAfter]
    cases as with
    | nil =>
      split
      · exact List.prefix_refl _
      · exact List.prefix_append [a] _
    | cons b as =>
      rw [List.dropLast_cons_cons] at h
      rw [if_neg (by simp [h a (List.mem_cons_self ..)]), List.prefix_cons_inj]
      exact ih fun c hc => h c (List.mem_cons_of_mem _ hc)

/-- Some items that come first, and a channel for the items after them. -/
structure Line (α : Type) where
  first : List α
  /-- What of the first items still waits. -/
  rest : List α
  /-- What waits in the channel. -/
  queue : List α
  /-- What the channel has accepted so far. -/
  accepted : List α
  /-- What was taken so far. -/
  taken : List α

namespace Line

variable {α : Type} {l l' : Line α} {a : α}

def new (first : List α) : Line α := ⟨first, first, [], [], []⟩

/-- The channel accepts an item. -/
def accept (l : Line α) (a : α) : Line α := { l with queue := l.queue ++ [a], accepted := l.accepted ++ [a] }

/-- The next item is taken; `none` when nothing waits. -/
def take (l : Line α) : Option (α × Line α) :=
  match l.rest, l.queue with
  | a :: rest, _ => some (a, { l with rest := rest, taken := l.taken ++ [a] })
  | [], a :: queue => some (a, { l with queue := queue, taken := l.taken ++ [a] })
  | [], [] => none

/-- Nothing was lost, doubled or overtaken. -/
def Ordered (l : Line α) : Prop := l.first ++ l.accepted = l.taken ++ (l.rest ++ l.queue)

theorem new_ordered (first : List α) : (new first).Ordered := by simp [Ordered, new]

theorem Ordered.accept (h : l.Ordered) (a : α) : (l.accept a).Ordered := by
  simp only [Ordered, Line.accept] at h ⊢
  rw [← List.append_assoc, h]
  simp only [List.append_assoc]

/-- What is taken comes next. -/
theorem take_eq_some (h : l.take = some (a, l')) : l'.first = l.first ∧ l'.accepted = l.accepted ∧
    l'.taken = l.taken ++ [a] ∧ l.rest ++ l.queue = a :: (l'.rest ++ l'.queue) := by
  unfold take at h
  split at h <;> cases h
  · simp_all
  · simp_all

theorem Ordered.take (h : l.Ordered) (ht : l.take = some (a, l')) : l'.Ordered := by
  obtain ⟨hfirst, haccepted, htaken, hwaits⟩ := take_eq_some ht
  simp only [Ordered] at h ⊢
  rw [hfirst, haccepted, htaken, h, hwaits, List.append_assoc, List.singleton_append]

/-- **What was taken is a prefix of the line, cut** after the first item that stops. -/
theorem Ordered.taken_prefix {stop : α → Bool} (h : l.Ordered) (hs : ∀ a ∈ l.taken.dropLast, stop a = false) :
    l.taken <+: cutAfter stop (l.first ++ l.accepted) := by
  rw [h]
  exact prefix_cutAfter _ hs

end Line

/-! ## Items with owners -/

/-- The labels say which of the items have owners, and each of these is the item of its owner. -/
def Labelled {ι α : Type} (item : ι → Option α) (labels : List (Option ι)) (items : List α) : Prop :=
  List.Forall₂ (fun l a => ∀ i, l = some i → item i = some a) labels items

namespace Labelled

variable {ι α : Type} {item : ι → Option α} {labels : List (Option ι)} {items : List α}

theorem length_eq (h : Labelled item labels items) : labels.length = items.length := List.Forall₂.length_eq h

/-- An item that has an owner. -/
theorem getElem? (h : Labelled item labels items) {n : Nat} {i : ι} (hi : labels[n]? = some (some i)) :
    items[n]? = item i := by
  obtain ⟨hlt, hget⟩ := List.getElem?_eq_some_iff.1 hi
  have hlt' : n < items.length := h.length_eq ▸ hlt
  have := (List.forall₂_iff_get.1 h).2 n hlt hlt' i (by simpa using hget)
  rw [List.getElem?_eq_getElem hlt', this]
  rfl

/-- One more item. -/
theorem snoc (h : Labelled item labels items) {l : Option ι} {a : α} (hl : ∀ i, l = some i → item i = some a) :
    Labelled item (labels ++ [l]) (items ++ [a]) := List.rel_append h (.cons hl .nil)

/-- One item less. -/
theorem eraseIdx (h : Labelled item labels items) : ∀ n, Labelled item (labels.eraseIdx n) (items.eraseIdx n) := by
  induction h with
  | nil => exact fun _ => .nil
  | cons hl _ ih =>
    intro n
    cases n with
    | zero => assumption
    | succ n => exact .cons hl (ih n)

theorem congr {item' : ι → Option α} (h : Labelled item labels items) (hi : ∀ i a, item i = some a → item' i = some a) :
    Labelled item' labels items := List.Forall₂.imp (fun _ _ hl i he => hi i _ (hl i he)) h

end Labelled

/-- An item is counted less when it is erased. -/
theorem List.count_eraseIdx_add {α : Type} [BEq α] [LawfulBEq α] {l : List α} {n : Nat} {a : α} (h : l[n]? = some a)
    (b : α) : (l.eraseIdx n).count b + (if a == b then 1 else 0) = l.count b := by
  obtain ⟨hlt, rfl⟩ := List.getElem?_eq_some_iff.1 h
  rw [← (List.getElem_cons_eraseIdx_perm hlt).count_eq b, List.count_cons]

/-- An item that is counted once is in one place. -/
theorem List.getElem?_unique {α : Type} [BEq α] [LawfulBEq α] {l : List α} {a : α} (h : l.count a = 1) {n m : Nat}
    (hn : l[n]? = some a) (hm : l[m]? = some a) : m = n := by
  by_contra hne
  have herase := count_eraseIdx_add hn a
  have hpos := count_pos_iff.2 (mem_eraseIdx_iff_getElem?.2 ⟨m, hne, hm⟩)
  rw [h, if_pos (beq_self_eq_true a)] at herase
  omega
