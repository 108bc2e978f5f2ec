import Mathlib.Tactic.Basic
import Mathlib.Logic.Function.Basic
import Mathlib.Data.List.Basic

/-!
# Singly linked chains

`Chain next head l` says that following `next` from `head` visits the elements of `l` and then ends.
It describes a free list whose links are kept in the free cells themselves: `push` puts a cell in front
and `pop` takes the first one away.
-/

namespace Linked

/-- Following `next` from `head` visits `l` and ends. -/
def Chain {α : Type*} (next : α → Option α) : Option α → List α → Prop
  | head, [] => head = none
  | head, a :: l => head = some a ∧ Chain next (next a) l

namespace Chain

variable {α : Type*} {next next' : α → Option α} {head : Option α} {a : α} {l : List α}

theorem congr (h : Chain next head l) (hnext : ∀ b ∈ l, next' b = next b) : Chain next' head l := by
  induction l generalizing head with
  | nil => exact h
  | cons b l ih =>
    rw [List.forall_mem_cons] at hnext
    refine ⟨h.1, ?_⟩
    rw [hnext.1]
    exact ih h.2 hnext.2

/-- A new cell is linked to the old head. -/
theorem push (h : Chain next head l) (ha : next' a = head) (hnext : ∀ b ∈ l, next' b = next b) :
    Chain next' (some a) (a :: l) := by
  refine ⟨rfl, ?_⟩
  rw [ha]
  exact h.congr hnext

/-- The head of a chain that does not end at once is its first cell. -/
theorem pop (h : Chain next (some a) l) : ∃ l', l = a :: l' ∧ Chain next (next a) l' := by
  cases l with
  | nil => exact absurd h (Option.some_ne_none a)
  | cons b l =>
    obtain ⟨hb, htail⟩ := h
    obtain rfl : a = b := Option.some.inj hb
    exact ⟨l, rfl, htail⟩

/-- The links determine the chain. -/
theorem unique {l' : List α} (h : Chain next head l) (h' : Chain next head l') : l = l' := by
  induction l generalizing head l' with
  | nil =>
    cases l' with
    | nil => rfl
    | cons b l' => exact absurd (h.symm.trans h'.1) (Option.some_ne_none b).symm
  | cons a l ih =>
    cases l' with
    | nil => exact absurd (h'.symm.trans h.1) (Option.some_ne_none a).symm
    | cons b l' =>
      obtain rfl : a = b := Option.some.inj (h.1.symm.trans h'.1)
      rw [ih h.2 h'.2]

theorem head_eq (h : Chain next head l) : head = l.head? := by
  cases l with
  | nil => exact h
  | cons a l => exact h.1

/-- The end of a chain. -/
theorem suffix {l' : List α} (h : Chain next head (l ++ l')) : Chain next l'.head? l' := by
  induction l generalizing head with
  | nil =>
    have hhead := h.head_eq
    rw [List.nil_append] at h hhead
    rw [← hhead]
    exact h
  | cons a l ih => exact ih h.2

/-- Cells linked each to the next one, up to the last. -/
theorem range' (next : Nat → Option Nat) {i n : Nat}
    (hnext : ∀ k, i ≤ k → k < i + n → next k = if k + 1 < i + n then some (k + 1) else none) :
    Chain next (if 0 < n then some i else none) (List.range' i n) := by
  induction n generalizing i with
  | zero => rfl
  | succ n ih =>
    refine ⟨rfl, ?_⟩
    rw [hnext i (Nat.le_refl _) (by omega)]
    have htail := ih (i := i + 1) fun k hk hk' => by
      rw [hnext k (by omega) (by omega)]
      congr 2
      omega
    by_cases hn : 0 < n
    · rw [if_pos hn] at htail
      rw [if_pos (by omega)]
      exact htail
    · rw [if_neg hn] at htail
      rw [if_neg (by omega)]
      exact htail

end Chain

/-- Following `next` from `head` visits `l`, whatever comes behind. -/
def Visits {α : Type*} (next : α → Option α) : Option α → List α → Prop
  | _, [] => True
  | head, a :: l => head = some a ∧ Visits next (next a) l

theorem Visits.congr {α : Type*} {next next' : α → Option α} {head : Option α} {l : List α} (h : Visits next head l)
    (hnext : ∀ b ∈ l, next' b = next b) : Visits next' head l := by
  induction l generalizing head with
  | nil => trivial
  | cons b l ih =>
    rw [List.forall_mem_cons] at hnext
    refine ⟨h.1, ?_⟩
    rw [hnext.1]
    exact ih h.2 hnext.2

/-- The front of a chain. -/
theorem Chain.visits {α : Type*} {next : α → Option α} {head : Option α} {l l' : List α}
    (h : Chain next head (l ++ l')) : Visits next head l := by
  induction l generalizing head with
  | nil => trivial
  | cons a l ih => exact ⟨h.1, ih h.2⟩

end Linked
