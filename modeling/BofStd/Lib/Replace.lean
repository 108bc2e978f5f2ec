import Mathlib.Data.List.Basic
import Mathlib.Tactic.Basic

/-!
# Occurrences and their replacement

`firstOccurrence` is where a pattern occurs first. `Replaces p r s t` says that `t` is `s` with the leftmost
occurrences of `p` that do not overlap, found from left to right, replaced by `r`. There is one such `t` at most, and
none for the empty pattern, which occurs everywhere.
-/

namespace BofStd.Replace

variable {α : Type*} {p r s t u pre rest : List α} {i : Nat}

/-- Replace the leftmost occurrences that do not overlap. -/
inductive Replaces (p r : List α) : List α → List α → Prop
  | absent (s : List α) (none : ¬ p <:+: s) : Replaces p r s s
  | first (pre rest t : List α) (least : ∀ j < pre.length, ¬ p <+: (pre ++ p ++ rest).drop j)
    (behind : Replaces p r rest t) : Replaces p r (pre ++ p ++ rest) (pre ++ r ++ t)

/-- The result of a replacement is determined. -/
theorem Replaces.unique (h : Replaces p r s t) (h' : Replaces p r s u) : t = u := by
  induction h generalizing u with
  | absent s hnone =>
    cases h' with
    | absent => rfl
    | first pre rest => exact absurd ⟨pre, rest, rfl⟩ hnone
  | first pre rest t hleast _ ih =>
    generalize hs : pre ++ p ++ rest = s at h' hleast
    cases h' with
    | absent _ hnone => exact absurd ⟨pre, rest, hs⟩ hnone
    | first pre' rest' t' hleast' hrest' =>
      -- neither occurrence is before the other
      have hdrop : p <+: (pre' ++ p ++ rest').drop pre.length := by
        rw [← hs, List.append_assoc, List.drop_left]
        exact List.prefix_append p rest
      have hdrop' : p <+: (pre' ++ p ++ rest').drop pre'.length := by
        rw [List.append_assoc, List.drop_left]
        exact List.prefix_append p rest'
      have hlen : pre.length = pre'.length := by
        apply Nat.le_antisymm
        · exact Nat.not_lt.mp fun hlt => hleast pre'.length hlt hdrop'
        · exact Nat.not_lt.mp fun hlt => hleast' pre.length hlt hdrop
      rw [List.append_assoc, List.append_assoc] at hs
      obtain ⟨rfl, hbehind⟩ := List.append_inj hs hlen
      obtain rfl := List.append_cancel_left hbehind
      rw [ih hrest']

section Decidable

variable [DecidableEq α]

/-- The number of elements before the first occurrence of `p`. -/
def firstOccurrence (p : List α) : List α → Option Nat
  | [] => if p = [] then some 0 else none
  | a :: s => if p <+: a :: s then some 0 else (firstOccurrence p s).map (· + 1)

theorem firstOccurrence_nil (s : List α) : firstOccurrence [] s = some 0 := by
  cases s with
  | nil => rfl
  | cons a s => rw [firstOccurrence, if_pos List.nil_prefix]

theorem firstOccurrence_eq_none (h : firstOccurrence p s = none) : ¬ p <:+: s := by
  induction s with
  | nil =>
    intro hp
    rw [firstOccurrence, if_pos (List.infix_nil.mp hp)] at h
    cases h
  | cons a s ih =>
    rw [firstOccurrence] at h
    split at h
    · cases h
    · rename_i hno
      rw [List.infix_cons_iff, not_or]
      exact ⟨hno, ih (Option.map_eq_none_iff.mp h)⟩

theorem firstOccurrence_eq_some (h : firstOccurrence p s = some i) :
    ∃ pre rest, s = pre ++ p ++ rest ∧ pre.length = i ∧ ∀ j < i, ¬ p <+: s.drop j := by
  induction s generalizing i with
  | nil =>
    rw [firstOccurrence] at h
    split at h
    · rename_i hp
      obtain rfl := Option.some.inj h
      exact ⟨[], [], by rw [hp]; rfl, rfl, fun j hj => absurd hj (Nat.not_lt_zero j)⟩
    · cases h
  | cons a s ih =>
    rw [firstOccurrence] at h
    split at h
    · rename_i hp
      obtain rfl := Option.some.inj h
      obtain ⟨rest, hrest⟩ := hp
      exact ⟨[], rest, hrest.symm, rfl, fun j hj => absurd hj (Nat.not_lt_zero j)⟩
    · rename_i hno
      obtain ⟨k, hk, rfl⟩ := Option.map_eq_some_iff.mp h
      obtain ⟨pre, rest, rfl, rfl, hfirst⟩ := ih hk
      refine ⟨a :: pre, rest, rfl, rfl, ?_⟩
      intro j hj
      cases j with
      | zero => exact hno
      | succ j => exact hfirst j (Nat.lt_of_succ_lt_succ hj)

end Decidable

end BofStd.Replace
