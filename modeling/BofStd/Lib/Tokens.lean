import Mathlib.Tactic.Basic
import Mathlib.Data.List.Basic
import Mathlib.Data.List.Count
import Mathlib.Data.List.Flatten
import Mathlib.Data.List.TakeWhile

/-!
# Sequences cut at delimiters

`List.splitOnP p` cuts a sequence at the elements that satisfy `p`, `[d].intercalate` joins sequences with `d` between
them. What is cut is what is not a delimiter, in order (`flatten_splitOnP`), and each delimiter makes one more token
(`length_splitOnP`). Joining and cutting again gives the tokens back (`splitOnP_intercalate`).
-/

namespace Tokens

variable {α : Type*} {p : α → Bool} {s t : List α} {ts us : List (List α)} {d x : α}

theorem flatten_splitOnP (p : α → Bool) (s : List α) : (s.splitOnP p).flatten = s.filter fun x => !p x := by
  induction s with
  | nil => rfl
  | cons a s ih =>
    rw [List.splitOnP_cons_eq_if_modifyHead, List.filter_cons]
    cases ha : p a with
    | true =>
      rw [if_pos rfl, List.flatten_cons, ih]
      rfl
    | false =>
      rw [if_neg Bool.false_ne_true, Bool.not_false, if_pos rfl, ← ih]
      obtain ⟨t, ts, hts⟩ := List.exists_cons_of_ne_nil (List.splitOnP_ne_nil p s)
      rw [hts]
      rfl

theorem length_splitOnP (p : α → Bool) (s : List α) : (s.splitOnP p).length = s.countP p + 1 := by
  induction s with
  | nil => rfl
  | cons a s ih =>
    rw [List.splitOnP_cons_eq_if_modifyHead, List.countP_cons]
    cases ha : p a with
    | true => rw [if_pos rfl, List.length_cons, ih, if_pos rfl]
    | false => rw [if_neg Bool.false_ne_true, List.length_modifyHead, ih, if_neg Bool.false_ne_true]

/-- The tokens and the delimiters between them make up the sequence. -/
theorem length_flatten_splitOnP (p : α → Bool) (s : List α) :
    (s.splitOnP p).flatten.length + (s.splitOnP p).length = s.length + 1 := by
  rw [flatten_splitOnP, length_splitOnP, ← List.countP_eq_length_filter, List.length_eq_countP_add_countP p]
  have hnot : (s.countP fun x => !p x) = s.countP fun x => decide ¬ p x = true := by
    apply List.countP_congr
    intro x _
    cases p x <;> decide
  omega

theorem mem_of_mem_splitOnP (ht : t ∈ s.splitOnP p) (hx : x ∈ t) : x ∈ s ∧ p x = false := by
  have hflat : x ∈ (s.splitOnP p).flatten := List.mem_flatten.mpr ⟨t, ht, hx⟩
  rw [flatten_splitOnP, List.mem_filter, Bool.not_eq_true'] at hflat
  exact hflat

theorem splitOnP_intercalate (hd : p d) (hts : ∀ t ∈ ts, ∀ x ∈ t, p x = false) (hne : ts ≠ []) :
    ([d].intercalate ts).splitOnP p = ts := by
  induction ts with
  | nil => exact absurd rfl hne
  | cons t ts ih =>
    obtain ⟨ht, hts⟩ := List.forall_mem_cons.mp hts
    cases ts with
    | nil => rw [List.intercalate_singleton, List.splitOnP_eq_singleton ht]
    | cons u us =>
      rw [List.intercalate_cons_cons, List.append_assoc, List.singleton_append,
        List.splitOnP_append_cons_of_forall_mem ht d hd, ih hts (List.cons_ne_nil u us)]

theorem length_intercalate (d : α) (hne : ts ≠ []) :
    ([d].intercalate ts).length + 1 = ts.flatten.length + ts.length := by
  induction ts with
  | nil => exact absurd rfl hne
  | cons t ts ih =>
    cases ts with
    | nil => simp
    | cons u us =>
      have ih := ih (List.cons_ne_nil u us)
      rw [List.intercalate_cons_cons, List.append_assoc, List.singleton_append, List.length_append, List.length_cons,
        List.flatten_cons, List.length_append, List.length_cons]
      omega

theorem mem_intercalate (hx : x ∈ [d].intercalate ts) : x = d ∨ ∃ t ∈ ts, x ∈ t := by
  induction ts with
  | nil => exact absurd hx List.not_mem_nil
  | cons t ts ih =>
    cases ts with
    | nil =>
      rw [List.intercalate_singleton] at hx
      exact .inr ⟨t, List.mem_cons_self, hx⟩
    | cons u us =>
      rw [List.intercalate_cons_cons, List.mem_append, List.mem_append] at hx
      rcases hx with (hx | hx) | hx
      · exact .inr ⟨t, List.mem_cons_self, hx⟩
      · exact .inl (List.mem_singleton.mp hx)
      · rcases ih hx with hx | ⟨v, hv, hx⟩
        · exact .inl hx
        · exact .inr ⟨v, List.mem_cons_of_mem t hv, hx⟩

theorem mem_intercalate_of_mem (d : α) (ht : t ∈ ts) (hx : x ∈ t) : x ∈ [d].intercalate ts := by
  induction ts with
  | nil => exact absurd ht List.not_mem_nil
  | cons u us ih =>
    cases us with
    | nil =>
      rw [List.mem_singleton.mp ht] at hx
      rwa [List.intercalate_singleton]
    | cons v vs =>
      rw [List.intercalate_cons_cons, List.append_assoc]
      rcases List.mem_cons.mp ht with rfl | ht
      · exact List.mem_append_left _ hx
      · exact List.mem_append_right _ (List.mem_append_right _ (ih ht))

theorem count_intercalate [BEq α] [LawfulBEq α] (hx : x ≠ d) (ts : List (List α)) :
    ([d].intercalate ts).count x = ts.flatten.count x := by
  induction ts with
  | nil => rfl
  | cons t ts ih =>
    cases ts with
    | nil => simp
    | cons u us =>
      rw [List.intercalate_cons_cons, List.append_assoc, List.singleton_append, List.count_append,
        List.count_cons_of_ne hx.symm, ih, ← List.count_append, ← List.flatten_cons]

/-- Leaving tokens out makes the sequence shorter. -/
theorem length_intercalate_le (d : α) (h : ts.Sublist us) : ([d].intercalate ts).length ≤ ([d].intercalate us).length := by
  by_cases hts : ts = []
  · rw [hts]
    exact Nat.zero_le _
  · have hus : us ≠ [] := fun hus => hts (List.sublist_nil.mp (hus ▸ h))
    have hlen := length_intercalate d hts
    have hlen' := length_intercalate d hus
    have hflat : ts.flatten.length ≤ us.flatten.length := h.flatten.length_le
    have hcount := h.length_le
    omega

/-! ## Cutting at the first occurrence -/

section First

variable [DecidableEq α] {a : List α}

theorem takeWhile_ne_of_notMem (h : x ∉ a) : a.takeWhile (fun c => c ≠ x) = a := by
  rw [List.takeWhile_eq_self_iff]
  intro c hc
  apply decide_eq_true
  rintro rfl
  exact h hc

theorem dropWhile_ne_of_notMem (h : x ∉ a) : a.dropWhile (fun c => c ≠ x) = [] := by
  rw [List.dropWhile_eq_nil_iff]
  intro c hc
  apply decide_eq_true
  rintro rfl
  exact h hc

theorem takeWhile_ne_append (h : x ∉ a) (b : List α) : (a ++ x :: b).takeWhile (fun c => c ≠ x) = a := by
  induction a with
  | nil => exact List.takeWhile_cons_of_neg fun hx => of_decide_eq_true hx rfl
  | cons c a ih =>
    rw [List.mem_cons, not_or] at h
    rw [List.cons_append, List.takeWhile_cons, if_pos (decide_eq_true (Ne.symm h.1)), ih h.2]

theorem dropWhile_ne_append (h : x ∉ a) (b : List α) : (a ++ x :: b).dropWhile (fun c => c ≠ x) = x :: b := by
  induction a with
  | nil => exact List.dropWhile_cons_of_neg fun hx => of_decide_eq_true hx rfl
  | cons c a ih =>
    rw [List.mem_cons, not_or] at h
    rw [List.cons_append, List.dropWhile_cons, if_pos (decide_eq_true (Ne.symm h.1)), ih h.2]

theorem notMem_takeWhile_ne : x ∉ s.takeWhile fun c => c ≠ x := by
  intro h
  have hne := List.mem_takeWhile_imp h
  exact of_decide_eq_true hne rfl

/-- The part behind the first occurrence. -/
theorem dropWhile_ne_cases (x : α) (s : List α) :
    (x ∉ s ∧ s.dropWhile (fun c => c ≠ x) = []) ∨ ∃ b, s.dropWhile (fun c => c ≠ x) = x :: b ∧
      s = s.takeWhile (fun c => c ≠ x) ++ x :: b := by
  by_cases hx : x ∈ s
  · obtain ⟨a, b, rfl, ha⟩ := List.eq_append_cons_of_mem hx
    exact .inr ⟨b, dropWhile_ne_append ha b, by rw [takeWhile_ne_append ha b]⟩
  · exact .inl ⟨hx, dropWhile_ne_of_notMem hx⟩

end First

end Tokens
