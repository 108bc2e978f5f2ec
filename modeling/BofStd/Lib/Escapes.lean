import Mathlib.Tactic.Basic
import Mathlib.Data.List.Basic

/-!
# Texts with escapes

A text is made of items of a class and of escapes, which are a mark and two digits (`Escaped`). `run` takes the longest
front of a text that is so made. If what is behind such a text begins neither an item nor an escape, then `run` takes
the text and no more (`run_append`).
-/

namespace Escapes

variable {α : Type*} {p q : α → Bool} {mark : α} {s t a b : List α} {c x : α}

/-- Items of the class `p`, and escapes: the mark and two items of the class `q`. -/
inductive Escaped (p : α → Bool) (mark : α) (q : α → Bool) : List α → Prop
  | nil : Escaped p mark q []
  | item {c : α} {s : List α} (hc : p c = true) (hs : Escaped p mark q s) : Escaped p mark q (c :: s)
  | escape {x y : α} {s : List α} (hx : q x = true) (hy : q y = true) (hs : Escaped p mark q s) :
      Escaped p mark q (mark :: x :: y :: s)

/-- The longest front that is made of items and escapes, and what is behind it. -/
def run [DecidableEq α] (p : α → Bool) (mark : α) (q : α → Bool) : List α → List α × List α
  | [] => ([], [])
  | c :: s =>
    if p c then (c :: (run p mark q s).1, (run p mark q s).2)
    else
      match s with
      | x :: y :: s =>
        if c = mark ∧ q x = true ∧ q y = true then (c :: x :: y :: (run p mark q s).1, (run p mark q s).2)
        else ([], c :: x :: y :: s)
      | s => ([], c :: s)

/-! ## What such texts are made of -/

theorem Escaped.of_forall (h : ∀ c ∈ s, p c = true) : Escaped p mark q s := by
  induction s with
  | nil => exact .nil
  | cons c s ih => exact .item (h c List.mem_cons_self) (ih fun x hx => h x (List.mem_cons_of_mem c hx))

theorem Escaped.mem (h : Escaped p mark q s) (hc : c ∈ s) : p c = true ∨ c = mark ∨ q c = true := by
  induction h with
  | nil => exact nomatch hc
  | item hp hs ih =>
    rcases List.mem_cons.mp hc with rfl | hc
    · exact .inl hp
    · exact ih hc
  | escape hx hy hs ih =>
    rcases List.mem_cons.mp hc with rfl | hc
    · exact .inr (.inl rfl)
    rcases List.mem_cons.mp hc with rfl | hc
    · exact .inr (.inr hx)
    rcases List.mem_cons.mp hc with rfl | hc
    · exact .inr (.inr hy)
    · exact ih hc

/-- Without the mark there are no escapes. -/
theorem Escaped.forall (h : Escaped p mark q s) (hmark : mark ∉ s) : ∀ c ∈ s, p c = true := by
  induction h with
  | nil => exact fun c hc => nomatch hc
  | item hp hs ih =>
    intro c hc
    rcases List.mem_cons.mp hc with rfl | hc
    · exact hp
    · exact ih (fun hmem => hmark (List.mem_cons_of_mem _ hmem)) c hc
  | escape hx hy hs ih => exact absurd List.mem_cons_self hmark

theorem Escaped.append (hs : Escaped p mark q s) (ht : Escaped p mark q t) : Escaped p mark q (s ++ t) := by
  induction hs with
  | nil => exact ht
  | item hp hs ih => exact .item hp ih
  | escape hx hy hs ih => exact .escape hx hy ih

/-- What is in front of an item that is in no escape, and what is behind it. -/
theorem Escaped.split (h : Escaped p mark q (a ++ x :: b)) (hmark : x ≠ mark) (hx : q x = false) :
    Escaped p mark q a ∧ Escaped p mark q b := by
  generalize hs : a ++ x :: b = s at h
  induction h generalizing a with
  | nil => exact absurd hs (List.append_ne_nil_of_right_ne_nil a (List.cons_ne_nil x b))
  | item hp hs' ih =>
    cases a with
    | nil =>
      obtain ⟨-, rfl⟩ := List.cons.inj hs
      exact ⟨.nil, hs'⟩
    | cons d a =>
      obtain ⟨rfl, htail⟩ := List.cons.inj hs
      exact ⟨.item hp (ih htail).1, (ih htail).2⟩
  | escape hy hz hs' ih =>
    -- neither the mark nor a digit is `x`
    have hne : ∀ y, q y = true → x ≠ y := fun y hy h => absurd hy (ne_true_of_eq_false (h ▸ hx))
    rcases a with _ | ⟨c, _ | ⟨d, _ | ⟨e, a⟩⟩⟩
    · exact absurd (List.cons.inj hs).1 hmark
    · exact absurd (List.cons.inj (List.cons.inj hs).2).1 (hne _ hy)
    · exact absurd (List.cons.inj (List.cons.inj (List.cons.inj hs).2).2).1 (hne _ hz)
    · obtain ⟨hc, hs⟩ := List.cons.inj hs
      obtain ⟨hd, hs⟩ := List.cons.inj hs
      obtain ⟨he, htail⟩ := List.cons.inj hs
      rw [hc, hd, he]
      exact ⟨.escape hy hz (ih htail).1, (ih htail).2⟩

/-! ## Runs -/

section Run

variable [DecidableEq α]

theorem run_nil : run p mark q [] = ([], []) := rfl

theorem run_item (hc : p c = true) (s : List α) :
    run p mark q (c :: s) = (c :: (run p mark q s).1, (run p mark q s).2) :=
  (run.eq_def p mark q (c :: s)).trans (if_pos hc)

/-- A run stops in front of what begins neither an item nor an escape. -/
theorem run_stop (hc : p c = false) (hmark : c ≠ mark) (s : List α) : run p mark q (c :: s) = ([], c :: s) := by
  unfold run
  rw [if_neg (ne_true_of_eq_false hc)]
  rcases s with _ | ⟨x, _ | ⟨y, s⟩⟩
  · rfl
  · rfl
  · exact if_neg fun h => hmark h.1

theorem run_escape (hmark : p mark = false) {y : α} (hx : q x = true) (hy : q y = true) (s : List α) :
    run p mark q (mark :: x :: y :: s) = (mark :: x :: y :: (run p mark q s).1, (run p mark q s).2) := by
  rw [run.eq_def p mark q (mark :: x :: y :: s)]
  exact (if_neg (ne_true_of_eq_false hmark)).trans (if_pos ⟨rfl, hx, hy⟩)

/-- A run takes a front of the text, which is made of items and escapes. -/
theorem run_spec (p : α → Bool) (mark : α) (q : α → Bool) (s : List α) :
    (run p mark q s).1 ++ (run p mark q s).2 = s ∧ Escaped p mark q (run p mark q s).1 := by
  fun_induction run p mark q s with
  | case1 => exact ⟨rfl, .nil⟩
  | case2 c s hc ih => exact ⟨congrArg (c :: ·) ih.1, .item hc ih.2⟩
  | case3 c hc x y s h ih =>
    obtain ⟨rfl, hx, hy⟩ := h
    exact ⟨congrArg (c :: x :: y :: ·) ih.1, .escape hx hy ih.2⟩
  | case4 => exact ⟨rfl, .nil⟩
  | case5 => exact ⟨rfl, .nil⟩

theorem run_append (hmark : p mark = false) (hs : Escaped p mark q s)
    (ht : ∀ c, t.head? = some c → p c = false ∧ c ≠ mark) : run p mark q (s ++ t) = (s, t) := by
  induction hs with
  | nil =>
    cases t with
    | nil => rfl
    | cons c t => exact run_stop (ht c rfl).1 (ht c rfl).2 t
  | item hc hs ih => rw [List.cons_append, run_item hc, ih]
  | escape hx hy hs ih => rw [List.cons_append, List.cons_append, List.cons_append, run_escape hmark hx hy, ih]

end Run

end Escapes
