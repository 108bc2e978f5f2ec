import Mathlib.Data.List.Induction
import Mathlib.Data.List.Nodup
import BofStd.Lib.Chain

/-!
# Doubly linked lists

`Seg next prev p l q` says that the cells of `l` are linked to each other in both directions, the first one
back to `p` and the last one on to `q`. A segment is cut at any cell (`seg_append`), and only the links at
its two ends change when it is put beside another one (`Seg.setLast`, `Seg.setFirst`). `DList` is a whole
list with pointers to its two ends; the operations on it are a cell put in, at any place, and a cell taken
out.
-/

namespace Linked

variable {α : Type*} {next prev next' prev' : α → Option α} {p q p' q' head queue head' queue' : Option α} {x y : α}
  {a b l : List α}

/-- The cells of the list are linked in both directions, between `p` and `q`. -/
def Seg (next prev : α → Option α) : Option α → List α → Option α → Prop
  | _, [], _ => True
  | p, x :: xs, q => prev x = p ∧ next x = xs.head?.or q ∧ Seg next prev (some x) xs q

theorem Seg.congr (h : Seg next prev p l q) (hnext : ∀ x ∈ l, next' x = next x)
    (hprev : ∀ x ∈ l, prev' x = prev x) : Seg next' prev' p l q := by
  induction l generalizing p with
  | nil => trivial
  | cons x l ih =>
    rw [List.forall_mem_cons] at hnext hprev
    obtain ⟨h1, h2, h3⟩ := h
    refine ⟨?_, ?_, ih h3 hnext.2 hprev.2⟩
    · rw [hprev.1, h1]
    · rw [hnext.1, h2]

/-- A segment is cut. -/
theorem seg_append : Seg next prev p (a ++ b) q ↔
    Seg next prev p a (b.head?.or q) ∧ Seg next prev (a.getLast?.or p) b q := by
  induction a generalizing p with
  | nil => simp [Seg]
  | cons x a ih =>
    have hhead : (a ++ b).head?.or q = a.head?.or (b.head?.or q) := by
      rw [List.head?_append, Option.or_assoc]
    have hlast : (x :: a).getLast?.or p = a.getLast?.or (some x) := by
      cases a with
      | nil => rfl
      | cons y a =>
        rw [List.getLast?_cons_cons, List.getLast?_cons]
        rfl
    rw [List.cons_append, Seg, Seg, ih, hhead, hlast]
    constructor
    · rintro ⟨h1, h2, h3, h4⟩
      exact ⟨⟨h1, h2, h3⟩, h4⟩
    · rintro ⟨⟨h1, h2, h3⟩, h4⟩
      exact ⟨h1, h2, h3, h4⟩

/-- The links of one cell and the segments on its two sides. -/
theorem seg_middle : Seg next prev none (a ++ x :: b) none ↔
    Seg next prev none a (some x) ∧ prev x = a.getLast? ∧ next x = b.head? ∧ Seg next prev (some x) b none := by
  rw [seg_append, Seg, Option.or_none, Option.or_none, Option.or_none]
  exact Iff.rfl

/-- The last cell is linked on to another one. -/
theorem Seg.setLast (h : Seg next prev p l q) (hnd : l.Nodup) (hprev : ∀ x ∈ l, prev' x = prev x)
    (hnext : ∀ x ∈ l, l.getLast? ≠ some x → next' x = next x) (hlast : ∀ x, l.getLast? = some x → next' x = q') :
    Seg next' prev' p l q' := by
  induction l generalizing p with
  | nil => trivial
  | cons x l ih =>
    rw [List.forall_mem_cons] at hprev
    obtain ⟨h1, h2, h3⟩ := h
    cases l with
    | nil =>
      refine ⟨?_, hlast x rfl, trivial⟩
      rw [hprev.1, h1]
    | cons y l =>
      rw [List.nodup_cons] at hnd
      rw [List.getLast?_cons_cons] at hnext hlast
      -- the first of two or more cells is not the last one
      have hx : (y :: l).getLast? ≠ some x := fun he => hnd.1 (List.mem_of_getLast? he)
      refine ⟨?_, ?_, ?_⟩
      · rw [hprev.1, h1]
      · rw [hnext x List.mem_cons_self hx, h2]
        rfl
      · exact ih h3 hnd.2 hprev.2 (fun z hz => hnext z (List.mem_cons_of_mem _ hz)) hlast

/-- The first cell is linked back to another one. -/
theorem Seg.setFirst (h : Seg next prev p l q) (hnext : ∀ x ∈ l, next' x = next x)
    (hprev : ∀ x ∈ l, l.head? ≠ some x → prev' x = prev x) (hfirst : ∀ x, l.head? = some x → prev' x = p')
    (hnd : l.Nodup) : Seg next' prev' p' l q := by
  cases l with
  | nil => trivial
  | cons x l =>
    rw [List.forall_mem_cons] at hnext
    rw [List.nodup_cons] at hnd
    obtain ⟨h1, h2, h3⟩ := h
    refine ⟨hfirst x rfl, ?_, h3.congr hnext.2 fun y hy => ?_⟩
    · rw [hnext.1, h2]
    · refine hprev y (List.mem_cons_of_mem _ hy) fun he => ?_
      rw [List.head?_cons, Option.some.injEq] at he
      exact hnd.1 (he ▸ hy)

/-- The cells in the order of `next`. -/
theorem Seg.chain_next (h : Seg next prev p l none) : Chain next l.head? l := by
  induction l generalizing p with
  | nil => rfl
  | cons x l ih =>
    obtain ⟨-, h2, h3⟩ := h
    rw [Option.or_none] at h2
    refine ⟨rfl, ?_⟩
    rw [h2]
    exact ih h3

/-- The cells in the order of `prev`. -/
theorem Seg.chain_prev (h : Seg next prev none l q) : Chain prev l.getLast? l.reverse := by
  induction l using List.reverseRecOn generalizing q with
  | nil => rfl
  | append_singleton l x ih =>
    obtain ⟨h1, h2, -⟩ := seg_append.mp h
    rw [Option.or_none] at h2
    rw [List.reverse_append, List.getLast?_concat]
    refine ⟨rfl, ?_⟩
    rw [h2]
    exact ih h1

/-- Read backwards, a segment is a segment of the reversed list. -/
theorem Seg.reverse (h : Seg next prev p l q) : Seg prev next q l.reverse p := by
  induction l generalizing p with
  | nil => trivial
  | cons x l ih =>
    obtain ⟨h1, h2, h3⟩ := h
    rw [List.reverse_cons]
    apply seg_append.mpr
    rw [List.getLast?_reverse]
    exact ⟨ih h3, h2, h1, trivial⟩

/-! ## Whole lists -/

/-- The list from `head` to `queue`. -/
structure DList (next prev : α → Option α) (head queue : Option α) (l : List α) : Prop where
  head_eq : head = l.head?
  queue_eq : queue = l.getLast?
  seg : Seg next prev none l none
  nodup : l.Nodup

namespace DList

theorem congr (h : DList next prev head queue l) (hnext : ∀ x ∈ l, next' x = next x)
    (hprev : ∀ x ∈ l, prev' x = prev x) : DList next' prev' head queue l :=
  ⟨h.head_eq, h.queue_eq, h.seg.congr hnext hprev, h.nodup⟩

theorem chain (h : DList next prev head queue l) : Chain next head l ∧ Chain prev queue l.reverse := by
  rw [h.head_eq, h.queue_eq]
  exact ⟨h.seg.chain_next, h.seg.chain_prev⟩

/-- The two directions of a list. -/
theorem symm (h : DList next prev head queue l) : DList prev next queue head l.reverse := by
  refine ⟨?_, ?_, h.seg.reverse, List.nodup_reverse.mpr h.nodup⟩
  · rw [h.queue_eq, List.head?_reverse]
  · rw [h.head_eq, List.getLast?_reverse]

/-- The links of a cell of the list. -/
theorem links (h : DList next prev head queue (a ++ x :: b)) : prev x = a.getLast? ∧ next x = b.head? := by
  obtain ⟨-, h2, h3, -⟩ := seg_middle.mp h.seg
  exact ⟨h2, h3⟩

/-- The first cell. -/
theorem head_iff (h : DList next prev head queue (a ++ x :: b)) : head = some x ↔ a = [] := by
  rw [h.head_eq]
  cases a with
  | nil => simp
  | cons y a =>
    have hnd := h.nodup
    rw [List.cons_append, List.nodup_cons] at hnd
    simp only [List.cons_append, List.head?_cons, Option.some.injEq, reduceCtorEq, iff_false]
    rintro rfl
    exact hnd.1 (List.mem_append_right _ List.mem_cons_self)

/-- The last cell. -/
theorem queue_iff (h : DList next prev head queue (a ++ x :: b)) : queue = some x ↔ b = [] := by
  rw [h.queue_eq]
  cases b with
  | nil => simp
  | cons y b =>
    have hnd := h.nodup
    rw [List.nodup_append, List.nodup_cons] at hnd
    simp only [List.getLast?_append_cons, List.getLast?_cons_cons, reduceCtorEq, iff_false]
    intro he
    exact hnd.2.1.1 (List.mem_of_getLast? he)

/-- The neighbours of a place are on their own side of it. -/
theorem ne_neighbours (hnd : (a ++ b).Nodup) :
    (∀ y ∈ a, b.head? ≠ some y) ∧ ∀ y ∈ b, a.getLast? ≠ some y := by
  obtain ⟨-, -, hdisj⟩ := List.nodup_append.mp hnd
  constructor
  · intro y hy he
    exact hdisj y hy y (List.mem_of_head? he) rfl
  · intro y hy he
    exact hdisj y (List.mem_of_getLast? he) y hy rfl

/-- A cell that is not in the list is put in at any place: it is linked to its two neighbours, and the
neighbours to it. -/
theorem insert (h : DList next prev head queue (a ++ b)) (hx : x ∉ a ++ b)
    (hnext : next' x = b.head?) (hprev : prev' x = a.getLast?)
    (hleft : ∀ y, a.getLast? = some y → next' y = some x) (hright : ∀ y, b.head? = some y → prev' y = some x)
    (hnext' : ∀ y ∈ a ++ b, a.getLast? ≠ some y → next' y = next y)
    (hprev' : ∀ y ∈ a ++ b, b.head? ≠ some y → prev' y = prev y)
    (hhead : head' = (a ++ x :: b).head?) (hqueue : queue' = (a ++ x :: b).getLast?) :
    DList next' prev' head' queue' (a ++ x :: b) := by
  obtain ⟨ha, hb⟩ := seg_append.mp h.seg
  obtain ⟨hna, hnb, -⟩ := List.nodup_append.mp h.nodup
  obtain ⟨hne, hne'⟩ := ne_neighbours h.nodup
  refine ⟨hhead, hqueue, seg_middle.mpr ⟨?_, hprev, hnext, ?_⟩, ?_⟩
  · exact ha.setLast hna (fun y hy => hprev' y (List.mem_append_left _ hy) (hne y hy))
      (fun y hy hy' => hnext' y (List.mem_append_left _ hy) hy') hleft
  · exact hb.setFirst (fun y hy => hnext' y (List.mem_append_right _ hy) (hne' y hy))
      (fun y hy hy' => hprev' y (List.mem_append_right _ hy) hy') hright hnb
  · exact List.nodup_middle.mpr (List.nodup_cons.mpr ⟨hx, h.nodup⟩)

/-- A cell is taken out: its two neighbours are linked to each other. -/
theorem remove (h : DList next prev head queue (a ++ x :: b))
    (hleft : ∀ y, a.getLast? = some y → next' y = b.head?) (hright : ∀ y, b.head? = some y → prev' y = a.getLast?)
    (hnext' : ∀ y ∈ a ++ b, a.getLast? ≠ some y → next' y = next y)
    (hprev' : ∀ y ∈ a ++ b, b.head? ≠ some y → prev' y = prev y) :
    DList next' prev' (a ++ b).head? (a ++ b).getLast? (a ++ b) := by
  obtain ⟨ha, -, -, hb⟩ := seg_middle.mp h.seg
  have hnd : (a ++ b).Nodup := (List.nodup_cons.mp (List.nodup_middle.mp h.nodup)).2
  obtain ⟨hna, hnb, -⟩ := List.nodup_append.mp hnd
  obtain ⟨hne, hne'⟩ := ne_neighbours hnd
  refine ⟨rfl, rfl, seg_append.mpr ⟨?_, ?_⟩, hnd⟩
  · rw [Option.or_none]
    exact ha.setLast hna (fun y hy => hprev' y (List.mem_append_left _ hy) (hne y hy))
      (fun y hy hy' => hnext' y (List.mem_append_left _ hy) hy') hleft
  · rw [Option.or_none]
    exact hb.setFirst (fun y hy => hnext' y (List.mem_append_right _ hy) (hne' y hy))
      (fun y hy hy' => hprev' y (List.mem_append_right _ hy) hy') hright hnb

end DList

end Linked
