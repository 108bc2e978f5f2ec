import BofStd.BofListSpec
import BofStd.Lib.Segment

/-!
# The list stays sound

The invariant `Inv` is `Holds` with the two sequences doubly linked (`DList`) and the links of the held
nodes null. Each piece of the source that patches links has one lemma: `unlink_eq` for a node taken out
of the linked or the free nodes, `getFreeNode_inv` and `setFreeNode_eq` for the two ends of the pool, and
`addAfterNode_inv`, `addBeforeNode_inv` and `addOnly_inv` for a held node put in.
-/

namespace BofStd

open Linked

namespace Links

variable {k : Links} {head queue : Option Nat} {a b : List Nat} {n : Nat}

@[simp] theorem setNext_some (v : Option Nat) :
    k.setNext (some n) v = some { k with next := Function.update k.next n v } := rfl

@[simp] theorem setPrev_some (v : Option Nat) :
    k.setPrev (some n) v = some { k with prev := Function.update k.prev n v } := rfl

/-- The nodes `p` and `q` linked to each other. -/
def glue (k : Links) (p q : Option Nat) : Links where
  next x := if p = some x then q else k.next x
  prev x := if q = some x then p else k.prev x

/-- The node `n` linked in between `p` and `q`. -/
def join (k : Links) (p : Option Nat) (n : Nat) (q : Option Nat) : Links where
  next x := if x = n then q else if p = some x then some n else k.next x
  prev x := if x = n then p else if q = some x then some n else k.prev x

/-- The neighbours of a place are in the list. -/
theorem ne_neighbour {x : Nat} (hx : x ∉ a ++ b) : a.getLast? ≠ some x ∧ b.head? ≠ some x := by
  rw [List.mem_append, not_or] at hx
  constructor
  · intro he
    exact hx.1 (List.mem_of_getLast? he)
  · intro he
    exact hx.2 (List.mem_of_head? he)

/-- A node is taken out. -/
theorem glue_spec (h : DList k.next k.prev head queue (a ++ n :: b)) :
    DList (k.glue a.getLast? b.head?).next (k.glue a.getLast? b.head?).prev (a ++ b).head? (a ++ b).getLast?
      (a ++ b) := by
  refine h.remove ?_ ?_ ?_ ?_
  · intro y hy
    exact if_pos hy
  · intro y hy
    exact if_pos hy
  · intro y _ hy
    exact if_neg hy
  · intro y _ hy
    exact if_neg hy

theorem glue_frame {x : Nat} (hx : x ∉ a ++ b) :
    (k.glue a.getLast? b.head?).next x = k.next x ∧ (k.glue a.getLast? b.head?).prev x = k.prev x :=
  ⟨if_neg (ne_neighbour hx).1, if_neg (ne_neighbour hx).2⟩

/-- A node is put in. -/
theorem join_spec (h : DList k.next k.prev head queue (a ++ b)) (hn : n ∉ a ++ b) :
    DList (k.join a.getLast? n b.head?).next (k.join a.getLast? n b.head?).prev (a ++ n :: b).head?
      (a ++ n :: b).getLast? (a ++ n :: b) := by
  refine h.insert hn (if_pos rfl) (if_pos rfl) ?_ ?_ ?_ ?_ rfl rfl
  · intro y hy
    have hne : y ≠ n := by
      rintro rfl
      exact hn (List.mem_append_left _ (List.mem_of_getLast? hy))
    exact (if_neg hne).trans (if_pos hy)
  · intro y hy
    have hne : y ≠ n := by
      rintro rfl
      exact hn (List.mem_append_right _ (List.mem_of_head? hy))
    exact (if_neg hne).trans (if_pos hy)
  · intro y hmem hy
    have hne : y ≠ n := by
      rintro rfl
      exact hn hmem
    exact (if_neg hne).trans (if_neg hy)
  · intro y hmem hy
    have hne : y ≠ n := by
      rintro rfl
      exact hn hmem
    exact (if_neg hne).trans (if_neg hy)

theorem join_frame {x : Nat} (hx : x ∉ a ++ n :: b) :
    (k.join a.getLast? n b.head?).next x = k.next x ∧ (k.join a.getLast? n b.head?).prev x = k.prev x := by
  have hne : x ≠ n := by
    rintro rfl
    exact hx (List.mem_append_right _ List.mem_cons_self)
  have hab : x ∉ a ++ b := by
    intro hmem
    rw [List.mem_append] at hmem
    rcases hmem with hmem | hmem
    · exact hx (List.mem_append_left _ hmem)
    · exact hx (List.mem_append_right _ (List.mem_cons_of_mem _ hmem))
  obtain ⟨h1, h2⟩ := ne_neighbour hab
  exact ⟨(if_neg hne).trans (if_neg h1), (if_neg hne).trans (if_neg h2)⟩

theorem ext {k k' : Links} (hnext : ∀ x, k.next x = k'.next x) (hprev : ∀ x, k.prev x = k'.prev x) : k = k' := by
  cases k
  cases k'
  congr
  · funext x
    exact hnext x
  · funext x
    exact hprev x

/-- An update written as in `glue` and `join`. -/
theorem update_eq (f : Nat → Option Nat) (z x : Nat) (v : Option Nat) :
    Function.update f z v x = if some z = some x then v else f x := by
  rw [Function.update_apply]
  by_cases hx : x = z
  · rw [if_pos hx, if_pos (by rw [hx])]
  · rw [if_neg hx, if_neg]
    intro he
    exact hx (Option.some.inj he).symm

theorem glue_head (y : Nat) : { k with prev := Function.update k.prev y none } = k.glue none (some y) :=
  ext (fun _ => rfl) (fun x => update_eq k.prev y x none)

theorem glue_queue (z : Nat) : { k with next := Function.update k.next z none } = k.glue (some z) none :=
  ext (fun x => update_eq k.next z x none) (fun _ => rfl)

theorem glue_both (z y : Nat) :
    ({ next := Function.update k.next z (some y), prev := Function.update k.prev y (some z) } : Links) =
      k.glue (some z) (some y) :=
  ext (fun x => update_eq k.next z x (some y)) (fun x => update_eq k.prev y x (some z))

theorem head?_append_of_concat (z : Nat) : (a ++ [z] ++ b).head? = (a ++ [z]).head? := by
  cases a with
  | nil => rfl
  | cons w a => rfl

/-- The four cases of the source glue the neighbours of the node. -/
theorem unlink_eq (h : DList k.next k.prev head queue (a ++ n :: b)) :
    k.unlink head queue n = some (k.glue a.getLast? b.head?, (a ++ b).head?, (a ++ b).getLast?) := by
  obtain ⟨hprev, hnext⟩ := h.links
  have hhead := h.head_iff
  have hqueue := h.queue_iff
  have hheadeq := h.head_eq
  have hqueueeq := h.queue_eq
  have hnd : (n :: (a ++ b)).Nodup := List.nodup_middle.mp h.nodup
  rw [List.nodup_cons] at hnd
  rcases List.eq_nil_or_concat' a with rfl | ⟨a', z, rfl⟩
  · cases b with
    | nil =>
      rw [unlink, if_pos ⟨hhead.mpr rfl, hqueue.mpr rfl⟩]
      rfl
    | cons y b =>
      -- the head
      have hne : ¬ (head = some n ∧ queue = some n) := fun he => List.cons_ne_nil y b (hqueue.mp he.2)
      rw [List.nil_append, List.getLast?_cons_cons] at hqueueeq
      rw [unlink, if_neg hne, if_pos (hhead.mpr rfl), hnext, List.head?_cons, setPrev_some, hqueueeq]
      simp only [Option.bind_eq_bind, Option.bind_some, hnext]
      rw [glue_head]
      rfl
  · have hz : (a' ++ [z]).getLast? = some z := List.getLast?_concat
    have hnehead : head ≠ some n := fun he => List.append_ne_nil_of_right_ne_nil _ (List.cons_ne_nil z []) (hhead.mp he)
    have hzn : n ≠ z := by
      rintro rfl
      exact hnd.1 (List.mem_append_left _ (List.mem_append_right _ List.mem_cons_self))
    cases b with
    | nil =>
      -- the queue
      rw [unlink, if_neg (fun he => hnehead he.1), if_neg hnehead, if_pos (hqueue.mpr rfl), hprev, hz,
        setNext_some]
      simp only [Option.bind_eq_bind, Option.bind_some, hprev, hz]
      rw [glue_queue, hheadeq, head?_append_of_concat, List.append_nil, hz]
      rfl
    | cons y b =>
      -- a node inside
      have hnequeue : queue ≠ some n := fun he => List.cons_ne_nil y b (hqueue.mp he)
      rw [unlink, if_neg (fun he => hnehead he.1), if_neg hnehead, if_neg hnequeue, hprev, hz, setNext_some]
      simp only [Option.bind_eq_bind, Option.bind_some, Function.update_of_ne hzn, hnext, hprev, hz,
        List.head?_cons, setPrev_some]
      rw [glue_both, hheadeq, hqueueeq, head?_append_of_concat, head?_append_of_concat,
        List.getLast?_append_cons, List.getLast?_append_cons, List.getLast?_cons_cons]

theorem update_of_eq (f : Nat → Option Nat) (x : Nat) (v : Option Nat) :
    Function.update f n v x = if x = n then v else f x := Function.update_apply ..

/-- The link of `q` is written first, then that of `n`. -/
theorem update_then (f : Nat → Option Nat) (q x : Nat) (v w : Option Nat) :
    Function.update (Function.update f q w) n v x = if x = n then v else if some q = some x then w else f x := by
  rw [update_of_eq, update_eq]

/-- The link of `n` is written first, then that of `q`. -/
theorem then_update (f : Nat → Option Nat) {q : Nat} (hq : q ≠ n) (x : Nat) (v w : Option Nat) :
    Function.update (Function.update f n v) q w x = if x = n then v else if some q = some x then w else f x := by
  rw [Function.update_comm hq.symm, update_then]

/-- The writes for the only node of a list. -/
theorem join_only :
    k.join none n none = ⟨Function.update k.next n none, Function.update k.prev n none⟩ :=
  ext (fun x => (update_of_eq k.next x none).symm) (fun x => (update_of_eq k.prev x none).symm)

/-- The writes of `SetFreeNode` for a node behind the queue. -/
theorem join_queue {q : Nat} (hq : q ≠ n) :
    k.join (some q) n none =
      ⟨Function.update (Function.update k.next n none) q (some n), Function.update k.prev n (some q)⟩ :=
  ext (fun x => (then_update k.next hq x none (some n)).symm)
    (fun x => (update_of_eq k.prev x (some q)).symm)

/-- The writes of `AddAfter` behind the queue. -/
theorem join_after_queue (e : Nat) :
    k.join (some e) n none =
      ⟨Function.update (Function.update k.next e (some n)) n none, Function.update k.prev n (some e)⟩ :=
  ext (fun x => (update_then k.next e x none (some n)).symm) (fun x => (update_of_eq k.prev x (some e)).symm)

/-- The writes of `AddAfter` inside the list. -/
theorem join_after {y : Nat} (hy : y ≠ n) (e : Nat) :
    k.join (some e) n (some y) =
      ⟨Function.update (Function.update k.next e (some n)) n (some y),
        Function.update (Function.update k.prev n (some e)) y (some n)⟩ :=
  ext (fun x => (update_then k.next e x (some y) (some n)).symm)
    (fun x => (then_update k.prev hy x (some e) (some n)).symm)

/-- The writes of `AddBefore` before the head. -/
theorem join_before_head (e : Nat) :
    k.join none n (some e) =
      ⟨Function.update k.next n (some e), Function.update (Function.update k.prev e (some n)) n none⟩ :=
  ext (fun x => (update_of_eq k.next x (some e)).symm) (fun x => (update_then k.prev e x none (some n)).symm)

/-- The writes of `AddBefore` inside the list. -/
theorem join_before {z : Nat} (hz : z ≠ n) (e : Nat) :
    k.join (some z) n (some e) =
      ⟨Function.update (Function.update k.next n (some e)) z (some n),
        Function.update (Function.update k.prev e (some n)) n (some z)⟩ :=
  ext (fun x => (then_update k.next hz x (some e) (some n)).symm)
    (fun x => (update_then k.prev e x (some z) (some n)).symm)

/-- The links of a node set to null. -/
def clear (k : Links) (n : Nat) : Links where
  next := Function.update k.next n none
  prev := Function.update k.prev n none

theorem clear_frame {x : Nat} (hx : x ≠ n) : (k.clear n).next x = k.next x ∧ (k.clear n).prev x = k.prev x :=
  ⟨Function.update_of_ne hx _ _, Function.update_of_ne hx _ _⟩

end Links

namespace BofList

variable {α : Type} {s : BofList α} {held linked free a b : List Nat} {e n : Nat}

/-- The invariant: both sequences are doubly linked, and the held nodes have null links. -/
structure Inv (s : BofList α) (held linked free : List Nat) : Prop where
  linked_list : DList s.links.next s.links.prev s.head s.queue linked
  free_list : DList s.links.next s.links.prev s.freeHead s.freeQueue free
  nbElements_eq : s.nbElements = linked.length
  parent_iff : ∀ n, s.pParent n = true ↔ n ∈ linked
  held_links : ∀ n ∈ held, s.links.next n = none ∧ s.links.prev n = none
  places : (linked ++ (free ++ held)).Perm (List.range s.nbMaxElements)
  nbMaxElements_lt : s.nbMaxElements < 4294967296

namespace Inv

theorem holds (h : Inv s held linked free) : Holds s held linked free :=
  ⟨h.linked_list.chain, h.nbElements_eq, h.free_list.chain, fun n _ => h.parent_iff n, h.places⟩

theorem nodup (h : Inv s held linked free) : (linked ++ (free ++ held)).Nodup :=
  h.places.nodup_iff.mpr List.nodup_range

/-- No node is in two places. -/
theorem disjoint (h : Inv s held linked free) :
    (∀ x ∈ free, x ∉ linked) ∧ (∀ x ∈ held, x ∉ linked) ∧ ∀ x ∈ held, x ∉ free := by
  obtain ⟨-, hfh, hl⟩ := List.nodup_append.mp h.nodup
  obtain ⟨-, -, hf⟩ := List.nodup_append.mp hfh
  refine ⟨?_, ?_, ?_⟩
  · intro x hx hx'
    exact hl x hx' x (List.mem_append_left _ hx) rfl
  · intro x hx hx'
    exact hl x hx' x (List.mem_append_right _ hx) rfl
  · intro x hx hx'
    exact hf x hx' x hx rfl

/-- Every node is in some place. -/
theorem mem_places (h : Inv s held linked free) (hn : n < s.nbMaxElements) :
    n ∈ linked ∨ n ∈ free ∨ n ∈ held := by
  have hmem := h.places.mem_iff.mpr (List.mem_range.mpr hn)
  rw [List.mem_append, List.mem_append] at hmem
  exact hmem

theorem length_le (h : Inv s held linked free) : linked.length + (free.length + held.length) = s.nbMaxElements := by
  have hlen := h.places.length_eq
  rw [List.length_append, List.length_append, List.length_range] at hlen
  exact hlen

theorem parent_false (h : Inv s held linked free) (hn : n ∉ linked) : s.pParent n = false := by
  rw [Bool.eq_false_iff, ne_eq, h.parent_iff]
  exact hn

/-- A node is taken from the pool. -/
theorem take (h : Inv s held linked (a ++ n :: b)) (v : Nat → α) :
    Inv { s with
        links := (s.links.glue a.getLast? b.head?).clear n
        freeHead := (a ++ b).head?
        freeQueue := (a ++ b).getLast?
        pParent := Function.update s.pParent n false
        value := v } (n :: held) linked (a ++ b) := by
  obtain ⟨hfree, hheld, hheldfree⟩ := h.disjoint
  have hnfree : n ∈ a ++ n :: b := List.mem_append_right _ List.mem_cons_self
  have hsub : ∀ x ∈ a ++ b, x ∈ a ++ n :: b := by
    intro x hx
    exact (List.Sublist.append_left (List.sublist_cons_self n b) a).subset hx
  have hnd : (n :: (a ++ b)).Nodup := List.nodup_middle.mp h.free_list.nodup
  rw [List.nodup_cons] at hnd
  have hne : ∀ {x : Nat}, x ∉ a ++ n :: b → x ≠ n := by
    rintro x hx rfl
    exact hx hnfree
  refine ⟨?_, ?_, h.nbElements_eq, ?_, ?_, ?_, h.nbMaxElements_lt⟩
  · refine h.linked_list.congr (fun x hx => ?_) (fun x hx => ?_)
    · have hx' : x ∉ a ++ n :: b := fun hmem => hfree x hmem hx
      rw [(Links.clear_frame (hne hx')).1, (Links.glue_frame fun hmem => hx' (hsub x hmem)).1]
    · have hx' : x ∉ a ++ n :: b := fun hmem => hfree x hmem hx
      rw [(Links.clear_frame (hne hx')).2, (Links.glue_frame fun hmem => hx' (hsub x hmem)).2]
  · refine (Links.glue_spec h.free_list).congr (fun x hx => ?_) (fun x hx => ?_)
    · exact (Links.clear_frame (by rintro rfl; exact hnd.1 hx)).1
    · exact (Links.clear_frame (by rintro rfl; exact hnd.1 hx)).2
  · intro x
    by_cases hx : x = n
    · subst hx
      simp only [Function.update_self, Bool.false_eq_true, false_iff]
      exact hfree x hnfree
    · simp only [Function.update_of_ne hx]
      exact h.parent_iff x
  · intro x hx
    by_cases hxn : x = n
    · subst hxn
      exact ⟨Function.update_self .., Function.update_self ..⟩
    · have hx := (List.mem_cons.mp hx).resolve_left hxn
      have hframe := Links.glue_frame (k := s.links) (fun hmem => hheldfree x hx (hsub x hmem))
      rw [(Links.clear_frame hxn).1, (Links.clear_frame hxn).2, hframe.1, hframe.2]
      exact h.held_links x hx
  · refine List.Perm.trans (List.Perm.append_left linked ?_) h.places
    rw [List.append_assoc, List.append_assoc, List.cons_append]
    exact List.Perm.append_left a List.perm_middle

/-- A held node has null links already. -/
theorem keep (h : Inv s held linked free) (hn : n ∈ held) :
    Inv { s with links := s.links.clear n, pParent := Function.update s.pParent n false } held linked free := by
  obtain ⟨hnext, hprev⟩ := h.held_links n hn
  have hlinks : s.links.clear n = s.links :=
    Links.ext (fun x => by rw [Links.clear, ← hnext, Function.update_eq_self])
      (fun x => by rw [Links.clear, ← hprev, Function.update_eq_self])
  have hparent : Function.update s.pParent n false = s.pParent := by
    rw [← h.parent_false (h.disjoint.2.1 n hn), Function.update_eq_self]
  rw [hlinks, hparent]
  exact h

/-- A held node is linked at any place of the list. -/
theorem link (h : Inv s (n :: held) (a ++ b) free) :
    Inv { s with
        links := s.links.join a.getLast? n b.head?
        head := (a ++ n :: b).head?
        queue := (a ++ n :: b).getLast?
        pParent := Function.update s.pParent n true
        nbElements := u32 (s.nbElements + 1) } held (a ++ n :: b) free := by
  obtain ⟨hfree, hheld, hheldfree⟩ := h.disjoint
  have hn : n ∉ a ++ b := hheld n List.mem_cons_self
  have hnfree : n ∉ free := hheldfree n List.mem_cons_self
  have hmem : ∀ {x : Nat}, x ∈ a ++ n :: b ↔ x = n ∨ x ∈ a ++ b := by
    intro x
    rw [List.mem_append, List.mem_cons, List.mem_append, or_left_comm]
  have hout : ∀ {x : Nat}, x ≠ n → x ∉ a ++ b → x ∉ a ++ n :: b := by
    intro x hx hx' hin
    exact (hmem.mp hin).elim hx hx'
  have hlen := h.length_le
  have hlt := h.nbMaxElements_lt
  rw [List.length_cons] at hlen
  refine ⟨Links.join_spec h.linked_list hn, ?_, ?_, ?_, ?_, ?_, hlt⟩
  · have hframe : ∀ x ∈ free, x ∉ a ++ n :: b := by
      intro x hx
      refine hout ?_ (hfree x hx)
      rintro rfl
      exact hnfree hx
    exact h.free_list.congr (fun x hx => (Links.join_frame (hframe x hx)).1)
      (fun x hx => (Links.join_frame (hframe x hx)).2)
  · show u32 (s.nbElements + 1) = (a ++ n :: b).length
    have hnb := h.nbElements_eq
    rw [List.length_append] at hnb hlen
    rw [u32_of_lt (by omega), List.length_append, List.length_cons]
    omega
  · intro x
    rw [hmem, ← h.parent_iff]
    by_cases hx : x = n
    · subst hx
      simp only [Function.update_self, true_or]
    · simp only [Function.update_of_ne hx, hx, false_or]
  · have hnd := (h.nodup.of_append_right).of_append_right
    rw [List.nodup_cons] at hnd
    intro x hx
    have hxn : x ≠ n := by
      rintro rfl
      exact hnd.1 hx
    have hframe := Links.join_frame (k := s.links) (hout hxn (hheld x (List.mem_cons_of_mem _ hx)))
    have hlinks := h.held_links x (List.mem_cons_of_mem _ hx)
    exact ⟨hframe.1.trans hlinks.1, hframe.2.trans hlinks.2⟩
  · refine List.Perm.trans ?_ h.places
    rw [List.append_assoc, List.append_assoc, List.cons_append]
    refine List.Perm.append_left a ?_
    calc (n :: (b ++ (free ++ held))).Perm (b ++ n :: (free ++ held)) := List.perm_middle.symm
      _ |>.Perm (b ++ (free ++ n :: held)) := List.Perm.append_left b List.perm_middle.symm

/-- A linked node goes to the end of the pool. -/
theorem release (h : Inv s held (a ++ n :: b) free) :
    Inv { s with
        links := (s.links.glue a.getLast? b.head?).join free.getLast? n none
        head := (a ++ b).head?
        queue := (a ++ b).getLast?
        freeHead := (free ++ [n]).head?
        freeQueue := some n
        pParent := Function.update s.pParent n false
        nbElements := u32Sub s.nbElements 1 } held (a ++ b) (free ++ [n]) := by
  obtain ⟨hfree, hheld, hheldfree⟩ := h.disjoint
  have hnlinked : n ∈ a ++ n :: b := List.mem_append_right _ List.mem_cons_self
  have hsub : ∀ x ∈ a ++ b, x ∈ a ++ n :: b := by
    intro x hx
    exact (List.Sublist.append_left (List.sublist_cons_self n b) a).subset hx
  have hnd : (n :: (a ++ b)).Nodup := List.nodup_middle.mp h.linked_list.nodup
  rw [List.nodup_cons] at hnd
  have hglue := Links.glue_spec h.linked_list
  have hnfree : n ∉ free := fun hmem => hfree n hmem hnlinked
  have hfreelist : DList (s.links.glue a.getLast? b.head?).next (s.links.glue a.getLast? b.head?).prev
      s.freeHead s.freeQueue (free ++ []) := by
    rw [List.append_nil]
    exact h.free_list.congr (fun x hx => (Links.glue_frame fun hmem => hfree x hx (hsub x hmem)).1)
      (fun x hx => (Links.glue_frame fun hmem => hfree x hx (hsub x hmem)).2)
  refine ⟨?_, ?_, ?_, ?_, ?_, ?_, h.nbMaxElements_lt⟩
  · have hframe : ∀ x ∈ a ++ b, x ∉ free ++ n :: [] := by
      intro x hx hmem
      rw [List.mem_append, List.mem_singleton] at hmem
      rcases hmem with hmem | rfl
      · exact hfree x hmem (hsub x hx)
      · exact hnd.1 hx
    exact hglue.congr (fun x hx => (Links.join_frame (b := []) (hframe x hx)).1)
      (fun x hx => (Links.join_frame (b := []) (hframe x hx)).2)
  · have hjoin := Links.join_spec hfreelist (n := n) (by rwa [List.append_nil])
    have hlast : (free ++ [n]).getLast? = some n := List.getLast?_concat
    rw [hlast] at hjoin
    exact hjoin
  · show u32Sub s.nbElements 1 = (a ++ b).length
    have hnb := h.nbElements_eq
    rw [List.length_append, List.length_cons] at hnb
    rw [u32Sub_of_le (by omega), List.length_append]
    omega
  · intro x
    by_cases hx : x = n
    · subst hx
      simp only [Function.update_self, Bool.false_eq_true, false_iff]
      exact hnd.1
    · simp only [Function.update_of_ne hx]
      rw [h.parent_iff, List.mem_append, List.mem_cons, List.mem_append]
      simp only [hx, false_or]
  · intro x hx
    have hxn : x ∉ free ++ n :: [] := by
      intro hmem
      rw [List.mem_append, List.mem_singleton] at hmem
      rcases hmem with hmem | rfl
      · exact hheldfree x hx hmem
      · exact hheld x hx hnlinked
    have hjoin := Links.join_frame (k := s.links.glue a.getLast? b.head?) hxn
    have hframe := Links.glue_frame (k := s.links) (fun hmem => hheld x hx (hsub x hmem))
    have hlinks := h.held_links x hx
    exact ⟨hjoin.1.trans (hframe.1.trans hlinks.1), hjoin.2.trans (hframe.2.trans hlinks.2)⟩
  · refine List.Perm.trans ?_ h.places
    rw [List.append_assoc, List.append_assoc, List.append_assoc, List.cons_append]
    refine List.Perm.append_left a ?_
    calc (b ++ (free ++ n :: held)).Perm (b ++ n :: (free ++ held)) := List.Perm.append_left b List.perm_middle
      _ |>.Perm (n :: (b ++ (free ++ held))) := List.perm_middle

/-- The order of the held nodes does not matter. -/
theorem perm_held {held' : List Nat} (h : Inv s held linked free) (hp : held'.Perm held) :
    Inv s held' linked free :=
  ⟨h.linked_list, h.free_list, h.nbElements_eq, h.parent_iff, fun n hn => h.held_links n (hp.mem_iff.mp hn),
    (List.Perm.append_left linked (List.Perm.append_left free hp)).trans h.places, h.nbMaxElements_lt⟩

/-- The test of `GetFreeNode` finds the nodes of the pool. -/
theorem inFreePool_iff (h : Inv s held linked free) (hn : n < s.nbMaxElements) :
    s.inFreePool n = true ↔ n ∈ free := by
  have hparent := h.parent_iff n
  obtain ⟨hfree, hheld, hheldfree⟩ := h.disjoint
  constructor
  · intro hpool
    rw [inFreePool, Bool.and_eq_true, Bool.not_eq_true'] at hpool
    obtain ⟨htest, hp⟩ := hpool
    rcases h.mem_places hn with hl | hf | hh
    · rw [hparent.mpr hl] at hp
      exact absurd hp.symm Bool.false_ne_true
    · exact hf
    · -- a held node has null links and is at no end of the pool
      exfalso
      obtain ⟨hnext, hprev⟩ := h.held_links n hh
      have hhead : s.freeHead ≠ some n := by
        rw [h.free_list.head_eq]
        intro he
        exact hheldfree n hh (List.mem_of_head? he)
      have hqueue : s.freeQueue ≠ some n := by
        rw [h.free_list.queue_eq]
        intro he
        exact hheldfree n hh (List.mem_of_getLast? he)
      rw [hnext, hprev, beq_eq_false_iff_ne.mpr hhead, beq_eq_false_iff_ne.mpr hqueue] at htest
      exact absurd htest Bool.false_ne_true
  · intro hf
    obtain ⟨a, b, rfl⟩ := List.append_of_mem hf
    rw [inFreePool, h.parent_false (hfree n hf), Bool.not_false, Bool.and_true]
    cases b with
    | nil =>
      rw [h.free_list.queue_iff.mpr rfl, beq_self_eq_true, Bool.or_true]
    | cons y b =>
      rw [h.free_list.links.2]
      simp

end Inv

/-! ## The calls -/

/-- `SetFreeNode` after the node was taken out of the list. -/
theorem setFreeNode_eq (k : Links) (hq : s.freeQueue = free.getLast?) (hh : s.freeHead = free.head?)
    (hn : n ∉ free) (head queue : Option Nat) (nb : Nat) :
    { s with links := k, head := head, queue := queue, nbElements := nb }.setFreeNode n =
      some ({ s with
        links := k.join free.getLast? n none
        head := head
        queue := queue
        freeHead := (free ++ [n]).head?
        freeQueue := some n
        pParent := Function.update s.pParent n false
        nbElements := nb }, true) := by
  rcases List.eq_nil_or_concat' free with rfl | ⟨f, q, rfl⟩
  · have hq' : s.freeQueue = none := hq
    simp only [setFreeNode, hq', Links.setPrev_some, Links.setNext_some, Option.bind_eq_bind, Option.bind_some]
    rw [← Links.join_only]
    rfl
  · have hlast : (f ++ [q]).getLast? = some q := List.getLast?_concat
    have hqn : q ≠ n := by
      rintro rfl
      exact hn (List.mem_append_right _ List.mem_cons_self)
    rw [hlast] at hq
    simp only [setFreeNode, hq, hlast, Links.setPrev_some, Links.setNext_some, Option.bind_eq_bind,
      Option.bind_some]
    rw [← Links.join_queue hqn, hh, Links.head?_append_of_concat]

/-- `Remove` of a linked node. -/
theorem remove_inv (h : Inv s held (a ++ n :: b) free) :
    ∃ s', s.remove (some n) = some (s', true) ∧ Inv s' held (a ++ b) (free ++ [n]) := by
  have hmem : n ∈ a ++ n :: b := List.mem_append_right _ List.mem_cons_self
  have hn : n ∉ free := fun hf => h.disjoint.1 n hf hmem
  refine ⟨_, ?_, h.release⟩
  rw [remove, if_pos ((h.parent_iff n).mpr hmem), Links.unlink_eq h.linked_list]
  exact setFreeNode_eq _ h.free_list.queue_eq h.free_list.head_eq hn _ _ _

/-- `AddAfter` of a held node. -/
theorem addAfterNode_inv (h : Inv s (n :: held) (a ++ e :: b) free) :
    ∃ s', s.addAfterNode (some e) (some n) = some (s', true) ∧ Inv s' held (a ++ e :: n :: b) free := by
  have hcut : Inv s (n :: held) (a ++ [e] ++ b) free := by
    rw [List.append_assoc]
    exact h
  have hlink := hcut.link
  have hlast : (a ++ [e]).getLast? = some e := List.getLast?_concat
  have hassoc : a ++ [e] ++ n :: b = a ++ e :: n :: b := by
    rw [List.append_assoc]
    rfl
  have hheld := h.disjoint.2.1 n List.mem_cons_self
  have hhead : s.head = (a ++ e :: n :: b).head? := by
    rw [h.linked_list.head_eq, ← hassoc, Links.head?_append_of_concat, ← List.singleton_append,
      ← List.append_assoc, Links.head?_append_of_concat]
  rw [hlast, hassoc] at hlink
  refine ⟨_, ?_, hlink⟩
  have hparent : (s.pParent e && !s.pParent n) = true := by
    rw [(h.parent_iff e).mpr (List.mem_append_right _ List.mem_cons_self), h.parent_false hheld]
    rfl
  simp only [addAfterNode, if_pos hparent]
  cases b with
  | nil =>
    have hqueue := h.linked_list.queue_iff.mpr rfl
    simp only [hqueue, if_true, Links.setNext_some, Links.setPrev_some, Option.bind_eq_bind, Option.bind_some]
    rw [List.head?_nil, Links.join_after_queue, hhead, List.getLast?_append_cons]
    rfl
  | cons y b =>
    have hqueue : s.queue ≠ some e := fun he => List.cons_ne_nil y b (h.linked_list.queue_iff.mp he)
    have hnext : s.links.next e = some y := h.linked_list.links.2
    have hy : y ≠ n := by
      rintro rfl
      exact hheld (List.mem_append_right _ (List.mem_cons_of_mem _ List.mem_cons_self))
    simp only [hqueue, if_false, hnext, Links.setNext_some, Links.setPrev_some, Option.bind_eq_bind,
      Option.bind_some]
    rw [List.head?_cons, Links.join_after hy, hhead, h.linked_list.queue_eq, List.getLast?_append_cons,
      List.getLast?_append_cons, List.getLast?_cons_cons, List.getLast?_cons_cons, List.getLast?_cons_cons]

/-- `AddBefore` of a held node. -/
theorem addBeforeNode_inv (h : Inv s (n :: held) (a ++ e :: b) free) :
    ∃ s', s.addBeforeNode (some e) (some n) = some (s', true) ∧ Inv s' held (a ++ n :: e :: b) free := by
  have hlink := h.link
  have hheld := h.disjoint.2.1 n List.mem_cons_self
  have hqueue : s.queue = (a ++ n :: e :: b).getLast? := by
    rw [h.linked_list.queue_eq, List.getLast?_append_cons, List.getLast?_append_cons, List.getLast?_cons_cons]
  refine ⟨_, ?_, hlink⟩
  have hparent : (s.pParent e && !s.pParent n) = true := by
    rw [(h.parent_iff e).mpr (List.mem_append_right _ List.mem_cons_self), h.parent_false hheld]
    rfl
  simp only [addBeforeNode, if_pos hparent]
  rcases List.eq_nil_or_concat' a with rfl | ⟨a', z, rfl⟩
  · have hhead := h.linked_list.head_iff.mpr rfl
    simp only [hhead, if_true, Links.setNext_some, Links.setPrev_some, Option.bind_eq_bind, Option.bind_some]
    rw [List.head?_cons, List.getLast?_nil, Links.join_before_head, hqueue]
    rfl
  · have hz : (a' ++ [z]).getLast? = some z := List.getLast?_concat
    have hhead : s.head ≠ some e := fun he =>
      List.append_ne_nil_of_right_ne_nil _ (List.cons_ne_nil z []) (h.linked_list.head_iff.mp he)
    have hprev : s.links.prev e = some z := h.linked_list.links.1.trans hz
    have hzn : z ≠ n := by
      rintro rfl
      exact hheld (List.mem_append_left _ (List.mem_append_right _ List.mem_cons_self))
    simp only [hhead, if_false, hprev, Links.setNext_some, Links.setPrev_some, Option.bind_eq_bind,
      Option.bind_some]
    rw [List.head?_cons, hz, Links.join_before hzn, hqueue, h.linked_list.head_eq,
      Links.head?_append_of_concat, Links.head?_append_of_concat]

/-- The first node of the list. -/
theorem addOnly_inv (h : Inv s (n :: held) [] free) :
    ∃ s', s.addOnly n = some (s', true) ∧ Inv s' held [n] free := by
  have hlink := Inv.link (a := []) (b := []) h
  have hnb : s.nbElements = 0 := h.nbElements_eq
  refine ⟨_, ?_, hlink⟩
  simp only [addOnly, Links.setNext_some, Links.setPrev_some, Option.bind_eq_bind, Option.bind_some]
  rw [List.getLast?_nil, List.head?_nil, Links.join_only, hnb]
  rfl

/-- A node that is not linked is taken, from the pool or from its holder. -/
theorem getFreeNodeOf_inv (h : Inv s held linked free) (hn : n < s.nbMaxElements) (hl : n ∉ linked) :
    ∃ s' free', s.getFreeNodeOf n = some (s', some n) ∧ Inv s' (n :: held.erase n) linked free' := by
  obtain ⟨-, -, hheldfree⟩ := h.disjoint
  rcases h.mem_places hn with hl' | hf | hh
  · exact absurd hl' hl
  · have hpool := (h.inFreePool_iff hn).mpr hf
    have hnot : n ∉ held := fun hh => hheldfree n hh hf
    obtain ⟨a, b, rfl⟩ := List.append_of_mem hf
    have htake := h.take s.value
    rw [← List.erase_of_not_mem hnot] at htake
    refine ⟨_, a ++ b, ?_, htake⟩
    rw [getFreeNodeOf, if_pos hpool, Links.unlink_eq h.free_list]
    rfl
  · have hpool : ¬ s.inFreePool n = true := fun hp => hheldfree n hh ((h.inFreePool_iff hn).mp hp)
    refine ⟨_, free, ?_, (h.keep hh).perm_held (List.perm_cons_erase hh).symm⟩
    rw [getFreeNodeOf, if_neg hpool]
    rfl

/-- `AddFirst` of a node that is not linked. -/
theorem addFirstNode_inv (h : Inv s held linked free) (hn : n < s.nbMaxElements) (hl : n ∉ linked) :
    ∃ s' free', s.addFirstNode (some n) = some (s', true) ∧ Inv s' (held.erase n) (n :: linked) free' := by
  obtain ⟨s1, free1, hget, h1⟩ := getFreeNodeOf_inv h hn hl
  have hparent : (!s1.pParent n) = true := by
    rw [h1.parent_false hl]
    rfl
  cases linked with
  | nil =>
    obtain ⟨s2, hadd, h2⟩ := addOnly_inv h1
    refine ⟨s2, free1, ?_, h2⟩
    have hhead : s1.head = none := h1.linked_list.head_eq
    simp only [addFirstNode, hget, Option.bind_eq_bind, Option.bind_some, if_pos hparent, if_pos hhead]
    exact hadd
  | cons e b =>
    obtain ⟨s2, hadd, h2⟩ := addBeforeNode_inv (a := []) h1
    refine ⟨s2, free1, ?_, h2⟩
    have hhead : s1.head = some e := h1.linked_list.head_eq
    simp only [addFirstNode, hget, Option.bind_eq_bind, Option.bind_some, if_pos hparent, hhead, reduceCtorEq,
      if_false]
    exact hadd

/-- `AddLast` of a node that is not linked. -/
theorem addLastNode_inv (h : Inv s held linked free) (hn : n < s.nbMaxElements) (hl : n ∉ linked) :
    ∃ s' free', s.addLastNode (some n) = some (s', true) ∧ Inv s' (held.erase n) (linked ++ [n]) free' := by
  obtain ⟨s1, free1, hget, h1⟩ := getFreeNodeOf_inv h hn hl
  have hparent : (!s.pParent n) = true := by
    rw [h.parent_false hl]
    rfl
  rcases List.eq_nil_or_concat' linked with rfl | ⟨a, e, rfl⟩
  · obtain ⟨s2, hadd, h2⟩ := addOnly_inv h1
    refine ⟨s2, free1, ?_, h2⟩
    have hqueue : s1.queue = none := h1.linked_list.queue_eq
    simp only [addLastNode, if_pos hparent, hget, Option.bind_eq_bind, Option.bind_some, if_pos hqueue]
    exact hadd
  · obtain ⟨s2, hadd, h2⟩ := addAfterNode_inv (b := []) h1
    refine ⟨s2, free1, ?_, ?_⟩
    · have hqueue : s1.queue = some e := h1.linked_list.queue_iff.mpr rfl
      simp only [addLastNode, if_pos hparent, hget, Option.bind_eq_bind, Option.bind_some, hqueue, reduceCtorEq,
        if_false]
      exact hadd
    · rw [List.append_assoc]
      exact h2

/-- What a call that returns a `bool` does: on success the list is sound again, on failure nothing has
changed. -/
def Returns (s : BofList α) (held' : List Nat) (r : Option (BofList α × Bool)) : Prop :=
  r = some (s, false) ∨ ∃ s' linked free, r = some (s', true) ∧ Inv s' held' linked free

/-- A node that is neither linked nor in the pool is held. -/
theorem Inv.of_held (h : Inv s held linked free) (hn : n < s.nbMaxElements) (hp : s.pParent n = false)
    (hf : s.inFreePool n = false) : Inv s (n :: held.erase n) linked free := by
  rcases h.mem_places hn with hl | hfree | hh
  · rw [(h.parent_iff n).mpr hl] at hp
    cases hp
  · rw [(h.inFreePool_iff hn).mpr hfree] at hf
    cases hf
  · exact h.perm_held (List.perm_cons_erase hh).symm

/-- A node that is not in the pool is added beside a linked one, or the call is refused. -/
theorem addNodeBeside_returns (h : Inv s held linked free) (hn : n < s.nbMaxElements)
    (hok : s.pParent e = true → s.inFreePool n = false) {r : Option (BofList α × Bool)}
    (hfail : ¬ (s.pParent e && !s.pParent n) = true → r = some (s, false))
    (hadd : ∀ {a b}, Inv s (n :: held.erase n) (a ++ e :: b) free →
      ∃ s' linked', r = some (s', true) ∧ Inv s' (held.erase n) linked' free) :
    Returns s (held.erase n) r := by
  by_cases htest : (s.pParent e && !s.pParent n) = true
  · right
    rw [Bool.and_eq_true, Bool.not_eq_true'] at htest
    have h1 := h.of_held hn htest.2 (hok htest.1)
    obtain ⟨a, b, rfl⟩ := List.append_of_mem ((h.parent_iff e).mp htest.1)
    obtain ⟨s', linked', hcall, h'⟩ := hadd h1
    exact ⟨s', linked', free, hcall, h'⟩
  · exact .inl (hfail htest)

/-- `AddAfter` with a node that is not in the pool. -/
theorem addAfterNode_returns (h : Inv s held linked free) (e : Option Nat) {n : Nat} (hn : n < s.nbMaxElements)
    (hok : ∀ i ∈ e, s.pParent i = true → s.inFreePool n = false) :
    Returns s (held.erase n) (s.addAfterNode e (some n)) := by
  cases e with
  | none => exact .inl rfl
  | some e =>
    refine addNodeBeside_returns h hn (hok e rfl) (fun htest => if_neg htest) fun h' => ?_
    obtain ⟨s', hcall, h''⟩ := addAfterNode_inv h'
    exact ⟨s', _, hcall, h''⟩

/-- `AddBefore` with a node that is not in the pool. -/
theorem addBeforeNode_returns (h : Inv s held linked free) (e : Option Nat) {n : Nat} (hn : n < s.nbMaxElements)
    (hok : ∀ i ∈ e, s.pParent i = true → s.inFreePool n = false) :
    Returns s (held.erase n) (s.addBeforeNode e (some n)) := by
  cases e with
  | none => exact .inl rfl
  | some e =>
    refine addNodeBeside_returns h hn (hok e rfl) (fun htest => if_neg htest) fun h' => ?_
    obtain ⟨s', hcall, h''⟩ := addBeforeNode_inv h'
    exact ⟨s', _, hcall, h''⟩

theorem remove_returns (h : Inv s held linked free) (n : Option Nat) : Returns s held (s.remove n) := by
  cases n with
  | none => exact .inl rfl
  | some n =>
    by_cases hp : s.pParent n = true
    · right
      obtain ⟨a, b, rfl⟩ := List.append_of_mem ((h.parent_iff n).mp hp)
      obtain ⟨s', hcall, h'⟩ := remove_inv h
      exact ⟨s', _, _, hcall, h'⟩
    · left
      rw [remove, if_neg hp]

/-- The loop of `Clear` ends: the linked nodes go to the pool, the first one first. -/
theorem clearLoop_inv (h : Inv s held linked free) :
    ∃ s', clearLoop (linked.length + 1) s = some s' ∧ Inv s' held [] (free ++ linked) := by
  induction linked generalizing s free with
  | nil =>
    have hhead : s.head = none := h.linked_list.head_eq
    refine ⟨s, ?_, ?_⟩
    · rw [clearLoop, if_pos hhead]
    · rwa [List.append_nil]
  | cons n linked ih =>
    obtain ⟨s1, hremove, h1⟩ := remove_inv (a := []) h
    obtain ⟨s2, hloop, h2⟩ := ih h1
    have hhead : s.head = some n := h.linked_list.head_eq
    refine ⟨s2, ?_, ?_⟩
    · rw [clearLoop, removeFirst, hhead, if_neg (Option.some_ne_none n), if_neg (Option.some_ne_none n), hremove]
      exact hloop
    · rwa [List.append_assoc] at h2

theorem clear_returns (h : Inv s held linked free) : Returns s held s.clear := by
  obtain ⟨s', hloop, h'⟩ := clearLoop_inv h
  rw [← h.nbElements_eq] at hloop
  right
  refine ⟨s', _, _, ?_, h'⟩
  rw [clear, hloop]
  rfl

/-! ## The calls with a value -/

variable [Inhabited α]

/-- The first node of the pool is taken, if there is one. -/
theorem getFreeNode_inv (h : Inv s held linked free) (element : Option α) :
    (free = [] ∧ s.getFreeNode element = some (s, none)) ∨
      ∃ n free' s', free = n :: free' ∧ s.getFreeNode element = some (s', some n) ∧
        Inv s' (n :: held) linked free' := by
  cases free with
  | nil =>
    left
    have hhead : s.freeHead = none := h.free_list.head_eq
    refine ⟨rfl, ?_⟩
    rw [getFreeNode, hhead]
  | cons n free =>
    right
    have hhead : s.freeHead = some n := h.free_list.head_eq
    have hnext : s.links.next n = free.head? := (h.free_list.links (a := [])).2
    have hqueue := h.free_list.queue_eq
    refine ⟨n, free, _, rfl, ?_, Inv.take (a := []) h (Function.update s.value n (element.getD default))⟩
    rw [getFreeNode, hhead]
    cases free with
    | nil =>
      simp only [hnext, List.head?_nil, if_true, Links.setPrev_some, Links.setNext_some, Option.bind_eq_bind,
        Option.bind_some]
      rfl
    | cons y free =>
      rw [List.getLast?_cons_cons] at hqueue
      simp only [hnext, hqueue, List.head?_cons, reduceCtorEq, if_false, Links.setPrev_some,
        Links.setNext_some, Option.map_some, Option.bind_eq_bind, Option.bind_some]
      rw [List.getLast?_nil, ← Links.glue_head]
      rfl

/-- A value is added: the node is held when `add` is called. -/
theorem addElement_returns (h : Inv s held linked free) (element : Option α)
    {add : BofList α → Option Nat → Option (BofList α × Bool)}
    (hadd : ∀ s' n free', free = n :: free' → Inv s' (n :: held) linked free' → n < s'.nbMaxElements →
      ∃ s'' linked'' free'', add s' (some n) = some (s'', true) ∧ Inv s'' held linked'' free'') :
    Returns s held (s.addElement element add) := by
  rcases getFreeNode_inv h element with ⟨-, hget⟩ | ⟨n, free', s', hfree, hget, h'⟩
  · left
    rw [addElement, hget]
    rfl
  · right
    have hn : n ∈ List.range s'.nbMaxElements :=
      h'.places.mem_iff.mp (List.mem_append_right _ (List.mem_append_right _ List.mem_cons_self))
    obtain ⟨s'', linked'', free'', hcall, h''⟩ := hadd s' n free' hfree h' (List.mem_range.mp hn)
    refine ⟨s'', linked'', free'', ?_, h''⟩
    rw [addElement, hget]
    exact hcall

theorem addFirst_returns (h : Inv s held linked free) (element : Option α) :
    Returns s held (s.addFirst element) := by
  refine addElement_returns h element fun s' n free' _ h' hn => ?_
  obtain ⟨s'', free'', hcall, h''⟩ := addFirstNode_inv h' hn (h'.disjoint.2.1 n List.mem_cons_self)
  rw [List.erase_cons_head] at h''
  exact ⟨s'', _, free'', hcall, h''⟩

theorem addLast_returns (h : Inv s held linked free) (element : Option α) :
    Returns s held (s.addLast element) := by
  refine addElement_returns h element fun s' n free' _ h' hn => ?_
  obtain ⟨s'', free'', hcall, h''⟩ := addLastNode_inv h' hn (h'.disjoint.2.1 n List.mem_cons_self)
  rw [List.erase_cons_head] at h''
  exact ⟨s'', _, free'', hcall, h''⟩

/-- A value is added beside a linked node, or the pool is empty. -/
theorem addBeside_returns (h : Inv s held linked free) (element : Option α)
    (hok : s.pParent e = true ∨ s.freeHead = none) {add : BofList α → Option Nat → Option (BofList α × Bool)}
    (hadd : ∀ {s' n a b free'}, Inv s' (n :: held) (a ++ e :: b) free' →
      ∃ s'' linked'', add s' (some n) = some (s'', true) ∧ Inv s'' held linked'' free') :
    Returns s held (s.addElement element add) := by
  refine addElement_returns h element fun s' n free' hfree h' _ => ?_
  rcases hok with he | hnone
  · obtain ⟨a, b, rfl⟩ := List.append_of_mem ((h.parent_iff e).mp he)
    obtain ⟨s'', linked'', hcall, h''⟩ := hadd h'
    exact ⟨s'', linked'', free', hcall, h''⟩
  · rw [h.free_list.head_eq, hfree] at hnone
    cases hnone

/-- `AddAfter` with a value, beside a linked node or with an empty pool. -/
theorem addAfter_returns (h : Inv s held linked free) (e : Option Nat) (element : Option α)
    (hok : ∀ i ∈ e, element ≠ none → s.pParent i = true ∨ s.freeHead = none) :
    Returns s held (s.addAfter e element) := by
  cases e with
  | none => exact .inl rfl
  | some e =>
    cases element with
    | none => exact .inl rfl
    | some x =>
      rw [addAfter]
      refine addBeside_returns h (some x) (hok e rfl (Option.some_ne_none x)) fun h' => ?_
      obtain ⟨s'', hcall, h''⟩ := addAfterNode_inv h'
      exact ⟨s'', _, hcall, h''⟩

/-- `AddBefore` with a value, beside a linked node or with an empty pool. -/
theorem addBefore_returns (h : Inv s held linked free) (e : Option Nat) (element : Option α)
    (hok : ∀ i ∈ e, element ≠ none → s.pParent i = true ∨ s.freeHead = none) :
    Returns s held (s.addBefore e element) := by
  cases e with
  | none => exact .inl rfl
  | some e =>
    cases element with
    | none => exact .inl rfl
    | some x =>
      rw [addBefore]
      refine addBeside_returns h (some x) (hok e rfl (Option.some_ne_none x)) fun h' => ?_
      obtain ⟨s'', hcall, h''⟩ := addBeforeNode_inv h'
      exact ⟨s'', _, hcall, h''⟩

/-! ## Runs -/

/-- What one call does to a sound list. -/
def Steps (s : BofList α) (held : List Nat) (op : Op α) : Prop :=
  (∃ linked free, Inv (step s op).1 (hold held op (step s op).2) linked free) ∧ (step s op).2 ≠ .undefined ∧
    ((step s op).2 = .done false → (step s op).1 = s)

/-- A call that returns a `bool`; `held'` are the held nodes after a success. -/
theorem Returns.steps {held' : List Nat} {op : Op α} {r : Option (BofList α × Bool)}
    (h : Inv s held linked free) (hr : Returns s held' r) (hstep : step s op = s.returnBool r)
    (hfalse : hold held op (.done false) = held) (htrue : hold held op (.done true) = held') : Steps s held op := by
  rcases hr with hr | ⟨s', linked', free', hr, h'⟩
  · have hout : step s op = (s, .done false) := by
      rw [hstep, hr]
      rfl
    rw [Steps, hout]
    refine ⟨⟨linked, free, ?_⟩, nofun, fun _ => rfl⟩
    rw [hfalse]
    exact h
  · have hout : step s op = (s', .done true) := by
      rw [hstep, hr]
      rfl
    rw [Steps, hout]
    refine ⟨⟨linked', free', ?_⟩, nofun, nofun⟩
    rw [htrue]
    exact h'

/-- One call. -/
theorem steps_of_allowed (h : Inv s held linked free) {op : Op α} (hof : OfList s.nbMaxElements op)
    (hok : Allowed s op) : Steps s held op := by
  cases op with
  | getFreeNode element =>
    rcases getFreeNode_inv h element with ⟨-, hget⟩ | ⟨n, free', s', -, hget, h'⟩
    · rw [Steps, step, hget]
      exact ⟨⟨linked, free, h⟩, nofun, nofun⟩
    · rw [Steps, step, hget]
      exact ⟨⟨linked, free', h'⟩, nofun, nofun⟩
  | getFreeNodeOf n =>
    have hl : n ∉ linked := by
      rw [← h.parent_iff, hok]
      exact Bool.false_ne_true
    obtain ⟨s', free', hget, h'⟩ := getFreeNodeOf_inv h hof hl
    rw [Steps, step, hget]
    exact ⟨⟨linked, free', h'⟩, nofun, nofun⟩
  | addFirst element => exact (addFirst_returns h element).steps h rfl rfl rfl
  | addFirstNode n =>
    cases n with
    | none =>
      have hr : Returns s held (s.addFirstNode none) := .inl rfl
      exact hr.steps h rfl rfl rfl
    | some n =>
      have hl : n ∉ linked := by
        rw [← h.parent_iff, hok n rfl]
        exact Bool.false_ne_true
      obtain ⟨s', free', hcall, h'⟩ := addFirstNode_inv h (hof n rfl) hl
      exact Returns.steps h (.inr ⟨s', _, free', hcall, h'⟩) rfl rfl rfl
  | addLast element => exact (addLast_returns h element).steps h rfl rfl rfl
  | addLastNode n =>
    cases n with
    | none =>
      have hr : Returns s held (s.addLastNode none) := .inl rfl
      exact hr.steps h rfl rfl rfl
    | some n =>
      by_cases hl : n ∈ linked
      · -- a linked node is refused
        have hparent : ¬ (!s.pParent n) = true := by
          rw [(h.parent_iff n).mpr hl]
          exact Bool.false_ne_true
        have hr : Returns s (held.erase n) (s.addLastNode (some n)) := by
          left
          rw [addLastNode, if_neg hparent]
        exact hr.steps h rfl rfl rfl
      · obtain ⟨s', free', hcall, h'⟩ := addLastNode_inv h (hof n rfl) hl
        exact Returns.steps h (.inr ⟨s', _, free', hcall, h'⟩) rfl rfl rfl
  | addAfter e element => exact (addAfter_returns h e element hok).steps h rfl rfl rfl
  | addAfterNode e n =>
    cases n with
    | none =>
      have hr : Returns s held (s.addAfterNode e none) := by
        left
        cases e with
        | none => rfl
        | some e => rfl
      exact hr.steps h rfl rfl rfl
    | some n =>
      exact (addAfterNode_returns h e (hof.2 n rfl) fun i hi hp => hok i hi n rfl hp).steps h rfl rfl rfl
  | addBefore e element => exact (addBefore_returns h e element hok).steps h rfl rfl rfl
  | addBeforeNode e n =>
    cases n with
    | none =>
      have hr : Returns s held (s.addBeforeNode e none) := by
        left
        cases e with
        | none => rfl
        | some e => rfl
      exact hr.steps h rfl rfl rfl
    | some n =>
      exact (addBeforeNode_returns h e (hof.2 n rfl) fun i hi hp => hok i hi n rfl hp).steps h rfl rfl rfl
  | remove n => exact (remove_returns h n).steps h rfl rfl rfl
  | removeFirst =>
    have hr : Returns s held s.removeFirst := by
      rw [removeFirst]
      split
      · exact .inl rfl
      · exact remove_returns h s.head
    exact hr.steps h rfl rfl rfl
  | removeLast =>
    have hr : Returns s held s.removeLast := by
      rw [removeLast]
      split
      · exact .inl rfl
      · exact remove_returns h s.queue
    exact hr.steps h rfl rfl rfl
  | clear => exact (clear_returns h).steps h rfl rfl rfl

/-- The nodes of a fresh pool, each linked to the next one. -/
theorem seg_create {N i n : Nat} (hN : 0 < N) (hi : i + n = N) :
    Seg (create N : BofList α).links.next (create N : BofList α).links.prev (if i = 0 then none else some (i - 1))
      (List.range' i n) none := by
  induction n generalizing i with
  | zero => trivial
  | succ n ih =>
    refine ⟨rfl, ?_, ?_⟩
    · show (if i = u32Sub N 1 then none else some (i + 1)) = (List.range' (i + 1) n).head?.or none
      rw [u32Sub_of_le (by omega), Option.or_none]
      cases n with
      | zero =>
        rw [if_pos (by omega)]
        rfl
      | succ n =>
        rw [if_neg (by omega)]
        rfl
    · have htail := ih (i := i + 1) (by omega)
      rw [if_neg (by omega)] at htail
      exact htail

theorem create_inv {N : Nat} (h0 : 0 < N) (hN : N < 4294967296) :
    Inv (create N : BofList α) [] [] (List.range N) := by
  have hseg := seg_create (α := α) h0 (Nat.zero_add N)
  rw [if_pos rfl, ← List.range_eq_range'] at hseg
  refine ⟨⟨rfl, rfl, trivial, List.nodup_nil⟩, ⟨?_, ?_, hseg, List.nodup_range⟩, rfl, ?_, ?_, ?_, hN⟩
  · rw [List.head?_range, if_neg (by omega)]
    rfl
  · show some (u32Sub N 1) = _
    rw [List.getLast?_range, if_neg (by omega), u32Sub_of_le (by omega)]
  · intro n
    exact ⟨nofun, nofun⟩
  · intro n hn
    exact absurd hn List.not_mem_nil
  · rw [List.nil_append, List.append_nil]
    exact List.Perm.refl _

/-- In every state that allowed calls reach the list is sound, no null pointer is followed, and an allowed
call that fails changes neither the linked sequence nor the free pool. -/
theorem sound_run {N : Nat} (h0 : 0 < N) (hN : N < 4294967296) (ops : List (Op α))
    (hops : Machine.Meets heldStep Guard (create N, []) ops) :
    let r := Machine.run heldStep ((create N : BofList α), []) ops
    Sound r.1.1 r.1.2 ∧ .undefined ∉ r.2 ∧
      ∀ op, Guard r.1 op → FailsCleanly r.1.1 (step r.1.1 op).1 r.1.2 (step r.1.1 op).2 := by
  have hstep : ∀ (s : BofList α × List Nat) op, (∃ linked free, Inv s.1 s.2 linked free) → Guard s op →
      Steps s.1 s.2 op := by
    rintro s op ⟨linked, free, h⟩ ⟨hof, hok⟩
    exact steps_of_allowed h hof hok
  have hcreate : ∃ linked free, Inv (create N : BofList α) [] linked free := ⟨_, _, create_inv h0 hN⟩
  have hinv := Machine.inv_run (P := fun s : BofList α × List Nat => ∃ linked free, Inv s.1 s.2 linked free)
    (fun s op h hg => (hstep s op h hg).1) hcreate hops
  refine ⟨?_, ?_, ?_⟩
  · obtain ⟨linked, free, h⟩ := hinv
    exact ⟨linked, free, h.holds⟩
  · intro hmem
    have hout := Machine.outputs_run (P := fun s : BofList α × List Nat => ∃ linked free, Inv s.1 s.2 linked free)
      (Q := fun o => o ≠ .undefined) (fun s op h hg => ⟨(hstep s op h hg).1, (hstep s op h hg).2.1⟩) hcreate hops
      _ hmem
    exact hout rfl
  · intro op hg hfalse linked free h
    have hsame := (hstep _ op hinv hg).2.2 hfalse
    rw [hsame]
    exact h

/-- Nodes added at both ends and beside each other, one refused and the list cleared. -/
theorem sound_run_three :
    Sound (Machine.run heldStep ((create 3 : BofList Nat), []) [.addLast (some 7), .getFreeNode none,
      .addBeforeNode (some 0) (some 1), .addLastNode (some 0), .addAfter (some 1) (some 8), .clear]).1.1
      (Machine.run heldStep ((create 3 : BofList Nat), []) [.addLast (some 7), .getFreeNode none,
      .addBeforeNode (some 0) (some 1), .addLastNode (some 0), .addAfter (some 1) (some 8), .clear]).1.2 :=
  (sound_run (by decide) (by decide) _ (by decide)).1

/-- `AddFirst` of a node that is linked already: its links are cleared and it is counted once more. Of the
two nodes of this list three are then counted. -/
theorem not_sound_addFirst :
    ¬ Sound (Machine.run heldStep ((create 2 : BofList Nat), [])
      [.addLast (some 7), .addLast (some 8), .addFirstNode (some 1)]).1.1
      (Machine.run heldStep ((create 2 : BofList Nat), [])
        [.addLast (some 7), .addLast (some 8), .addFirstNode (some 1)]).1.2 := by
  rintro ⟨linked, free, h⟩
  have hnb : 3 = linked.length := h.nbElements_eq
  have hlen := h.places.length_eq
  rw [List.length_append, List.length_append, List.length_range] at hlen
  have hmax : linked.length + _ = 2 := hlen
  omega

end BofList

end BofStd
