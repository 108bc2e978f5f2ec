import Mathlib.Data.Finset.Card
import Mathlib.Data.List.Pairwise
import Mathlib.Data.List.Perm.Basic
import Mathlib.Logic.Relation

/-!
# Traversals with a stack

A traversal takes the top off a stack, visits it, and pushes its successors, whether they were visited before or not.
What is visited and what is on the stack is then, with repetitions, the start and the successors of what is visited.
So the traversal visits exactly the reachable elements, and visits each of them once exactly if they are a tree with the
start as its root; on a tree it comes to its end.
-/

namespace BofStd.Traverse

variable {α : Type*} {next : α → List α} {start a b : α} {stack done visited : List α} {rounds : Nat}

/-- What is visited, until the stack is empty; `none` if it is not after this number of rounds. The top of the stack
is its head, and of the successors the last is pushed last. -/
def traverse (next : α → List α) : Nat → List α → Option (List α)
  | _, [] => some []
  | 0, _ :: _ => none
  | rounds + 1, a :: stack => (traverse next rounds ((next a).reverse ++ stack)).map (a :: ·)

/-- `b` is reached from `a`. -/
def Reaches (next : α → List α) : α → α → Prop := Relation.ReflTransGen fun a b => b ∈ next a

/-- The elements that are reached are a tree: nothing leads to the start, and there is one way only to any other. -/
structure IsTreeFrom (next : α → List α) (start : α) : Prop where
  start_notMem : ∀ a, Reaches next start a → start ∉ next a
  nodup : ∀ a, Reaches next start a → (next a).Nodup
  unique : ∀ a b c, Reaches next start a → Reaches next start b → c ∈ next a → c ∈ next b → a = b

theorem traverse_cons : traverse next (rounds + 1) (a :: stack) =
    (traverse next rounds ((next a).reverse ++ stack)).map (a :: ·) := rfl

theorem traverse_nil : traverse next rounds [] = some [] := by
  cases rounds <;> rfl

/-- What is visited are the elements of the stack and the successors of what is visited. -/
theorem perm_of_traverse (h : traverse next rounds stack = some visited) :
    visited.Perm (stack ++ visited.flatMap next) := by
  induction rounds generalizing stack visited with
  | zero =>
    cases stack with
    | nil =>
      obtain rfl := Option.some.inj h
      exact .refl _
    | cons a stack => cases h
  | succ rounds ih =>
    cases stack with
    | nil =>
      obtain rfl := Option.some.inj h
      exact .refl _
    | cons a stack =>
      obtain ⟨rest, hrest, rfl⟩ := Option.map_eq_some_iff.mp (traverse_cons ▸ h)
      have hperm := ih hrest
      rw [List.cons_append, List.perm_cons, List.flatMap_cons]
      have hswap : (((next a).reverse ++ stack) ++ rest.flatMap next).Perm (stack ++ (next a ++ rest.flatMap next)) := by
        rw [← List.append_assoc]
        apply List.Perm.append_right
        exact ((List.reverse_perm _).append_right stack).trans List.perm_append_comm
      exact hperm.trans hswap

/-- Everything visited is reached from an element of the stack. -/
theorem reaches_of_traverse (h : traverse next rounds stack = some visited) (hb : b ∈ visited) :
    ∃ a ∈ stack, Reaches next a b := by
  induction rounds generalizing stack visited with
  | zero =>
    cases stack with
    | nil =>
      obtain rfl := Option.some.inj h
      exact absurd hb List.not_mem_nil
    | cons a stack => cases h
  | succ rounds ih =>
    cases stack with
    | nil =>
      obtain rfl := Option.some.inj h
      exact absurd hb List.not_mem_nil
    | cons a stack =>
      obtain ⟨rest, hrest, rfl⟩ := Option.map_eq_some_iff.mp (traverse_cons ▸ h)
      rcases List.mem_cons.mp hb with rfl | hb
      · exact ⟨b, List.mem_cons_self, .refl⟩
      · obtain ⟨c, hc, hreach⟩ := ih hrest hb
        rcases List.mem_append.mp hc with hc | hc
        · exact ⟨a, List.mem_cons_self, .head (List.mem_reverse.mp hc) hreach⟩
        · exact ⟨c, List.mem_cons_of_mem a hc, hreach⟩

/-- A traversal that comes to its end has visited exactly what is reached. -/
theorem mem_traverse_iff (h : traverse next rounds [start] = some visited) :
    b ∈ visited ↔ Reaches next start b := by
  constructor
  · intro hb
    obtain ⟨a, ha, hreach⟩ := reaches_of_traverse h hb
    rwa [List.mem_singleton.mp ha] at hreach
  · intro hreach
    have hperm := perm_of_traverse h
    induction hreach with
    | refl => exact hperm.mem_iff.mpr List.mem_cons_self
    | tail _ hstep ih =>
      exact hperm.mem_iff.mpr (List.mem_append_right _ (List.mem_flatMap_of_mem ih hstep))

theorem nodup_cons_flatMap (htree : IsTreeFrom next start) (hdone : done.Nodup)
    (hreach : ∀ a ∈ done, Reaches next start a) : (start :: done.flatMap next).Nodup := by
  rw [List.nodup_cons, List.nodup_flatMap]
  refine ⟨?_, fun a ha => htree.nodup a (hreach a ha), ?_⟩
  · intro hmem
    obtain ⟨a, ha, hstart⟩ := List.mem_flatMap.mp hmem
    exact htree.start_notMem a (hreach a ha) hstart
  · refine hdone.imp_of_mem ?_
    intro a b ha hb hab c hca hcb
    exact hab (htree.unique a b c (hreach a ha) (hreach b hb) hca hcb)

/-- On a tree, what is visited and what is on the stack never has a repetition, so that the traversal ends once
everything that is reached is visited. -/
theorem traverse_of_isTreeFrom [DecidableEq α] (htree : IsTreeFrom next start) (all : Finset α)
    (hall : ∀ a, Reaches next start a → a ∈ all) (rounds : Nat) (done stack : List α)
    (hreach : ∀ a ∈ done, Reaches next start a) (hdone : done.Nodup)
    (hperm : (done ++ stack).Perm (start :: done.flatMap next)) (hrounds : all.card ≤ done.length + rounds) :
    ∃ visited, traverse next rounds stack = some visited ∧ (done ++ visited).Nodup := by
  have hnodup : (done ++ stack).Nodup := hperm.nodup_iff.mpr (nodup_cons_flatMap htree hdone hreach)
  induction rounds generalizing done stack with
  | zero =>
    cases stack with
    | nil => exact ⟨[], rfl, hnodup⟩
    | cons a stack =>
      -- there would be one element too many
      have hsub : (done ++ a :: stack).toFinset ⊆ all := by
        intro b hb
        rcases List.mem_append.mp (List.mem_toFinset.mp hb) with hb' | hb'
        · exact hall b (hreach b hb')
        · rcases List.mem_cons.mp (hperm.mem_iff.mp (List.mem_toFinset.mp hb)) with rfl | hmem
          · exact hall b .refl
          · obtain ⟨c, hc, hbc⟩ := List.mem_flatMap.mp hmem
            exact hall b ((hreach c hc).tail hbc)
      have hcard := Finset.card_le_card hsub
      rw [List.toFinset_card_of_nodup hnodup, List.length_append, List.length_cons] at hcard
      omega
  | succ rounds ih =>
    cases stack with
    | nil => exact ⟨[], traverse_nil, hnodup⟩
    | cons a stack =>
      have ha : Reaches next start a := by
        rcases List.mem_cons.mp (hperm.mem_iff.mp (List.mem_append_right done List.mem_cons_self)) with rfl | hmem
        · exact .refl
        · obtain ⟨c, hc, hac⟩ := List.mem_flatMap.mp hmem
          exact (hreach c hc).tail hac
      have hdone' : (done ++ [a]).Nodup := by
        refine hnodup.sublist ?_
        exact List.Sublist.append_left (List.singleton_sublist.mpr List.mem_cons_self) done
      have hreach' : ∀ b ∈ done ++ [a], Reaches next start b := by
        intro b hb
        rcases List.mem_append.mp hb with hb | hb
        · exact hreach b hb
        · rwa [List.mem_singleton.mp hb]
      have hperm' : ((done ++ [a]) ++ ((next a).reverse ++ stack)).Perm (start :: (done ++ [a]).flatMap next) := by
        rw [List.flatMap_append, List.flatMap_singleton, ← List.cons_append, List.append_assoc, List.singleton_append]
        have hpush : (done ++ a :: ((next a).reverse ++ stack)).Perm ((done ++ a :: stack) ++ next a) := by
          rw [List.append_assoc, List.cons_append]
          refine List.Perm.append_left done (List.Perm.cons a ?_)
          exact ((List.reverse_perm _).append_right stack).trans List.perm_append_comm
        exact hpush.trans (hperm.append_right _)
      have hnodup' := hperm'.nodup_iff.mpr (nodup_cons_flatMap htree hdone' hreach')
      have hrounds' : all.card ≤ (done ++ [a]).length + rounds := by
        rw [List.length_append, List.length_singleton]
        omega
      obtain ⟨visited, hvisited, hnd⟩ := ih (done ++ [a]) _ hreach' hdone' hperm' hrounds' hnodup'
      refine ⟨a :: visited, ?_, ?_⟩
      · rw [traverse_cons, hvisited]
        rfl
      · rw [List.append_assoc, List.singleton_append] at hnd
        exact hnd

/-- A traversal without repetitions has walked a tree. -/
theorem isTreeFrom_of_traverse (h : traverse next rounds [start] = some visited) (hnodup : visited.Nodup) :
    IsTreeFrom next start := by
  have hall := hnodup
  rw [(perm_of_traverse h).nodup_iff, List.singleton_append, List.nodup_cons, List.nodup_flatMap] at hall
  obtain ⟨hstart, heach, hdisjoint⟩ := hall
  refine ⟨?_, ?_, ?_⟩
  · intro a ha hmem
    exact hstart (List.mem_flatMap.mpr ⟨a, (mem_traverse_iff h).mpr ha, hmem⟩)
  · intro a ha
    exact heach a ((mem_traverse_iff h).mpr ha)
  · intro a b c ha hb hca hcb
    by_contra hab
    have hsymm : Std.Symm (Function.onFun List.Disjoint next) := ⟨fun _ _ hd => hd.symm⟩
    exact hdisjoint.forall ((mem_traverse_iff h).mpr ha) ((mem_traverse_iff h).mpr hb) hab hca hcb

/-- A traversal ends and visits everything that is reached once exactly if that is a tree. -/
theorem traverse_iff [DecidableEq α] (all : Finset α) (hall : ∀ a, Reaches next start a → a ∈ all) :
    (∃ rounds visited, traverse next rounds [start] = some visited ∧ visited.Nodup ∧
      ∀ a, a ∈ visited ↔ Reaches next start a) ↔ IsTreeFrom next start := by
  constructor
  · rintro ⟨rounds, visited, h, hnodup, -⟩
    exact isTreeFrom_of_traverse h hnodup
  · intro htree
    obtain ⟨visited, h, hnodup⟩ := traverse_of_isTreeFrom htree all hall all.card [] [start] nofun .nil (.refl _)
      (Nat.le_add_left _ _)
    exact ⟨all.card, visited, h, hnodup, fun a => mem_traverse_iff h⟩

end BofStd.Traverse
