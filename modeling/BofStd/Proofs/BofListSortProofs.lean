import BofStd.BofListSpec
import BofStd.Lib.MergeRuns
import BofStd.Proofs.BofListProofs

/-!
# `ListSort` is a stable sort that keeps the list sound

The nodes that a pass has dealt with are linked behind the new head (`Output`), the others are still linked as before,
because only nodes of the output are written to. A merge of two runs appends their merge to the output, a pass does that
for all the pairs of runs (`passLoop_spec`), and the passes go on until one run is left.
-/

namespace BofStd.BofList

open Linked MergeRuns

variable {α : Type} {compare : α → α → Int} {s s' : BofList α} {out xs ys zs : List Nat}
  {p1 p2 oldHead : Option Nat} {n x y size2 : Nat}

/-! ## The output -/

/-- The nodes that were added to the merged list; what is linked behind the last one does not matter. -/
structure Output (s : BofList α) (out : List Nat) : Prop where
  head_eq : s.head = out.head?
  queue_eq : s.queue = out.getLast?
  seg : ∃ q, Seg s.links.next s.links.prev none out q

/-- Nothing has changed but the two ends of the list and the links of the nodes in `out`. -/
structure SameBut (s s' : BofList α) (out : List Nat) : Prop where
  eq : ∃ k head queue, s' = { s with links := k, head := head, queue := queue }
  links : ∀ x, x ∉ out → s'.links.next x = s.links.next x ∧ s'.links.prev x = s.links.prev x

theorem SameBut.refl (s : BofList α) (out : List Nat) : SameBut s s out := ⟨⟨_, _, _, rfl⟩, fun _ _ => ⟨rfl, rfl⟩⟩

theorem SameBut.trans {s'' : BofList α} {out' : List Nat} (h : SameBut s s' out) (h' : SameBut s' s'' out')
    (hsub : out ⊆ out') : SameBut s s'' out' := by
  obtain ⟨k, head, queue, rfl⟩ := h.eq
  obtain ⟨k', head', queue', rfl⟩ := h'.eq
  refine ⟨⟨k', head', queue', rfl⟩, ?_⟩
  intro x hx
  have h1 := h.links x fun hmem => hx (hsub hmem)
  have h2 := h'.links x hx
  exact ⟨h2.1.trans h1.1, h2.2.trans h1.2⟩

theorem SameBut.mono {out' : List Nat} (h : SameBut s s' out) (hsub : out ⊆ out') : SameBut s s' out' :=
  ⟨h.eq, fun x hx => h.links x fun hmem => hx (hsub hmem)⟩

theorem SameBut.value_eq (h : SameBut s s' out) : s'.value = s.value := by
  obtain ⟨k, head, queue, rfl⟩ := h.eq
  rfl

/-- A node is added to the output. -/
theorem Output.add (h : Output s out) (hnd : out.Nodup) (hn : n ∉ out) :
    ∃ s', s.sortAdd true n = some s' ∧ Output s' (out ++ [n]) ∧ SameBut s s' (out ++ [n]) := by
  obtain ⟨q, hseg⟩ := h.seg
  cases hlast : out.getLast? with
  | none =>
    obtain rfl := List.getLast?_eq_none_iff.mp hlast
    have hq : s.queue = none := h.queue_eq
    refine ⟨{ s with
      links := { s.links with prev := Function.update s.links.prev n none }
      head := some n
      queue := some n }, ?_, ⟨rfl, rfl, s.links.next n, ?_⟩, ⟨_, _, _, rfl⟩, ?_⟩
    · rw [sortAdd, hq]
      rfl
    · exact ⟨Function.update_self .., rfl, trivial⟩
    · intro x hx
      have hxn : x ≠ n := fun he => hx (he ▸ List.mem_singleton_self n)
      exact ⟨rfl, Function.update_of_ne hxn ..⟩
  | some z =>
    have hq : s.queue = some z := h.queue_eq.trans hlast
    have hz : z ∈ out := List.mem_of_getLast? hlast
    have hzn : n ≠ z := fun he => hn (he ▸ hz)
    refine ⟨{ s with
      links :=
        { next := Function.update s.links.next z (some n)
          prev := Function.update s.links.prev n (some z) }
      queue := some n }, ?_, ⟨?_, List.getLast?_concat.symm, s.links.next n, ?_⟩, ⟨_, _, _, rfl⟩, ?_⟩
    · rw [sortAdd, hq, if_pos (Option.some_ne_none z)]
      rfl
    · show s.head = _
      rw [h.head_eq, List.head?_append_of_ne_nil _ (List.ne_nil_of_mem hz)]
    · refine seg_append.mpr ⟨?_, ?_, Function.update_of_ne hzn .., trivial⟩
      · refine hseg.setLast hnd ?_ ?_ ?_
        · intro x hx
          have hxn : x ≠ n := fun he => hn (he ▸ hx)
          exact Function.update_of_ne hxn ..
        · intro x hx hne
          have hxz : x ≠ z := fun he => hne (he ▸ hlast)
          exact Function.update_of_ne hxz ..
        · intro x hx
          obtain rfl := Option.some.inj (hlast.symm.trans hx)
          exact Function.update_self ..
      · rw [hlast]
        exact Function.update_self ..
    · intro x hx
      rw [List.mem_append, List.mem_singleton, not_or] at hx
      have hxz : x ≠ z := fun he => hx.1 (he ▸ hz)
      exact ⟨Function.update_of_ne hxz .., Function.update_of_ne hx.2 ..⟩

/-! ## One merge -/

/-- Between two steps of a merge: the two runs in front of `p1` and `p2`, with the rest of the list behind the second. -/
structure Merging (s : BofList α) (out xs ys zs : List Nat) (p1 p2 : Option Nat) : Prop where
  output : Output s out
  first : Visits s.links.next p1 xs
  second : Chain s.links.next p2 (ys ++ zs)
  nodup : (out ++ (xs ++ (ys ++ zs))).Nodup

theorem nodup_move (h : (out ++ (xs ++ (y :: ys ++ zs))).Nodup) : (out ++ [y] ++ (xs ++ (ys ++ zs))).Nodup := by
  refine (List.Perm.nodup_iff ?_).mpr h
  rw [List.append_assoc, List.singleton_append]
  exact List.Perm.append_left out List.perm_middle.symm

/-- The links of a node that is not in the output. -/
theorem SameBut.next_eq (h : SameBut s s' out) {l : List Nat} (hnd : (out ++ l).Nodup) :
    ∀ x ∈ l, s'.links.next x = s.links.next x := by
  intro x hx
  refine (h.links x fun hmem => ?_).1
  exact (List.nodup_append.mp hnd).2.2 x hmem x hx rfl

/-- The first node of the first run is taken. -/
theorem Merging.takeFirst (h : Merging s out (x :: xs) ys zs p1 p2) :
    p1 = some x ∧ ∃ s', s.sortAdd true x = some s' ∧ Merging s' (out ++ [x]) xs ys zs (s.links.next x) p2 ∧
      SameBut s s' (out ++ [x]) := by
  obtain ⟨hp, hfirst⟩ := h.first
  have hnd : (out ++ [x] ++ (xs ++ (ys ++ zs))).Nodup := by
    have hnd := h.nodup
    rw [List.append_assoc]
    exact hnd
  have hout := (List.nodup_append.mp h.nodup).1
  have hx : x ∉ out := fun hmem => (List.nodup_append.mp h.nodup).2.2 x hmem x List.mem_cons_self rfl
  obtain ⟨s', hadd, hout', hsame⟩ := h.output.add hout hx
  have hnext := hsame.next_eq hnd
  refine ⟨hp, s', hadd, ⟨hout', ?_, ?_, hnd⟩, hsame⟩
  · exact hfirst.congr fun b hb => hnext b (List.mem_append_left _ hb)
  · exact h.second.congr fun b hb => hnext b (List.mem_append_right _ hb)

/-- The first node of the second run is taken. -/
theorem Merging.takeSecond (h : Merging s out xs (y :: ys) zs p1 p2) :
    p2 = some y ∧ ∃ s', s.sortAdd true y = some s' ∧ Merging s' (out ++ [y]) xs ys zs p1 (s.links.next y) ∧
      SameBut s s' (out ++ [y]) := by
  obtain ⟨hp, hsecond⟩ := h.second
  have hnd := nodup_move h.nodup
  have hout := (List.nodup_append.mp h.nodup).1
  have hy : y ∉ out := by
    intro hmem
    refine (List.nodup_append.mp h.nodup).2.2 y hmem y ?_ rfl
    exact List.mem_append_right _ (List.mem_append_left _ List.mem_cons_self)
  obtain ⟨s', hadd, hout', hsame⟩ := h.output.add hout hy
  have hnext := hsame.next_eq hnd
  refine ⟨hp, s', hadd, ⟨hout', ?_, ?_, hnd⟩, hsame⟩
  · exact h.first.congr fun b hb => hnext b (List.mem_append_left _ hb)
  · exact hsecond.congr fun b hb => hnext b (List.mem_append_right _ hb)

@[simp] theorem sortNext_linear (s : BofList α) (n : Nat) : sortNext false oldHead s n = s.links.next n :=
  if_neg fun h => Bool.false_ne_true h.1

/-- The comparison of two nodes looks at their values only. -/
theorem SameBut.nodeLe_eq (h : SameBut s s' out) (compare : α → α → Int) : nodeLe compare s' = nodeLe compare s := by
  unfold nodeLe
  rw [h.value_eq]

theorem size_pred (h : size2 = (y :: ys).length ∨ (y :: ys).length ≤ size2 ∧ zs = []) :
    size2 - 1 = ys.length ∨ ys.length ≤ size2 - 1 ∧ zs = [] := by
  rw [List.length_cons] at h
  rcases h with heq | ⟨hle, hzs⟩
  · exact Or.inl (by omega)
  · exact Or.inr ⟨by omega, hzs⟩

/-- What the rest of a merge does after a first step. -/
theorem merged_of_step {t : BofList α} {l : List Nat} {q : Option Nat}
    {loop : Option (BofList α × Option Nat)} (hsame : SameBut s t (out ++ [n])) (hsub : n ∈ l)
    (hrest : ∃ s', loop = some (s', q) ∧ Output s' (out ++ [n] ++ xs) ∧ SameBut t s' (out ++ [n] ++ ys))
    (hys : ys ⊆ l) : ∃ s', loop = some (s', q) ∧ Output s' (out ++ n :: xs) ∧ SameBut s s' (out ++ l) := by
  obtain ⟨s', hloop, hout, hsame'⟩ := hrest
  refine ⟨s', hloop, ?_, ?_⟩
  · rw [List.append_assoc] at hout
    exact hout
  · refine (hsame.trans hsame' (List.subset_append_left _ _)).mono ?_
    intro b hb
    rw [List.mem_append, List.mem_append, List.mem_singleton] at hb
    rcases hb with (hb | rfl) | hb
    · exact List.mem_append_left _ hb
    · exact List.mem_append_right _ hsub
    · exact List.mem_append_right _ (hys hb)

/-- What the loop sees of the second run, whose size is counted, or is only a bound where the list ends with the run. -/
theorem second_ne_none (h : Merging s out xs (y :: ys) zs p1 p2)
    (hsize : size2 = (y :: ys).length ∨ (y :: ys).length ≤ size2 ∧ zs = []) : size2 > 0 ∧ p2 = some y := by
  refine ⟨?_, h.takeSecond.1⟩
  rw [List.length_cons] at hsize
  omega

theorem second_eq_none (h : Merging s out xs [] zs p1 p2) (hsize : size2 = 0 ∨ 0 ≤ size2 ∧ zs = []) :
    p2 = zs.head? ∧ (size2 = 0 ∨ p2 = none) := by
  have hhead : p2 = zs.head? := h.second.head_eq
  refine ⟨hhead, hsize.imp_right fun ⟨_, hnil⟩ => ?_⟩
  rw [hhead, hnil]
  rfl

/-- One turn of the loop that takes the first node of the first run: the second one is empty, or starts with a node that
is not less. -/
theorem mergeLoop_takeFirst (compare : α → α → Int) (oldHead : Option Nat) (fuel : Nat)
    (h : Merging s out (x :: xs) ys zs p1 p2) (hsize : size2 = ys.length ∨ ys.length ≤ size2 ∧ zs = [])
    (hpick : ∀ y, ys.head? = some y → compare (s.value x) (s.value y) ≤ 0) :
    ∃ s', mergeLoop compare false true oldHead (fuel + 1) s p1 (x :: xs).length p2 size2 =
        mergeLoop compare false true oldHead fuel s' (s.links.next x) xs.length p2 size2 ∧
      Merging s' (out ++ [x]) xs ys zs (s.links.next x) p2 ∧ SameBut s s' (out ++ [x]) := by
  obtain ⟨hp, s', hadd, hnext, hsame⟩ := h.takeFirst
  have hpos1 : (x :: xs).length > 0 := Nat.succ_pos _
  refine ⟨s', ?_, hnext, hsame⟩
  rw [mergeLoop, if_pos (Or.inl hpos1), if_neg (Nat.ne_of_gt hpos1), hp]
  cases ys with
  | nil =>
    rw [if_pos (second_eq_none h hsize).2]
    simp only [Option.bind_eq_bind, Option.bind_some, hadd, sortNext_linear]
    rfl
  | cons y ys =>
    obtain ⟨hpos, hp2⟩ := second_ne_none h hsize
    have hnot : ¬ (size2 = 0 ∨ p2 = none) := by
      rw [hp2]
      exact fun hempty => hempty.elim (Nat.ne_of_gt hpos) (Option.some_ne_none y)
    rw [if_neg hnot, hp2]
    simp only [Option.bind_eq_bind, Option.bind_some, sortNext_linear]
    rw [if_pos (hpick y rfl), hadd]
    rfl

/-- One turn that takes the first node of the second run: the first one is empty, or starts with a greater node. -/
theorem mergeLoop_takeSecond (compare : α → α → Int) (oldHead : Option Nat) (fuel : Nat)
    (h : Merging s out xs (y :: ys) zs p1 p2)
    (hsize : size2 = (y :: ys).length ∨ (y :: ys).length ≤ size2 ∧ zs = [])
    (hpick : ∀ x, xs.head? = some x → ¬ compare (s.value x) (s.value y) ≤ 0) :
    ∃ s', mergeLoop compare false true oldHead (fuel + 1) s p1 xs.length p2 size2 =
        mergeLoop compare false true oldHead fuel s' p1 xs.length (s.links.next y) (size2 - 1) ∧
      Merging s' (out ++ [y]) xs ys zs p1 (s.links.next y) ∧ SameBut s s' (out ++ [y]) := by
  obtain ⟨hp, s', hadd, hnext, hsame⟩ := h.takeSecond
  obtain ⟨hpos, -⟩ := second_ne_none h hsize
  have hsome : p2 ≠ none := by
    rw [hp]
    exact Option.some_ne_none y
  refine ⟨s', ?_, hnext, hsame⟩
  rw [mergeLoop, if_pos (Or.inr ⟨hpos, hsome⟩), hp]
  cases xs with
  | nil =>
    rw [if_pos List.length_nil]
    simp only [Option.bind_eq_bind, Option.bind_some, hadd, sortNext_linear]
  | cons x xs =>
    obtain ⟨hp1, -⟩ := h.takeFirst
    have hpos1 : (x :: xs).length > 0 := Nat.succ_pos _
    have hnot : ¬ (size2 = 0 ∨ some y = none) := fun hempty =>
      hempty.elim (Nat.ne_of_gt hpos) (Option.some_ne_none y)
    rw [if_neg (Nat.ne_of_gt hpos1), if_neg hnot, hp1]
    simp only [Option.bind_eq_bind, Option.bind_some, sortNext_linear]
    rw [if_neg (hpick x rfl), hadd]
    rfl

/-- The merge of two runs is added to the output. The second one is followed by more nodes, or its size is only a
bound. -/
theorem mergeLoop_spec (compare : α → α → Int) (oldHead : Option Nat) {fuel : Nat} (h : Merging s out xs ys zs p1 p2)
    (hsize : size2 = ys.length ∨ ys.length ≤ size2 ∧ zs = []) (hfuel : xs.length + ys.length < fuel) :
    ∃ s', mergeLoop compare false true oldHead fuel s p1 xs.length p2 size2 = some (s', zs.head?) ∧
      Output s' (out ++ xs.merge ys (nodeLe compare s)) ∧ SameBut s s' (out ++ (xs ++ ys)) := by
  induction fuel generalizing s out xs ys p1 p2 size2 with
  | zero => exact absurd hfuel (Nat.not_lt_zero _)
  | succ fuel ih =>
    cases xs with
    | nil =>
      cases ys with
      | nil =>
        obtain ⟨hhead, hempty⟩ := second_eq_none h hsize
        have hend : ¬ (([] : List Nat).length > 0 ∨ (size2 > 0 ∧ p2 ≠ none)) := by
          rintro (hpos | ⟨hpos, hne⟩)
          · exact absurd hpos (Nat.lt_irrefl 0)
          · exact hempty.elim (Nat.ne_of_gt hpos) hne
        rw [mergeLoop, if_neg hend, hhead]
        refine ⟨s, rfl, ?_, SameBut.refl s _⟩
        rw [List.nil_merge, List.append_nil]
        exact h.output
      | cons y ys =>
        obtain ⟨s1, hloop, hnext, hsame⟩ := mergeLoop_takeSecond compare oldHead fuel h hsize nofun
        have hrest := ih hnext (size_pred hsize) (by rw [List.length_cons] at hfuel; omega)
        rw [hsame.nodeLe_eq, List.nil_merge] at hrest
        rw [hloop, List.nil_merge]
        exact merged_of_step hsame List.mem_cons_self hrest (List.subset_cons_self y ys)
    | cons x xs =>
      rw [List.length_cons] at hfuel
      cases ys with
      | nil =>
        obtain ⟨s1, hloop, hnext, hsame⟩ := mergeLoop_takeFirst compare oldHead fuel h hsize nofun
        have hrest := ih hnext hsize (by omega)
        rw [hsame.nodeLe_eq, List.merge_right] at hrest
        rw [hloop, List.merge_right]
        exact merged_of_step hsame List.mem_cons_self hrest (List.subset_cons_self x _)
      | cons y ys =>
        rw [List.cons_merge_cons]
        simp only [nodeLe, decide_eq_true_iff]
        by_cases hle : compare (s.value x) (s.value y) ≤ 0
        · obtain ⟨s1, hloop, hnext, hsame⟩ := mergeLoop_takeFirst compare oldHead fuel h hsize fun b hb =>
            Option.some.inj hb ▸ hle
          have hrest := ih hnext hsize (by omega)
          rw [hsame.nodeLe_eq] at hrest
          rw [if_pos hle, hloop]
          exact merged_of_step hsame List.mem_cons_self hrest (List.subset_cons_self x _)
        · obtain ⟨s1, hloop, hnext, hsame⟩ := mergeLoop_takeSecond compare oldHead fuel h hsize fun b hb =>
            Option.some.inj hb ▸ hle
          have hrest := ih hnext (size_pred hsize) (by rw [List.length_cons] at hfuel ⊢; omega)
          rw [hsame.nodeLe_eq] at hrest
          rw [if_neg hle, hloop]
          refine merged_of_step hsame ?_ hrest ?_
          · exact List.mem_append_right _ List.mem_cons_self
          · refine List.append_subset.mpr ⟨List.subset_append_left _ _, ?_⟩
            exact List.subset_append_of_subset_right _ (List.subset_cons_self y ys)

/-! ## One pass -/

/-- The steps along a run: to its end, or to the end of the list. -/
theorem sortAdvance_spec (oldHead : Option Nat) {p : Option Nat} {r rest : List Nat} {left : Nat} (size1 : Nat)
    (h : Chain s.links.next p (r ++ rest)) (hne : r ≠ []) (hle : r.length ≤ left)
    (hend : r.length = left ∨ rest = []) :
    sortAdvance false oldHead s left p size1 = some (rest.head?, size1 + r.length) := by
  induction r generalizing p left size1 with
  | nil => exact absurd rfl hne
  | cons x r ih =>
    obtain ⟨hp, htail⟩ := h
    rw [List.length_cons] at hle hend
    cases left with
    | zero => exact absurd hle (Nat.not_succ_le_zero _)
    | succ left =>
      rw [sortAdvance, hp]
      simp only [Option.bind_eq_bind, Option.bind_some, sortNext_linear]
      cases r with
      | nil =>
        have hnext : s.links.next x = rest.head? := htail.head_eq
        rw [hnext]
        cases rest with
        | nil => rfl
        | cons y rest =>
          rcases hend with hlen | hnil
          · rw [List.length_nil, Nat.zero_add] at hlen
            obtain rfl : left = 0 := by omega
            rfl
          · cases hnil
      | cons y r =>
        have hnext : s.links.next x = some y := htail.head_eq
        have hle' : (y :: r).length ≤ left := Nat.le_of_succ_le_succ hle
        have hend' : (y :: r).length = left ∨ rest = [] := hend.imp_left Nat.succ.inj
        have hrest := ih (size1 + 1) htail (List.cons_ne_nil y r) hle' hend'
        rw [hnext] at hrest ⊢
        rw [List.length_cons (a := x), Nat.add_comm (List.length (y :: r)) 1, ← Nat.add_assoc]
        exact hrest

/-- A pass adds the merges of the pairs of runs to the output. -/
theorem passLoop_spec (compare : α → α → Int) (oldHead : Option Nat) {k fuel rounds m : Nat} {rs : List (List Nat)}
    {p : Option Nat} (h : Output s out) (hchain : Chain s.links.next p rs.flatten) (hk : 0 < k) (hruns : Runs k rs)
    (hnd : (out ++ rs.flatten).Nodup) (hfuel : rs.flatten.length < fuel) (hrounds : rs.length < rounds) :
    ∃ s', passLoop compare false true oldHead k fuel rounds s p m =
        some (s', m + (mergePairs (nodeLe compare s) rs).length) ∧
      Output s' (out ++ (mergePairs (nodeLe compare s) rs).flatten) ∧ SameBut s s' (out ++ rs.flatten) := by
  induction rounds generalizing s out rs p m with
  | zero => exact absurd hrounds (Nat.not_lt_zero _)
  | succ rounds ih =>
    rw [passLoop]
    cases rs with
    | nil =>
      have hp : p = none := hchain
      rw [if_neg (not_not.mpr hp)]
      refine ⟨s, rfl, ?_, SameBut.refl s _⟩
      rw [mergePairs, List.flatten_nil, List.append_nil]
      · exact h
      · exact fun _ _ _ => by rintro ⟨⟩
    | cons r rs =>
      have hr := hruns.ne_nil hk
      rw [List.flatten_cons] at hchain hnd hfuel
      -- the runs `r` and `r'` are merged, and the runs `rs'` are left
      obtain ⟨r', rs', hrest, hsize, hruns', hlen, hpairs⟩ := hruns.first_pair (nodeLe compare s)
      rw [hrest] at hchain hnd hfuel
      have hp : p ≠ none := by
        rw [hchain.head_eq, List.head?_append_of_ne_nil _ hr]
        exact fun hnone => hr (List.head?_eq_none_iff.mp hnone)
      have hend : r.length = k ∨ r' ++ rs'.flatten = [] := by
        rcases hruns.head_eq with heq | rfl
        · exact Or.inl heq
        · exact Or.inr hrest.symm
      have hadvance := sortAdvance_spec oldHead 0 hchain hr hruns.head_le hend
      rw [Nat.zero_add] at hadvance
      rw [List.length_append, List.length_append] at hfuel
      have hmergeFuel : r.length + r'.length < fuel := by omega
      obtain ⟨s1, hmerge, hout1, hsame1⟩ :=
        mergeLoop_spec compare oldHead ⟨h, hchain.visits, hchain.suffix, hnd⟩ hsize hmergeFuel
      have hnd1 : (out ++ (r ++ r') ++ rs'.flatten).Nodup := by
        rw [List.append_assoc, List.append_assoc]
        exact hnd
      have hchain1 : Chain s1.links.next rs'.flatten.head? rs'.flatten := by
        have hsuffix : Chain s.links.next rs'.flatten.head? rs'.flatten := hchain.suffix.suffix
        exact hsuffix.congr (hsame1.next_eq hnd1)
      have hperm : (r.merge r' (nodeLe compare s)).Perm (r ++ r') := List.merge_perm_append (nodeLe compare s)
      have hnd1' : (out ++ r.merge r' (nodeLe compare s) ++ rs'.flatten).Nodup :=
        (((hperm.append_left out).append_right rs'.flatten).nodup_iff).mpr hnd1
      rw [List.length_cons] at hrounds
      obtain ⟨s2, hpass, hout2, hsame2⟩ :=
        ih (m := m + 1) hout1 hchain1 hruns' hnd1' (by omega) (by omega)
      rw [hsame1.nodeLe_eq] at hpass hout2
      refine ⟨s2, ?_, ?_, ?_⟩
      · rw [if_pos hp, hadvance]
        simp only [Option.bind_eq_bind, Option.bind_some, hmerge]
        rw [hpass, hpairs, List.length_cons, Nat.add_assoc, Nat.add_comm 1]
      · rw [hpairs, List.flatten_cons, ← List.append_assoc]
        exact hout2
      · have hsub : out ++ (r ++ r') ⊆ out ++ r.merge r' (nodeLe compare s) ++ rs'.flatten := by
          refine List.subset_append_of_subset_left _ ?_
          exact ((hperm.append_left out).symm).subset
        refine (hsame1.trans hsame2 hsub).mono ?_
        rw [List.flatten_cons, hrest, ← List.append_assoc r, ← List.append_assoc out]
        exact ((hperm.append_left out).append_right rs'.flatten).subset

/-! ## All the passes -/

/-- The end of a pass: the last node of the output has no successor. -/
theorem Output.close (h : Output s out) (hne : out ≠ []) (hnd : out.Nodup) :
    ∃ s', s.sortClose false true = some s' ∧ DList s'.links.next s'.links.prev s'.head s'.queue out ∧
      SameBut s s' out := by
  obtain ⟨q, hseg⟩ := h.seg
  obtain ⟨z, hlast⟩ : ∃ z, out.getLast? = some z := by
    cases hlast : out.getLast? with
    | none => exact absurd (List.getLast?_eq_none_iff.mp hlast) hne
    | some z => exact ⟨z, rfl⟩
  have hq : s.queue = some z := h.queue_eq.trans hlast
  refine ⟨{ s with links := { s.links with next := Function.update s.links.next z none } }, ?_,
    ⟨h.head_eq, h.queue_eq, ?_, hnd⟩, ⟨_, _, _, rfl⟩, ?_⟩
  · rw [sortClose, if_neg Bool.false_ne_true, hq]
    rfl
  · refine hseg.setLast hnd (fun _ _ => rfl) ?_ ?_
    · intro x hx hxlast
      have hxz : x ≠ z := fun he => hxlast (he ▸ hlast)
      exact Function.update_of_ne hxz ..
    · intro x hx
      obtain rfl := Option.some.inj (hlast.symm.trans hx)
      exact Function.update_self ..
  · intro x hx
    have hxz : x ≠ z := fun he => hx (he ▸ List.mem_of_getLast? hlast)
    exact ⟨Function.update_of_ne hxz .., rfl⟩

/-- What the passes make of the runs: one run with the same nodes, and in order if the runs are. -/
structure OneRun (compare : α → α → Int) (s : BofList α) (rs : List (List Nat)) (l : List Nat) : Prop where
  perm : l.Perm rs.flatten
  sorted : IsPreorder compare → (∀ r ∈ rs, Sorted (nodeLe compare s) r) →
    Sorted (nodeLe compare s) l ∧ Keeps (nodeLe compare s) rs.flatten l

theorem IsPreorder.nodeLe_trans (h : IsPreorder compare) (s : BofList α) (a b c : Nat) :
    nodeLe compare s a b = true → nodeLe compare s b c = true → nodeLe compare s a c = true := by
  simp only [nodeLe, decide_eq_true_iff]
  exact h.trans _ _ _

theorem IsPreorder.nodeLe_total (h : IsPreorder compare) (s : BofList α) (a b : Nat) :
    (nodeLe compare s a b || nodeLe compare s b a) = true := by
  simp only [nodeLe, Bool.or_eq_true, decide_eq_true_iff]
  exact h.total _ _

/-- One run is left when a pass has made one merge. -/
theorem oneRun_of_length_le {rs : List (List Nat)} (hne : rs ≠ []) (hle : (mergePairs (nodeLe compare s) rs).length ≤ 1) :
    OneRun compare s rs (mergePairs (nodeLe compare s) rs).flatten := by
  refine ⟨perm_mergePairs _ rs, ?_⟩
  intro hpre hsorted
  obtain ⟨hruns, hkeeps⟩ := mergePairs_spec (hpre.nodeLe_trans s) (hpre.nodeLe_total s) hsorted
  refine ⟨?_, hkeeps⟩
  cases hm : mergePairs (nodeLe compare s) rs with
  | nil => exact absurd hm (mergePairs_ne_nil _ hne)
  | cons r rest =>
    rw [hm, List.length_cons] at hle
    obtain rfl : rest = [] := List.length_eq_zero_iff.mp (by omega)
    rw [hm] at hruns
    rw [List.flatten_singleton]
    exact hruns r List.mem_cons_self

/-- Further passes over the runs that a pass leaves. -/
theorem OneRun.of_pass {rs : List (List Nat)} {l : List Nat} (hle : nodeLe compare s' = nodeLe compare s)
    (h : OneRun compare s' (mergePairs (nodeLe compare s) rs) l) : OneRun compare s rs l := by
  refine ⟨h.perm.trans (perm_mergePairs _ rs), ?_⟩
  intro hpre hsorted
  obtain ⟨hruns, hkeeps⟩ := mergePairs_spec (hpre.nodeLe_trans s) (hpre.nodeLe_total s) hsorted
  obtain ⟨hsorted', hkeeps'⟩ := h.sorted hpre (by rw [hle]; exact hruns)
  rw [hle] at hsorted' hkeeps'
  exact ⟨hsorted', hkeeps.trans hkeeps'⟩

/-- The passes end with one run. The size of the runs stays below the number of nodes. -/
theorem sortLoop_spec (compare : α → α → Int) {k fuel passes : Nat} {rs : List (List Nat)} (hne : rs ≠ [])
    (hchain : Chain s.links.next s.head rs.flatten) (hk : 0 < k) (hruns : Runs k rs) (hnd : rs.flatten.Nodup)
    (hlen : rs.flatten.length < 1073741824) (hsize : k = 1 ∨ 2 ≤ rs.length) (hfuel : rs.flatten.length < fuel)
    (hpasses : rs.length ≤ passes) :
    ∃ s' l, sortLoop compare false true fuel passes k s = some s' ∧
      DList s'.links.next s'.links.prev s'.head s'.queue l ∧ SameBut s s' rs.flatten ∧ OneRun compare s rs l := by
  induction passes generalizing s k rs with
  | zero => exact absurd (List.length_pos_iff.mpr hne) (by omega)
  | succ passes ih =>
    have hruns' : Runs (2 * k) (mergePairs (nodeLe compare s) rs) := hruns.mergePairs hk
    have hperm := perm_mergePairs (nodeLe compare s) rs
    have hcount := length_mergePairs_le (nodeLe compare s) rs
    have hpairs := mergePairs_ne_nil (nodeLe compare s) hne
    have hrounds : rs.length < fuel := by
      have hle := hruns.length_le hk
      omega
    -- the pass
    have hstart : Output { s with head := none, queue := none } [] := ⟨rfl, rfl, none, trivial⟩
    obtain ⟨s1, hpass, hout, hsame1⟩ := passLoop_spec compare s.head (m := 0) hstart hchain hk hruns hnd hfuel hrounds
    have hle1 : nodeLe compare { s with head := none, queue := none } = nodeLe compare s := rfl
    rw [hle1] at hpass hout
    rw [List.nil_append] at hout hsame1
    rw [Nat.zero_add] at hpass
    have hnd' : (mergePairs (nodeLe compare s) rs).flatten.Nodup := hperm.nodup_iff.mpr hnd
    have hflat : (mergePairs (nodeLe compare s) rs).flatten ≠ [] := by
      cases hm : mergePairs (nodeLe compare s) rs with
      | nil => exact absurd hm hpairs
      | cons r rest =>
        rw [hm] at hruns'
        rw [List.flatten_cons]
        exact List.append_ne_nil_of_left_ne_nil (hruns'.ne_nil (by omega)) _
    obtain ⟨s2, hclose, hlist, hsame2⟩ := hout.close hflat hnd'
    have hsame : SameBut s s2 rs.flatten := by
      have hsame0 : SameBut s { s with head := none, queue := none } rs.flatten :=
        ⟨⟨_, _, _, rfl⟩, fun _ _ => ⟨rfl, rfl⟩⟩
      exact (hsame0.trans hsame1 (List.Subset.refl _)).trans (hsame2.mono hperm.subset) (List.Subset.refl _)
    -- the size of the runs does not overflow
    have hdouble : ¬ k * 2 > 2147483647 := by
      rcases hsize with h1 | h2
      · omega
      · have hlt := hruns.lt_length hk h2
        omega
    rw [sortLoop]
    simp only [Option.bind_eq_bind, Option.bind_some, hpass, hclose]
    rw [if_neg hdouble]
    by_cases hdone : (mergePairs (nodeLe compare s) rs).length ≤ 1
    · rw [if_pos hdone]
      exact ⟨s2, _, rfl, hlist, hsame, oneRun_of_length_le hne hdone⟩
    · have hlen' := hperm.length_eq
      rw [if_neg hdone, Nat.mul_comm k 2]
      obtain ⟨s3, l, hrest, hlist3, hsame3, hone⟩ := ih hpairs hlist.chain.1 (by omega) hruns' hnd' (by omega)
        (Or.inr (by omega)) (by omega) (by omega)
      refine ⟨s3, l, hrest, hlist3, hsame.trans (hsame3.mono hperm.subset) (List.Subset.refl _), ?_⟩
      exact hone.of_pass (hsame.nodeLe_eq compare)

/-! ## The list -/

/-- A sorted list in place of the linked nodes. -/
theorem Inv.of_sorted {held linked free linked' : List Nat} (h : Inv s held linked free)
    (hlist : DList s'.links.next s'.links.prev s'.head s'.queue linked') (hsame : SameBut s s' linked)
    (hperm : linked'.Perm linked) : Inv s' held linked' free := by
  obtain ⟨hfree, hheld, -⟩ := h.disjoint
  obtain ⟨k, head, queue, rfl⟩ := hsame.eq
  refine ⟨hlist, ?_, ?_, ?_, ?_, (hperm.append_right _).trans h.places, h.nbMaxElements_lt⟩
  · refine h.free_list.congr (fun x hx => ?_) (fun x hx => ?_)
    · exact (hsame.links x (hfree x hx)).1
    · exact (hsame.links x (hfree x hx)).2
  · rw [hperm.length_eq]
    exact h.nbElements_eq
  · intro n
    rw [hperm.mem_iff]
    exact h.parent_iff n
  · intro n hn
    obtain ⟨hnext, hprev⟩ := hsame.links n (hheld n hn)
    rw [hnext, hprev]
    exact h.held_links n hn

/-- The two ends of a doubly linked list. -/
theorem ends_of_dlist {k : Links} {head queue : Option Nat} {l : List Nat} (h : DList k.next k.prev head queue l) :
    (∀ n, head = some n → k.prev n = none) ∧ ∀ n, queue = some n → k.next n = none ∧ l.getLast? = some n := by
  constructor
  · intro n hn
    have hhead : l.head? = some n := h.head_eq.symm.trans hn
    obtain ⟨l', rfl⟩ := List.head?_eq_some_iff.mp hhead
    exact (h.links (a := [])).1
  · intro n hn
    have hlast : l.getLast? = some n := h.queue_eq.symm.trans hn
    obtain ⟨l', rfl⟩ := List.getLast?_eq_some_iff.mp hlast
    exact ⟨(h.links (b := [])).2, hlast⟩

theorem sortedFrom_of_inv {held linked free linked' : List Nat} (h : Inv s' held linked' free) (hsame : SameBut s s' linked)
    (hperm : linked'.Perm linked)
    (hsorted : IsPreorder compare → StablySorted (nodeLe compare s) linked linked') :
    SortedFrom compare s s' held linked free linked' := by
  obtain ⟨hfirst, hlast⟩ := ends_of_dlist h.linked_list
  exact ⟨h.holds, hperm, hsame.value_eq, hfirst, hlast, hsorted⟩

theorem flatten_singletons (l : List Nat) : (l.map fun n => [n]).flatten = l := by
  induction l with
  | nil => rfl
  | cons n l ih =>
    rw [List.map_cons, List.flatten_cons, ih]
    rfl

/-- `Sort` of a sound list. -/
theorem Inv.sort {held linked free : List Nat} (h : Inv s held linked free) (memcmp : α → α → Int)
    (pMethod : Option (α → α → Int)) (hlt : linked.length < 1073741824) {fuel : Nat} (hfuel : linked.length < fuel) :
    ∃ s' linked', s.sort memcmp fuel pMethod = some (s', true) ∧ Inv s' held linked' free ∧
      SortedFrom (pMethod.getD memcmp) s s' held linked free linked' := by
  have hhead := h.linked_list.head_eq
  rw [BofList.sort, listSort]
  by_cases hnil : linked = []
  · subst hnil
    have hnone : s.head = none := hhead
    rw [if_pos hnone]
    refine ⟨s, [], rfl, h, sortedFrom_of_inv h (SameBut.refl s _) (List.Perm.refl _) fun _ => ?_⟩
    exact ⟨List.Perm.refl _, List.Pairwise.nil, fun _ _ hs _ => hs⟩
  · have hsome : ¬ s.head = none := by
      rw [hhead, List.head?_eq_none_iff]
      exact hnil
    -- at first every node is a run
    obtain ⟨rs, hrs⟩ : ∃ rs, rs = linked.map fun n => [n] := ⟨_, rfl⟩
    have hflat : rs.flatten = linked := by
      rw [hrs]
      exact flatten_singletons linked
    have hruns : MergeRuns.Runs 1 rs := by
      rw [hrs]
      exact MergeRuns.runs_singletons linked
    have hne : rs ≠ [] := by
      rw [hrs]
      exact fun h => hnil (List.map_eq_nil_iff.mp h)
    have hone : ∀ r ∈ rs, MergeRuns.Sorted (nodeLe (pMethod.getD memcmp) s) r := by
      intro r hr
      rw [hrs] at hr
      obtain ⟨m, -, rfl⟩ := List.mem_map.mp hr
      exact List.pairwise_singleton _ m
    have hpasses : rs.length ≤ fuel := by
      have hle := hruns.length_le Nat.one_pos
      rw [hflat] at hle
      omega
    have hchain := h.linked_list.chain.1
    have hnd := h.linked_list.nodup
    rw [← hflat] at hchain hnd hlt hfuel
    obtain ⟨s', l, hloop, hlist, hsame, hlast⟩ := sortLoop_spec (pMethod.getD memcmp) hne hchain Nat.one_pos hruns
      hnd hlt (Or.inl rfl) hfuel hpasses
    rw [hflat] at hsame
    have hperm := hlast.perm
    rw [hflat] at hperm
    have hinv := h.of_sorted hlist hsame hperm
    rw [if_neg hsome, hloop]
    refine ⟨s', l, rfl, hinv, sortedFrom_of_inv hinv hsame hperm fun hpre => ?_⟩
    obtain ⟨hsorted, hkeeps⟩ := hlast.sorted hpre hone
    rw [hflat] at hkeeps
    exact ⟨hkeeps.perm, hsorted, hkeeps.order⟩

/-! ## A list that runs in a circle -/

/-- The successor of each of the two nodes is the other one, and `n` is the next one of the output. -/
structure Circle {α : Type} (s : BofList α) (n : Nat) : Prop where
  next_zero : s.links.next 0 = some 1
  next_one : s.links.next 1 = some 0
  queue_eq : s.queue = none ∨ s.queue = some (1 - n)

theorem Circle.sortAdd {s : BofList α} {n : Nat} (h : Circle s n) (hn : n = 0 ∨ n = 1) :
    ∃ s', s.sortAdd true n = some s' ∧ Circle s' (1 - n) := by
  obtain ⟨h0, h1, hqueue⟩ := h
  rcases hn with rfl | rfl <;> rcases hqueue with hq | hq <;>
    simp [BofList.sortAdd, Links.setNext, Links.setPrev, hq] <;> constructor <;> simp [h0, h1]

/-- A merge in the circle comes back to its first node. -/
theorem Circle.mergeLoop {s : BofList α} (h : Circle s 1) (old : Option Nat) (fuel : Nat) :
    mergeLoop (fun _ _ => 0) false true old fuel s (some 1) 1 (some 0) 1 = none ∨
      ∃ s', mergeLoop (fun _ _ => 0) false true old fuel s (some 1) 1 (some 0) 1 = some (s', some 1) ∧ Circle s' 1 := by
  obtain ⟨s1, hadd1, h1⟩ := h.sortAdd (Or.inr rfl)
  obtain ⟨s2, hadd2, h2⟩ := h1.sortAdd (Or.inl rfl)
  rcases fuel with - | - | - | fuel
  · exact Or.inl rfl
  · left
    simp [BofList.mergeLoop]
  · left
    simp [BofList.mergeLoop]
  · right
    refine ⟨s2, ?_, h2⟩
    simp [BofList.mergeLoop, hadd1, hadd2, h1.next_zero]

/-- So a pass never ends. -/
theorem Circle.passLoop {s : BofList α} (h : Circle s 1) (old : Option Nat) (fuel rounds m : Nat) :
    passLoop (fun _ _ => 0) false true old 1 fuel rounds s (some 1) m = none := by
  induction rounds generalizing s m with
  | zero => rfl
  | succ rounds ih =>
    have hadvance : sortAdvance false old s 1 (some 1) 0 = some (some 0, 1) := by
      simp [sortAdvance, h.next_one]
    rw [BofList.passLoop, if_pos (Option.some_ne_none 1), hadvance]
    rcases h.mergeLoop old fuel with hloop | ⟨s', hloop, h'⟩
    · simp [hloop]
    · simp [hloop, ih h']

theorem sort_of_circle {s : BofList α} (memcmp : α → α → Int) (fuel : Nat) (hhead : s.head = some 1)
    (h0 : s.links.next 0 = some 1) (h1 : s.links.next 1 = some 0) : s.sort memcmp fuel (some fun _ _ => 0) = none := by
  have hsome : ¬ s.head = none := by
    rw [hhead]
    exact Option.some_ne_none 1
  rw [BofList.sort, Option.map_eq_none_iff, listSort, if_neg hsome]
  cases fuel with
  | zero => rfl
  | succ fuel =>
    have hcircle : Circle { s with head := none, queue := none } 1 := ⟨h0, h1, Or.inl rfl⟩
    rw [sortLoop, hhead, Option.getD_some, hcircle.passLoop]
    rfl

/-! ## Runs of the calls -/

variable [Inhabited α]

/-- Every allowed call and every sort keep the invariant. -/
theorem sortStep_inv (memcmp : α → α → Int) (s : BofList α × List Nat) (op : SortOp α)
    (h : ∃ linked free, Inv s.1 s.2 linked free) (hg : SortGuard s op) :
    ∃ linked free, Inv (sortStep memcmp s op).1.1 (sortStep memcmp s op).1.2 linked free := by
  obtain ⟨linked, free, h⟩ := h
  cases op with
  | call op => exact (steps_of_allowed h hg.1 hg.2).1
  | sort pMethod =>
    have hlt : linked.length < 1073741824 := by
      rw [← h.nbElements_eq]
      exact hg
    have hfuel : linked.length < s.1.nbElements + 1 := by
      rw [h.nbElements_eq]
      exact Nat.lt_succ_self _
    obtain ⟨s', linked', hsort, hinv, -⟩ := h.sort memcmp pMethod hlt hfuel
    rw [sortStep, hsort]
    exact ⟨linked', free, hinv⟩

/-- In every state that allowed calls and sorts reach, `Sort` with any comparison function ends and leaves a sound list of
the same nodes; if the function is a total preorder, they are stably sorted. -/
theorem listSort_sorts {N : Nat} (h0 : 0 < N) (hN : N < 4294967296) (memcmp : α → α → Int) (ops : List (SortOp α))
    (hops : Machine.Meets (sortStep memcmp) SortGuard (create N, []) ops) (pMethod : Option (α → α → Int))
    (hlt : (Machine.run (sortStep memcmp) ((create N : BofList α), []) ops).1.1.nbElements < 1073741824) :
    Sorts memcmp (Machine.run (sortStep memcmp) ((create N : BofList α), []) ops).1.1
      (Machine.run (sortStep memcmp) ((create N : BofList α), []) ops).1.2 pMethod := by
  have hcreate : ∃ linked free, Inv (create N : BofList α) [] linked free := ⟨_, _, create_inv h0 hN⟩
  obtain ⟨linked, free, h⟩ := Machine.inv_run
    (P := fun s : BofList α × List Nat => ∃ linked free, Inv s.1 s.2 linked free) (sortStep_inv memcmp) hcreate hops
  have hlen := h.nbElements_eq
  refine ⟨linked, free, h.holds, fun fuel hfuel => ?_⟩
  obtain ⟨s', linked', hsort, -, hsorted⟩ := h.sort memcmp pMethod (by omega) hfuel
  exact ⟨s', linked', hsort, hsorted⟩

/-- Three values in front of each other, sorted. -/
theorem listSort_sorts_three :
    Sorts (fun a b : Nat => (a : Int) - b)
      (Machine.run (sortStep fun a b : Nat => (a : Int) - b) ((create 4 : BofList Nat), [])
        [.call (.addFirst (some 2)), .call (.addFirst (some 3)), .sort none, .call (.addLast (some 1))]).1.1
      (Machine.run (sortStep fun a b : Nat => (a : Int) - b) ((create 4 : BofList Nat), [])
        [.call (.addFirst (some 2)), .call (.addFirst (some 3)), .sort none, .call (.addLast (some 1))]).1.2
      none :=
  listSort_sorts (N := 4) (by decide) (by decide) (fun a b : Nat => (a : Int) - b) _ (by decide) none (by decide)

/-- `AddFirst` of a node that is linked already makes the list run in a circle; `Sort` of this list does not end. -/
theorem not_sorts_addFirst :
    IsPreorder (fun _ _ : Nat => 0) ∧ ∀ fuel memcmp,
      (Machine.run (sortStep memcmp) ((create 2 : BofList Nat), [])
        [.call (.addLast (some 7)), .call (.addLast (some 8)), .call (.addFirstNode (some 1))]).1.1.sort memcmp fuel
        (some fun _ _ => 0) = none := by
  exact ⟨⟨fun _ _ => Or.inl (Int.le_refl 0), fun _ _ _ _ _ => Int.le_refl 0⟩,
    fun fuel memcmp => sort_of_circle memcmp fuel rfl rfl rfl⟩

end BofStd.BofList
