import Mathlib.Data.List.Perm.Subperm
import BofStd.NaryTreeKvSpec

/-!
# Taking a tree apart

The loop of `ClearTree` takes the forest under a node apart from the right: `clearLoop_forest` is an induction over this
forest, in which the nodes of the subtrees in front, of the parent and of everything else stay as they are. The rest is
what cutting a subtree out does to the forest that the heap stores.
-/

namespace BofStd.NaryTreeKv

variable {κ δ : Type*} {s : NaryTreeKv κ δ} {heap heap' : Nat → Option (NaryNode κ δ)}
  {f t : Forest Nat} {parent : Option Nat} {p c h start : Nat} {n : NaryNode κ δ} {k : κ}

/-! ## Stored forests -/

/-- Only the links of the nodes matter. -/
theorem Rep.of_links (hrep : Rep heap parent f) (hlinks : ∀ p ∈ f.nodes, ∀ n, heap p = some n →
    ∃ n', heap' p = some n' ∧ n'.parent = n.parent ∧ n'.children = n.children) : Rep heap' parent f := by
  induction f generalizing parent with
  | nil => trivial
  | snoc front p sub ihf ihs =>
    obtain ⟨hfront, ⟨n, hn, hparent, hchildren⟩, hsub⟩ := hrep
    obtain ⟨n', hn', hparent', hchildren'⟩ := hlinks p (Forest.mem_nodes_snoc.mpr (.inr (.inl rfl))) n hn
    refine ⟨ihf hfront ?_, ⟨n', hn', hparent'.trans hparent, hchildren'.trans hchildren⟩, ihs hsub ?_⟩
    · intro q hq
      exact hlinks q (Forest.mem_nodes_snoc.mpr (.inr (.inr hq)))
    · intro q hq
      exact hlinks q (Forest.mem_nodes_snoc.mpr (.inl hq))

theorem Rep.congr (hrep : Rep heap parent f) (hsame : ∀ p ∈ f.nodes, heap' p = heap p) : Rep heap' parent f :=
  hrep.of_links fun p hp n hn => ⟨n, (hsame p hp).trans hn, rfl, rfl⟩

theorem Rep.live (hrep : Rep heap parent f) (hp : p ∈ f.nodes) : ∃ n, heap p = some n := by
  induction f generalizing parent with
  | nil => exact absurd hp List.not_mem_nil
  | snoc front q sub ihf ihs =>
    obtain ⟨hfront, ⟨n, hn, -⟩, hsub⟩ := hrep
    rcases Forest.mem_nodes_snoc.mp hp with hp | rfl | hp
    · exact ihs hsub hp
    · exact ⟨n, hn⟩
    · exact ihf hfront hp

theorem Rep.root (hrep : Rep heap parent f) (hp : p ∈ f.roots) : ∃ n, heap p = some n ∧ n.parent = parent := by
  induction f with
  | nil => exact absurd hp List.not_mem_nil
  | snoc front q sub ihf _ =>
    obtain ⟨hfront, ⟨n, hn, hparent, -⟩, -⟩ := hrep
    rcases List.mem_append.mp hp with hp | hp
    · exact ihf hfront hp
    · rw [List.mem_singleton.mp hp]
      exact ⟨n, hn, hparent⟩

/-- The children of a node are nodes, and know their parent. -/
theorem Rep.child (hrep : Rep heap parent f) (hp : p ∈ f.nodes) (hn : heap p = some n) (hc : c ∈ n.children) :
    c ∈ f.nodes ∧ ∃ nc, heap c = some nc ∧ nc.parent = some p := by
  induction f generalizing parent with
  | nil => exact absurd hp List.not_mem_nil
  | snoc front q sub ihf ihs =>
    obtain ⟨hfront, ⟨m, hm, -, hchildren⟩, hsub⟩ := hrep
    rcases Forest.mem_nodes_snoc.mp hp with hp | rfl | hp
    · obtain ⟨hmem, hnode⟩ := ihs hsub hp
      exact ⟨Forest.mem_nodes_snoc.mpr (.inl hmem), hnode⟩
    · obtain rfl : m = n := Option.some.inj (hm.symm.trans hn)
      rw [hchildren] at hc
      exact ⟨Forest.mem_nodes_snoc.mpr (.inl (Forest.roots_subset_nodes hc)), hsub.root hc⟩
    · obtain ⟨hmem, hnode⟩ := ihf hfront hp
      exact ⟨Forest.mem_nodes_snoc.mpr (.inr (.inr hmem)), hnode⟩

/-- The subtree at a node, and the place where it hangs. -/
theorem Rep.under (hrep : Rep heap parent f) (hnd : f.nodes.Nodup) (hh : h ∈ f.nodes) :
    ∃ n, heap h = some n ∧ n.children = (f.under h).roots ∧ Rep heap (some h) (f.under h) ∧
      (h ∈ f.roots ∧ n.parent = parent ∨
        ∃ p np, p ∈ f.nodes ∧ heap p = some np ∧ h ∈ np.children ∧ n.parent = some p ∧ p ≠ h ∧
          p ∉ (f.under h).nodes) := by
  induction f generalizing parent with
  | nil => exact absurd hh List.not_mem_nil
  | snoc front q sub ihf ihs =>
    obtain ⟨hndsub, hndfront, hqsub, hqfront, hdisj⟩ := Forest.nodup_snoc.mp hnd
    obtain ⟨hfront, ⟨m, hm, hparent, hchildren⟩, hsub⟩ := hrep
    rw [Forest.under_snoc]
    by_cases hqh : q = h
    · subst hqh
      rw [if_pos rfl]
      exact ⟨m, hm, hchildren, hsub, .inl ⟨List.mem_append_right _ (List.mem_singleton.mpr rfl), hparent⟩⟩
    · rw [if_neg hqh]
      by_cases hmem : h ∈ sub.nodes
      · rw [if_pos hmem]
        obtain ⟨nh, hnh, hroots, hunder, hplace⟩ := ihs hsub hndsub hmem
        refine ⟨nh, hnh, hroots, hunder, .inr ?_⟩
        rcases hplace with ⟨hroot, hpar⟩ | ⟨p, np, hp, hnp, hc, hpar, hne, hnot⟩
        · refine ⟨q, m, Forest.mem_nodes_snoc.mpr (.inr (.inl rfl)), hm, hchildren ▸ hroot, hpar, hqh, ?_⟩
          intro hq
          exact hqsub ((Forest.nodes_under_sublist h sub).subset hq)
        · exact ⟨p, np, Forest.mem_nodes_snoc.mpr (.inl hp), hnp, hc, hpar, hne, hnot⟩
      · rw [if_neg hmem]
        have hmem' : h ∈ front.nodes := by
          rcases Forest.mem_nodes_snoc.mp hh with hs | heq | hf
          · exact absurd hs hmem
          · exact absurd heq.symm hqh
          · exact hf
        obtain ⟨nh, hnh, hroots, hunder, hplace⟩ := ihf hfront hndfront hmem'
        refine ⟨nh, hnh, hroots, hunder, ?_⟩
        rcases hplace with ⟨hroot, hpar⟩ | ⟨p, np, hp, hnp, hc, hpar, hne, hnot⟩
        · exact .inl ⟨List.mem_append_left _ hroot, hpar⟩
        · exact .inr ⟨p, np, Forest.mem_nodes_snoc.mpr (.inr (.inr hp)), hnp, hc, hpar, hne, hnot⟩

/-- Cutting out: every node that stays loses the child `h`, if it has it. -/
theorem Rep.remove (hrep : Rep heap parent f)
    (hsame : ∀ p ∈ (f.remove h).nodes, heap' p =
      (heap p).map fun n => { n with children := n.children.filter fun c => c ≠ h }) :
    Rep heap' parent (f.remove h) := by
  induction f generalizing parent with
  | nil => trivial
  | snoc front q sub ihf ihs =>
    obtain ⟨hfront, ⟨m, hm, hparent, hchildren⟩, hsub⟩ := hrep
    rw [Forest.remove_snoc] at hsame ⊢
    by_cases hqh : q = h
    · rw [if_pos hqh] at hsame ⊢
      exact ihf hfront hsame
    · rw [if_neg hqh] at hsame ⊢
      refine ⟨ihf hfront fun p hp => hsame p ?_, ?_, ihs hsub fun p hp => hsame p ?_⟩
      · exact Forest.mem_nodes_snoc.mpr (.inr (.inr hp))
      · refine ⟨_, (hsame q (Forest.mem_nodes_snoc.mpr (.inr (.inl rfl)))).trans (congrArg _ hm), hparent, ?_⟩
        rw [Forest.roots_remove, ← hchildren]
      · exact Forest.mem_nodes_snoc.mpr (.inl hp)

/-! ## The children by their keys -/

section Keys

variable [DecidableEq κ]

theorem hasKey_eq {cs : List Nat} (hlive : ∀ c ∈ cs, ∃ n, heap c = some n) :
    hasKey heap k cs = some (decide (some k ∈ cs.map (keyAt heap))) := by
  induction cs with
  | nil => rfl
  | cons c cs ih =>
    obtain ⟨n, hn⟩ := hlive c List.mem_cons_self
    have hkey : keyAt heap c = some n.key := by
      rw [keyAt, hn]
      rfl
    rw [hasKey, hn, Option.bind_some, List.map_cons, hkey]
    by_cases hk : n.key = k
    · rw [if_pos hk, hk]
      exact congrArg some (decide_eq_true List.mem_cons_self).symm
    · rw [if_neg hk, ih fun c hc => hlive c (List.mem_cons_of_mem _ hc)]
      refine congrArg some (decide_eq_decide.mpr ?_)
      rw [List.mem_cons, or_iff_right]
      exact fun heq => hk (Option.some.inj heq).symm

/-- Among distinct keys the key of a child finds this child. -/
theorem eraseKey_eq {cs : List Nat} (hlive : ∀ c ∈ cs, ∃ n, heap c = some n) (hnd : (cs.map (keyAt heap)).Nodup)
    (hh : h ∈ cs) (hk : keyAt heap h = some k) : eraseKey heap k cs = some (cs.erase h) := by
  induction cs with
  | nil => exact absurd hh List.not_mem_nil
  | cons c cs ih =>
    obtain ⟨n, hn⟩ := hlive c List.mem_cons_self
    have hkey : keyAt heap c = some n.key := by
      rw [keyAt, hn]
      rfl
    rw [List.map_cons, List.nodup_cons] at hnd
    rw [eraseKey, hn, Option.bind_some]
    by_cases hch : c = h
    · subst hch
      rw [hkey] at hk
      rw [if_pos (Option.some.inj hk), List.erase_cons_head]
    · have hmem : h ∈ cs := (List.mem_cons.mp hh).resolve_left (Ne.symm hch)
      have hne : n.key ≠ k := by
        intro heq
        apply hnd.1
        rw [hkey, heq, ← hk]
        exact List.mem_map_of_mem hmem
      rw [if_neg hne, ih (fun c hc => hlive c (List.mem_cons_of_mem _ hc)) hnd.2 hmem,
        List.erase_cons_tail (by rwa [beq_iff_eq])]
      rfl

end Keys

/-! ## The loop -/

/-- The state in which the nodes `l` are deleted and the node `p` has lost its children. -/
def dismantle (s : NaryTreeKv κ δ) (p : Nat) (n : NaryNode κ δ) (l : List Nat) : NaryTreeKv κ δ :=
  { s with
    heap := fun x => if x ∈ l then none else if x = p then some { n with children := [] } else s.heap x
    deleted := s.deleted ++ l }

theorem heap_dismantle (l : List Nat) (x : Nat) : (s.dismantle p n l).heap x =
    if x ∈ l then none else if x = p then some { n with children := [] } else s.heap x := rfl

theorem dismantle_nil (hn : s.heap p = some n) (hc : n.children = []) : s.dismantle p n [] = s := by
  have hheap : (fun x => if x ∈ [] then none else if x = p then some { n with children := [] } else s.heap x) = s.heap := by
    funext x
    rw [if_neg List.not_mem_nil]
    split
    · rename_i hx
      rw [hx, hn, ← hc]
    · rfl
  unfold dismantle
  rw [hheap, List.append_nil]

theorem popLastChild_empty (hn : s.heap p = some n) (hc : n.children = []) : s.popLastChild p = some (s, none) := by
  rw [popLastChild, hn, Option.map_some, hc]
  rfl

theorem popLastChild_snoc {front : List Nat} (hn : s.heap p = some n) (hc : n.children = front ++ [c]) :
    s.popLastChild p = some (s.setNode p { n with children := front }, some c) := by
  rw [popLastChild, hn, Option.map_some, hc, List.getLast?_concat, List.dropLast_concat]

theorem delete_eq (hn : s.heap p = some n) :
    s.delete p = some { s with heap := Function.update s.heap p none, deleted := s.deleted ++ [p] } := by
  rw [delete, hn]
  rfl

section Rounds

variable [DecidableEq κ]

/-- A round that enters the last child. -/
theorem clearLoop_enter {front : List Nat} (hn : s.heap p = some n) (hc : n.children = front ++ [c]) (hne : c ≠ start)
    (rounds : Nat) :
    clearLoop start (rounds + 1) s p = clearLoop start rounds (s.setNode p { n with children := front }) c := by
  rw [clearLoop, popLastChild_snoc hn hc, Option.bind_some]
  exact if_neg hne

/-- A round that deletes a node without children and climbs to its parent. -/
theorem clearLoop_leave {father : Nat} (hn : s.heap c = some n) (hc : n.children = []) (hne : c ≠ start)
    (hparent : n.parent = some father) (rounds : Nat) :
    clearLoop start (rounds + 1) s c = clearLoop start rounds
      { s with heap := Function.update s.heap c none, deleted := s.deleted ++ [c] } father := by
  rw [clearLoop, popLastChild_empty hn hc, Option.bind_some]
  dsimp only
  rw [if_neg hne, hn, Option.bind_some, delete_eq hn, Option.bind_some, hparent]

/-- The forest under a node is taken apart in two rounds for each of its nodes. -/
theorem clearLoop_forest (hn : s.heap p = some n) (hroots : n.children = f.roots) (hrep : Rep s.heap (some p) f)
    (hnd : f.nodes.Nodup) (hp : p ∉ f.nodes) (hstart : start ∉ f.nodes) (rounds : Nat) :
    clearLoop start (2 * f.nodes.length + rounds) s p = clearLoop start rounds (s.dismantle p n f.nodes) p := by
  induction f generalizing s p n rounds with
  | nil => rw [Forest.nodes, dismantle_nil hn hroots, List.length_nil, Nat.mul_zero, Nat.zero_add]
  | snoc front c sub ihf ihs =>
    obtain ⟨hndsub, hndfront, hcsub, hcfront, hdisj⟩ := Forest.nodup_snoc.mp hnd
    obtain ⟨hfront, ⟨nc, hnc, hparent, hchildren⟩, hsub⟩ := hrep
    rw [Forest.mem_nodes_snoc, not_or, not_or] at hp hstart
    obtain ⟨hpsub, hpc, hpfront⟩ := hp
    obtain ⟨hssub, hsc, hsfront⟩ := hstart
    -- enter the last child
    have hcount : 2 * (Forest.snoc front c sub).nodes.length + rounds =
        2 * sub.nodes.length + (2 * front.nodes.length + rounds + 1) + 1 := by
      rw [Forest.nodes_snoc, List.length_append, List.length_cons]
      omega
    rw [hcount, clearLoop_enter hn hroots (Ne.symm hsc)]
    -- take apart what is under it
    have hpop : ∀ x, x ≠ p → (s.setNode p { n with children := front.roots }).heap x = s.heap x := fun x hx =>
      Function.update_of_ne hx _ _
    have hnc₁ : (s.setNode p { n with children := front.roots }).heap c = some nc := by
      rw [hpop c (Ne.symm hpc), hnc]
    have hsub₁ : Rep (s.setNode p { n with children := front.roots }).heap (some c) sub :=
      hsub.congr fun q hq => hpop q fun hqp => hpsub (hqp ▸ hq)
    rw [ihs hnc₁ hchildren hsub₁ hndsub hcsub hssub]
    -- delete the child and climb
    have hleaf : ((s.setNode p { n with children := front.roots }).dismantle c nc sub.nodes).heap c =
        some { nc with children := [] } := by
      rw [heap_dismantle, if_neg hcsub, if_pos rfl]
    rw [clearLoop_leave hleaf rfl (Ne.symm hsc) hparent]
    -- take apart what is in front
    have hheap : ∀ x, Function.update
        ((s.setNode p { n with children := front.roots }).dismantle c nc sub.nodes).heap c none x =
        if x = c ∨ x ∈ sub.nodes then none else if x = p then some { n with children := front.roots } else s.heap x := by
      intro x
      by_cases hxc : x = c
      · rw [hxc, Function.update_self, if_pos (.inl rfl)]
      · rw [Function.update_of_ne hxc, heap_dismantle]
        by_cases hxs : x ∈ sub.nodes
        · rw [if_pos hxs, if_pos (.inr hxs)]
        · rw [if_neg hxs, if_neg hxc, if_neg fun h => h.elim hxc hxs]
          by_cases hxp : x = p
          · rw [if_pos hxp, hxp]
            exact Function.update_self _ _ _
          · rw [if_neg hxp, hpop x hxp]
    have hnp : Function.update
        ((s.setNode p { n with children := front.roots }).dismantle c nc sub.nodes).heap c none p =
        some { n with children := front.roots } := by
      rw [hheap, if_neg fun h => h.elim hpc hpsub, if_pos rfl]
    have hfront₁ : Rep (Function.update
        ((s.setNode p { n with children := front.roots }).dismantle c nc sub.nodes).heap c none) (some p) front := by
      refine hfront.congr fun q hq => ?_
      have hqp : q ≠ p := fun hqp => hpfront (hqp ▸ hq)
      rw [hheap, if_neg, if_neg hqp]
      rintro (rfl | hqs)
      · exact hcfront hq
      · exact hdisj q hqs hq
    rw [ihf hnp rfl hfront₁ hndfront hpfront hsfront]
    -- both are the same state
    congr 1
    have hfinal : ∀ x, (if x ∈ front.nodes then none else if x = p then some { n with children := [] } else
        Function.update ((s.setNode p { n with children := front.roots }).dismantle c nc sub.nodes).heap c none x) =
        if x ∈ (Forest.snoc front c sub).nodes then none
        else if x = p then some { n with children := [] } else s.heap x := by
      intro x
      rw [hheap]
      have hmem : x ∈ (Forest.snoc front c sub).nodes ↔ (x = c ∨ x ∈ sub.nodes) ∨ x ∈ front.nodes := by
        rw [Forest.mem_nodes_snoc]
        tauto
      by_cases hxf : x ∈ front.nodes
      · rw [if_pos hxf, if_pos (hmem.mpr (.inr hxf))]
      · rw [if_neg hxf]
        by_cases hx : x = c ∨ x ∈ sub.nodes
        · rw [if_pos hx, if_pos (hmem.mpr (.inl hx)), if_neg]
          rintro rfl
          exact hx.elim hpc hpsub
        · rw [if_neg hx, if_neg fun h => (hmem.mp h).elim hx hxf]
          split <;> rfl
    unfold dismantle at hfinal ⊢
    dsimp only [setNode] at hfinal ⊢
    rw [funext hfinal, Forest.nodes_snoc, List.append_assoc, List.append_assoc]
    rfl

end Rounds

end BofStd.NaryTreeKv

/-!
# The calls on a keyed tree

Each call is followed on the tree that the heap stores. `Ledger` relates the tree to the records of the nodes that
were put into it and of the deletions; `ClearTree` of the root, which `SetRoot` and the destructor use, keeps the
ledger but leaves `mpRoot` as it is.
-/

namespace BofStd.NaryTreeKv

variable {κ δ : Type*} {s s' : NaryTreeKv κ δ} {heap heap' : Nat → Option (NaryNode κ δ)} {f t : Forest Nat}
  {parent : Option Nat} {p c h : Nat} {n : NaryNode κ δ} {k : κ}

/-! ## Nodes of a stored tree -/

/-- The parent of a node is in the forest, or above it. -/
theorem Rep.parent_mem (hrep : Rep heap parent f) (hc : c ∈ f.nodes) :
    ∃ n, heap c = some n ∧ (n.parent = parent ∨ ∃ q ∈ f.nodes, n.parent = some q) := by
  induction f generalizing parent with
  | nil => exact absurd hc List.not_mem_nil
  | snoc front p sub ihf ihs =>
    obtain ⟨hfront, ⟨n, hn, hparent, -⟩, hsub⟩ := hrep
    rcases Forest.mem_nodes_snoc.mp hc with hc | rfl | hc
    · obtain ⟨m, hm, hup | ⟨q, hq, hup⟩⟩ := ihs hsub hc
      · exact ⟨m, hm, .inr ⟨p, Forest.mem_nodes_snoc.mpr (.inr (.inl rfl)), hup⟩⟩
      · exact ⟨m, hm, .inr ⟨q, Forest.mem_nodes_snoc.mpr (.inl hq), hup⟩⟩
    · exact ⟨n, hn, .inl hparent⟩
    · obtain ⟨m, hm, hup | ⟨q, hq, hup⟩⟩ := ihf hfront hc
      · exact ⟨m, hm, .inl hup⟩
      · exact ⟨m, hm, .inr ⟨q, Forest.mem_nodes_snoc.mpr (.inr (.inr hq)), hup⟩⟩

theorem Stores.children_nodup (hst : Stores heap t) (hp : p ∈ t.nodes) (hn : heap p = some n) : n.children.Nodup := by
  obtain ⟨m, hm, hroots, -⟩ := hst.rep.under hst.nodup hp
  obtain rfl : m = n := Option.some.inj (hm.symm.trans hn)
  rw [hroots]
  exact Forest.nodup_roots (hst.nodup.sublist (Forest.nodes_under_sublist p t))

theorem Stores.children_live (hst : Stores heap t) (hp : p ∈ t.nodes) (hn : heap p = some n) :
    ∀ c ∈ n.children, ∃ nc, heap c = some nc := by
  intro c hc
  obtain ⟨-, nc, hnc, -⟩ := hst.rep.child hp hn hc
  exact ⟨nc, hnc⟩

/-- A node that has `h` as a child is the parent of `h`. -/
theorem Stores.child_iff (hst : Stores heap t) (hp : p ∈ t.nodes) (hn : heap p = some n) (hh : h ∈ t.nodes) :
    h ∈ n.children ↔ (heap h).bind NaryNode.parent = some p := by
  constructor
  · intro hc
    obtain ⟨-, nh, hnh, hpar⟩ := hst.rep.child hp hn hc
    rw [hnh]
    exact hpar
  · intro hpar
    obtain ⟨nh, hnh, -, -, hplace⟩ := hst.rep.under hst.nodup hh
    rw [hnh] at hpar
    have hpar' : nh.parent = some p := hpar
    rcases hplace with ⟨-, hnone⟩ | ⟨q, nq, hq, hnq, hc, hup, -⟩
    · rw [hnone] at hpar'
      cases hpar'
    · obtain rfl : q = p := Option.some.inj (hup.symm.trans hpar')
      obtain rfl : nq = n := Option.some.inj (hnq.symm.trans hn)
      exact hc

theorem keyAt_map (f : List Nat → List Nat) (h : heap' c = (heap c).map fun n => { n with children := f n.children }) :
    keyAt heap' c = keyAt heap c := by
  unfold keyAt
  rw [h, Option.map_map]
  rfl

/-- A tree that is stored, with one of its subtrees cut out. -/
theorem Stores.remove (hst : Stores heap t) (hsame : ∀ p ∈ (t.remove h).nodes, heap' p =
    (heap p).map fun n => { n with children := n.children.filter fun c => c ≠ h }) :
    Stores heap' (t.remove h) := by
  have hrep := hst.rep.remove hsame
  refine ⟨hrep, hst.nodup.sublist (Forest.nodes_remove_sublist h t), ?_⟩
  intro p hp n' hn'
  have hpt : p ∈ t.nodes := (Forest.nodes_remove_sublist h t).subset hp
  obtain ⟨n, hn⟩ := hst.rep.live hpt
  have hkeys : ∀ c ∈ n'.children, keyAt heap' c = keyAt heap c := by
    intro c hc
    exact keyAt_map (fun cs => cs.filter fun c => c ≠ h) (hsame c (hrep.child hp hn' hc).1)
  have hchildren : n'.children = n.children.filter fun c => c ≠ h := by
    rw [hsame p hp, hn] at hn'
    exact (congrArg NaryNode.children (Option.some.inj hn')).symm
  rw [List.map_congr_left hkeys, hchildren]
  exact (hst.distinct p hpt n hn).sublist (List.filter_sublist.map _)

/-! ## `ClearTree` -/

theorem length_le_of_lt {l : List Nat} (hnd : l.Nodup) {m : Nat} (hlt : ∀ x ∈ l, x < m) : l.length ≤ m := by
  have hsub : l ⊆ List.range m := fun x hx => List.mem_range.mpr (hlt x hx)
  have hle := (List.subperm_of_subset hnd hsub).length_le
  rwa [List.length_range] at hle

theorem subtree_nodup (hst : Stores heap t) (hh : h ∈ t.nodes) : (subtree t h).Nodup := by
  have hnot := Forest.notMem_under_self hst.nodup hh
  refine List.nodup_append.mpr ⟨hst.nodup.sublist (Forest.nodes_under_sublist h t), List.nodup_singleton h, ?_⟩
  rintro x hx y hy rfl
  rw [List.mem_singleton.mp hy] at hx
  exact hnot hx

theorem subtree_subset (hh : h ∈ t.nodes) : ∀ x ∈ subtree t h, x ∈ t.nodes := by
  intro x hx
  rcases List.mem_append.mp hx with hx | hx
  · exact (Forest.nodes_under_sublist h t).subset hx
  · rw [List.mem_singleton.mp hx]
    exact hh

theorem heap_dismantle_start (hst : Stores heap t) (hh : h ∈ t.nodes) :
    (s.dismantle h n (t.under h).nodes).heap h = some { n with children := [] } := by
  rw [heap_dismantle, if_neg (Forest.notMem_under_self hst.nodup hh), if_pos rfl]

section Calls

variable [DecidableEq κ]

/-- The start node leaves the children of its father, when what is under it is gone. -/
theorem popAndDeleteChild_dismantle {father : Nat} {nf : NaryNode κ δ} (hst : Stores s.heap t) (hh : h ∈ t.nodes)
    (hn : s.heap h = some n) (hfather : father ∈ t.nodes) (hnf : s.heap father = some nf)
    (hpar : n.parent = some father) (hne : father ≠ h) (hout : father ∉ (t.under h).nodes)
    (hrep : Rep s.heap (some h) (t.under h)) :
    (s.dismantle h n (t.under h).nodes).popAndDeleteChild father h =
      some ((s.dismantle h n (t.under h).nodes).setNode father { nf with children := nf.children.erase h }) := by
  have hstart := heap_dismantle_start (s := s) (n := n) hst hh
  have hchild : ∀ c ∈ nf.children, c ∉ (t.under h).nodes := by
    intro c hc hcu
    obtain ⟨-, nc, hnc, hup⟩ := hst.rep.child hfather hnf hc
    obtain ⟨nc', hnc', hup'⟩ := hrep.parent_mem hcu
    obtain rfl : nc = nc' := Option.some.inj (hnc.symm.trans hnc')
    rcases hup' with hup' | ⟨q, hq, hup'⟩
    · exact hne (Option.some.inj (hup.symm.trans hup'))
    · exact hout (Option.some.inj (hup.symm.trans hup') ▸ hq)
  have hkeys : ∀ c ∈ nf.children, keyAt (s.dismantle h n (t.under h).nodes).heap c = keyAt s.heap c := by
    intro c hc
    unfold keyAt
    rw [heap_dismantle, if_neg (hchild c hc)]
    split
    · rename_i hch
      rw [hch, hn]
      rfl
    · rfl
  have hlive : ∀ c ∈ nf.children, ∃ nc, (s.dismantle h n (t.under h).nodes).heap c = some nc := by
    intro c hc
    rw [heap_dismantle, if_neg (hchild c hc)]
    split
    · exact ⟨_, rfl⟩
    · exact hst.children_live hfather hnf c hc
  have hdistinct : (nf.children.map (keyAt (s.dismantle h n (t.under h).nodes).heap)).Nodup := by
    rw [List.map_congr_left hkeys]
    exact hst.distinct father hfather nf hnf
  have hc : h ∈ nf.children := by
    rw [hst.child_iff hfather hnf hh, hn]
    exact hpar
  have hkey : keyAt (s.dismantle h n (t.under h).nodes).heap h = some n.key := by
    rw [keyAt, hstart]
    rfl
  have hfather' : (s.dismantle h n (t.under h).nodes).heap father = some nf := by
    rw [heap_dismantle, if_neg hout, if_neg hne, hnf]
  rw [popAndDeleteChild, hfather', Option.bind_some, hstart, Option.bind_some,
    eraseKey_eq hlive hdistinct hc hkey]
  rfl

/-- The start node, when what is under it is gone. -/
theorem deleteStart_spec (hst : Stores s.heap t) (hh : h ∈ t.nodes) (hn : s.heap h = some n) :
    ∃ s', (s.dismantle h n (t.under h).nodes).deleteStart h = some s' ∧ Clears s s' t h ∧ s'.next = s.next := by
  obtain ⟨m, hm, -, hrep, hplace⟩ := hst.rep.under hst.nodup hh
  obtain rfl : m = n := Option.some.inj (hm.symm.trans hn)
  have hstart := heap_dismantle_start (s := s) (n := m) hst hh
  have hmem : ∀ x, x ∈ subtree t h ↔ x ∈ (t.under h).nodes ∨ x = h := by
    intro x
    rw [subtree, List.mem_append, List.mem_singleton]
  unfold deleteStart
  rw [hstart, Option.bind_some]
  dsimp only
  rcases hplace with ⟨-, hnone⟩ | ⟨father, nf, hfather, hnf, -, hpar, hne, hout⟩
  · -- a root
    rw [hnone]
    refine ⟨_, delete_eq hstart, ⟨subtree_nodup hst hh, List.append_assoc .., ?_, rfl, rfl⟩, rfl⟩
    intro x
    have hroot : (s.heap h).bind NaryNode.parent ≠ some x := by
      rw [hn]
      intro hx
      exact nomatch hnone.symm.trans hx
    rw [if_neg hroot]
    by_cases hxh : x = h
    · rw [if_pos ((hmem x).mpr (.inr hxh)), hxh]
      exact Function.update_self _ _ _
    · refine (Function.update_of_ne hxh _ _).trans ?_
      rw [heap_dismantle, if_neg hxh]
      exact if_congr ((hmem x).trans (or_iff_left hxh)).symm rfl rfl
  · -- the child of another node
    have hpop := popAndDeleteChild_dismantle hst hh hn hfather hnf hpar hne hout hrep
    have hstart' : ((s.dismantle h m (t.under h).nodes).setNode father
        { nf with children := nf.children.erase h }).heap h = some { m with children := [] } := by
      rw [← hstart]
      exact Function.update_of_ne (Ne.symm hne) _ _
    rw [hpar]
    dsimp only
    rw [hpop, Option.bind_some]
    refine ⟨_, delete_eq hstart', ⟨subtree_nodup hst hh, List.append_assoc .., ?_, rfl, rfl⟩, rfl⟩
    intro x
    have hup : (s.heap h).bind NaryNode.parent = some x ↔ x = father := by
      rw [hn]
      exact ⟨fun hx => Option.some.inj (hx.symm.trans hpar), fun hx => hx ▸ hpar⟩
    by_cases hxh : x = h
    · rw [if_pos ((hmem x).mpr (.inr hxh)), hxh]
      exact Function.update_self _ _ _
    · refine (Function.update_of_ne hxh _ _).trans ?_
      by_cases hxf : x = father
      · have hnotmem : x ∉ subtree t h := fun hx => ((hmem x).mp hx).elim (hxf ▸ hout) hxh
        rw [if_neg hnotmem, if_pos (hup.mpr hxf), hxf, hnf]
        exact Function.update_self _ _ _
      · refine (Function.update_of_ne hxf _ _).trans ?_
        rw [heap_dismantle, if_neg hxh, if_neg fun hx => hxf (hup.mp hx)]
        exact if_congr ((hmem x).trans (or_iff_left hxh)).symm rfl rfl

/-- `ClearTree` of a node of a stored tree ends, and deletes its subtree. -/
theorem clearTree_spec (hst : Stores s.heap t) (hlt : ∀ p ∈ t.nodes, p < s.next) (hh : h ∈ t.nodes) :
    ∃ s', s.clearTree (some h) = some (s', .noError) ∧ Clears s s' t h ∧ s'.next = s.next := by
  obtain ⟨n, hn, hroots, hrep, -⟩ := hst.rep.under hst.nodup hh
  obtain ⟨s', hs', hclears, hnext⟩ := deleteStart_spec hst hh hn
  refine ⟨s', ?_, hclears, hnext⟩
  have hnd : (t.under h).nodes.Nodup := hst.nodup.sublist (Forest.nodes_under_sublist h t)
  have hnot := Forest.notMem_under_self hst.nodup hh
  -- two rounds for each node under the start node, and one for the start node
  have hlen : (subtree t h).length ≤ s.next :=
    length_le_of_lt (subtree_nodup hst hh) fun x hx => hlt x (subtree_subset hh x hx)
  rw [subtree, List.length_append, List.length_singleton] at hlen
  obtain ⟨rounds, hrounds⟩ : ∃ rounds, 2 * s.next = 2 * (t.under h).nodes.length + (rounds + 1) :=
    ⟨2 * s.next - 2 * (t.under h).nodes.length - 1, by omega⟩
  have hstart : (s.dismantle h n (t.under h).nodes).heap h = some { n with children := [] } := by
    rw [heap_dismantle, if_neg hnot, if_pos rfl]
  have hloop : clearLoop h (2 * s.next) s h = some s' := by
    rw [hrounds, clearLoop_forest hn hroots hrep hnd hnot hnot, clearLoop, popLastChild_empty hstart rfl,
      Option.bind_some]
    dsimp only
    rw [if_pos rfl, hs']
  unfold clearTree isNodeValid
  dsimp only
  rw [hn, Option.map_some, Option.bind_some]
  dsimp only
  rw [hloop]
  rfl

end Calls

/-! ## The records -/

/-- The tree holds the nodes that were put into it and are alive, and the others of them have been deleted once. -/
structure Ledger (s : NaryTreeKv κ δ) (t : Forest Nat) : Prop extends Stores s.heap t where
  fresh : ∀ p, s.next ≤ p → s.heap p = none
  attached_lt : ∀ p ∈ s.attached, p < s.next
  mem_iff : ∀ p, p ∈ t.nodes ↔ s.Valid p
  deleted_nodup : s.deleted.Nodup
  deleted_iff : ∀ p, p ∈ s.deleted ↔ p ∈ s.attached ∧ s.heap p = none

theorem Ledger.lt (hl : Ledger s t) (hp : p ∈ t.nodes) : p < s.next := hl.attached_lt p ((hl.mem_iff p).mp hp).1

theorem Ledger.ne_next (hl : Ledger s t) (hp : p ∈ t.nodes) : p ≠ s.next := Nat.ne_of_lt (hl.lt hp)

theorem ledger_create : Ledger (create : NaryTreeKv κ δ) .nil where
  rep := trivial
  nodup := .nil
  distinct _ hp := absurd hp List.not_mem_nil
  fresh _ _ := rfl
  attached_lt _ hp := absurd hp List.not_mem_nil
  mem_iff _ := iff_of_false List.not_mem_nil fun hv => List.not_mem_nil hv.1
  deleted_nodup := .nil
  deleted_iff _ := iff_of_false List.not_mem_nil fun hd => List.not_mem_nil hd.1

/-- When the tree is empty, every node that was ever in it has been deleted once. -/
theorem Ledger.all_deleted (hl : Ledger s .nil) : ∀ p ∈ s.attached, s.deleted.count p = 1 := by
  intro p hp
  refine List.count_eq_one_of_mem hl.deleted_nodup ((hl.deleted_iff p).mpr ⟨hp, ?_⟩)
  have hdead : ¬ s.Valid p := fun hv => List.not_mem_nil ((hl.mem_iff p).mpr hv)
  rw [Valid, and_iff_right hp, Option.isSome_iff_ne_none, not_not] at hdead
  exact hdead

/-- The links and the keys of the nodes decide. -/
theorem Stores.of_links (hst : Stores heap t) (hlinks : ∀ p ∈ t.nodes, ∀ n, heap p = some n →
    ∃ n', heap' p = some n' ∧ n'.parent = n.parent ∧ n'.children = n.children)
    (hkeys : ∀ p ∈ t.nodes, keyAt heap' p = keyAt heap p) : Stores heap' t := by
  refine ⟨hst.rep.of_links hlinks, hst.nodup, ?_⟩
  intro p hp n' hn'
  obtain ⟨n, hn⟩ := hst.rep.live hp
  obtain ⟨m, hm, -, hchildren⟩ := hlinks p hp n hn
  obtain rfl : m = n' := Option.some.inj (hm.symm.trans hn')
  have hsame : ∀ c ∈ m.children, keyAt heap' c = keyAt heap c := by
    intro c hc
    rw [hchildren] at hc
    exact hkeys c (hst.rep.child hp hn hc).1
  rw [List.map_congr_left hsame, hchildren]
  exact hst.distinct p hp n hn

/-- A call that changes nodes in place. -/
theorem Ledger.of_isSome (hl : Ledger s t) (hst : Stores s'.heap t)
    (hsome : ∀ p, (s'.heap p).isSome = (s.heap p).isSome) (hnext : s'.next = s.next)
    (hattached : s'.attached = s.attached) (hdeleted : s'.deleted = s.deleted) : Ledger s' t where
  toStores := hst
  fresh p hp := by
    have hnone := hl.fresh p (hnext ▸ hp)
    rw [← Option.isNone_iff_eq_none, ← Option.not_isSome, hsome, hnone]
    rfl
  attached_lt p hp := by
    rw [hnext]
    exact hl.attached_lt p (hattached ▸ hp)
  mem_iff p := by
    rw [hl.mem_iff, Valid, Valid, hattached, hsome]
  deleted_nodup := hdeleted ▸ hl.deleted_nodup
  deleted_iff p := by
    rw [hdeleted, hl.deleted_iff, hattached, ← Option.isNone_iff_eq_none, ← Option.isNone_iff_eq_none,
      ← Option.not_isSome, ← Option.not_isSome, hsome]

/-- A call that allocates a node, and perhaps puts it into the tree. -/
theorem Ledger.alloc {t' : Forest Nat} (hl : Ledger s t) (put : Prop) (hst : Stores s'.heap t')
    (hsome : ∀ p, (s'.heap p).isSome ↔ (s.heap p).isSome ∨ p = s.next) (hnext : s'.next = s.next + 1)
    (hattached : ∀ p, p ∈ s'.attached ↔ p ∈ s.attached ∨ (p = s.next ∧ put))
    (hmem : ∀ p, p ∈ t'.nodes ↔ p ∈ t.nodes ∨ (p = s.next ∧ put)) (hdeleted : s'.deleted = s.deleted) :
    Ledger s' t' where
  toStores := hst
  fresh p hp := by
    have hnone := hl.fresh p (by omega)
    have hdead : ¬ (s'.heap p).isSome := by
      rw [hsome, hnone]
      rintro (hlive | heq)
      · cases hlive
      · omega
    rwa [Option.isSome_iff_ne_none, not_not] at hdead
  attached_lt p hp := by
    rcases (hattached p).mp hp with hold | ⟨heq, -⟩
    · have hlt := hl.attached_lt p hold
      omega
    · omega
  mem_iff p := by
    rw [hmem, hl.mem_iff, Valid, Valid, hattached, hsome]
    constructor
    · rintro (⟨hold, hlive⟩ | ⟨heq, hput⟩)
      · exact ⟨.inl hold, .inl hlive⟩
      · exact ⟨.inr ⟨heq, hput⟩, .inr heq⟩
    · rintro ⟨hold | hnew, hlive⟩
      · have hlt := hl.attached_lt p hold
        exact .inl ⟨hold, hlive.resolve_right (Nat.ne_of_lt hlt)⟩
      · exact .inr hnew
  deleted_nodup := hdeleted ▸ hl.deleted_nodup
  deleted_iff p := by
    have hdead : s'.heap p = none ↔ ¬ ((s.heap p).isSome ∨ p = s.next) := by
      rw [← hsome, Option.isSome_iff_ne_none, not_not]
    rw [hdeleted, hl.deleted_iff, hattached, hdead, not_or, Option.isSome_iff_ne_none, not_not]
    constructor
    · rintro ⟨hold, hnone⟩
      exact ⟨.inl hold, hnone, Nat.ne_of_lt (hl.attached_lt p hold)⟩
    · rintro ⟨hold | ⟨heq, -⟩, hnone, hne⟩
      · exact ⟨hold, hnone⟩
      · exact absurd heq hne

theorem Clears.isSome_iff (hc : Clears s s' t h) : (s'.heap p).isSome ↔ p ∉ subtree t h ∧ (s.heap p).isSome := by
  rw [hc.heap_eq]
  split
  · rename_i hp
    exact iff_of_false nofun fun hnot => hnot.1 hp
  · rename_i hp
    rw [and_iff_right hp]
    split
    · rw [Option.isSome_map]
    · rfl

/-- `ClearTree` cuts the subtree out of the tree. -/
theorem Clears.ledger (hc : Clears s s' t h) (hl : Ledger s t) (hh : h ∈ t.nodes) (hnext : s'.next = s.next) :
    Ledger s' (t.remove h) := by
  have hmem : ∀ p, p ∈ (t.remove h).nodes ↔ p ∈ t.nodes ∧ p ∉ subtree t h := by
    intro p
    rw [Forest.mem_remove hl.nodup, subtree, List.mem_append, List.mem_singleton, not_or]
    exact and_congr_right fun _ => and_comm
  refine ⟨hl.toStores.remove ?_, ?_, ?_, ?_, ?_, ?_⟩
  · intro p hp
    obtain ⟨hpt, hout⟩ := (hmem p).mp hp
    obtain ⟨n, hn⟩ := hl.rep.live hpt
    have hnd := hl.toStores.children_nodup hpt hn
    rw [hc.heap_eq, if_neg hout, hn, Option.map_some, Option.map_some]
    split
    · rw [hnd.erase_eq_filter]
      congr 3
      funext c
      rw [bne, decide_not]
      rfl
    · rename_i hup
      have hnot : h ∉ n.children := fun hcn => hup ((hl.toStores.child_iff hpt hn hh).mp hcn)
      have hall : n.children.filter (fun c => c ≠ h) = n.children := by
        rw [List.filter_eq_self]
        intro c hcn
        exact decide_eq_true fun heq => hnot (heq ▸ hcn)
      rw [hall]
  · intro p hp
    have hdead : ¬ (s'.heap p).isSome := by
      rw [hc.isSome_iff, hl.fresh p (hnext ▸ hp)]
      exact fun hlive => nomatch hlive.2
    rwa [Option.isSome_iff_ne_none, not_not] at hdead
  · intro p hp
    rw [hnext]
    exact hl.attached_lt p (hc.attached_eq ▸ hp)
  · intro p
    rw [hmem, hl.mem_iff, Valid, Valid, hc.attached_eq, hc.isSome_iff]
    tauto
  · rw [hc.deleted_eq, List.nodup_append]
    refine ⟨hl.deleted_nodup, hc.once, ?_⟩
    rintro p hp q hq rfl
    obtain ⟨-, hnone⟩ := (hl.deleted_iff p).mp hp
    obtain ⟨n, hn⟩ := hl.rep.live (subtree_subset hh p hq)
    rw [hnone] at hn
    cases hn
  · intro p
    have hdead : s'.heap p = none ↔ ¬ (p ∉ subtree t h ∧ (s.heap p).isSome) := by
      rw [← hc.isSome_iff, Option.isSome_iff_ne_none, not_not]
    rw [hc.deleted_eq, List.mem_append, hl.deleted_iff, hc.attached_eq, hdead, Option.isSome_iff_ne_none]
    constructor
    · rintro (⟨hatt, hnone⟩ | hsub)
      · exact ⟨hatt, fun hlive => hlive.2 hnone⟩
      · exact ⟨((hl.mem_iff p).mp (subtree_subset hh p hsub)).1, fun hlive => hlive.1 hsub⟩
    · rintro ⟨hatt, hnot⟩
      by_cases hsub : p ∈ subtree t h
      · exact .inr hsub
      · by_cases hnone : s.heap p = none
        · exact .inl ⟨hatt, hnone⟩
        · exact absurd ⟨hsub, hnone⟩ hnot

end BofStd.NaryTreeKv
