import BofStd.Proofs.NaryTreeKvProofs

/-!
# Runs of calls on a keyed tree

The invariant is the ledger of the tree and that `mpRoot` is its root. Every call on valid handles keeps it, but for
`ClearTree` of the root: it leaves `mpRoot` at the deleted node, and the destructor then touches this node.
-/

namespace BofStd.NaryTreeKv

variable {κ δ : Type*} {s s' : NaryTreeKv κ δ} {heap heap' : Nat → Option (NaryNode κ δ)} {f t : Forest Nat}
  {parent : Option Nat} {p q a h r : Nat} {n m : NaryNode κ δ} {key : κ} {value : δ}

theorem heap_setNode_self : (s.setNode p n).heap p = some n := Function.update_self p _ _

theorem heap_setNode_of_ne (hq : q ≠ p) : (s.setNode p n).heap q = s.heap q := Function.update_of_ne hq _ _

theorem heap_newNode_self : (s.newNode key value).heap s.next = some ⟨key, value, none, []⟩ :=
  Function.update_self s.next _ _

theorem heap_newNode_of_ne (hq : q ≠ s.next) : (s.newNode key value).heap q = s.heap q := Function.update_of_ne hq _ _

theorem isSome_newNode : ((s.newNode key value).heap q).isSome ↔ (s.heap q).isSome ∨ q = s.next := by
  by_cases hq : q = s.next
  · rw [hq, heap_newNode_self]
    exact iff_of_true rfl (.inr rfl)
  · rw [heap_newNode_of_ne hq, or_iff_left hq]

theorem isSome_setNode (hn : s.heap p = some n) : ((s.setNode p m).heap q).isSome = (s.heap q).isSome := by
  by_cases hq : q = p
  · rw [hq, heap_setNode_self, hn]
    rfl
  · rw [heap_setNode_of_ne hq]

theorem isNodeValid_of_heap (hn : s.heap p = some n) : s.isNodeValid (some p) = some true := by
  rw [isNodeValid, hn, Option.map_some]

/-- A new child `a` behind the children of `p`. -/
theorem Rep.insert (hrep : Rep heap parent f) (ha : heap' a = some m) (hparent : m.parent = some p)
    (hchildren : m.children = []) (hp : heap' p = (heap p).map fun n => { n with children := n.children ++ [a] })
    (hother : ∀ q ∈ f.nodes, q ≠ p → heap' q = heap q) : Rep heap' parent (f.insert p a) := by
  induction f generalizing parent with
  | nil => trivial
  | snoc front b sub ihf ihs =>
    obtain ⟨hfront, ⟨n, hn, hup, hroots⟩, hsub⟩ := hrep
    have hfront' : Rep heap' parent (front.insert p a) := by
      apply ihf hfront
      intro q hq
      exact hother q (Forest.mem_nodes_snoc.mpr (.inr (.inr hq)))
    have hsub' : Rep heap' (some b) (sub.insert p a) := by
      apply ihs hsub
      intro q hq
      exact hother q (Forest.mem_nodes_snoc.mpr (.inl hq))
    rw [Forest.insert_snoc]
    by_cases hbp : b = p
    · subst hbp
      rw [if_pos rfl]
      refine ⟨hfront', ⟨{ n with children := n.children ++ [a] }, ?_, hup, ?_⟩, hsub', ⟨m, ha, hparent, hchildren⟩,
        trivial⟩
      · rw [hp, hn]
        rfl
      · rw [Forest.roots_snoc, Forest.roots_insert, hroots]
    · rw [if_neg hbp]
      refine ⟨hfront', ⟨n, ?_, hup, ?_⟩, hsub'⟩
      · rw [hother b (Forest.mem_nodes_snoc.mpr (.inr (.inl rfl))) hbp, hn]
      · rw [Forest.roots_insert, hroots]

/-- A stored tree with one more child, whose key is none of those of its siblings. -/
theorem Stores.insert (hst : Stores heap t) (hp : p ∈ t.nodes) (hn : heap p = some n) (hfresh : a ∉ t.nodes)
    (ha : heap' a = some m) (hparent : m.parent = some p) (hchildren : m.children = [])
    (hp' : heap' p = some { n with children := n.children ++ [a] })
    (hother : ∀ q ∈ t.nodes, q ≠ p → heap' q = heap q) (hkey : some m.key ∉ n.children.map (keyAt heap)) :
    Stores heap' (t.insert p a) := by
  have hperm := Forest.perm_insert (a := a) hst.nodup hp
  have hkeys : ∀ c ∈ t.nodes, keyAt heap' c = keyAt heap c := by
    intro c hc
    unfold keyAt
    by_cases hcp : c = p
    · rw [hcp, hp', hn]
      rfl
    · rw [hother c hc hcp]
  refine ⟨?_, ?_, ?_⟩
  · refine hst.rep.insert ha hparent hchildren ?_ hother
    rw [hp', hn]
    rfl
  · rw [hperm.nodup_iff, List.nodup_cons]
    exact ⟨hfresh, hst.nodup⟩
  · intro q hq nq hnq
    rcases List.mem_cons.mp (hperm.mem_iff.mp hq) with rfl | hq
    · -- the new child
      obtain rfl : m = nq := Option.some.inj (ha.symm.trans hnq)
      rw [hchildren]
      exact .nil
    · by_cases hqp : q = p
      · -- its parent
        subst hqp
        obtain rfl : { n with children := n.children ++ [a] } = nq := Option.some.inj (hp'.symm.trans hnq)
        have hold : n.children.map (keyAt heap') = n.children.map (keyAt heap) := by
          apply List.map_congr_left
          intro c hc
          exact hkeys c (hst.rep.child hp hn hc).1
        have hnew : keyAt heap' a = some m.key := by
          rw [keyAt, ha]
          rfl
        rw [List.map_append, hold, List.map_singleton, hnew, List.nodup_append]
        refine ⟨hst.distinct q hp n hn, List.nodup_singleton _, ?_⟩
        intro x hx y hy hxy
        rw [hxy, List.mem_singleton.mp hy] at hx
        exact hkey hx
      · rw [hother q hq hqp] at hnq
        have hold : nq.children.map (keyAt heap') = nq.children.map (keyAt heap) := by
          apply List.map_congr_left
          intro c hc
          exact hkeys c (hst.rep.child hq hnq hc).1
        rw [hold]
        exact hst.distinct q hq nq hnq

/-- A node gets a key that none of the children of its parent has. -/
theorem Stores.setKey (hst : Stores heap t) (hh : h ∈ t.nodes) (hn : heap h = some n)
    (hh' : heap' h = some { n with key := key }) (hother : ∀ q, q ≠ h → heap' q = heap q)
    (hkey : ∀ q nq, n.parent = some q → heap q = some nq → some key ∉ nq.children.map (keyAt heap)) :
    Stores heap' t := by
  refine ⟨?_, hst.nodup, ?_⟩
  · apply hst.rep.of_links
    intro q _ nq hnq
    by_cases hqh : q = h
    · subst hqh
      obtain rfl : n = nq := Option.some.inj (hn.symm.trans hnq)
      exact ⟨_, hh', rfl, rfl⟩
    · exact ⟨nq, (hother q hqh).trans hnq, rfl, rfl⟩
  · intro q hq nq' hnq'
    obtain ⟨nq, hnq, hchildren⟩ : ∃ nq, heap q = some nq ∧ nq'.children = nq.children := by
      by_cases hqh : q = h
      · subst hqh
        obtain rfl := Option.some.inj (hh'.symm.trans hnq')
        exact ⟨n, hn, rfl⟩
      · exact ⟨nq', (hother q hqh).symm.trans hnq', rfl⟩
    have hdistinct := hst.distinct q hq nq hnq
    have hsame : ∀ c, c ≠ h → keyAt heap' c = keyAt heap c := by
      intro c hc
      rw [keyAt, hother c hc]
      rfl
    rw [hchildren]
    by_cases hmem : h ∈ nq.children
    · -- the siblings of the node keep their keys, and the new one is none of them
      have hup : n.parent = some q := by
        have hbind := (hst.child_iff hq hnq hh).mp hmem
        rw [hn] at hbind
        exact hbind
      have hnot := hkey q nq hup hnq
      have hnew : keyAt heap' h = some key := by
        rw [keyAt, hh']
        rfl
      have hne : ∀ c ∈ nq.children, keyAt heap c ≠ some key := by
        intro c hc heq
        rw [← heq] at hnot
        exact hnot (List.mem_map_of_mem hc)
      refine List.Nodup.map_on ?_ (hst.children_nodup hq hnq)
      intro c hc d hd heq
      by_cases hch : c = h
      · by_cases hdh : d = h
        · rw [hch, hdh]
        · rw [hch, hnew, hsame d hdh] at heq
          exact absurd heq.symm (hne d hd)
      · by_cases hdh : d = h
        · rw [hdh, hnew, hsame c hch] at heq
          exact absurd heq (hne c hc)
        · rw [hsame c hch, hsame d hdh] at heq
          exact List.inj_on_of_nodup_map hdistinct hc hd heq
    · have hold : nq.children.map (keyAt heap') = nq.children.map (keyAt heap) := by
        apply List.map_congr_left
        intro c hc
        exact hsame c fun hch => hmem (hch ▸ hc)
      rw [hold]
      exact hdistinct

/-! ## The calls -/

/-- The invariant. -/
structure Inv (s : NaryTreeKv κ δ) (t : Forest Nat) : Prop extends Ledger s t where
  roots_eq : t.roots = s.mpRoot.toList

theorem inv_create : Inv (create : NaryTreeKv κ δ) .nil where
  toLedger := ledger_create
  roots_eq := rfl

theorem Inv.isTree (hinv : Inv s t) : IsTree s t := ⟨hinv.toStores, hinv.roots_eq⟩

theorem Inv.root_mem (hinv : Inv s t) (hr : s.mpRoot = some r) : r ∈ t.nodes := by
  apply Forest.roots_subset_nodes
  rw [hinv.roots_eq, hr]
  exact List.mem_singleton.mpr rfl

theorem Inv.eq_nil (hinv : Inv s t) (hr : s.mpRoot = none) : t = .nil := by
  apply Forest.eq_nil_of_roots
  rw [hinv.roots_eq, hr]
  rfl

section Calls

theorem setValue_spec (hinv : Inv s t) (hh : h ∈ t.nodes) (value : δ) :
    ∃ s', s.setValue h value = some (s', .noError) ∧ Inv s' t := by
  obtain ⟨n, hn⟩ := hinv.rep.live hh
  rw [setValue, isNodeValid_of_heap hn, Option.bind_some, if_pos rfl, hn, Option.map_some]
  refine ⟨_, rfl, hinv.toLedger.of_isSome ?_ (fun _ => isSome_setNode hn) rfl rfl rfl, hinv.roots_eq⟩
  have hsame : ∀ q nq, s.heap q = some nq → ∃ nq', (s.setNode h { n with value := value }).heap q = some nq' ∧
      nq'.key = nq.key ∧ nq'.parent = nq.parent ∧ nq'.children = nq.children := by
    intro q nq hnq
    by_cases hqh : q = h
    · subst hqh
      obtain rfl := Option.some.inj (hn.symm.trans hnq)
      exact ⟨_, heap_setNode_self, rfl, rfl, rfl⟩
    · exact ⟨nq, (heap_setNode_of_ne hqh).trans hnq, rfl, rfl, rfl⟩
  refine hinv.toStores.of_links ?_ ?_
  · intro q _ nq hnq
    obtain ⟨nq', hnq', -, hup, hchildren⟩ := hsame q nq hnq
    exact ⟨nq', hnq', hup, hchildren⟩
  · intro q hq
    obtain ⟨nq, hnq⟩ := hinv.rep.live hq
    obtain ⟨nq', hnq', hkey, -⟩ := hsame q nq hnq
    rw [keyAt, keyAt, hnq', hnq, Option.map_some, Option.map_some, hkey]

variable [DecidableEq κ]

/-- `ClearTree` of the root deletes every node. -/
theorem Inv.clearRoot (hinv : Inv s t) (hr : s.mpRoot = some r) :
    ∃ s', s.clearTree (some r) = some (s', .noError) ∧ Clears s s' t r ∧ Ledger s' .nil ∧ s'.next = s.next := by
  have hmem := hinv.root_mem hr
  obtain ⟨s', hs', hclears, hnext⟩ := clearTree_spec hinv.toStores (fun _ hp => hinv.lt hp) hmem
  have hl := hclears.ledger hinv.toLedger hmem hnext
  have hnil : t.remove r = .nil := by
    apply Forest.eq_nil_of_roots
    rw [Forest.roots_remove, hinv.roots_eq, hr, Option.toList_some, List.filter_eq_nil_iff]
    intro q hq hne
    exact of_decide_eq_true hne (List.mem_singleton.mp hq)
  rw [hnil] at hl
  exact ⟨s', hs', hclears, hl, hnext⟩

theorem setRoot_spec (hinv : Inv s t) (key : κ) (value : δ) :
    ∃ s', s.setRoot key value = some (s', s.next) ∧ Inv s' (.snoc .nil s.next .nil) := by
  -- the old tree is gone
  obtain ⟨s₀, hs₀, hl, hnext⟩ : ∃ s₀, (if s.mpRoot = none then some s else (s.clearTree s.mpRoot).map Prod.fst) =
      some s₀ ∧ Ledger s₀ .nil ∧ s₀.next = s.next := by
    cases hr : s.mpRoot with
    | none =>
      rw [if_pos rfl]
      exact ⟨s, rfl, hinv.eq_nil hr ▸ hinv.toLedger, rfl⟩
    | some r =>
      obtain ⟨s₀, hs₀, -, hl, hnext⟩ := hinv.clearRoot hr
      rw [if_neg nofun, hs₀]
      exact ⟨s₀, rfl, hl, hnext⟩
  rw [setRoot, hs₀, Option.map_some, ← hnext]
  refine ⟨_, rfl, ?_, rfl⟩
  have hroot : (s₀.newNode key value).heap s₀.next = some ⟨key, value, none, []⟩ := heap_newNode_self
  refine hl.alloc True ⟨⟨trivial, ⟨_, hroot, rfl, rfl⟩, trivial⟩, List.nodup_singleton _, ?_⟩
    (fun _ => isSome_newNode) rfl ?_ ?_ rfl
  · intro p hp n hn
    rw [List.mem_singleton.mp hp] at hn
    obtain rfl := Option.some.inj (hroot.symm.trans hn)
    exact .nil
  · intro p
    rw [and_true, List.mem_append, List.mem_singleton]
  · intro p
    rw [and_true, Forest.mem_nodes_snoc]
    tauto

theorem addChild_spec (hinv : Inv s t) (hp : p ∈ t.nodes) (key : κ) (value : δ) :
    ∃ s' err handle, s.addChild p key value = some (s', err, handle) ∧
      Inv s' (if err = .noError then t.insert p s.next else t) ∧
      (err = .duplicate → s'.mpRoot = s.mpRoot ∧ ∀ q ∈ t.nodes, s'.heap q = s.heap q) := by
  obtain ⟨n, hn⟩ := hinv.rep.live hp
  have hsame : ∀ q ∈ t.nodes, (s.newNode key value).heap q = s.heap q := fun q hq =>
    heap_newNode_of_ne (hinv.ne_next hq)
  have hfresh : s.next ∉ t.nodes := fun hmem => hinv.ne_next hmem rfl
  have hlive : ∀ c ∈ n.children, ∃ nc, (s.newNode key value).heap c = some nc := by
    intro c hc
    rw [hsame c (hinv.rep.child hp hn hc).1]
    exact hinv.toStores.children_live hp hn c hc
  have hkeys : n.children.map (keyAt (s.newNode key value).heap) = n.children.map (keyAt s.heap) := by
    apply List.map_congr_left
    intro c hc
    rw [keyAt, hsame c (hinv.rep.child hp hn hc).1]
    rfl
  have hchild : (s.newNode key value).heap s.next = some ⟨key, value, none, []⟩ := heap_newNode_self
  rw [addChild, isNodeValid_of_heap hn, Option.bind_some, if_pos rfl, nodeAddChild, hsame p hp, hn, Option.bind_some,
    hchild, Option.bind_some, hasKey_eq hlive, hkeys, Option.map_some, Option.map_some]
  by_cases hdup : some key ∈ n.children.map (keyAt s.heap)
  · -- the child is refused
    rw [decide_eq_true hdup, if_pos rfl, if_neg (by rintro ⟨⟩)]
    refine ⟨_, _, _, rfl, ⟨?_, hinv.roots_eq⟩, fun _ => ⟨rfl, hsame⟩⟩
    rw [if_neg (by rintro ⟨⟩)]
    refine hinv.toLedger.alloc False ?_ (fun _ => isSome_newNode) rfl ?_ ?_ rfl
    · refine hinv.toStores.of_links ?_ ?_
      · intro q hq nq hnq
        exact ⟨nq, (hsame q hq).trans hnq, rfl, rfl⟩
      · intro q hq
        rw [keyAt, hsame q hq]
        rfl
    · intro q
      rw [and_false, or_false]
      rfl
    · intro q
      rw [and_false, or_false]
  · -- it goes behind its siblings
    rw [decide_eq_false hdup, if_neg Bool.false_ne_true, if_pos rfl]
    refine ⟨_, _, _, rfl, ?_, by rintro ⟨⟩⟩
    rw [if_pos rfl]
    have hpnext : s.next ≠ p := fun hne => hinv.ne_next hp hne.symm
    have hchild' : ((s.newNode key value).setNode s.next ⟨key, value, some p, []⟩).heap s.next =
        some ⟨key, value, some p, []⟩ := heap_setNode_self
    have hp' : ((s.newNode key value).setNode s.next ⟨key, value, some p, []⟩).heap p = some n := by
      rw [heap_setNode_of_ne hpnext.symm, hsame p hp, hn]
    refine ⟨hinv.toLedger.alloc True (hinv.toStores.insert hp hn hfresh
      ((heap_setNode_of_ne hpnext).trans hchild') rfl rfl heap_setNode_self ?_ hdup) ?_ rfl ?_ ?_ rfl, ?_⟩
    · intro q hq hqp
      exact (heap_setNode_of_ne hqp).trans ((heap_setNode_of_ne (hinv.ne_next hq)).trans (hsame q hq))
    · intro q
      exact (Bool.eq_iff_iff.mp (isSome_setNode hp')).trans
        ((Bool.eq_iff_iff.mp (isSome_setNode hchild)).trans isSome_newNode)
    · intro q
      rw [and_true]
      exact List.mem_append.trans (or_congr_right List.mem_singleton)
    · intro q
      rw [and_true, (Forest.perm_insert hinv.nodup hp).mem_iff, List.mem_cons]
      exact or_comm
    · rw [Forest.roots_insert]
      exact hinv.roots_eq

theorem setKey_spec (hinv : Inv s t) (hh : h ∈ t.nodes) (key : κ) :
    ∃ s' err, s.setKey h key = some (s', err) ∧ Inv s' t ∧
      (err = .duplicate → s'.mpRoot = s.mpRoot ∧ ∀ q ∈ t.nodes, s'.heap q = s.heap q) := by
  obtain ⟨n, hn, -, -, hplace⟩ := hinv.rep.under hinv.nodup hh
  obtain ⟨nf, hfather, hnf⟩ : ∃ nf, n.parent.getD h ∈ t.nodes ∧ s.heap (n.parent.getD h) = some nf := by
    rcases hplace with ⟨-, hup⟩ | ⟨q, nq, hq, hnq, -, hup, -⟩
    · rw [hup]
      exact ⟨n, hh, hn⟩
    · rw [hup]
      exact ⟨nq, hq, hnq⟩
  rw [setKey, isNodeValid_of_heap hn, Option.bind_some, if_pos rfl, nodeSetKey, hn, Option.bind_some, hnf,
    Option.bind_some, hasKey_eq (hinv.toStores.children_live hfather hnf), Option.map_some]
  by_cases hdup : some key ∈ nf.children.map (keyAt s.heap)
  · rw [decide_eq_true hdup, if_pos rfl]
    exact ⟨s, _, rfl, hinv, fun _ => ⟨rfl, fun _ _ => rfl⟩⟩
  · rw [decide_eq_false hdup, if_neg Bool.false_ne_true]
    refine ⟨_, _, rfl, ⟨hinv.toLedger.of_isSome ?_ (fun _ => isSome_setNode hn) rfl rfl rfl, hinv.roots_eq⟩, nofun⟩
    refine hinv.toStores.setKey hh hn heap_setNode_self (fun _ hq => heap_setNode_of_ne hq) ?_
    intro q nq hup hnq
    rw [hup, Option.getD_some, hnq] at hnf
    obtain rfl := Option.some.inj hnf
    exact hdup

/-- One call on valid handles that is no `ClearTree` of the root. -/
theorem call_spec {op : Op κ δ} (hinv : Inv s t) (hlegal : Legal s op) (hkeep : KeepsRoot s op) :
    ∃ s' err handle, s.call op = some (s', err, handle) ∧ Inv s' (treeAfter s t op err) ∧
      (err = .duplicate → s'.mpRoot = s.mpRoot ∧ ∀ p ∈ t.nodes, s'.heap p = s.heap p) ∧
      ∀ h, op = .clearTree h → err = .noError ∧ Clears s s' t h := by
  have hmem : ∀ h, op.handle? = some h → h ∈ t.nodes := fun h hop => (hinv.mem_iff h).mpr (hlegal h hop)
  cases op with
  | setRoot key value =>
    obtain ⟨s', hs', hinv'⟩ := setRoot_spec hinv key value
    exact ⟨s', .noError, some s.next, by rw [call, hs', Option.map_some], hinv', nofun, nofun⟩
  | addChild p key value =>
    obtain ⟨s', err, handle, hs', hinv', hdup⟩ := addChild_spec hinv (hmem p rfl) key value
    exact ⟨s', err, handle, hs', hinv', hdup, nofun⟩
  | setKey h key =>
    obtain ⟨s', err, hs', hinv', hdup⟩ := setKey_spec hinv (hmem h rfl) key
    exact ⟨s', err, none, by rw [call, hs', Option.map_some], hinv', hdup, nofun⟩
  | setValue h value =>
    obtain ⟨s', hs', hinv'⟩ := setValue_spec hinv (hmem h rfl) value
    exact ⟨s', .noError, none, by rw [call, hs', Option.map_some], hinv', nofun, nofun⟩
  | clearTree h =>
    obtain ⟨s', hs', hclears, hnext⟩ := clearTree_spec hinv.toStores (fun _ hp => hinv.lt hp) (hmem h rfl)
    refine ⟨s', .noError, none, by rw [call, hs', Option.map_some],
      ⟨hclears.ledger hinv.toLedger (hmem h rfl) hnext, ?_⟩, nofun, ?_⟩
    · rw [treeAfter, Forest.roots_remove, hinv.roots_eq, hclears.mpRoot_eq, List.filter_eq_self]
      intro r hr
      apply decide_eq_true
      rintro rfl
      exact hkeep (Option.mem_toList.mp hr)
    · intro h' heq
      obtain rfl := Op.clearTree.inj heq
      exact ⟨rfl, hclears⟩

theorem Inv.conforms {op : Op κ δ} (hinv : Inv s t) (hlegal : Legal s op) (hkeep : KeepsRoot s op) :
    Conforms s t op := by
  obtain ⟨s', err, handle, hs', hinv', hrest⟩ := call_spec hinv hlegal hkeep
  exact ⟨s', err, handle, hs', hinv'.isTree, hrest⟩

theorem Inv.step {op : Op κ δ} (hinv : ∃ t, Inv s t) (hlegal : Legal s op) (hkeep : KeepsRoot s op) :
    ∃ t, Inv (NaryTreeKv.step s op).1 t := by
  obtain ⟨t, hinv⟩ := hinv
  obtain ⟨s', err, handle, hs', hinv', -⟩ := call_spec hinv hlegal hkeep
  rw [NaryTreeKv.step, hs']
  exact ⟨_, hinv'⟩

/-- As long as the calls are given valid handles and the root is not cleared, the nodes are a keyed tree, and the next
call does to this tree what it is there for. -/
theorem isTree_run (ops : List (Op κ δ))
    (hlegal : Machine.Meets step (fun s op => Legal s op ∧ KeepsRoot s op) create ops) :
    ∃ t, IsTree (Machine.run step create ops).1 t ∧
      ∀ op, Legal (Machine.run step create ops).1 op → KeepsRoot (Machine.run step create ops).1 op →
        Conforms (Machine.run step create ops).1 t op := by
  obtain ⟨t, hinv⟩ := Machine.inv_run (P := fun s : NaryTreeKv κ δ => ∃ t, Inv s t)
    (fun s op hinv hop => Inv.step hinv hop.1 hop.2) ⟨.nil, inv_create⟩ hlegal
  exact ⟨t, hinv.isTree, fun op hop hkeep => hinv.conforms hop hkeep⟩

/-- A child that is refused, a child of a child, and a subtree that is cleared. -/
theorem isTree_run_cleared :
    let s := (Machine.run step (create : NaryTreeKv Nat Nat)
      [.setRoot 0 0, .addChild 0 1 1, .addChild 0 1 2, .addChild 1 3 3, .clearTree 1]).1
    ∃ t, IsTree s t ∧ ∀ op, Legal s op → KeepsRoot s op → Conforms s t op :=
  isTree_run _ (by decide)

/-! ## The deletions -/

theorem Inv.safe (hinv : ∃ t, Inv s t) : Safe s := by
  obtain ⟨t, hinv⟩ := hinv
  constructor
  · intro r hr
    exact ((hinv.mem_iff r).mp (hinv.root_mem hr)).2
  · cases hr : s.mpRoot with
    | none =>
      refine ⟨s, ?_, (hinv.eq_nil hr ▸ hinv.toLedger).all_deleted⟩
      rw [destroy, hr]
      rfl
    | some r =>
      obtain ⟨s', hs', hclears, hl, -⟩ := hinv.clearRoot hr
      refine ⟨s', ?_, hclears.attached_eq ▸ hl.all_deleted⟩
      rw [destroy, hr, hs']
      rfl

/-- `ClearTree` of the root leaves `mpRoot` at a deleted node. -/
theorem Inv.keepsRoot {op : Op κ δ} (hinv : ∃ t, Inv s t) (hsafe : Safe (NaryTreeKv.step s op).1) :
    KeepsRoot s op := by
  obtain ⟨t, hinv⟩ := hinv
  cases op with
  | clearTree h =>
    intro hr
    obtain ⟨s', hs', hclears, -⟩ := hinv.clearRoot hr
    have hstep : (NaryTreeKv.step s (.clearTree h)).1 = s' := by
      rw [NaryTreeKv.step, call, hs']
      rfl
    rw [hstep] at hsafe
    have hlive := hsafe.root_live h (hclears.mpRoot_eq.trans hr)
    rw [hclears.isSome_iff] at hlive
    exact hlive.1 (List.mem_append_right _ (List.mem_singleton.mpr rfl))
  | setRoot _ _ => trivial
  | addChild _ _ _ => trivial
  | setKey _ _ => trivial
  | setValue _ _ => trivial

/-- A run of calls on valid handles touches no deleted node, and each node is deleted once in the end, exactly if no
call of it clears the root. -/
theorem neverTouchesDeleted_iff (ops : List (Op κ δ)) (hlegal : Machine.Meets step Legal create ops) :
    NeverTouchesDeleted ops ↔ Machine.Meets step KeepsRoot create ops := by
  have hinit : ∃ t, Inv (create : NaryTreeKv κ δ) t := ⟨.nil, inv_create⟩
  have hsafe := Machine.forall_prefix_iff_meets_of_inv (Q := Safe) (fun s : NaryTreeKv κ δ => Inv.safe)
    (fun s op hinv hop hkeep => Inv.step hinv hop hkeep) (fun s op hinv _ hq => Inv.keepsRoot hinv hq) hinit hlegal
  rw [NeverTouchesDeleted, hsafe, and_iff_right_iff_imp]
  intro hkeep
  refine Machine.Meets.imp_of_inv (P := fun s : NaryTreeKv κ δ => ∃ t, Inv s t) ?_ ?_ hinit
    (Machine.meets_inter hlegal hkeep)
  · rintro s op ⟨t, hinv⟩ ⟨hop, hkeep⟩
    obtain ⟨s', err, handle, hs', -⟩ := call_spec hinv hop hkeep
    rw [hs']
    exact Option.some_ne_none _
  · intro s op hinv hop
    exact Inv.step hinv hop.1 hop.2

/-- A root with a child, which is cleared. -/
theorem neverTouchesDeleted_iff_child :
    NeverTouchesDeleted [.setRoot 0 0, .addChild 0 1 1, .clearTree 1] ↔
      Machine.Meets step KeepsRoot (create : NaryTreeKv Nat Nat) [.setRoot 0 0, .addChild 0 1 1, .clearTree 1] :=
  neverTouchesDeleted_iff _ (by decide)

/-- A root that is cleared: the destructor deletes it again. -/
theorem not_neverTouchesDeleted_root :
    Machine.Meets step Legal (create : NaryTreeKv Nat Nat) [.setRoot 0 0, .clearTree 0] ∧
      ¬ NeverTouchesDeleted ([.setRoot 0 0, .clearTree 0] : List (Op Nat Nat)) := by
  refine ⟨by decide, ?_⟩
  rintro ⟨-, hsafe⟩
  have hlive := (hsafe _ (List.prefix_refl _)).root_live 0 rfl
  exact absurd hlive (by decide)

end Calls

end BofStd.NaryTreeKv
