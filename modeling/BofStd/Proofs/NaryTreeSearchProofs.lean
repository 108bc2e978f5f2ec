import BofStd.Proofs.NaryTreeRunProofs

/-!
# The search for a path of keys

The children of a node have distinct keys, so that a key names one child at most, and the keys behind the first lead to
one node at most. `Search` follows them, but hands out the node it is at before it goes down: the parent of the node
at the end of the path, and nothing if the path is the start node alone.
-/

namespace BofStd.NaryTreeKv

variable {κ δ : Type*} {s : NaryTreeKv κ δ} {heap : Nat → Option (NaryNode κ δ)} {t : Forest Nat} {p c q start : Nat}
  {n : NaryNode κ δ} {key : κ} {keys : List κ} {nodeHandle : Option Nat}

theorem Leads.cons_iff (hn : heap p = some n) : Leads heap p (key :: keys) q ↔
    ∃ c ∈ n.children, keyAt heap c = some key ∧ Leads heap c keys q := by
  constructor
  · intro hleads
    cases hleads with
    | child hnode hmem hkey hrest =>
      obtain rfl := Option.some.inj (hn.symm.trans hnode)
      exact ⟨_, hmem, hkey, hrest⟩
  · rintro ⟨c, hmem, hkey, hrest⟩
    exact .child hn hmem hkey hrest

theorem Leads.nil_iff : Leads heap p [] q ↔ q = p := by
  constructor
  · intro hleads
    cases hleads
    rfl
  · rintro rfl
    exact .here

/-- A key names one child of a node at most. -/
theorem Stores.child_unique (hst : Stores heap t) (hp : p ∈ t.nodes) (hn : heap p = some n) (hc : c ∈ n.children)
    (hq : q ∈ n.children) (hkey : keyAt heap c = keyAt heap q) : c = q :=
  List.inj_on_of_nodup_map (hst.distinct p hp n hn) hc hq hkey

/-- A node is not its own child. -/
theorem Stores.child_ne (hst : Stores heap t) (hp : p ∈ t.nodes) (hn : heap p = some n) (hc : c ∈ n.children) :
    c ≠ p := by
  rintro rfl
  obtain ⟨m, hm, hroots, -⟩ := hst.rep.under hst.nodup hp
  obtain rfl : m = n := Option.some.inj (hm.symm.trans hn)
  rw [hroots] at hc
  exact Forest.notMem_under_self hst.nodup hp (Forest.roots_subset_nodes hc)

section Calls

variable [DecidableEq κ]

/-- The child that the loop finds has the key, and it finds one if there is one. -/
theorem findChild_spec (key : κ) (cs : List Nat) (hlive : ∀ c ∈ cs, ∃ nc, heap c = some nc) :
    ∃ found, findChild heap key cs = some found ∧ (∀ c ∈ found, c ∈ cs ∧ keyAt heap c = some key) ∧
      (found = none → ∀ c ∈ cs, keyAt heap c ≠ some key) := by
  induction cs with
  | nil => exact ⟨none, rfl, by simp, fun _ _ hc => absurd hc List.not_mem_nil⟩
  | cons c cs ih =>
    obtain ⟨nc, hnc⟩ := hlive c List.mem_cons_self
    have hkeyc : keyAt heap c = some nc.key := by rw [keyAt, hnc, Option.map_some]
    rw [findChild, hnc, Option.bind_some]
    by_cases hk : key = nc.key
    · rw [if_pos hk]
      refine ⟨some c, rfl, ?_, by rintro ⟨⟩⟩
      intro d hd
      obtain rfl := Option.mem_some.mp hd
      exact ⟨List.mem_cons_self, hk ▸ hkeyc⟩
    · rw [if_neg hk]
      obtain ⟨found, hfound, hmem, hnone⟩ := ih fun d hd => hlive d (List.mem_cons_of_mem c hd)
      refine ⟨found, hfound, ?_, ?_⟩
      · intro d hd
        exact ⟨List.mem_cons_of_mem c (hmem d hd).1, (hmem d hd).2⟩
      · intro hno d hd
        rcases List.mem_cons.mp hd with rfl | hd
        · rw [hkeyc]
          exact fun heq => hk (Option.some.inj heq).symm
        · exact hnone hno d hd

theorem findChild_eq_some_iff (hst : Stores heap t) (hp : p ∈ t.nodes) (hn : heap p = some n) :
    findChild heap key n.children = some (some c) ↔ c ∈ n.children ∧ keyAt heap c = some key := by
  obtain ⟨found, hfound, hsome, hnone⟩ := findChild_spec key n.children (hst.children_live hp hn)
  rw [hfound, Option.some.injEq]
  constructor
  · intro hc
    exact hsome c (Option.mem_def.mpr hc)
  · rintro ⟨hmem, hkey⟩
    cases found with
    | none => exact absurd hkey (hnone rfl c hmem)
    | some d =>
      obtain ⟨hd, hkeyd⟩ := hsome d rfl
      rw [hst.child_unique hp hn hd hmem (hkeyd.trans hkey.symm)]

theorem findChild_eq_none_iff (hst : Stores heap t) (hp : p ∈ t.nodes) (hn : heap p = some n) :
    findChild heap key n.children = some none ↔ ∀ c ∈ n.children, keyAt heap c ≠ some key := by
  obtain ⟨found, hfound, hsome, hnone⟩ := findChild_spec key n.children (hst.children_live hp hn)
  rw [hfound, Option.some.injEq]
  constructor
  · exact hnone
  · intro hno
    cases found with
    | none => rfl
    | some d => exact absurd (hsome d rfl).2 (hno d (hsome d rfl).1)

/-- The calls of `GetNodeHandle` one after the other reach the node at the end of a path. -/
theorem getNodeHandles_eq_some_iff (hst : Stores s.heap t) (hp : p ∈ t.nodes) :
    s.getNodeHandles p keys = some q ↔ Leads s.heap p keys q := by
  induction keys generalizing p with
  | nil =>
    rw [getNodeHandles, Option.some.injEq, Leads.nil_iff]
    exact eq_comm
  | cons key keys ih =>
    obtain ⟨n, hn⟩ := hst.rep.live hp
    rw [getNodeHandles, getNodeHandle, isNodeValid_of_heap hn, Option.bind_some, Leads.cons_iff hn]
    simp only [hn, Option.bind_some]
    obtain ⟨found, hfound, -⟩ := findChild_spec key n.children (hst.children_live hp hn)
    cases found with
    | none =>
      have hno := (findChild_eq_none_iff hst hp hn).mp hfound
      rw [hfound]
      refine iff_of_false nofun ?_
      rintro ⟨c, hc, hkey, -⟩
      exact hno c hc hkey
    | some c =>
      obtain ⟨hc, hkey⟩ := (findChild_eq_some_iff hst hp hn).mp hfound
      rw [hfound, Option.map_some]
      constructor
      · intro hwalk
        exact ⟨c, hc, hkey, (ih (hst.rep.child hp hn hc).1).mp hwalk⟩
      · rintro ⟨d, hd, hkeyd, hrest⟩
        obtain rfl := hst.child_unique hp hn hd hc (hkeyd.trans hkey.symm)
        exact (ih (hst.rep.child hp hn hd).1).mpr hrest

/-- Along a path of one key at least, the loop ends with the parent of the last node. -/
theorem searchLoop_of_leads (hst : Stores heap t) (hp : p ∈ t.nodes) (err : BofErr) (nodeHandle : Option Nat)
    (hleads : Leads heap p (key :: keys) q) :
    ∃ father ∈ t.nodes, ∃ nf, heap father = some nf ∧ q ∈ nf.children ∧
      searchLoop heap (key :: keys) p err nodeHandle = some (.noError, some father) := by
  induction keys generalizing p key err nodeHandle with
  | nil =>
    obtain ⟨n, hn⟩ := hst.rep.live hp
    obtain ⟨c, hc, hkey, hrest⟩ := (Leads.cons_iff hn).mp hleads
    obtain rfl := Leads.nil_iff.mp hrest
    have hfound := (findChild_eq_some_iff hst hp hn).mpr ⟨hc, hkey⟩
    refine ⟨p, hp, n, hn, hc, ?_⟩
    rw [searchLoop, hn, Option.bind_some, hfound]
    rfl
  | cons key' keys ih =>
    obtain ⟨n, hn⟩ := hst.rep.live hp
    obtain ⟨c, hc, hkey, hrest⟩ := (Leads.cons_iff hn).mp hleads
    have hfound := (findChild_eq_some_iff hst hp hn).mpr ⟨hc, hkey⟩
    obtain ⟨father, hfather, nf, hnf, hq, hloop⟩ := ih (hst.rep.child hp hn hc).1 .noError (some p) hrest
    refine ⟨father, hfather, nf, hnf, hq, ?_⟩
    rw [searchLoop, hn, Option.bind_some, hfound]
    exact hloop

/-- Where the keys lead nowhere, the loop says so, whatever it handed out on the way. -/
theorem searchLoop_of_not_leads (hst : Stores heap t) (hp : p ∈ t.nodes) (err : BofErr) (nodeHandle : Option Nat)
    (hno : ∀ q, ¬ Leads heap p keys q) : ∃ handle, searchLoop heap keys p err nodeHandle = some (.notFound, handle) := by
  induction keys generalizing p err nodeHandle with
  | nil => exact absurd Leads.here (hno p)
  | cons key keys ih =>
    obtain ⟨n, hn⟩ := hst.rep.live hp
    obtain ⟨found, hfound, -⟩ := findChild_spec key n.children (hst.children_live hp hn)
    rw [searchLoop, hn, Option.bind_some, hfound, Option.bind_some]
    cases found with
    | none => exact ⟨nodeHandle, rfl⟩
    | some c =>
      obtain ⟨hc, hkey⟩ := (findChild_eq_some_iff hst hp hn).mp hfound
      apply ih (hst.rep.child hp hn hc).1
      intro q hrest
      exact hno q (.child hn hc hkey hrest)

/-- The keys lead nowhere: `Search` fails. -/
theorem search_of_not_isPath (hst : Stores s.heap t) (hp : start ∈ t.nodes) (nodeHandle : Option Nat)
    (hno : ∀ q, ¬ IsPath s.heap start (key :: keys) q) :
    ∃ handle, s.search (some start) (key :: keys) nodeHandle = some (.notFound, handle) := by
  obtain ⟨n, hn⟩ := hst.rep.live hp
  have hkeyAt : keyAt s.heap start = some n.key := by rw [keyAt, hn, Option.map_some]
  rw [search, isNodeValid_of_heap hn, Option.bind_some]
  simp only [hn, Option.bind_some]
  by_cases hk : key = n.key
  · rw [if_pos hk]
    apply searchLoop_of_not_leads hst hp
    intro q hleads
    exact hno q ⟨key, keys, rfl, hk ▸ hkeyAt, hleads⟩
  · rw [if_neg hk]
    exact ⟨none, rfl⟩

/-- The keys are a path: `Search` does not hand out the node at its end. -/
theorem search_of_isPath (hst : Stores s.heap t) (hp : start ∈ t.nodes) (nodeHandle : Option Nat)
    (hpath : IsPath s.heap start keys q) :
    ∃ err handle, s.search (some start) keys nodeHandle = some (err, handle) ∧ handle ≠ some q := by
  obtain ⟨n, hn⟩ := hst.rep.live hp
  obtain ⟨key, rest, rfl, hkey, hleads⟩ := hpath
  have hk : key = n.key := by
    rw [keyAt, hn, Option.map_some, Option.some.injEq] at hkey
    exact hkey.symm
  rw [search, isNodeValid_of_heap hn, Option.bind_some]
  simp only [hn, Option.bind_some, if_pos hk]
  cases rest with
  | nil => exact ⟨.notFound, none, rfl, by simp⟩
  | cons key' rest =>
    obtain ⟨father, hfather, nf, hnf, hq, hloop⟩ := searchLoop_of_leads hst hp .notFound none hleads
    refine ⟨.noError, some father, hloop, ?_⟩
    intro heq
    exact hst.child_ne hfather hnf hq (Option.some.inj heq).symm

/-- `Search` does what it is for exactly if there is nothing to find. -/
theorem findsNode_iff (hst : IsTree s t) (hp : start ∈ t.nodes) (hkeys : keys ≠ []) (nodeHandle : Option Nat) :
    FindsNode s start keys nodeHandle ↔ ¬ ∃ q, IsPath s.heap start keys q := by
  constructor
  · rintro ⟨err, handle, hsearch, -, hend⟩ ⟨q, hpath⟩
    obtain ⟨err', handle', hsearch', hne⟩ := search_of_isPath hst.toStores hp nodeHandle hpath
    rw [hsearch'] at hsearch
    obtain ⟨-, rfl⟩ := Prod.mk.inj (Option.some.inj hsearch)
    exact hne (hend q hpath).1
  · intro hno
    obtain ⟨key, keys, rfl⟩ := List.exists_cons_of_ne_nil hkeys
    obtain ⟨handle, hsearch⟩ := search_of_not_isPath hst.toStores hp nodeHandle fun q hpath => hno ⟨q, hpath⟩
    exact ⟨.notFound, handle, hsearch, iff_of_false nofun hno, fun q hpath => absurd ⟨q, hpath⟩ hno⟩

/-- A root with the key 0 and one child with the key 1. -/
def rootAndChild : NaryTreeKv Nat Nat := (Machine.run step create [.setRoot 0 0, .addChild 0 1 1]).1

theorem isTree_rootAndChild : IsTree rootAndChild (.snoc .nil 0 (.snoc .nil 1 .nil)) where
  rep := ⟨trivial, ⟨_, rfl, rfl, rfl⟩, trivial, ⟨_, rfl, rfl, rfl⟩, trivial⟩
  nodup := by decide
  distinct := by
    intro p hp n hn
    rcases List.mem_cons.mp hp with rfl | hp
    · obtain rfl := Option.some.inj hn
      exact .nil
    · obtain rfl := List.mem_singleton.mp hp
      obtain rfl := Option.some.inj hn
      exact List.nodup_singleton _
  roots_eq := rfl

/-- A key that the child does not have. -/
theorem findsNode_iff_rootAndChild : FindsNode rootAndChild 0 [0, 2] none ↔ ¬ ∃ q, IsPath rootAndChild.heap 0 [0, 2] q :=
  findsNode_iff isTree_rootAndChild (by decide) (by decide) none

/-- The root is not found by its own key, and in the place of the child the root is handed out. -/
theorem not_findsNode_rootAndChild : ¬ FindsNode rootAndChild 0 [0] none ∧ ¬ FindsNode rootAndChild 0 [0, 1] none := by
  constructor
  · rintro ⟨err, handle, hsearch, hok, -⟩
    have hpath : IsPath rootAndChild.heap 0 [0] 0 := ⟨0, [], rfl, rfl, .here⟩
    have herr : BofErr.notFound = err := congrArg Prod.fst (Option.some.inj hsearch)
    exact absurd (herr.trans (hok.mpr ⟨0, hpath⟩)) (by decide)
  · rintro ⟨err, handle, hsearch, -, hend⟩
    have hpath : IsPath rootAndChild.heap 0 [0, 1] 1 :=
      ⟨0, [1], rfl, rfl, .child rfl (List.mem_singleton.mpr rfl) rfl .here⟩
    have hroot : some 0 = handle := congrArg Prod.snd (Option.some.inj hsearch)
    exact absurd (hroot.trans (hend 1 hpath).1) (by decide)

end Calls

end BofStd.NaryTreeKv
