import Mathlib.Data.List.Perm.Basic
import Mathlib.Data.List.Sort
import BofStd.DirGraphSpec

/-!
# The maps of a graph agree

An `IdMap` whose identifiers are sorted is a list of entries (`ofEntries`), and its operations are list
operations on the entries. With that, `DirGraph` simulates the abstract graph: the nodes and edges are
those of the abstract graph, the counts are the lengths of the target lists, and the neighbour lists are
permutations of them (the first neighbour that is the target of an erased edge is taken off its list,
whichever parallel edge it came from).
-/

namespace BofStd

/-! ## The map `IdMap` -/

namespace IdMap

variable {α : Type*}

/-- The map with the given entries. -/
def ofEntries (es : List (Nat × α)) : IdMap α := ⟨es.map Prod.snd, es.map Prod.fst⟩

/-- The entries are sorted by their identifiers. -/
def KeysSorted (es : List (Nat × α)) : Prop := (es.map Prod.fst).Pairwise (· < ·)

variable {es l r : List (Nat × α)} {id : Nat} {x : α}

@[simp] theorem ids_ofEntries : (ofEntries es).mSortedIdCollection = es.map Prod.fst := rfl

@[simp] theorem elements_ofEntries : (ofEntries es).mElementCollection = es.map Prod.snd := rfl

theorem entries_ofEntries : (ofEntries es).entries = es := (List.zip_of_prod rfl rfl).symm

theorem sorted_ofEntries (h : KeysSorted es) : (ofEntries es).Sorted :=
  ⟨h, by rw [ofEntries, List.length_map, List.length_map]⟩

/-- The identifiers before and behind an entry. -/
theorem KeysSorted.split (h : KeysSorted (l ++ (id, x) :: r)) :
    (∀ e ∈ l, e.1 < id) ∧ ∀ e ∈ r, id < e.1 := by
  rw [KeysSorted, List.map_append, List.map_cons, List.pairwise_append, List.pairwise_cons] at h
  obtain ⟨-, ⟨hr, -⟩, hl⟩ := h
  constructor
  · intro e he
    exact hl e.1 (List.mem_map_of_mem he) id List.mem_cons_self
  · intro e he
    exact hr e.1 (List.mem_map_of_mem he)

/-- An identifier that is larger than all others is placed at the end. -/
theorem lowerBound_of_gt (h : ∀ e ∈ es, e.1 < id) : (ofEntries es).lowerBound id = es.length := by
  have hall : ∀ k ∈ es.map Prod.fst, decide (id ≤ k) = false := by
    intro k hk
    obtain ⟨e, he, rfl⟩ := List.mem_map.mp hk
    have hlt := h e he
    exact decide_eq_false (by omega)
  rw [lowerBound, ofEntries, List.findIdx_eq_length.mpr hall, List.length_map]

/-- `std::lower_bound` stops at the entry. -/
theorem lowerBound_split (h : KeysSorted (l ++ (id, x) :: r)) :
    (ofEntries (l ++ (id, x) :: r)).lowerBound id = l.length := by
  have hl := lowerBound_of_gt h.split.1
  rw [lowerBound, ids_ofEntries] at hl
  rw [lowerBound, ids_ofEntries, List.map_append, List.findIdx_append, hl, List.length_map,
    if_neg (Nat.lt_irrefl _), List.map_cons, List.findIdx_cons, decide_eq_true (Nat.le_refl id)]
  exact Nat.zero_add _

theorem contain_split (h : KeysSorted (l ++ (id, x) :: r)) :
    (ofEntries (l ++ (id, x) :: r)).contain id = true := by
  rw [contain, lowerBound_split h, decide_eq_true_iff, ids_ofEntries, List.map_append,
    List.getElem?_append_right (by rw [List.length_map]), List.length_map, Nat.sub_self]
  rfl

/-- `Contain`. -/
theorem contain_ofEntries (h : KeysSorted es) :
    (ofEntries es).contain id = decide (id ∈ es.map Prod.fst) := by
  rw [Bool.eq_iff_iff, decide_eq_true_iff]
  constructor
  · intro hc
    rw [contain, decide_eq_true_iff] at hc
    exact List.mem_of_getElem? hc
  · intro hmem
    obtain ⟨⟨k, x⟩, hx, rfl⟩ := List.mem_map.mp hmem
    obtain ⟨l, r, rfl⟩ := List.append_of_mem hx
    exact contain_split h

/-- `*Find`. -/
theorem find_of_mem (h : KeysSorted es) (hx : (id, x) ∈ es) : (ofEntries es).find id = some x := by
  obtain ⟨l, r, rfl⟩ := List.append_of_mem hx
  rw [find, if_pos (contain_split h), lowerBound_split h, elements_ofEntries, List.map_append,
    List.getElem?_append_right (by rw [List.length_map]), List.length_map, Nat.sub_self]
  rfl

/-- `Insert` of an identifier that is larger than all others. -/
theorem insert_of_gt (h : KeysSorted es) (hid : ∀ e ∈ es, e.1 < id) :
    (ofEntries es).insert id x = (ofEntries (es ++ [(id, x)]), true) ∧ KeysSorted (es ++ [(id, x)]) := by
  have hnot : (ofEntries es).contain id ≠ true := by
    rw [contain_ofEntries h, ne_eq, decide_eq_true_iff]
    intro hmem
    obtain ⟨e, he, hk⟩ := List.mem_map.mp hmem
    have hlt := hid e he
    omega
  constructor
  · have hlen : (ofEntries es).lowerBound id = es.length := lowerBound_of_gt hid
    have hs : es.length = (es.map Prod.snd).length := (List.length_map _).symm
    have hf : es.length = (es.map Prod.fst).length := (List.length_map _).symm
    rw [insert, if_neg hnot, hlen]
    simp only [ofEntries, List.map_append, List.map_cons, List.map_nil]
    rw [← List.insertIdx_length_self, ← List.insertIdx_length_self, ← hs, ← hf]
  · rw [KeysSorted, List.map_append, List.pairwise_append]
    refine ⟨h, List.pairwise_singleton _ _, ?_⟩
    intro a ha b hb
    obtain ⟨e, he, rfl⟩ := List.mem_map.mp ha
    rw [List.map_singleton, List.mem_singleton] at hb
    rw [hb]
    exact hid e he

/-- `Erase`. -/
theorem erase_ofEntries (h : KeysSorted es) :
    (ofEntries es).erase id =
      (ofEntries (es.filter fun e => e.1 != id), decide (id ∈ es.map Prod.fst)) := by
  by_cases hmem : id ∈ es.map Prod.fst
  · obtain ⟨⟨k, x⟩, hx, rfl⟩ := List.mem_map.mp hmem
    obtain ⟨l, r, rfl⟩ := List.append_of_mem hx
    obtain ⟨hl, hr⟩ := h.split
    have hfilter : ((l ++ (k, x) :: r).filter fun e => e.1 != k) = l ++ r := by
      rw [List.filter_append, List.filter_cons_of_neg (by simp), List.filter_eq_self.mpr,
        List.filter_eq_self.mpr]
      · intro e he
        have hlt := hr e he
        exact bne_iff_ne.mpr (by omega)
      · intro e he
        have hlt := hl e he
        exact bne_iff_ne.mpr (by omega)
    rw [hfilter, erase, if_pos (contain_split h), lowerBound_split h, decide_eq_true hmem]
    simp only [ofEntries, List.map_append]
    rw [List.eraseIdx_append_of_length_le (by rw [List.length_map]),
      List.eraseIdx_append_of_length_le (by rw [List.length_map]), List.length_map, List.length_map,
      Nat.sub_self]
    rfl
  · have hfilter : (es.filter fun e => e.1 != id) = es := by
      rw [List.filter_eq_self]
      intro e he
      rw [bne_iff_ne]
      rintro rfl
      exact hmem (List.mem_map_of_mem he)
    rw [hfilter, erase, contain_ofEntries h, decide_eq_false hmem]
    rfl

/-! Tables: one entry for each identifier of a list. -/

/-- The entries of the identifiers `ks` given by a function. -/
def table (ks : List Nat) (f : Nat → α) : List (Nat × α) := ks.map fun k => (k, f k)

@[simp] theorem map_fst_table (ks : List Nat) (f : Nat → α) : (table ks f).map Prod.fst = ks := by
  rw [table, List.map_map]
  exact List.map_id ks

variable {ks : List Nat} {f : Nat → α}

theorem keysSorted_table (h : ks.Pairwise (· < ·)) (f : Nat → α) : KeysSorted (table ks f) := by
  rwa [KeysSorted, map_fst_table]

theorem table_congr {f' : Nat → α} (h : ∀ k ∈ ks, f k = f' k) : table ks f = table ks f' :=
  List.map_congr_left fun k hk => by rw [h k hk]

theorem find_table (h : ks.Pairwise (· < ·)) (hid : id ∈ ks) : (ofEntries (table ks f)).find id = some (f id) :=
  find_of_mem (keysSorted_table h f) (List.mem_map_of_mem hid)

/-- Assign to `*Find`. -/
theorem assign_table (h : ks.Pairwise (· < ·)) (hid : id ∈ ks) (y : α) :
    (ofEntries (table ks f)).assign id y = some (ofEntries (table ks (Function.update f id y))) := by
  obtain ⟨l, r, rfl⟩ := List.append_of_mem hid
  have hsplit : ∀ g : Nat → α, table (l ++ id :: r) g = table l g ++ (id, g id) :: table r g := by
    intro g
    rw [table, List.map_append, List.map_cons]
    rfl
  have hsorted := keysSorted_table h f
  rw [hsplit] at hsorted
  obtain ⟨hl, hr⟩ := hsorted.split
  have hleft : table l (Function.update f id y) = table l f := by
    refine table_congr fun k hk => Function.update_of_ne ?_ _ _
    have hlt := hl (k, f k) (List.mem_map_of_mem hk)
    exact Nat.ne_of_lt hlt
  have hright : table r (Function.update f id y) = table r f := by
    refine table_congr fun k hk => Function.update_of_ne ?_ _ _
    have hlt := hr (k, f k) (List.mem_map_of_mem hk)
    exact Nat.ne_of_gt hlt
  rw [hsplit, hsplit, hleft, hright, Function.update_self, assign, if_pos (contain_split hsorted),
    lowerBound_split hsorted]
  simp only [ofEntries, List.map_append, List.map_cons]
  rw [List.set_append_right _ _ (by rw [List.length_map]), List.length_map, Nat.sub_self]
  rfl

theorem filter_table (p : Nat → Bool) : (table ks f).filter (fun e => p e.1) = table (ks.filter p) f := by
  rw [table, List.filter_map]
  rfl

end IdMap

/-! ## The abstract graph -/

namespace Graph

variable {ν : Type} {a : Graph ν} {id : Nat}

/-- The identifiers of the nodes. -/
def keys (a : Graph ν) : List Nat := a.nodes.map Prod.fst

/-- Identifiers are given out in order, and both ends of an edge are nodes. -/
structure WellFormed (a : Graph ν) : Prop where
  keys_sorted : a.keys.Pairwise (· < ·)
  edges_sorted : (a.edges.map Edge.id).Pairwise (· < ·)
  keys_lt : ∀ k ∈ a.keys, k < a.crtId
  edges_lt : ∀ e ∈ a.edges, e.id < a.crtId
  ends : ∀ e ∈ a.edges, e.src ∈ a.keys ∧ e.dst ∈ a.keys
  crtId_lt : a.crtId < 4294967296

theorem targets_append (a : Graph ν) (es : List Edge) (e : Edge) (id : Nat) :
    ({ a with edges := es ++ [e] } : Graph ν).targets id =
      ({ a with edges := es } : Graph ν).targets id ++ if e.src = id then [e.dst] else [] := by
  simp only [targets, List.filter_append, List.map_append]
  by_cases h : e.src = id
  · rw [if_pos h, List.filter_cons_of_pos (p := fun e : Edge => e.src == id) (beq_iff_eq.mpr h)]
    rfl
  · rw [if_neg h, List.filter_cons_of_neg (by rwa [beq_iff_eq])]
    rfl

/-- There are fewer edges than identifiers given out. -/
theorem WellFormed.length_targets_le (h : a.WellFormed) (id : Nat) : (a.targets id).length ≤ a.crtId := by
  have hsub : (a.targets id).length ≤ a.edges.length := by
    rw [targets, List.length_map]
    exact List.length_filter_le _ _
  have hids : (a.edges.map Edge.id).length ≤ (List.range a.crtId).length := by
    refine List.Subperm.length_le (List.subperm_of_subset ?_ ?_)
    · exact h.edges_sorted.imp fun hlt => Nat.ne_of_lt hlt
    · intro k hk
      obtain ⟨e, he, rfl⟩ := List.mem_map.mp hk
      exact List.mem_range.mpr (h.edges_lt e he)
  rw [List.length_map, List.length_range] at hids
  omega

/-- The edges around one of them. -/
theorem WellFormed.split_edge (h : a.WellFormed) {e : Edge} (he : e ∈ a.edges) :
    ∃ l r, a.edges = l ++ e :: r ∧ (a.eraseEdge e.id).edges = l ++ r := by
  obtain ⟨l, r, hlr⟩ := List.append_of_mem he
  have hsorted := h.edges_sorted
  rw [hlr, List.map_append, List.map_cons, List.pairwise_append, List.pairwise_cons] at hsorted
  obtain ⟨-, ⟨hr, -⟩, hl⟩ := hsorted
  refine ⟨l, r, hlr, ?_⟩
  rw [eraseEdge, hlr, List.filter_append, List.filter_cons_of_neg (by simp), List.filter_eq_self.mpr,
    List.filter_eq_self.mpr]
  · intro f hf
    have hlt := hr f.id (List.mem_map_of_mem hf)
    exact bne_iff_ne.mpr (by omega)
  · intro f hf
    have hlt := hl f.id (List.mem_map_of_mem hf) e.id List.mem_cons_self
    exact bne_iff_ne.mpr (by omega)

/-- Erasing an edge takes one target off the list of its source. -/
theorem WellFormed.targets_eraseEdge (h : a.WellFormed) {e : Edge} (he : e ∈ a.edges) (k : Nat) :
    if k = e.src then (a.targets k).Perm (e.dst :: (a.eraseEdge e.id).targets k)
    else (a.eraseEdge e.id).targets k = a.targets k := by
  obtain ⟨l, r, hlr, herase⟩ := h.split_edge he
  rw [targets, targets, herase, hlr, List.filter_append, List.filter_append, List.map_append, List.map_append]
  by_cases hk : k = e.src
  · rw [if_pos hk, List.filter_cons_of_pos (p := fun e : Edge => e.src == k) (beq_iff_eq.mpr hk.symm),
      List.map_cons]
    exact List.perm_middle
  · rw [if_neg hk, List.filter_cons_of_neg (by rw [beq_iff_eq]; exact fun heq => hk heq.symm)]

theorem WellFormed.eraseEdge (h : a.WellFormed) (id : Nat) : (a.eraseEdge id).WellFormed where
  keys_sorted := h.keys_sorted
  edges_sorted := h.edges_sorted.sublist (List.Sublist.map _ List.filter_sublist)
  keys_lt := h.keys_lt
  edges_lt := fun e he => h.edges_lt e (List.mem_of_mem_filter he)
  ends := fun e he => h.ends e (List.mem_of_mem_filter he)
  crtId_lt := h.crtId_lt

theorem keys_eraseNode : (a.eraseNode id).keys = a.keys.filter fun k => k != id := by
  rw [keys, keys, eraseNode, List.filter_map]
  rfl

theorem mem_keys_eraseNode {k : Nat} : k ∈ (a.eraseNode id).keys ↔ k ∈ a.keys ∧ k ≠ id := by
  rw [keys_eraseNode, List.mem_filter, bne_iff_ne]

theorem WellFormed.eraseNode (h : a.WellFormed) (id : Nat) : (a.eraseNode id).WellFormed where
  keys_sorted := h.keys_sorted.sublist (List.Sublist.map _ List.filter_sublist)
  edges_sorted := h.edges_sorted.sublist (List.Sublist.map _ List.filter_sublist)
  keys_lt := by
    intro k hk
    exact h.keys_lt k (List.Sublist.subset (List.Sublist.map _ List.filter_sublist) hk)
  edges_lt := fun e he => h.edges_lt e (List.mem_of_mem_filter he)
  ends := by
    intro e he
    obtain ⟨hmem, hnot⟩ := List.mem_filter.mp he
    obtain ⟨hsrc, hdst⟩ := h.ends e hmem
    simp only [Edge.contain, Bool.not_or, Bool.and_eq_true, Bool.not_eq_true', beq_eq_false_iff_ne] at hnot
    exact ⟨mem_keys_eraseNode.mpr ⟨hsrc, hnot.1.symm⟩, mem_keys_eraseNode.mpr ⟨hdst, hnot.2.symm⟩⟩
  crtId_lt := h.crtId_lt

end Graph

/-! ## The simulation -/

namespace DirGraph

variable {ν : Type} {g : DirGraph ν} {a : Graph ν} {id : Nat}

open IdMap

/-- The maps of `g` tell the abstract graph `a`. -/
structure Represents (g : DirGraph ν) (a : Graph ν) : Prop where
  crtId_eq : g.mCrtId = a.crtId
  nodes_eq : g.mNodeCollection = ofEntries a.nodes
  edges_eq : g.mEdgeCollection = ofEntries (a.edges.map fun e => (e.id, e))
  counts_eq : g.mEdgeFromNodeCollection = ofEntries (table a.keys fun k => (a.targets k).length)
  neighbours_eq : ∃ nb, g.mNodeNeighbourCollection = ofEntries (table a.keys nb) ∧
    ∀ k ∈ a.keys, (nb k).Perm (a.targets k)

theorem keysSorted_edges (h : a.WellFormed) : KeysSorted (a.edges.map fun e => (e.id, e)) := by
  rw [KeysSorted, List.map_map]
  exact h.edges_sorted

theorem Represents.contain_node (h : Represents g a) (hw : a.WellFormed) :
    g.mNodeCollection.contain id = decide (a.HasNode id) := by
  rw [h.nodes_eq, contain_ofEntries hw.keys_sorted]
  rfl

theorem Represents.contain_edge (h : Represents g a) (hw : a.WellFormed) :
    g.mEdgeCollection.contain id = decide (id ∈ a.edges.map Edge.id) := by
  rw [h.edges_eq, contain_ofEntries (keysSorted_edges hw), List.map_map]
  rfl

theorem Represents.contain_count (h : Represents g a) (hw : a.WellFormed) (hid : a.HasNode id) :
    g.mEdgeFromNodeCollection.contain id = true := by
  rw [h.counts_eq, contain_ofEntries (keysSorted_table hw.keys_sorted _), map_fst_table, decide_eq_true_iff]
  exact hid

/-- Erasing an edge. -/
theorem internalEraseEdge_represents (h : Represents g a) (hw : a.WellFormed) (id : Nat) :
    ∃ g', g.internalEraseEdge id = some (g', decide (id ∈ a.edges.map Edge.id)) ∧
      Represents g' (a.eraseEdge id) := by
  by_cases hmem : id ∈ a.edges.map Edge.id
  · obtain ⟨e, he, rfl⟩ := List.mem_map.mp hmem
    obtain ⟨nb, hnb, hperm⟩ := h.neighbours_eq
    have hsrc := (hw.ends e he).1
    have htargets := hw.targets_eraseEdge he
    have hfind : g.mEdgeCollection.find e.id = some e := by
      rw [h.edges_eq]
      exact find_of_mem (keysSorted_edges hw) (List.mem_map.mpr ⟨e, he, rfl⟩)
    have hcount : g.mEdgeFromNodeCollection.find e.src = some (a.targets e.src).length := by
      rw [h.counts_eq, find_table hw.keys_sorted hsrc]
    have hlist : g.mNodeNeighbourCollection.find e.src = some (nb e.src) := by
      rw [hnb, find_table hw.keys_sorted hsrc]
    have hsplit := htargets e.src
    rw [if_pos rfl] at hsplit
    have hlen := hsplit.length_eq
    rw [List.length_cons] at hlen
    have hdst : e.dst ∈ nb e.src := by
      rw [((hperm e.src hsrc).trans hsplit).mem_iff]
      exact List.mem_cons_self
    have herase : g.mEdgeCollection.erase e.id =
        (ofEntries ((a.eraseEdge e.id).edges.map fun e => (e.id, e)), true) := by
      rw [h.edges_eq, erase_ofEntries (keysSorted_edges hw), List.filter_map, List.map_map]
      exact Prod.ext rfl (decide_eq_true hmem)
    have hcounts : g.mEdgeFromNodeCollection.assign e.src (u32Sub (a.targets e.src).length 1) =
        some (ofEntries (table a.keys fun k => ((a.eraseEdge e.id).targets k).length)) := by
      rw [h.counts_eq, assign_table hw.keys_sorted hsrc, u32Sub_of_le (by omega)]
      congr 2
      refine table_congr fun k _ => ?_
      by_cases hk : k = e.src
      · rw [hk, Function.update_self]
        omega
      · have hsame := htargets k
        rw [if_neg hk] at hsame
        rw [Function.update_of_ne hk, hsame]
    have hassign : g.mNodeNeighbourCollection.assign e.src ((nb e.src).erase e.dst) =
        some (ofEntries (table a.keys (Function.update nb e.src ((nb e.src).erase e.dst)))) := by
      rw [hnb, assign_table hw.keys_sorted hsrc]
    refine ⟨⟨g.mCrtId, g.mNodeCollection,
      ofEntries (table a.keys fun k => ((a.eraseEdge e.id).targets k).length),
      ofEntries (table a.keys (Function.update nb e.src ((nb e.src).erase e.dst))),
      ofEntries ((a.eraseEdge e.id).edges.map fun e => (e.id, e))⟩, ?_,
      ⟨h.crtId_eq, h.nodes_eq, rfl, rfl, Function.update nb e.src ((nb e.src).erase e.dst), rfl, ?_⟩⟩
    · rw [internalEraseEdge, h.contain_edge hw, if_pos (decide_eq_true hmem), decide_eq_true hmem]
      simp only [hfind, hcount, hcounts, hlist, hassign, herase, Option.bind_eq_bind, Option.bind_some]
      rw [decide_eq_true hdst, decide_eq_true (by omega)]
      rfl
    · intro k hk
      have hperm' := hperm k hk
      by_cases hke : k = e.src
      · subst hke
        rw [Function.update_self]
        have herased := (hperm'.trans hsplit).erase e.dst
        rwa [List.erase_cons_head] at herased
      · have hsame := htargets k
        rw [if_neg hke] at hsame
        rwa [Function.update_of_ne hke, hsame]
  · -- there is no such edge
    have hsame : a.eraseEdge id = a := by
      rw [Graph.eraseEdge, List.filter_eq_self.mpr]
      intro e he
      rw [bne_iff_ne]
      rintro rfl
      exact hmem (List.mem_map_of_mem he)
    refine ⟨g, ?_, by rwa [hsame]⟩
    rw [internalEraseEdge, h.contain_edge hw, decide_eq_false hmem]
    rfl

/-- Erasing edges, one after the other. -/
theorem eraseEdges_represents (h : Represents g a) (hw : a.WellFormed) {ids : List Nat} (hn : ids.Nodup)
    (hids : ∀ id ∈ ids, id ∈ a.edges.map Edge.id) :
    ∃ g', g.eraseEdges ids = some (g', true) ∧
      Represents g' { a with edges := a.edges.filter fun e => !decide (e.id ∈ ids) } := by
  induction ids generalizing g a with
  | nil =>
    refine ⟨g, rfl, ?_⟩
    have hsame : (a.edges.filter fun e => !decide (e.id ∈ [])) = a.edges := by
      rw [List.filter_eq_self]
      intro e _
      rfl
    rwa [hsame]
  | cons id ids ih =>
    rw [List.nodup_cons] at hn
    obtain ⟨g1, hfirst, h1⟩ := internalEraseEdge_represents h hw id
    rw [decide_eq_true (hids id List.mem_cons_self)] at hfirst
    have hleft : ∀ k ∈ ids, k ∈ (a.eraseEdge id).edges.map Edge.id := by
      intro k hk
      obtain ⟨e, he, rfl⟩ := List.mem_map.mp (hids k (List.mem_cons_of_mem _ hk))
      refine List.mem_map.mpr ⟨e, List.mem_filter.mpr ⟨he, bne_iff_ne.mpr ?_⟩, rfl⟩
      rintro rfl
      exact hn.1 hk
    obtain ⟨g2, hrest, h2⟩ := ih h1 (hw.eraseEdge id) hn.2 hleft
    refine ⟨g2, ?_, ?_⟩
    · rw [eraseEdges, hfirst]
      exact hrest
    · have hfilter : ((a.eraseEdge id).edges.filter fun e => !decide (e.id ∈ ids)) =
          a.edges.filter fun e => !decide (e.id ∈ id :: ids) := by
        rw [Graph.eraseEdge, List.filter_filter]
        refine List.filter_congr fun e _ => ?_
        simp only [List.mem_cons, Bool.decide_or, Bool.not_or, bne, Bool.and_comm]
        rfl
      rwa [hfilter] at h2

/-- The edges collected by `EraseNode` are those that enter or leave the node. -/
theorem filter_collected (hw : a.WellFormed) (id : Nat) :
    (a.edges.filter fun e => !decide (e.id ∈ (a.edges.filter fun e => e.contain id).map Edge.id)) =
      a.edges.filter fun e => !e.contain id := by
  refine List.filter_congr fun e he => ?_
  congr 1
  rw [Bool.eq_iff_iff, decide_eq_true_iff]
  constructor
  · intro hmem
    obtain ⟨f, hf, hid⟩ := List.mem_map.mp hmem
    obtain ⟨hf, hcontain⟩ := List.mem_filter.mp hf
    have hinj := List.inj_on_of_nodup_map (hw.edges_sorted.imp fun hlt => Nat.ne_of_lt hlt) hf he hid
    rwa [hinj] at hcontain
  · intro hcontain
    exact List.mem_map_of_mem (List.mem_filter.mpr ⟨he, hcontain⟩)

/-- Erasing a node from the three maps. -/
theorem eraseFromMaps_represents (h : Represents g a) (hw : a.WellFormed) (hid : id ∈ a.keys) :
    ∃ g', g.eraseFromMaps id = (g', true) ∧
      Represents g' { a with nodes := a.nodes.filter fun n => n.1 != id } := by
  obtain ⟨nb, hnb, hperm⟩ := h.neighbours_eq
  have hkeys : ({ a with nodes := a.nodes.filter fun n => n.1 != id } : Graph ν).keys =
      a.keys.filter fun k => k != id := Graph.keys_eraseNode
  have hnodes : g.mNodeCollection.erase id = (ofEntries (a.nodes.filter fun n => n.1 != id), true) := by
    rw [h.nodes_eq, erase_ofEntries hw.keys_sorted]
    exact Prod.ext rfl (decide_eq_true hid)
  have htable : ∀ {β : Type} (f : Nat → β), (ofEntries (table a.keys f)).erase id =
      (ofEntries (table (a.keys.filter fun k => k != id) f), true) := by
    intro β f
    rw [erase_ofEntries (keysSorted_table hw.keys_sorted f), map_fst_table, decide_eq_true hid]
    exact Prod.ext (congrArg ofEntries (filter_table fun k => k != id)) rfl
  refine ⟨⟨g.mCrtId, ofEntries (a.nodes.filter fun n => n.1 != id),
    ofEntries (table (a.keys.filter fun k => k != id) fun k => (a.targets k).length),
    ofEntries (table (a.keys.filter fun k => k != id) nb), g.mEdgeCollection⟩, ?_,
    ⟨h.crtId_eq, rfl, h.edges_eq, ?_, nb, ?_, ?_⟩⟩
  · rw [eraseFromMaps, hnodes, h.counts_eq, hnb]
    simp only [htable, if_true]
  · rw [hkeys]
    rfl
  · rw [hkeys]
  · intro k hk
    rw [hkeys] at hk
    exact hperm k (List.mem_of_mem_filter hk)

/-- Erasing a node. -/
theorem eraseNode_represents (h : Represents g a) (hw : a.WellFormed) (id : Nat) :
    ∃ g', g.eraseNode id = some (g', decide (a.HasNode id)) ∧ Represents g' (a.eraseNode id) := by
  have hcollect : (g.mEdgeCollection.mElementCollection.filter fun e => e.contain id).map Edge.id =
      (a.edges.filter fun e => e.contain id).map Edge.id := by
    rw [h.edges_eq, elements_ofEntries, List.map_map]
    congr 2
    exact List.map_id _
  have hnodup : ((a.edges.filter fun e => e.contain id).map Edge.id).Nodup :=
    (hw.edges_sorted.imp fun hlt => Nat.ne_of_lt hlt).sublist (List.Sublist.map _ List.filter_sublist)
  obtain ⟨g1, hedges, h1⟩ := eraseEdges_represents h hw hnodup fun k hk =>
    List.Sublist.subset (List.Sublist.map _ List.filter_sublist) hk
  rw [filter_collected hw] at h1
  have hw1 : ({ a with edges := a.edges.filter fun e => !e.contain id } : Graph ν).WellFormed :=
    ⟨hw.keys_sorted, (hw.eraseNode id).edges_sorted, hw.keys_lt, (hw.eraseNode id).edges_lt,
      fun e he => hw.ends e (List.mem_of_mem_filter he), hw.crtId_lt⟩
  have hcontain : g1.mNodeCollection.contain id =
      decide (({ a with edges := a.edges.filter fun e => !e.contain id } : Graph ν).HasNode id) :=
    h1.contain_node hw1
  by_cases hid : a.HasNode id
  · obtain ⟨g2, hmaps, h2⟩ := eraseFromMaps_represents h1 hw1 hid
    refine ⟨g2, ?_, h2⟩
    have hid1 : ({ a with edges := a.edges.filter fun e => !e.contain id } : Graph ν).HasNode id := hid
    rw [eraseNode, hcollect, hedges, decide_eq_true hid]
    simp only [Option.bind_eq_bind, Option.bind_some, if_true, hcontain, decide_eq_true hid1, hmaps]
    rfl
  · refine ⟨g1, ?_, ?_⟩
    · have hid1 : ¬ ({ a with edges := a.edges.filter fun e => !e.contain id } : Graph ν).HasNode id := hid
      rw [eraseNode, hcollect, hedges, decide_eq_false hid]
      simp only [Option.bind_eq_bind, Option.bind_some, if_true, hcontain, decide_eq_false hid1]
      rfl
    · have hsame : (a.nodes.filter fun n => n.1 != id) = a.nodes := by
        rw [List.filter_eq_self]
        intro n hn
        rw [bne_iff_ne]
        rintro rfl
        exact hid (List.mem_map_of_mem hn)
      rw [Graph.eraseNode, hsame]
      exact h1

theorem incTicketNumber_eq {n : Nat} (h : incTicketNumber n = n + 1) : n + 1 < 4294967296 := by
  unfold incTicketNumber at h
  rw [u32_eq_mod] at h
  split at h
  · omega
  · omega

/-- A new node. -/
theorem insertNode_represents (h : Represents g a) (hw : a.WellFormed) (node : ν)
    (hinc : incTicketNumber g.mCrtId = g.mCrtId + 1) :
    ∃ g', g.insertNode node = some (g', a.crtId) ∧ Represents g' (a.step (.insertNode node)).1 ∧
      (a.step (.insertNode node)).1.WellFormed := by
  obtain ⟨nb, hnb, hperm⟩ := h.neighbours_eq
  have hlt := incTicketNumber_eq hinc
  rw [h.crtId_eq] at hinc hlt
  have hfresh : a.crtId ∉ a.keys := by
    intro hmem
    exact Nat.lt_irrefl _ (hw.keys_lt _ hmem)
  have hkeys : (a.step (.insertNode node)).1.keys = a.keys ++ [a.crtId] := by
    rw [Graph.keys, Graph.step, List.map_append]
    rfl
  -- no edge leaves the new node
  have htargets : a.targets a.crtId = [] := by
    rw [Graph.targets, List.filter_eq_nil_iff.mpr, List.map_nil]
    intro e he hsrc
    rw [beq_iff_eq] at hsrc
    exact hfresh (hsrc ▸ (hw.ends e he).1)
  obtain ⟨hnodes, hsorted⟩ := insert_of_gt (x := node) hw.keys_sorted fun e he =>
    hw.keys_lt e.1 (List.mem_map_of_mem he)
  have htable : ∀ {β : Type} (f : Nat → β), (ofEntries (table a.keys f)).insert a.crtId (f a.crtId) =
      (ofEntries (table (a.keys ++ [a.crtId]) f), true) := by
    intro β f
    have hgt : ∀ e ∈ table a.keys f, e.1 < a.crtId := by
      intro e he
      obtain ⟨k, hk, rfl⟩ := List.mem_map.mp he
      exact hw.keys_lt k hk
    have hins := insert_of_gt (x := f a.crtId) (keysSorted_table hw.keys_sorted f) hgt
    rw [hins.1, table, table, List.map_append]
    rfl
  have hcounts := htable fun k => (a.targets k).length
  rw [htargets, List.length_nil] at hcounts
  have hneighbours := htable (Function.update nb a.crtId [])
  have hsame : table a.keys (Function.update nb a.crtId []) = table a.keys nb := by
    refine table_congr fun k hk => Function.update_of_ne ?_ _ _
    rintro rfl
    exact hfresh hk
  rw [Function.update_self, hsame] at hneighbours
  refine ⟨⟨a.crtId + 1, ofEntries (a.nodes ++ [(a.crtId, node)]),
    ofEntries (table (a.keys ++ [a.crtId]) fun k => (a.targets k).length),
    ofEntries (table (a.keys ++ [a.crtId]) (Function.update nb a.crtId [])), g.mEdgeCollection⟩, ?_,
    ⟨rfl, rfl, h.edges_eq, ?_, Function.update nb a.crtId [], ?_, ?_⟩, ?_⟩
  · have hnot : (!g.mNodeCollection.contain a.crtId) = true := by
      rw [h.contain_node hw, Bool.not_eq_true', decide_eq_false_iff_not]
      exact hfresh
    rw [insertNode, h.crtId_eq, hnot, hinc, h.counts_eq, hcounts, hnb, hneighbours, h.nodes_eq, hnodes]
    rfl
  · rw [hkeys]
    rfl
  · rw [hkeys]
  · intro k hk
    rw [hkeys, List.mem_append, List.mem_singleton] at hk
    rcases hk with hk | rfl
    · have hne : k ≠ a.crtId := Nat.ne_of_lt (hw.keys_lt k hk)
      rw [Function.update_of_ne hne]
      exact hperm k hk
    · rw [Function.update_self]
      exact List.Perm.of_eq htargets.symm
  · refine ⟨hsorted, hw.edges_sorted, ?_, ?_, ?_, hlt⟩
    · intro k hk
      rw [hkeys, List.mem_append, List.mem_singleton] at hk
      rcases hk with hk | rfl
      · exact Nat.lt_succ_of_lt (hw.keys_lt k hk)
      · exact Nat.lt_succ_self _
    · intro e he
      exact Nat.lt_succ_of_lt (hw.edges_lt e he)
    · intro e he
      rw [hkeys]
      exact ⟨List.mem_append_left _ (hw.ends e he).1, List.mem_append_left _ (hw.ends e he).2⟩

/-- A new edge. -/
theorem insertEdge_represents (h : Represents g a) (hw : a.WellFormed) (src dst : Nat)
    (hinc : a.HasNode src ∧ a.HasNode dst → incTicketNumber g.mCrtId = g.mCrtId + 1) :
    ∃ g' n, g.insertEdge src dst = some (g', n) ∧ (a.step (.insertEdge src dst)).2 = .id n ∧
      Represents g' (a.step (.insertEdge src dst)).1 ∧ (a.step (.insertEdge src dst)).1.WellFormed := by
  by_cases hends : a.HasNode src ∧ a.HasNode dst
  · obtain ⟨nb, hnb, hperm⟩ := h.neighbours_eq
    have hinc := hinc hends
    have hlt := incTicketNumber_eq hinc
    rw [h.crtId_eq] at hinc hlt
    obtain ⟨hsrc, hdst⟩ := hends
    have hstep : a.step (.insertEdge src dst) =
        ({ a with crtId := a.crtId + 1, edges := a.edges ++ [⟨a.crtId, src, dst⟩] }, .id a.crtId) := by
      rw [Graph.step, if_pos ⟨hsrc, hdst⟩]
    rw [hstep]
    have hfresh : a.crtId ∉ a.edges.map Edge.id := by
      intro hmem
      obtain ⟨e, he, hid⟩ := List.mem_map.mp hmem
      exact Nat.ne_of_lt (hw.edges_lt e he) hid
    have hgt : ∀ e ∈ a.edges.map fun e => (e.id, e), e.1 < a.crtId := by
      intro e he
      obtain ⟨f, hf, rfl⟩ := List.mem_map.mp he
      exact hw.edges_lt f hf
    obtain ⟨hedges, hsorted⟩ := insert_of_gt (x := (⟨a.crtId, src, dst⟩ : Edge)) (keysSorted_edges hw) hgt
    have hmap : ((a.edges.map fun e => (e.id, e)) ++ [(a.crtId, (⟨a.crtId, src, dst⟩ : Edge))]) =
        (a.edges ++ [(⟨a.crtId, src, dst⟩ : Edge)]).map fun e => (e.id, e) := by
      rw [List.map_append]
      rfl
    rw [hmap] at hedges hsorted
    rw [KeysSorted, List.map_map] at hsorted
    have htargets := Graph.targets_append a a.edges ⟨a.crtId, src, dst⟩
    have hle := hw.length_targets_le src
    have hcounts : g.mEdgeFromNodeCollection.assign src (u32 ((a.targets src).length + 1)) =
        some (ofEntries (table a.keys fun k =>
          (({ a with edges := a.edges ++ [⟨a.crtId, src, dst⟩] } : Graph ν).targets k).length)) := by
      rw [h.counts_eq, assign_table hw.keys_sorted hsrc, u32_of_lt (by omega)]
      congr 2
      refine table_congr fun k _ => ?_
      rw [htargets, List.length_append]
      by_cases hk : k = src
      · subst hk
        rw [Function.update_self, if_pos rfl]
        rfl
      · rw [Function.update_of_ne hk, if_neg (fun heq => hk heq.symm)]
        rfl
    have hassign : g.mNodeNeighbourCollection.assign src (nb src ++ [dst]) =
        some (ofEntries (table a.keys (Function.update nb src (nb src ++ [dst])))) := by
      rw [hnb, assign_table hw.keys_sorted hsrc]
    refine ⟨⟨a.crtId + 1, g.mNodeCollection, ofEntries (table a.keys fun k =>
      (({ a with edges := a.edges ++ [⟨a.crtId, src, dst⟩] } : Graph ν).targets k).length),
      ofEntries (table a.keys (Function.update nb src (nb src ++ [dst]))),
      ofEntries ((a.edges ++ [(⟨a.crtId, src, dst⟩ : Edge)]).map fun e => (e.id, e))⟩, a.crtId, ?_, rfl,
      ⟨rfl, h.nodes_eq, rfl, rfl, Function.update nb src (nb src ++ [dst]), rfl, ?_⟩, ?_⟩
    · have hcontain : (g.mNodeCollection.contain src && g.mNodeCollection.contain dst) = true := by
        rw [h.contain_node hw, h.contain_node hw, decide_eq_true hsrc, decide_eq_true hdst]
        rfl
      have hnot : (!g.mEdgeCollection.contain a.crtId) = true := by
        rw [h.contain_edge hw, decide_eq_false hfresh]
        rfl
      have hcsrc := h.contain_count hw hsrc
      have hcdst := h.contain_count hw hdst
      have hcount : g.mEdgeFromNodeCollection.find src = some (a.targets src).length := by
        rw [h.counts_eq, find_table hw.keys_sorted hsrc]
      have hlist : g.mNodeNeighbourCollection.find src = some (nb src) := by
        rw [hnb, find_table hw.keys_sorted hsrc]
      rw [← h.edges_eq] at hedges
      rw [insertEdge, if_pos hcontain, h.crtId_eq]
      simp only [hnot, hcsrc, hcdst, assert, if_true, hcount, hcounts, hlist, hassign, hedges, hinc,
        Option.bind_eq_bind, Option.bind_some]
    · intro k hk
      refine List.Perm.trans ?_ (List.Perm.of_eq (htargets k).symm)
      by_cases hks : k = src
      · subst hks
        rw [Function.update_self, if_pos rfl]
        exact (hperm k hk).append_right _
      · rw [Function.update_of_ne hks, if_neg (fun heq => hks heq.symm), List.append_nil]
        exact hperm k hk
    · refine ⟨hw.keys_sorted, hsorted, ?_, ?_, ?_, hlt⟩
      · intro k hk
        exact Nat.lt_succ_of_lt (hw.keys_lt k hk)
      · intro e he
        rw [List.mem_append, List.mem_singleton] at he
        rcases he with he | rfl
        · exact Nat.lt_succ_of_lt (hw.edges_lt e he)
        · exact Nat.lt_succ_self _
      · intro e he
        rw [List.mem_append, List.mem_singleton] at he
        rcases he with he | rfl
        · exact hw.ends e he
        · exact ⟨hsrc, hdst⟩
  · refine ⟨g, 0, ?_, ?_, ?_, ?_⟩
    · rw [insertEdge, h.contain_node hw, h.contain_node hw, if_neg]
      rw [Bool.and_eq_true, decide_eq_true_iff, decide_eq_true_iff]
      exact hends
    · rw [Graph.step, if_neg hends]
    · rw [Graph.step, if_neg hends]
      exact h
    · rw [Graph.step, if_neg hends]
      exact hw

theorem Represents.edges (h : Represents g a) : g.edges = a.edges := by
  rw [DirGraph.edges, h.edges_eq, elements_ofEntries, List.map_map]
  exact List.map_id _

/-- A graph whose maps tell a well-formed abstract graph is consistent. -/
theorem Represents.consistent (h : Represents g a) (hw : a.WellFormed) : g.Consistent := by
  obtain ⟨nb, hnb, hperm⟩ := h.neighbours_eq
  have hedges := h.edges
  have hout : ∀ id, (g.outgoing id).map Edge.dst = a.targets id := by
    intro id
    rw [outgoing, hedges]
    rfl
  refine ⟨⟨?_, ?_, ?_, ?_⟩, ?_, ?_, ?_, ?_, ?_⟩
  · rw [h.nodes_eq]
    exact sorted_ofEntries hw.keys_sorted
  · rw [h.counts_eq]
    exact sorted_ofEntries (keysSorted_table hw.keys_sorted _)
  · rw [hnb]
    exact sorted_ofEntries (keysSorted_table hw.keys_sorted _)
  · rw [h.edges_eq]
    exact sorted_ofEntries (keysSorted_edges hw)
  · rw [hedges, h.edges_eq, ids_ofEntries, List.map_map]
    rfl
  · intro e he
    rw [hedges] at he
    rw [h.contain_node hw, h.contain_node hw, decide_eq_true_iff, decide_eq_true_iff]
    exact hw.ends e he
  · intro id hid
    rw [h.contain_node hw, decide_eq_true_iff] at hid
    have hlen := (hperm id hid).length_eq
    refine ⟨nb id, ?_, ?_, ?_, ?_⟩
    · rw [hnb, find_table hw.keys_sorted hid]
    · rw [h.counts_eq, find_table hw.keys_sorted hid, hlen]
    · rw [hlen, ← hout id, List.length_map]
    · rw [hout id]
      exact Multiset.coe_eq_coe.mpr (hperm id hid)
  · rw [h.counts_eq, h.nodes_eq, ids_ofEntries, map_fst_table]
    rfl
  · rw [hnb, h.nodes_eq, ids_ofEntries, map_fst_table]
    rfl

/-- One call. -/
theorem step_represents (h : Represents g a) (hw : a.WellFormed) (op : Op ν) (hop : NoWrap g op) :
    Represents (step g op).1 (a.step op).1 ∧ (a.step op).1.WellFormed ∧ (step g op).2 = (a.step op).2 := by
  cases op with
  | insertNode node =>
    obtain ⟨g', hcall, h', hw'⟩ := insertNode_represents h hw node hop
    rw [step, hcall]
    exact ⟨h', hw', rfl⟩
  | eraseNode id =>
    obtain ⟨g', hcall, h'⟩ := eraseNode_represents h hw id
    rw [step, hcall]
    exact ⟨h', hw.eraseNode id, rfl⟩
  | insertEdge src dst =>
    obtain ⟨g', n, hcall, hout, h', hw'⟩ := insertEdge_represents h hw src dst fun hends => hop (by
      rw [h.contain_node hw, h.contain_node hw, decide_eq_true_iff, decide_eq_true_iff]
      exact hends)
    rw [step, hcall, hout]
    exact ⟨h', hw', rfl⟩
  | eraseEdge id =>
    obtain ⟨g', hcall, h'⟩ := internalEraseEdge_represents h hw id
    rw [step, hcall]
    exact ⟨h', hw.eraseEdge id, rfl⟩

/-- The empty graph. -/
theorem create_represents : Represents (create : DirGraph ν) ⟨1, [], []⟩ where
  crtId_eq := rfl
  nodes_eq := rfl
  edges_eq := rfl
  counts_eq := rfl
  neighbours_eq := ⟨fun _ => [], rfl, fun _ hk => absurd hk List.not_mem_nil⟩

theorem wellFormed_empty : (⟨1, [], []⟩ : Graph ν).WellFormed where
  keys_sorted := List.Pairwise.nil
  edges_sorted := List.Pairwise.nil
  keys_lt := fun _ hk => absurd hk List.not_mem_nil
  edges_lt := fun _ he => absurd he List.not_mem_nil
  ends := fun _ he => absurd he List.not_mem_nil
  crtId_lt := Nat.one_lt_succ_succ _

/-- The maps tell some well-formed graph. -/
def Inv (g : DirGraph ν) : Prop := ∃ a, Represents g a ∧ a.WellFormed

theorem step_inv (h : Inv g) {op : Op ν} (hop : NoWrap g op) : Inv (step g op).1 ∧ (step g op).2 ≠ .undefined := by
  obtain ⟨a, h, hw⟩ := h
  obtain ⟨h', hw', hout⟩ := step_represents h hw op hop
  refine ⟨⟨_, h', hw'⟩, ?_⟩
  rw [hout]
  cases op with
  | insertNode node => exact nofun
  | eraseNode id => exact nofun
  | insertEdge src dst =>
    rw [Graph.step]
    split
    · exact nofun
    · exact nofun
  | eraseEdge id => exact nofun

/-- `EraseNode` on a graph whose maps agree. -/
theorem erasesNode (h : Inv g) (id : Nat) : ErasesNode g (step g (.eraseNode id)).1 id := by
  obtain ⟨a, h, hw⟩ := h
  obtain ⟨h', -, -⟩ := step_represents h hw (.eraseNode id) trivial
  constructor
  · rw [h'.nodes_eq, h.nodes_eq, entries_ofEntries, entries_ofEntries]
    rfl
  · rw [h'.edges, h.edges]
    rfl

/-- In every state reached before the identifier counter goes round the maps agree, no end of a collection
is dereferenced and no assertion fails, and erasing a node takes out exactly the node and its edges. -/
theorem consistent_run (ops : List (Op ν)) (hops : Machine.Meets step NoWrap create ops) :
    (Machine.run step create ops).1.Consistent ∧ .undefined ∉ (Machine.run step (create : DirGraph ν) ops).2 ∧
      ∀ id, ErasesNode (Machine.run step create ops).1
        (step (Machine.run step (create : DirGraph ν) ops).1 (.eraseNode id)).1 id := by
  have h0 : Inv (create : DirGraph ν) := ⟨_, create_represents, wellFormed_empty⟩
  have hinv := Machine.inv_run (P := Inv) (fun g op h hop => (step_inv h hop).1) h0 hops
  refine ⟨?_, ?_, ?_⟩
  · obtain ⟨a, h, hw⟩ := hinv
    exact h.consistent hw
  · intro hmem
    have hout := Machine.outputs_run (P := Inv) (Q := fun o => o ≠ .undefined)
      (fun g op h hop => step_inv h hop) h0 hops _ hmem
    exact hout rfl
  · intro id
    exact erasesNode hinv id

/-- A node with a self-loop and two parallel edges from another node, which is then erased. -/
theorem consistent_run_parallel :
    (Machine.run step (create : DirGraph Unit) [.insertNode (), .insertNode (), .insertEdge 1 1,
      .insertEdge 2 1, .insertEdge 2 1, .eraseNode 1]).1.Consistent :=
  (consistent_run _ (by decide)).1

end DirGraph

end BofStd

/-!
# The depth-first traversal of a graph

`DfsTraverse` marks no node as visited: it walks the ways from the start. So it ends, with each node visited once,
exactly if there is one way only to every node that is reached.
-/

namespace BofStd.DirGraph

open Traverse

variable {ν : Type} {g : DirGraph ν} {start u v : Nat}

theorem dfsLoop_eq (g : DirGraph ν) (rounds : Nat) (stack : List Nat) :
    g.dfsLoop rounds stack = traverse g.successors rounds stack := by
  induction rounds generalizing stack with
  | zero => cases stack <;> rfl
  | succ rounds ih =>
    cases stack with
    | nil => rfl
    | cons id stack =>
      rw [dfsLoop, traverse_cons, successors]
      cases hid : g.neighbour id with
      | none =>
        rw [ih]
        rfl
      | some neighbours =>
        have hpush : neighbours.foldl (fun stack id => id :: stack) stack = neighbours.reverse ++ stack :=
          List.foldl_flip_cons_eq_append'
        rw [ih, Option.getD_some, ← hpush]

/-- What is reached is the start or a neighbour of some node. -/
theorem mem_of_reaches (hreach : Reaches g.successors start v) :
    v ∈ (start :: g.mNodeNeighbourCollection.mElementCollection.flatten).toFinset := by
  rw [List.mem_toFinset]
  rcases hreach.cases_tail with rfl | ⟨u, -, hmem⟩
  · exact List.mem_cons_self
  · rw [successors] at hmem
    cases hu : g.neighbour u with
    | none =>
      rw [hu] at hmem
      exact absurd hmem List.not_mem_nil
    | some neighbours =>
      rw [hu] at hmem
      rw [neighbour, IdMap.find] at hu
      split at hu
      · exact List.mem_cons_of_mem start (List.mem_flatten.mpr ⟨neighbours, List.mem_of_getElem? hu, hmem⟩)
      · cases hu

/-- `DfsTraverse` visits what is reached once exactly if that is a tree with the start as its root. -/
theorem visitsReachedOnce_iff (g : DirGraph ν) (start : Nat) :
    g.VisitsReachedOnce start ↔ IsTreeFrom g.successors start := by
  rw [← traverse_iff _ fun v => mem_of_reaches]
  unfold VisitsReachedOnce dfsTraverse
  simp only [dfsLoop_eq]

/-- A node with an edge to itself is visited for ever, and the target of two ways is visited twice. -/
theorem not_visitsReachedOnce_loop_or_diamond :
    ¬ (Machine.run step (create : DirGraph Unit) [.insertNode (), .insertEdge 1 1]).1.VisitsReachedOnce 1 ∧
      ¬ (Machine.run step (create : DirGraph Unit) [.insertNode (), .insertNode (), .insertNode (), .insertNode (),
        .insertEdge 1 2, .insertEdge 1 3, .insertEdge 2 4, .insertEdge 3 4]).1.VisitsReachedOnce 1 := by
  constructor
  · rintro ⟨rounds, visited, hrun, hnodup, -⟩
    rw [dfsTraverse, dfsLoop_eq] at hrun
    exact (isTreeFrom_of_traverse hrun hnodup).start_notMem 1 .refl (by decide)
  · rintro ⟨rounds, visited, hrun, hnodup, -⟩
    rw [dfsTraverse, dfsLoop_eq] at hrun
    have hunique := (isTreeFrom_of_traverse hrun hnodup).unique 2 3 4 (.single (by decide)) (.single (by decide))
      (by decide) (by decide)
    exact absurd hunique (by decide)

/-! ## Neighbours and edges -/

/-- The neighbours of a node are the targets of the edges that leave it. -/
theorem Consistent.successors_perm (hg : g.Consistent) (u : Nat) :
    (g.successors u).Perm ((g.outgoing u).map Edge.dst) := by
  by_cases hu : g.mNodeCollection.contain u
  · obtain ⟨l, hl, -, -, hperm⟩ := hg.neighbours u hu
    rw [successors, neighbour, hl, Option.getD_some]
    exact Multiset.coe_eq_coe.mp hperm
  · -- there is no such node, so that no edge leaves it
    have hnone : g.neighbour u = none := by
      rw [neighbour, IdMap.find, IdMap.contain, IdMap.lowerBound, hg.nodes.2]
      exact if_neg hu
    have hout : g.outgoing u = [] := by
      rw [outgoing, List.filter_eq_nil_iff]
      intro e he hsrc
      exact hu (eq_of_beq hsrc ▸ (hg.ends e he).1)
    rw [successors, hnone, hout]
    exact .nil

theorem mem_outgoing_iff {e : Edge} : e ∈ g.outgoing u ↔ e ∈ g.edges ∧ e.src = u := by
  rw [outgoing, List.mem_filter, beq_iff_eq]

theorem Consistent.mem_successors_iff (hg : g.Consistent) :
    v ∈ g.successors u ↔ ∃ e ∈ g.edges, e.src = u ∧ e.dst = v := by
  rw [(hg.successors_perm u).mem_iff, List.mem_map]
  simp only [mem_outgoing_iff, and_assoc]

theorem Consistent.edges_nodup (hg : g.Consistent) : g.edges.Nodup := by
  have hids := hg.sorted.2.2.2.1
  rw [hg.edge_id] at hids
  exact List.Nodup.of_map Edge.id (hids.imp Nat.ne_of_lt)

/-- On a graph whose maps agree, what is reached along the neighbours is what there is a way to along the edges. -/
theorem Consistent.reaches_iff (hg : g.Consistent) : Reaches g.successors u v ↔ g.HasPath u v := by
  have hstep : (fun a b => b ∈ g.successors a) = fun src dst => ∃ e ∈ g.edges, e.src = src ∧ e.dst = dst := by
    funext a b
    exact propext hg.mem_successors_iff
  rw [Reaches, HasPath, hstep]

/-- What is reached from the start is a tree exactly if no edge that is reached enters the start, and no two have the
same target. -/
theorem Consistent.isTreeFrom_iff_edges (hg : g.Consistent) (start : Nat) :
    IsTreeFrom g.successors start ↔ (∀ e ∈ g.edges, g.HasPath start e.src → e.dst ≠ start) ∧
      ∀ e ∈ g.edges, ∀ e' ∈ g.edges, g.HasPath start e.src → g.HasPath start e'.src → e.dst = e'.dst → e = e' := by
  constructor
  · rintro ⟨hstart, hnodup, hunique⟩
    refine ⟨?_, ?_⟩
    · intro e he hpath heq
      exact hstart e.src (hg.reaches_iff.mpr hpath) (hg.mem_successors_iff.mpr ⟨e, he, rfl, heq⟩)
    · intro e he e' he' hpath hpath' heq
      have hsrc : e.src = e'.src := by
        apply hunique e.src e'.src e.dst (hg.reaches_iff.mpr hpath) (hg.reaches_iff.mpr hpath')
        · exact hg.mem_successors_iff.mpr ⟨e, he, rfl, rfl⟩
        · exact hg.mem_successors_iff.mpr ⟨e', he', rfl, heq.symm⟩
      have htargets := (hg.successors_perm e.src).nodup_iff.mp (hnodup e.src (hg.reaches_iff.mpr hpath))
      exact List.inj_on_of_nodup_map htargets (mem_outgoing_iff.mpr ⟨he, rfl⟩) (mem_outgoing_iff.mpr ⟨he', hsrc.symm⟩)
        heq
  · rintro ⟨hstart, hunique⟩
    refine ⟨?_, ?_, ?_⟩
    · intro a ha hmem
      obtain ⟨e, he, rfl, hdst⟩ := hg.mem_successors_iff.mp hmem
      exact hstart e he (hg.reaches_iff.mp ha) hdst
    · intro a ha
      rw [(hg.successors_perm a).nodup_iff]
      refine List.Nodup.map_on ?_ (hg.edges_nodup.filter _)
      intro e he e' he' heq
      obtain ⟨hmem, rfl⟩ := mem_outgoing_iff.mp he
      obtain ⟨hmem', hsrc⟩ := mem_outgoing_iff.mp he'
      exact hunique e hmem e' hmem' (hg.reaches_iff.mp ha) (hsrc ▸ hg.reaches_iff.mp ha) heq
    · intro a b c ha hb hca hcb
      obtain ⟨e, he, rfl, hc⟩ := hg.mem_successors_iff.mp hca
      obtain ⟨e', he', rfl, hc'⟩ := hg.mem_successors_iff.mp hcb
      rw [hunique e he e' he' (hg.reaches_iff.mp ha) (hg.reaches_iff.mp hb) (hc.trans hc'.symm)]

end BofStd.DirGraph
