import Mathlib.Order.Lattice
import Mathlib.Tactic.Basic
import Mathlib.Data.List.Basic
import Mathlib.Data.List.Nodup

/-!
# Maps ordered by their keys

`OrderedMap κ α` is the list of the entries of a map in the strict order of the keys, as `std::map` runs through
them. `assign` is `operator[]` followed by an assignment: it replaces the entry of a key that is present. Two maps
with the same entries are equal (`ext_mem`), so that an operation is known by the entries of its result
(`mem_assign`, `mem_erase`).
-/

/-- A list of entries in the strict order of their keys. -/
structure OrderedMap (κ α : Type*) [LinearOrder κ] where
  entries : List (κ × α)
  sorted : entries.Pairwise fun a b => a.1 < b.1

namespace OrderedMap

variable {κ α : Type*} [LinearOrder κ] {m m' : OrderedMap κ α} {k : κ} {x : α} {e : κ × α} {es : List (κ × α)}

instance [DecidableEq α] : DecidableEq (OrderedMap κ α) := fun m m' =>
  decidable_of_iff (m.entries = m'.entries) (by
    cases m
    cases m'
    rw [mk.injEq])

/-- The map without entries. -/
def empty : OrderedMap κ α := ⟨[], .nil⟩

/-- The keys, in order. -/
def keys (m : OrderedMap κ α) : List κ := m.entries.map Prod.fst

/-- The value at a key. -/
def find? (m : OrderedMap κ α) (k : κ) : Option α := (m.entries.find? fun e => e.1 = k).map Prod.snd

/-- Put an entry at the place of its key. -/
def insertEntry (k : κ) (x : α) : List (κ × α) → List (κ × α)
  | [] => [(k, x)]
  | e :: es => if k < e.1 then (k, x) :: e :: es else if k = e.1 then (k, x) :: es else e :: insertEntry k x es

theorem mem_insertEntry (h : es.Pairwise fun a b => a.1 < b.1) :
    e ∈ insertEntry k x es ↔ e = (k, x) ∨ (e ∈ es ∧ e.1 ≠ k) := by
  induction es with
  | nil => simp [insertEntry]
  | cons d es ih =>
    rw [List.pairwise_cons] at h
    obtain ⟨hlt, hes⟩ := h
    unfold insertEntry
    rcases lt_trichotomy k d.1 with hk | hk | hk
    · rw [if_pos hk, List.mem_cons]
      refine or_congr_right ?_
      constructor
      · intro he
        refine ⟨he, ?_⟩
        rcases List.mem_cons.mp he with rfl | he
        · exact hk.ne'
        · exact (hk.trans (hlt e he)).ne'
      · exact And.left
    · rw [if_neg (hk ▸ lt_irrefl k), if_pos hk, List.mem_cons, List.mem_cons]
      refine or_congr_right ?_
      constructor
      · intro he
        exact ⟨.inr he, (hk ▸ hlt e he).ne'⟩
      · rintro ⟨rfl | he, hne⟩
        · exact absurd hk.symm hne
        · exact he
    · rw [if_neg hk.not_gt, if_neg hk.ne', List.mem_cons, ih hes, List.mem_cons]
      constructor
      · rintro (rfl | rfl | ⟨he, hne⟩)
        · exact .inr ⟨.inl rfl, hk.ne⟩
        · exact .inl rfl
        · exact .inr ⟨.inr he, hne⟩
      · rintro (rfl | ⟨rfl | he, hne⟩)
        · exact .inr (.inl rfl)
        · exact .inl rfl
        · exact .inr (.inr ⟨he, hne⟩)

theorem pairwise_insertEntry (h : es.Pairwise fun a b => a.1 < b.1) :
    (insertEntry k x es).Pairwise fun a b => a.1 < b.1 := by
  induction es with
  | nil => exact List.pairwise_singleton _ _
  | cons d es ih =>
    have hes := (List.pairwise_cons.mp h).2
    have hlt := (List.pairwise_cons.mp h).1
    unfold insertEntry
    rcases lt_trichotomy k d.1 with hk | hk | hk
    · rw [if_pos hk, List.pairwise_cons]
      refine ⟨?_, h⟩
      intro e he
      rcases List.mem_cons.mp he with rfl | he
      · exact hk
      · exact hk.trans (hlt e he)
    · rw [if_neg (hk ▸ lt_irrefl k), if_pos hk, List.pairwise_cons]
      exact ⟨fun e he => hk ▸ hlt e he, hes⟩
    · rw [if_neg hk.not_gt, if_neg hk.ne', List.pairwise_cons]
      refine ⟨?_, ih hes⟩
      intro e he
      rcases (mem_insertEntry hes).mp he with rfl | ⟨he, -⟩
      · exact hk
      · exact hlt e he

theorem perm_insertEntry (h : ∀ e ∈ es, e.1 ≠ k) : (insertEntry k x es).Perm ((k, x) :: es) := by
  induction es with
  | nil => exact .refl _
  | cons d es ih =>
    obtain ⟨hd, hes⟩ := List.forall_mem_cons.mp h
    unfold insertEntry
    by_cases hk : k < d.1
    · rw [if_pos hk]
    · rw [if_neg hk, if_neg hd.symm]
      exact ((ih hes).cons d).trans (.swap (k, x) d es)

/-- `map[k] = x`. -/
def assign (m : OrderedMap κ α) (k : κ) (x : α) : OrderedMap κ α :=
  ⟨insertEntry k x m.entries, pairwise_insertEntry m.sorted⟩

/-- Keep the entries that satisfy a test. -/
def filter (m : OrderedMap κ α) (p : κ × α → Bool) : OrderedMap κ α :=
  ⟨m.entries.filter p, m.sorted.sublist List.filter_sublist⟩

/-- Remove the entry of a key. -/
def erase (m : OrderedMap κ α) (k : κ) : OrderedMap κ α := m.filter fun e => e.1 ≠ k

theorem mem_assign : e ∈ (m.assign k x).entries ↔ e = (k, x) ∨ (e ∈ m.entries ∧ e.1 ≠ k) := mem_insertEntry m.sorted

theorem mem_filter {p : κ × α → Bool} : e ∈ (m.filter p).entries ↔ e ∈ m.entries ∧ p e := List.mem_filter

theorem mem_erase : e ∈ (m.erase k).entries ↔ e ∈ m.entries ∧ e.1 ≠ k := by
  rw [erase, mem_filter, decide_eq_true_iff]

theorem mem_keys : k ∈ m.keys ↔ ∃ x, (k, x) ∈ m.entries := by
  rw [keys, List.mem_map]
  constructor
  · rintro ⟨⟨k, x⟩, he, rfl⟩
    exact ⟨x, he⟩
  · rintro ⟨x, he⟩
    exact ⟨(k, x), he, rfl⟩

theorem nodup_keys (m : OrderedMap κ α) : m.keys.Nodup := by
  rw [keys, List.Nodup, List.pairwise_map]
  exact m.sorted.imp fun h => h.ne

/-- A key has one value. -/
theorem value_unique {y : α} (hx : (k, x) ∈ m.entries) (hy : (k, y) ∈ m.entries) : x = y :=
  congrArg Prod.snd (List.inj_on_of_nodup_map m.nodup_keys hx hy rfl)

theorem find?_eq_some_iff : m.find? k = some x ↔ (k, x) ∈ m.entries := by
  unfold find?
  constructor
  · intro h
    obtain ⟨⟨k', x'⟩, hfind, rfl⟩ := Option.map_eq_some_iff.mp h
    have hk := List.find?_some hfind
    obtain rfl : k' = k := of_decide_eq_true hk
    exact List.mem_of_find?_eq_some hfind
  · intro h
    have hsome : (m.entries.find? fun e => e.1 = k).isSome := by
      rw [List.find?_isSome]
      exact ⟨(k, x), h, decide_eq_true rfl⟩
    obtain ⟨⟨k', x'⟩, hfind⟩ := Option.isSome_iff_exists.mp hsome
    have hk := List.find?_some hfind
    obtain rfl : k' = k := of_decide_eq_true hk
    rw [hfind, Option.map_some, value_unique (List.mem_of_find?_eq_some hfind) h]

theorem perm_assign (h : k ∉ m.keys) : (m.assign k x).entries.Perm ((k, x) :: m.entries) := by
  apply perm_insertEntry
  rintro e he rfl
  exact h (mem_keys.mpr ⟨e.2, he⟩)

theorem find?_eq_none_iff : m.find? k = none ↔ k ∉ m.keys := by
  rw [Option.eq_none_iff_forall_ne_some, mem_keys, not_exists]
  exact forall_congr' fun x => not_congr find?_eq_some_iff

/-- A map is known by its entries. -/
theorem ext_mem (h : ∀ e, e ∈ m.entries ↔ e ∈ m'.entries) : m = m' := by
  have hnodup : ∀ m : OrderedMap κ α, m.entries.Nodup := fun m => m.nodup_keys.of_map _
  have hperm := (List.perm_ext_iff_of_nodup (hnodup m) (hnodup m')).mpr h
  have heq : m.entries = m'.entries :=
    hperm.eq_of_pairwise (fun a b _ _ hab hba => absurd hab hba.asymm) m.sorted m'.sorted
  cases m
  cases m'
  rwa [mk.injEq]

end OrderedMap
