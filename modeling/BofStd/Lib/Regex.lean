import Mathlib.Data.List.TakeWhile

/-!
# Leftmost greedy matching

Regular expressions whose repetitions are of single items: a class of items is a predicate. `allMatches` lists the ways
in which an expression matches the front of a text, in the order in which a backtracking matcher tries them: the longest
repetition first, and an optional part before its absence. `search` returns the first match at the first place where
there is one, and `fullMatch` the first match of the whole text. A group that takes no part in a match has captured
nothing, as the empty text.
-/

/-- Expressions. -/
inductive Regex (α : Type*) where
  /-- One item of a class. -/
  | item (p : α → Bool)
  /-- At least `min` items of a class. -/
  | many (min : Nat) (p : α → Bool)
  | seq (r r' : Regex α)
  | opt (r : Regex α)
  | group (r : Regex α)

namespace Regex

variable {α : Type*}

/-- A match: what is matched, what the groups have captured, and what is behind. -/
structure Match (α : Type*) where
  text : List α
  groups : List (List α)
  rest : List α

/-- One match behind the other. -/
def Match.append (m m' : Match α) : Match α := ⟨m.text ++ m'.text, m.groups ++ m'.groups, m'.rest⟩

/-- The number of the groups. -/
def groupCount : Regex α → Nat
  | item _ => 0
  | many _ _ => 0
  | seq r r' => r.groupCount + r'.groupCount
  | opt r => r.groupCount
  | group r => r.groupCount + 1

/-- The matches at the front of a text, in their order. -/
def allMatches : Regex α → List α → List (Match α)
  | item _, [] => []
  | item p, c :: s => if p c then [⟨[c], [], s⟩] else []
  | many min p, s =>
    ((List.range ((s.takeWhile p).length + 1)).reverse.filter fun n => min ≤ n).map fun n => ⟨s.take n, [], s.drop n⟩
  | seq r r', s => (r.allMatches s).flatMap fun m => (r'.allMatches m.rest).map m.append
  | opt r, s => (r.allMatches s).filter (fun m => !m.text.isEmpty) ++ [⟨[], List.replicate r.groupCount [], s⟩]
  | group r, s => (r.allMatches s).map fun m => { m with groups := m.text :: m.groups }

/-- The first match. -/
def firstMatch (r : Regex α) (s : List α) : Option (Match α) := (r.allMatches s).head?

/-- The first match at the first place that has one. -/
def search (r : Regex α) : List α → Option (Match α)
  | [] => r.firstMatch []
  | c :: s => (r.firstMatch (c :: s)).or (r.search s)

/-- The first match of the whole text. -/
def fullMatch (r : Regex α) (s : List α) : Option (Match α) := (r.allMatches s).find? fun m => m.rest.isEmpty

variable {r r' : Regex α} {p : α → Bool} {s : List α} {c : α} {m m' : Match α} {n : Nat}

theorem firstMatch_eq (r : Regex α) (s : List α) : r.firstMatch s = (r.allMatches s).head? := rfl

theorem allMatches_item (p : α → Bool) (c : α) (s : List α) :
    (item p).allMatches (c :: s) = if p c then [⟨[c], [], s⟩] else [] := rfl

theorem allMatches_many (n : Nat) (p : α → Bool) (s : List α) : (many n p).allMatches s =
    ((List.range ((s.takeWhile p).length + 1)).reverse.filter fun k => n ≤ k).map
      fun k => ⟨s.take k, [], s.drop k⟩ := rfl

theorem allMatches_seq (r r' : Regex α) (s : List α) :
    (r.seq r').allMatches s = (r.allMatches s).flatMap fun m => (r'.allMatches m.rest).map m.append := rfl

theorem allMatches_opt (r : Regex α) (s : List α) : r.opt.allMatches s =
    (r.allMatches s).filter (fun m => !m.text.isEmpty) ++ [⟨[], List.replicate r.groupCount [], s⟩] := rfl

theorem allMatches_group (r : Regex α) (s : List α) :
    r.group.allMatches s = (r.allMatches s).map fun m => { m with groups := m.text :: m.groups } := rfl

theorem firstMatch_item (h : p c = true) : (item p).firstMatch (c :: s) = some ⟨[c], [], s⟩ := by
  rw [firstMatch_eq, allMatches_item, if_pos h]
  rfl

theorem drop_takeWhile (p : α → Bool) (s : List α) : s.drop (s.takeWhile p).length = s.dropWhile p := by
  calc s.drop (s.takeWhile p).length
    _ = (s.takeWhile p ++ s.dropWhile p).drop (s.takeWhile p).length := by rw [List.takeWhile_append_dropWhile]
    _ = s.dropWhile p := List.drop_left

/-- A repetition takes all the items that it can. -/
theorem firstMatch_many (h : n ≤ (s.takeWhile p).length) :
    (many n p).firstMatch s = some ⟨s.takeWhile p, [], s.dropWhile p⟩ := by
  have htake : s.take (s.takeWhile p).length = s.takeWhile p :=
    List.prefix_iff_eq_take.mp (List.takeWhile_prefix p) |>.symm
  rw [firstMatch_eq, allMatches_many, List.range_succ, List.reverse_append, List.reverse_singleton,
    List.singleton_append, List.filter_cons_of_pos (p := fun k => decide (n ≤ k)) (decide_eq_true h), List.map_cons,
    List.head?_cons, htake, drop_takeWhile]

theorem allMatches_seq_eq_nil (h : r.allMatches s = []) : (r.seq r').allMatches s = [] := by
  rw [allMatches_seq, h, List.flatMap_nil]

/-- The first matches of both parts, if the second part matches behind the first one. -/
theorem firstMatch_seq (h : r.firstMatch s = some m) (h' : r'.firstMatch m.rest = some m') :
    (r.seq r').firstMatch s = some (m.append m') := by
  obtain ⟨ms, hms⟩ := List.head?_eq_some_iff.mp h
  obtain ⟨ms', hms'⟩ := List.head?_eq_some_iff.mp h'
  rw [firstMatch_eq, allMatches_seq, hms, List.flatMap_cons, hms', List.map_cons, List.cons_append, List.head?_cons]

/-- An optional part that matches. -/
theorem firstMatch_opt (h : r.firstMatch s = some m) (hm : m.text ≠ []) : r.opt.firstMatch s = some m := by
  obtain ⟨ms, hms⟩ := List.head?_eq_some_iff.mp h
  have hne : (fun m : Match α => !m.text.isEmpty) m = true := by
    rw [Bool.not_eq_true', List.isEmpty_eq_false_iff]
    exact hm
  rw [firstMatch_eq, allMatches_opt, hms, List.filter_cons_of_pos (p := fun m : Match α => !m.text.isEmpty) hne,
    List.cons_append, List.head?_cons]

/-- An optional part that does not match. -/
theorem firstMatch_opt_none (h : r.allMatches s = []) :
    r.opt.firstMatch s = some ⟨[], List.replicate r.groupCount [], s⟩ := by
  rw [firstMatch_eq, allMatches_opt, h]
  rfl

theorem allMatches_group_eq_nil (h : r.allMatches s = []) : r.group.allMatches s = [] := by
  rw [allMatches_group, h, List.map_nil]

theorem firstMatch_group (h : r.firstMatch s = some m) :
    r.group.firstMatch s = some { m with groups := m.text :: m.groups } := by
  obtain ⟨ms, hms⟩ := List.head?_eq_some_iff.mp h
  rw [firstMatch_eq, allMatches_group, hms, List.map_cons, List.head?_cons]

/-! ## An optional group that begins with a mark -/

variable {q : α → Bool}

/-- Behind all the items that there are, one more does not match. -/
theorem allMatches_item_dropWhile (p : α → Bool) (s : List α) : (item p).allMatches (s.dropWhile p) = [] := by
  cases h : s.dropWhile p with
  | nil => rfl
  | cons c rest =>
    have hc : ¬ p c = true := by
      have hhead := List.head?_dropWhile_not p s
      rw [h] at hhead
      simpa using hhead
    rw [allMatches_item, if_neg hc]

/-- The repetition takes all the items but the last one, which is the one behind it. -/
theorem firstMatch_many_item {front : List α} (h : s.takeWhile p = front ++ [c]) :
    ((many 0 p).group.seq (item p).group).firstMatch s = some ⟨front ++ [c], [front, [c]], s.dropWhile p⟩ := by
  have hc : p c = true := List.mem_takeWhile_imp (h ▸ List.mem_append_right _ (List.mem_singleton_self c))
  have hsplit : s = front ++ c :: s.dropWhile p := by
    calc s
      _ = s.takeWhile p ++ s.dropWhile p := List.takeWhile_append_dropWhile.symm
      _ = front ++ c :: s.dropWhile p := by rw [h, List.append_assoc, List.singleton_append]
  have hlen : (s.takeWhile p).length = front.length + 1 := by rw [h, List.length_append, List.length_singleton]
  have htake : s.take front.length = front := (congrArg (List.take front.length) hsplit).trans List.take_left
  have hdrop : s.drop front.length = c :: s.dropWhile p :=
    (congrArg (List.drop front.length) hsplit).trans List.drop_left
  have hall : s.drop (front.length + 1) = s.dropWhile p := by
    rw [← List.drop_drop, hdrop]
    rfl
  have hmatches : ∃ ms, (many 0 p).group.allMatches s =
      ⟨front ++ [c], [front ++ [c]], s.dropWhile p⟩ :: ⟨front, [front], c :: s.dropWhile p⟩ :: ms := by
    have htakeAll : s.take (front.length + 1) = front ++ [c] := by
      rw [← hlen, ← h]
      exact (List.prefix_iff_eq_take.mp (List.takeWhile_prefix p)).symm
    rw [allMatches_group, allMatches_many, hlen, List.range_succ, List.range_succ, List.reverse_append,
      List.reverse_append, List.filter_eq_self.mpr fun n _ => decide_eq_true (Nat.zero_le n)]
    simp only [List.reverse_singleton, List.singleton_append, List.map_cons, htake, hdrop, hall, htakeAll]
    exact ⟨_, rfl⟩
  obtain ⟨ms, hms⟩ := hmatches
  have hnone : (item p).group.allMatches (s.dropWhile p) = [] :=
    allMatches_group_eq_nil (allMatches_item_dropWhile p s)
  have hone : (item p).group.allMatches (c :: s.dropWhile p) = [⟨[c], [[c]], s.dropWhile p⟩] := by
    rw [allMatches_group, allMatches_item, if_pos hc]
    rfl
  rw [firstMatch_eq, allMatches_seq, hms, List.flatMap_cons, List.flatMap_cons, hnone, hone]
  rfl

/-! ## A repetition in front of something -/

theorem head?_flatMap_range {β : Type*} {f : Nat → List β} {k n : Nat} {x : β} (hk : k ≤ n)
    (hnone : ∀ j, k < j → j ≤ n → f j = []) (hx : (f k).head? = some x) :
    ((List.range (n + 1)).reverse.flatMap f).head? = some x := by
  induction n with
  | zero =>
    obtain rfl := Nat.le_zero.mp hk
    simpa using hx
  | succ n ih =>
    rw [List.range_succ, List.reverse_append, List.reverse_singleton, List.singleton_append, List.flatMap_cons]
    rcases Nat.lt_or_eq_of_le hk with hlt | rfl
    · rw [hnone (n + 1) hlt le_rfl, List.nil_append]
      exact ih (Nat.le_of_lt_succ hlt) fun j hj hjn => hnone j hj (hjn.trans (Nat.le_succ n))
    · obtain ⟨ys, hys⟩ := List.head?_eq_some_iff.mp hx
      rw [hys, List.cons_append, List.head?_cons]

/-- The repetition takes as many items as it can if something is to match behind it. -/
theorem firstMatch_many_seq {k : Nat} (hk : k ≤ (s.takeWhile p).length)
    (hnone : ∀ j, k < j → j ≤ (s.takeWhile p).length → r'.allMatches (s.drop j) = [])
    (hm : r'.firstMatch (s.drop k) = some m) :
    ((many 0 p).group.seq r').firstMatch s = some (Match.append ⟨s.take k, [s.take k], s.drop k⟩ m) := by
  obtain ⟨ms, hms⟩ := List.head?_eq_some_iff.mp hm
  rw [firstMatch_eq, allMatches_seq, allMatches_group, allMatches_many,
    List.filter_eq_self.mpr fun n _ => decide_eq_true (Nat.zero_le n), List.map_map, List.flatMap_map]
  refine head?_flatMap_range hk ?_ ?_
  · intro j hj hjn
    simp [hnone j hj hjn]
  · simp [hms]

/-! ## Matches of the whole text -/

/-- The first match is that of the whole text if nothing is behind it. -/
theorem fullMatch_of_firstMatch (h : r.firstMatch s = some m) (hrest : m.rest = []) : r.fullMatch s = some m := by
  obtain ⟨ms, hms⟩ := List.head?_eq_some_iff.mp h
  have hempty : m.rest.isEmpty = true := List.isEmpty_iff.mpr hrest
  rw [fullMatch, hms, List.find?_cons, hempty]

/-- The classes of an expression have items with the property `P` only. -/
def Within (P : α → Prop) : Regex α → Prop
  | item p => ∀ c, p c = true → P c
  | many _ p => ∀ c, p c = true → P c
  | seq r r' => r.Within P ∧ r'.Within P
  | opt r => r.Within P
  | group r => r.Within P

theorem mem_allMatches_seq : m ∈ (r.seq r').allMatches s ↔
    ∃ m₁ ∈ r.allMatches s, ∃ m₂ ∈ r'.allMatches m₁.rest, m₁.append m₂ = m := by
  rw [allMatches_seq, List.mem_flatMap]
  exact exists_congr fun m₁ => and_congr_right fun _ => List.mem_map

/-- A match is at the front of the text, and its items are of the classes of the expression. -/
theorem Within.of_mem {P : α → Prop} (h : r.Within P) (hm : m ∈ r.allMatches s) :
    m.text ++ m.rest = s ∧ ∀ c ∈ m.text, P c := by
  induction r generalizing s m with
  | item p =>
    cases s with
    | nil => exact nomatch hm
    | cons c s =>
      rw [allMatches_item] at hm
      split at hm
      · next hc =>
        obtain rfl := List.mem_singleton.mp hm
        exact ⟨rfl, fun d hd => List.mem_singleton.mp hd ▸ h c hc⟩
      · exact nomatch hm
  | many n p =>
    rw [allMatches_many] at hm
    obtain ⟨k, hk, rfl⟩ := List.mem_map.mp hm
    have hle : k ≤ (s.takeWhile p).length := by
      have hrange := List.mem_range.mp (List.mem_reverse.mp (List.mem_filter.mp hk).1)
      omega
    refine ⟨List.take_append_drop k s, fun c hc => h c ?_⟩
    have hfront : s.take k <+: s.takeWhile p :=
      List.prefix_of_prefix_length_le (List.take_prefix k s) (List.takeWhile_prefix p)
        ((List.length_take_le k s).trans hle)
    exact List.mem_takeWhile_imp (hfront.subset hc)
  | seq r r' ih ih' =>
    rw [allMatches_seq] at hm
    obtain ⟨m₁, hm₁, hm⟩ := List.mem_flatMap.mp hm
    obtain ⟨m₂, hm₂, rfl⟩ := List.mem_map.mp hm
    obtain ⟨hsplit, hclass⟩ := ih h.1 hm₁
    obtain ⟨hsplit', hclass'⟩ := ih' h.2 hm₂
    refine ⟨?_, fun c hc => ?_⟩
    · show m₁.text ++ m₂.text ++ m₂.rest = s
      rw [List.append_assoc, hsplit', hsplit]
    · rcases List.mem_append.mp hc with hc | hc
      · exact hclass c hc
      · exact hclass' c hc
  | opt r ih =>
    rw [allMatches_opt] at hm
    rcases List.mem_append.mp hm with hm | hm
    · exact ih h (List.mem_filter.mp hm).1
    · obtain rfl := List.mem_singleton.mp hm
      exact ⟨rfl, nofun⟩
  | group r ih =>
    rw [allMatches_group] at hm
    obtain ⟨m₁, hm₁, rfl⟩ := List.mem_map.mp hm
    have hin := ih h hm₁
    exact hin

/-- A text with an item that is in no class does not match. -/
theorem Within.fullMatch_eq_none {P : α → Prop} (h : r.Within P) (hc : c ∈ s) (hnot : ¬P c) : r.fullMatch s = none := by
  refine List.find?_eq_none.mpr fun m hm hrest => ?_
  obtain ⟨hsplit, hclass⟩ := h.of_mem hm
  rw [List.isEmpty_iff.mp hrest, List.append_nil] at hsplit
  exact hnot (hclass c (hsplit ▸ hc))

end Regex
