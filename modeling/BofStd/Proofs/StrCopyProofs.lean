import BofStd.StrCopy

/-!
# Bounded copies

`Bof_StrNCpy` stores one character after the other and stops behind a null byte (`copyLoop_spec`). `Bof_Snprintf` stores
its null byte where the formatter says that the text ends, which may be behind the buffer (`copiesInBounds_iff`).
-/

namespace BofStd

namespace StrCopy

variable {dest src : Nat → UInt8} {text : Text} {max maxChar i bound : Nat} {c : UInt8}

/-! ## Stores -/

theorem apply_append (a b : Stores) (dest : Nat → UInt8) : (a ++ b).apply dest = b.apply (a.apply dest) :=
  List.foldl_append

theorem inBounds_append {a b : Stores} : (a ++ b).InBounds bound ↔ a.InBounds bound ∧ b.InBounds bound :=
  List.forall_mem_append

theorem inBounds_singleton {store : Nat × UInt8} : Stores.InBounds [store] bound ↔ store.1 < bound :=
  List.forall_mem_singleton

/-- One more character in front. -/
theorem mapIdx_cons_shift (c : UInt8) (text : Text) (i : Nat) :
    ((c :: text).mapIdx fun k d => (i + k, d)) = (i, c) :: text.mapIdx fun k d => (i + 1 + k, d) := by
  rw [List.mapIdx_cons, Nat.add_zero]
  congr 1
  refine congrArg (fun f => List.mapIdx f text) ?_
  funext k d
  rw [Nat.add_assoc, Nat.add_comm 1 k]

/-- Stores of consecutive characters are a write. -/
theorem apply_mapIdx (text : Text) (i : Nat) (dest : Nat → UInt8) :
    Stores.apply (text.mapIdx fun k c => (i + k, c)) dest = Memory.write dest i text := by
  induction text generalizing i dest with
  | nil => rfl
  | cons c text ih =>
    rw [mapIdx_cons_shift, Memory.write, ← ih]
    rfl

theorem inBounds_mapIdx (h : text.length ≤ bound) : Stores.InBounds (text.mapIdx fun k c => (0 + k, c)) bound := by
  intro store hmem
  obtain ⟨k, hk, rfl⟩ := List.mem_mapIdx.mp hmem
  show 0 + k < bound
  omega

/-- A text and a null byte, written to the front, are a terminated string. -/
theorem terminated_write (dest : Nat → UInt8) (text : Text) : Terminated (Memory.write dest 0 (text ++ [0])) text := by
  rw [Memory.write_append, Nat.zero_add]
  constructor
  · rw [Memory.read_write_of_disjoint _ _ _ (by omega), Memory.read_write_self]
  · exact Function.update_self _ _ _

/-- A null byte further behind changes nothing. -/
theorem Terminated.update (h : Terminated dest text) {n : Nat} (hn : text.length ≤ n) :
    Terminated (Function.update dest n 0) text := by
  constructor
  · have hread := Memory.read_write_of_disjoint dest n [(0 : UInt8)] (b := 0) (n := text.length) (by omega)
    rw [← h.1]
    simpa [Memory.write] using hread.trans (by rw [h.1])
  · rcases Nat.eq_or_lt_of_le hn with rfl | hlt
    · exact Function.update_self _ _ _
    · rw [Function.update_of_ne (by omega), h.2]

/-! ## `Bof_StrNCpy` -/

/-- The loop that has stopped behind a null byte. -/
theorem copyLoop_zero (src : Nat → UInt8) (maxChar i : Nat) : copyLoop src maxChar 0 i = ([], 0, i) := by
  cases maxChar <;> rfl

/-- The loop and the null byte behind it store the source up to a null byte, as far as it may be copied. -/
theorem copyLoop_spec (hc : c ≠ 0) :
    (copyLoop src maxChar c i).1 ++
        (if (copyLoop src maxChar c i).2.1 ≠ 0 then [((copyLoop src maxChar c i).2.2, 0)] else []) =
      ((Memory.read src i maxChar).takeWhile (fun d => d ≠ 0) ++ [0]).mapIdx fun k d => (i + k, d) := by
  induction maxChar generalizing c i with
  | zero => simp [copyLoop, hc, Memory.read]
  | succ maxChar ih =>
    rw [Memory.read_succ, copyLoop, if_pos hc]
    by_cases hnull : src i = 0
    · simp [hnull, copyLoop_zero]
    · rw [List.takeWhile_cons_of_pos (by simpa using hnull), List.cons_append, List.cons_append, mapIdx_cons_shift,
        ← ih hnull]

theorem strNCpy_eq (src : Nat → UInt8) (maxChar : Nat) :
    strNCpy src (maxChar + 1) = (firstChars src maxChar ++ [0]).mapIdx fun k d => (0 + k, d) := by
  rw [firstChars, ← copyLoop_spec (c := 1) (by decide), strNCpy, if_pos (by omega)]
  rfl

theorem length_firstChars_le (src : Nat → UInt8) (n : Nat) : (firstChars src n).length ≤ n := by
  have hle := (List.takeWhile_sublist (fun c : UInt8 => decide (c ≠ 0)) (l := Memory.read src 0 n)).length_le
  rwa [Memory.length_read] at hle

theorem strNCpy_inBounds (src : Nat → UInt8) (h : 1 ≤ max) : (strNCpy src max).InBounds max := by
  obtain ⟨maxChar, rfl⟩ := Nat.exists_eq_add_of_le' h
  have hle := length_firstChars_le src maxChar
  rw [strNCpy_eq]
  exact inBounds_mapIdx (by rw [List.length_append, List.length_singleton]; omega)

theorem strNCpy_terminated (dest src : Nat → UInt8) (h : 1 ≤ max) :
    Terminated ((strNCpy src max).apply dest) (firstChars src (max - 1)) := by
  obtain ⟨maxChar, rfl⟩ := Nat.exists_eq_add_of_le' h
  rw [strNCpy_eq, apply_mapIdx, Nat.add_sub_cancel]
  exact terminated_write _ _

/-! ## `Bof_Snprintf` -/

/-- What the formatter stores in a buffer that is not empty. -/
theorem vsnprintf_succ (size : Nat) (text : Text) :
    (vsnprintf (size + 1) text).1 = (text.take size ++ [0]).mapIdx fun k c => (0 + k, c) := by
  simp [vsnprintf]

/-- The stores of `Bof_Snprintf`: those of the formatter, and a null byte behind the whole text. -/
theorem snprintf_eq (h : 1 ≤ max) (text : Text) : snprintf max text =
    (vsnprintf (max - 1) text).1 ++ if text.length < 2 ^ 31 then [(text.length, 0)] else [] := by
  rw [snprintf, if_pos (by omega)]
  show (if 0 ≤ (vsnprintf (max - 1) text).2 then _ else _) = _
  by_cases hlen : text.length < 2 ^ 31
  · have hsize : (vsnprintf (max - 1) text).2 = text.length := if_pos hlen
    rw [if_pos (by omega), if_pos hlen, if_pos hlen]
    rfl
  · have hsize : (vsnprintf (max - 1) text).2 = -1 := if_neg hlen
    rw [if_neg (by omega), if_neg hlen, List.append_nil]
    rfl

/-- In a buffer of two characters or more, the front of the text is left. -/
theorem snprintf_terminated (dest : Nat → UInt8) (text : Text) (size : Nat) :
    Terminated ((snprintf (size + 2) text).apply dest) (text.take size) := by
  have hstored : Terminated ((vsnprintf (size + 1) text).1.apply dest) (text.take size) := by
    rw [vsnprintf_succ, apply_mapIdx]
    exact terminated_write _ _
  rw [snprintf_eq (by omega), apply_append]
  by_cases hlen : text.length < 2 ^ 31
  · rw [if_pos hlen]
    exact hstored.update (List.length_take_le' _ _)
  · rw [if_neg hlen]
    exact hstored

theorem snprintf_inBounds_iff (h : 1 ≤ max) :
    (snprintf max text).InBounds max ↔ text.length < max ∨ 2 ^ 31 ≤ text.length := by
  have hformatter : (vsnprintf (max - 1) text).1.InBounds max := by
    rcases Nat.eq_or_lt_of_le h with rfl | hlt
    · exact List.forall_mem_nil _
    · obtain ⟨size, rfl⟩ := Nat.exists_eq_add_of_le' hlt
      rw [show size + 2 - 1 = size + 1 by omega, vsnprintf_succ]
      exact inBounds_mapIdx (by rw [List.length_append, List.length_take, List.length_singleton]; omega)
  rw [snprintf_eq h, inBounds_append]
  by_cases hlen : text.length < 2 ^ 31
  · rw [if_pos hlen, inBounds_singleton]
    exact ⟨fun hin => .inl hin.2, fun hin => ⟨hformatter, hin.resolve_right (by omega)⟩⟩
  · rw [if_neg hlen]
    exact ⟨fun _ => .inr (by omega), fun _ => ⟨hformatter, List.forall_mem_nil _⟩⟩

/-- The copies stay in their bounds exactly if the text that is formatted fits. A text that is no `int` long is only
copied, which leaves a destination of one character as it was. -/
theorem copiesInBounds_iff (dest src : Nat → UInt8) (text : Text) (max : Nat) (h : 1 ≤ max) :
    CopiesInBounds dest src text max ↔
      text.length < max ∨ 2 ^ 31 ≤ text.length ∧ (2 ≤ max ∨ dest 0 = 0) := by
  constructor
  · rintro ⟨-, -, hin, n, hn, hterm⟩
    rcases (snprintf_inBounds_iff h).mp hin with hlt | hlong
    · exact .inl hlt
    refine .inr ⟨hlong, ?_⟩
    rcases Nat.eq_or_lt_of_le h with rfl | hlt
    · obtain rfl : n = 0 := by omega
      rw [snprintf_eq h, if_neg (by omega)] at hterm
      exact .inr hterm.2
    · exact .inl hlt
  · intro hfits
    refine ⟨strNCpy_inBounds src h, strNCpy_terminated dest src h, (snprintf_inBounds_iff h).mpr (by omega), ?_⟩
    rcases Nat.eq_or_lt_of_le h with rfl | hlt
    · refine ⟨0, by omega, ?_⟩
      rcases hfits with hempty | ⟨hlong, hnull⟩
      · obtain rfl : text = [] := List.length_eq_zero_iff.mp (by omega)
        have hstores : snprintf 1 [] = [(0, 0)] := by decide
        rw [hstores]
        exact ⟨rfl, by simp [Stores.apply]⟩
      · rw [snprintf_eq h, if_neg (by omega)]
        exact ⟨rfl, hnull.resolve_left (by omega)⟩
    · obtain ⟨size, rfl⟩ := Nat.exists_eq_add_of_le' hlt
      exact ⟨size, by omega, snprintf_terminated dest text size⟩

/-- A text of two characters in a buffer of four. -/
theorem copiesInBounds_four :
    (1 ≤ 4) ∧ CopiesInBounds (fun _ => 35) (fun _ => 97) [120, 121] 4 :=
  ⟨by decide, (copiesInBounds_iff _ _ _ 4 (by decide)).mpr (.inl (by decide))⟩

/-- A text of six characters in a buffer of four: the null byte is stored at the index 6. -/
theorem not_copiesInBounds_six :
    ¬ CopiesInBounds (fun _ => 35) (fun _ => 97) [97, 98, 99, 100, 101, 102] 4 := by
  intro h
  have hstore : (6, 0) ∈ snprintf 4 [97, 98, 99, 100, 101, 102] := by decide
  exact absurd (h.formatInside _ hstore) (by decide)

end StrCopy

end BofStd
