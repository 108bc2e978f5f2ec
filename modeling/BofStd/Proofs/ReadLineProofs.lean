import BofStd.BofShellSpec

/-!
# Reading a file line by line
-/

namespace BofStd.ReadLine

open StdString

variable {s pre rest line : Text} {c : UInt8}

/-! ## Blocks -/

theorem scanBlock_none (h : ∀ d ∈ s, isEnd d = false) : scanBlock s = (s, false) := by
  induction s with
  | nil => rfl
  | cons d s ih =>
    rw [scanBlock, if_neg (by simp [h d List.mem_cons_self]), ih fun e he => h e (List.mem_cons_of_mem d he)]

theorem scanBlock_some (h : ∀ d ∈ pre, isEnd d = false) (hc : isEnd c = true) (rest : Text) :
    scanBlock (pre ++ c :: rest) = (pre ++ [c], true) := by
  induction pre with
  | nil => rw [List.nil_append, scanBlock, if_pos hc, List.nil_append]
  | cons d pre ih =>
    rw [List.cons_append, scanBlock, if_neg (by simp [h d List.mem_cons_self]),
      ih fun e he => h e (List.mem_cons_of_mem d he)]
    rfl

/-- The two kinds of blocks. -/
theorem scanBlock_cases (s : Text) :
    (∀ d ∈ s, isEnd d = false) ∨
      ∃ pre c rest, s = pre ++ c :: rest ∧ (∀ d ∈ pre, isEnd d = false) ∧ isEnd c = true := by
  induction s with
  | nil => exact .inl (by simp)
  | cons d s ih =>
    cases hd : isEnd d with
    | true => exact .inr ⟨[], d, s, rfl, by simp, hd⟩
    | false =>
      rcases ih with hnone | ⟨pre, c, rest, rfl, hpre, hc⟩
      · left
        intro e he
        rcases List.mem_cons.mp he with rfl | he
        · exact hd
        · exact hnone e he
      · refine .inr ⟨d :: pre, c, rest, rfl, ?_, hc⟩
        intro e he
        rcases List.mem_cons.mp he with rfl | he
        · exact hd
        · exact hpre e he

theorem scanBlock_append (s t : Text) :
    scanBlock (s ++ t) = if (scanBlock s).2 then scanBlock s else (s ++ (scanBlock t).1, (scanBlock t).2) := by
  induction s with
  | nil => rfl
  | cons d s ih =>
    rw [List.cons_append, scanBlock, scanBlock]
    split
    · rfl
    · rw [ih]
      dsimp only
      split <;> rfl

theorem scanBlock_fst (s : Text) : (scanBlock s).1 <+: s := by
  rcases scanBlock_cases s with hnone | ⟨pre, c, rest, rfl, hpre, hc⟩
  · rw [scanBlock_none hnone]
  · rw [scanBlock_some hpre hc]
    exact ⟨rest, by simp⟩

theorem scanBlock_not_found (h : (scanBlock s).2 = false) : (scanBlock s).1 = s := by
  rcases scanBlock_cases s with hnone | ⟨pre, c, rest, rfl, hpre, hc⟩
  · rw [scanBlock_none hnone]
  · rw [scanBlock_some hpre hc] at h
    exact absurd h (by simp)

theorem scanBlock_ne_nil (h : s ≠ []) : (scanBlock s).1 ≠ [] := by
  cases s with
  | nil => exact absurd rfl h
  | cons d s =>
    rw [scanBlock]
    split <;> simp

/-- The rounds read the first line of what the buffer has room for. -/
theorem readBlocks_eq {rounds : Nat} (buffer : Text) {remain : Nat} (hrounds : s.length < rounds)
    (hremain : s = [] ∨ 512 ∣ remain ∧ 0 < remain) :
    readBlocks rounds s buffer remain =
      (buffer ++ (scanBlock (s.take remain)).1, remain - (scanBlock (s.take remain)).1.length) := by
  induction rounds generalizing s buffer remain with
  | zero => exact absurd hrounds (Nat.not_lt_zero _)
  | succ rounds ih =>
    rw [readBlocks]
    dsimp only
    by_cases hs : s = []
    · subst hs
      simp [scanBlock]
    · have hblock : s.take 512 ≠ [] := by simpa using hs
      rw [if_neg hblock]
      obtain ⟨⟨k, rfl⟩, hpos⟩ := hremain.resolve_left hs
      have htake : s.take (512 * k) = s.take 512 ++ (s.drop 512).take (512 * k - 512) := by
        rw [← List.take_add, Nat.add_sub_cancel' (by omega)]
      have hlength : (scanBlock (s.take 512)).1.length ≤ 512 :=
        (scanBlock_fst _).length_le.trans (List.length_take_le ..)
      have hsub : u32Sub (512 * k) (scanBlock (s.take 512)).1.length = 512 * k - (scanBlock (s.take 512)).1.length :=
        u32Sub_of_le (by omega)
      rw [hsub, htake, scanBlock_append]
      cases hfound : (scanBlock (s.take 512)).2 with
      | true => simp
      | false =>
        rw [scanBlock_not_found hfound]
        simp only [Bool.false_eq_true, false_or, if_false]
        -- the block is full, or the file is over
        have hnext : s.drop (s.take 512).length = s.drop 512 ∧
            (s.drop 512 = [] ∨ (s.take 512).length = 512) := by
          rw [List.length_take]
          rcases Nat.le_total 512 s.length with hle | hle
          · rw [Nat.min_eq_left hle]
            exact ⟨rfl, .inr rfl⟩
          · rw [Nat.min_eq_right hle, List.drop_length, List.drop_eq_nil_of_le hle]
            exact ⟨rfl, .inl rfl⟩
        obtain ⟨hdrop, hfull⟩ := hnext
        have htail : (s.drop 512).take (512 * k - (s.take 512).length) = (s.drop 512).take (512 * k - 512) := by
          rcases hfull with hnil | hfull
          · rw [hnil, List.take_nil, List.take_nil]
          · rw [hfull]
        split
        · next hzero =>
          have hfill : (s.take 512).length ≤ 512 := List.length_take_le ..
          have hdone : 512 * k - 512 = 0 := by omega
          rw [hdone]
          simp [scanBlock]
        · next hzero =>
          rw [hdrop, ih, htail, List.append_assoc, List.length_append, Nat.sub_add_eq]
          · rw [← hdrop, List.length_drop]
            have hlt := List.length_pos_iff.mpr hblock
            have hle := List.length_take_le' 512 s
            omega
          · refine hfull.imp_right ?_
            intro hfull
            rw [hfull] at hzero ⊢
            exact ⟨⟨k - 1, by omega⟩, by omega⟩

/-! ## One line -/

theorem readLine_eq (hs : s ≠ []) : readLine s =
    some (cStr (if (scanBlock (s.take 0x10000)).1.getLast? = some 0 ∨ (scanBlock (s.take 0x10000)).1.length < 0x10000
        then (scanBlock (s.take 0x10000)).1 else (scanBlock (s.take 0x10000)).1.take 0xFFFF),
      s.drop (scanBlock (s.take 0x10000)).1.length) := by
  have hne : (scanBlock (s.take 0x10000)).1 ≠ [] := scanBlock_ne_nil (by simpa using hs)
  rw [readLine, readBlocks_eq [] (Nat.lt_succ_self _) (.inr ⟨⟨128, rfl⟩, by simp⟩), List.nil_append]
  dsimp only
  rw [if_neg hne]
  simp only [ne_eq, Nat.sub_eq_zero_iff_le, not_le]

/-- The first line of a file, with its newline unless the file is over. -/
structure IsFirst (line s rest : Text) : Prop where
  eq : s = line ++ rest
  ends : (10 ∉ line ∧ line ≠ [] ∧ rest = []) ∨ ∃ pre, line = pre ++ [10] ∧ 10 ∉ pre

theorem exists_isFirst (hs : s ≠ []) :
    ∃ line rest, IsFirst line s rest ∧ textLines s = line :: textLines rest := by
  induction s with
  | nil => exact absurd rfl hs
  | cons c s ih =>
    rw [textLines]
    by_cases hc : c = 10
    · rw [if_pos hc]
      exact ⟨[c], s, ⟨rfl, .inr ⟨[], by rw [hc]; rfl, by simp⟩⟩, rfl⟩
    · rw [if_neg hc]
      by_cases hnil : s = []
      · subst hnil
        exact ⟨[c], [], ⟨rfl, .inl ⟨by simpa using Ne.symm hc, by simp, rfl⟩⟩, rfl⟩
      · obtain ⟨line, rest, ⟨rfl, hends⟩, hlines⟩ := ih hnil
        rw [hlines]
        refine ⟨c :: line, rest, ⟨rfl, ?_⟩, rfl⟩
        rcases hends with ⟨hline, -, hrest⟩ | ⟨pre, rfl, hpre⟩
        · exact .inl ⟨by simpa [Ne.symm hc] using hline, by simp, hrest⟩
        · exact .inr ⟨c :: pre, rfl, by simpa [Ne.symm hc] using hpre⟩


theorem textLines_eq_nil (h : textLines s = []) : s = [] := by
  by_contra hne
  obtain ⟨line, rest, -, heq⟩ := exists_isFirst hne
  rw [h] at heq
  cases heq

theorem textLines_eq_cons {lines : List Text} (h : textLines s = line :: lines) :
    ∃ rest, IsFirst line s rest ∧ textLines rest = lines := by
  have hne : s ≠ [] := by
    rintro rfl
    cases h
  obtain ⟨line', rest, hfirst, heq⟩ := exists_isFirst hne
  obtain ⟨rfl, rfl⟩ := List.cons.inj (h.symm.trans heq)
  exact ⟨rest, hfirst, rfl⟩

theorem cStr_eq_self (h : 0 ∉ s) : cStr s = s := by
  rw [cStr, List.takeWhile_eq_self_iff]
  intro c hc
  simp only [ne_eq, decide_eq_true_eq]
  rintro rfl
  exact h hc

theorem zero_notMem_cStr (s : Text) : 0 ∉ cStr s := by
  intro h
  have hc := List.mem_takeWhile_imp h
  simp at hc

theorem length_cStr_lt (h : 0 ∈ s) : (cStr s).length < s.length := by
  refine lt_of_le_of_ne (List.takeWhile_prefix _).length_le ?_
  intro heq
  have hall : cStr s = s := (List.takeWhile_prefix _).eq_of_length heq
  rw [← hall] at h
  exact zero_notMem_cStr s h

theorem isEnd_eq_false (h : 10 ∉ s) (h' : 0 ∉ s) : ∀ d ∈ s, isEnd d = false := by
  intro d hd
  have hzero : d ≠ 0 := fun heq => h' (heq ▸ hd)
  have hnewline : d ≠ 10 := fun heq => h (heq ▸ hd)
  simp [isEnd, hzero, hnewline]

/-- A line that fits is found as it is. -/
theorem IsFirst.scanBlock_eq (h : IsFirst line s rest) (hfits : Fits line) :
    (scanBlock (s.take 0x10000)).1 = line := by
  obtain ⟨hlength, hzero⟩ := hfits
  obtain ⟨rfl, hends⟩ := h
  have htake : (line ++ rest).take 0x10000 = line ++ rest.take (0x10000 - line.length) := by
    rw [List.take_append, List.take_of_length_le hlength.le]
  rw [htake]
  rcases hends with ⟨hline, -, rfl⟩ | ⟨pre, rfl, hpre⟩
  · rw [List.take_nil, List.append_nil, scanBlock_none (isEnd_eq_false hline hzero)]
  · have hpre0 : 0 ∉ pre := fun h0 => hzero (List.mem_append_left _ h0)
    rw [List.append_assoc, List.singleton_append, scanBlock_some (isEnd_eq_false hpre hpre0) rfl]

theorem IsFirst.readLine_eq (h : IsFirst line s rest) (hfits : Fits line) : readLine s = some (line, rest) := by
  have hne : line ≠ [] := by
    rcases h.ends with ⟨-, hne, -⟩ | ⟨pre, rfl, -⟩
    · exact hne
    · simp
  have hs : s ≠ [] := by
    rw [h.eq]
    simp [hne]
  rw [ReadLine.readLine_eq hs, h.scanBlock_eq hfits, if_pos (.inr hfits.1), cStr_eq_self hfits.2, h.eq,
    List.drop_left]

/-- A line that does not fit is not what is returned. -/
theorem IsFirst.ne_of_not_fits (h : IsFirst line s rest) (hfits : ¬ Fits line) {read rest' : Text}
    (hread : readLine s = some (read, rest')) : read ≠ line := by
  rintro rfl
  have hs : s ≠ [] := by
    rintro rfl
    exact absurd hread (by simp [readLine, readBlocks])
  rw [ReadLine.readLine_eq hs, Option.some_inj, Prod.mk.injEq] at hread
  obtain ⟨hread, -⟩ := hread
  have hzero : 0 ∉ read := hread ▸ zero_notMem_cStr _
  have hlong : 0x10000 ≤ read.length := by
    by_contra hlt
    exact hfits ⟨not_le.mp hlt, hzero⟩
  -- the buffer holds the front of the line, and what is copied out of it is shorter
  have hshort : read.length < 0x10000 := by
    have hbuffer : (scanBlock (s.take 0x10000)).1.length ≤ 0x10000 :=
      (scanBlock_fst _).length_le.trans (List.length_take_le ..)
    rw [← hread]
    split
    · next hcond =>
      rcases hcond with hlast | hlt
      · exact (length_cStr_lt (List.mem_of_getLast? hlast)).trans_le hbuffer
      · exact (List.takeWhile_prefix _).length_le.trans_lt hlt
    · refine (List.takeWhile_prefix _).length_le.trans_lt ?_
      rw [List.length_take]
      omega
  omega

/-! ## All lines -/

/-- Reading a file line by line returns its lines exactly if all of them fit. -/
theorem readLines_iff (s : Text) : readLines s.length s = textLines s ↔ ∀ line ∈ textLines s, Fits line := by
  generalize hn : s.length = n
  have hle : s.length ≤ n := hn.le
  clear hn
  induction n generalizing s with
  | zero =>
    obtain rfl := List.length_eq_zero_iff.mp (Nat.le_zero.mp hle)
    simp [readLines, textLines]
  | succ n ih =>
    by_cases hs : s = []
    · subst hs
      simp [readLines, textLines, readLine, readBlocks]
    · obtain ⟨line, rest, hfirst, hlines⟩ := exists_isFirst hs
      rw [hlines, readLines]
      by_cases hfits : Fits line
      · have hrest : rest.length ≤ n := by
          have hne : line ≠ [] := by
            rcases hfirst.ends with ⟨-, hne, -⟩ | ⟨pre, rfl, -⟩
            · exact hne
            · simp
          have hpos := List.length_pos_iff.mpr hne
          rw [hfirst.eq, List.length_append] at hle
          omega
        rw [hfirst.readLine_eq hfits]
        simp only [List.cons.injEq, true_and, ih rest hrest, List.forall_mem_cons, hfits]
      · have hread := ReadLine.readLine_eq hs
        rw [hread]
        simp only [List.cons.injEq, List.forall_mem_cons, hfits, false_and, iff_false, not_and]
        intro heq
        exact absurd heq (hfirst.ne_of_not_fits hfits hread)

end BofStd.ReadLine
