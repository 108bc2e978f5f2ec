import Mathlib.Data.List.TakeWhile
import BofStd.UrlCode

/-!
# URL escapes
-/

namespace BofStd.UrlCode

variable {c x : UInt8} {s t : List UInt8} {n val : Nat}

/-! ## Characters -/

theorem toInt_of_lt (h : n < 2147483648) : toInt n = n := by
  unfold toInt
  rw [Nat.mod_eq_of_lt (by omega), if_pos h]
  omega

/-- A length that does not fit loses at least `2^31` places. -/
theorem toInt_le (h : 2147483648 ≤ n) : (toInt n).toNat ≤ n - 2147483648 := by
  unfold toInt
  split
  · omega
  · omega

/-- A fact about all bytes. -/
theorem forall_byte {P : UInt8 → Prop} (h : ∀ n < 256, P (UInt8.ofNat n)) (c : UInt8) : P c := by
  rw [← UInt8.ofNat_toNat (x := c)]
  exact h _ c.toNat_lt

theorem isUnreserved_ascii (hc : isUnreserved c) : c < 0x80 ∧ c ≠ '%'.toUInt8 ∧ c ≠ '+'.toUInt8 := by
  revert hc
  exact forall_byte (P := fun c => isUnreserved c → c < 0x80 ∧ c ≠ '%'.toUInt8 ∧ c ≠ '+'.toUInt8)
    (by decide +kernel) c

theorem isUnreserved_digit : ∀ n < 16, isUnreserved (Hex.digit 'A'.toUInt8 n) := by decide

theorem scanHex_digits : ∀ h < 16, ∀ l < 16,
    scanHex [Hex.digit 'A'.toUInt8 h, Hex.digit 'A'.toUInt8 l] = some (16 * h + l) := by decide +kernel

theorem charToInt_of_lt (hc : c < 0x80) : charToInt c = c.toNat := if_pos hc

theorem charToInt_of_le (hc : ¬ c < 0x80) : charToInt c = c.toNat - (256 : Int) := if_neg hc

theorem encodeChar_unreserved (hc : isUnreserved c) : encodeChar c = [c] := if_pos hc

/-- An ASCII character becomes a group. -/
theorem encodeChar_ascii (hc : ¬ isUnreserved c) (hlt : c < 0x80) :
    encodeChar c = ['%'.toUInt8, Hex.digit 'A'.toUInt8 (c.toNat / 16), Hex.digit 'A'.toUInt8 (c.toNat % 16)] := by
  have hnat : c.toNat < 128 := UInt8.lt_iff_toNat_lt.mp hlt
  have hunsigned : toUnsigned (charToInt c) = c.toNat := by
    rw [charToInt_of_lt hlt, toUnsigned]
    omega
  rw [encodeChar, if_neg hc, hunsigned, charToInt_of_lt hlt, Hex.print_one _ (by omega)]
  by_cases hsmall : c.toNat < 16
  · rw [if_pos hsmall, if_pos (by omega), Nat.div_eq_of_lt hsmall, Nat.mod_eq_of_lt hsmall]
    rfl
  · rw [if_neg hsmall, if_neg (by omega)]
    rfl

/-- A negative character becomes a group and seven characters. -/
theorem encodeChar_negative (hc : ¬ c < 0x80) :
    ∃ h < 16, ∃ l < 16, encodeChar c = ['%'.toUInt8, Hex.digit 'A'.toUInt8 0, Hex.digit 'A'.toUInt8 15] ++
      (List.replicate 5 (Hex.digit 'A'.toUInt8 15) ++ [Hex.digit 'A'.toUInt8 h, Hex.digit 'A'.toUInt8 l]) := by
  have hlt := c.toNat_lt
  have hle : ¬ c.toNat < 128 := fun h => hc (UInt8.lt_iff_toNat_lt.mpr h)
  have hunsigned : toUnsigned (charToInt c) = 0xFFFFFF00 + c.toNat := by
    rw [charToInt_of_le hc, toUnsigned]
    omega
  refine ⟨c.toNat / 16, by omega, c.toNat % 16, by omega, ?_⟩
  rw [encodeChar, if_neg (fun h => hc (isUnreserved_ascii h).1), hunsigned, charToInt_of_le hc, if_pos (by omega),
    Hex.print_negative _ hlt]
  rfl

/-! ## The escaped text -/

theorem isSome_value_digit (h : n < 16) : (Hex.value (Hex.digit 'A'.toUInt8 n)).isSome := by
  rw [Hex.value_upper n h]
  rfl

theorem Escaped.append_char (hc : ∀ c ∈ t, isUnreserved c) (hs : Escaped s) : Escaped (t ++ s) := by
  induction t with
  | nil => exact hs
  | cons c t ih =>
    rw [List.forall_mem_cons] at hc
    exact .char hc.1 (ih hc.2)

theorem escaped_encodeChar (c : UInt8) (hs : Escaped s) : Escaped (encodeChar c ++ s) := by
  by_cases hc : isUnreserved c
  · rw [encodeChar_unreserved hc]
    exact .char hc hs
  · by_cases hlt : c < 0x80
    · have hnat : c.toNat < 128 := UInt8.lt_iff_toNat_lt.mp hlt
      rw [encodeChar_ascii hc hlt]
      exact .group (isSome_value_digit (by omega)) (isSome_value_digit (by omega)) hs
    · obtain ⟨h, hh, l, hl, heq⟩ := encodeChar_negative hlt
      rw [heq, List.append_assoc]
      refine .group (isSome_value_digit (by omega)) (isSome_value_digit (by omega)) (hs.append_char ?_)
      intro d hd
      simp only [List.mem_append, List.mem_replicate, List.mem_cons, List.not_mem_nil, or_false] at hd
      rcases hd with ⟨-, rfl⟩ | rfl | rfl
      · exact isUnreserved_digit 15 (by omega)
      · exact isUnreserved_digit h hh
      · exact isUnreserved_digit l hl

theorem escaped_flatMap (s : List UInt8) : Escaped (s.flatMap encodeChar) := by
  induction s with
  | nil => exact .nil
  | cons c s ih =>
    rw [List.flatMap_cons]
    exact escaped_encodeChar c ih

/-! ## Reading it back -/

/-- A group is read as one byte. -/
theorem decodeLoop_group {h l : Nat} (hh : h < 16) (hl : l < 16) (hn : 0 < n) :
    decodeLoop ('%'.toUInt8 :: Hex.digit 'A'.toUInt8 h :: Hex.digit 'A'.toUInt8 l :: s) 0 n val =
      (16 * h + l).toUInt8 :: decodeLoop s 0 (n - 3) (16 * h + l) := by
  simp only [decodeLoop, if_neg (Nat.ne_of_gt hn), ne_eq, not_true_eq_false, if_false, List.take_succ_cons, List.take_zero,
    scanHex_digits h hh l hl, Option.getD_some]
  rfl

/-- The character that is read first, and what is left to read. -/
theorem decodeLoop_encodeChar (hlt : c < 0x80) (hn : 0 < n) (s : List UInt8) (val : Nat) :
    ∃ val', decodeLoop (encodeChar c ++ s) 0 n val = c :: decodeLoop s 0 (n - (encodeChar c).length) val' := by
  by_cases hc : isUnreserved c
  · obtain ⟨-, hpercent, hplus⟩ := isUnreserved_ascii hc
    refine ⟨val, ?_⟩
    rw [encodeChar_unreserved hc, List.singleton_append, decodeLoop, if_neg (Nat.ne_of_gt hn), if_pos hpercent,
      if_neg hplus]
    rfl
  · have hnat : c.toNat < 128 := UInt8.lt_iff_toNat_lt.mp hlt
    have hbyte : (16 * (c.toNat / 16) + c.toNat % 16).toUInt8 = c := by
      rw [Nat.div_add_mod]
      exact UInt8.ofNat_toNat
    refine ⟨16 * (c.toNat / 16) + c.toNat % 16, ?_⟩
    rw [encodeChar_ascii hc hlt, List.cons_append, List.cons_append, List.cons_append, List.nil_append,
      decodeLoop_group (by omega) (by omega) hn, hbyte]
    rfl

/-- A negative character is read as the byte 15. -/
theorem decodeLoop_negative (hc : ¬ c < 0x80) (hn : 0 < n) (s : List UInt8) (val : Nat) :
    ∃ r, decodeLoop (encodeChar c ++ s) 0 n val = 15 :: r := by
  obtain ⟨h, -, l, -, heq⟩ := encodeChar_negative hc
  rw [heq, List.append_assoc]
  exact ⟨_, decodeLoop_group (by omega) (by omega) hn⟩

theorem length_encodeChar (hlt : c < 0x80) : (encodeChar c).length = if isUnreserved c then 1 else 3 := by
  by_cases hc : isUnreserved c
  · rw [encodeChar_unreserved hc, if_pos hc]
    rfl
  · rw [encodeChar_ascii hc hlt, if_neg hc]
    rfl

/-- Plain ASCII is read back. -/
theorem decodeLoop_flatMap (ht : ∀ c ∈ t, c < 0x80) (hn : (t.flatMap encodeChar).length ≤ n) :
    decodeLoop (t.flatMap encodeChar) 0 n val = t := by
  induction t generalizing n val with
  | nil => rfl
  | cons c t ih =>
    rw [List.forall_mem_cons] at ht
    rw [List.flatMap_cons, List.length_append] at hn
    have hlen := length_encodeChar ht.1
    have hpos : 0 < n := by
      split at hlen
      · omega
      · omega
    obtain ⟨val', hread⟩ := decodeLoop_encodeChar ht.1 hpos (t.flatMap encodeChar) val
    rw [List.flatMap_cons, hread, ih ht.2 (by omega)]

theorem decodeLoop_zero (s : List UInt8) (val : Nat) : decodeLoop s 0 0 val = [] := by
  cases s with
  | nil => rfl
  | cons c s => rfl

/-- Only plain ASCII is read back, and only when the last group starts before the end. -/
theorem eq_of_decodeLoop (hpre : t <+: s) (hread : decodeLoop (t.flatMap encodeChar) 0 n val = s) :
    s = t ∧ (∀ c ∈ t, c < 0x80) ∧ (n = 0 → t = []) ∧ (t.flatMap encodeChar).length ≤ n + 2 := by
  induction t generalizing s n val with
  | nil =>
    refine ⟨hread.symm, ?_, fun _ => rfl, Nat.zero_le _⟩
    intro c hc
    exact nomatch hc
  | cons c t ih =>
    obtain ⟨r, rfl⟩ := hpre
    rw [List.cons_append] at hread
    have hn : n ≠ 0 := by
      rintro rfl
      rw [decodeLoop_zero] at hread
      exact nomatch hread
    have hpos := Nat.pos_of_ne_zero hn
    rw [List.flatMap_cons] at hread
    by_cases hlt : c < 0x80
    · obtain ⟨val', hfirst⟩ := decodeLoop_encodeChar hlt hpos (t.flatMap encodeChar) val
      rw [hfirst] at hread
      obtain ⟨hs, hascii, hnil, hlen⟩ := ih ⟨r, rfl⟩ (List.cons.inj hread).2
      rw [List.flatMap_cons, List.length_append, List.cons_append, hs, List.forall_mem_cons]
      refine ⟨rfl, ⟨hlt, hascii⟩, fun h => absurd h hn, ?_⟩
      have hchar := length_encodeChar hlt
      by_cases hshort : n - (encodeChar c).length = 0
      · rw [hnil hshort, List.flatMap_nil, List.length_nil]
        split at hchar
        · omega
        · omega
      · omega
    · obtain ⟨r', hfirst⟩ := decodeLoop_negative hlt hpos (t.flatMap encodeChar) val
      rw [hfirst] at hread
      rw [← (List.cons.inj hread).1] at hlt
      exact absurd (by decide) hlt

/-! ## Round trips -/

theorem length_flatMap_encodeChar (hs : ∀ c ∈ s, c < 0x80) :
    (s.flatMap encodeChar).length = s.length + 2 * s.countP (fun c => !isUnreserved c) := by
  induction s with
  | nil => rfl
  | cons c s ih =>
    rw [List.forall_mem_cons] at hs
    rw [List.flatMap_cons, List.length_append, ih hs.2, length_encodeChar hs.1, List.length_cons, List.countP_cons]
    cases isUnreserved c with
    | false =>
      simp
      omega
    | true =>
      simp
      omega

theorem text_initial (s : List UInt8) (n : Nat) : (s.takeWhile (· ≠ 0)).take n <+: s :=
  (List.take_prefix _ _).trans (List.takeWhile_prefix _)

theorem faithful_of_ascii (hs : IsAscii s) (hfits : Fits s) : Faithful s := by
  have hascii : ∀ c ∈ s, c < 0x80 := fun c hc => (hs c hc).2
  have htext : s.takeWhile (· ≠ 0) = s := by
    rw [List.takeWhile_eq_self_iff]
    intro c hc
    exact decide_eq_true (hs c hc).1
  have hlen := length_flatMap_encodeChar hascii
  unfold Fits at hfits
  have henc : urlEncode s = s.flatMap encodeChar := by
    rw [urlEncode, htext, toInt_of_lt (by omega), Int.toNat_natCast, List.take_length]
  unfold Faithful
  rw [henc]
  refine ⟨escaped_flatMap s, ?_⟩
  intro val
  rw [urlDecode, toInt_of_lt (by omega), Int.toNat_natCast]
  exact decodeLoop_flatMap hascii (Nat.le_refl _)

theorem ascii_of_faithful (h : Faithful s) : IsAscii s ∧ Fits s := by
  have hread := h.2 0
  rw [urlDecode, urlEncode] at hread
  obtain ⟨hs, hascii, -, hlen⟩ := eq_of_decodeLoop (text_initial s _) hread
  rw [← hs] at hascii hlen
  have hnull : ∀ c ∈ s, c ≠ 0 := by
    intro c hc
    rw [hs] at hc
    have htext := List.mem_takeWhile_imp (List.mem_of_mem_take hc)
    exact of_decide_eq_true htext
  constructor
  · intro c hc
    exact ⟨hnull c hc, hascii c hc⟩
  · unfold Fits
    rw [← length_flatMap_encodeChar hascii]
    by_contra hbig
    have hwrap := toInt_le (Nat.le_of_not_lt hbig)
    omega

/-- The escapes are faithful exactly for plain ASCII without a null character that is not too long. -/
theorem faithful_iff (s : List UInt8) : Faithful s ↔ IsAscii s ∧ Fits s :=
  ⟨ascii_of_faithful, fun h => faithful_of_ascii h.1 h.2⟩

/-- The byte `0x80` is read back as `0x0F` and seven characters. -/
theorem not_faithful_negative : ¬ Faithful [0x80] := by
  intro h
  exact absurd (h.2 0) (by decide +kernel)

/-! ## Reading any text -/

theorem length_decodeLoop_le (s : List UInt8) (skip n val : Nat) :
    (decodeLoop s skip n val).length ≤ s.length - skip := by
  induction s generalizing skip n val with
  | nil => exact Nat.zero_le _
  | cons c s ih =>
    cases skip with
    | succ skip =>
      have hle := ih skip (n - 1) val
      rw [List.length_cons, Nat.add_sub_add_right]
      exact hle
    | zero =>
      rw [decodeLoop]
      split
      · exact Nat.zero_le _
      · split
        · have hle := ih 0 (n - 1) val
          exact Nat.succ_le_succ hle
        · have hle := ih 2 (n - 1) ((scanHex (s.take 2)).getD val)
          exact Nat.succ_le_succ (hle.trans (Nat.sub_le _ _))

theorem length_decodeLoop_le_count (s : List UInt8) (skip n val : Nat) : (decodeLoop s skip n val).length ≤ n := by
  induction s generalizing skip n val with
  | nil => exact Nat.zero_le _
  | cons c s ih =>
    cases skip with
    | succ skip => exact (ih skip (n - 1) val).trans (Nat.sub_le _ _)
    | zero =>
      rw [decodeLoop]
      split
      · exact Nat.zero_le _
      · have hpos : 0 < n := Nat.pos_of_ne_zero (by assumption)
        split
        · have hle := ih 0 (n - 1) val
          rw [List.length_cons]
          omega
        · have hle := ih 2 (n - 1) ((scanHex (s.take 2)).getD val)
          rw [List.length_cons]
          omega

theorem length_urlDecode_le (val : Nat) (s : List UInt8) : (urlDecode val s).length ≤ s.length :=
  length_decodeLoop_le s 0 _ val

theorem toInt_lt (n : Nat) : toInt n < 2147483648 := by
  unfold toInt
  split
  · omega
  · have hlt := Nat.mod_lt n (show 0 < 4294967296 by decide)
    omega

theorem length_urlDecode_lt (val : Nat) (s : List UInt8) : (urlDecode val s).length < 2147483648 := by
  have hle := length_decodeLoop_le_count s 0 (toInt s.length).toNat val
  have hlt := toInt_lt s.length
  unfold urlDecode
  omega

theorem decodeLoop_char (hc : c ≠ '%'.toUInt8) (hn : n ≠ 0) (s : List UInt8) (val : Nat) :
    decodeLoop (c :: s) 0 n val = (if c = '+'.toUInt8 then ' '.toUInt8 else c) :: decodeLoop s 0 (n - 1) val := by
  rw [decodeLoop, if_neg hn, if_pos hc]

theorem decodeLoop_eq_self (hs : ∀ c ∈ s, c ≠ '%'.toUInt8 ∧ c ≠ '+'.toUInt8) (hn : s.length ≤ n) :
    decodeLoop s 0 n val = s := by
  induction s generalizing n with
  | nil => rfl
  | cons c s ih =>
    obtain ⟨⟨hpercent, hplus⟩, hs⟩ := List.forall_mem_cons.mp hs
    rw [List.length_cons] at hn
    rw [decodeLoop_char hpercent (by omega), if_neg hplus, ih hs (by omega)]

/-- A text without escapes and blanks is read as it is. -/
theorem urlDecode_eq_self (hs : ∀ c ∈ s, c ≠ '%'.toUInt8 ∧ c ≠ '+'.toUInt8) (hlt : s.length < 2147483648) :
    urlDecode val s = s := by
  apply decodeLoop_eq_self hs
  rw [toInt_of_lt hlt]
  exact Nat.le_refl _

/-- Without escapes, no plus sign is left. -/
theorem plus_notMem_decodeLoop (hs : '%'.toUInt8 ∉ s) : '+'.toUInt8 ∉ decodeLoop s 0 n val := by
  induction s generalizing n with
  | nil => exact List.not_mem_nil
  | cons c s ih =>
    rw [List.mem_cons, not_or] at hs
    by_cases hn : n = 0
    · rw [decodeLoop, if_pos hn]
      exact List.not_mem_nil
    · rw [decodeLoop_char (Ne.symm hs.1) hn, List.mem_cons, not_or]
      refine ⟨?_, ih hs.2⟩
      split
      · decide
      · rename_i hplus
        exact Ne.symm hplus

/-- An escape makes the text shorter, or it is a percent sign at the end, which becomes a null byte. -/
theorem decodeLoop_percent (hs : '%'.toUInt8 ∈ s) :
    (decodeLoop s 0 n 0).length < s.length ∨ '%'.toUInt8 ∉ decodeLoop s 0 n 0 := by
  induction s generalizing n with
  | nil => exact absurd hs List.not_mem_nil
  | cons c s ih =>
    by_cases hn : n = 0
    · rw [decodeLoop, if_pos hn]
      exact .inr List.not_mem_nil
    · by_cases hc : c = '%'.toUInt8
      · rw [decodeLoop, if_neg hn, if_neg fun h => h hc]
        cases s with
        | nil => exact .inr (show '%'.toUInt8 ∉ ([0] : List UInt8) by decide)
        | cons d s =>
          have hle := length_decodeLoop_le (d :: s) 2 (n - 1) ((scanHex ((d :: s).take 2)).getD 0)
          left
          simp only [List.length_cons] at hle ⊢
          omega
      · have hs : '%'.toUInt8 ∈ s := (List.mem_cons.mp hs).resolve_left (Ne.symm hc)
        rw [decodeLoop_char hc hn]
        rcases ih (n := n - 1) hs with hlt | hnot
        · exact .inl (Nat.succ_lt_succ hlt)
        · right
          rw [List.mem_cons, not_or]
          refine ⟨?_, hnot⟩
          split
          · decide
          · exact Ne.symm hc

end BofStd.UrlCode
