import BofStd.DumpMemoryZone
import BofStd.Proofs.BinSerializerProofs

/-!
# `Bof_DumpMemoryZone`: which dumps end

The texts of the source are those of the specification (`lineText_eq`). A line takes as many items as it has room for
(`dumpItems_spec`). With room for one item or more the remaining bytes become fewer with every line; with no room they
stay, and the loop goes on for ever (`dumpsCompletely_iff`).
-/

namespace BofStd

open Bytes Retry

variable {cpu : CpuEndianness} {p : DumpMemoryZoneParam} {mem : Nat → UInt8}

/-! ## The size of the zone -/

theorem AccessSize.bytes_pos (size : AccessSize) : 0 < size.bytes := Nat.two_pow_pos _

theorem AccessSize.bytes_le (size : AccessSize) : size.bytes ≤ 8 := by
  cases size <;> decide

theorem toNat_memoryZoneSizeInByte (h : p.nbItem * p.nbBytePerRead < 2 ^ 31) :
    p.memoryZoneSizeInByte.toNat = p.nbItem * p.nbBytePerRead := by
  have hle := p.AccessSize_E.bytes_le
  have hbytes : (UInt32.ofNat p.nbBytePerRead).toNat = p.nbBytePerRead :=
    UInt32.toNat_ofNat_of_lt' (Nat.lt_of_le_of_lt hle (by decide))
  rw [DumpMemoryZoneParam.memoryZoneSizeInByte, UInt32.toNat_mul, hbytes]
  exact Nat.mod_eq_of_lt (Nat.lt_trans h (by decide))

/-- The mask leaves a number of items alone. -/
theorem toNat_and_mask (size : AccessSize) {v : UInt32} {n : Nat} (h : v.toNat = n * size.bytes) :
    (v &&& size.mask).toNat = v.toNat := by
  have hv := v.toNat_lt
  have hmask : size.mask.toNat = (2 ^ (32 - size.log) - 1) <<< size.log := by
    cases size <;> decide
  have hshift : v.toNat = n <<< size.log := by
    rw [h, Nat.shiftLeft_eq]
    rfl
  have hsplit : 2 ^ (32 - size.log) * 2 ^ size.log = 2 ^ 32 := by
    cases size <;> decide
  rw [UInt32.toNat_and, hmask, hshift, ← Nat.shiftLeft_and_distrib, Nat.and_two_pow_sub_one_eq_mod,
    Nat.mod_eq_of_lt]
  rw [hshift, Nat.shiftLeft_eq, ← hsplit] at hv
  exact Nat.lt_of_mul_lt_mul_right hv

theorem remain_eq (h : p.nbItem * p.nbBytePerRead < 2 ^ 31) : p.remain = (p.nbItem * p.nbBytePerRead : Nat) := by
  have hsize := toNat_memoryZoneSizeInByte h
  have hmask := toNat_and_mask p.AccessSize_E hsize
  show (p.memoryZoneSizeInByte &&& p.AccessSize_E.mask).toBitVec.toInt = _
  have hsmall : 2 * (p.memoryZoneSizeInByte &&& p.AccessSize_E.mask).toBitVec.toNat < 2 ^ 32 := by
    show 2 * (p.memoryZoneSizeInByte &&& p.AccessSize_E.mask).toNat < 2 ^ 32
    omega
  rw [BitVec.toInt_eq_toNat_of_lt hsmall]
  exact congrArg Nat.cast (hmask.trans hsize)

/-! ## The texts -/

theorem digit_eq : ∀ n < 16, Hex.digit 'A'.toUInt8 n = dumpDigit n := by decide

theorem hexaText_eq (w v : Nat) :
    hexaText w v = (List.range w).reverse.map fun i => dumpDigit (v / 16 ^ i % 16) := by
  rw [hexaText, Hex.nibbles_eq, List.map_map]
  exact List.map_congr_left fun i _ => digit_eq _ (Nat.mod_lt _ (by decide))

/-- A number is printed as its bytes, the lowest one last. -/
theorem hexaText_valueLE (l : List UInt8) : hexaText (2 * l.length) (valueLE l) =
    l.reverse.flatMap fun b => [dumpDigit (b.toNat / 16), dumpDigit (b.toNat % 16)] := by
  induction l with
  | nil => rfl
  | cons b l ih =>
    have hb := b.toNat_lt
    rw [valueLE_cons, List.length_cons, Nat.mul_succ, hexaText, Hex.nibbles_byte _ hb, List.map_append,
      List.reverse_cons, List.flatMap_append, ← ih]
    simp [hexaText, digit_eq (b.toNat / 16) (by omega), digit_eq (b.toNat % 16) (by omega)]

theorem length_itemBytes (k : Nat) : (itemBytes p mem k).length = p.nbBytePerRead := Memory.length_read ..

theorem itemText_eq (k : Nat) :
    p.itemText cpu (itemBytes p mem k) = dumpBytes cpu p mem k ++ [p.Separator_c] := by
  have hlength := @length_itemBytes p mem k
  rw [DumpMemoryZoneParam.itemText, dumpBytes, dumpNumber, ← hlength]
  generalize itemBytes p mem k = bytes
  have hsame := hexaText_valueLE bytes
  have hturned := hexaText_valueLE bytes.reverse
  rw [List.length_reverse, List.reverse_reverse] at hturned
  cases cpu <;> cases p.ReverseEndianness_B <;>
    simp [CpuEndianness.load, hsame, hturned, DumpMemoryZoneParam.hexaPrefix]

theorem offsetText_eq (offset : UInt64) :
    p.offsetText offset = dumpOffset p offset.toNat ++ [p.Separator_c, p.Separator_c, p.Separator_c] := by
  have hwidth : 0xFFFFFFFF < offset ↔ ¬ offset.toNat < 2 ^ 32 := by
    rw [UInt64.lt_iff_toNat_lt, Nat.not_lt]
    exact Nat.succ_le_iff.symm
  rw [DumpMemoryZoneParam.offsetText, dumpOffset, dumpNumber, DumpMemoryZoneParam.hexaPrefix, hexaText_eq]
  simp only [hwidth, ite_not]
  rfl

/-- The text of a line in the words of the model. -/
theorem lineText_eq (i : Nat) (items : List Nat) : lineText cpu p mem i items =
    (if p.GenerateVirtualOffset then
      p.offsetText (p.virtualOffset + UInt64.ofNat (i * (p.nbItemPerLine * p.nbBytePerRead))) else []) ++
    (items.flatMap fun k => p.itemText cpu (itemBytes p mem k)) ++
    (List.replicate (p.nbItemPerLine - items.length) p.blankItem).flatten ++
    (if p.GenerateAsciiData_B then
      (items.flatMap fun k => (itemBytes p mem k).map asciiChar) ++
        List.replicate ((p.nbItemPerLine - items.length) * p.nbBytePerRead) ' '.toUInt8 else []) ++
    ['\n'.toUInt8] := by
  have hascii : asciiChar = fun b : UInt8 => if 32 ≤ b ∧ b ≤ 127 then b else '?'.toUInt8 := by
    funext b
    simp only [asciiChar, ← UInt8.not_le, ← not_and_or, ite_not]
  have hwidth : p.hexaPrefix.length = if p.ShowHexaPrefix_B then 2 else 0 := by
    unfold DumpMemoryZoneParam.hexaPrefix
    split <;> rfl
  simp only [lineText, itemText_eq, offsetText_eq, hascii, DumpMemoryZoneParam.blankItem,
    List.flatten_replicate_replicate, hwidth]

/-! ## A line -/

/-- What an item leaves of the offsets that are read. -/
theorem mem_itemReads {k i : Nat} {flag : Bool} (hk : k < p.nbItem)
    (hmem : i ∈ if flag then List.range' (k * p.nbBytePerRead) p.nbBytePerRead else []) :
    i < p.nbItem * p.nbBytePerRead := by
  cases flag with
  | false => exact absurd hmem List.not_mem_nil
  | true =>
    have hlt := (List.mem_range'_1.mp hmem).2
    have hle := Nat.mul_le_mul_right p.nbBytePerRead (Nat.succ_le_of_lt hk)
    rw [Nat.succ_mul] at hle
    omega

/-- The variables of a line behind `m` items, from the item `k` on, and `blanks` blanks. -/
structure Lists (cpu : CpuEndianness) (p : DumpMemoryZoneParam) (mem : Nat → UInt8) (k m blanks : Nat)
    (l l' : DumpLine) : Prop where
  remain : l'.Remain_S32 = l.Remain_S32 - (m * p.nbBytePerRead : Nat)
  index : l'.IndexInMemoryZone_U32 = (k + m) * p.nbBytePerRead
  binary : l'.binary = l.binary ++ if p.GenerateBinaryData_B then
    ((List.range' k m).flatMap fun j => p.itemText cpu (itemBytes p mem j)) ++
      (List.replicate blanks p.blankItem).flatten else []
  ascii : l'.ascii = l.ascii ++ if p.GenerateAsciiData_B then
    ((List.range' k m).flatMap fun j => (itemBytes p mem j).map asciiChar) ++
      List.replicate (blanks * p.nbBytePerRead) ' '.toUInt8 else []
  reads : ∀ i ∈ l'.reads, i ∈ l.reads ∨ i < p.nbItem * p.nbBytePerRead

/-- No items and no blanks. -/
theorem lists_nothing {k : Nat} {l : DumpLine} (hi : l.IndexInMemoryZone_U32 = k * p.nbBytePerRead) :
    Lists cpu p mem k 0 0 l l := by
  refine ⟨by simp, by simp [hi], ?_, ?_, fun i hmem => .inl hmem⟩
  · cases p.GenerateBinaryData_B <;> simp
  · cases p.GenerateAsciiData_B <;> simp

/-- An item behind the last one. -/
theorem dumpItem_of_le {l : DumpLine} (h : p.nbItem * p.nbBytePerRead < 2 ^ 31)
    (hi : l.IndexInMemoryZone_U32 = p.nbItem * p.nbBytePerRead) :
    dumpItem cpu p mem l = { l with
      binary := l.binary ++ if p.GenerateBinaryData_B then p.blankItem else []
      ascii := l.ascii ++ if p.GenerateAsciiData_B then List.replicate p.nbBytePerRead ' '.toUInt8 else [] } := by
  have hend : p.memoryZoneSizeInByte.toNat ≤ l.IndexInMemoryZone_U32 := by rw [toNat_memoryZoneSizeInByte h, hi]
  unfold dumpItem
  dsimp only
  rw [if_pos hend]

/-- An item of the zone. -/
theorem dumpItem_of_lt {k : Nat} {l : DumpLine} (h : p.nbItem * p.nbBytePerRead < 2 ^ 31) (hk : k < p.nbItem)
    (hi : l.IndexInMemoryZone_U32 = k * p.nbBytePerRead) :
    dumpItem cpu p mem l = {
      Remain_S32 := l.Remain_S32 - p.nbBytePerRead
      IndexInMemoryZone_U32 := k * p.nbBytePerRead + p.nbBytePerRead
      binary := l.binary ++ if p.GenerateBinaryData_B then p.itemText cpu (itemBytes p mem k) else []
      ascii := l.ascii ++ if p.GenerateAsciiData_B then (itemBytes p mem k).map asciiChar else []
      reads := l.reads ++
        (if p.GenerateBinaryData_B then List.range' (k * p.nbBytePerRead) p.nbBytePerRead else []) ++
        if p.GenerateAsciiData_B then List.range' (k * p.nbBytePerRead) p.nbBytePerRead else [] } := by
  have hmore : ¬ p.memoryZoneSizeInByte.toNat ≤ l.IndexInMemoryZone_U32 := by
    rw [toNat_memoryZoneSizeInByte h, hi, Nat.not_le]
    exact Nat.mul_lt_mul_of_pos_right hk p.AccessSize_E.bytes_pos
  unfold dumpItem
  dsimp only
  rw [if_neg hmore, hi]
  rfl

/-- Behind the last item there are only blanks. -/
theorem dumpItems_blank (h : p.nbItem * p.nbBytePerRead < 2 ^ 31) (count : Nat) (l : DumpLine)
    (hi : l.IndexInMemoryZone_U32 = p.nbItem * p.nbBytePerRead) :
    Lists cpu p mem p.nbItem 0 count l (dumpItems cpu p mem count l) := by
  induction count generalizing l with
  | zero => exact lists_nothing hi
  | succ count ih =>
    have hstep := @dumpItem_of_le cpu p mem l h hi
    have hrest := ih (dumpItem cpu p mem l) (by rw [hstep]; exact hi)
    rw [dumpItems]
    refine ⟨?_, hrest.index, ?_, ?_, ?_⟩
    · rw [hrest.remain, hstep]
    · rw [hrest.binary, hstep]
      cases p.GenerateBinaryData_B with
      | false => simp
      | true => simp [List.replicate_succ]
    · rw [hrest.ascii, hstep]
      cases p.GenerateAsciiData_B with
      | false => simp
      | true =>
        simp only [if_true, List.range'_zero, List.flatMap_nil, List.nil_append, List.append_assoc,
          List.replicate_append_replicate]
        rw [Nat.succ_mul, Nat.add_comm]
    · intro i hmem
      have hold := hrest.reads i hmem
      rwa [hstep] at hold

/-- The items of a line: those that are left, and blanks behind them. -/
theorem dumpItems_spec (h : p.nbItem * p.nbBytePerRead < 2 ^ 31) (count k : Nat) (l : DumpLine)
    (hk : k ≤ p.nbItem) (hi : l.IndexInMemoryZone_U32 = k * p.nbBytePerRead) :
    Lists cpu p mem k (min count (p.nbItem - k)) (count - min count (p.nbItem - k)) l
      (dumpItems cpu p mem count l) := by
  induction count generalizing k l with
  | zero =>
    rw [Nat.zero_min, Nat.zero_sub]
    exact lists_nothing hi
  | succ count ih =>
    rcases Nat.eq_or_lt_of_le hk with rfl | hlt
    · rw [Nat.sub_self, Nat.min_zero, Nat.sub_zero]
      exact dumpItems_blank h _ l hi
    · have hmin : min (count + 1) (p.nbItem - k) = min count (p.nbItem - (k + 1)) + 1 := by omega
      have hstep := @dumpItem_of_lt cpu p mem k l h hlt hi
      have hrest := ih (k + 1) (dumpItem cpu p mem l) hlt (by rw [hstep, Nat.succ_mul])
      rw [hmin, Nat.add_sub_add_right, dumpItems]
      generalize min count (p.nbItem - (k + 1)) = m at hrest
      refine ⟨?_, ?_, ?_, ?_, ?_⟩
      · rw [hrest.remain, hstep, Nat.succ_mul]
        dsimp only
        omega
      · rw [hrest.index, Nat.add_right_comm, Nat.add_assoc]
      · rw [hrest.binary, hstep, List.range'_succ]
        cases p.GenerateBinaryData_B with
        | false => simp
        | true => simp
      · rw [hrest.ascii, hstep, List.range'_succ]
        cases p.GenerateAsciiData_B with
        | false => simp
        | true => simp
      · intro i hmem
        rcases hrest.reads i hmem with hold | hnew
        · rw [hstep] at hold
          rcases List.mem_append.mp hold with hold | hascii
          · rcases List.mem_append.mp hold with hold | hbinary
            · exact .inl hold
            · exact .inr (mem_itemReads hlt hbinary)
          · exact .inr (mem_itemReads hlt hascii)
        · exact .inr hnew

/-! ## All lines -/

/-- The variables behind some lines. -/
structure Dumped (cpu : CpuEndianness) (p : DumpMemoryZoneParam) (mem : Nat → UInt8) (lines : List (List Nat)) (n : Nat)
    (s : DumpState) : Prop where
  listed : lines.flatten = List.range n
  le : n ≤ p.nbItem
  remain : s.Remain_S32 = ((p.nbItem - n) * p.nbBytePerRead : Nat)
  index : s.IndexInMemoryZone_U32 = n * p.nbBytePerRead
  offset : s.VirtualOffset_S64 =
    p.virtualOffset + UInt64.ofNat (lines.length * (p.nbItemPerLine * p.nbBytePerRead))
  full : n < p.nbItem → ∀ line ∈ lines, line.length = p.nbItemPerLine
  front : ∀ line ∈ lines.dropLast, line.length = p.nbItemPerLine
  bounds : ∀ line ∈ lines, 0 < line.length ∧ line.length ≤ p.nbItemPerLine
  text : p.GenerateBinaryData_B = true → s.Rts_S = lines.zipIdx.flatMap fun line => lineText cpu p mem line.2 line.1
  reads : ∀ i ∈ s.reads, i < p.nbItem * p.nbBytePerRead

/-- The offset of the next line. -/
theorem offset_succ (start : UInt64) (i size : Nat) :
    start + UInt64.ofNat (i * size) + UInt64.ofNat size = start + UInt64.ofNat ((i + 1) * size) := by
  rw [Nat.succ_mul, UInt64.ofNat_add, UInt64.add_assoc]

/-- One more line. -/
theorem Dumped.step {lines : List (List Nat)} {n : Nat} {s : DumpState} (hs : Dumped cpu p mem lines n s)
    (h : p.nbItem * p.nbBytePerRead < 2 ^ 31) (hline : 0 < p.nbItemPerLine) (hn : n < p.nbItem) :
    ∃ s', dumpLine cpu p mem s = .again s' ∧
      Dumped cpu p mem (lines ++ [List.range' n (min p.nbItemPerLine (p.nbItem - n))])
        (n + min p.nbItemPerLine (p.nbItem - n)) s' := by
  have hpos : 0 < s.Remain_S32 := by
    have hbytes := Nat.mul_pos (Nat.sub_pos_of_lt hn) p.AccessSize_E.bytes_pos
    rw [hs.remain]
    exact Int.natCast_pos.mpr hbytes
  refine ⟨_, if_pos hpos, ?_⟩
  have hitems := @dumpItems_spec cpu p mem h p.nbItemPerLine n {
      Remain_S32 := s.Remain_S32
      IndexInMemoryZone_U32 := s.IndexInMemoryZone_U32
      binary := if p.GenerateVirtualOffset then p.offsetText s.VirtualOffset_S64 else []
      ascii := []
      reads := s.reads } hs.le hs.index
  generalize dumpItems cpu p mem p.nbItemPerLine _ = l at hitems
  have hm : min p.nbItemPerLine (p.nbItem - n) ≤ p.nbItem - n ∧ 0 < min p.nbItemPerLine (p.nbItem - n) ∧
      min p.nbItemPerLine (p.nbItem - n) ≤ p.nbItemPerLine ∧
      (n + min p.nbItemPerLine (p.nbItem - n) < p.nbItem →
        min p.nbItemPerLine (p.nbItem - n) = p.nbItemPerLine) := by omega
  generalize min p.nbItemPerLine (p.nbItem - n) = m at hitems hm
  obtain ⟨hle, hmpos, hmline, hfull⟩ := hm
  constructor
  · rw [List.flatten_append, hs.listed, List.flatten_singleton, List.range_eq_range', List.range_eq_range',
      ← List.range'_append_1, Nat.zero_add]
  · omega
  · have hsplit : (p.nbItem - n) * p.nbBytePerRead =
        (p.nbItem - (n + m)) * p.nbBytePerRead + m * p.nbBytePerRead := by
      rw [← Nat.add_mul]
      congr 1
      omega
    rw [hitems.remain]
    dsimp only
    rw [hs.remain, hsplit]
    omega
  · exact hitems.index
  · dsimp only
    rw [hs.offset, offset_succ, List.length_append, List.length_singleton]
  · intro hlt
    refine List.forall_mem_append.mpr ⟨hs.full hn, List.forall_mem_singleton.mpr ?_⟩
    rw [List.length_range', hfull hlt]
  · rw [List.dropLast_concat]
    exact hs.full hn
  · refine List.forall_mem_append.mpr ⟨hs.bounds, List.forall_mem_singleton.mpr ?_⟩
    rw [List.length_range']
    exact ⟨hmpos, hmline⟩
  · intro hbinary
    dsimp only
    rw [hs.text hbinary, hitems.binary, hitems.ascii, if_pos hbinary, if_pos hbinary, List.zipIdx_append,
      List.flatMap_append, hs.offset]
    cases hascii : p.GenerateAsciiData_B with
    | false => simp [lineText_eq, hascii]
    | true => simp [lineText_eq, hascii]
  · intro i hmem
    rcases hitems.reads i hmem with hold | hnew
    · exact hs.reads i hold
    · exact hnew

/-- The loop lists what is left. -/
theorem Dumped.loop {lines : List (List Nat)} {n : Nat} {s : DumpState} (hs : Dumped cpu p mem lines n s)
    (h : p.nbItem * p.nbBytePerRead < 2 ^ 31) (hline : 0 < p.nbItemPerLine ∨ n = p.nbItem) :
    ∃ rounds lines' s', loop (dumpLine cpu p mem) rounds s = some s' ∧ Dumped cpu p mem lines' p.nbItem s' := by
  induction hleft : p.nbItem - n using Nat.strong_induction_on generalizing lines n s with
  | h left ih =>
    rcases Nat.eq_or_lt_of_le hs.le with heq | hlt
    · have hstop : ¬ 0 < s.Remain_S32 := by
        rw [hs.remain, heq, Nat.sub_self, Nat.zero_mul]
        decide
      refine ⟨1, lines, s, loop_stop (show dumpLine cpu p mem s = .stop s from if_neg hstop) 0, ?_⟩
      rwa [heq] at hs
    · have hpos := hline.resolve_right (by omega)
      obtain ⟨s', hagain, hs'⟩ := hs.step h hpos hlt
      have hmin : 0 < min p.nbItemPerLine (p.nbItem - n) := by omega
      obtain ⟨rounds, lines', s'', hloop, hend⟩ := ih _ (by omega) hs' (.inl hpos) rfl
      exact ⟨rounds + 1, lines', s'', by rw [loop_again hagain, hloop], hend⟩

/-- In front of the first line. -/
def startState (p : DumpMemoryZoneParam) : DumpState where
  Remain_S32 := p.remain
  IndexInMemoryZone_U32 := 0
  VirtualOffset_S64 := p.virtualOffset
  Rts_S := []
  reads := []

theorem dumped_start (h : p.nbItem * p.nbBytePerRead < 2 ^ 31) : Dumped cpu p mem [] 0 (startState p) where
  listed := rfl
  le := Nat.zero_le _
  remain := remain_eq h
  index := (Nat.zero_mul _).symm
  offset := by simp [startState]
  full _ := nofun
  front := nofun
  bounds := nofun
  text _ := rfl
  reads := nofun

/-- Lines without items never come to an end. -/
theorem not_returns_empty_lines (hline : p.nbItemPerLine = 0) {s : DumpState} (hs : 0 < s.Remain_S32) :
    ¬ Returns (dumpLine cpu p mem) s := by
  let inv : DumpState → Prop := fun s => 0 < s.Remain_S32
  have hagain : ∀ s, inv s → ∃ s', dumpLine cpu p mem s = .again s' ∧ inv s' := by
    intro s hpos
    refine ⟨_, if_pos hpos, ?_⟩
    rw [hline]
    exact hpos
  exact not_returns_of_inv hagain hs

/-- A dump ends and is complete exactly if its lines have room for an item, or there is nothing to dump. -/
theorem dumpsCompletely_iff (cpu : CpuEndianness) (p : DumpMemoryZoneParam) (mem : Nat → UInt8) (h : p.Accepted) :
    DumpsCompletely cpu p mem ↔ p.NbItemPerLine_U32 ≠ 0 ∨ p.NbItemToDump_U32 = 0 ∨
      ¬ (p.GenerateVirtualOffset ∨ p.GenerateBinaryData_B ∨ p.GenerateAsciiData_B) := by
  by_cases hflags : p.GenerateVirtualOffset ∨ p.GenerateBinaryData_B ∨ p.GenerateAsciiData_B
  · have hdump : ∀ rounds, dumpMemoryZone cpu p mem rounds =
        (loop (dumpLine cpu p mem) rounds (startState p)).map fun s => (s.Rts_S, s.reads) := by
      intro rounds
      unfold dumpMemoryZone
      rw [if_pos ⟨h.zone, h.separator⟩, if_pos hflags, if_pos h.line]
      rfl
    have hzero : ∀ v : UInt32, v.toNat = 0 ↔ v = 0 := fun v => @UInt32.toNat_inj v 0
    have hline : 0 < p.nbItemPerLine ↔ p.NbItemPerLine_U32 ≠ 0 := by
      rw [Nat.pos_iff_ne_zero]
      exact not_congr (hzero _)
    have hitem : 0 = p.nbItem ↔ p.NbItemToDump_U32 = 0 := eq_comm.trans (hzero _)
    rw [or_iff_left (not_not_intro hflags), ← hline, ← hitem]
    constructor
    · rintro ⟨rounds, text, reads, hends, -⟩
      by_contra hnot
      obtain ⟨hempty, hmore⟩ := not_or.mp hnot
      have hpos : 0 < (startState p).Remain_S32 := by
        show 0 < p.remain
        rw [remain_eq h.size]
        exact Int.natCast_pos.mpr (Nat.mul_pos (by omega) p.AccessSize_E.bytes_pos)
      rw [hdump, Option.map_eq_some_iff] at hends
      obtain ⟨s, hloop, -⟩ := hends
      have hline0 : p.nbItemPerLine = 0 := by omega
      exact not_returns_empty_lines hline0 hpos ⟨rounds, Option.isSome_of_mem hloop⟩
    · intro hroom
      obtain ⟨rounds, lines, s, hloop, hend⟩ := (dumped_start h.size).loop h.size hroom
      refine ⟨rounds, s.Rts_S, s.reads, by rw [hdump, hloop]; rfl, hend.reads, fun hbinary => ?_⟩
      exact ⟨lines, hend.listed, hend.front, hend.bounds, hend.text hbinary⟩
  · refine iff_of_true ⟨0, [], [], ?_, nofun, fun hbinary => absurd (.inr (.inl hbinary)) hflags⟩ (.inr (.inr hflags))
    unfold dumpMemoryZone
    rw [if_pos ⟨h.zone, h.separator⟩, if_neg hflags]

/-- A dump of five 16-bit items with two in a line. -/
theorem dumpsCompletely_five : DumpsCompletely .little
    { NbItemToDump_U32 := 5, pMemoryZone := 0x1000, NbItemPerLine_U32 := 2, AccessSize_E := .size16 } fun _ => 65 :=
  (dumpsCompletely_iff .little _ _ ⟨by decide, by decide, by decide, by decide⟩).mpr (.inl (by decide))

/-- With no items in a line the dump of one byte goes on for ever. -/
theorem not_dumpsCompletely_no_items : ¬ DumpsCompletely .little
    { NbItemToDump_U32 := 1, pMemoryZone := 0x1000, NbItemPerLine_U32 := 0 } fun _ => 65 := by
  rintro ⟨rounds, text, reads, hends, -⟩
  obtain ⟨s, hloop, -⟩ := Option.map_eq_some_iff.mp hends
  exact not_returns_empty_lines (p := { NbItemToDump_U32 := 1, pMemoryZone := 0x1000, NbItemPerLine_U32 := 0 })
    rfl (by decide) ⟨rounds, Option.isSome_of_mem hloop⟩

end BofStd
