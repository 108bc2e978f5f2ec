import BofStd.BinSerializer

/-!
# `BofBinSerializer`: what is written is read back

On either CPU the swap macros and the native store together give the digits of the word in the order of
the stream (`store_toStream`), and the native load and the macros take them back (`ofStream_load`). All
the overloads of `ToByte` and `FromByte` come down to these two (`toByte_eq`, `fromByte_eq`), and the
sequences of calls follow by induction.
-/

namespace BofStd

open Bytes

/-- The digits of a word in the order of the stream. -/
def streamBytes (stream : StreamEndianness) (w v : Nat) : List UInt8 :=
  if stream = .isBigEndian then (bytesLE w v).reverse else bytesLE w v

@[simp] theorem length_streamBytes (stream : StreamEndianness) (w v : Nat) :
    (streamBytes stream w v).length = w := by
  unfold streamBytes
  split <;> simp

theorem streamBytes_one (stream : StreamEndianness) (x : UInt8) : streamBytes stream 1 x.toNat = [x] := by
  have hle : bytesLE 1 x.toNat = [x] := by
    rw [bytesLE, bytesLE, UInt8.ofNat_toNat]
  rw [streamBytes, hle]
  split_ifs <;> rfl

/-! ## Swapping -/

theorem isCpuLittleEndian_iff (cpu : CpuEndianness) : cpu.isCpuLittleEndian = decide (cpu = .little) := by
  cases cpu with
  | big => decide
  | little => decide

theorem bswap_lt (w v : Nat) : bswap w v < 256 ^ w := by
  have h := valueLE_lt (bytesLE w v).reverse
  rw [List.length_reverse, length_bytesLE] at h
  exact h

theorem bytesLE_bswap (w v : Nat) : bytesLE w (bswap w v) = (bytesLE w v).reverse := by
  have h := bytesLE_valueLE (bytesLE w v).reverse
  rw [List.length_reverse, length_bytesLE] at h
  exact h

/-- The word of one byte is not swapped, which makes no difference. -/
theorem endianScalar_true {w v : Nat} (h : v < 256 ^ w) : endianScalar true w v = bswap w v := by
  rw [endianScalar, if_pos rfl]
  split_ifs with hw
  · subst hw
    have hone : (bytesLE 1 v).reverse = bytesLE 1 v := rfl
    rw [bswap, hone, valueLE_bytesLE h]
  · rfl

/-- What the CPU stores are the digits in the order of the stream. -/
theorem store_toStream (s : BinSerializer) {w v : Nat} (h : v < 256 ^ w) :
    s.cpu.store w (if s.isStreamBigEndian then s.cpu.cpuToBe w v else s.cpu.cpuToLe w v) =
      streamBytes s.mEndianness_E w v := by
  obtain ⟨cpu, stream⟩ := s
  by_cases hb : stream = .isBigEndian
  · simp only [BinSerializer.isStreamBigEndian, hb, decide_true, if_true, streamBytes,
      CpuEndianness.cpuToBe, isCpuLittleEndian_iff]
    cases cpu with
    | big => rfl
    | little =>
      rw [decide_eq_true rfl, endianScalar_true h]
      exact bytesLE_bswap w v
  · simp only [BinSerializer.isStreamBigEndian, hb, decide_false, Bool.false_eq_true, if_false,
      streamBytes, CpuEndianness.cpuToLe, isCpuLittleEndian_iff]
    cases cpu with
    | big =>
      rw [show (!decide (CpuEndianness.big = .little)) = true from rfl, endianScalar_true h]
      show (bytesLE w (bswap w v)).reverse = _
      rw [bytesLE_bswap, List.reverse_reverse]
    | little => rfl

/-- The CPU loads what it has stored. -/
theorem CpuEndianness.load_store (cpu : CpuEndianness) {w v : Nat} (h : v < 256 ^ w) : cpu.load (cpu.store w v) = v := by
  cases cpu with
  | big => exact (congrArg valueLE (List.reverse_reverse _)).trans (valueLE_bytesLE h)
  | little => exact valueLE_bytesLE h

theorem CpuEndianness.load_lt (cpu : CpuEndianness) (l : List UInt8) : cpu.load l < 256 ^ l.length := by
  cases cpu with
  | big => exact l.length_reverse ▸ valueLE_lt l.reverse
  | little => exact valueLE_lt l

theorem CpuEndianness.store_load (cpu : CpuEndianness) (l : List UInt8) : cpu.store l.length (cpu.load l) = l := by
  cases cpu with
  | big =>
    show (bytesLE l.length (valueLE l.reverse)).reverse = l
    rw [← l.length_reverse, bytesLE_valueLE, List.reverse_reverse]
  | little => exact bytesLE_valueLE l

/-- The CPU loads the word whose digits are in the stream. -/
theorem ofStream_load (s : BinSerializer) {w v : Nat} (h : v < 256 ^ w) :
    (if s.isStreamBigEndian then s.cpu.cpuToBe w (s.cpu.load (streamBytes s.mEndianness_E w v))
      else s.cpu.cpuToLe w (s.cpu.load (streamBytes s.mEndianness_E w v))) = v := by
  obtain ⟨cpu, stream⟩ := s
  have hswap : endianScalar true w (valueLE (bytesLE w v).reverse) = v := by
    rw [← bswap, endianScalar_true (bswap_lt w v), bswap, bytesLE_bswap, List.reverse_reverse,
      valueLE_bytesLE h]
  by_cases hb : stream = .isBigEndian
  · simp only [BinSerializer.isStreamBigEndian, hb, decide_true, if_true, streamBytes,
      CpuEndianness.cpuToBe, isCpuLittleEndian_iff]
    cases cpu with
    | big =>
      show valueLE (bytesLE w v).reverse.reverse = v
      rw [List.reverse_reverse, valueLE_bytesLE h]
    | little => exact hswap
  · simp only [BinSerializer.isStreamBigEndian, hb, decide_false, Bool.false_eq_true, if_false,
      streamBytes, CpuEndianness.cpuToLe, isCpuLittleEndian_iff]
    cases cpu with
    | big => exact hswap
    | little => exact valueLE_bytesLE h

/-! ## Patterns -/

theorem toNat_toInt_emod {n : Nat} (x : BitVec n) : (x.toInt % (2 ^ n : Nat)).toNat = x.toNat := by
  rw [BitVec.toInt_eq_toNat_bmod, Int.bmod_emod, ← Int.natCast_mod, Int.toNat_natCast,
    Nat.mod_eq_of_lt x.isLt]

/-- The digits of a value are those of its pattern. -/
theorem bytes_eq_streamBytes (stream : StreamEndianness) (v : BinValue) :
    v.bytes stream = streamBytes stream v.1.width v.pattern := by
  refine List.ext_getElem? fun k => ?_
  by_cases hk : k < v.1.width
  · rw [BinValue.bytes, List.getElem?_map, List.getElem?_range hk, Option.map_some, streamBytes]
    split_ifs
    · rw [List.getElem?_reverse (by simpa using hk), length_bytesLE, getElem?_bytesLE _ (by omega)]
    · rw [getElem?_bytesLE _ hk]
  · rw [List.getElem?_eq_none (by simp [BinValue.bytes]; omega), List.getElem?_eq_none (by simp; omega)]

theorem pattern_lt (v : BinValue) : v.pattern < 256 ^ v.1.width := by
  obtain ⟨ty, v⟩ := v
  have hs : ∀ {n : Nat} (x : BitVec n), (x.toInt % (2 ^ n : Nat)).toNat < 2 ^ n := fun x => by
    rw [toNat_toInt_emod]
    exact x.isLt
  cases ty with
  | u8 => exact UInt8.toNat_lt v
  | s8 => exact hs (Int8.toBitVec v)
  | u16 => exact UInt16.toNat_lt v
  | s16 => exact hs (Int16.toBitVec v)
  | u32 => exact UInt32.toNat_lt v
  | s32 => exact hs (Int32.toBitVec v)
  | u64 => exact UInt64.toNat_lt v
  | s64 => exact hs (Int64.toBitVec v)
  | char => exact UInt8.toNat_lt v
  | float => exact UInt32.toNat_lt v
  | bool => exact Nat.lt_trans (Bool.toNat_lt v) (show 2 < 256 ^ 1 by decide)

/-! ## The overloads -/

variable (s : BinSerializer) (idx : Nat) (buffer : Nat → UInt8) (size : Nat)

theorem toByteU8_eq (x : UInt8) :
    BinSerializer.toByteU8 x idx buffer size =
      if idx + 1 ≤ size then (1, Memory.write buffer idx (streamBytes s.mEndianness_E 1 x.toNat))
      else (0, buffer) := by
  rw [streamBytes_one]
  rfl

theorem toByteWord_eq {w v : Nat} (h : v < 256 ^ w) :
    s.toByteWord w v idx buffer size =
      if idx + w ≤ size then (w, Memory.write buffer idx (streamBytes s.mEndianness_E w v))
      else (0, buffer) := by
  rw [BinSerializer.toByteWord, store_toStream s h]

/-- `ToByte`: the digits of the value are written if they fit. -/
theorem toByte_eq (v : BinValue) :
    s.toByte v.1 v.2 idx buffer size =
      if idx + v.1.width ≤ size then (v.1.width, Memory.write buffer idx (v.bytes s.mEndianness_E))
      else (0, buffer) := by
  rw [bytes_eq_streamBytes]
  have hlt := pattern_lt v
  obtain ⟨ty, v⟩ := v
  cases ty with
  | u8 => exact toByteU8_eq s idx buffer size v
  | s8 =>
    rw [show BinValue.pattern ⟨.s8, v⟩ = _ from toNat_toInt_emod (Int8.toBitVec v)]
    exact toByteU8_eq s idx buffer size (Int8.toUInt8 v)
  | u16 => exact toByteWord_eq s idx buffer size hlt
  | s16 =>
    rw [show BinValue.pattern ⟨.s16, v⟩ = _ from toNat_toInt_emod (Int16.toBitVec v)] at hlt ⊢
    exact toByteWord_eq s idx buffer size hlt
  | u32 => exact toByteWord_eq s idx buffer size hlt
  | s32 =>
    rw [show BinValue.pattern ⟨.s32, v⟩ = _ from toNat_toInt_emod (Int32.toBitVec v)] at hlt ⊢
    exact toByteWord_eq s idx buffer size hlt
  | u64 => exact toByteWord_eq s idx buffer size hlt
  | s64 =>
    rw [show BinValue.pattern ⟨.s64, v⟩ = _ from toNat_toInt_emod (Int64.toBitVec v)] at hlt ⊢
    exact toByteWord_eq s idx buffer size hlt
  | char => exact toByteU8_eq s idx buffer size v
  | float => exact toByteWord_eq s idx buffer size hlt
  | bool =>
    cases (v : Bool) with
    | false => exact toByteU8_eq s idx buffer size 0
    | true => exact toByteU8_eq s idx buffer size 1

variable {s idx buffer size}

theorem fromByteU8_eq {x : UInt8} (old : UInt8) (hfit : idx + 1 ≤ size)
    (hread : Memory.read buffer idx 1 = streamBytes s.mEndianness_E 1 x.toNat) :
    BinSerializer.fromByteU8 old idx buffer size = (1, x) := by
  rw [streamBytes_one] at hread
  have hx : buffer idx = x := List.head_eq_of_cons_eq hread
  rw [BinSerializer.fromByteU8, if_pos hfit, hx]

theorem fromByteWord_eq {w v : Nat} (old : Nat) (h : v < 256 ^ w) (hfit : idx + w ≤ size)
    (hread : Memory.read buffer idx w = streamBytes s.mEndianness_E w v) :
    s.fromByteWord w old idx buffer size = (w, v) := by
  rw [BinSerializer.fromByteWord, if_pos hfit, hread]
  exact Prod.ext rfl (ofStream_load s h)

/-- `FromByte`: the value whose digits are in the stream. -/
theorem fromByte_eq (v : BinValue) (old : v.1.Val) (hfit : idx + v.1.width ≤ size)
    (hread : Memory.read buffer idx v.1.width = v.bytes s.mEndianness_E) :
    s.fromByte v.1 old idx buffer size = (v.1.width, v.2) := by
  rw [bytes_eq_streamBytes] at hread
  have hlt := pattern_lt v
  obtain ⟨ty, v⟩ := v
  cases ty with
  | u8 => exact fromByteU8_eq (s := s) old hfit hread
  | s8 =>
    rw [show BinValue.pattern ⟨.s8, v⟩ = _ from toNat_toInt_emod (Int8.toBitVec v)] at hread
    have h : BinSerializer.fromByteU8 (Int8.toUInt8 old) idx buffer size = (1, Int8.toUInt8 v) :=
      fromByteU8_eq (s := s) _ hfit hread
    simp only [BinSerializer.fromByte, h]
    rfl
  | u16 =>
    have h : s.fromByteWord 2 (UInt16.toNat old) idx buffer size = (2, UInt16.toNat v) :=
      fromByteWord_eq _ hlt hfit hread
    simp only [BinSerializer.fromByte, h]
    exact Prod.ext rfl UInt16.ofNat_toNat
  | s16 =>
    rw [show BinValue.pattern ⟨.s16, v⟩ = _ from toNat_toInt_emod (Int16.toBitVec v)] at hread hlt
    have h : s.fromByteWord 2 (Int16.toUInt16 old).toNat idx buffer size = (2, (Int16.toUInt16 v).toNat) :=
      fromByteWord_eq _ hlt hfit hread
    simp only [BinSerializer.fromByte, h, UInt16.ofNat_toNat]
    rfl
  | u32 =>
    have h : s.fromByteWord 4 (UInt32.toNat old) idx buffer size = (4, UInt32.toNat v) :=
      fromByteWord_eq _ hlt hfit hread
    simp only [BinSerializer.fromByte, h]
    exact Prod.ext rfl UInt32.ofNat_toNat
  | s32 =>
    rw [show BinValue.pattern ⟨.s32, v⟩ = _ from toNat_toInt_emod (Int32.toBitVec v)] at hread hlt
    have h : s.fromByteWord 4 (Int32.toUInt32 old).toNat idx buffer size = (4, (Int32.toUInt32 v).toNat) :=
      fromByteWord_eq _ hlt hfit hread
    simp only [BinSerializer.fromByte, h, UInt32.ofNat_toNat]
    rfl
  | u64 =>
    have h : s.fromByteWord 8 (UInt64.toNat old) idx buffer size = (8, UInt64.toNat v) :=
      fromByteWord_eq _ hlt hfit hread
    simp only [BinSerializer.fromByte, h]
    exact Prod.ext rfl UInt64.ofNat_toNat
  | s64 =>
    rw [show BinValue.pattern ⟨.s64, v⟩ = _ from toNat_toInt_emod (Int64.toBitVec v)] at hread hlt
    have h : s.fromByteWord 8 (Int64.toUInt64 old).toNat idx buffer size = (8, (Int64.toUInt64 v).toNat) :=
      fromByteWord_eq _ hlt hfit hread
    simp only [BinSerializer.fromByte, h, UInt64.ofNat_toNat]
    rfl
  | char =>
    have h : BinSerializer.fromByteU8 (UInt8.toInt8 old).toUInt8 idx buffer size = (1, v) :=
      fromByteU8_eq (s := s) _ hfit hread
    simp only [BinSerializer.fromByte, h]
    rfl
  | float =>
    have h : s.fromByteWord 4 0 idx buffer size = (4, UInt32.toNat v) :=
      fromByteWord_eq _ hlt hfit hread
    simp only [BinSerializer.fromByte, h]
    exact Prod.ext rfl UInt32.ofNat_toNat
  | bool =>
    have h : BinSerializer.fromByteU8 0 idx buffer size = (1, UInt8.ofNat (Bool.toNat v)) := by
      refine fromByteU8_eq (s := s) _ hfit ?_
      cases (v : Bool) with
      | false => exact hread
      | true => exact hread
    simp only [BinSerializer.fromByte, h]
    cases (v : Bool) with
    | false => rfl
    | true => rfl

/-! ## Sequences of calls -/

theorem width_pos (ty : BinType) : 0 < ty.width := by
  cases ty <;> decide

theorem length_bytes (stream : StreamEndianness) (v : BinValue) : (v.bytes stream).length = v.1.width := by
  rw [bytes_eq_streamBytes, length_streamBytes]

/-- The first call has written its value, and the others go on behind it. -/
theorem toBytes_cons {v : BinValue} {vs : List BinValue} {buffer' : Nat → UInt8}
    (h : s.toBytes (v :: vs) idx buffer size = some buffer') :
    idx + v.1.width ≤ size ∧
    s.toBytes vs (idx + v.1.width) (Memory.write buffer idx (v.bytes s.mEndianness_E)) size =
      some buffer' := by
  rw [BinSerializer.toBytes, toByte_eq] at h
  have hpos := width_pos v.1
  by_cases hfit : idx + v.1.width ≤ size
  · rw [if_pos hfit] at h
    dsimp only at h
    rw [if_neg (by omega)] at h
    exact ⟨hfit, h⟩
  · rw [if_neg hfit] at h
    exact absurd h (Option.some_ne_none buffer').symm

theorem toBytes_outside {vs : List BinValue} {buffer' : Nat → UInt8}
    (h : s.toBytes vs idx buffer size = some buffer') {j : Nat}
    (hj : j < idx ∨ idx + (vs.map fun v => v.1.width).sum ≤ j) : buffer' j = buffer j := by
  induction vs generalizing idx buffer with
  | nil => rw [Option.some.inj h]
  | cons v vs ih =>
    rw [List.map_cons, List.sum_cons] at hj
    rw [ih (toBytes_cons h).2 (by omega), Memory.write_of_outside]
    rw [length_bytes]
    omega

/-- The digits of the first value stay where they have been written. -/
theorem read_toBytes {v : BinValue} {vs : List BinValue} {buffer' : Nat → UInt8}
    (h : s.toBytes (v :: vs) idx buffer size = some buffer') :
    Memory.read buffer' idx v.1.width = v.bytes s.mEndianness_E := by
  have hself := Memory.read_write_self buffer idx (v.bytes s.mEndianness_E)
  rw [length_bytes] at hself
  rw [← hself]
  exact Memory.read_congr fun j _ h2 => toBytes_outside (toBytes_cons h).2 (Or.inl h2)

theorem toBytes_bytes {vs : List BinValue} {buffer' : Nat → UInt8}
    (h : s.toBytes vs idx buffer size = some buffer') :
    Memory.read buffer' idx (vs.map fun v => v.1.width).sum = vs.flatMap (BinValue.bytes s.mEndianness_E) := by
  induction vs generalizing idx buffer with
  | nil => rfl
  | cons v vs ih =>
    rw [List.map_cons, List.sum_cons, Memory.read_add, read_toBytes h, ih (toBytes_cons h).2,
      List.flatMap_cons]

theorem fromBytes_toBytes {vs : List BinValue} {buffer' : Nat → UInt8}
    (h : s.toBytes vs idx buffer size = some buffer') {olds : List BinValue}
    (holds : olds.map Sigma.fst = vs.map Sigma.fst) :
    s.fromBytes buffer' size olds idx = vs.map fun v => (v.1.width, v) := by
  induction vs generalizing idx buffer olds with
  | nil =>
    rw [List.map_eq_nil_iff.mp holds]
    rfl
  | cons v vs ih =>
    obtain ⟨⟨ty, old⟩, olds, rfl, hty, holds'⟩ := List.map_eq_cons_iff.mp holds
    obtain rfl : ty = v.1 := hty
    obtain ⟨hfit, hrest⟩ := toBytes_cons h
    rw [BinSerializer.fromBytes, fromByte_eq v old hfit (read_toBytes h), List.map_cons]
    exact congrArg _ (ih hrest holds')

/-- `BofBinSerializer` decodes what it encodes, in both byte orders and on both kinds of CPU. -/
theorem binSerializer_isCodec (stream : StreamEndianness) (cpu : CpuEndianness) : IsCodec stream cpu := by
  refine ⟨?_, ?_, ?_, ?_, ?_⟩
  · intro vs idx buffer size buffer' h olds holds
    exact fromBytes_toBytes h holds
  · intro vs idx buffer size buffer' h
    exact toBytes_bytes h
  · intro vs idx buffer size buffer' h j hj
    exact toBytes_outside h hj
  · intro v idx buffer size
    have hpos := width_pos v.1
    rw [toByte_eq]
    split_ifs with hfit
    · constructor
      · intro h
        exact absurd (congrArg Prod.fst h) (Nat.ne_of_gt hpos)
      · intro h
        omega
    · exact ⟨fun _ => by omega, fun _ => rfl⟩
  · intro v idx buffer size hfit
    rw [toByte_eq, if_pos hfit]

/-! ## Calls that fail -/

theorem fromByteU8_fail (old : UInt8) (h : size < idx + 1) : BinSerializer.fromByteU8 old idx buffer size = (0, old) := by
  rw [BinSerializer.fromByteU8, if_neg (by omega)]

theorem fromByteWord_fail {w : Nat} (old : Nat) (h : size < idx + w) :
    s.fromByteWord w old idx buffer size = (0, old) := by
  rw [BinSerializer.fromByteWord, if_neg (by omega)]

/-- The number of bytes of a call that does not fail. -/
theorem fromByte_fit (old : BinValue) (hfit : idx + old.1.width ≤ size) :
    (s.fromByte old.1 old.2 idx buffer size).1 = old.1.width := by
  have hbyte : ∀ x, idx + 1 ≤ size → (BinSerializer.fromByteU8 x idx buffer size).1 = 1 := by
    intro x h
    rw [BinSerializer.fromByteU8, if_pos h]
  have hword : ∀ w x, idx + w ≤ size → (s.fromByteWord w x idx buffer size).1 = w := by
    intro w x h
    rw [BinSerializer.fromByteWord, if_pos h]
  obtain ⟨ty, old⟩ := old
  cases ty with
  | u8 => exact hbyte _ hfit
  | s8 => exact hbyte _ hfit
  | u16 => exact hword _ _ hfit
  | s16 => exact hword _ _ hfit
  | u32 => exact hword _ _ hfit
  | s32 => exact hword _ _ hfit
  | u64 => exact hword _ _ hfit
  | s64 => exact hword _ _ hfit
  | char => exact hbyte _ hfit
  | float => exact hword _ _ hfit
  | bool => exact hbyte _ hfit

/-- What a call that fails leaves: a `bool` is cleared. -/
theorem fromByte_fail (old : BinValue) (h : size < idx + old.1.width) :
    s.fromByte old.1 old.2 idx buffer size = (0,
      match old with
      | ⟨.bool, _⟩ => false
      | ⟨_, old⟩ => old) := by
  obtain ⟨ty, old⟩ := old
  cases ty with
  | u8 => exact fromByteU8_fail _ h
  | s8 =>
    have h' : BinSerializer.fromByteU8 (Int8.toUInt8 old) idx buffer size = (0, Int8.toUInt8 old) := fromByteU8_fail _ h
    simp only [BinSerializer.fromByte, h']
    rfl
  | u16 =>
    have h' : s.fromByteWord 2 (UInt16.toNat old) idx buffer size = (0, (UInt16.toNat old)) := fromByteWord_fail _ h
    simp only [BinSerializer.fromByte, h']
    exact Prod.ext rfl UInt16.ofNat_toNat
  | s16 =>
    have h' : s.fromByteWord 2 (Int16.toUInt16 old).toNat idx buffer size = (0, (Int16.toUInt16 old).toNat) := fromByteWord_fail _ h
    simp only [BinSerializer.fromByte, h', UInt16.ofNat_toNat]
    rfl
  | u32 =>
    have h' : s.fromByteWord 4 (UInt32.toNat old) idx buffer size = (0, (UInt32.toNat old)) := fromByteWord_fail _ h
    simp only [BinSerializer.fromByte, h']
    exact Prod.ext rfl UInt32.ofNat_toNat
  | s32 =>
    have h' : s.fromByteWord 4 (Int32.toUInt32 old).toNat idx buffer size = (0, (Int32.toUInt32 old).toNat) := fromByteWord_fail _ h
    simp only [BinSerializer.fromByte, h', UInt32.ofNat_toNat]
    rfl
  | u64 =>
    have h' : s.fromByteWord 8 (UInt64.toNat old) idx buffer size = (0, (UInt64.toNat old)) := fromByteWord_fail _ h
    simp only [BinSerializer.fromByte, h']
    exact Prod.ext rfl UInt64.ofNat_toNat
  | s64 =>
    have h' : s.fromByteWord 8 (Int64.toUInt64 old).toNat idx buffer size = (0, (Int64.toUInt64 old).toNat) := fromByteWord_fail _ h
    simp only [BinSerializer.fromByte, h', UInt64.ofNat_toNat]
    rfl
  | char =>
    have h' : BinSerializer.fromByteU8 (UInt8.toInt8 old).toUInt8 idx buffer size = (0, (UInt8.toInt8 old).toUInt8) :=
      fromByteU8_fail _ h
    simp only [BinSerializer.fromByte, h']
    rfl
  | float =>
    have h' : s.fromByteWord 4 0 idx buffer size = (0, 0) := fromByteWord_fail _ h
    simp only [BinSerializer.fromByte, h']
    rfl
  | bool =>
    have h' : BinSerializer.fromByteU8 0 idx buffer size = (0, 0) := fromByteU8_fail _ h
    simp only [BinSerializer.fromByte, h']
    rfl

/-- `FromByte` for a `bool` stores what its local holds, also when nothing has been read. -/
theorem failsCleanly_iff (s : BinSerializer) (old : BinValue) (idx : Nat) (buffer : Nat → UInt8) (size : Nat) :
    FailsCleanly s old idx buffer size ↔ (old = ⟨.bool, true⟩ → idx + 1 ≤ size) := by
  have hpos := width_pos old.1
  have hfails : (s.fromByte old.1 old.2 idx buffer size).1 = 0 ↔ size < idx + old.1.width := by
    constructor
    · intro h
      by_contra hfit
      rw [fromByte_fit old (by omega)] at h
      omega
    · intro h
      rw [fromByte_fail old h]
  constructor
  · rintro ⟨hkeeps, -⟩ rfl
    by_contra hshort
    have hshort' : size < idx + BinType.width .bool := Nat.lt_of_not_le hshort
    have hkept := hkeeps (hfails.mpr hshort')
    rw [fromByte_fail ⟨.bool, true⟩ hshort'] at hkept
    exact Bool.noConfusion hkept
  · intro h
    refine ⟨fun hzero => ?_, hfails⟩
    have hshort := hfails.mp hzero
    rw [fromByte_fail old hshort]
    obtain ⟨ty, old⟩ := old
    cases ty with
    | bool =>
      cases (old : Bool) with
      | false => rfl
      | true => exact absurd (h rfl) (Nat.not_le_of_lt hshort)
    | _ => rfl

/-- A `bool` that is true, and an empty buffer. -/
theorem not_failsCleanly_bool : ¬ FailsCleanly ⟨.little, .isBigEndian⟩ ⟨.bool, true⟩ 0 (fun _ => 0) 0 := by
  rintro ⟨hkeeps, -⟩
  exact Bool.noConfusion (hkeeps rfl)

end BofStd
