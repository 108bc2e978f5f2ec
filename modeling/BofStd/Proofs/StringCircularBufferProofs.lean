import BofStd.StringCircularBufferSpec

/-!
# `BofStringCircularBuffer`: single calls

`Holds s w` says that the bytes `w` were written since the pop index. While a push in overwrite mode is
going on there may be more of them than the storage has room for, and the last ones are in it; between
calls (`Exact`) they all fit, and the two counters count the bytes and the terminators.
-/

namespace BofStd.StringCircularBuffer

open Memory

variable {s : StringCircularBuffer} {w : List UInt8} {param : StringCircularBufferParam}

theorem size_lt (s : StringCircularBuffer) : s.size < 4294967296 :=
  s.mStringCircularBufferParam_X.bufferSize_lt

theorem nextIndex_eq {B i : Nat} (hi : i < B) (hB : B < 4294967296) :
    nextIndex B i = (i + 1) % B := by
  rw [nextIndex, u32_of_lt (by omega), ite_succ_eq_mod hi]

/-- The bytes `w` were written since the pop index; the last of them, as many as there is room for, are
in the storage. -/
structure Holds (s : StringCircularBuffer) (w : List UInt8) : Prop where
  pop_lt : 0 < s.size → s.mPopIndex_U32 < s.size
  count : s.mNbCharInBuffer_U32 = w.length
  push_eq : s.mPushIndex_U32 = (s.mPopIndex_U32 + w.length) % s.size
  window : circ s.size s.mpData_c (s.mPopIndex_U32 + (w.length - s.size)) (min w.length s.size) =
    w.drop (w.length - s.size)

/-- Between calls, all the bytes written since the pop index are in the storage. -/
structure Exact (param : StringCircularBufferParam) (s : StringCircularBuffer)
    (w : List UInt8) : Prop extends Holds s w where
  param_eq : s.mStringCircularBufferParam_X = param
  snapshot : s.mNbSnapshotCharInBuffer_U32 = 0
  fits : w.length ≤ s.size
  elements : s.mNbElementInBuffer_U32 = w.count 0

theorem Holds.window_of_le (h : Holds s w) (hw : w.length ≤ s.size) :
    circ s.size s.mpData_c s.mPopIndex_U32 w.length = w := by
  have hwin := h.window
  rw [Nat.sub_eq_zero_of_le hw, Nat.min_eq_left hw, Nat.add_zero, List.drop_zero] at hwin
  exact hwin

theorem Holds.unread_eq (h : Holds s w) (hw : w.length ≤ s.size) : unread s = w := by
  rw [unread, h.count, h.window_of_le hw]

theorem exact_create (param : StringCircularBufferParam) (pData : Nat → UInt8) :
    Exact param (create param pData) [] where
  pop_lt := id
  count := rfl
  push_eq := (Nat.zero_mod _).symm
  window := by simp
  param_eq := rfl
  snapshot := rfl
  fits := Nat.zero_le _
  elements := rfl

theorem Exact.size_eq (h : Exact param s w) : s.size = param.BufferSizeInByte_U32 := by
  rw [size, h.param_eq]

/-! ## Storing bytes -/

/-- Storing one byte, over the oldest one if there is no room. -/
theorem Holds.pushChar (h : Holds s w) (c : UInt8) (hB : 0 < s.size)
    (hlt : w.length + 1 < 4294967296) : Holds (s.pushChar c) (w ++ [c]) := by
  have hpush : s.mPushIndex_U32 < s.size := by rw [h.push_eq]; exact Nat.mod_lt _ hB
  refine ⟨h.pop_lt, ?_, ?_, ?_⟩
  · show u32 (s.mNbCharInBuffer_U32 + 1) = _
    rw [h.count, u32_of_lt hlt, List.length_append, List.length_singleton]
  · show nextIndex s.size s.mPushIndex_U32 = (s.mPopIndex_U32 + (w ++ [c]).length) % s.size
    rw [nextIndex_eq hpush s.size_lt, h.push_eq, Nat.mod_add_mod, List.length_append,
      List.length_singleton, Nat.add_assoc]
  · show circ s.size (Function.update s.mpData_c s.mPushIndex_U32 c)
      (s.mPopIndex_U32 + ((w ++ [c]).length - s.size)) (min (w ++ [c]).length s.size) =
      (w ++ [c]).drop ((w ++ [c]).length - s.size)
    have hwin := h.window
    rw [List.length_append, List.length_singleton, h.push_eq]
    by_cases hroom : w.length < s.size
    · rw [Nat.sub_eq_zero_of_le (by omega), Nat.min_eq_left (by omega), Nat.add_zero, List.drop_zero,
        circ_update_succ _ _ hroom, h.window_of_le (by omega)]
    · -- the window moves on by one: its first cell is the one that is written
      obtain ⟨d, hd⟩ : ∃ d, w.length = s.size + d := ⟨w.length - s.size, by omega⟩
      obtain ⟨n, hn⟩ : ∃ n, s.size = n + 1 := ⟨s.size - 1, by omega⟩
      rw [show w.length - s.size = d by omega, Nat.min_eq_right (by omega), hn, circ_succ_left] at hwin
      have hindex : s.mPopIndex_U32 + w.length = s.mPopIndex_U32 + d + 1 + n := by omega
      have hdrop : (w.drop d).drop 1 = circ (n + 1) s.mpData_c (s.mPopIndex_U32 + d + 1) n := by
        rw [← hwin]
        rfl
      rw [show w.length + 1 - s.size = d + 1 by omega, Nat.min_eq_right (by omega), hn, hindex,
        ← Nat.add_assoc s.mPopIndex_U32 d 1, circ_update_succ _ _ (by omega), ← hdrop,
        List.drop_drop, List.drop_append_of_le_length (by omega)]

/-- The bytes of a push are stored one by one, and nothing but the storage, the push index and the byte
count changes. -/
theorem Holds.foldl_pushChar (h : Holds s w) (xs : List UInt8) (hB : 0 < s.size)
    (hlt : w.length + xs.length < 4294967296) :
    Holds (xs.foldl StringCircularBuffer.pushChar s) (w ++ xs) ∧
      ∃ data nb index, xs.foldl StringCircularBuffer.pushChar s =
        { s with mpData_c := data, mNbCharInBuffer_U32 := nb, mPushIndex_U32 := index } := by
  induction xs generalizing s w with
  | nil =>
    rw [List.append_nil]
    exact ⟨h, _, _, _, rfl⟩
  | cons c xs ih =>
    rw [List.length_cons] at hlt
    have hlt' : (w ++ [c]).length + xs.length < 4294967296 := by
      rw [List.length_append, List.length_singleton]
      omega
    obtain ⟨hholds, data, nb, index, heq⟩ := ih (h.pushChar c hB (by omega)) hB hlt'
    rw [List.append_assoc] at hholds
    exact ⟨hholds, data, nb, index, heq⟩

theorem updateLevelMax_eq (s : StringCircularBuffer) :
    ∃ level, s.updateLevelMax = { s with mLevelMax_U32 := level } := by
  unfold updateLevelMax
  split
  · exact ⟨_, rfl⟩
  · exact ⟨s.mLevelMax_U32, rfl⟩

/-- A push that passes the test stores the bytes and a terminator. -/
theorem pushBinary_eq (s : StringCircularBuffer) (x : List UInt8)
    (hlt : s.mNbCharInBuffer_U32 + x.length + 1 < 4294967296)
    (hroom : s.mStringCircularBufferParam_X.Overwrite_B = true ∨
      s.mNbCharInBuffer_U32 + x.length + 1 ≤ s.size) :
    ∃ level, s.pushBinary x.length (some x) =
      ({ ((terminated x).foldl pushChar s).clipToSize x.length with
          mLevelMax_U32 := level
          mNbElementInBuffer_U32 := u32 ((((terminated x).foldl pushChar s).clipToSize
            x.length).mNbElementInBuffer_U32 + 1) }, { err := .noError }) := by
  obtain ⟨level, hlevel⟩ := updateLevelMax_eq (((terminated x).foldl pushChar s).clipToSize x.length)
  have hfold : (x.foldl pushChar s).pushChar 0 = (terminated x).foldl pushChar s := by
    rw [terminated, List.foldl_append]
    rfl
  refine ⟨level, ?_⟩
  simp only [pushBinary]
  rw [u32_of_lt (show x.length + 1 < 4294967296 by omega),
    u32_of_lt (show s.mNbCharInBuffer_U32 + (x.length + 1) < 4294967296 by omega), if_neg, if_pos,
    Nat.add_sub_cancel, List.take_length, hfold, hlevel]
  · omega
  · rintro ⟨ho, hgt⟩
    rcases hroom with hroom | hroom
    · rw [ho] at hroom
      exact absurd hroom (by decide)
    · omega

theorem length_terminated (x : List UInt8) : (terminated x).length = x.length + 1 := by simp [terminated]

/-- A push with enough room appends the bytes and a terminator, and nothing but the storage, the push index and the
counters changes. -/
theorem Holds.pushBinary_room (h : Holds s w) (x : List UInt8) (hroom : w.length + x.length + 1 ≤ s.size) :
    Holds (s.pushBinary x.length (some x)).1 (w ++ terminated x) ∧
      ∃ data nb index level, s.pushBinary x.length (some x) = ({ s with
        mpData_c := data
        mNbCharInBuffer_U32 := nb
        mPushIndex_U32 := index
        mLevelMax_U32 := level
        mNbElementInBuffer_U32 := u32 (s.mNbElementInBuffer_U32 + 1) }, { err := .noError }) := by
  have hsize := s.size_lt
  have hcount := h.count
  obtain ⟨level, heq⟩ := pushBinary_eq s x (by omega) (Or.inr (by omega))
  have hlen := length_terminated x
  obtain ⟨hholds, data, nb, index, hfold⟩ := h.foldl_pushChar (terminated x) (by omega) (by omega)
  rw [hfold] at hholds heq
  have hnb : nb = w.length + x.length + 1 := by
    rw [show nb = (w ++ terminated x).length from hholds.count, List.length_append, hlen,
      Nat.add_assoc]
  rw [clipToSize, if_neg (by show ¬ nb > s.size; omega)] at heq
  refine ⟨?_, data, nb, index, level, heq⟩
  rw [heq]
  exact ⟨hholds.pop_lt, hholds.count, hholds.push_eq, hholds.window⟩

/-- A push with enough room between calls. -/
theorem Exact.pushBinary_room (h : Exact param s w) (x : List UInt8)
    (hroom : w.length + x.length + 1 ≤ s.size) (hx : x.count 0 = 0) :
    Exact param (s.pushBinary x.length (some x)).1 (w ++ terminated x) ∧
      (s.pushBinary x.length (some x)).2 = { err := .noError } := by
  have hsize := s.size_lt
  obtain ⟨hholds, data, nb, index, level, heq⟩ := h.toHolds.pushBinary_room x hroom
  rw [heq] at hholds ⊢
  refine ⟨⟨hholds, h.param_eq, h.snapshot, ?_, ?_⟩, rfl⟩
  · show (w ++ terminated x).length ≤ s.size
    rw [List.length_append, length_terminated]
    omega
  · show u32 (s.mNbElementInBuffer_U32 + 1) = _
    have hle : w.count 0 ≤ w.length := List.count_le_length
    rw [h.elements, u32_of_lt (by omega), terminated, List.count_append, List.count_append, hx]
    rfl

/-! ## Reading bytes -/

theorem Holds.popChar {c : UInt8} (h : Holds s (c :: w)) (hw : w.length < s.size) :
    Holds s.popChar w ∧ s.mpData_c s.mPopIndex_U32 = c := by
  have hpop := h.pop_lt (by omega)
  have hcount := h.count
  have hwin := h.window_of_le hw
  have hnext : s.popChar.mPopIndex_U32 = (s.mPopIndex_U32 + 1) % s.size :=
    nextIndex_eq hpop s.size_lt
  rw [List.length_cons] at hcount hwin
  rw [circ_succ_left, Nat.mod_eq_of_lt hpop, List.cons.injEq] at hwin
  refine ⟨⟨fun hB => ?_, ?_, ?_, ?_⟩, hwin.1⟩
  · rw [hnext]
    exact Nat.mod_lt _ hB
  · show u32Sub s.mNbCharInBuffer_U32 1 = _
    rw [hcount, u32Sub_of_le (by omega), Nat.add_sub_cancel]
  · show s.mPushIndex_U32 = (s.popChar.mPopIndex_U32 + w.length) % s.size
    rw [hnext, h.push_eq, Nat.mod_add_mod, List.length_cons, Nat.add_assoc, Nat.add_comm 1]
  · show circ s.size s.mpData_c (s.popChar.mPopIndex_U32 + (w.length - s.size))
      (min w.length s.size) = w.drop (w.length - s.size)
    rw [hnext, Nat.sub_eq_zero_of_le (Nat.le_of_lt hw), Nat.min_eq_left (Nat.le_of_lt hw),
      Nat.add_zero, circ_mod, hwin.2, List.drop_zero]

theorem Exact.popChar {c : UInt8} (h : Exact param s (c :: w)) (hc : c ≠ 0) :
    Exact param s.popChar w := by
  have hfits := h.fits
  rw [List.length_cons] at hfits
  refine ⟨(h.toHolds.popChar hfits).1, h.param_eq, h.snapshot, Nat.le_of_lt hfits, ?_⟩
  rw [← List.count_cons_of_ne hc]
  exact h.elements

theorem Exact.popTerminator (h : Exact param s (0 :: w)) : Exact param s.popChar.popElement w := by
  have hfits := h.fits
  have helem := h.elements
  rw [List.length_cons] at hfits
  rw [List.count_cons_self] at helem
  obtain ⟨hholds, -⟩ := h.toHolds.popChar hfits
  refine ⟨⟨hholds.pop_lt, hholds.count, hholds.push_eq, hholds.window⟩, h.param_eq, h.snapshot,
    Nat.le_of_lt hfits, ?_⟩
  show u32Sub s.mNbElementInBuffer_U32 1 = _
  rw [helem, u32Sub_of_le (by omega), Nat.add_sub_cancel]

theorem Exact.first_eq {c : UInt8} (h : Exact param s (c :: w)) :
    s.mpData_c s.mPopIndex_U32 = c := by
  have hfits := h.fits
  rw [List.length_cons] at hfits
  exact (h.toHolds.popChar hfits).2

theorem textOf_append {ys : List UInt8} (h : 0 ∉ ys) (zs : List UInt8) :
    textOf (ys ++ zs) = ys ++ textOf zs := by
  refine List.takeWhile_append_of_pos fun a ha => ?_
  have hne : a ≠ 0 := fun h0 => h (h0 ▸ ha)
  simpa using hne

theorem textOf_of_not_mem {ys : List UInt8} (h : 0 ∉ ys) : textOf ys = ys := by
  have happ := textOf_append h []
  rw [List.append_nil] at happ
  rw [happ]
  exact List.append_nil ys

theorem textOf_terminated {ys : List UInt8} (h : 0 ∉ ys) : textOf (ys ++ [0]) = ys := by
  rw [textOf_append h]
  exact List.append_nil ys

/-- What the reader takes ends with a terminator, or is all but one of the `k` bytes. -/
theorem popBytes_cases {k : Nat} (hk : 0 < k) (hw : k ≤ w.length) :
    (∃ ys, popBytes k w = ys ++ [0] ∧ 0 ∉ ys ∧ ys.length < k) ∨
    (0 ∉ popBytes k w ∧ (popBytes k w).length = k - 1) := by
  induction k, w using popBytes.induct with
  | case1 w => omega
  | case2 k => simp at hw
  | case3 k cs => exact Or.inl ⟨[], by simp [popBytes], by simp, by simp⟩
  | case4 c cs hc => exact Or.inr (by simp [popBytes, hc])
  | case5 k c cs hc hk' ih =>
    rw [List.length_cons] at hw
    rw [popBytes, if_neg hc, if_neg hk']
    rcases ih (by omega) (by omega) with ⟨ys, heq, hys, hlen⟩ | ⟨hys, hlen⟩
    · exact Or.inl ⟨c :: ys, by rw [heq]; rfl, by simp [hys, Ne.symm hc], by simp; omega⟩
    · exact Or.inr ⟨by simp [hys, Ne.symm hc], by rw [List.length_cons, hlen]; omega⟩

/-- A mode of reading, for states that have the bytes `w` in front of the reader: the first of them is at the read
index, and it is left behind by moving on. -/
structure Reads (index : StringCircularBuffer → Nat) (advance terminate : StringCircularBuffer → StringCircularBuffer)
    (P : StringCircularBuffer → List UInt8 → Prop) : Prop where
  first_eq : ∀ {s c w}, P s (c :: w) → s.mpData_c (index s) = c
  advance_char : ∀ {s c w}, P s (c :: w) → c ≠ 0 → P (advance s) w
  advance_terminator : ∀ {s w}, P s (0 :: w) → P (terminate (advance s)) w

section Reads

variable {index : StringCircularBuffer → Nat} {advance terminate : StringCircularBuffer → StringCircularBuffer}
  {P : StringCircularBuffer → List UInt8 → Prop}

/-- The loop of `PopString` takes what the reader takes. -/
theorem Reads.popLoop (hr : Reads index advance terminate P) (nb k : Nat) (h : P s w) (hk : k ≤ w.length)
    (out : List UInt8) :
    P (StringCircularBuffer.popLoop index advance terminate nb k s out).1 (w.drop (popBytes k w).length) ∧
    (StringCircularBuffer.popLoop index advance terminate nb k s out).2.1 = out ++ popBytes k w ∧
    (StringCircularBuffer.popLoop index advance terminate nb k s out).2.2 =
      if 0 ∈ popBytes k w then nb - (k - (popBytes k w).length) else nb := by
  induction k, w using popBytes.induct generalizing s out with
  | case1 w => simpa [StringCircularBuffer.popLoop, popBytes] using h
  | case2 k => simp at hk
  | case3 k cs =>
    have hpop := hr.advance_terminator h
    simp [StringCircularBuffer.popLoop, popBytes, hr.first_eq h, hpop]
  | case4 c cs hc =>
    simpa [StringCircularBuffer.popLoop, popBytes, hr.first_eq h, hc] using h
  | case5 k c cs hc hk' ih =>
    obtain ⟨hnext, hout, hnb⟩ := ih (hr.advance_char h hc) (by simpa using hk) (out ++ [c])
    rw [StringCircularBuffer.popLoop, hr.first_eq h, popBytes, if_neg hc, if_neg hk',
      if_neg (fun hand => hk' hand.1), if_neg hc]
    refine ⟨hnext, by rw [hout]; simp, ?_⟩
    rw [hnb]
    simp [Ne.symm hc]

/-- What a read hands out: a piece of a string, with a terminator. -/
def pieceOut (piece : List UInt8) : StringOut :=
  { err := .noError, nbMax := (textOf piece).length + 1, data := textOf piece ++ [0] }

/-- A read takes the bytes up to a terminator, or all but one of those that there is room for. -/
theorem Reads.popWith (hr : Reads index advance terminate P) (h : P s w) (nbMax : Nat) :
    P (StringCircularBuffer.popWith index advance terminate w.length nbMax s).1
      (w.drop (popBytes (min nbMax w.length) w).length) ∧
    (w = [] → StringCircularBuffer.popWith index advance terminate w.length nbMax s = (s, { err := .empty })) ∧
    (w ≠ [] → 0 < nbMax → (StringCircularBuffer.popWith index advance terminate w.length nbMax s).2 =
      pieceOut (popBytes (min nbMax w.length) w)) := by
  have hmin : (if nbMax > w.length then w.length else nbMax) = min nbMax w.length := by
    rw [Nat.min_def]
    split_ifs <;> omega
  rw [StringCircularBuffer.popWith]
  by_cases hw : w.length = 0
  · rw [if_pos hw]
    obtain rfl := List.length_eq_zero_iff.mp hw
    exact ⟨by simpa using h, fun _ => rfl, fun hne => absurd rfl hne⟩
  · have hne : w ≠ [] := fun hnil => hw (by rw [hnil]; rfl)
    rw [if_neg hw]
    dsimp only
    rw [hmin]
    by_cases hnb : min nbMax w.length = 0
    · rw [if_pos hnb, hnb]
      exact ⟨by simpa [popBytes] using h, fun hnil => absurd hnil hne, fun _ hpos => by omega⟩
    · rw [if_neg hnb]
      obtain ⟨hnext, hout, hlast⟩ := hr.popLoop (min nbMax w.length) (min nbMax w.length) h
        (Nat.min_le_right _ _) []
      refine ⟨hnext, fun hnil => absurd hnil hne, fun _ _ => ?_⟩
      rw [List.nil_append] at hout
      dsimp only
      rw [hout, hlast]
      rcases popBytes_cases (w := w) (Nat.pos_of_ne_zero hnb) (Nat.min_le_right _ _) with
        ⟨ys, heq, hys, hlen⟩ | ⟨hys, hlen⟩
      · rw [heq, if_pos (by simp), pieceOut, textOf_terminated hys, List.length_append, List.length_singleton,
          show min nbMax w.length - (min nbMax w.length - (ys.length + 1)) = ys.length + 1 by omega,
          Nat.add_sub_cancel, List.take_left]
      · rw [if_neg hys, pieceOut, textOf_of_not_mem hys, List.take_of_length_le (by omega), hlen,
          Nat.sub_add_cancel (Nat.pos_of_ne_zero hnb)]

end Reads

theorem reads_exact : Reads mPopIndex_U32 StringCircularBuffer.popChar popElement (Exact param) where
  first_eq h := h.first_eq
  advance_char h hc := h.popChar hc
  advance_terminator h := h.popTerminator

/-- `PopString` in normal mode. -/
theorem Exact.popString (h : Exact param s w) (hs : param.SnapshotMode_B = false) (nbMax : Nat) :
    Exact param (s.popString (some nbMax) true).1
      (w.drop (popBytes (min nbMax w.length) w).length) ∧
    (w = [] → s.popString (some nbMax) true = (s, { err := .empty })) ∧
    (w ≠ [] → 0 < nbMax → (s.popString (some nbMax) true).2.err = .noError ∧
      (s.popString (some nbMax) true).2.data =
        textOf (popBytes (min nbMax w.length) w) ++ [0]) := by
  have hmode : s.mStringCircularBufferParam_X.SnapshotMode_B = false := by rw [h.param_eq, hs]
  have hcall : s.popString (some nbMax) true =
      popWith mPopIndex_U32 StringCircularBuffer.popChar popElement w.length nbMax s := by
    rw [StringCircularBuffer.popString, hmode, h.count]
    rfl
  obtain ⟨hexact, hempty, hout⟩ := reads_exact.popWith h nbMax
  rw [hcall]
  refine ⟨hexact, hempty, fun hne hpos => ?_⟩
  rw [hout hne hpos]
  exact ⟨rfl, rfl⟩

end BofStd.StringCircularBuffer

/-!
# `BofStringCircularBuffer`: whole runs

Without overwrite mode the strings are delivered intact on every run where the sum that `PushString`
tests does not wrap. In overwrite mode the newest bytes are kept on every run where `PushBinary` moves
the pop index and counts the terminators rightly. After each of the two comes a run on which the buffer
fails.
-/

namespace BofStd.StringCircularBuffer

open Memory Machine Cut

variable {s : StringCircularBuffer} {w : List UInt8} {param : StringCircularBufferParam}

/-! ## Strings delivered intact -/

/-- The buffer holds the strings `pending`, each with its terminator. -/
structure Pending (param : StringCircularBufferParam) (s : StringCircularBuffer)
    (pending : List (List UInt8)) : Prop where
  exact : Exact param s (pending.flatMap terminated)
  nul_free : ∀ x ∈ pending, 0 ∉ x

theorem popBytes_terminated {x : List UInt8} (hx : 0 ∉ x) (k : Nat) (r : List UInt8) :
    popBytes k (x ++ 0 :: r) = if x.length < k then x ++ [0] else x.take (k - 1) := by
  induction x generalizing k with
  | nil =>
    cases k with
    | zero => rfl
    | succ k => simp [popBytes]
  | cons c x ih =>
    rw [List.mem_cons, not_or] at hx
    cases k with
    | zero => simp [popBytes]
    | succ k =>
      rw [List.cons_append, popBytes, if_neg (Ne.symm hx.1), ih hx.2]
      cases k with
      | zero => simp
      | succ k =>
        rw [if_neg (by omega), List.length_cons]
        by_cases hlt : x.length < k + 1
        · rw [if_pos hlt, if_pos (by omega)]
          rfl
        · rw [if_neg hlt, if_neg (by omega)]
          rfl

/-- A string that fits is accepted. -/
theorem Pending.pushString_room {pending : List (List UInt8)} (h : Pending param s pending)
    {x : List UInt8} (hx : 0 ∉ x) (hroom : s.mNbCharInBuffer_U32 + x.length + 1 ≤ s.size) :
    Pending param (s.pushString (some x)).1 (pending ++ [x]) ∧
      (s.pushString (some x)).2 = { err := .noError } := by
  have hsize := s.size_lt
  have hcall : s.pushString (some x) = s.pushBinary x.length (some x) := by
    rw [pushString, u32_of_lt (by omega)]
  rw [h.exact.count] at hroom
  obtain ⟨hexact, hout⟩ := h.exact.pushBinary_room x hroom (List.count_eq_zero.mpr hx)
  rw [hcall]
  refine ⟨⟨?_, ?_⟩, hout⟩
  · rw [List.flatMap_append, List.flatMap_singleton]
    exact hexact
  · intro y hy
    rcases List.mem_append.mp hy with hy | hy
    · exact h.nul_free y hy
    · rw [List.mem_singleton.mp hy]
      exact hx

/-- A string that does not fit is refused, and nothing changes. -/
theorem pushString_full {x : List UInt8} (ho : s.mStringCircularBufferParam_X.Overwrite_B = false)
    (hfit : SumFitsWord s (.pushString (some x)))
    (hfull : ¬ s.mNbCharInBuffer_U32 + x.length + 1 ≤ s.size) :
    s.pushString (some x) = (s, { err := .full }) := by
  have hsum : u32 (s.mNbCharInBuffer_U32 + u32 (u32 x.length + 1)) =
      (s.mNbCharInBuffer_U32 + x.length + 1) % 4294967296 := by
    rw [u32_eq_mod, u32_eq_mod, u32_eq_mod]
    omega
  simp only [SumFitsWord] at hfit
  simp only [pushString, pushBinary]
  rw [if_pos]
  refine ⟨ho, ?_⟩
  rw [hsum]
  rcases hfit with hfit | hfit
  · rw [Nat.mod_eq_of_lt hfit]
    omega
  · exact hfit

/-- Reading the whole of the first string, or a part of it. -/
theorem Pending.popString {x : List UInt8} {rest : List (List UInt8)}
    (h : Pending param s (x :: rest)) (hs : param.SnapshotMode_B = false) {nbMax : Nat}
    (hlimit : 2 ≤ nbMax) :
    (s.popString (some nbMax) true).2.err = .noError ∧
    ((Pending param (s.popString (some nbMax) true).1 rest ∧
        textOf (s.popString (some nbMax) true).2.data = x) ∨
      ∃ p r, x = p ++ r ∧ p ≠ [] ∧ Pending param (s.popString (some nbMax) true).1 (r :: rest) ∧
        textOf (s.popString (some nbMax) true).2.data = p) := by
  have hx : 0 ∉ x := h.nul_free x List.mem_cons_self
  have hrest : ∀ y ∈ rest, 0 ∉ y := fun y hy => h.nul_free y (List.mem_cons_of_mem _ hy)
  have hw : (x :: rest).flatMap terminated = x ++ 0 :: rest.flatMap terminated := by
    simp [List.flatMap_cons, terminated]
  have hexact := h.exact
  rw [hw] at hexact
  obtain ⟨hpop, -, hout⟩ := hexact.popString hs nbMax
  obtain ⟨herr, hdata⟩ := hout (by simp) (by omega)
  have hlen : (x ++ 0 :: rest.flatMap terminated).length =
      x.length + ((rest.flatMap terminated).length + 1) := by simp
  rw [popBytes_terminated hx] at hpop hdata
  refine ⟨herr, ?_⟩
  by_cases hwhole : x.length < nbMax
  · left
    rw [if_pos (by omega)] at hpop hdata
    have hdrop : (x ++ 0 :: rest.flatMap terminated).drop (x ++ [0]).length =
        rest.flatMap terminated := by
      rw [List.append_cons x 0 (rest.flatMap terminated), List.drop_left]
    rw [hdrop] at hpop
    refine ⟨⟨hpop, hrest⟩, ?_⟩
    rw [hdata, textOf_terminated hx, textOf_terminated hx]
  · right
    rw [if_neg (by omega), show min nbMax (x ++ 0 :: rest.flatMap terminated).length = nbMax by omega]
      at hpop hdata
    have hp : 0 ∉ x.take (nbMax - 1) := fun hmem => hx (List.mem_of_mem_take hmem)
    have hr : 0 ∉ x.drop (nbMax - 1) := fun hmem => hx (List.mem_of_mem_drop hmem)
    have hplen : (x.take (nbMax - 1)).length = nbMax - 1 := by
      rw [List.length_take]
      omega
    refine ⟨x.take (nbMax - 1), x.drop (nbMax - 1), (List.take_append_drop _ _).symm, ?_, ⟨?_, ?_⟩, ?_⟩
    · intro hnil
      rw [hnil, List.length_nil] at hplen
      omega
    · rw [hplen, List.drop_append_of_le_length (by omega)] at hpop
      simpa [List.flatMap_cons, terminated] using hpop
    · intro y hy
      rcases List.mem_cons.mp hy with rfl | hy
      · exact hr
      · exact hrest y hy
    · rw [hdata, textOf_of_not_mem hp, textOf_terminated hp]

/-- One call: it does what it should, and the pieces read stay a cutting of the accepted strings. -/
theorem Pending.step {pending : List (List UInt8)} (h : Pending param s pending)
    (ho : param.Overwrite_B = false) (hs : param.SnapshotMode_B = false) (op : Op)
    (hcall : StringCall op) (hfit : SumFitsWord s op) :
    CallMeetsSpec s op ∧ ∃ pending', Pending param (s.step op).1 pending' ∧
      ∀ pieces acc, Cuts pieces acc pending →
        Cuts (pieces ++ (poppedPiece (op, (s.step op).2)).toList)
          (acc ++ (acceptedString (op, (s.step op).2)).toList) pending' := by
  match op, hcall with
  | .pushString (some x), hx =>
    have ho' : s.mStringCircularBufferParam_X.Overwrite_B = false := by
      rw [h.exact.param_eq, ho]
    simp only [StringCircularBuffer.step, CallMeetsSpec]
    by_cases hroom : s.mNbCharInBuffer_U32 + x.length + 1 ≤ s.size
    · obtain ⟨hpush, hout⟩ := h.pushString_room hx hroom
      refine ⟨⟨fun _ => by rw [hout], fun hn => absurd hroom hn⟩, _, hpush, ?_⟩
      intro pieces acc hcuts
      simpa [hout, poppedPiece, acceptedString] using hcuts.push x
    · have hfull := pushString_full ho' hfit hroom
      refine ⟨⟨fun hle => absurd hle hroom, fun _ => hfull⟩, pending, by rw [hfull]; exact h, ?_⟩
      intro pieces acc hcuts
      simpa [hfull, poppedPiece, acceptedString] using hcuts
  | .popString (some nbMax) true, hlimit =>
    simp only [StringCircularBuffer.step, CallMeetsSpec]
    cases pending with
    | nil =>
      obtain ⟨-, hempty, -⟩ := h.exact.popString hs nbMax
      have hcall := hempty rfl
      refine ⟨fun hpos => ?_, [], by rw [hcall]; exact h, fun pieces acc hcuts => ?_⟩
      · rw [h.exact.count] at hpos
        exact absurd hpos (Nat.lt_irrefl 0)
      · simpa [hcall, poppedPiece, acceptedString] using hcuts
    | cons x rest =>
      have hcount := h.exact.count
      obtain ⟨herr, ⟨hpop, hpiece⟩ | ⟨p, r, rfl, hp, hpop, hpiece⟩⟩ := h.popString hs hlimit
      · refine ⟨fun _ => ?_, rest, hpop, fun pieces acc hcuts => ?_⟩
        · rw [hcount, hpop.exact.count]
          simp [List.flatMap_cons, terminated]
          omega
        · simpa [herr, hpiece, poppedPiece, acceptedString] using hcuts.whole
      · refine ⟨fun _ => ?_, r :: rest, hpop, fun pieces acc hcuts => ?_⟩
        · have hplen := List.length_pos_iff.mpr hp
          rw [hcount, hpop.exact.count]
          simp [List.flatMap_cons, terminated]
          omega
        · simpa [herr, hpiece, poppedPiece, acceptedString] using hcuts.part

/-- After any run there are pending strings that the pieces read so far leave. -/
theorem exists_pending (param : StringCircularBufferParam) (pData : Nat → UInt8)
    (ho : param.Overwrite_B = false) (hs : param.SnapshotMode_B = false) (ops : List Op)
    (hcalls : ∀ op ∈ ops, StringCall op)
    (hfit : Meets step SumFitsWord (create param pData) ops) :
    ∃ pending, Pending param (run step (create param pData) ops).1 pending ∧
      Cuts ((history step (create param pData) ops).filterMap poppedPiece)
        ((history step (create param pData) ops).filterMap acceptedString) pending := by
  have h0 : ∃ pending, Pending param (create param pData) pending ∧
      Cuts (([] : List (Op × StringOut)).filterMap poppedPiece)
        (([] : List (Op × StringOut)).filterMap acceptedString) pending :=
    ⟨[], ⟨exact_create param pData, by simp⟩, cuts_nil⟩
  refine inv_history (P := fun hist s => ∃ pending, Pending param s pending ∧
    Cuts (hist.filterMap poppedPiece) (hist.filterMap acceptedString) pending) ?_ h0
    (meets_and hfit hcalls)
  rintro hist s op ⟨pending, hpending, hcuts⟩ ⟨hop, hcall⟩
  obtain ⟨-, pending', hpending', hcuts'⟩ := hpending.step ho hs op hcall hop
  refine ⟨pending', hpending', ?_⟩
  rw [List.filterMap_append, List.filterMap_append, filterMap_singleton,
    filterMap_singleton]
  exact hcuts' _ _ hcuts

/-- Without overwrite and snapshot mode, strings are delivered intact on every run where the sums of
`PushString` do not wrap. -/
theorem stringCircularBuffer_deliversStrings (param : StringCircularBufferParam)
    (pData : Nat → UInt8) (ho : param.Overwrite_B = false) (hs : param.SnapshotMode_B = false)
    (ops : List Op) (hcalls : ∀ op ∈ ops, StringCall op)
    (hfit : Meets step SumFitsWord (create param pData) ops) :
    DeliversStrings param pData ops := by
  obtain ⟨pending, hpending, hcuts⟩ := exists_pending param pData ho hs ops hcalls hfit
  have hexact := hpending.exact
  refine ⟨⟨pending, hcuts, hexact.unread_eq hexact.fits, hexact.count, hexact.elements⟩, ?_, ?_⟩
  · rw [hexact.count, hexact.push_eq, hexact.size_eq]
  · rintro ops₁ op ops₂ rfl
    rw [meets_append, meets_cons] at hfit
    have hcalls₁ : ∀ op ∈ ops₁, StringCall op := fun o hmem => hcalls o (by simp [hmem])
    obtain ⟨pending₁, hpending₁, -⟩ := exists_pending param pData ho hs ops₁ hcalls₁ hfit.1
    exact (hpending₁.step ho hs op (hcalls op (by simp)) hfit.2.1).1

/-- Two strings through a buffer of six bytes: the first is cut by a small limit, the second wraps. -/
theorem deliversStrings_six_bytes :
    DeliversStrings ⟨6, by decide, false, false⟩ (fun _ => 0)
      [.pushString (some [1, 2, 3]), .popString (some 3) true, .pushString (some [4, 5]),
        .popString (some 8) true, .popString (some 8) true] :=
  stringCircularBuffer_deliversStrings _ _ rfl rfl _
    (by simp [StringCall])
    ⟨Or.inl (by decide), trivial, Or.inl (by decide), trivial, trivial, trivial⟩

/-- The length of a string of `0x100000000` bytes is cast to 0: an empty string is accepted for it. -/
theorem pushString_wraps {x : List UInt8} (hx : x.length = 4294967296)
    (hnb : s.mNbCharInBuffer_U32 = 0) (hB : 0 < s.size) :
    (s.pushString (some x)).2.err = .noError := by
  have hlen : u32 x.length = 0 := by rw [hx, u32_eq_mod]
  simp only [pushString, hlen, pushBinary]
  rw [hnb, show u32 (0 + 1) = 1 from rfl, show u32 (0 + 1) = 1 from rfl, if_neg (by omega),
    if_pos (by decide)]

theorem not_deliversStrings {x : List UInt8} (pData : Nat → UInt8) (hx : x.length = 4294967296) :
    ¬ DeliversStrings ⟨1, by decide, false, false⟩ pData [.pushString (some x)] := by
  intro h
  have hcall := h.calls [] (.pushString (some x)) [] rfl
  have hfull := hcall.2 (by
    show ¬ 0 + x.length + 1 ≤ 1
    omega)
  have herr := pushString_wraps (s := create ⟨1, by decide, false, false⟩ pData) hx rfl
    Nat.one_pos
  rw [show (create ⟨1, by decide, false, false⟩ pData).pushString (some x) = _ from hfull] at herr
  exact BofErr.noConfusion herr

/-- A string of `0x100000000` bytes is accepted by a buffer of one byte. -/
theorem not_deliversStrings_of_wrap :
    ¬ DeliversStrings ⟨1, by decide, false, false⟩ (fun _ => 0)
      [.pushString (some (List.replicate 4294967296 97))] :=
  not_deliversStrings _ List.length_replicate

/-! ## The newest bytes -/

theorem moveIndex_eq {B i nb : Nat} (h : i + nb < 2 * B) (hlt : i + nb < 4294967296) :
    moveIndex B i nb = (i + nb) % B := by
  rw [moveIndex, u32_of_lt hlt]
  split
  · rename_i hge
    rw [u32Sub_of_le hge, Nat.mod_eq_sub_mod hge, Nat.mod_eq_of_lt (by omega)]
  · rw [Nat.mod_eq_of_lt (by omega)]

/-- A push in overwrite mode over the oldest bytes, when exactly one byte of room was left. -/
theorem Exact.pushBinary_over (h : Exact param s w) (ho : param.Overwrite_B = true) (x : List UInt8)
    (hlt : w.length + x.length + 1 < 4294967296) (hroom : w.length + 1 = s.size)
    (hpop : s.mPopIndex_U32 + x.length < 2 * s.size)
    (hpop' : s.mPopIndex_U32 + x.length < 4294967296) (hx : 0 < x.length)
    (hcount : ((w ++ terminated x).take x.length).count 0 = x.count 0) :
    Exact param (s.pushBinary x.length (some x)).1 ((w ++ terminated x).drop x.length) := by
  have hnb := h.count
  have hover : s.mStringCircularBufferParam_X.Overwrite_B = true := by rw [h.param_eq, ho]
  obtain ⟨level, heq⟩ := pushBinary_eq s x (by omega) (Or.inl hover)
  have hlen : (terminated x).length = x.length + 1 := by simp [terminated]
  obtain ⟨hholds, data, nb, index, hfold⟩ :=
    h.toHolds.foldl_pushChar (terminated x) (by omega) (by omega)
  have hall : (w ++ terminated x).length = s.size + x.length := by
    rw [List.length_append, hlen]
    omega
  have hdrop : ((w ++ terminated x).drop x.length).length = s.size := by
    rw [List.length_drop, hall, Nat.add_sub_cancel]
  rw [hfold] at hholds heq
  have hnb' : nb = s.size + x.length := hholds.count.trans hall
  have hindex : index = (s.mPopIndex_U32 + x.length) % s.size := by
    rw [show index = (s.mPopIndex_U32 + (w ++ terminated x).length) % s.size from hholds.push_eq,
      hall, Nat.add_left_comm, Nat.add_mod_left]
  rw [clipToSize, if_pos (by show nb > s.size; omega), if_pos hover] at heq
  have hmove := moveIndex_eq hpop hpop'
  rw [heq]
  refine ⟨⟨fun hB => ?_, ?_, ?_, ?_⟩, h.param_eq, h.snapshot, Nat.le_of_eq hdrop, ?_⟩
  · show moveIndex s.size s.mPopIndex_U32 x.length < s.size
    rw [hmove]
    exact Nat.mod_lt _ hB
  · exact hdrop.symm
  · show index = (moveIndex s.size s.mPopIndex_U32 x.length + _) % s.size
    rw [hmove, hdrop, Nat.add_mod_right, Nat.mod_mod, hindex]
  · have hwin : circ s.size data (s.mPopIndex_U32 + ((w ++ terminated x).length - s.size))
        (min (w ++ terminated x).length s.size) =
        (w ++ terminated x).drop ((w ++ terminated x).length - s.size) := hholds.window
    rw [hall, Nat.add_sub_cancel_left, Nat.min_eq_right (by omega)] at hwin
    show circ s.size data (moveIndex s.size s.mPopIndex_U32 x.length + (_ - s.size)) (min _ s.size) =
      List.drop (_ - s.size) _
    rw [hmove, hdrop, Nat.sub_self, Nat.min_self, Nat.add_zero, circ_mod, hwin, List.drop_zero]
  · show u32 (s.mNbElementInBuffer_U32 + 1) = _
    have hle : w.count 0 ≤ w.length := List.count_le_length
    have hsum : (w ++ terminated x).count 0 = w.count 0 + (x.count 0 + 1) := by
      rw [List.count_append, terminated, List.count_append]
      rfl
    have hsplit : (w ++ terminated x).count 0 =
        ((w ++ terminated x).take x.length).count 0 +
          ((w ++ terminated x).drop x.length).count 0 := by
      rw [← List.count_append, List.take_append_drop]
    rw [h.elements, u32_of_lt (by omega)]
    omega

/-- A push that is exact keeps the newest bytes. -/
theorem Exact.pushBinary_exact (h : Exact param s w) (ho : param.Overwrite_B = true)
    {x : List UInt8} (hx : PushIsExact s x) :
    Exact param (s.pushBinary x.length (some x)).1
      ((w ++ terminated x).drop ((w ++ terminated x).length - s.size)) := by
  obtain ⟨hlt, hcount, hcase⟩ := hx
  have hlen : (w ++ terminated x).length = w.length + x.length + 1 := by
    simp [terminated, Nat.add_assoc]
  rw [h.unread_eq h.fits, h.count] at hcount
  rw [h.count] at hlt hcase
  rw [hlen]
  by_cases hroom : w.length + x.length + 1 ≤ s.size
  · rw [Nat.sub_eq_zero_of_le hroom, List.take_zero] at hcount
    rw [Nat.sub_eq_zero_of_le hroom, List.drop_zero]
    exact (h.pushBinary_room x hroom hcount.symm).1
  · obtain ⟨h1, hpop, hpop'⟩ := hcase.resolve_left hroom
    have hlost : w.length + x.length + 1 - s.size = x.length := by omega
    rw [hlost] at hcount ⊢
    exact h.pushBinary_over ho x hlt h1 hpop hpop' (by omega) hcount

/-- One call in overwrite mode. -/
theorem Exact.step (h : Exact param s w) (ho : param.Overwrite_B = true) (op : Op)
    (hop : OverwriteIsExact s op) : Exact param (s.step op).1 (keepNewest param w op) := by
  have hsize := h.size_eq
  match op, hop with
  | .pushString (some x), hx =>
    have hcall : s.pushString (some x) = s.pushBinary x.length (some x) := by
      rw [pushString, u32_of_lt (by have := hx.1; omega)]
    have hpush := h.pushBinary_exact ho hx
    rw [← hcall, hsize] at hpush
    exact hpush
  | .pushBinary (some x), hx =>
    have hpush := h.pushBinary_exact ho hx
    rw [hsize] at hpush
    exact hpush
  | .popString (some nbMax) true, _ =>
    rw [keepNewest]
    cases hs : param.SnapshotMode_B with
    | false => exact (h.popString hs nbMax).1
    | true =>
      have hmode : s.mStringCircularBufferParam_X.SnapshotMode_B = true := by rw [h.param_eq, hs]
      have hcall : s.step (.popString (some nbMax) true) = (s, { err := .empty }) := by
        rw [StringCircularBuffer.step, StringCircularBuffer.popString, if_pos hmode, h.snapshot]
        rfl
      rw [hcall]
      exact h
  | .pushString none, _ => exact h
  | .pushBinary none, _ => exact h
  | .popString none _, _ => exact h
  | .popString (some _) false, _ => exact h

theorem suffix_keepNewest (param : StringCircularBufferParam) {stream : List UInt8} (h : w <:+ stream) (op : Op) :
    keepNewest param w op <:+ stream ++ pushedBytes op := by
  have hpush : ∀ x n, (w ++ terminated x).drop n <:+ stream ++ terminated x := by
    intro x n
    obtain ⟨before, rfl⟩ := h
    refine (List.drop_suffix _ _).trans ⟨before, ?_⟩
    rw [List.append_assoc]
  have hpop : ∀ n, w.drop n <:+ stream ++ [] := by
    intro n
    rw [List.append_nil]
    exact (List.drop_suffix _ _).trans h
  match op with
  | .pushString (some x) => exact hpush x _
  | .pushBinary (some x) => exact hpush x _
  | .popString (some nbMax) true =>
    rw [keepNewest]
    split
    · exact hpop 0
    · exact hpop _
  | .pushString none => exact hpop 0
  | .pushBinary none => exact hpop 0
  | .popString none _ => exact hpop 0
  | .popString (some _) false => exact hpop 0

/-- In overwrite mode, the newest bytes are kept on every run whose pushes are exact. -/
theorem stringCircularBuffer_keepsNewest (param : StringCircularBufferParam) (pData : Nat → UInt8)
    (ho : param.Overwrite_B = true) (hB : 0 < param.BufferSizeInByte_U32) (ops : List Op)
    (hc : Meets step OverwriteIsExact (create param pData) ops) : KeepsNewest param pData ops := by
  have hrun := inv_history (P := fun hist s =>
      Exact param s ((hist.map Prod.fst).foldl (keepNewest param) []) ∧
      (hist.map Prod.fst).foldl (keepNewest param) [] <:+ (hist.map Prod.fst).flatMap pushedBytes)
    (fun hist s op hs hop => by
      rw [List.map_append, List.foldl_append, List.flatMap_append]
      have hsuffix := suffix_keepNewest param hs.2 op
      refine ⟨hs.1.step ho op hop, ?_⟩
      simpa using hsuffix)
    (h := []) ⟨exact_create param pData, List.suffix_refl _⟩ hc
  rw [List.nil_append, map_fst_history] at hrun
  obtain ⟨hexact, hsuffix⟩ := hrun
  have hsize := hexact.size_eq
  have hunread := hexact.unread_eq hexact.fits
  have hB' : 0 < (run step (create param pData) ops).1.size := by rw [hsize]; exact hB
  have hpush := hexact.push_eq
  have hpop := hexact.pop_lt hB'
  rw [← hexact.count, hsize] at hpush
  rw [hsize] at hpop
  refine ⟨?_, hpop, hpush, hunread, by rw [hunread]; exact hsuffix, by rw [hunread, hexact.elements]⟩
  rw [hpush]
  exact Nat.mod_lt _ hB

/-- The first byte of a string in a buffer of four bytes is pushed out by the next string. -/
theorem keepsNewest_four_bytes :
    KeepsNewest ⟨4, by decide, false, true⟩ (fun _ => 0)
      [.pushString (some [1, 2]), .pushString (some [3]), .popString (some 3) true] :=
  stringCircularBuffer_keepsNewest _ _ rfl (by decide) _
    ⟨show PushIsExact _ _ by decide, show PushIsExact _ _ by decide, trivial, trivial⟩

/-- A push onto a full buffer of four bytes leaves the pop index at 1 and the push index at 2. -/
theorem not_keepsNewest_of_full :
    ¬ KeepsNewest ⟨4, by decide, false, true⟩ (fun _ => 0)
      [.pushString (some [97, 98, 99]), .pushString (some [100])] :=
  fun h => absurd h.push_eq (by decide)

end BofStd.StringCircularBuffer
