import BofStd.Proofs.StringCircularBufferProofs

/-!
# `BofStringCircularBuffer`: replays of a snapshot

Without overflow the stored bytes `w` stand from index 0 on (`Stored`). `ResyncSnapshot` makes all of them readable
from the index that it computes (`Reading`), so that a replay hands out as many bytes as are stored, wherever it
starts: only the replay from the oldest byte on is exact.
-/

namespace BofStd.StringCircularBuffer

open Memory Machine

variable {s t : StringCircularBuffer} {w c content : List UInt8} {limits : List Nat}

/-! ## The stored bytes -/

/-- `t` differs from `s` in the reading of the snapshot only. -/
def SameStore (s t : StringCircularBuffer) : Prop :=
  ∃ index nb, t = { s with mPopSnapshotIndex_U32 := index, mNbSnapshotCharInBuffer_U32 := nb }

theorem SameStore.refl (s : StringCircularBuffer) : SameStore s s := ⟨_, _, rfl⟩

theorem SameStore.popLoop (nb k : Nat) (h : SameStore s t) (out : List UInt8) :
    SameStore s (StringCircularBuffer.popLoop mPopSnapshotIndex_U32 popSnapshotChar id nb k t out).1 := by
  induction k generalizing t out with
  | zero => exact h
  | succ k ih =>
    have hnext : SameStore s t.popSnapshotChar := by
      obtain ⟨index, nb, rfl⟩ := h
      exact ⟨_, _, rfl⟩
    rw [StringCircularBuffer.popLoop]
    split_ifs
    · exact h
    · exact hnext
    · exact ih hnext _

/-- A read in snapshot mode. -/
theorem SameStore.popString (h : SameStore s t) (hmode : s.mStringCircularBufferParam_X.SnapshotMode_B = true)
    (pNbMax : Option Nat) (pData : Bool) : SameStore s (t.popString pNbMax pData).1 := by
  have htmode : t.mStringCircularBufferParam_X.SnapshotMode_B = true := by
    obtain ⟨index, nb, rfl⟩ := h
    exact hmode
  unfold StringCircularBuffer.popString
  split
  · rw [if_pos htmode, popWith]
    dsimp only
    generalize (if _ > t.mNbSnapshotCharInBuffer_U32 then t.mNbSnapshotCharInBuffer_U32 else _) = nb
    split_ifs
    · exact h
    · exact h
    · exact h.popLoop nb nb []
  · exact h

theorem SameStore.resyncSnapshot (h : SameStore s t) (i : Nat) : SameStore s (t.resyncSnapshot i).1 := by
  obtain ⟨index, nb, rfl⟩ := h
  unfold StringCircularBuffer.resyncSnapshot
  split
  · dsimp only
    split
    · exact ⟨_, _, rfl⟩
    · exact ⟨_, _, rfl⟩
  · exact ⟨_, _, rfl⟩

/-- Without overflow, the bytes of all the strings pushed stand from index 0 on. -/
structure Stored (s : StringCircularBuffer) (w : List UInt8) : Prop extends Holds s w where
  mode : s.mStringCircularBufferParam_X.SnapshotMode_B = true
  pop_eq : s.mPopIndex_U32 = 0
  fits : w.length ≤ s.size
  last_eq : w ≠ [] → w.getLast? = some 0

theorem Stored.of_sameStore (h : Stored s w) (ht : SameStore s t) : Stored t w := by
  obtain ⟨index, nb, rfl⟩ := ht
  exact ⟨⟨h.pop_lt, h.count, h.push_eq, h.window⟩, h.mode, h.pop_eq, h.fits, h.last_eq⟩

theorem stored_create {param : StringCircularBufferParam} (hmode : param.SnapshotMode_B = true)
    (pData : Nat → UInt8) : Stored (create param pData) [] :=
  ⟨(exact_create param pData).toHolds, hmode, rfl, Nat.zero_le _, fun hne => absurd rfl hne⟩

theorem Stored.unread_eq (h : Stored s w) : unread s = w := h.toHolds.unread_eq h.fits

theorem Stored.pushString_room (h : Stored s w) (x : List UInt8)
    (hroom : s.mNbCharInBuffer_U32 + x.length + 1 ≤ s.size) :
    Stored (s.pushString (some x)).1 (w ++ terminated x) := by
  have hsize := s.size_lt
  have hcall : s.pushString (some x) = s.pushBinary x.length (some x) := by
    rw [pushString, u32_of_lt (by omega)]
  rw [h.count] at hroom
  obtain ⟨hholds, data, nb, index, level, heq⟩ := h.toHolds.pushBinary_room x hroom
  rw [hcall]
  rw [heq] at hholds ⊢
  refine ⟨hholds, h.mode, h.pop_eq, ?_, ?_⟩
  · show (w ++ terminated x).length ≤ s.size
    rw [List.length_append, length_terminated]
    omega
  · intro _
    rw [terminated, ← List.append_assoc, List.getLast?_concat]

/-- A push that is refused changes nothing. -/
theorem pushString_refused (pData : Option (List UInt8)) (h : (s.pushString pData).2.err ≠ .noError) :
    (s.pushString pData).1 = s := by
  cases pData with
  | none => rfl
  | some x =>
    simp only [pushString, pushBinary] at h ⊢
    split_ifs at h ⊢
    · rfl
    · exact absurd rfl h
    · exact absurd rfl h

/-- What one call does to the stored bytes, as long as there is no overflow. -/
theorem Stored.step (h : Stored s w) (op : SnapshotOp) (hop : NoOverflow s op) :
    ∃ w', Stored (stepSnapshot s op).1 w' := by
  cases op with
  | pushString pData =>
    by_cases herr : (s.pushString pData).2.err = .noError
    · cases pData with
      | none => exact ⟨w, h⟩
      | some x =>
        rcases hop with hroom | href
        · exact ⟨_, h.pushString_room x hroom⟩
        · exact absurd herr href
    · refine ⟨w, ?_⟩
      rw [stepSnapshot, pushString_refused pData herr]
      exact h
  | popString pNbMax pData => exact ⟨w, h.of_sameStore ((SameStore.refl s).popString h.mode pNbMax pData)⟩
  | resyncSnapshot i => exact ⟨w, h.of_sameStore ((SameStore.refl s).resyncSnapshot i)⟩

/-! ## Reading the snapshot -/

/-- In front of the reader of the snapshot are the bytes `c`. -/
structure Reading (s t : StringCircularBuffer) (c : List UInt8) : Prop where
  same : SameStore s t
  index_lt : t.mPopSnapshotIndex_U32 < s.size
  count : t.mNbSnapshotCharInBuffer_U32 = c.length
  fits : c.length ≤ s.size
  window : circ s.size s.mpData_c t.mPopSnapshotIndex_U32 c.length = c

theorem Reading.popSnapshotChar {x : UInt8} (h : Reading s t (x :: c)) :
    Reading s t.popSnapshotChar c ∧ t.mpData_c t.mPopSnapshotIndex_U32 = x := by
  have hindex := h.index_lt
  have hsize := s.size_lt
  have hcount := h.count
  have hfits := h.fits
  have hwin := h.window
  obtain ⟨index, nb, rfl⟩ := h.same
  have hnext : nextIndex s.size index = (index + 1) % s.size := nextIndex_eq hindex hsize
  rw [List.length_cons] at hwin hcount hfits
  rw [circ_succ_left, Nat.mod_eq_of_lt hindex, List.cons.injEq] at hwin
  refine ⟨⟨⟨_, _, rfl⟩, ?_, ?_, by omega, ?_⟩, hwin.1⟩
  · show nextIndex s.size index < s.size
    rw [hnext]
    exact Nat.mod_lt _ (by omega)
  · show u32Sub nb 1 = c.length
    rw [show nb = c.length + 1 from hcount, u32Sub_of_le (by omega), Nat.add_sub_cancel]
  · show circ s.size s.mpData_c (nextIndex s.size index) c.length = c
    rw [hnext, circ_mod]
    exact hwin.2

theorem reads_reading (s : StringCircularBuffer) :
    Reads mPopSnapshotIndex_U32 StringCircularBuffer.popSnapshotChar id (Reading s) where
  first_eq h := h.popSnapshotChar.2
  advance_char h _ := h.popSnapshotChar.1
  advance_terminator h := h.popSnapshotChar.1

/-- One read: what is in front of the reader is handed out up to a terminator, or as far as there is room. -/
theorem Reading.stepReplay (h : Reading s t c) (hmode : s.mStringCircularBufferParam_X.SnapshotMode_B = true)
    (limit : Nat) :
    Reading s (StringCircularBuffer.stepReplay t limit).1 (c.drop (popBytes (min limit c.length) c).length) ∧
    (c = [] → StringCircularBuffer.stepReplay t limit = (t, { err := .empty })) ∧
    (c ≠ [] → 0 < limit → (StringCircularBuffer.stepReplay t limit).2 =
      pieceOut (popBytes (min limit c.length) c)) := by
  have htmode : t.mStringCircularBufferParam_X.SnapshotMode_B = true := by
    obtain ⟨index, nb, rfl⟩ := h.same
    exact hmode
  have hcall : StringCircularBuffer.stepReplay t limit =
      popWith mPopSnapshotIndex_U32 StringCircularBuffer.popSnapshotChar id c.length limit t := by
    rw [StringCircularBuffer.stepReplay, popString, if_pos htmode, h.count]
  rw [hcall]
  exact (reads_reading s).popWith h limit

/-- With nothing in front of the reader, all reads find the buffer empty. -/
theorem Reading.run_nil (h : Reading s t []) (hmode : s.mStringCircularBufferParam_X.SnapshotMode_B = true)
    (limits : List Nat) : (run StringCircularBuffer.stepReplay t limits).2 = limits.map fun _ => { err := .empty } := by
  induction limits with
  | nil => rfl
  | cons limit limits ih =>
    rw [run_cons, (h.stepReplay hmode limit).2.1 rfl, List.map_cons, ih]

theorem prefix_popBytes (k : Nat) (w : List UInt8) : popBytes k w <+: w := by
  induction k, w using popBytes.induct with
  | case1 w => exact List.nil_prefix
  | case2 k => exact List.nil_prefix
  | case3 k cs => simp [popBytes]
  | case4 c cs hc => simp [popBytes, hc]
  | case5 k c cs hc hk ih =>
    rw [popBytes, if_neg hc, if_neg hk]
    exact List.cons_prefix_cons.mpr ⟨rfl, ih⟩

/-- A reader with room for all the bytes finds the first terminator. -/
theorem zero_mem_popBytes (h : 0 ∈ w) : 0 ∈ popBytes w.length w := by
  induction w with
  | nil => exact absurd h List.not_mem_nil
  | cons x w ih =>
    rw [List.length_cons, popBytes]
    split_ifs with hx hnil
    · rw [hx]
      exact List.mem_singleton_self 0
    · rcases List.mem_cons.mp h with h0 | hw
      · exact absurd h0.symm hx
      · exact absurd (List.length_pos_of_mem hw) (by omega)
    · rcases List.mem_cons.mp h with h0 | hw
      · exact absurd h0.symm hx
      · exact List.mem_cons_of_mem x (ih hw)

/-! ## The replay from the oldest byte on -/

/-- A read of bytes that end with a terminator hands out a piece of them. -/
theorem handsOutPiece_popBytes {limit : Nat} (hlimit : 2 ≤ limit) (hne : c ≠ []) (hlast : c.getLast? = some 0) :
    popBytes (min limit c.length) c ≠ [] ∧
      HandsOutPiece limit (popBytes (min limit c.length) c) (pieceOut (popBytes (min limit c.length) c)) := by
  have hlen := List.length_pos_iff.mpr hne
  have hmem : 0 ∈ c := List.mem_of_getLast? hlast
  rcases popBytes_cases (w := c) (k := min limit c.length) (by omega) (Nat.min_le_right _ _) with
    ⟨ys, heq, hys, hlt⟩ | ⟨hys, hlt⟩
  · rw [heq, pieceOut, textOf_terminated hys]
    refine ⟨by simp, rfl, by simp, Or.inl ⟨rfl, List.getLast?_concat⟩⟩
  · -- without a terminator among the bytes there is too little room for all of them
    have hroom : limit < c.length := by
      by_contra hge
      rw [Nat.min_eq_right (by omega)] at hys
      exact hys (zero_mem_popBytes hmem)
    rw [Nat.min_eq_left (by omega)] at hys hlt ⊢
    rw [pieceOut, textOf_of_not_mem hys]
    refine ⟨?_, rfl, by simp, Or.inr ⟨rfl, ?_⟩⟩
    · intro hnil
      rw [hnil, List.length_nil] at hlt
      omega
    · simp only [List.length_append, List.length_singleton]
      omega

/-- Enough reads hand out all that is in front of the reader, if it ends with a terminator. -/
theorem Reading.handsOut (h : Reading s t c) (hmode : s.mStringCircularBufferParam_X.SnapshotMode_B = true)
    (hlast : c ≠ [] → c.getLast? = some 0) (hlimits : ∀ limit ∈ limits, 2 ≤ limit) (hlen : c.length ≤ limits.length) :
    HandsOut c limits (run StringCircularBuffer.stepReplay t limits).2 := by
  induction limits generalizing t c with
  | nil =>
    obtain rfl := List.length_eq_zero_iff.mp (Nat.le_zero.mp hlen)
    exact HandsOut.empty []
  | cons limit limits ih =>
    obtain ⟨hlimit, hrest⟩ := List.forall_mem_cons.mp hlimits
    obtain ⟨hnext, -, hout⟩ := h.stepReplay hmode limit
    by_cases hne : c = []
    · subst hne
      rw [h.run_nil hmode]
      exact HandsOut.empty _
    · obtain ⟨hpiece, hpieceOut⟩ := handsOutPiece_popBytes hlimit hne (hlast hne)
      have hpos := List.length_pos_iff.mpr hpiece
      rw [List.length_cons] at hlen
      have hcontent := List.prefix_iff_eq_append.mp (prefix_popBytes (min limit c.length) c)
      have htail := ih hnext ?_ hrest (by rw [List.length_drop]; omega)
      · have hall := HandsOut.piece hpiece hpieceOut htail
        rw [hcontent, ← hout hne (by omega)] at hall
        exact hall
      · intro hdrop
        have hlt : (popBytes (min limit c.length) c).length < c.length := by
          by_contra hge
          exact hdrop (List.drop_of_length_le (by omega))
        rw [List.getLast?_drop, if_neg (by omega)]
        exact hlast hne

/-! ## The replay from another byte on -/

theorem HandsOutPiece.eq_data {limit : Nat} {piece : List UInt8} {out : StringOut} (h : HandsOutPiece limit piece out)
    (hlt : out.data.length < limit) : out.data = piece := by
  rcases h.2.2 with ⟨heq, -⟩ | ⟨-, hlen⟩
  · exact heq
  · omega

/-- A last byte that is no terminator stays in front of the reader for ever, and the buffer is never found empty. -/
theorem Reading.not_handsOut {x : UInt8} (h : Reading s t [x])
    (hmode : s.mStringCircularBufferParam_X.SnapshotMode_B = true) (hx : x ≠ 0)
    (hlimits : ∀ limit ∈ limits, 2 ≤ limit) (hlen : content.length < limits.length) :
    ¬ HandsOut content limits (run StringCircularBuffer.stepReplay t limits).2 := by
  induction limits generalizing t content with
  | nil => exact absurd hlen (Nat.not_lt_zero _)
  | cons limit limits ih =>
    obtain ⟨hlimit, hrest⟩ := List.forall_mem_cons.mp hlimits
    obtain ⟨hnext, -, hout⟩ := h.stepReplay hmode limit
    have hpop : popBytes (min limit [x].length) [x] = [] := by
      rw [List.length_singleton, Nat.min_eq_right (by omega), popBytes, if_neg hx, if_pos rfl]
    rw [hpop] at hnext hout
    have herr := hout (List.cons_ne_nil x []) (by omega)
    intro hall
    rw [run_cons] at hall
    generalize hstep : (StringCircularBuffer.stepReplay t limit).2 = out at hall herr
    generalize hrun : (run StringCircularBuffer.stepReplay (StringCircularBuffer.stepReplay t limit).1 limits).2 =
      outs at hall
    cases hall with
    | empty => exact BofErr.noConfusion (congrArg StringOut.err herr)
    | piece hne hpiece htail =>
      have hpos := List.length_pos_iff.mpr hne
      rw [List.length_append, List.length_cons] at hlen
      rw [← hrun] at htail
      exact ih hnext hrest (by omega) htail

/-- Reads with room for everything that is in front of the reader hand out just that, if they come to an end. -/
theorem Reading.content_eq (h : Reading s t c) (hmode : s.mStringCircularBufferParam_X.SnapshotMode_B = true)
    (hlimits : ∀ limit ∈ limits, c.length + 2 ≤ limit) (hlen : content.length < limits.length)
    (hall : HandsOut content limits (run StringCircularBuffer.stepReplay t limits).2) : content = c := by
  induction limits generalizing t c content with
  | nil => exact absurd hlen (Nat.not_lt_zero _)
  | cons limit limits ih =>
    obtain ⟨hlimit, hrest⟩ := List.forall_mem_cons.mp hlimits
    obtain ⟨hnext, hempty, hout⟩ := h.stepReplay hmode limit
    rw [run_cons] at hall
    generalize hstep : (StringCircularBuffer.stepReplay t limit).2 = out at hall hout
    generalize hrun : (run StringCircularBuffer.stepReplay (StringCircularBuffer.stepReplay t limit).1 limits).2 =
      outs at hall
    cases hall with
    | empty =>
      by_contra hne
      exact BofErr.noConfusion (congrArg StringOut.err (hout (Ne.symm hne) (by omega)))
    | @piece piece content _ _ _ _ hne hpiece htail =>
      have hpos := List.length_pos_iff.mpr hne
      have hc : c ≠ [] := by
        intro hnil
        rw [hempty hnil] at hstep
        rw [← hstep] at hpiece
        exact BofErr.noConfusion hpiece.1
      have hcpos := List.length_pos_iff.mpr hc
      have hdata := hout hc (by omega)
      rw [List.length_append, List.length_cons] at hlen
      rw [← hrun] at htail
      rw [Nat.min_eq_right (by omega)] at hnext hdata
      rcases popBytes_cases (w := c) hcpos (Nat.le_refl _) with ⟨ys, heq, hys, hlt⟩ | ⟨hys, hlt⟩
      · -- the bytes up to a terminator were taken, and handed out as they are
        have hcontent := List.prefix_iff_eq_append.mp (prefix_popBytes c.length c)
        rw [heq] at hnext hdata hcontent
        rw [pieceOut, textOf_terminated hys] at hdata
        have hpieceEq : ys ++ [0] = piece := by
          have hdatalt : out.data.length < limit := by
            rw [hdata]
            simp only [List.length_append, List.length_singleton]
            omega
          rw [← hpiece.eq_data hdatalt, hdata]
        have htailEq := ih hnext ?_ (by omega) htail
        · rw [← hpieceEq, htailEq, hcontent]
        · intro limit' hmem
          have hroom := hrest limit' hmem
          rw [List.length_drop]
          omega
      · -- there is no terminator: the last byte is left
        exfalso
        have hnot : 0 ∉ c := fun hmem => hys (zero_mem_popBytes hmem)
        obtain ⟨x, hdrop⟩ : ∃ x, c.drop (popBytes c.length c).length = [x] := by
          rw [← List.length_eq_one_iff, List.length_drop]
          omega
        have hx : x ≠ 0 := by
          rintro rfl
          exact hnot (List.mem_of_mem_drop (hdrop ▸ List.mem_singleton_self 0))
        rw [hdrop] at hnext
        refine hnext.not_handsOut hmode hx ?_ (by omega) htail
        intro limit' hmem
        exact Nat.le_trans (Nat.le_add_left 2 _) (hrest limit' hmem)

/-! ## The start of the replay -/

/-- The oldest byte is at index 0. With a full buffer of more than half the range of `uint32_t` the difference is taken for
a positive one, and the byte is looked for elsewhere. -/
theorem Stored.indexOnTheOldest (h : Stored s w) (hw : 0 < w.length) :
    (s.indexOnTheOldest = 0 ∧ (w.length < s.size ∨ s.size ≤ 2147483648)) ∨
      (s.indexOnTheOldest = 4294967296 - s.size ∧ w.length = s.size ∧ 2147483648 < s.size) := by
  have hsize := s.size_lt
  have hpush := h.push_eq
  rw [h.pop_eq, Nat.zero_add] at hpush
  rw [StringCircularBuffer.indexOnTheOldest, hpush, h.count]
  rcases Nat.lt_or_eq_of_le h.fits with hlt | hfull
  · rw [Nat.mod_eq_of_lt hlt, u32Sub_of_le (Nat.le_refl _), Nat.sub_self, if_neg (by omega)]
    exact Or.inl ⟨rfl, Or.inl hlt⟩
  · have hdiff : u32Sub (w.length % s.size) w.length = 4294967296 - s.size := by
      rw [hfull, Nat.mod_self, u32Sub, if_neg (by omega), Nat.zero_add]
    rw [hdiff]
    by_cases hbig : 2147483648 < s.size
    · rw [if_neg (by omega)]
      exact Or.inr ⟨rfl, hfull, hbig⟩
    · rw [if_pos (by omega), Nat.add_sub_cancel' (by omega)]
      exact Or.inl ⟨rfl, Or.inr (by omega)⟩

/-- Where the replay starts. -/
theorem resyncSnapshot_eq (hmode : s.mStringCircularBufferParam_X.SnapshotMode_B = true) {i : Nat}
    (hi : i < s.mNbCharInBuffer_U32) (hsum : s.indexOnTheOldest + i < 4294967296) :
    (s.resyncSnapshot i).1 = { s with
      mPopSnapshotIndex_U32 :=
        if s.indexOnTheOldest + i ≥ s.size then s.indexOnTheOldest + i - s.size else s.indexOnTheOldest + i
      mNbSnapshotCharInBuffer_U32 := s.mNbCharInBuffer_U32 } := by
  have hne : s.mNbCharInBuffer_U32 ≠ 0 := by omega
  have hnot : ¬ i ≥ s.mNbCharInBuffer_U32 := by omega
  have hu : u32 (s.indexOnTheOldest + i) = s.indexOnTheOldest + i := u32_of_lt hsum
  rw [StringCircularBuffer.resyncSnapshot, if_pos hmode]
  dsimp only
  rw [if_pos hne, if_neg hnot, ← hu]
  rfl

/-- `ResyncSnapshot` makes as many bytes readable as are stored. From the oldest byte on these are the stored bytes, if
the signed difference finds it. -/
theorem Stored.resyncSnapshot (h : Stored s w) {i : Nat} (hi : i < w.length) :
    ∃ c, Reading s (s.resyncSnapshot i).1 c ∧ c.length = w.length ∧ (i = 0 → (c = w ↔ FindsOldest s)) := by
  have hsize := s.size_lt
  have hfits := h.fits
  have hcount := h.count
  have hwin := h.toHolds.window_of_le hfits
  have hold := h.indexOnTheOldest (by omega)
  have heq := resyncSnapshot_eq h.mode (i := i) (by omega) (by omega)
  rw [h.pop_eq] at hwin
  generalize s.indexOnTheOldest = d at hold heq
  refine ⟨circ s.size s.mpData_c (if d + i ≥ s.size then d + i - s.size else d + i) w.length, ⟨⟨_, _, heq⟩, ?_, ?_, ?_, ?_⟩,
    length_circ _ _ _ _, ?_⟩
  · rw [heq]
    dsimp only
    split_ifs <;> omega
  · rw [heq, length_circ]
    exact hcount
  · rw [length_circ]
    exact hfits
  · rw [heq, length_circ]
  · intro h0
    rw [h0, Nat.add_zero, if_neg (by omega), FindsOldest, h.unread_eq, hcount]
    rcases hold with ⟨hd0, hfinds⟩ | ⟨hd, hfull, hbig⟩
    · rw [hd0, hwin]
      refine iff_of_true rfl ?_
      rcases hfinds with hlt | hle
      · exact Or.inl hlt
      · exact Or.inr (Or.inl hle)
    · have hrot := circ_eq_rotate s.size s.mpData_c 0 (d := d) (by omega)
      rw [hfull] at hwin ⊢
      rw [Nat.zero_add, hwin] at hrot
      rw [hrot, hd]
      constructor
      · intro hw
        exact Or.inr (Or.inr hw)
      · rintro (hlt | hle | hw)
        · exact absurd hlt (Nat.lt_irrefl _)
        · omega
        · exact hw

/-- A replay is exact if and only if it starts with the oldest byte, and finds it. -/
theorem Stored.replaysExactly_iff (h : Stored s w) {i : Nat} (hi : i < w.length) :
    ReplaysExactly s i ↔ i = 0 ∧ FindsOldest s := by
  obtain ⟨c, hreading, hlen, hstart⟩ := h.resyncSnapshot hi
  have hcount := h.count
  rw [ReplaysExactly, h.unread_eq]
  constructor
  · intro hall
    have hlimits : ∀ limit ∈ List.replicate (w.length + 1) (w.length + 2), 2 ≤ limit := by
      intro limit hmem
      rw [List.eq_of_mem_replicate hmem]
      exact Nat.le_add_left 2 _
    have hlong : s.mNbCharInBuffer_U32 < (List.replicate (w.length + 1) (w.length + 2)).length := by
      rw [hcount, List.length_replicate]
      exact Nat.lt_succ_self _
    obtain ⟨hout, -⟩ := hall _ hlimits hlong
    have hcontent : w.drop i = c := by
      refine hreading.content_eq h.mode ?_ ?_ hout
      · intro limit hmem
        rw [List.eq_of_mem_replicate hmem, hlen]
      · rw [List.length_drop, List.length_replicate]
        exact Nat.lt_succ_of_le (Nat.sub_le _ _)
    have hi0 : i = 0 := by
      have hdrop := congrArg List.length hcontent
      rw [List.length_drop] at hdrop
      omega
    rw [hi0, List.drop_zero] at hcontent
    exact ⟨hi0, (hstart hi0).mp hcontent.symm⟩
  · rintro ⟨hi0, hfinds⟩ limits hlimits hlong
    have hc := (hstart hi0).mpr hfinds
    rw [hc] at hreading
    refine ⟨?_, ?_⟩
    · rw [hcount] at hlong
      rw [hi0, List.drop_zero, ← hi0]
      exact hreading.handsOut h.mode h.last_eq hlimits (Nat.le_of_lt hlong)
    · exact inv_run (P := SameStore s) (fun t limit ht (_ : True) => ht.popString h.mode (some limit) true)
        hreading.same (meets_of_forall (fun _ _ => trivial) _ limits)

/-! ## Runs -/

/-- In every state of a run without overflow, the replay from the `i`-th oldest byte on is exact if and only if `i` is 0
and the signed difference finds the oldest byte. -/
theorem stringCircularBuffer_replaysExactly_iff (param : StringCircularBufferParam) (pData : Nat → UInt8)
    (ops : List SnapshotOp) (hmode : param.SnapshotMode_B = true)
    (hops : Meets stepSnapshot NoOverflow (create param pData) ops) (i : Nat)
    (hi : i < (run stepSnapshot (create param pData) ops).1.mNbCharInBuffer_U32) :
    ReplaysExactly (run stepSnapshot (create param pData) ops).1 i ↔
      i = 0 ∧ FindsOldest (run stepSnapshot (create param pData) ops).1 := by
  have hstep : ∀ s op, (∃ w, Stored s w) → NoOverflow s op → ∃ w, Stored (stepSnapshot s op).1 w := by
    rintro s op ⟨w, h⟩ hop
    exact h.step op hop
  obtain ⟨w, h⟩ := inv_run hstep ⟨[], stored_create hmode pData⟩ hops
  rw [h.count] at hi
  exact h.replaysExactly_iff hi

/-- A buffer of eight bytes that can be replayed. -/
def snapshotParam : StringCircularBufferParam where
  BufferSizeInByte_U32 := 8
  bufferSize_lt := by decide
  SnapshotMode_B := true
  Overwrite_B := false

theorem replaysExactly_two_strings :
    ReplaysExactly (run stepSnapshot (create snapshotParam fun _ => 0)
      [.pushString (some [97, 98]), .resyncSnapshot 2, .popString (some 5) true, .pushString (some [99])]).1 0 :=
  (stringCircularBuffer_replaysExactly_iff snapshotParam (fun _ => 0)
    [.pushString (some [97, 98]), .resyncSnapshot 2, .popString (some 5) true, .pushString (some [99])] rfl
    ⟨Or.inl (by decide), trivial, trivial, Or.inl (by decide), trivial⟩ 0 (by decide)).mpr
    ⟨rfl, Or.inl (by decide)⟩

/-- The replay of "ab" from its second byte on hands out "b" and then the byte behind the newest one. -/
theorem not_replaysExactly_second_byte :
    (run stepReplay ((run stepSnapshot (create snapshotParam fun _ => 0)
      [.pushString (some [97, 98])]).1.resyncSnapshot 1).1 [8, 8]).2 =
      [{ err := .noError, nbMax := 2, data := [98, 0] }, { err := .noError, nbMax := 1, data := [0] }] ∧
    ¬ ReplaysExactly (run stepSnapshot (create snapshotParam fun _ => 0) [.pushString (some [97, 98])]).1 1 := by
  have hstored : Stored (run stepSnapshot (create snapshotParam fun _ => 0) [.pushString (some [97, 98])]).1
      (terminated [97, 98]) := (stored_create rfl _).pushString_room [97, 98] (by decide)
  refine ⟨by decide, ?_⟩
  rw [hstored.replaysExactly_iff (by decide)]
  exact fun hand => absurd hand.1 (by decide)

end BofStd.StringCircularBuffer
