import BofStd.Proofs.RawFifoProofs

/-!
# `BofRawCircularBuffer`: the contiguous mode

In contiguous mode the entries are one run of consecutive regions that ends at the head, or two of them:
an older one that ends at or before the end of the storage, and a younger one from its start to the head
(`Layout`). The free bytes do not tell where the hole between the two is, so a push may pass the head
over the oldest entry. `StaysBehindOldest` excludes this, and the last run shows it.
-/

namespace BofStd.RawCircularBuffer

open Memory Machine

variable {s : RawCircularBuffer} {es : List RawBuffer} {e : RawBuffer} {param : RawCircularBufferParam}
  {a b head B : Nat}

/-- The entries are consecutive regions from `a` to `b`. -/
def Consecutive (a : Nat) : List RawBuffer → Nat → Prop
  | [], b => a = b
  | e :: es, b => e.pData1_U8 = some a ∧ e.Size2_U32 = 0 ∧ 0 < e.Size1_U32 ∧
    Consecutive (a + e.Size1_U32) es b

theorem Consecutive.append (h : Consecutive a es b) (hp : e.pData1_U8 = some b)
    (h2 : e.Size2_U32 = 0) (h1 : 0 < e.Size1_U32) :
    Consecutive a (es ++ [e]) (b + e.Size1_U32) := by
  induction es generalizing a with
  | nil =>
    obtain rfl : a = b := h
    exact ⟨hp, h2, h1, rfl⟩
  | cons f es ih =>
    obtain ⟨hf, hf2, hf1, htail⟩ := h
    exact ⟨hf, hf2, hf1, ih htail⟩

theorem Consecutive.le (h : Consecutive a es b) : a ≤ b := by
  induction es generalizing a with
  | nil => exact Nat.le_of_eq h
  | cons f es ih =>
    have htail := ih h.2.2.2
    omega

theorem Consecutive.lt (h : Consecutive a es b) (hne : es ≠ []) : a < b := by
  cases es with
  | nil => exact absurd rfl hne
  | cons f es =>
    obtain ⟨-, -, hpos, htail⟩ := h
    have hle := htail.le
    omega

theorem cells_of_contiguous (hp : e.pData1_U8 = some a) (h2 : e.Size2_U32 = 0) :
    cells e = List.range' a e.Size1_U32 := by
  rw [cells, hp, h2]
  simp

theorem Consecutive.cells_eq (h : Consecutive a es b) :
    es.flatMap cells = List.range' a (b - a) := by
  induction es generalizing a with
  | nil =>
    obtain rfl : a = b := h
    simp
  | cons f es ih =>
    obtain ⟨hf, hf2, -, htail⟩ := h
    have hle := htail.le
    rw [List.flatMap_cons, cells_of_contiguous hf hf2, ih htail, List.range'_append_1]
    congr 1
    omega

theorem Consecutive.contiguous (h : Consecutive a es b) :
    ∀ f ∈ es, f.Size2_U32 = 0 ∧ f.pData1_U8.getD 0 + f.Size1_U32 ≤ b := by
  induction es generalizing a with
  | nil =>
    intro f hf
    exact absurd hf List.not_mem_nil
  | cons g es ih =>
    obtain ⟨hg, hg2, -, htail⟩ := h
    intro f hf
    rcases List.mem_cons.mp hf with rfl | hf
    · refine ⟨hg2, ?_⟩
      rw [hg]
      exact htail.le
    · exact ih htail f hf

/-- One run of regions that ends at the head, or an older run and a younger one before it. -/
def Layout (B head : Nat) (es : List RawBuffer) : Prop :=
  (∃ a, Consecutive a es head) ∨
  ∃ first second a b, es = first ++ second ∧ first ≠ [] ∧ Consecutive a first b ∧ b ≤ B ∧
    Consecutive 0 second head ∧ head ≤ a

theorem Layout.nodup (h : Layout B head es) : (es.flatMap cells).Nodup := by
  rcases h with ⟨a, hrun⟩ | ⟨first, second, a, b, rfl, -, hfirst, -, hsecond, hle⟩
  · rw [hrun.cells_eq]
    exact List.nodup_range'
  · rw [List.flatMap_append, hfirst.cells_eq, hsecond.cells_eq, List.nodup_append]
    refine ⟨List.nodup_range', List.nodup_range', ?_⟩
    rintro c hc _ hc' rfl
    rw [List.mem_range'_1] at hc hc'
    omega

theorem Layout.contiguous (h : Layout B head es) (hhead : head ≤ B) :
    ∀ f ∈ es, f.Size2_U32 = 0 ∧ f.pData1_U8.getD 0 + f.Size1_U32 ≤ B := by
  intro f hf
  rcases h with ⟨a, hrun⟩ | ⟨first, second, a, b, rfl, -, hfirst, hb, hsecond, -⟩
  · obtain ⟨h2, hle⟩ := hrun.contiguous f hf
    exact ⟨h2, Nat.le_trans hle hhead⟩
  · rcases List.mem_append.mp hf with hf | hf
    · obtain ⟨h2, hle⟩ := hfirst.contiguous f hf
      exact ⟨h2, Nat.le_trans hle hb⟩
    · obtain ⟨h2, hle⟩ := hsecond.contiguous f hf
      exact ⟨h2, Nat.le_trans hle hhead⟩

/-- The oldest entry is dropped: when it was the last of the older run, the younger one is left. -/
theorem Layout.tail (h : Layout B head (e :: es)) : Layout B head es := by
  rcases h with ⟨a, hrun⟩ | ⟨first, second, a, b, heq, hne, hfirst, hb, hsecond, hle⟩
  · exact Or.inl ⟨_, hrun.2.2.2⟩
  · cases first with
    | nil => exact absurd rfl hne
    | cons f first =>
      rw [List.cons_append, List.cons.injEq] at heq
      obtain ⟨-, rfl⟩ := heq
      by_cases hlast : first = []
      · rw [hlast]
        exact Or.inl ⟨0, hsecond⟩
      · exact Or.inr ⟨first, second, _, b, rfl, hlast, hfirst.2.2.2, hb, hsecond, by omega⟩

/-- A new entry is put at the head, ending before the oldest entry if that is in front of it. -/
theorem Layout.append (h : Layout B head es) (hp : e.pData1_U8 = some head)
    (h2 : e.Size2_U32 = 0) (h1 : 0 < e.Size1_U32) (hend : head + e.Size1_U32 ≤ B)
    (hbehind : ∀ f ∈ es.head?, f.pData1_U8.getD 0 < head ∨ head + e.Size1_U32 ≤ f.pData1_U8.getD 0) :
    Layout B (wrapHead B (head + e.Size1_U32)) (es ++ [e]) := by
  unfold wrapHead
  rcases h with ⟨a, hrun⟩ | ⟨first, second, a, b, rfl, hne, hfirst, hb, hsecond, hle⟩
  · have happend := hrun.append hp h2 h1
    by_cases hfull : head + e.Size1_U32 ≥ B
    · rw [if_pos hfull]
      exact Or.inr ⟨es ++ [e], [], a, _, (List.append_nil _).symm, by simp, happend, hend, rfl,
        Nat.zero_le _⟩
    · rw [if_neg hfull]
      exact Or.inl ⟨a, happend⟩
  · obtain ⟨f, first, rfl⟩ := List.exists_cons_of_ne_nil hne
    have hlt := hfirst.lt hne
    have hroom : head + e.Size1_U32 ≤ a := by
      have hf := hbehind f rfl
      rw [hfirst.1] at hf
      exact hf.resolve_left (Nat.not_lt.mpr hle)
    rw [if_neg (by omega)]
    exact Or.inr ⟨f :: first, second ++ [e], a, b, List.append_assoc _ _ _, hne, hfirst, hb,
      hsecond.append hp h2 h1, hroom⟩

/-! ## Calls -/

/-- The buffer holds the entries `es`, laid out behind the head. -/
structure ContiguousRel (param : RawCircularBufferParam) (s : RawCircularBuffer)
    (es : List RawBuffer) : Prop where
  base : Base s es
  param_eq : s.mRawCircularBufferParam_X = param
  slot : s.mSlotSize_U32 = 0
  layout : Layout s.size s.mpCrtBufferHead_U8 es

/-- The space test of the contiguous mode. -/
theorem enoughSpace_contiguous (h : Base s es) (h0 : s.mSlotSize_U32 = 0)
    (hcont : s.mRawCircularBufferParam_X.AlwaysContiguous_B = true) {nb : Nat}
    (hnb : nb ≤ s.mCrtBufferRemain_U32) :
    s.enoughSpace nb =
      if s.mpCrtBufferHead_U8 + nb ≤ s.size then (true, 0)
      else (decide (nb ≤ u32Sub s.mCrtBufferRemain_U32 (s.size - s.mpCrtBufferHead_U8)),
        s.size - s.mpCrtBufferHead_U8) := by
  have hhead := h.head_lt
  have hup : u32Sub s.size s.mpCrtBufferHead_U8 = s.size - s.mpCrtBufferHead_U8 :=
    u32Sub_of_le (Nat.le_of_lt hhead)
  rw [enoughSpace, if_pos hnb, if_neg (not_not.mpr h0), if_pos hcont, hup]
  by_cases hend : s.mpCrtBufferHead_U8 + nb ≤ s.size
  · rw [if_pos hend, if_pos (by omega)]
  · rw [if_neg hend, if_neg (by omega)]

/-- A buffer that does not fit before the end is only accepted when the entries are one run, and then it
fits before that run. -/
theorem ContiguousRel.jump (h : ContiguousRel param s es) {nb : Nat}
    (hnb : nb ≤ s.mCrtBufferRemain_U32) (hend : s.size < s.mpCrtBufferHead_U8 + nb)
    (hspace : nb ≤ u32Sub s.mCrtBufferRemain_U32 (s.size - s.mpCrtBufferHead_U8)) :
    ∃ a, Consecutive a es s.mpCrtBufferHead_U8 ∧ nb ≤ a := by
  have hhead := h.base.head_lt
  have hlen := h.base.length_cells h.slot
  rcases h.layout with ⟨a, hrun⟩ | ⟨first, second, a, b, rfl, hne, hfirst, hb, hsecond, hle⟩
  · have hrun_le := hrun.le
    rw [hrun.cells_eq, List.length_range'] at hlen
    rw [u32Sub_of_le (by omega)] at hspace
    exact ⟨a, hrun, by omega⟩
  · have hlt := hfirst.lt hne
    rw [List.flatMap_append, List.length_append, hfirst.cells_eq, hsecond.cells_eq,
      List.length_range', List.length_range'] at hlen
    omega

/-- What is left to show after a buffer has been stored at `i`. -/
theorem ContiguousRel.store (h : ContiguousRel param s es) {sizeUpToTheEnd i : Nat}
    {data : List UInt8} (hi : startIndex s sizeUpToTheEnd = i)
    (hroom : es.length < s.mRawCircularBufferParam_X.NbMaxBufferEntry_U32)
    (hnb : data.length ≤ s.mCrtBufferRemain_U32) (hend : i + data.length ≤ s.size)
    (hlayout : ∀ e : RawBuffer, e.pData1_U8 = some i → e.Size1_U32 = data.length →
      e.Size2_U32 = 0 → Layout s.size (wrapHead s.size (i + data.length)) (es ++ [e])) :
    ∃ s' e, s.storeBuffer sizeUpToTheEnd data = (s', .noError) ∧
      ContiguousRel param s' (es ++ [e]) ∧
      (es ++ [e]).map (content s') = es.map (content s) ++ [data] := by
  obtain ⟨s', e, heq, hsame, hbase, hhead, hp, h1, h2, hmem, hdata⟩ :=
    h.base.store_linear h.slot hi hroom hnb hend
  have hnext : Layout s'.size s'.mpCrtBufferHead_U8 (es ++ [e]) := by
    rw [hsame.size, hhead]
    exact hlayout e hp h1 h2
  exact ⟨s', e, heq, ⟨hbase, hsame.param.trans h.param_eq, hsame.slot.trans h.slot, hnext⟩,
    map_content_append hnext.nodup hmem hdata⟩

/-- An accepted push puts the buffer at the end of the queue. -/
theorem ContiguousRel.push (h : ContiguousRel param s es) (hcont : param.AlwaysContiguous_B = true)
    {data : List UInt8} (hne : data.length ≠ 0)
    (henough : (s.enoughSpace data.length).1 = true)
    (hop : StaysBehindOldest s (.pushBuffer (some data))) :
    ∃ s' e, s.pushBuffer (some data) = (s', .noError) ∧ ContiguousRel param s' (es ++ [e]) ∧
      (es ++ [e]).map (content s') = es.map (content s) ++ [data] := by
  have hcont' : s.mRawCircularBufferParam_X.AlwaysContiguous_B = true := by rw [h.param_eq, hcont]
  have hnb : data.length ≤ s.mCrtBufferRemain_U32 := by
    by_contra hgt
    rw [enoughSpace, if_neg hgt] at henough
    exact absurd henough (by decide)
  have hspec := enoughSpace_contiguous h.base h.slot hcont' hnb
  rw [StaysBehindOldest, h.base.entries_eq, h.base.isFull_eq] at hop
  obtain ⟨hfull, hbehind⟩ := hop.resolve_left (by rw [henough]; decide)
  have hroom : es.length < s.mRawCircularBufferParam_X.NbMaxBufferEntry_U32 :=
    Nat.lt_of_le_of_ne h.base.length_le (of_decide_eq_false hfull)
  have hpos : 0 < data.length := Nat.pos_of_ne_zero hne
  by_cases hend : s.mpCrtBufferHead_U8 + data.length ≤ s.size
  · rw [if_pos hend] at hspec
    rw [pushBuffer_store hne hspec]
    refine h.store rfl hroom hnb hend fun e hp h1 h2 => ?_
    rw [← h1] at hend hbehind hpos ⊢
    exact h.layout.append hp h2 hpos hend hbehind
  · rw [if_neg hend] at hspec
    rw [hspec, decide_eq_true_eq] at henough
    obtain ⟨a, hrun, hle⟩ := h.jump hnb (Nat.not_le.mp hend) henough
    have hhead := h.base.head_lt
    have hrun_le := hrun.le
    have hstart : startIndex s (s.size - s.mpCrtBufferHead_U8) = 0 := if_pos (by omega)
    rw [pushBuffer_store hne (hspec.trans (by rw [decide_eq_true henough]))]
    refine h.store hstart hroom hnb (by omega) fun e hp h1 h2 => ?_
    rw [Nat.zero_add, wrapHead, if_neg (by omega), ← h1]
    have hnew : Consecutive 0 [e] e.Size1_U32 :=
      ⟨hp, h2, by omega, Nat.zero_add _⟩
    -- an empty queue starts again at the start of the storage
    by_cases hempty : es = []
    · rw [hempty]
      exact Or.inl ⟨0, hnew⟩
    · exact Or.inr ⟨es, [e], a, _, rfl, hempty, hrun, Nat.le_of_lt hhead, hnew, by omega⟩

/-- A pop takes the oldest buffer as a whole. -/
theorem ContiguousRel.popBuffer (h : ContiguousRel param s (e :: es)) {nbMax : Nat} (hnb : nbMax ≠ 0)
    (hwhole : unreadSize e ≤ nbMax) :
    ∃ s' n, s.popBuffer (some nbMax) true =
        (s', { err := .noError, nbMax := n, data := content s e }) ∧
      ContiguousRel param s' es ∧ es.map (content s') = es.map (content s) := by
  obtain ⟨s', heq, hsame, hmem, hhead, hbase⟩ := h.base.popBuffer_whole hnb hwhole
  refine ⟨s', _, heq, ⟨hbase, hsame.param.trans h.param_eq, hsame.slot.trans h.slot, ?_⟩, ?_⟩
  · rw [hsame.size, hhead]
    exact h.layout.tail
  · exact map_content_congr fun c _ => by rw [hmem]

/-! ## Runs -/

/-- One call: what has been accepted is what has been popped and what is stored. -/
theorem ContiguousRel.step (h : ContiguousRel param s es) (hcont : param.AlwaysContiguous_B = true)
    (hover : param.Overwrite_B = false) (op : Op) (hcall : PushOrPop op)
    (hop : StaysBehindOldest s op) (hwhole : PopsWhole s op) :
    ∃ es', ContiguousRel param (s.step op).1 es' ∧
      es.map (content s) ++ (acceptedBuffer (op, (s.step op).2)).toList =
        (poppedBytes (op, (s.step op).2)).toList ++ es'.map (content (s.step op).1) := by
  match op, hcall with
  | .pushBuffer none, _ => exact ⟨es, h, by simp [RawCircularBuffer.step, pushBuffer, poppedBytes,
      acceptedBuffer]⟩
  | .pushBuffer (some data), _ =>
    have hover' : s.mRawCircularBufferParam_X.Overwrite_B = false := by rw [h.param_eq, hover]
    by_cases hne : data.length = 0
    · have heq : s.pushBuffer (some data) = (s, .einval) := by simp [pushBuffer, hne]
      simp only [RawCircularBuffer.step, heq]
      exact ⟨es, h, by simp [poppedBytes, acceptedBuffer]⟩
    · cases henough : (s.enoughSpace data.length).1 with
      | true =>
        obtain ⟨s', e, heq, hrel, hmap⟩ := h.push hcont hne henough hop
        simp only [RawCircularBuffer.step, heq]
        refine ⟨es ++ [e], hrel, ?_⟩
        rw [hmap]
        simp [poppedBytes, acceptedBuffer]
      | false =>
        simp only [RawCircularBuffer.step, pushBuffer_refused hne henough hover']
        exact ⟨es, h, by simp [poppedBytes, acceptedBuffer]⟩
  | .popBuffer pNbMax pData, _ =>
    by_cases hvalid : ∃ nbMax, pNbMax = some nbMax ∧ nbMax ≠ 0 ∧ pData = true
    · obtain ⟨nbMax, rfl, hnb, rfl⟩ := hvalid
      cases es with
      | nil =>
        simp only [RawCircularBuffer.step, h.base.popBuffer_empty hnb]
        exact ⟨[], h, by simp [poppedBytes, acceptedBuffer]⟩
      | cons e es =>
        rw [PopsWhole, h.base.entries_eq] at hwhole
        obtain ⟨s', n, heq, hrel, hmap⟩ := h.popBuffer hnb (hwhole e rfl)
        simp only [RawCircularBuffer.step, heq]
        refine ⟨es, hrel, ?_⟩
        rw [hmap]
        simp [poppedBytes, acceptedBuffer]
    · have heinval := popBuffer_einval (s := s) fun nbMax h1 h2 h3 => hvalid ⟨nbMax, h1, h2, h3⟩
      simp only [RawCircularBuffer.step, heinval]
      exact ⟨es, h, by simp [poppedBytes, acceptedBuffer]⟩

/-- In contiguous mode the buffer is a queue of contiguous buffers on every run of whole pops whose
pushes stay behind the oldest entry. -/
theorem rawCircularBuffer_contiguousFifo (param : RawCircularBufferParam) (pData : Nat → UInt8)
    (pEntry : Nat → RawBuffer) (hB : 0 < param.BufferSizeInByte_U32)
    (hN : 0 < param.NbMaxBufferEntry_U32) (hslot : param.SlotMode_B = false)
    (hcont : param.AlwaysContiguous_B = true) (hover : param.Overwrite_B = false) (ops : List Op)
    (hcalls : ∀ op ∈ ops, PushOrPop op)
    (hwhole : Meets step PopsWhole (create param pData pEntry) ops)
    (hc : Meets step StaysBehindOldest (create param pData pEntry) ops) :
    ContiguousFifo param pData pEntry ops := by
  have hcreate : ContiguousRel param (create param pData pEntry) [] := by
    refine ⟨base_create param pData pEntry hB hN, rfl, ?_, Or.inl ⟨0, rfl⟩⟩
    show (if param.SlotMode_B then _ else 0) = 0
    rw [hslot]
    rfl
  have hrun := inv_history (P := fun hist s => ∃ es, ContiguousRel param s es ∧
      hist.filterMap acceptedBuffer = hist.filterMap poppedBytes ++ es.map (content s))
    (fun hist s op hs hop => by
      obtain ⟨es, hrel, hfifo⟩ := hs
      obtain ⟨es', hrel', hfifo'⟩ := hrel.step hcont hover op hop.2 hop.1.1 hop.1.2
      refine ⟨es', hrel', ?_⟩
      rw [List.filterMap_append, List.filterMap_append, filterMap_singleton, filterMap_singleton,
        hfifo, List.append_assoc, hfifo', List.append_assoc])
    (h := []) ⟨[], hcreate, rfl⟩ (meets_and (meets_inter hc hwhole) hcalls)
  rw [List.nil_append] at hrun
  obtain ⟨es, hrel, hfifo⟩ := hrun
  have hsize : (run step (create param pData pEntry) ops).1.size = param.BufferSizeInByte_U32 := by
    rw [size, hrel.param_eq]
  refine ⟨?_, disjointRegions_of_nodup hrel.base hrel.layout.nodup, ?_⟩
  · rw [hrel.base.entries_eq, ← hsize]
    exact hrel.layout.contiguous (Nat.le_of_lt hrel.base.head_lt)
  · rw [hrel.base.entries_eq]
    exact hfifo

/-- Ten bytes: the third buffer jumps over the two bytes before the end. -/
theorem contiguousFifo_ten_bytes :
    ContiguousFifo ⟨10, by decide, false, true, 3, by decide, false, false⟩ (fun _ => 0) (fun _ => {})
      [.pushBuffer (some [1, 2, 3, 4]), .pushBuffer (some [5, 6, 7, 8]), .popBuffer (some 9) true,
        .pushBuffer (some [11, 12, 13]), .pushBuffer (some [21]), .popBuffer (some 9) true,
        .popBuffer (some 9) true] :=
  rawCircularBuffer_contiguousFifo _ _ _ (by decide) (by decide) rfl rfl rfl _ (by simp [PushOrPop])
    ⟨trivial, trivial, by unfold PopsWhole; decide, trivial, trivial, by unfold PopsWhole; decide,
      by unfold PopsWhole; decide, trivial⟩
    ⟨Or.inr (by decide), Or.inr (by decide), trivial, Or.inr (by decide), Or.inr (by decide), trivial,
      trivial, trivial⟩

/-- Ten bytes: the two bytes before the end are left unused by the third buffer but are not counted as
used, so a fourth one is accepted that covers the start of the oldest entry. -/
theorem not_contiguousFifo_of_hole :
    ¬ ContiguousFifo ⟨10, by decide, false, true, 5, by decide, false, false⟩ (fun _ => 0)
      (fun _ => {})
      [.pushBuffer (some [1, 2, 3, 4]), .pushBuffer (some [5, 6, 7, 8]), .popBuffer (some 9) true,
        .pushBuffer (some [11, 12, 13]), .pushBuffer (some [21, 22]), .popBuffer (some 9) true] :=
  fun h => absurd h.fifo (by decide)

end BofStd.RawCircularBuffer
