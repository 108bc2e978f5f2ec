import BofStd.BofRpcSpec
import BofStd.Proofs.BofStackProofs

/-!
# `BofRpc`: what the parser reads

The parser copies the frame to its stack, and every pop takes off the end of what is there: the checksum, the function
id, the return code and the arguments from the last one on (`popVars_of_content`). What is left of a frame that has the
layout is the header, so that the last test succeeds.
-/

namespace BofStd.BofRpc

open BofStack

variable {cpu cpu' : CpuEndianness} {s s' : BofStack} {answer : Bool} {word : UInt16 × Nat → Nat} {l : List UInt8}

/-! ## Words -/

theorem withPointer_of_content (h : s.content = l) : s.withPointer l.length = s := by
  rw [← h, length_content]
  rfl

theorem length_le_of_content {bytes : List UInt8} (h : s.content = l ++ bytes)
    (hle : s.stackPointer ≤ s.MaxStackSize_U32) : l.length ≤ s.MaxStackSize_U32 := by
  have hlen := congrArg List.length h
  rw [length_content, List.length_append] at hlen
  omega

/-- The words at the end of the content, the last one first. -/
theorem popWords_of_content {vs : List Nat} (h : s.content = l ++ vs.reverse.flatMap (cpu.store 2))
    (hvs : ∀ v ∈ vs, v < 256 ^ 2) (hle : s.stackPointer ≤ s.MaxStackSize_U32)
    (hswap : s.SwapByte_B = decide (cpu ≠ cpu')) :
    popWords cpu' vs.length s = some (vs, s.withPointer l.length) := by
  induction vs generalizing s with
  | nil =>
    rw [List.reverse_nil, List.flatMap_nil, List.append_nil] at h
    rw [withPointer_of_content h]
    rfl
  | cons v vs ih =>
    rw [List.forall_mem_cons] at hvs
    rw [List.reverse_cons, List.flatMap_append, ← List.append_assoc, List.flatMap_singleton] at h
    have hpop := popWord_of_content h hvs.1 hle hswap
    have hle' := length_le_of_content h hle
    have hrest := ih (s := s.withPointer (l ++ vs.reverse.flatMap (cpu.store 2)).length) (content_withPointer h) hvs.2
      hle' hswap
    rw [List.length_cons, popWords, popU16, hpop]
    show (popWords cpu' vs.length _ >>= fun r => pure (v :: r.1, r.2)) = _
    rw [hrest]
    rfl

/-! ## Arguments -/

/-- What a popped word leaves in `VALUE`. -/
theorem word_setWord (cpu : CpuEndianness) (v : RpcVar) {w n : Nat} (h : n < 256 ^ w) :
    (v.setWord cpu w n).word cpu w = n := by
  have hread := Memory.read_write_self v.VALUE 0 (cpu.store w n)
  rw [CpuEndianness.length_store] at hread
  rw [RpcVar.word, RpcVar.setWord, hread, cpu.load_store h]

theorem word_lt (cpu : CpuEndianness) (v : RpcVar) (w : Nat) : v.word cpu w < 256 ^ w := by
  have hlt := cpu.load_lt (Memory.read v.VALUE 0 w)
  rw [Memory.length_read] at hlt
  exact hlt

/-- The pop of a scalar argument. -/
theorem popVar_of_content {ty : RpcVarType} {sent : Bool} {n : Nat} {v : RpcVar} (hty : ty.isScalar = true)
    (h : s.content = l ++ cpu.store (if sent then ty.width else 0) n) (hn : n < 256 ^ (if sent then ty.width else 0))
    (hle : s.stackPointer ≤ s.MaxStackSize_U32) (hswap : s.SwapByte_B = decide (cpu ≠ cpu')) :
    ∃ v', popVar cpu' ty sent v s = some (true, v', s.withPointer l.length) ∧
      (sent = true → v'.word cpu' ty.width = n) := by
  cases sent with
  | false =>
    have hnone : cpu.store 0 n = [] := List.eq_nil_of_length_eq_zero (cpu.length_store 0 _)
    rw [if_neg Bool.false_ne_true, hnone, List.append_nil] at h
    rw [withPointer_of_content h]
    refine ⟨v, ?_, nofun⟩
    cases ty <;> first | rfl | exact nomatch hty
  | true =>
    rw [if_pos rfl] at h hn
    have hpop : popScalar cpu' ty.width v s = some (true, v.setWord cpu' ty.width n, s.withPointer l.length) := by
      rw [popScalar, popWord_of_content h hn hle hswap]
      rfl
    cases ty with
    | void =>
      have hnone : cpu.store 0 n = [] := List.eq_nil_of_length_eq_zero (cpu.length_store 0 _)
      have hsame : s.content = l := h.trans (by rw [RpcVarType.width, hnone, List.append_nil])
      rw [withPointer_of_content hsame]
      have hzero : n = 0 := Nat.lt_one_iff.mp hn
      refine ⟨v, rfl, fun _ => ?_⟩
      rw [hzero]
      cases cpu' <;> rfl
    | u8 | s8 | u16 | s16 | u32 | s32 | float | double => exact ⟨_, hpop, fun _ => word_setWord cpu' v hn⟩
    | char | u64 | s64 | array | other => exact nomatch hty

/-- The arguments at the end of the content, from the last one on. -/
theorem popVars_of_content {args : List (UInt16 × Nat)} (vars : Nat → RpcVar)
    (hscalar : ∀ a ∈ args, (varType a.1).isScalar = true) (hnodup : (args.map Prod.snd).Nodup)
    (h : s.content = l ++ args.reverse.flatMap (varBytes cpu answer word))
    (hle : s.stackPointer ≤ s.MaxStackSize_U32) (hswap : s.SwapByte_B = decide (cpu ≠ cpu')) :
    ∃ vars', popVars cpu' answer args vars s = some (true, vars', s.withPointer l.length) ∧
      (∀ i, i ∉ args.map Prod.snd → vars' i = vars i) ∧
      ∀ a ∈ args, rpcParam answer a.1 = true →
        (vars' a.2).word cpu' (varType a.1).width = word a % 256 ^ (varType a.1).width := by
  induction args generalizing s vars with
  | nil =>
    rw [List.reverse_nil, List.flatMap_nil, List.append_nil] at h
    exact ⟨vars, by rw [withPointer_of_content h]; rfl, fun _ _ => rfl, nofun⟩
  | cons a args ih =>
    obtain ⟨arg, i⟩ := a
    rw [List.forall_mem_cons] at hscalar
    rw [List.map_cons, List.nodup_cons] at hnodup
    rw [List.reverse_cons, List.flatMap_append, ← List.append_assoc, List.flatMap_singleton] at h
    have hlt : word (arg, i) % 256 ^ varWidth answer arg < 256 ^ varWidth answer arg := Nat.mod_lt _ (Nat.pow_pos (by decide))
    obtain ⟨v', hpop, hword⟩ := popVar_of_content (v := { vars i with Arg_U16 := arg, Type_E := varType arg })
      hscalar.1 h hlt hle hswap
    have hle' := length_le_of_content h hle
    obtain ⟨vars', hrest, hother, hall⟩ :=
      ih (s := s.withPointer (l ++ args.reverse.flatMap (varBytes cpu answer word)).length)
        (Function.update vars i v') hscalar.2 hnodup.2 (content_withPointer h) hle' hswap
    refine ⟨vars', ?_, ?_, ?_⟩
    · rw [popVars, hpop]
      exact hrest
    · intro j hj
      rw [List.map_cons, List.mem_cons, not_or] at hj
      rw [hother j hj.2, Function.update_of_ne hj.1]
    · intro a ha hsent
      rcases List.mem_cons.mp ha with rfl | ha
      · -- the arguments that come later do not touch this one
        rw [hother i hnodup.1, Function.update_self, hword hsent]
        rw [varWidth, if_pos hsent]
      · exact hall a ha hsent

/-! ## The header -/

variable {r : BofRpc} {buffer body : List UInt8} {flag timeOut tag len n : Nat} {old : RpcParserResult}

theorem isRpcLittleEndian_header {mem : Nat → UInt8} (h : Memory.read mem 0 2 = cpu.store 2 magicNumber) :
    isRpcLittleEndian cpu' mem = some (decide (cpu ≠ cpu')) := by
  have hmem : [mem 0, mem 1] = cpu.store 2 magicNumber := h
  cases cpu with
  | little =>
    have hbytes : CpuEndianness.little.store 2 magicNumber = [0x48, 0x42] := by decide
    obtain ⟨h0, h1⟩ : mem 0 = 0x48 ∧ mem 1 = 0x42 := by simpa [hbytes] using hmem
    cases cpu' <;> simp [isRpcLittleEndian, h0, h1] <;> rfl
  | big =>
    have hbytes : CpuEndianness.big.store 2 magicNumber = [0x42, 0x48] := by decide
    obtain ⟨h0, h1⟩ : mem 0 = 0x42 ∧ mem 1 = 0x48 := by simpa [hbytes] using hmem
    cases cpu' <;> simp [isRpcLittleEndian, h0, h1] <;> rfl

theorem copyFrame_eq (hn : n ≤ buffer.length) (hmax : n ≤ s.MaxStackSize_U32) :
    copyFrame s buffer n = some (s.copied (buffer.take n)) := by
  rw [copyFrame, if_pos hn, BofStack.write, List.length_take_of_le hn, Nat.zero_add, if_pos hmax]
  rfl

@[simp] theorem copied_stackPointer (s : BofStack) (bytes : List UInt8) : (s.copied bytes).stackPointer = s.stackPointer :=
  rfl

@[simp] theorem copied_maxStackSize (s : BofStack) (bytes : List UInt8) :
    (s.copied bytes).MaxStackSize_U32 = s.MaxStackSize_U32 := rfl

@[simp] theorem copied_swapByte (s : BofStack) (bytes : List UInt8) : (s.copied bytes).SwapByte_B = s.SwapByte_B := rfl

theorem content_copied {ptr : Nat} (hptr : ptr ≤ n) (hn : n ≤ buffer.length) :
    ((s.copied (buffer.take n)).withPointer ptr).content = buffer.take ptr := by
  have hread := Memory.read_write_self s.mpStack_U8 0 (buffer.take n)
  rw [List.length_take_of_le hn] at hread
  have htake := congrArg (List.take ptr) hread
  rw [Memory.take_read _ _ hptr, List.take_take, Nat.min_eq_left hptr] at htake
  exact htake

/-- The words of the header, from the last one on. The stack pointer is set back, if it can be set there. -/
theorem popTop_eq (hcontent : (s.withPointer 10).content = header cpu flag timeOut tag len) (hflag : flag < 2 ^ 16)
    (htime : timeOut < 2 ^ 16) (htag : tag < 2 ^ 16) (hlen : len < 2 ^ 16) (hmax : 10 < s.MaxStackSize_U32)
    (hswap : s.SwapByte_B = decide (cpu ≠ cpu')) :
    popTopRpcControlParam cpu' s =
      some ([len, tag, timeOut, flag, magicNumber], ((s.withPointer 0).setStackPointer s.stackPointer).2) := by
  have hwords : ∀ v ∈ [len, tag, timeOut, flag, magicNumber], v < 256 ^ 2 := by
    simp only [List.forall_mem_cons]
    exact ⟨hlen, htag, htime, hflag, by decide, nofun⟩
  have hrev : (s.withPointer 10).content = [] ++ [len, tag, timeOut, flag, magicNumber].reverse.flatMap (cpu.store 2) :=
    hcontent
  have hpop : popWords cpu' 5 (s.withPointer 10) = some ([len, tag, timeOut, flag, magicNumber], s.withPointer 0) :=
    popWords_of_content hrev hwords (Nat.le_of_lt hmax) hswap
  have hreset : (s.setStackPointer (2 + 2 + 2 + 2 + 2)).2 = s.withPointer 10 := by
    rw [setStackPointer, if_pos hmax]
    rfl
  rw [popTopRpcControlParam, hreset]
  show (popWords cpu' 5 (s.withPointer 10) >>= fun r => pure (r.1, (r.2.setStackPointer s.stackPointer).2)) = _
  rw [hpop]
  rfl

theorem parseHeader_eq {res : RpcParserResult}
    (hpop : popTopRpcControlParam r.cpu s = some ([len, tag, timeOut, flag, magicNumber], s')) :
    r.parseHeader answer buffer res s =
      if len ≤ s'.MaxStackSize_U32 then
        r.parseBody answer buffer len ⟨false, .tooBig, tag, flag, { res with TimeOut_U32 := timeOut }, s'⟩
      else some ⟨false, .tooBig, tag, flag, { res with TimeOut_U32 := timeOut }, s'⟩ := by
  rw [parseHeader, hpop, Option.bind_eq_bind, Option.bind_some]
  dsimp only
  by_cases hfits : len ≤ s'.MaxStackSize_U32
  · rw [if_pos ⟨rfl, hfits⟩, if_pos hfits]
  · rw [if_neg fun h => hfits h.2, if_neg hfits]
    rfl

theorem parseBody_eq {p : Parsing} (hle : len ≤ buffer.length) (hfits : len ≤ p.s.MaxStackSize_U32) :
    r.parseBody answer buffer len p =
      r.parseChecked answer len p ((p.s.copied (buffer.take len)).setStackPointer len).2 := by
  rw [parseBody, copyFrame_eq hle hfits]
  rfl

/-! ## The frame on the stack -/

theorem headerStack_mpStack (r : BofRpc) (answer : Bool) (cpu : CpuEndianness) (buffer : List UInt8) :
    (r.headerStack answer cpu buffer).mpStack_U8 =
      Memory.write (r.parserStack answer).mpStack_U8 0 (buffer.take 16) := by
  rw [headerStack, setStackPointer_mpStack, withPointer, setSwapByte, setStackPointer_mpStack, copied]

theorem headerStack_maxStackSize (r : BofRpc) (answer : Bool) (cpu : CpuEndianness) (buffer : List UInt8) :
    (r.headerStack answer cpu buffer).MaxStackSize_U32 = (r.parserStack answer).MaxStackSize_U32 := by
  rw [headerStack, setStackPointer_maxStackSize, withPointer, setSwapByte, setStackPointer_maxStackSize, copied]

/-- The stack pointer is behind the copy of 16 bytes, if it can be set there. -/
theorem headerStack_stackPointer (r : BofRpc) (cpu : CpuEndianness) (buffer : List UInt8)
    (hmax : 16 ≤ (r.parserStack answer).MaxStackSize_U32) :
    (r.headerStack answer cpu buffer).stackPointer < (r.parserStack answer).MaxStackSize_U32 ∧
      (16 < (r.parserStack answer).MaxStackSize_U32 → (r.headerStack answer cpu buffer).stackPointer = 16) := by
  let s₁ := (((r.parserStack answer).copied (buffer.take 16)).setStackPointer 16).2.setSwapByte (decide (cpu ≠ r.cpu))
  have hmax₁ : s₁.MaxStackSize_U32 = (r.parserStack answer).MaxStackSize_U32 := setStackPointer_maxStackSize _ _
  have hptr₁ : s₁.stackPointer = _ := setStackPointer_stackPointer ((r.parserStack answer).copied (buffer.take 16)) 16
  have hptr : (r.headerStack answer cpu buffer).stackPointer = _ :=
    setStackPointer_stackPointer (s₁.withPointer 0) s₁.stackPointer
  rw [hptr]
  constructor
  · split
    · next hlt => exact hmax₁ ▸ hlt
    · show 0 < (r.parserStack answer).MaxStackSize_U32
      omega
  · intro h16
    rw [copied_maxStackSize, if_pos h16] at hptr₁
    rw [hptr₁, if_pos]
    exact hmax₁ ▸ h16

theorem bodyStack_mpStack (r : BofRpc) (answer : Bool) (cpu : CpuEndianness) (buffer : List UInt8) (len : Nat) :
    (r.bodyStack answer cpu buffer len).mpStack_U8 =
      Memory.write (Memory.write (r.parserStack answer).mpStack_U8 0 (buffer.take 16)) 0 (buffer.take len) := by
  rw [bodyStack, setStackPointer_mpStack, copied, headerStack_mpStack]

theorem bodyStack_maxStackSize (r : BofRpc) (answer : Bool) (cpu : CpuEndianness) (buffer : List UInt8) (len : Nat) :
    (r.bodyStack answer cpu buffer len).MaxStackSize_U32 = (r.parserStack answer).MaxStackSize_U32 := by
  rw [bodyStack, setStackPointer_maxStackSize, copied_maxStackSize, headerStack_maxStackSize]

theorem bodyStack_swapByte (r : BofRpc) (answer : Bool) (cpu : CpuEndianness) (buffer : List UInt8) (len : Nat) :
    (r.bodyStack answer cpu buffer len).SwapByte_B = decide (cpu ≠ r.cpu) := by
  rw [bodyStack, setStackPointer_swapByte, copied_swapByte, headerStack, setStackPointer_swapByte]
  rfl

/-- The stack pointer behind the frame: a length that is the size of the stack cannot be set. -/
def EndsAt (max len ptr : Nat) : Prop :=
  (len < max → ptr = len) ∧ (len = max → 16 < max → ptr = 16) ∧ (len = max → max = 16 → ptr < 16)

theorem bodyStack_endsAt (r : BofRpc) (cpu : CpuEndianness) (buffer : List UInt8) (len : Nat)
    (hmax : 16 ≤ (r.parserStack answer).MaxStackSize_U32) :
    EndsAt (r.parserStack answer).MaxStackSize_U32 len (r.bodyStack answer cpu buffer len).stackPointer := by
  obtain ⟨hbelow, hsixteen⟩ := headerStack_stackPointer r cpu buffer hmax
  have hptr : (r.bodyStack answer cpu buffer len).stackPointer = _ :=
    setStackPointer_stackPointer ((r.headerStack answer cpu buffer).copied (buffer.take len)) len
  rw [copied_maxStackSize, headerStack_maxStackSize] at hptr
  refine ⟨fun hlt => ?_, fun heq h16 => ?_, fun heq h16 => ?_⟩
  · rw [hptr, if_pos hlt]
  · rw [hptr, if_neg (Nat.not_lt.mpr heq.ge), copied_stackPointer, hsixteen h16]
  · rw [hptr, if_neg (Nat.not_lt.mpr heq.ge), copied_stackPointer]
    omega

/-- A frame with a header: what comes behind the header is parsed if the length is not larger than the stack. -/
theorem parseRpcFrame_start (old : RpcParserResult) (hbuf : buffer = header cpu flag timeOut tag len ++ body)
    (hflag : flag < 2 ^ 16) (htime : timeOut < 2 ^ 16) (htag : tag < 2 ^ 16) (hlen : len < 2 ^ 16)
    (h16 : 16 ≤ buffer.length) (hmax : 16 ≤ (r.parserStack answer).MaxStackSize_U32) {p : Parsing}
    (hp : p = ⟨false, .tooBig, tag, flag, { (if answer then old else {}) with TimeOut_U32 := timeOut },
      r.headerStack answer cpu buffer⟩) :
    r.parseRpcFrame answer buffer old =
      (if len ≤ (r.parserStack answer).MaxStackSize_U32 then r.parseBody answer buffer len p else some p).bind
        (r.endFrame answer) := by
  -- the first copy, and the stack with the words of the header
  have htaken : buffer.take 10 = header cpu flag timeOut tag len := by
    rw [hbuf, List.take_left' (length_header ..)]
  have hmagic : buffer.take 2 = cpu.store 2 magicNumber := by
    have hsplit := congrArg (List.take 2) htaken
    rw [List.take_take, header, List.flatMap_cons, List.take_left' (CpuEndianness.length_store ..)] at hsplit
    exact hsplit
  let s₁ := (((r.parserStack answer).copied (buffer.take 16)).setStackPointer 16).2.setSwapByte (decide (cpu ≠ r.cpu))
  have hmax₁ : s₁.MaxStackSize_U32 = (r.parserStack answer).MaxStackSize_U32 := setStackPointer_maxStackSize _ _
  have hmem₁ : s₁.mpStack_U8 = ((r.parserStack answer).copied (buffer.take 16)).mpStack_U8 := setStackPointer_mpStack _ _
  have hcontent : ∀ ptr, ptr ≤ 16 → (s₁.withPointer ptr).content = buffer.take ptr := by
    intro ptr hptr
    rw [← content_copied (s := r.parserStack answer) hptr h16, content, content]
    show Memory.read s₁.mpStack_U8 0 ptr = _
    rw [hmem₁]
    rfl
  have hlittle : isRpcLittleEndian r.cpu s₁.mpStack_U8 = some (decide (cpu ≠ r.cpu)) :=
    isRpcLittleEndian_header ((hcontent 2 (by decide)).trans hmagic)
  have hpop : popTopRpcControlParam r.cpu s₁ =
      some ([len, tag, timeOut, flag, magicNumber], r.headerStack answer cpu buffer) :=
    popTop_eq ((hcontent 10 (by decide)).trans htaken) hflag htime htag hlen (by omega) rfl
  have hstart : r.parseMagicNumber answer buffer (if answer then old else {})
      (((r.parserStack answer).copied (buffer.take 16)).setStackPointer 16).2 =
      r.parseHeader answer buffer (if answer then old else {}) s₁ := by
    have hread : isRpcLittleEndian r.cpu
        (((r.parserStack answer).copied (buffer.take 16)).setStackPointer 16).2.mpStack_U8 =
        some (decide (cpu ≠ r.cpu)) := hlittle
    rw [parseMagicNumber, hread]
  rw [parseRpcFrame, copyFrame_eq h16 hmax, Option.bind_eq_bind, Option.bind_some, hstart, parseHeader_eq hpop,
    headerStack_maxStackSize, hp]
  rfl

/-- A frame with a header: it is on the stack when the checksum is tested. -/
theorem parseRpcFrame_header (old : RpcParserResult) (hbuf : buffer = header cpu flag timeOut tag len ++ body)
    (hflag : flag < 2 ^ 16) (htime : timeOut < 2 ^ 16) (htag : tag < 2 ^ 16) (hlen : len < 2 ^ 16)
    (h16 : 16 ≤ buffer.length) (hmax : 16 ≤ (r.parserStack answer).MaxStackSize_U32)
    (hfits : len ≤ (r.parserStack answer).MaxStackSize_U32) (hle : len ≤ buffer.length) :
    ∃ s₀ s, r.parseRpcFrame answer buffer old =
        (r.parseChecked answer len
          ⟨false, .tooBig, tag, flag, { (if answer then old else {}) with TimeOut_U32 := timeOut }, s₀⟩ s).bind
          (r.endFrame answer) ∧
      s.MaxStackSize_U32 = (r.parserStack answer).MaxStackSize_U32 ∧ s.SwapByte_B = decide (cpu ≠ r.cpu) ∧
      s = r.bodyStack answer cpu buffer len ∧
      s.content = buffer.take s.stackPointer ∧ s.stackPointer ≤ s.MaxStackSize_U32 ∧
      EndsAt (r.parserStack answer).MaxStackSize_U32 len s.stackPointer := by
  have hends := bodyStack_endsAt r cpu buffer len hmax
  have hptr : (r.bodyStack answer cpu buffer len).stackPointer ≤ len := by
    obtain ⟨hlt, hfull, hsmall⟩ := hends
    omega
  have hmax' := bodyStack_maxStackSize r answer cpu buffer len
  refine ⟨r.headerStack answer cpu buffer, r.bodyStack answer cpu buffer len, ?_, hmax',
    bodyStack_swapByte r answer cpu buffer len, rfl, ?_, by omega, hends⟩
  · rw [parseRpcFrame_start old hbuf hflag htime htag hlen h16 hmax rfl, if_pos hfits,
      parseBody_eq hle (by rw [headerStack_maxStackSize]; exact hfits)]
    rfl
  · rw [← content_copied (s := r.headerStack answer cpu buffer) hptr hle, content, content, bodyStack,
      setStackPointer_mpStack]
    rfl

/-! ## The payload -/

variable {rpcRts fctId : Nat} {p : Parsing} {err : BofErr}

/-- What the parser does when the function id and the return code are at the end of the content. -/
theorem parsePayload_eq (answer : Bool) (h : p.s.content = l ++ [rpcRts, fctId].flatMap (cpu.store 2))
    (hfct : fctId < maxFct) (hrts : rpcRts < 2 ^ 16) (hle : p.s.stackPointer ≤ p.s.MaxStackSize_U32)
    (hswap : p.s.SwapByte_B = decide (cpu ≠ r.cpu)) :
    r.parsePayload answer p =
      (popVars r.cpu answer (r.pRpcFct_X fctId).pArg_U16.zipIdx.reverse p.res.pRpcVar_X
        (p.s.withPointer l.length)).map fun popped =>
          { p with
            Sts_B := popped.1
            Rts_U32 := .invalidCommand
            s := popped.2.2
            res := { p.res with FctId_U32 := fctId, RpcRts_U32 := rpcRts, pRpcVar_X := popped.2.1 } } := by
  have hfct' : fctId < 256 ^ 2 := Nat.lt_trans hfct (by decide)
  rw [List.flatMap_cons, List.flatMap_singleton, ← List.append_assoc] at h
  have hpop₁ := popWord_of_content h hfct' hle hswap
  have hle₁ := length_le_of_content h hle
  have hcontent₁ := content_withPointer h
  have hpop₂ := popWord_of_content (s := p.s.withPointer (l ++ cpu.store 2 rpcRts).length) hcontent₁ hrts hle₁ hswap
  rw [parsePayload, popU16, hpop₁, Option.bind_eq_bind, Option.bind_some]
  dsimp only
  rw [if_pos hfct, popU16, hpop₂, Option.bind_some]
  exact Option.map_eq_bind.symm

/-- A payload behind some bytes: these are left. -/
theorem parsePayload_of_content (hscalar : (r.pRpcFct_X fctId).IsScalar)
    (h : p.s.content = l ++ payload cpu answer word (r.pRpcFct_X fctId) rpcRts fctId) (hfct : fctId < maxFct)
    (hrts : rpcRts < 2 ^ 16) (hle : p.s.stackPointer ≤ p.s.MaxStackSize_U32)
    (hswap : p.s.SwapByte_B = decide (cpu ≠ r.cpu)) :
    ∃ vars, r.parsePayload answer p =
        some { p with
          Sts_B := true
          Rts_U32 := .invalidCommand
          s := p.s.withPointer l.length
          res := { p.res with FctId_U32 := fctId, RpcRts_U32 := rpcRts, pRpcVar_X := vars } } ∧
      ∀ a ∈ (r.pRpcFct_X fctId).pArg_U16.zipIdx, rpcParam answer a.1 = true →
        (vars a.2).word r.cpu (varType a.1).width = word a % 256 ^ (varType a.1).width := by
  rw [payload, ← List.append_assoc] at h
  have hpayload := parsePayload_eq answer h hfct hrts hle hswap
  -- the arguments
  let s₂ := p.s.withPointer (l ++ (r.pRpcFct_X fctId).pArg_U16.zipIdx.flatMap (varBytes cpu answer word)).length
  have hscalar' : ∀ a ∈ (r.pRpcFct_X fctId).pArg_U16.zipIdx.reverse, (varType a.1).isScalar = true := by
    intro a ha
    exact hscalar a.1 (List.fst_mem_of_mem_zipIdx (List.mem_reverse.mp ha))
  have hnodup : ((r.pRpcFct_X fctId).pArg_U16.zipIdx.reverse.map Prod.snd).Nodup := by
    rw [List.map_reverse, List.nodup_reverse, List.zipIdx_map_snd]
    exact List.nodup_range'
  have hcontent : s₂.content = l ++ (r.pRpcFct_X fctId).pArg_U16.zipIdx.reverse.reverse.flatMap (varBytes cpu answer word) := by
    rw [List.reverse_reverse]
    exact content_withPointer h
  have hlen := length_le_of_content h hle
  have hle₂ : s₂.stackPointer ≤ s₂.MaxStackSize_U32 := hlen
  obtain ⟨vars, hpop, -, hvars⟩ := popVars_of_content p.res.pRpcVar_X hscalar' hnodup hcontent hle₂ hswap
  refine ⟨vars, ?_, fun a ha => hvars a (List.mem_reverse.mpr ha)⟩
  rw [hpayload, hpop]
  rfl

/-- The tests in front of the payload, when they are passed. -/
theorem parseChecked_eq (r : BofRpc) (answer : Bool) (len : Nat)
    (hcheck : checkFlag r.cpu p.Flag_U16 s = some (true, err, s'))
    (htag : answer = true → p.res.RpcTag_U16 = 0 ∨ p.res.RpcTag_U16 = p.TheTag_U16) :
    ∃ e, r.parseChecked answer len p s =
      r.parsePayload answer { p with
        Sts_B := true
        Rts_U32 := e
        s := s'
        res := { p.res with RpcStackLen_U32 := len, RpcTag_U16 := p.TheTag_U16 } } := by
  have htested : ∃ e, checkTag answer len true err s' p =
      { p with
        Sts_B := true
        Rts_U32 := e
        s := s'
        res := { p.res with RpcStackLen_U32 := len, RpcTag_U16 := p.TheTag_U16 } } := by
    by_cases hexpected : answer = true ∧ p.res.RpcTag_U16 ≠ 0
    · have heq := (htag hexpected.1).resolve_left hexpected.2
      refine ⟨.notFound, ?_⟩
      rw [checkTag, if_pos hexpected, decide_eq_true heq.symm]
    · exact ⟨err, if_neg hexpected⟩
  obtain ⟨e, htested⟩ := htested
  refine ⟨e, ?_⟩
  rw [parseChecked, hcheck, Option.bind_eq_bind, Option.bind_some]
  dsimp only
  rw [if_pos (by rw [htested]), htested]

/-- What passes the tests in front of the payload. -/
theorem parseChecked_of_content (answer : Bool) (len : Nat)
    (hcheck : checkFlag r.cpu p.Flag_U16 s = some (true, err, s'))
    (htag : answer = true → p.res.RpcTag_U16 = 0 ∨ p.res.RpcTag_U16 = p.TheTag_U16)
    (hscalar : (r.pRpcFct_X fctId).IsScalar)
    (h : s'.content = l ++ payload cpu answer word (r.pRpcFct_X fctId) rpcRts fctId) (hfct : fctId < maxFct)
    (hrts : rpcRts < 2 ^ 16) (hle : s'.stackPointer ≤ s'.MaxStackSize_U32)
    (hswap : s'.SwapByte_B = decide (cpu ≠ r.cpu)) :
    ∃ vars err', r.parseChecked answer len p s =
        some { p with
          Sts_B := true
          Rts_U32 := err'
          s := s'.withPointer l.length
          res := { p.res with
            FctId_U32 := fctId
            RpcRts_U32 := rpcRts
            RpcStackLen_U32 := len
            RpcTag_U16 := p.TheTag_U16
            pRpcVar_X := vars } } ∧
      ∀ a ∈ (r.pRpcFct_X fctId).pArg_U16.zipIdx, rpcParam answer a.1 = true →
        (vars a.2).word r.cpu (varType a.1).width = word a % 256 ^ (varType a.1).width := by
  obtain ⟨e, hchecked⟩ := parseChecked_eq r answer len hcheck htag
  obtain ⟨vars, hpay, hvars⟩ := parsePayload_of_content (p := { p with
      Sts_B := true
      Rts_U32 := e
      s := s'
      res := { p.res with RpcStackLen_U32 := len, RpcTag_U16 := p.TheTag_U16 } }) hscalar h hfct hrts hle hswap
  exact ⟨vars, .invalidCommand, hchecked.trans hpay, hvars⟩

/-! ## The end -/

/-- The result of `ParseRpcFrame`. -/
theorem endFrame_eq (r : BofRpc) (answer : Bool)
    (hfits : p.res.RpcStackLen_U32 ≤ p.s.MaxStackSize_U32 ∨ 64 ≤ p.s.MaxStackSize_U32) :
    ∃ r', r.endFrame answer p = some (r', p.res,
        if p.Sts_B then if p.s.stackPointer = 10 then .noError else .format else p.Rts_U32) ∧
      (p.Sts_B = true → p.s.stackPointer = 10 → r'.parserStack answer = p.s) := by
  have hle : 0 + (if p.res.RpcStackLen_U32 < 64 then p.res.RpcStackLen_U32 else 64) ≤ p.s.MaxStackSize_U32 := by
    split <;> omega
  have hread : ∃ bytes, p.s.read 0 (if p.res.RpcStackLen_U32 < 64 then p.res.RpcStackLen_U32 else 64) = some bytes := by
    rw [BofStack.read, if_pos hle]
    exact ⟨_, rfl⟩
  obtain ⟨bytes, hread⟩ := hread
  have hcheck : ∃ s, (if p.Sts_B then checkAndResetStackPointerToRpcControlSize p.s else (p.s, p.Rts_U32)) =
      (s, if p.Sts_B then if p.s.stackPointer = 10 then .noError else .format else p.Rts_U32) ∧
      (p.s.stackPointer = 10 → s = p.s) := by
    unfold checkAndResetStackPointerToRpcControlSize
    by_cases hsts : p.Sts_B = true
    · by_cases hptr : p.s.stackPointer = 10
      · rw [if_pos hsts, if_pos hsts, if_neg (not_not_intro hptr), if_pos hptr]
        exact ⟨p.s, rfl, fun _ => rfl⟩
      · rw [if_pos hsts, if_pos hsts, if_pos hptr, if_neg hptr]
        exact ⟨_, rfl, fun h => absurd h hptr⟩
    · rw [if_neg hsts, if_neg hsts]
      exact ⟨p.s, rfl, fun _ => rfl⟩
  obtain ⟨s, hcheck, hsame⟩ := hcheck
  rw [endFrame, frameState, hread, hcheck]
  refine ⟨_, rfl, fun _ hptr => ?_⟩
  cases answer <;> exact hsame hptr

/-- A frame that is parsed down to its header is accepted. -/
theorem endFrame_of_header (r : BofRpc) (answer : Bool) (hsts : p.Sts_B = true) (hptr : p.s.stackPointer = 10)
    (hfits : p.res.RpcStackLen_U32 ≤ p.s.MaxStackSize_U32) :
    ∃ r', r.endFrame answer p = some (r', p.res, .noError) := by
  obtain ⟨r', hend, -⟩ := endFrame_eq r answer (.inl hfits)
  rw [if_pos hsts, if_pos hptr] at hend
  exact ⟨r', hend⟩

/-! ## Frames with the layout -/

/-- A frame of header, payload and what the test of the checksum takes off. -/
theorem parseRpcFrame_of_layout {frame rest pay tail : List UInt8}
    (hpay : pay = payload cpu answer word (r.pRpcFct_X fctId) rpcRts fctId)
    (hframe : frame = header cpu flag timeOut tag frame.length ++ pay ++ tail)
    (hcheck : ∀ s, s.content = frame → s.stackPointer ≤ s.MaxStackSize_U32 → s.SwapByte_B = decide (cpu ≠ r.cpu) →
      ∃ err, checkFlag r.cpu flag s = some (true, err, s.withPointer (10 + pay.length)))
    (hscalar : (r.pRpcFct_X fctId).IsScalar) (hfct : fctId < maxFct) (hrts : rpcRts < 2 ^ 16) (hflag : flag < 2 ^ 16)
    (htime : timeOut < 2 ^ 16) (htag : tag < 2 ^ 16) (hlen : frame.length < 2 ^ 16)
    (h16 : 16 ≤ (frame ++ rest).length) (hmax : 16 ≤ (r.parserStack answer).MaxStackSize_U32)
    (hfits : frame.length < (r.parserStack answer).MaxStackSize_U32)
    (hexpected : answer = true → old.RpcTag_U16 = 0 ∨ old.RpcTag_U16 = tag) :
    ∃ r' res, r.parseRpcFrame answer (frame ++ rest) old = some (r', res, .noError) ∧ res.FctId_U32 = fctId ∧
      res.RpcTag_U16 = tag ∧ res.TimeOut_U32 = timeOut ∧ res.RpcRts_U32 = rpcRts ∧
      ∀ a ∈ (r.pRpcFct_X fctId).pArg_U16.zipIdx, rpcParam answer a.1 = true →
        (res.pRpcVar_X a.2).word r.cpu (varType a.1).width = word a % 256 ^ (varType a.1).width := by
  have hbuf : frame ++ rest = header cpu flag timeOut tag frame.length ++ (pay ++ tail ++ rest) := by
    rw [← List.append_assoc, ← List.append_assoc, ← hframe]
  obtain ⟨s₀, s, hparse, hmax', hswap, -, hcontent, hle, hends, -⟩ :=
    parseRpcFrame_header old hbuf hflag htime htag hlen h16 hmax (Nat.le_of_lt hfits)
      (by rw [List.length_append]; omega)
  have hptr := hends hfits
  have hcontent' : s.content = frame := by rw [hcontent, hptr, List.take_left]
  obtain ⟨err, hcheck⟩ := hcheck s hcontent' hle hswap
  -- what the test of the checksum leaves are the header and the payload
  have hpre : s.content = header cpu flag timeOut tag frame.length ++ pay ++ tail := hcontent'.trans hframe
  have hleft := content_withPointer hpre
  have hlong : (header cpu flag timeOut tag frame.length ++ pay).length = 10 + pay.length := by
    rw [List.length_append, length_header]
  have hle' : 10 + pay.length ≤ s.MaxStackSize_U32 := hlong ▸ length_le_of_content hpre hle
  rw [hlong] at hleft
  subst hpay
  obtain ⟨vars, err', hchecked, hvars⟩ := parseChecked_of_content (l := header cpu flag timeOut tag frame.length)
    (p := ⟨false, .tooBig, tag, flag, { (if answer then old else {}) with TimeOut_U32 := timeOut }, s₀⟩)
    answer frame.length hcheck
    (by intro hans; rw [hans]; exact hexpected hans) hscalar hleft hfct hrts hle' hswap
  rw [hchecked, Option.bind_some] at hparse
  rw [hparse]
  obtain ⟨r', hend⟩ := endFrame_of_header r answer (p := { (⟨false, .tooBig, tag, flag,
    { (if answer then old else {}) with TimeOut_U32 := timeOut }, s₀⟩ : Parsing) with
      Sts_B := true
      Rts_U32 := err'
      s := (s.withPointer (10 + (payload cpu answer word (r.pRpcFct_X fctId) rpcRts fctId).length)).withPointer
        (header cpu flag timeOut tag frame.length).length
      res := { (if answer then old else {}) with
        FctId_U32 := fctId
        RpcRts_U32 := rpcRts
        TimeOut_U32 := timeOut
        RpcStackLen_U32 := frame.length
        RpcTag_U16 := tag
        pRpcVar_X := vars } }) rfl (length_header ..) (by show frame.length ≤ s.MaxStackSize_U32; omega)
  exact ⟨r', _, hend, rfl, rfl, rfl, rfl, hvars⟩

end BofStd.BofRpc
