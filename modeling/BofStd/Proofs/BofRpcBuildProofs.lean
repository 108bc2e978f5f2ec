import BofStd.BofRpcSpec
import BofStd.Proofs.BofStackProofs

/-!
# `BofRpc`: the frames that the builders build

Every push appends its bytes, so the payload is there after the loop over the arguments (`pushPayload_eq_true`).
The header is written over the first ten bytes (`pushTop_eq_true`). If the stack pointer can be set back then, the
frame has the layout of `BofRpcSpec`.
-/

namespace BofStd.BofRpc

open BofStack

variable {cpu : CpuEndianness} {s s' : BofStack} {answer : Bool} {word : UInt16 × Nat → Nat}

/-! ## Words and arguments -/

theorem pushWords_eq_true {vs : List Nat} (hswap : s.SwapByte_B = false)
    (h : pushWords cpu vs s = some (true, s')) :
    s' = s.pushed (vs.flatMap (cpu.store 2)) ∧ (vs ≠ [] → s'.stackPointer ≤ s.MaxStackSize_U32) := by
  induction vs generalizing s with
  | nil =>
    obtain ⟨-, rfl⟩ := Prod.mk.inj (Option.some.inj h)
    exact ⟨rfl, fun hne => absurd rfl hne⟩
  | cons v vs ih =>
    obtain ⟨⟨sts, s₁⟩, hpush, hrest⟩ := Option.bind_eq_some_iff.mp h
    cases sts with
    | false => exact nomatch hrest
    | true =>
      obtain ⟨hle, rfl⟩ := pushWord_eq_true hswap hpush
      have hnext : pushWords cpu vs (s.pushed (cpu.store 2 v)) = some (true, s') := hrest
      obtain ⟨rfl, hmax⟩ := ih (s := s.pushed (cpu.store 2 v)) hswap hnext
      rw [pushed_append]
      refine ⟨rfl, fun _ => ?_⟩
      cases vs with
      | nil =>
        rw [pushed_stackPointer, List.flatMap_nil, List.append_nil, CpuEndianness.length_store]
        exact hle
      | cons v' vs =>
        rw [← pushed_append]
        exact hmax (List.cons_ne_nil _ _)

/-- The push of a scalar argument. -/
theorem pushVar_eq_true {ty : RpcVarType} {sent : Bool} {value : RpcValue} (hty : ty.isScalar = true)
    (hswap : s.SwapByte_B = false) (h : pushVar cpu ty sent (some value) s = some (true, s')) :
    s' = s.pushed (cpu.store (if sent then ty.width else 0) (value.word % 256 ^ (if sent then ty.width else 0))) := by
  have hnone : cpu.store 0 (value.word % 256 ^ 0) = [] := List.eq_nil_of_length_eq_zero (cpu.length_store 0 _)
  cases sent with
  | false =>
    have hsame : pushVar cpu ty false (some value) s = some (true, s) := by
      cases ty <;> first | rfl | exact nomatch hty
    obtain ⟨-, rfl⟩ := Prod.mk.inj (Option.some.inj (hsame.symm.trans h))
    rw [if_neg Bool.false_ne_true, hnone, pushed_nil]
  | true =>
    rw [if_pos rfl]
    cases ty with
    | void =>
      obtain ⟨-, rfl⟩ := Prod.mk.inj (Option.some.inj h)
      exact (congrArg s.pushed hnone).symm
    | u8 | s8 | u16 | s16 | u32 | s32 | float | double => exact (pushWord_eq_true hswap h).2
    | char | u64 | s64 | array | other => exact nomatch hty

/-- The loop over the arguments: `value` has the words of the arguments. -/
theorem pushVars_eq_true {value : Nat → RpcVarType → Option RpcValue} {args : List (UInt16 × Nat)} {sts : Bool}
    (hargs : ∀ a ∈ args, (varType a.1).isScalar = true ∧
      ∃ v, value a.2 (varType a.1) = some v ∧ v.word % 256 ^ varWidth answer a.1 = word a % 256 ^ varWidth answer a.1)
    (hswap : s.SwapByte_B = false) (h : pushVars cpu answer value args sts s = some (true, s')) :
    s' = s.pushed (args.flatMap (varBytes cpu answer word)) := by
  induction args generalizing s sts with
  | nil =>
    obtain ⟨-, rfl⟩ := Prod.mk.inj (Option.some.inj h)
    rfl
  | cons a args ih =>
    obtain ⟨arg, i⟩ := a
    rw [List.forall_mem_cons] at hargs
    obtain ⟨⟨hty, v, hv, hmod⟩, hargs⟩ := hargs
    obtain ⟨⟨sts₁, s₁⟩, hpush, hrest⟩ := Option.bind_eq_some_iff.mp h
    cases sts₁ with
    | false => exact nomatch hrest
    | true =>
      rw [hv] at hpush
      have hs₁ := pushVar_eq_true hty hswap hpush
      have hbytes : s₁ = s.pushed (varBytes cpu answer word (arg, i)) := by
        rw [hs₁, varBytes, ← hmod]
        rfl
      subst hbytes
      have hnext : pushVars cpu answer value args true (s.pushed (varBytes cpu answer word (arg, i))) = some (true, s') :=
        hrest
      rw [ih (s := s.pushed (varBytes cpu answer word (arg, i))) hargs hswap hnext, pushed_append, List.flatMap_cons]

/-! ## The payload -/

/-- What a builder sends for the arguments of a scalar function: the words are those of the members of `VALUE`, or of
what the caller passes. -/
def Supplies (answer : Bool) (value : Nat → RpcVarType → Option RpcValue) (word : UInt16 × Nat → Nat)
    (f : RpcFunction) : Prop :=
  ∀ a ∈ f.pArg_U16.zipIdx, (varType a.1).isScalar = true ∧
    ∃ v, value a.2 (varType a.1) = some v ∧ v.word % 256 ^ varWidth answer a.1 = word a % 256 ^ varWidth answer a.1

variable {r : BofRpc} {value : Nat → RpcVarType → Option RpcValue} {rpcRts fctId timeOut tag : Nat}

/-- What is on the stack after the function id: from the place of the first argument on the payload. -/
theorem pushPayload_eq_true (hval : Supplies answer value word (r.pRpcFct_X fctId))
    (h : r.pushPayload answer value rpcRts fctId s = some (true, s')) :
    s' = (resetStackPointerToRpcPayload (s.setSwapByte false)).pushed
        (payload r.cpu answer word (r.pRpcFct_X fctId) (rpcRts % 2 ^ 16) (fctId % 2 ^ 16)) ∧
      s'.stackPointer ≤ s.MaxStackSize_U32 := by
  have hswap : (resetStackPointerToRpcPayload (s.setSwapByte false)).SwapByte_B = false := by
    unfold resetStackPointerToRpcPayload setStackPointer
    split <;> rfl
  have hmax : (resetStackPointerToRpcPayload (s.setSwapByte false)).MaxStackSize_U32 = s.MaxStackSize_U32 := by
    unfold resetStackPointerToRpcPayload setStackPointer
    split <;> rfl
  obtain ⟨⟨sts, s₁⟩, hpush, hrest⟩ := Option.bind_eq_some_iff.mp h
  cases sts with
  | false => exact nomatch hrest
  | true =>
    have hs₁ := pushVars_eq_true hval hswap hpush
    subst hs₁
    obtain ⟨rfl, hle⟩ := pushWords_eq_true (by rw [pushed_swapByte, hswap]) hrest
    rw [pushed_append]
    refine ⟨rfl, ?_⟩
    have hle' := hle (List.cons_ne_nil _ _)
    rw [pushed_maxStackSize, hmax, pushed_append] at hle'
    exact hle'

/-! ## The header -/

/-- What `PushTopRpcControlParam` leaves: the header at the front, and the stack pointer where it was, if it can be set
there. -/
theorem pushTop_eq_true {flag val : Nat} (hswap : s.SwapByte_B = false) (hpos : 0 < s.MaxStackSize_U32)
    (h : pushTopRpcControlParam cpu s magicNumber flag timeOut tag val = some (true, s')) :
    10 ≤ s.MaxStackSize_U32 ∧
      s' = (((s.withPointer 0).pushed (header cpu flag timeOut tag (val % 2 ^ 16))).setStackPointer
        s.stackPointer).2 := by
  obtain ⟨⟨sts, s₁⟩, hpush, hrest⟩ := Option.bind_eq_some_iff.mp h
  obtain ⟨rfl, rfl⟩ := Prod.mk.inj (Option.some.inj hrest)
  rw [setStackPointer_of_lt hpos] at hpush
  obtain ⟨rfl, hle⟩ := pushWords_eq_true (s := s.withPointer 0) hswap hpush
  have h10 := hle (List.cons_ne_nil _ _)
  rw [pushed_stackPointer] at h10
  have hlen := length_header cpu flag timeOut tag (val % 2 ^ 16)
  rw [header] at hlen
  rw [hlen] at h10
  exact ⟨(Nat.le_add_left 10 0).trans h10, rfl⟩

/-- The header in front of the bytes that are behind it. -/
theorem read_pushTop {flag val n : Nat} {bytes : List UInt8} (hswap : s.SwapByte_B = false)
    (hpos : 0 < s.MaxStackSize_U32)
    (h : pushTopRpcControlParam cpu s magicNumber flag timeOut tag val = some (true, s'))
    (hread : Memory.read s.mpStack_U8 10 n = bytes) :
    Memory.read s'.mpStack_U8 0 (10 + n) = header cpu flag timeOut tag (val % 2 ^ 16) ++ bytes := by
  obtain ⟨-, rfl⟩ := pushTop_eq_true hswap hpos h
  have hlen := length_header cpu flag timeOut tag (val % 2 ^ 16)
  rw [setStackPointer_mpStack]
  show Memory.read (Memory.write s.mpStack_U8 0 (header cpu flag timeOut tag (val % 2 ^ 16))) 0 (10 + n) = _
  have hbehind : Memory.read (Memory.write s.mpStack_U8 0 (header cpu flag timeOut tag (val % 2 ^ 16))) 10 n = bytes :=
    (Memory.read_write_of_disjoint _ _ _ (.inr (by omega))).trans hread
  have hself := Memory.read_write_self s.mpStack_U8 0 (header cpu flag timeOut tag (val % 2 ^ 16))
  rw [hlen] at hself
  rw [Memory.read_add, Nat.zero_add, hbehind, hself]

/-! ## The frame -/

theorem pushSize_noError {flag : Nat} {len : Option Nat}
    (h : r.pushSize flag timeOut tag s = some (len, .noError, s')) :
    len = some s.stackPointer ∧
      pushTopRpcControlParam r.cpu s magicNumber flag timeOut tag s.stackPointer = some (true, s') := by
  obtain ⟨⟨sts, s₁⟩, htop, hrest⟩ := Option.bind_eq_some_iff.mp h
  obtain ⟨rfl, herr⟩ := Prod.mk.inj (Option.some.inj hrest)
  obtain ⟨hsts, rfl⟩ := Prod.mk.inj herr
  cases sts with
  | false => exact nomatch hsts
  | true => exact ⟨rfl, htop⟩

/-- The checksum has been pushed when the builders return no error. -/
theorem closeFrame_noError {len : Option Nat} (hon : r.UseChecksum_B = true)
    (h : r.closeFrame timeOut tag s = some (len, .noError, s')) :
    ∃ s₁, r.pushChecksum timeOut tag s = some (true, s₁) ∧
      r.pushSize flagUseChecksum timeOut tag s₁ = some (len, .noError, s') := by
  rw [closeFrame, if_pos hon] at h
  obtain ⟨⟨sts, s₁⟩, hcs, hrest⟩ := Option.bind_eq_some_iff.mp h
  cases sts with
  | false => exact nomatch hrest
  | true => exact ⟨s₁, hcs, hrest⟩

/-- A builder whose stack has room for more than the header: the payload is behind the header. -/
theorem read_payload {bytes : List UInt8} (hmax : 10 < s.MaxStackSize_U32)
    (hs : s' = (resetStackPointerToRpcPayload (s.setSwapByte false)).pushed bytes) :
    s'.stackPointer = 10 + bytes.length ∧ Memory.read s'.mpStack_U8 10 bytes.length = bytes ∧
      s'.SwapByte_B = false ∧ s'.MaxStackSize_U32 = s.MaxStackSize_U32 := by
  have hreset : resetStackPointerToRpcPayload (s.setSwapByte false) = (s.setSwapByte false).withPointer 10 :=
    setStackPointer_of_lt (s := s.setSwapByte false) hmax
  rw [hreset] at hs
  subst hs
  exact ⟨rfl, Memory.read_write_self _ _ _, rfl, rfl⟩

/-- The stack pointer of a builder whose stack has no room for more than the header. -/
theorem pushPayload_maxStackSize (hval : Supplies answer value word (r.pRpcFct_X fctId))
    (h : r.pushPayload answer value rpcRts fctId s = some (true, s')) :
    s'.MaxStackSize_U32 = s.MaxStackSize_U32 ∧ s'.SwapByte_B = false ∧ 0 < s.MaxStackSize_U32 := by
  obtain ⟨rfl, hle⟩ := pushPayload_eq_true hval h
  refine ⟨?_, ?_, ?_⟩
  · exact setStackPointer_maxStackSize (s.setSwapByte false) _
  · exact setStackPointer_swapByte (s.setSwapByte false) _
  · rw [pushed_stackPointer] at hle
    simp only [payload, List.length_append, List.flatMap_cons, CpuEndianness.length_store] at hle
    omega

/-- A frame without checksum: it has the layout, unless the stack has no room for more than the header. -/
theorem frame_eq {s₁ : BofStack} {len : Option Nat} (hoff : r.UseChecksum_B = false)
    (hval : Supplies answer value word (r.pRpcFct_X fctId))
    (hpay : r.pushPayload answer value rpcRts fctId s = some (true, s₁))
    (hclose : r.closeFrame timeOut tag s₁ = some (len, .noError, s')) :
    ∃ n, len = some n ∧ (s.MaxStackSize_U32 ≤ 10 → n ≤ 10) ∧ (10 < s.MaxStackSize_U32 →
      Memory.read s'.mpStack_U8 0 n =
        header r.cpu 0 timeOut tag (n % 2 ^ 16) ++
          payload r.cpu answer word (r.pRpcFct_X fctId) (rpcRts % 2 ^ 16) (fctId % 2 ^ 16)) := by
  obtain ⟨hs₁, hle⟩ := pushPayload_eq_true hval hpay
  obtain ⟨hmax, hswap, hpos⟩ := pushPayload_maxStackSize hval hpay
  rw [closeFrame, if_neg (ne_true_of_eq_false hoff)] at hclose
  obtain ⟨rfl, htop⟩ := pushSize_noError hclose
  refine ⟨_, rfl, fun h10 => hle.trans h10, fun h10 => ?_⟩
  obtain ⟨hptr, hread, -, -⟩ := read_payload h10 hs₁
  have hframe := read_pushTop hswap (hmax ▸ hpos) htop hread
  rw [← hptr] at hframe
  exact hframe

/-! ### The checksum -/

theorem read_eq_some {i n : Nat} {l : List UInt8} (h : s.read i n = some l) : l = Memory.read s.mpStack_U8 i n := by
  unfold BofStack.read at h
  split at h
  · exact (Option.some.inj h).symm
  · exact nomatch h

/-- The header is pushed, and then the checksum of what is on the stack. -/
theorem pushChecksum_eq_true (hswap : s.SwapByte_B = false) (hpos : 0 < s.MaxStackSize_U32)
    (h : r.pushChecksum timeOut tag s = some (true, s')) :
    ∃ s₁, pushTopRpcControlParam r.cpu s magicNumber flagUseChecksum timeOut tag (s.stackPointer + 2) = some (true, s₁) ∧
      s₁.MaxStackSize_U32 = s.MaxStackSize_U32 ∧ s₁.SwapByte_B = false ∧
      s₁.stackPointer + 2 ≤ s.MaxStackSize_U32 ∧
      s' = s₁.pushed (r.cpu.store 2 (checksum s₁.content % 2 ^ 16)) := by
  obtain ⟨⟨sts, s₁⟩, htop, hrest⟩ := Option.bind_eq_some_iff.mp h
  cases sts with
  | false => exact nomatch hrest
  | true =>
    obtain ⟨l, hl, hpush⟩ := Option.bind_eq_some_iff.mp hrest
    obtain ⟨-, hs₁⟩ := pushTop_eq_true hswap hpos htop
    have hswap₁ : s₁.SwapByte_B = false := by
      rw [hs₁, setStackPointer_swapByte]
      exact hswap
    have hmax₁ : s₁.MaxStackSize_U32 = s.MaxStackSize_U32 := by
      rw [hs₁, setStackPointer_maxStackSize]
      rfl
    obtain ⟨hle, rfl⟩ := pushWord_eq_true hswap₁ hpush
    rw [read_eq_some hl]
    exact ⟨s₁, htop, hmax₁, hswap₁, hmax₁ ▸ hle, rfl⟩

/-- On a stack that is full the stack pointer stays behind the header, and the checksum is written there. -/
theorem pushChecksum_full (hswap : s.SwapByte_B = false) (hpos : 0 < s.MaxStackSize_U32)
    (hfull : s.stackPointer = s.MaxStackSize_U32) (h : r.pushChecksum timeOut tag s = some (true, s')) :
    s'.stackPointer = 12 := by
  obtain ⟨s₁, htop, -, -, -, rfl⟩ := pushChecksum_eq_true hswap hpos h
  obtain ⟨-, hs₁⟩ := pushTop_eq_true hswap hpos htop
  have hnot : ¬s.stackPointer < s.MaxStackSize_U32 := by omega
  rw [setStackPointer_of_not_lt (s := (s.withPointer 0).pushed _) hnot] at hs₁
  rw [pushed_stackPointer, CpuEndianness.length_store, hs₁, pushed_stackPointer, length_header]
  rfl

/-- On a stack that is not full the checksum is behind the payload. -/
theorem pushChecksum_behind {bytes : List UInt8} (hswap : s.SwapByte_B = false)
    (hptr : s.stackPointer = 10 + bytes.length) (hread : Memory.read s.mpStack_U8 10 bytes.length = bytes)
    (hlt : s.stackPointer < s.MaxStackSize_U32) (h : r.pushChecksum timeOut tag s = some (true, s')) :
    s'.stackPointer = 10 + (bytes.length + 2) ∧ s'.SwapByte_B = false ∧
      s'.MaxStackSize_U32 = s.MaxStackSize_U32 ∧
      Memory.read s'.mpStack_U8 10 (bytes.length + 2) =
        bytes ++ r.cpu.store 2 (checksum (header r.cpu flagUseChecksum timeOut tag
          ((10 + (bytes.length + 2)) % 2 ^ 16) ++ bytes) % 2 ^ 16) := by
  have hpos : 0 < s.MaxStackSize_U32 := Nat.zero_lt_of_lt hlt
  obtain ⟨s₁, htop, hmax₁, hswap₁, -, rfl⟩ := pushChecksum_eq_true hswap hpos h
  have hptr₁ : s₁.stackPointer = 10 + bytes.length := by
    obtain ⟨-, hs₁⟩ := pushTop_eq_true hswap hpos htop
    rw [hs₁, setStackPointer_of_lt (s := (s.withPointer 0).pushed _) hlt]
    exact hptr
  -- the header and the payload are there when the sum is computed
  have hcontent : s₁.content = header r.cpu flagUseChecksum timeOut tag ((10 + (bytes.length + 2)) % 2 ^ 16) ++ bytes := by
    have hframe := read_pushTop hswap hpos htop hread
    rw [hptr] at hframe
    rw [content, hptr₁]
    exact hframe
  have hbehind : Memory.read s₁.mpStack_U8 10 bytes.length = bytes := by
    have hsplit := hcontent
    rw [content, hptr₁, Memory.read_add, Nat.zero_add] at hsplit
    exact (List.append_inj hsplit (by rw [Memory.length_read, length_header])).2
  refine ⟨?_, hswap₁, hmax₁, ?_⟩
  · rw [pushed_stackPointer, CpuEndianness.length_store, hptr₁, Nat.add_assoc]
  · have hwrite := Memory.read_write_behind s₁.mpStack_U8 10 bytes.length
      (r.cpu.store 2 (checksum s₁.content % 2 ^ 16))
    rw [CpuEndianness.length_store, hbehind, ← hptr₁, hcontent] at hwrite
    rw [hcontent]
    exact hwrite

/-- A frame with a checksum: it has the layout, unless the stack has no room for more than the header or is full
before the checksum. -/
theorem frame_checksum_eq {s₁ : BofStack} {len : Option Nat} (hon : r.UseChecksum_B = true)
    (hval : Supplies answer value word (r.pRpcFct_X fctId))
    (hpay : r.pushPayload answer value rpcRts fctId s = some (true, s₁))
    (hclose : r.closeFrame timeOut tag s₁ = some (len, .noError, s')) {bytes : List UInt8}
    (hbytes : payload r.cpu answer word (r.pRpcFct_X fctId) (rpcRts % 2 ^ 16) (fctId % 2 ^ 16) = bytes) :
    ∃ n, len = some n ∧ (s.MaxStackSize_U32 ≤ 10 ∨ s.MaxStackSize_U32 = 10 + bytes.length → n ≤ 12) ∧
      (10 < s.MaxStackSize_U32 → s.MaxStackSize_U32 ≠ 10 + bytes.length →
        n = 10 + (bytes.length + 2) ∧
        Memory.read s'.mpStack_U8 0 n =
          header r.cpu flagUseChecksum timeOut tag (n % 2 ^ 16) ++ (bytes ++
            r.cpu.store 2 (checksum (header r.cpu flagUseChecksum timeOut tag (n % 2 ^ 16) ++ bytes) % 2 ^ 16))) := by
  obtain ⟨hs₁, hle⟩ := pushPayload_eq_true hval hpay
  obtain ⟨hmax, hswap, hpos⟩ := pushPayload_maxStackSize hval hpay
  obtain ⟨s₂, hcs, hsize⟩ := closeFrame_noError hon hclose
  obtain ⟨rfl, htop⟩ := pushSize_noError hsize
  rw [hbytes] at hs₁
  refine ⟨_, rfl, ?_, ?_⟩
  · intro hsmall
    by_cases h10 : s.MaxStackSize_U32 ≤ 10
    · obtain ⟨s₃, -, -, -, hle₃, rfl⟩ := pushChecksum_eq_true hswap (hmax ▸ hpos) hcs
      rw [pushed_stackPointer, CpuEndianness.length_store]
      omega
    · obtain ⟨hptr, -, -, -⟩ := read_payload (Nat.lt_of_not_le h10) hs₁
      have hfull : s₁.stackPointer = s₁.MaxStackSize_U32 := by omega
      rw [pushChecksum_full hswap (hmax ▸ hpos) hfull hcs]
  · intro h10 hne
    obtain ⟨hptr, hread, -, -⟩ := read_payload h10 hs₁
    obtain ⟨hptr₂, hswap₂, hmax₂, hread₂⟩ := pushChecksum_behind hswap hptr hread (by omega) hcs
    have hframe := read_pushTop hswap₂ (by omega) htop hread₂
    rw [hptr₂] at hframe ⊢
    exact ⟨rfl, hframe⟩

end BofStd.BofRpc
