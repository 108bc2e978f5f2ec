import BofStd.Proofs.BofRpcCompositeProofs

/-!
# `BofRpc`: composite arguments in frames

The parser pops the arguments from a stack that has the frame (`parseRpcFrame_args`), and what is behind the header is
what the builder has pushed (`built_frame`). So the frame is parsed and every pop is undone exactly if all the arguments
are restored.
-/

namespace BofStd

open BofStack

namespace BofRpc

variable {r r' : BofRpc} {cpu : CpuEndianness} {s s' s₁ : BofStack} {answer : Bool} {value : Values}
  {rpcRts fctId timeOut tag : Nat} {old : RpcParserResult}

/-! ## The frame of the builder -/

/-- The return code and the function id. -/
theorem length_two_words (cpu : CpuEndianness) (v w : Nat) : ([v, w].flatMap (cpu.store 2)).length = 4 := by simp

theorem pushVars_of_false {args : List (UInt16 × Nat)} (h : pushVars cpu answer value args false s = some (true, s')) :
    pushVars cpu answer value args true s = some (true, s') := by
  cases args with
  | nil => exact nomatch h
  | cons a args => exact h

theorem resetStackPointer_swap (s : BofStack) : (resetStackPointerToRpcPayload (s.setSwapByte false)).SwapByte_B = false :=
  setStackPointer_swapByte (s.setSwapByte false) _

theorem resetStackPointer_size (s : BofStack) :
    (resetStackPointerToRpcPayload (s.setSwapByte false)).MaxStackSize_U32 = s.MaxStackSize_U32 :=
  setStackPointer_maxStackSize (s.setSwapByte false) _

theorem resetStackPointer_pointer (h : 10 < s.MaxStackSize_U32) :
    (resetStackPointerToRpcPayload (s.setSwapByte false)).stackPointer = 10 := by
  rw [resetStackPointerToRpcPayload, setStackPointer_stackPointer]
  exact if_pos h

/-- The bytes behind the header are those that are on the stack after the pushes. -/
theorem built_frame {len : Option Nat} (hoff : r.UseChecksum_B = false) (hmax : s.MaxStackSize_U32 < 2 ^ 32)
    (hpay : r.pushPayload answer value rpcRts fctId s = some (true, s₁))
    (hclose : r.closeFrame timeOut tag s₁ = some (len, .noError, s')) :
    ∃ n, len = some n ∧ (s.MaxStackSize_U32 ≤ 10 → n ≤ 10) ∧ (10 < s.MaxStackSize_U32 →
      ∃ sA, pushVars r.cpu answer value (r.pRpcFct_X fctId).pArg_U16.zipIdx true
          (resetStackPointerToRpcPayload (s.setSwapByte false)) = some (true, sA) ∧
        10 ≤ sA.stackPointer ∧ n = sA.stackPointer + 4 ∧
        Memory.read s'.mpStack_U8 0 n = header r.cpu 0 timeOut tag (n % 2 ^ 16) ++
          Memory.read (sA.pushed ([rpcRts % 2 ^ 16, fctId % 2 ^ 16].flatMap (r.cpu.store 2))).mpStack_U8 10 (n - 10)) := by
  obtain ⟨⟨sts, sA⟩, hvars, hwords⟩ := Option.bind_eq_some_iff.mp hpay
  cases sts with
  | false => exact nomatch hwords
  | true =>
    have hvars := pushVars_of_false hvars
    have hswap₀ := resetStackPointer_swap s
    have hmax₀ := resetStackPointer_size s
    have hextends := pushVars_extends hswap₀ (hmax₀ ▸ hmax) hvars
    obtain ⟨hs₁, hle⟩ := pushWords_eq_true (hextends.swap.trans hswap₀) hwords
    have hle := hle (List.cons_ne_nil _ _)
    have hsize : sA.MaxStackSize_U32 = s.MaxStackSize_U32 := hextends.size.trans hmax₀
    have hptr₁ : s₁.stackPointer = sA.stackPointer + 4 := by
      rw [hs₁, pushed_stackPointer, length_two_words]
    rw [closeFrame, if_neg (ne_true_of_eq_false hoff)] at hclose
    obtain ⟨rfl, htop⟩ := pushSize_noError hclose
    refine ⟨_, rfl, fun h10 => (hle.trans hsize.le).trans h10, fun h10 => ?_⟩
    have hptr : 10 ≤ sA.stackPointer := resetStackPointer_pointer h10 ▸ hextends.pointer
    refine ⟨sA, hvars, hptr, hptr₁, ?_⟩
    have hswap₁ : s₁.SwapByte_B = false := by
      rw [hs₁]
      exact hextends.swap.trans hswap₀
    have hpos : 0 < s₁.MaxStackSize_U32 := by
      rw [hs₁, pushed_maxStackSize]
      omega
    have hframe := read_pushTop (n := s₁.stackPointer - 10) hswap₁ hpos htop rfl
    rw [show 10 + (s₁.stackPointer - 10) = s₁.stackPointer by omega] at hframe
    rw [hframe, ← hs₁]

/-! ## The parser -/

/-- A frame that ends with the return code and the function id: the arguments are popped from `argsStack`. -/
theorem parseRpcFrame_args (r : BofRpc) (answer : Bool) (old : RpcParserResult) {frame args : List UInt8}
    (hframe : frame = header r.cpu 0 timeOut tag frame.length ++ (args ++ [rpcRts, fctId].flatMap (r.cpu.store 2)))
    (hfct : fctId < maxFct) (hrts : rpcRts < 2 ^ 16) (htime : timeOut < 2 ^ 16) (htag : tag < 2 ^ 16)
    (hlen : frame.length < 2 ^ 16) (h16 : 16 ≤ frame.length)
    (hfits : frame.length < (r.parserStack answer).MaxStackSize_U32)
    (hexpected : answer = true → old.RpcTag_U16 = 0 ∨ old.RpcTag_U16 = tag) :
    ∃ p : Parsing, p.Rts_U32 ≠ .noError ∧ p.res.RpcStackLen_U32 = frame.length ∧
      r.parseRpcFrame answer frame old =
        (popVars r.cpu answer (r.pRpcFct_X fctId).pArg_U16.zipIdx.reverse (oldVars answer old)
          (r.argsStack answer frame)).bind fun popped =>
            r.endFrame answer { p with
              Sts_B := popped.1
              s := popped.2.2
              res := { p.res with pRpcVar_X := popped.2.1 } } := by
  obtain ⟨s₀, s, hparse, hmax, hswap, hbody, hcontent, hle, hends, -⟩ :=
    parseRpcFrame_header old hframe (by decide) htime htag hlen h16 (by omega) (Nat.le_of_lt hfits) (Nat.le_refl _)
  have hptr := hends hfits
  rw [hptr, List.take_length] at hcontent
  have hmem := bodyStack_mpStack r answer r.cpu frame frame.length
  rw [← hbody, List.take_length] at hmem
  have hcontent' : s.content =
      header r.cpu 0 timeOut tag frame.length ++ args ++ [rpcRts, fctId].flatMap (r.cpu.store 2) := by
    rw [hcontent, List.append_assoc]
    exact hframe
  -- the stack without the return code and the function id
  have hshort : (header r.cpu 0 timeOut tag frame.length ++ args).length = frame.length - 4 := by
    have hlength := congrArg List.length hframe
    rw [← List.append_assoc, List.length_append, length_two_words] at hlength
    omega
  have hargs : s.withPointer (header r.cpu 0 timeOut tag frame.length ++ args).length = r.argsStack answer frame := by
    rw [hshort, withPointer, argsStack, hmax, hmem, hswap, decide_eq_false (not_not_intro rfl)]
  let p₀ : Parsing :=
    ⟨false, .tooBig, tag, 0, { (if answer then old else {}) with TimeOut_U32 := timeOut }, s₀⟩
  have hcheck : checkFlag r.cpu p₀.Flag_U16 s = some (true, .tooBig, s) := checkFlag_off r.cpu s
  obtain ⟨e, hchecked⟩ := parseChecked_eq r answer frame.length hcheck (by
    intro hans
    subst hans
    exact hexpected rfl)
  have hpayload := parsePayload_eq (r := r) (p := { p₀ with
    Sts_B := true
    Rts_U32 := e
    s := s
    res := { p₀.res with RpcStackLen_U32 := frame.length, RpcTag_U16 := p₀.TheTag_U16 } }) answer hcontent' hfct hrts
    hle hswap
  refine ⟨{ p₀ with
    Rts_U32 := .invalidCommand
    res := { p₀.res with
      FctId_U32 := fctId
      RpcRts_U32 := rpcRts
      RpcStackLen_U32 := frame.length
      RpcTag_U16 := p₀.TheTag_U16 } }, by rintro ⟨⟩, rfl, ?_⟩
  rw [hparse, hchecked, hpayload, hargs]
  unfold oldVars
  rw [Option.bind_map]
  cases answer <;> rfl

/-- No error: every pop has succeeded. -/
theorem endFrame_noError {r'' : BofRpc} {p : Parsing} {res : RpcParserResult} (hp : p.Rts_U32 ≠ .noError)
    (h : r.endFrame answer p = some (r'', res, .noError)) : p.Sts_B = true ∧ res = p.res := by
  obtain ⟨state, -, hend⟩ := Option.bind_eq_some_iff.mp h
  obtain ⟨-, hend⟩ := Prod.mk.inj (Option.some.inj hend)
  obtain ⟨hres, herr⟩ := Prod.mk.inj hend
  have herr : (if p.Sts_B then checkAndResetStackPointerToRpcControlSize p.s else (p.s, p.Rts_U32)).2 = .noError := herr
  refine ⟨?_, hres.symm⟩
  by_contra hsts
  rw [if_neg hsts] at herr
  exact hp herr

/-! ## From the builder to the parser -/

/-- A frame that `r` has built on the stack `s`, with the arguments up to `sA`, and a parser `r'` that can take it. -/
structure Transfer (r r' : BofRpc) (answer : Bool) (s : BofStack) (value : Values) (rpcRts fctId : Nat)
    (frame : List UInt8) (sA : BofStack) : Prop where
  cpu : r'.cpu = r.cpu
  table : r'.pRpcFct_X = r.pRpcFct_X
  room : 10 < s.MaxStackSize_U32
  size : s.MaxStackSize_U32 < 2 ^ 32
  args : pushVars r.cpu answer value (r.pRpcFct_X fctId).pArg_U16.zipIdx true
    (resetStackPointerToRpcPayload (s.setSwapByte false)) = some (true, sA)
  length : frame.length = sA.stackPointer + 4
  behind : ∀ j, 10 ≤ j → j < frame.length → (r'.argsStack answer frame).mpStack_U8 j =
    (sA.pushed ([rpcRts % 2 ^ 16, fctId % 2 ^ 16].flatMap (r.cpu.store 2))).mpStack_U8 j
  short : frame.length < 2 ^ 16

variable {frame : List UInt8} {sA : BofStack}

theorem read_argsStack (r' : BofRpc) (answer : Bool) (frame : List UInt8) :
    Memory.read (r'.argsStack answer frame).mpStack_U8 0 frame.length = frame := Memory.read_write_self _ _ _

namespace Transfer

variable (h : Transfer r r' answer s value rpcRts fctId frame sA)

include h

theorem stackPointer_argsStack : (r'.argsStack answer frame).stackPointer = sA.stackPointer := by
  show frame.length - 4 = sA.stackPointer
  rw [h.length, Nat.add_sub_cancel]

/-- The pushes around an argument. -/
theorem pushes {before after : List (UInt16 × Nat)} {a : UInt16 × Nat}
    (hargs : (r.pRpcFct_X fctId).pArg_U16.zipIdx = before ++ a :: after) :
    ∃ s₁ s₂, pushVars r.cpu answer value before true (resetStackPointerToRpcPayload (s.setSwapByte false)) =
        some (true, s₁) ∧
      pushVar r.cpu (varType a.1) (rpcParam answer a.1) (value a.2 (varType a.1)) s₁ = some (true, s₂) ∧
      pushVars r.cpu answer value after true s₂ = some (true, sA) ∧
      10 ≤ s₁.stackPointer ∧ s₁.SwapByte_B = false ∧ s₁.MaxStackSize_U32 < 2 ^ 32 ∧ s₂.Extends sA := by
  have hall := h.args
  rw [hargs] at hall
  obtain ⟨s₁, s₂, hbefore, hpush, hafter⟩ := pushVars_split hall
  have hswap₀ := resetStackPointer_swap s
  have hsize₀ : (resetStackPointerToRpcPayload (s.setSwapByte false)).MaxStackSize_U32 < 2 ^ 32 :=
    (resetStackPointer_size s).symm ▸ h.size
  have hs₁ := pushVars_extends hswap₀ hsize₀ hbefore
  have hswap₁ := hs₁.swap.trans hswap₀
  have hsize₁ : s₁.MaxStackSize_U32 < 2 ^ 32 := hs₁.size ▸ hsize₀
  have hs₂ := pushVar_extends hswap₁ hsize₁ hpush
  exact ⟨s₁, s₂, hbefore, hpush, hafter, resetStackPointer_pointer h.room ▸ hs₁.pointer, hswap₁, hsize₁,
    pushVars_extends (hs₂.swap.trans hswap₁) (hs₂.size ▸ hsize₁) hafter⟩

/-- The push and the pop of an argument, when every pop is exact. -/
theorem pops (hback : PopsBack r r' answer s value fctId frame old) {before after : List (UInt16 × Nat)}
    {a : UInt16 × Nat} (hargs : (r.pRpcFct_X fctId).pArg_U16.zipIdx = before ++ a :: after) :
    ∃ s₁ s₂ vars₁ p₁ v p₂,
      pushVar r.cpu (varType a.1) (rpcParam answer a.1) (value a.2 (varType a.1)) s₁ = some (true, s₂) ∧
      pushVars r.cpu answer value after true s₂ = some (true, sA) ∧
      10 ≤ s₁.stackPointer ∧ s₁.SwapByte_B = false ∧ s₁.MaxStackSize_U32 < 2 ^ 32 ∧ s₂.Extends sA ∧
      popVars r.cpu answer after.reverse (oldVars answer old) (r'.argsStack answer frame) = some (true, vars₁, p₁) ∧
      popVar r.cpu (varType a.1) (rpcParam answer a.1)
        { vars₁ a.2 with Arg_U16 := a.1, Type_E := varType a.1 } p₁ = some (true, v, p₂) ∧
      p₁.stackPointer = s₂.stackPointer ∧ p₂.stackPointer = s₁.stackPointer := by
  obtain ⟨s₁, s₂, hbefore, hpush, hafter, h10, hswap₁, hsize₁, hextends⟩ := h.pushes hargs
  obtain ⟨pushed, vars, popped, hpushed, hpopped, hptr⟩ := hback before a after hargs
  obtain rfl : s₁ = pushed := by
    rw [hbefore] at hpushed
    exact (Prod.mk.inj (Option.some.inj hpushed)).2
  rw [h.cpu, List.reverse_cons] at hpopped
  obtain ⟨vars₁, p₁, hlast, hfirst⟩ := popVars_split hpopped
  obtain ⟨v, p₂, hpop, hnil⟩ := popVars_cons hfirst
  obtain ⟨-, rfl⟩ : Function.update vars₁ a.2 v = vars ∧ p₂ = popped := by simpa [popVars] using hnil
  refine ⟨s₁, s₂, vars₁, p₁, v, p₂, hpush, hafter, h10, hswap₁, hsize₁, hextends, hlast, hpop, ?_, hptr⟩
  -- the pops of the arguments behind this one
  cases after with
  | nil =>
    obtain ⟨-, rfl⟩ : oldVars answer old = vars₁ ∧ r'.argsStack answer frame = p₁ := by simpa [popVars] using hlast
    obtain ⟨-, rfl⟩ := Prod.mk.inj (Option.some.inj hafter)
    exact h.stackPointer_argsStack
  | cons a' after =>
    have hargs' : (r.pRpcFct_X fctId).pArg_U16.zipIdx = (before ++ [a]) ++ a' :: after := by
      rw [hargs, List.append_assoc]
      rfl
    obtain ⟨pushed', vars', popped', hpushed', hpopped', hptr'⟩ := hback (before ++ [a]) a' after hargs'
    rw [h.cpu, hlast] at hpopped'
    obtain ⟨-, rfl⟩ := Prod.mk.inj (Prod.mk.inj (Option.some.inj hpopped')).2
    obtain ⟨s₃, s₄, hbefore₃, hpush₃, hnil₃⟩ := pushVars_split hpushed'
    obtain rfl : s₁ = s₃ := by
      rw [hbefore] at hbefore₃
      exact (Prod.mk.inj (Option.some.inj hbefore₃)).2
    obtain rfl : s₂ = s₄ := by
      rw [hpush] at hpush₃
      exact (Prod.mk.inj (Option.some.inj hpush₃)).2
    obtain ⟨-, rfl⟩ := Prod.mk.inj (Option.some.inj hnil₃)
    exact hptr'

/-- What has been pushed is where the parser finds it. -/
theorem below {s₂ : BofStack} (hextends : s₂.Extends sA) {j : Nat} (hj : 10 ≤ j) (hlt : j < s₂.stackPointer) :
    (r'.argsStack answer frame).mpStack_U8 j = s₂.mpStack_U8 j := by
  have hlt' : j < sA.stackPointer := hlt.trans_le hextends.pointer
  have hlength := h.length
  rw [h.behind j hj (by omega), (extends_pushed sA _).below j hlt', hextends.below j hlt]

end Transfer

/-! ## What is necessary -/

/-- What is assigned to `Val_X`. -/
theorem array_setArray (cpu : CpuEndianness) (v : RpcVar) {a : RpcVarBinary} (hitem : a.ItemSize_U32 < 256 ^ 4)
    (hnb : a.NbItem_U32 < 256 ^ 4) : (v.setArray cpu a).array cpu = a := by
  have hread := Memory.read_write_self v.VALUE 0 (cpu.store 4 a.ItemSize_U32 ++ cpu.store 4 a.NbItem_U32)
  rw [List.length_append, CpuEndianness.length_store, CpuEndianness.length_store, Memory.read_add] at hread
  obtain ⟨hfirst, hsecond⟩ := List.append_inj hread (by rw [Memory.length_read, CpuEndianness.length_store])
  rw [RpcVar.array, RpcVar.setArray]
  simp only [hfirst, hsecond, cpu.load_store hitem, cpu.load_store hnb]

theorem getElem?_of_split {args : List UInt16} {before after : List (UInt16 × Nat)} {a : UInt16 × Nat}
    (h : args.zipIdx = before ++ a :: after) : args[a.2]? = some a.1 := by
  refine List.mk_mem_zipIdx_iff_getElem?.mp ?_
  rw [h]
  exact List.mem_append_right _ List.mem_cons_self

/-- The indexes of the arguments are different. -/
theorem not_mem_of_split {args : List UInt16} {before after : List (UInt16 × Nat)} {a : UInt16 × Nat}
    (h : args.zipIdx = before ++ a :: after) : a.2 ∉ before.reverse.map Prod.snd := by
  have hnodup : (args.zipIdx.map Prod.snd).Nodup := by
    rw [List.zipIdx_map_snd]
    exact List.nodup_range'
  rw [h, List.map_append, List.map_cons] at hnodup
  rw [List.map_reverse, List.mem_reverse]
  intro hin
  exact List.disjoint_of_nodup_append hnodup hin List.mem_cons_self

theorem head_pushed (s : BofStack) {bytes : List UInt8} (hne : bytes ≠ []) :
    bytes.head? = some ((s.pushed bytes).mpStack_U8 s.stackPointer) := by
  cases bytes with
  | nil => exact absurd rfl hne
  | cons b bytes =>
    show some b = some (Memory.write s.mpStack_U8 s.stackPointer (b :: bytes) s.stackPointer)
    rw [Memory.write, Memory.write_of_outside _ _ _ (.inl (Nat.lt_succ_self _)), Function.update_self]

section

variable (h : Transfer r r' answer s value rpcRts fctId frame sA) (hback : PopsBack r r' answer s value fctId frame old)
  {before after : List (UInt16 × Nat)} {a : UInt16 × Nat}
  (hargs : (r.pRpcFct_X fctId).pArg_U16.zipIdx = before ++ a :: after)

include h hback hargs

/-- No array is sent. -/
theorem not_array (hsound : Sound answer value (r.pRpcFct_X fctId)) {vars : Nat → RpcVar} {sP : BofStack}
    (hparsed : popVars r.cpu answer (r.pRpcFct_X fctId).pArg_U16.zipIdx.reverse (oldVars answer old)
      (r'.argsStack answer frame) = some (true, vars, sP))
    (hholds : ∀ arg i v, (r.pRpcFct_X fctId).pArg_U16[i]? = some arg → rpcParam answer arg = true →
      value i (varType arg) = some v → (vars i).Holds r.cpu (varType arg) v) (hty : varType a.1 = .array) :
    rpcParam answer a.1 = false := by
  rw [← Bool.not_eq_true]
  intro hsent
  obtain ⟨s₁, s₂, vars₁, p₁, v, p₂, hpush, -, h10, hswap₁, hsize₁, hextends, hlast, hpop, hptr₁, hptr₂⟩ :=
    h.pops hback hargs
  obtain ⟨ptr, hp₁⟩ := moved_popVars hlast
  have hp₁swap : p₁.SwapByte_B = false := by rw [hp₁]; rfl
  have hp₁mem : p₁.mpStack_U8 = (r'.argsStack answer frame).mpStack_U8 := by rw [hp₁]; rfl
  -- the value of the argument
  have hget : (r.pRpcFct_X fctId).pArg_U16[a.2]? = some a.1 := getElem?_of_split hargs
  have hvars : vars a.2 = v := by
    rw [hargs, List.reverse_append, List.reverse_cons, List.append_assoc] at hparsed
    exact popVars_at hparsed hlast hpop (not_mem_of_split hargs)
  rw [hty, hsent] at hpush hpop
  obtain ⟨val, hval, hpush⟩ := Option.bind_eq_some_iff.mp hpush
  obtain ⟨array, hpop, hv⟩ := popVar_array hpop
  obtain ⟨hwell, hnb, -⟩ : val.WellFormed .array := hty ▸ hsound a.1 a.2 val hget hsent (hty ▸ hval)
  have hheld : (vars a.2).Holds r.cpu .array val := by
    have hheld := hholds a.1 a.2 val hget hsent (by rw [hty]; exact hval)
    rwa [hty] at hheld
  -- the sizes that have been popped
  obtain ⟨h8, hpopNb, hpopItem, -⟩ := popArray_eq_true hp₁swap hpop
  have hload : ∀ i, r.cpu.load (Memory.read p₁.mpStack_U8 i 4) < 256 ^ 4 := by
    intro i
    have hlt := r.cpu.load_lt (Memory.read p₁.mpStack_U8 i 4)
    rwa [Memory.length_read] at hlt
  have hsame : array = val.array := by
    rw [hvars, hv] at hheld
    exact (array_setArray r.cpu _ (hpopItem ▸ hload _) (hpopNb ▸ hload _)).symm.trans hheld
  have hlength := h.length
  have hle : p₁.stackPointer < 2 ^ 32 := by
    have hshort := h.short
    have hptr := hextends.pointer
    omega
  exact array_not_restored hswap₁ hsize₁ hwell hnb hpush hptr₁
    (fun j hj hlt => hp₁mem ▸ h.below hextends (h10.trans hj) hlt) hp₁swap hle hpop hptr₂
    ⟨congrArg _ hsame, congrArg _ hsame⟩

/-- A string that is sent is empty, and there is a zero behind it. -/
theorem string_of_pops (hsound : Sound answer value (r.pRpcFct_X fctId))
    (hafter : ∀ b ∈ after, rpcParam answer b.1 = true → varType b.1 ≠ .array) (hty : varType a.1 = .char)
    (hsent : rpcParam answer a.1 = true) :
    (value a.2 .char).map RpcValue.text = some [] ∧
      (after.flatMap (argBytes r.cpu answer value) ++
        [rpcRts % 2 ^ 16, fctId % 2 ^ 16].flatMap (r.cpu.store 2)).head? = some 0 := by
  obtain ⟨s₁, s₂, vars₁, p₁, v, p₂, hpush, hpushes, h10, hswap₁, hsize₁, hextends, hlast, hpop, hptr₁, hptr₂⟩ :=
    h.pops hback hargs
  rw [hty, hsent] at hpush hpop
  obtain ⟨val, hval, hpush⟩ := Option.bind_eq_some_iff.mp hpush
  obtain ⟨-, rfl⟩ := pushBlock_eq_true hpush
  obtain ⟨txt, hpop⟩ := popVar_char hpop
  obtain ⟨ptr, hp₁⟩ := moved_popVars hlast
  have hp₁mem : p₁.mpStack_U8 = (r'.argsStack answer frame).mpStack_U8 := by rw [hp₁]; rfl
  have hget : (r.pRpcFct_X fctId).pArg_U16[a.2]? = some a.1 := getElem?_of_split hargs
  obtain ⟨hnul, -⟩ : val.WellFormed .char := hty ▸ hsound a.1 a.2 val hget hsent (by rw [hty]; exact hval)
  obtain ⟨hempty, hzero⟩ := string_restored hnul hptr₁
    (fun j hj hlt => hp₁mem ▸ h.below hextends (h10.trans hj) (hptr₁ ▸ hlt)) hpop hptr₂
  refine ⟨?_, ?_⟩
  · rw [hval, Option.map_some, hempty]
  · -- the byte at the stack pointer is the first one behind the string
    have hsA := pushVars_argBytes hafter (by exact hswap₁) hpushes
    have hlt : p₁.stackPointer < frame.length := by
      have hle := hextends.pointer
      have hlength := h.length
      omega
    have h10' : 10 ≤ p₁.stackPointer := hptr₁ ▸ h10.trans (Nat.le_add_right _ _)
    have hbehind := h.behind p₁.stackPointer h10' hlt
    rw [← hp₁mem, hzero, hsA, pushed_append, hptr₁] at hbehind
    have hwords : [rpcRts % 2 ^ 16, fctId % 2 ^ 16].flatMap (r.cpu.store 2) ≠ [] := by
      rw [← List.length_pos_iff, length_two_words]
      decide
    rw [head_pushed (s₁.pushed (0 :: val.text.reverse)) (List.append_ne_nil_of_right_ne_nil _ hwords), ← hbehind]

end

section

variable (h : Transfer r r' answer s value rpcRts fctId frame sA)

include h

/-- If everything is restored, every argument is one that can be. -/
theorem argsRestored_of_pops (hback : PopsBack r r' answer s value fctId frame old)
    (hsound : Sound answer value (r.pRpcFct_X fctId)) {vars : Nat → RpcVar} {sP : BofStack}
    (hparsed : popVars r.cpu answer (r.pRpcFct_X fctId).pArg_U16.zipIdx.reverse (oldVars answer old)
      (r'.argsStack answer frame) = some (true, vars, sP))
    (hholds : ∀ arg i v, (r.pRpcFct_X fctId).pArg_U16[i]? = some arg → rpcParam answer arg = true →
      value i (varType arg) = some v → (vars i).Holds r.cpu (varType arg) v) :
    (∀ a ∈ (r.pRpcFct_X fctId).pArg_U16.zipIdx, rpcParam answer a.1 = true → varType a.1 ≠ .array) ∧
      ArgsRestored r.cpu answer value (r.pRpcFct_X fctId).pArg_U16.zipIdx
        ([rpcRts % 2 ^ 16, fctId % 2 ^ 16].flatMap (r.cpu.store 2)) := by
  have harray : ∀ a ∈ (r.pRpcFct_X fctId).pArg_U16.zipIdx, rpcParam answer a.1 = true → varType a.1 ≠ .array := by
    intro a ha hsent hty
    obtain ⟨before, after, hargs⟩ := List.append_of_mem ha
    rw [not_array h hback hargs hsound hparsed hholds hty] at hsent
    exact nomatch hsent
  refine ⟨harray, ?_⟩
  rw [argsRestored_iff]
  intro before a after hargs
  have hafter : ∀ b ∈ after, rpcParam answer b.1 = true → varType b.1 ≠ .array := by
    intro b hb
    refine harray b ?_
    rw [hargs]
    exact List.mem_append_right _ (List.mem_cons_of_mem a hb)
  have hinteger : varType a.1 ≠ .u64 ∧ varType a.1 ≠ .s64 := by
    obtain ⟨s₁, s₂, vars₁, p₁, v, p₂, -, -, -, -, -, -, -, hpop, -⟩ := h.pops hback hargs
    constructor
    · intro hty
      rw [hty] at hpop
      exact nomatch hpop
    · intro hty
      rw [hty] at hpop
      exact nomatch hpop
  unfold ArgRestored
  split
  · next hty => exact hinteger.1 hty
  · next hty => exact hinteger.2 hty
  · next hty => exact not_array h hback hargs hsound hparsed hholds hty
  · next hty => exact string_of_pops h hback hargs hsound hafter hty
  · trivial

/-! ## What is sufficient -/

omit h in
theorem not_array_of_argsRestored {args : List (UInt16 × Nat)} {tail : List UInt8}
    (hargs : ArgsRestored cpu answer value args tail) :
    ∀ a ∈ args, rpcParam answer a.1 = true → varType a.1 ≠ .array := by
  intro a ha hsent hty
  obtain ⟨before, after, rfl⟩ := List.append_of_mem ha
  have harg := (argsRestored_iff _ _).mp hargs before a after rfl
  unfold ArgRestored at harg
  rw [hty] at harg
  exact Bool.false_ne_true (harg.symm.trans hsent)

/-- The layout of a frame without arrays. -/
theorem Transfer.layout
    (harray : ∀ a ∈ (r.pRpcFct_X fctId).pArg_U16.zipIdx, rpcParam answer a.1 = true → varType a.1 ≠ .array) :
    frame.length = 14 + ((r.pRpcFct_X fctId).pArg_U16.zipIdx.flatMap (argBytes r.cpu answer value)).length ∧
      Memory.read (r'.argsStack answer frame).mpStack_U8 0 frame.length =
        Memory.read (r'.argsStack answer frame).mpStack_U8 0 10 ++
          (r.pRpcFct_X fctId).pArg_U16.zipIdx.flatMap (argBytes r.cpu answer value) ++
          [rpcRts % 2 ^ 16, fctId % 2 ^ 16].flatMap (r.cpu.store 2) := by
  have hsA := pushVars_argBytes harray (resetStackPointer_swap s) h.args
  have hptr := resetStackPointer_pointer h.room
  have hlength := h.length
  rw [hsA, pushed_stackPointer, hptr] at hlength
  generalize hbytes : (r.pRpcFct_X fctId).pArg_U16.zipIdx.flatMap (argBytes r.cpu answer value) = bytes at hsA hlength ⊢
  generalize hwords : [rpcRts % 2 ^ 16, fctId % 2 ^ 16].flatMap (r.cpu.store 2) = words
  have h4 : words.length = 4 := by rw [← hwords, length_two_words]
  have hlen : frame.length = 10 + (bytes ++ words).length := by
    rw [List.length_append]
    omega
  refine ⟨by omega, ?_⟩
  have hbehind : Memory.read (r'.argsStack answer frame).mpStack_U8 10 (bytes ++ words).length = bytes ++ words := by
    have hself := Memory.read_write_self (resetStackPointerToRpcPayload (s.setSwapByte false)).mpStack_U8 10
      (bytes ++ words)
    refine (Memory.read_congr fun j hj hlt => ?_).trans hself
    rw [h.behind j hj (hlen ▸ hlt), hwords, hsA, pushed_append, ← hptr]
    rfl
  rw [hlen, Memory.read_add, Nat.zero_add, hbehind, List.append_assoc]

/-- The last arguments are popped. -/
theorem Transfer.popVars_restored (hfits : frame.length < (r'.parserStack answer).MaxStackSize_U32)
    (hargs : ArgsRestored r.cpu answer value (r.pRpcFct_X fctId).pArg_U16.zipIdx
      ([rpcRts % 2 ^ 16, fctId % 2 ^ 16].flatMap (r.cpu.store 2))) {before after : List (UInt16 × Nat)}
    (hsplit : (r.pRpcFct_X fctId).pArg_U16.zipIdx = before ++ after) (vars : Nat → RpcVar) :
    ∃ vars', popVars r.cpu answer after.reverse vars (r'.argsStack answer frame) = some (true, vars',
        (r'.argsStack answer frame).withPointer (10 + (before.flatMap (argBytes r.cpu answer value)).length)) ∧
      ∀ a ∈ after, ∀ val, rpcParam answer a.1 = true → value a.2 (varType a.1) = some val →
        (vars' a.2).Holds r.cpu (varType a.1) val := by
  obtain ⟨hlen, hmem⟩ := h.layout (not_array_of_argsRestored hargs)
  have hpushable := pushable_of_pushVars h.args
  have hnodup : ((r.pRpcFct_X fctId).pArg_U16.zipIdx.map Prod.snd).Nodup := by
    rw [List.zipIdx_map_snd]
    exact List.nodup_range'
  rw [hsplit] at hargs hlen hmem hpushable hnodup
  rw [List.flatMap_append] at hlen hmem
  rw [← List.append_assoc, ← List.reverse_reverse after] at hmem
  rw [argsRestored_append, ← List.reverse_reverse after] at hargs
  rw [List.map_append] at hnodup
  have hpushable' : ∀ a ∈ after.reverse, Pushable answer value a :=
    fun a ha => hpushable a (List.mem_append_right _ (List.mem_reverse.mp ha))
  have hnodup' : (after.reverse.map Prod.snd).Nodup := by
    rw [List.map_reverse, List.nodup_reverse]
    exact (List.nodup_append'.mp hnodup).2.1
  have hptr : (r'.argsStack answer frame).stackPointer =
      (Memory.read (r'.argsStack answer frame).mpStack_U8 0 10 ++ before.flatMap (argBytes r.cpu answer value) ++
        after.reverse.reverse.flatMap (argBytes r.cpu answer value)).length := by
    rw [List.reverse_reverse, List.length_append, List.length_append, Memory.length_read]
    rw [List.length_append] at hlen
    show frame.length - 4 = _
    omega
  have hbelow : (r'.argsStack answer frame).stackPointer < (r'.argsStack answer frame).MaxStackSize_U32 := by
    show frame.length - 4 < (r'.parserStack answer).MaxStackSize_U32
    omega
  obtain ⟨vars', hpop, hholds⟩ := BofRpc.popVars_restored vars hargs.2 hpushable' hnodup' hmem hptr hbelow rfl
  rw [List.length_append, Memory.length_read] at hpop
  exact ⟨vars', hpop, fun a ha => hholds a (List.mem_reverse.mpr ha)⟩

/-- Every pop is exact. -/
theorem Transfer.popsBack (hfits : frame.length < (r'.parserStack answer).MaxStackSize_U32)
    (hargs : ArgsRestored r.cpu answer value (r.pRpcFct_X fctId).pArg_U16.zipIdx
      ([rpcRts % 2 ^ 16, fctId % 2 ^ 16].flatMap (r.cpu.store 2))) :
    PopsBack r r' answer s value fctId frame old := by
  intro before a after hsplit
  obtain ⟨s₁, s₂, hbefore, -⟩ := h.pushes hsplit
  obtain ⟨vars, hpop, -⟩ := h.popVars_restored hfits hargs hsplit (oldVars answer old)
  rw [← h.cpu] at hpop
  refine ⟨s₁, vars, _, hbefore, hpop, ?_⟩
  have harray : ∀ b ∈ before, rpcParam answer b.1 = true → varType b.1 ≠ .array := by
    intro b hb
    refine not_array_of_argsRestored hargs b ?_
    rw [hsplit]
    exact List.mem_append_left _ hb
  have hs₁ := pushVars_argBytes harray (resetStackPointer_swap s) hbefore
  rw [hs₁, pushed_stackPointer, resetStackPointer_pointer h.room, h.cpu]
  rfl

/-! ## Round trips -/

omit h in
/-- What `BuildRpcRequest` and `BuildRpcAnswer` have in common: a frame that can be sent to a parser. -/
theorem transfer_of_built {n : Nat} (hcpu : r'.cpu = r.cpu) (htable : r'.pRpcFct_X = r.pRpcFct_X)
    (hoff : r.UseChecksum_B = false) (hmax : s.MaxStackSize_U32 < 2 ^ 32) (h10 : 10 < s.MaxStackSize_U32)
    (hpay : r.pushPayload answer value rpcRts fctId s = some (true, s₁))
    (hclose : r.closeFrame timeOut tag s₁ = some (some n, .noError, s')) (hn : n < 2 ^ 16)
    (hframe : frame = Memory.read s'.mpStack_U8 0 n) :
    ∃ sA args, Transfer r r' answer s value rpcRts fctId frame sA ∧
      frame = header r.cpu 0 timeOut tag frame.length ++
        (args ++ [rpcRts % 2 ^ 16, fctId % 2 ^ 16].flatMap (r.cpu.store 2)) := by
  obtain ⟨n', hn', -, hbuilt⟩ := built_frame hoff hmax hpay hclose
  obtain rfl := Option.some.inj hn'
  obtain ⟨sA, hargs, hptr, hlen, hlayout⟩ := hbuilt h10
  have hlength : frame.length = n := by rw [hframe, Memory.length_read]
  rw [← hframe, Nat.mod_eq_of_lt hn] at hlayout
  refine ⟨sA, Memory.read sA.mpStack_U8 10 (sA.stackPointer - 10), ⟨hcpu, htable, h10, hmax, hargs, hlength.trans hlen,
    ?_, hlength ▸ hn⟩, ?_⟩
  · have hread := (read_argsStack r' answer frame).trans hlayout
    rw [hlength, show n = 10 + (n - 10) by omega, Memory.read_add, Nat.zero_add] at hread
    obtain ⟨-, hbehind⟩ := List.append_inj hread (by rw [Memory.length_read, length_header])
    intro j hj hlt
    rw [show 10 + (n - 10) - 10 = n - 10 by omega] at hbehind
    exact Memory.cell_eq_of_read_eq hbehind hj (by omega)
  · have hwords := Memory.read_write_behind sA.mpStack_U8 10 (sA.stackPointer - 10)
      ([rpcRts % 2 ^ 16, fctId % 2 ^ 16].flatMap (r.cpu.store 2))
    rw [length_two_words, show sA.stackPointer - 10 + 4 = n - 10 by omega,
      show 10 + (sA.stackPointer - 10) = sA.stackPointer by omega] at hwords
    rw [hlength, ← hwords]
    exact hlayout

omit h in
/-- A frame is restored exactly if its arguments are. -/
theorem restoresComposites_iff {n : Nat} (hcpu : r'.cpu = r.cpu) (htable : r'.pRpcFct_X = r.pRpcFct_X)
    (hoff : r.UseChecksum_B = false) (hmax : s.MaxStackSize_U32 < 2 ^ 32) (hfct : fctId < maxFct)
    (hpay : r.pushPayload answer value rpcRts fctId s = some (true, s₁))
    (hclose : r.closeFrame timeOut tag s₁ = some (some n, .noError, s'))
    (hsound : Sound answer value (r.pRpcFct_X fctId)) (htime : timeOut < 2 ^ 16) (htag : tag < 2 ^ 16)
    (hn : n < 2 ^ 16) (hfits : n < (r'.parserStack answer).MaxStackSize_U32)
    (hexpected : answer = true → old.RpcTag_U16 = 0 ∨ old.RpcTag_U16 = tag) :
    RestoresComposites r r' answer s value fctId (Memory.read s'.mpStack_U8 0 n) old ↔
      CompositesRestored r.cpu answer s.MaxStackSize_U32 value (r.pRpcFct_X fctId) rpcRts fctId := by
  generalize hframe : Memory.read s'.mpStack_U8 0 n = frame
  have hlength : frame.length = n := by rw [← hframe, Memory.length_read]
  have hfct' : fctId % 2 ^ 16 = fctId := Nat.mod_eq_of_lt (Nat.lt_trans hfct (by decide))
  have hrts : rpcRts % 2 ^ 16 < 2 ^ 16 := Nat.mod_lt _ (by decide)
  -- the parser behind the header
  have hparser : ∀ {args}, frame = header r.cpu 0 timeOut tag frame.length ++
      (args ++ [rpcRts % 2 ^ 16, fctId % 2 ^ 16].flatMap (r.cpu.store 2)) → 16 ≤ frame.length →
      ∃ p : Parsing, p.Rts_U32 ≠ .noError ∧ p.res.RpcStackLen_U32 = frame.length ∧
        r'.parseRpcFrame answer frame old =
          (popVars r.cpu answer (r.pRpcFct_X fctId).pArg_U16.zipIdx.reverse (oldVars answer old)
            (r'.argsStack answer frame)).bind fun popped =>
              r'.endFrame answer { p with
                Sts_B := popped.1
                s := popped.2.2
                res := { p.res with pRpcVar_X := popped.2.1 } } := by
    intro args hlayout h16
    rw [hfct', ← hcpu] at hlayout
    have hparse := parseRpcFrame_args r' answer old hlayout hfct hrts htime htag (hlength ▸ hn) h16 (hlength ▸ hfits)
      hexpected
    rwa [hcpu, htable] at hparse
  constructor
  · rintro ⟨⟨r'', res, hparse, hholds⟩, hback⟩
    have h16 := (parseRpcFrame_length_le hparse).1
    have h10 : 10 < s.MaxStackSize_U32 := by
      obtain ⟨n', hn', hsmall, -⟩ := built_frame hoff hmax hpay hclose
      obtain rfl := Option.some.inj hn'
      by_contra hnot
      have hle := hsmall (Nat.le_of_not_lt hnot)
      omega
    obtain ⟨sA, args, htransfer, hlayout⟩ := transfer_of_built hcpu htable hoff hmax h10 hpay hclose hn hframe.symm
    obtain ⟨p, hp, -, hparsed⟩ := hparser hlayout h16
    rw [hparsed] at hparse
    obtain ⟨⟨sts, vars, sP⟩, hpopped, hend⟩ := Option.bind_eq_some_iff.mp hparse
    obtain ⟨rfl, rfl⟩ : sts = true ∧ res = { p.res with pRpcVar_X := vars } := endFrame_noError (p := { p with
      Sts_B := sts
      s := sP
      res := { p.res with pRpcVar_X := vars } }) hp hend
    rw [hcpu] at hholds
    obtain ⟨harray, hargs⟩ := argsRestored_of_pops htransfer hback hsound hpopped hholds
    obtain ⟨hlen, -⟩ := htransfer.layout harray
    exact ⟨h10, by omega, hargs⟩
  · rintro ⟨h10, hwidth, hargs⟩
    obtain ⟨sA, args, htransfer, hlayout⟩ := transfer_of_built hcpu htable hoff hmax h10 hpay hclose hn hframe.symm
    obtain ⟨hlen, -⟩ := htransfer.layout (not_array_of_argsRestored hargs)
    have hfits' : frame.length < (r'.parserStack answer).MaxStackSize_U32 := hlength ▸ hfits
    obtain ⟨p, -, hplen, hparsed⟩ := hparser hlayout (by omega)
    obtain ⟨vars, hpop, hholds⟩ := htransfer.popVars_restored hfits' hargs (List.nil_append _).symm (oldVars answer old)
    obtain ⟨r'', hend⟩ := endFrame_of_header r' answer (p := { p with
      Sts_B := true
      s := (r'.argsStack answer frame).withPointer 10
      res := { p.res with pRpcVar_X := vars } }) rfl rfl (hplen.le.trans (Nat.le_of_lt hfits'))
    refine ⟨⟨r'', { p.res with pRpcVar_X := vars }, ?_, ?_⟩, htransfer.popsBack hfits' hargs⟩
    · rw [hparsed, hpop]
      exact hend
    · intro arg i v harg hsent hv
      rw [hcpu]
      exact hholds (arg, i) (List.mk_mem_zipIdx_iff_getElem?.mpr harg) v hsent hv

end

/-- A request. -/
theorem requestComposites_iff (hcpu : r'.cpu = r.cpu) (htable : r'.pRpcFct_X = r.pRpcFct_X)
    (hoff : r.UseChecksum_B = false) (old : RpcParserResult) {cmdTag sentTag : Nat} {va : Nat → RpcValue}
    {req req' : RpcParserResult} {built : BofRpc}
    (hbuild : r.buildRpcRequest cmdTag va req = some (built, sentTag, req', .noError))
    (hmax : r.mpRpcReqStack_O.MaxStackSize_U32 < 2 ^ 32)
    (hsound : Sound false (fun i _ => some (va i)) (r.pRpcFct_X req.FctId_U32)) (hlen : req'.RpcStackLen_U32 < 2 ^ 16)
    (hfits : req'.RpcStackLen_U32 < r'.mpRpcReqStack_O.MaxStackSize_U32) :
    RestoresComposites r r' false r.mpRpcReqStack_O (fun i _ => some (va i)) req.FctId_U32 (requestFrame built req') old ↔
      CompositesRestored r.cpu false r.mpRpcReqStack_O.MaxStackSize_U32 (fun i _ => some (va i))
        (r.pRpcFct_X req.FctId_U32) 0 req.FctId_U32 := by
  obtain ⟨hfct, s₁, len, hpay, hclose, htag, hlen'⟩ := buildRpcRequest_noError hbuild
  obtain ⟨n, rfl, -⟩ := built_frame hoff hmax hpay hclose
  obtain rfl : req'.RpcStackLen_U32 = n := hlen'
  exact restoresComposites_iff hcpu htable hoff hmax hfct hpay hclose hsound (Nat.mod_lt _ (by decide)) htag hlen hfits
    nofun

/-- An answer. -/
theorem answerComposites_iff (hcpu : r'.cpu = r.cpu) (htable : r'.pRpcFct_X = r.pRpcFct_X)
    (hoff : r.UseChecksum_B = false) (old : RpcParserResult) {res res' : RpcParserResult} {built : BofRpc}
    (hbuild : r.buildRpcAnswer res = some (built, res', .noError))
    (hmax : r.mpRpcAnsStack_O.MaxStackSize_U32 < 2 ^ 32)
    (hsound : Sound true (fun i ty => (res.pRpcVar_X i).value r.cpu ty) (r.pRpcFct_X res.FctId_U32))
    (htag : res.RpcTag_U16 < 2 ^ 16) (hexpected : old.RpcTag_U16 = 0 ∨ old.RpcTag_U16 = res.RpcTag_U16)
    (hlen : res'.RpcStackLen_U32 < 2 ^ 16) (hfits : res'.RpcStackLen_U32 < r'.mpRpcAnsStack_O.MaxStackSize_U32) :
    RestoresComposites r r' true r.mpRpcAnsStack_O (fun i ty => (res.pRpcVar_X i).value r.cpu ty) res.FctId_U32
        (answerFrame built res') old ↔
      CompositesRestored r.cpu true r.mpRpcAnsStack_O.MaxStackSize_U32 (fun i ty => (res.pRpcVar_X i).value r.cpu ty)
        (r.pRpcFct_X res.FctId_U32) res.RpcRts_U32 res.FctId_U32 := by
  obtain ⟨hfct, s₁, len, hpay, hclose, hlen'⟩ := buildRpcAnswer_noError hbuild
  obtain ⟨n, rfl, -⟩ := built_frame hoff hmax hpay hclose
  obtain rfl : res'.RpcStackLen_U32 = n := hlen'
  exact restoresComposites_iff hcpu htable hoff hmax hfct hpay hclose hsound (by decide) htag hlen hfits
    fun _ => hexpected

/-- The composite arguments of a frame without checksum are restored exactly if they are empty strings that are followed
by a zero. -/
theorem composites_restored_iff (hcpu : r'.cpu = r.cpu) (htable : r'.pRpcFct_X = r.pRpcFct_X)
    (hoff : r.UseChecksum_B = false) (old : RpcParserResult) :
    (∀ cmdTag va req built sentTag req', r.buildRpcRequest cmdTag va req = some (built, sentTag, req', .noError) →
      r.mpRpcReqStack_O.MaxStackSize_U32 < 2 ^ 32 →
      Sound false (fun i _ => some (va i)) (r.pRpcFct_X req.FctId_U32) → req'.RpcStackLen_U32 < 2 ^ 16 →
      req'.RpcStackLen_U32 < r'.mpRpcReqStack_O.MaxStackSize_U32 →
        (RestoresComposites r r' false r.mpRpcReqStack_O (fun i _ => some (va i)) req.FctId_U32
            (requestFrame built req') old ↔
          CompositesRestored r.cpu false r.mpRpcReqStack_O.MaxStackSize_U32 (fun i _ => some (va i))
            (r.pRpcFct_X req.FctId_U32) 0 req.FctId_U32)) ∧
    ∀ res built res', r.buildRpcAnswer res = some (built, res', .noError) →
      r.mpRpcAnsStack_O.MaxStackSize_U32 < 2 ^ 32 →
      Sound true (fun i ty => (res.pRpcVar_X i).value r.cpu ty) (r.pRpcFct_X res.FctId_U32) →
      res.RpcTag_U16 < 2 ^ 16 → old.RpcTag_U16 = 0 ∨ old.RpcTag_U16 = res.RpcTag_U16 → res'.RpcStackLen_U32 < 2 ^ 16 →
      res'.RpcStackLen_U32 < r'.mpRpcAnsStack_O.MaxStackSize_U32 →
        (RestoresComposites r r' true r.mpRpcAnsStack_O (fun i ty => (res.pRpcVar_X i).value r.cpu ty) res.FctId_U32
            (answerFrame built res') old ↔
          CompositesRestored r.cpu true r.mpRpcAnsStack_O.MaxStackSize_U32
            (fun i ty => (res.pRpcVar_X i).value r.cpu ty) (r.pRpcFct_X res.FctId_U32) res.RpcRts_U32
            res.FctId_U32) :=
  ⟨fun _ _ _ _ _ _ hbuild hmax hsound hlen hfits => requestComposites_iff hcpu htable hoff old hbuild hmax hsound hlen hfits,
    fun _ _ _ hbuild hmax hsound htag hexpected hlen hfits =>
      answerComposites_iff hcpu htable hoff old hbuild hmax hsound htag hexpected hlen hfits⟩

/-! ### A request with an empty string, and requests that are not restored -/

/-- Function 0 has a string as its `IN` argument, function 1 an array, function 2 an integer of 64 bits and all the others
a word of 16 bits and a string. -/
def compositeFunctions (max : Nat) : BofRpc where
  cpu := .little
  UseChecksum_B := false
  pRpcFct_X i :=
    match i with
    | 0 => ⟨[0x102], by decide⟩
    | 1 => ⟨[0x10E], by decide⟩
    | 2 => ⟨[0x109], by decide⟩
    | _ => ⟨[0x105, 0x102], by decide⟩
  mpRpcReqStack_O := ⟨max, false, fun _ => 0, 0⟩
  mpRpcAnsStack_O := ⟨max, false, fun _ => 0, 0⟩
  reqState := {}
  ansState := {}

/-- What is well-formed as a string and as an array can be sent. -/
theorem sound_of_wellFormed {va : Nat → RpcValue} {f : RpcFunction} (htext : ∀ i, (va i).WellFormed .char)
    (harray : ∀ i, (va i).WellFormed .array) : Sound answer (fun i _ => some (va i)) f := by
  intro arg i v _ _ hv
  obtain rfl := Option.some.inj hv
  cases varType arg with
  | char => exact htext i
  | array => exact harray i
  | _ => trivial

theorem composites_restored_empty : ∃ built sentTag req',
    (compositeFunctions 64).buildRpcRequest 6 (fun i => { word := 7 + i }) { FctId_U32 := 3 } =
      some (built, sentTag, req', .noError) ∧
    RestoresComposites (compositeFunctions 64) (compositeFunctions 64) false (compositeFunctions 64).mpRpcReqStack_O
      (fun i _ => some { word := 7 + i }) 3 (requestFrame built req') {} := by
  have hlen : ((compositeFunctions 64).buildRpcRequest 6 (fun i => { word := 7 + i })
      { FctId_U32 := 3 }).map (fun b => (b.2.2.1.RpcStackLen_U32, b.2.2.2)) = some (17, .noError) := rfl
  obtain ⟨⟨built, sentTag, req', err⟩, hbuild, heq⟩ := Option.map_eq_some_iff.mp hlen
  obtain ⟨hlen, rfl⟩ := Prod.mk.inj heq
  have hsound : Sound false (fun i _ => some { word := 7 + i }) ((compositeFunctions 64).pRpcFct_X 3) :=
    sound_of_wellFormed (fun _ => ⟨List.not_mem_nil, Nat.zero_lt_succ 255⟩)
      fun _ => ⟨Nat.two_pow_pos 16, Nat.two_pow_pos 16, rfl⟩
  have hrestored : CompositesRestored .little false 64 (fun i _ => some { word := 7 + i })
      ((compositeFunctions 64).pRpcFct_X 3) 0 3 :=
    ⟨by decide, by decide, trivial, fun _ => ⟨rfl, rfl⟩, trivial⟩
  have hcpu : (compositeFunctions 64).cpu = (compositeFunctions 64).cpu := rfl
  have htable : (compositeFunctions 64).pRpcFct_X = (compositeFunctions 64).pRpcFct_X := rfl
  have hoff : (compositeFunctions 64).UseChecksum_B = false := rfl
  have hiff := (composites_restored_iff hcpu htable hoff {}).1 6 (fun i => { word := 7 + i }) { FctId_U32 := 3 } built
    sentTag req' hbuild (by decide) hsound (hlen ▸ (by decide : 17 < 2 ^ 16)) (hlen ▸ (by decide : 17 < 64))
  exact ⟨built, sentTag, req', hbuild, hiff.mpr hrestored⟩

theorem not_restored_of_build {v : RpcValue} {fctId len : Nat}
    (hbuild : ((compositeFunctions 64).buildRpcRequest 6 (fun _ => v) { FctId_U32 := fctId }).map
      (fun b => (b.2.2.1.RpcStackLen_U32, b.2.2.2)) = some (len, .noError))
    (htext : v.WellFormed .char) (harray : v.WellFormed .array) (hlen : len < 64)
    (hnot : ¬CompositesRestored .little false 64 (fun _ _ => some v) ((compositeFunctions 64).pRpcFct_X fctId) 0 fctId) :
    ∃ built sentTag req',
      (compositeFunctions 64).buildRpcRequest 6 (fun _ => v) { FctId_U32 := fctId } =
        some (built, sentTag, req', .noError) ∧
      ¬RestoresComposites (compositeFunctions 64) (compositeFunctions 64) false (compositeFunctions 64).mpRpcReqStack_O
        (fun _ _ => some v) fctId (requestFrame built req') {} := by
  obtain ⟨⟨built, sentTag, req', err⟩, hbuild, heq⟩ := Option.map_eq_some_iff.mp hbuild
  obtain ⟨hlen', rfl⟩ := Prod.mk.inj heq
  have hlen' : req'.RpcStackLen_U32 = len := hlen'
  have hcpu : (compositeFunctions 64).cpu = (compositeFunctions 64).cpu := rfl
  have htable : (compositeFunctions 64).pRpcFct_X = (compositeFunctions 64).pRpcFct_X := rfl
  have hoff : (compositeFunctions 64).UseChecksum_B = false := rfl
  have hfits : req'.RpcStackLen_U32 < (compositeFunctions 64).mpRpcReqStack_O.MaxStackSize_U32 := hlen' ▸ hlen
  have hiff := requestComposites_iff hcpu htable hoff {} hbuild (by decide)
    (sound_of_wellFormed (fun _ => htext) fun _ => harray) (by omega) hfits
  exact ⟨built, sentTag, req', hbuild, fun h => hnot (hiff.mp h)⟩

/-- The string "a", an array of one byte and an integer of 64 bits. -/
theorem not_composites_restored :
    (∃ built sentTag req',
      (compositeFunctions 64).buildRpcRequest 6 (fun _ => { text := [97] }) { FctId_U32 := 0 } =
        some (built, sentTag, req', .noError) ∧
      ¬RestoresComposites (compositeFunctions 64) (compositeFunctions 64) false (compositeFunctions 64).mpRpcReqStack_O
        (fun _ _ => some { text := [97] }) 0 (requestFrame built req') {}) ∧
    (∃ built sentTag req',
      (compositeFunctions 64).buildRpcRequest 6 (fun _ => { array := ⟨1, 1, [5]⟩ }) { FctId_U32 := 1 } =
        some (built, sentTag, req', .noError) ∧
      ¬RestoresComposites (compositeFunctions 64) (compositeFunctions 64) false (compositeFunctions 64).mpRpcReqStack_O
        (fun _ _ => some { array := ⟨1, 1, [5]⟩ }) 1 (requestFrame built req') {}) ∧
    ∃ built sentTag req',
      (compositeFunctions 64).buildRpcRequest 6 (fun _ => { word := 5 }) { FctId_U32 := 2 } =
        some (built, sentTag, req', .noError) ∧
      ¬RestoresComposites (compositeFunctions 64) (compositeFunctions 64) false (compositeFunctions 64).mpRpcReqStack_O
        (fun _ _ => some { word := 5 }) 2 (requestFrame built req') {} := by
  have hstring : ((compositeFunctions 64).buildRpcRequest 6 (fun _ => { text := [97] }) { FctId_U32 := 0 }).map
      (fun b => (b.2.2.1.RpcStackLen_U32, b.2.2.2)) = some (16, .noError) := rfl
  have harray : ((compositeFunctions 64).buildRpcRequest 6 (fun _ => { array := ⟨1, 1, [5]⟩ }) { FctId_U32 := 1 }).map
      (fun b => (b.2.2.1.RpcStackLen_U32, b.2.2.2)) = some (19, .noError) := rfl
  have hinteger : ((compositeFunctions 64).buildRpcRequest 6 (fun _ => { word := 5 }) { FctId_U32 := 2 }).map
      (fun b => (b.2.2.1.RpcStackLen_U32, b.2.2.2)) = some (22, .noError) := rfl
  refine ⟨not_restored_of_build hstring ⟨by decide, by decide⟩ ⟨by decide, by decide, rfl⟩ (by decide) ?_,
    not_restored_of_build harray ⟨by decide, by decide⟩ ⟨by decide, by decide, rfl⟩ (by decide) ?_,
    not_restored_of_build hinteger ⟨by decide, by decide⟩ ⟨by decide, by decide, rfl⟩ (by decide) ?_⟩
  · rintro ⟨-, -, hargs, -⟩
    exact nomatch (hargs rfl).1
  · rintro ⟨-, -, hargs, -⟩
    exact Bool.noConfusion hargs
  · rintro ⟨-, -, hargs, -⟩
    exact hargs

end BofRpc

end BofStd
