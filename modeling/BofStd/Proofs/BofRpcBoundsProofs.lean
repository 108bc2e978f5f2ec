import BofStd.BofRpcSpec
import BofStd.Proofs.BofRpcCompositeFrameProofs
import BofStd.Proofs.BofRpcChecksumProofs

/-!
# `BofRpc`: the parser stays in its buffers where the walk does

A pop agrees with its walk (`Agrees`): it has a result exactly if the walk stays inside, and then it moves the stack
pointer to the same place. This holds of the arguments one by one, of all of them, and of the whole frame.
-/

namespace BofStd

open BofStack

variable {cpu cpu' : CpuEndianness} {s s' : BofStack} {answer : Bool}

namespace BofStack

/-- The stack pointer is inside of the array, and an `int`. -/
structure Bounded (s : BofStack) : Prop where
  pointer : s.stackPointer ≤ s.MaxStackSize_U32
  int : s.stackPointer < 2 ^ 31
  size : s.MaxStackSize_U32 < 2 ^ 32

theorem Bounded.withPointer (h : s.Bounded) {ptr : Nat} (hle : ptr ≤ s.stackPointer) : (s.withPointer ptr).Bounded :=
  ⟨hle.trans h.pointer, hle.trans_lt h.int, h.size⟩

/-- The pop of a word, in every state. -/
theorem popWord_eq (w : Nat) (hle : s.stackPointer ≤ s.MaxStackSize_U32) (hswap : s.SwapByte_B = decide (cpu ≠ cpu')) :
    s.popWord cpu' w = some (if w ≤ s.stackPointer then
      (some (cpu.load (Memory.read s.mpStack_U8 (s.stackPointer - w) w)), s.withPointer (s.stackPointer - w))
      else (none, s)) := by
  by_cases hw : w ≤ s.stackPointer
  · have hdrop : s.content.drop (s.stackPointer - w) = Memory.read s.mpStack_U8 (s.stackPointer - w) w := by
      have hsplit := Memory.read_add s.mpStack_U8 0 (s.stackPointer - w) w
      rw [Nat.sub_add_cancel hw, Nat.zero_add] at hsplit
      rw [content, hsplit, List.drop_left' (Memory.length_read ..)]
    rw [if_pos hw, BofRpc.popWord_of_le hw hle hswap, hdrop]
  · rw [if_neg hw, BofRpc.popWord_of_lt cpu' (Nat.lt_of_not_le hw)]

/-- The loop over a string reads down to the first zero, or all of the bytes. -/
theorem popTxtLoop_eq {n : Nat} (hn : n ≤ s.stackPointer) (hlt : s.stackPointer < s.MaxStackSize_U32) :
    ∃ txt, popTxtLoop n s = some (txt, s.withPointer (s.stackPointer - txt.length)) ∧
      match (List.range n).find? fun k => s.mpStack_U8 (s.stackPointer - k) = 0 with
      | some k => txt.length = k + 1 ∧ txt.getLast? = some 0
      | none => txt.length = n ∧ txt.getLast? ≠ some 0 := by
  induction n generalizing s with
  | zero => exact ⟨[], rfl, rfl, by rintro ⟨⟩⟩
  | succ n ih =>
    have hread : s.read s.stackPointer 1 = some [s.mpStack_U8 s.stackPointer] := by
      rw [BofStack.read, if_pos (Nat.succ_le_of_lt hlt)]
      rfl
    rw [List.range_succ_eq_map, List.find?_cons]
    by_cases hzero : s.mpStack_U8 s.stackPointer = 0
    · refine ⟨[0], ?_, ?_⟩
      · rw [popTxtLoop, hread, hzero]
        rfl
      · simp [hzero]
    · obtain ⟨txt, hloop, hfind⟩ := ih (s := s.withPointer (s.stackPointer - 1)) (by
        show n ≤ s.stackPointer - 1
        omega) (by
        show s.stackPointer - 1 < s.MaxStackSize_U32
        omega)
      have hne : ¬[s.mpStack_U8 s.stackPointer] = [0] := fun h => hzero (List.singleton_inj.mp h)
      refine ⟨s.mpStack_U8 s.stackPointer :: txt, ?_, ?_⟩
      · have hptr : s.stackPointer - 1 - txt.length = s.stackPointer - (txt.length + 1) := by omega
        have hloop' : popTxtLoop n { s with stackPointer := s.stackPointer - 1 } =
            some (txt, s.withPointer (s.stackPointer - (txt.length + 1))) := by
          rw [← hptr]
          exact hloop
        rw [popTxtLoop, hread, Option.bind_eq_bind, Option.bind_some]
        dsimp only
        rw [if_neg hne, hloop']
        rfl
      · have hpred : (fun k => decide ((s.withPointer (s.stackPointer - 1)).mpStack_U8
            ((s.withPointer (s.stackPointer - 1)).stackPointer - k) = 0)) =
            (fun k => decide (s.mpStack_U8 (s.stackPointer - k) = 0)) ∘ Nat.succ := by
          funext k
          show decide (s.mpStack_U8 (s.stackPointer - 1 - k) = 0) = decide (s.mpStack_U8 (s.stackPointer - (k + 1)) = 0)
          rw [Nat.sub_sub, Nat.add_comm 1 k]
        rw [hpred] at hfind
        rw [Nat.sub_zero, decide_eq_false hzero, List.find?_map]
        cases hrest : (List.range n).find? ((fun k => decide (s.mpStack_U8 (s.stackPointer - k) = 0)) ∘ Nat.succ) with
        | none =>
          rw [hrest] at hfind
          refine ⟨by rw [List.length_cons, hfind.1], ?_⟩
          cases txt with
          | nil => simpa using hzero
          | cons c cs => simpa using hfind.2
        | some k =>
          rw [hrest] at hfind
          refine ⟨by rw [List.length_cons, hfind.1], ?_⟩
          cases txt with
          | nil => cases hfind.1
          | cons c cs => simpa using hfind.2

/-- `AdjustStackBufferLocation`, by the `int`s that it computes with. -/
theorem adjust_of_ints {size : Int} (hptr : s.stackPointer < 2 ^ 31)
    (hsize : (s.MaxStackSize_U32 : Int).bmod (2 ^ 32) = size) (offset : Int) :
    s.adjustStackBufferLocation offset =
      if -2 ^ 31 ≤ (s.stackPointer : Int) + offset ∧ (s.stackPointer : Int) + offset < 2 ^ 31 then
        if (s.stackPointer : Int) + offset ≤ size ∧ (s.stackPointer : Int) + offset ≥ 0 then
          some (true, s.withPointer ((s.stackPointer : Int) + offset).toNat)
        else some (false, s)
      else none := by
  have hself : (s.stackPointer : Int).bmod (2 ^ 32) = s.stackPointer := Int.bmod_eq_of_le (by omega) (by omega)
  unfold adjustStackBufferLocation
  rw [hself, hsize]
  rfl

theorem read_of_le {i n : Nat} (h : i + n ≤ s.MaxStackSize_U32) : s.read i n = some (Memory.read s.mpStack_U8 i n) :=
  if_pos h

theorem read_of_not_le {i n : Nat} (h : ¬i + n ≤ s.MaxStackSize_U32) : s.read i n = none := if_neg h

/-- A copy from the stack pointer after it was set. -/
theorem read_withPointer (s : BofStack) (ptr n : Nat) :
    (s.withPointer ptr).read (s.withPointer ptr).stackPointer n = s.read ptr n := rfl

/-- `AdjustStackBufferLocation` by the size of an array, and the copy of its items. -/
theorem adjust_read (h : s.Bounded) {nb : Nat} (hnb : nb < 2 ^ 32) :
    ((s.adjustStackBufferLocation ((nb : Int).bmod (2 ^ 32))).bind fun r =>
      (r.2.read r.2.stackPointer nb).map fun bytes => (bytes, r.2)) =
    if s.MaxStackSize_U32 < 2 ^ 31 then
      if s.stackPointer + 2 * nb ≤ s.MaxStackSize_U32 then
        some (Memory.read s.mpStack_U8 (s.stackPointer + nb) nb, s.withPointer (s.stackPointer + nb))
      else none
    else if s.stackPointer + nb ≤ s.MaxStackSize_U32 ∧ (nb < 2 ^ 31 → s.stackPointer + nb < 2 ^ 31) then
      some (Memory.read s.mpStack_U8 s.stackPointer nb, s)
    else none := by
  obtain ⟨hpointer, hint, hsize⟩ := h
  have hmax := bmod_of_word hsize
  have hoffset := bmod_of_word hnb
  rw [adjust_of_ints hint rfl]
  generalize (s.MaxStackSize_U32 : Int).bmod (2 ^ 32) = size at hmax ⊢
  generalize (nb : Int).bmod (2 ^ 32) = offset at hoffset ⊢
  by_cases hfits : -2 ^ 31 ≤ (s.stackPointer : Int) + offset ∧ (s.stackPointer : Int) + offset < 2 ^ 31
  · by_cases hin : (s.stackPointer : Int) + offset ≤ size ∧ (s.stackPointer : Int) + offset ≥ 0
    · -- the stack pointer moves; down it would move by an array that is larger than the stack
      rw [if_pos hfits, if_pos hin, Option.bind_some, if_pos (by omega)]
      generalize hq : ((s.stackPointer : Int) + offset).toNat = q
      by_cases hread : s.stackPointer + 2 * nb ≤ s.MaxStackSize_U32
      · obtain rfl : q = s.stackPointer + nb := by omega
        have hroom : s.stackPointer + nb + nb ≤ s.MaxStackSize_U32 := by omega
        rw [if_pos hread, read_withPointer, read_of_le hroom, Option.map_some]
      · have hout : ¬q + nb ≤ s.MaxStackSize_U32 := by
          rcases hoffset with ⟨hup, -⟩ | ⟨hdown, hlarge⟩
          · have hsum : q = s.stackPointer + nb := by omega
            omega
          · -- an array of 2 GiB or more does not fit
            have hsmall : s.MaxStackSize_U32 < 2 ^ 31 := by omega
            omega
        rw [if_neg hread, read_withPointer, read_of_not_le hout, Option.map_none]
    · rw [if_pos hfits, if_neg hin, Option.bind_some]
      by_cases hmax31 : s.MaxStackSize_U32 < 2 ^ 31
      · rw [if_pos hmax31, if_neg (by omega), read_of_not_le (by show ¬s.stackPointer + nb ≤ s.MaxStackSize_U32; omega),
          Option.map_none]
      · rw [if_neg hmax31]
        by_cases hread : s.stackPointer + nb ≤ s.MaxStackSize_U32
        · rw [read_of_le hread, if_pos ⟨hread, by omega⟩, Option.map_some]
        · rw [read_of_not_le hread, if_neg fun h => hread h.1, Option.map_none]
  · rw [if_neg hfits, Option.bind_none]
    by_cases hmax31 : s.MaxStackSize_U32 < 2 ^ 31
    · rw [if_pos hmax31, if_neg (by omega)]
    · rw [if_neg hmax31, if_neg (by omega)]

end BofStack

namespace BofRpc

/-! ## Arguments -/

/-- A pop does what its walk says. -/
def Agrees {α : Type} (s : BofStack) (o : Option (Bool × α × BofStack)) : Walk → Prop
  | .outside => o = none
  | .refused => ∃ v s', o = some (false, v, s') ∧ Moved s s'
  | .to ptr => ∃ v, o = some (true, v, s.withPointer ptr)

/-- A word of `w` bytes. -/
theorem agrees_scalar (h : s.Bounded) (hswap : s.SwapByte_B = decide (cpu ≠ cpu')) (w : Nat) (v : RpcVar) :
    Agrees s (popScalar cpu' w v s) (if w ≤ s.stackPointer then .to (s.stackPointer - w) else .refused) := by
  rw [popScalar, popWord_eq w h.pointer hswap]
  by_cases hw : w ≤ s.stackPointer
  · simp only [if_pos hw]
    exact ⟨_, rfl⟩
  · simp only [if_neg hw]
    exact ⟨v, s, rfl, Moved.refl s⟩

/-- There is nothing to pop. -/
theorem agrees_void (v : RpcVar) :
    Agrees s (popVar cpu' .void true v s)
      (if RpcVarType.void.width ≤ s.stackPointer then .to (s.stackPointer - RpcVarType.void.width) else .refused) := by
  have hle : RpcVarType.void.width ≤ s.stackPointer := Nat.zero_le _
  rw [if_pos hle]
  exact ⟨v, rfl⟩

/-- A string: it is read down to its end, which `pVal_c` has to have room for. -/
theorem agrees_text (v : RpcVar) :
    Agrees s (popVar cpu' .char true v s) (walkText s.MaxStackSize_U32 s.mpStack_U8 s.stackPointer) := by
  unfold walkText
  have hpop : popVar cpu' .char true v s = s.popTxt.bind fun r =>
      if r.2.1.length ≤ rpcMaxStringSize then
        some (r.1, { v with VALUE := Memory.write v.VALUE 0 r.2.1 }, r.2.2)
      else none := rfl
  rw [hpop, popTxt]
  by_cases hzero : s.stackPointer = 0
  · rw [if_pos hzero, if_pos hzero]
    refine ⟨{ v with VALUE := Memory.write v.VALUE 0 [] }, ?_⟩
    rw [← hzero]
    rfl
  · rw [if_neg hzero, if_neg hzero]
    by_cases hlt : s.stackPointer < s.MaxStackSize_U32
    · rw [if_neg (Nat.not_le.mpr hlt)]
      obtain ⟨txt, hloop, hfind⟩ := popTxtLoop_eq (Nat.le_refl _) hlt
      rw [hloop, Option.map_some, Option.bind_some]
      cases hk : (List.range s.stackPointer).find? fun k => decide (s.mpStack_U8 (s.stackPointer - k) = 0) with
      | some k =>
        rw [hk] at hfind
        obtain ⟨hlen, hlast⟩ := hfind
        dsimp only
        rw [if_pos hlast]
        dsimp only
        rw [hlen]
        by_cases hroom : k < rpcMaxStringSize
        · rw [if_pos (Nat.succ_le_of_lt hroom), if_pos hroom]
          exact ⟨_, rfl⟩
        · rw [if_neg hroom]
          exact if_neg hroom
      | none =>
        rw [hk] at hfind
        obtain ⟨hlen, hlast⟩ := hfind
        dsimp only
        rw [if_neg hlast]
        dsimp only
        rw [List.length_append, List.length_singleton, hlen]
        by_cases hroom : s.stackPointer < rpcMaxStringSize
        · rw [if_pos (Nat.succ_le_of_lt hroom), if_pos hroom]
          exact ⟨_, _, rfl, _, rfl⟩
        · rw [if_neg hroom]
          exact if_neg hroom
    · -- the first read is behind the array
      rw [if_pos (Nat.not_lt.mp hlt)]
      obtain ⟨n, hn⟩ := Nat.exists_eq_succ_of_ne_zero hzero
      have hout : s.read s.stackPointer 1 = none := read_of_not_le hlt
      rw [hn, popTxtLoop, hout]
      rfl

/-- The items of an array, after the two words. -/
theorem agrees_items {α : Type} (h : s.Bounded) {nb : Nat} (hnb : nb < 2 ^ 32) (f : List UInt8 → α) :
    Agrees s ((s.adjustStackBufferLocation ((nb : Int).bmod (2 ^ 32))).bind fun r =>
        (r.2.read r.2.stackPointer nb).bind fun bytes => some (true, f bytes, r.2))
      (if s.MaxStackSize_U32 < 2 ^ 31 then
        if s.stackPointer + 2 * nb ≤ s.MaxStackSize_U32 then .to (s.stackPointer + nb) else .outside
      else if s.stackPointer + nb ≤ s.MaxStackSize_U32 ∧ (nb < 2 ^ 31 → s.stackPointer + nb < 2 ^ 31) then
        .to s.stackPointer
      else .outside) := by
  have hmap : ((s.adjustStackBufferLocation ((nb : Int).bmod (2 ^ 32))).bind fun r =>
      (r.2.read r.2.stackPointer nb).bind fun bytes => some (true, f bytes, r.2)) =
      ((s.adjustStackBufferLocation ((nb : Int).bmod (2 ^ 32))).bind fun r =>
        (r.2.read r.2.stackPointer nb).map fun bytes => (bytes, r.2)).map fun x => (true, f x.1, x.2) := by
    cases s.adjustStackBufferLocation ((nb : Int).bmod (2 ^ 32)) with
    | none => rfl
    | some r =>
      rw [Option.bind_some, Option.bind_some]
      cases r.2.read r.2.stackPointer nb <;> rfl
  rw [hmap, adjust_read h hnb]
  by_cases hmax : s.MaxStackSize_U32 < 2 ^ 31
  · rw [if_pos hmax, if_pos hmax]
    by_cases hread : s.stackPointer + 2 * nb ≤ s.MaxStackSize_U32
    · rw [if_pos hread, if_pos hread]
      exact ⟨_, rfl⟩
    · rw [if_neg hread, if_neg hread]
      rfl
  · rw [if_neg hmax, if_neg hmax]
    by_cases hread : s.stackPointer + nb ≤ s.MaxStackSize_U32 ∧ (nb < 2 ^ 31 → s.stackPointer + nb < 2 ^ 31)
    · rw [if_pos hread, if_pos hread]
      exact ⟨_, rfl⟩
    · rw [if_neg hread, if_neg hread]
      rfl

theorem Agrees.of_withPointer {α : Type} (ptr : Nat) {o : Option (Bool × α × BofStack)} {w : Walk}
    (h : Agrees (s.withPointer ptr) o w) : Agrees s o w := by
  cases w with
  | outside => exact h
  | refused =>
    obtain ⟨v, s', ho, q, hq⟩ := h
    exact ⟨v, s', ho, q, hq⟩
  | «to» q => exact h

theorem Agrees.bind {α β : Type} {o : Option (Bool × α × BofStack)} {w : Walk} (h : Agrees s o w)
    (f : Bool × α × BofStack → β) : Agrees s (o.bind fun x => some (x.1, f x, x.2.2)) w := by
  cases w with
  | outside =>
    have hnone : o = none := h
    rw [hnone]
    rfl
  | refused =>
    obtain ⟨v, s', rfl, hmoved⟩ := h
    exact ⟨f (false, v, s'), s', rfl, hmoved⟩
  | «to» ptr =>
    obtain ⟨v, rfl⟩ := h
    exact ⟨f (true, v, s.withPointer ptr), rfl⟩

/-- An array: the two words, and then the items. -/
theorem agrees_array (h : s.Bounded) (hswap : s.SwapByte_B = decide (cpu ≠ cpu')) (v : RpcVar) :
    Agrees s (popVar cpu' .array true v s) (walkArray cpu s.MaxStackSize_U32 s.mpStack_U8 s.stackPointer) := by
  have hpop : popVar cpu' .array true v s = (popArray cpu' s (v.array cpu')).bind fun r =>
      some (r.1, v.setArray cpu' r.2.1, r.2.2) := rfl
  rw [hpop, popArray, popU32, popWord_eq 4 h.pointer hswap]
  unfold walkArray
  by_cases h4 : 4 ≤ s.stackPointer
  · let s₁ := s.withPointer (s.stackPointer - 4)
    have h₁ : s₁.Bounded := h.withPointer (Nat.sub_le _ _)
    have hswap₁ : s₁.SwapByte_B = decide (cpu ≠ cpu') := hswap
    have hpop₁ := popWord_eq 4 h₁.pointer hswap₁
    rw [if_pos h4, Option.bind_eq_bind, Option.bind_some]
    dsimp only
    rw [popU32, hpop₁]
    by_cases h8 : 4 ≤ s₁.stackPointer
    · have hptr : s₁.stackPointer - 4 = s.stackPointer - 8 := by
        show s.stackPointer - 4 - 4 = s.stackPointer - 8
        omega
      have hle : ¬s.stackPointer < 8 := by
        have : 4 ≤ s.stackPointer - 4 := h8
        omega
      rw [if_pos h8, if_neg hle, Option.bind_some]
      dsimp only
      rw [hptr]
      generalize cpu.load (Memory.read s.mpStack_U8 (s.stackPointer - 4) 4) = nbItem
      have hmem : cpu.load (Memory.read s₁.mpStack_U8 (s.stackPointer - 8) 4) =
        cpu.load (Memory.read s.mpStack_U8 (s.stackPointer - 8) 4) := rfl
      rw [hmem]
      generalize cpu.load (Memory.read s.mpStack_U8 (s.stackPointer - 8) 4) = itemSize
      have hitems := agrees_items (s := s.withPointer (s.stackPointer - 8)) (h.withPointer (Nat.sub_le _ _))
        (Nat.mod_lt (nbItem * itemSize) (by decide)) fun bytes =>
          v.setArray cpu' { v.array cpu' with NbItem_U32 := nbItem, ItemSize_U32 := itemSize, pItem := bytes }
      refine Agrees.of_withPointer (s.stackPointer - 8) ?_
      simp only [Option.bind_eq_bind, Option.bind_assoc, Option.pure_def, Option.bind_some]
      exact hitems
    · have hlt : s.stackPointer < 8 := by
        have : ¬4 ≤ s.stackPointer - 4 := h8
        omega
      rw [if_neg h8, if_pos hlt]
      exact ⟨_, _, rfl, _, rfl⟩
  · rw [if_neg h4, if_pos (by omega)]
    exact ⟨_, _, rfl, Moved.refl s⟩

/-- An argument. -/
theorem popVar_agrees (h : s.Bounded) (hswap : s.SwapByte_B = decide (cpu ≠ cpu')) (answer : Bool) (arg : UInt16)
    (v : RpcVar) :
    Agrees s (popVar cpu' (varType arg) (rpcParam answer arg) v s)
      (walkVar cpu answer s.MaxStackSize_U32 s.mpStack_U8 arg s.stackPointer) := by
  unfold walkVar
  generalize varType arg = ty
  cases rpcParam answer arg with
  | false => cases ty <;> first | exact ⟨v, rfl⟩ | exact ⟨v, s, rfl, Moved.refl s⟩
  | true =>
    cases ty with
    | void => exact agrees_void v
    | char => exact agrees_text v
    | u8 | s8 | u16 | s16 | u32 | s32 | float | double => exact agrees_scalar h hswap _ v
    | array => exact agrees_array h hswap v
    | u64 | s64 | other => exact ⟨v, s, rfl, Moved.refl s⟩

theorem walkText_le {max ptr p : Nat} {mem : Nat → UInt8} (h : walkText max mem ptr = .to p) : p ≤ ptr := by
  unfold walkText at h
  split at h
  · injection h with h
    omega
  · split at h
    · exact nomatch h
    · split at h
      · split at h
        · injection h with h
          omega
        · exact nomatch h
      · split at h <;> exact nomatch h

/-- The stack pointer stays inside over an array: the copy of the items has looked at the bytes that follow. -/
theorem walkArray_bounded {p : Nat} (h : s.Bounded)
    (hw : walkArray cpu s.MaxStackSize_U32 s.mpStack_U8 s.stackPointer = .to p) : (s.withPointer p).Bounded := by
  obtain ⟨hpointer, hint, hsize⟩ := h
  unfold walkArray at hw
  split at hw
  · exact nomatch hw
  · generalize (_ * _ % 2 ^ 32 : Nat) = nb at hw
    dsimp only at hw
    split at hw
    · split at hw
      · injection hw with hw
        exact ⟨by show p ≤ s.MaxStackSize_U32; omega, by show p < 2 ^ 31; omega, hsize⟩
      · exact nomatch hw
    · split at hw
      · injection hw with hw
        exact ⟨by show p ≤ s.MaxStackSize_U32; omega, by show p < 2 ^ 31; omega, hsize⟩
      · exact nomatch hw

theorem walkVar_bounded {arg : UInt16} {p : Nat} (h : s.Bounded)
    (hw : walkVar cpu answer s.MaxStackSize_U32 s.mpStack_U8 arg s.stackPointer = .to p) :
    (s.withPointer p).Bounded := by
  unfold walkVar at hw
  split at hw
  · exact nomatch hw
  · exact nomatch hw
  · exact nomatch hw
  · injection hw with hw
    exact h.withPointer hw.ge
  · exact h.withPointer (walkText_le hw)
  · exact walkArray_bounded h hw
  · split at hw
    · injection hw with hw
      exact h.withPointer (by omega)
    · exact nomatch hw

/-- The arguments: each of them is popped where the walk has come to. -/
theorem popVars_agrees (answer : Bool) (args : List (UInt16 × Nat)) (vars : Nat → RpcVar) (h : s.Bounded)
    (hswap : s.SwapByte_B = decide (cpu ≠ cpu')) :
    Agrees s (popVars cpu' answer args vars s)
      (walkVars cpu answer s.MaxStackSize_U32 s.mpStack_U8 (args.map Prod.fst) s.stackPointer) := by
  induction args generalizing s vars with
  | nil => exact ⟨vars, rfl⟩
  | cons a args ih =>
    obtain ⟨arg, i⟩ := a
    have hvar := popVar_agrees h hswap answer arg { vars i with Arg_U16 := arg, Type_E := varType arg }
    rw [List.map_cons, walkVars, popVars]
    cases hw : walkVar cpu answer s.MaxStackSize_U32 s.mpStack_U8 arg s.stackPointer with
    | outside =>
      rw [hw] at hvar
      have hnone : popVar cpu' (varType arg) (rpcParam answer arg) _ s = none := hvar
      rw [hnone]
      rfl
    | refused =>
      rw [hw] at hvar
      obtain ⟨v, s', hpop, hmoved⟩ := hvar
      rw [hpop]
      exact ⟨_, s', rfl, hmoved⟩
    | «to» ptr =>
      rw [hw] at hvar
      obtain ⟨v, hpop⟩ := hvar
      rw [hpop]
      exact (ih (Function.update vars i v) (walkVar_bounded h hw) hswap).of_withPointer

/-! ## The payload -/

variable {r : BofRpc} {p p' : Parsing} {buffer : List UInt8} {old : RpcParserResult}

/-- What the pops of the payload leave as it is. -/
theorem parsePayload_keeps (h : r.parsePayload answer p = some p') (herr : p.Rts_U32 ≠ .noError) :
    p'.res.RpcStackLen_U32 = p.res.RpcStackLen_U32 ∧ p'.Rts_U32 ≠ .noError := by
  obtain ⟨⟨popped, s₁⟩, -, h⟩ := Option.bind_eq_some_iff.mp h
  cases popped with
  | none =>
    obtain rfl := Option.some.inj h
    exact ⟨rfl, herr⟩
  | some fctId =>
    dsimp only at h
    by_cases hfct : fctId < maxFct
    · rw [if_pos hfct] at h
      obtain ⟨⟨popped, s₂⟩, -, h⟩ := Option.bind_eq_some_iff.mp h
      cases popped with
      | none =>
        obtain rfl := Option.some.inj h
        exact ⟨rfl, nofun⟩
      | some rpcRts =>
        obtain ⟨⟨sts, vars, s₃⟩, -, h⟩ := Option.bind_eq_some_iff.mp h
        obtain rfl := Option.some.inj h
        exact ⟨rfl, nofun⟩
    · rw [if_neg hfct] at h
      obtain rfl := Option.some.inj h
      exact ⟨rfl, nofun⟩

/-- The function id, the return code and the arguments. -/
theorem parsePayload_agrees (answer : Bool) (h : p.s.Bounded) (hswap : p.s.SwapByte_B = decide (cpu ≠ r.cpu)) {fctId : Nat}
    (hfct : cpu.load (Memory.read p.s.mpStack_U8 (p.s.stackPointer - 2) 2) = fctId) :
    Agrees p.s ((r.parsePayload answer p).map fun p' => (p'.Sts_B, p', p'.s))
      (if 4 ≤ p.s.stackPointer ∧ fctId < maxFct then
        walkVars cpu answer p.s.MaxStackSize_U32 p.s.mpStack_U8 (r.pRpcFct_X fctId).pArg_U16.reverse
          (p.s.stackPointer - 4)
      else .refused) := by
  rw [parsePayload, popU16, popWord_eq 2 h.pointer hswap]
  by_cases h2 : 2 ≤ p.s.stackPointer
  · let s₁ := p.s.withPointer (p.s.stackPointer - 2)
    have h₁ : s₁.Bounded := h.withPointer (Nat.sub_le _ _)
    have hswap₁ : s₁.SwapByte_B = decide (cpu ≠ r.cpu) := hswap
    rw [if_pos h2, hfct, Option.bind_eq_bind, Option.bind_some]
    dsimp only
    by_cases hlt : fctId < maxFct
    · rw [if_pos hlt, popU16, popWord_eq 2 h₁.pointer hswap₁]
      by_cases h4 : 2 ≤ s₁.stackPointer
      · have h4' : 4 ≤ p.s.stackPointer := by
          have : 2 ≤ p.s.stackPointer - 2 := h4
          omega
        have hptr : s₁.stackPointer - 2 = p.s.stackPointer - 4 := by
          show p.s.stackPointer - 2 - 2 = p.s.stackPointer - 4
          omega
        have hswap₂ : (p.s.withPointer (p.s.stackPointer - 4)).SwapByte_B = decide (cpu ≠ r.cpu) := hswap
        have hvars := popVars_agrees answer (r.pRpcFct_X fctId).pArg_U16.zipIdx.reverse p.res.pRpcVar_X
          (h.withPointer (Nat.sub_le _ _)) hswap₂
        rw [List.map_reverse, List.zipIdx_map_fst] at hvars
        rw [if_pos h4, Option.bind_some, if_pos ⟨h4', hlt⟩, hptr]
        dsimp only
        refine Agrees.of_withPointer (p.s.stackPointer - 4) ?_
        generalize cpu.load (Memory.read s₁.mpStack_U8 (p.s.stackPointer - 4) 2) = rpcRts
        rw [Option.bind_eq_bind, Option.map_bind]
        exact hvars.bind fun popped =>
          { p with
            Sts_B := popped.1
            Rts_U32 := .invalidCommand
            s := popped.2.2
            res := { p.res with FctId_U32 := fctId, RpcRts_U32 := rpcRts, pRpcVar_X := popped.2.1 } }
      · rw [if_neg h4, if_neg fun hle => h4 (by show 2 ≤ p.s.stackPointer - 2; omega)]
        exact ⟨_, _, rfl, _, rfl⟩
    · rw [if_neg hlt, if_neg fun hle => hlt hle.2]
      exact ⟨_, _, rfl, _, rfl⟩
  · rw [if_neg h2, if_neg fun hle => h2 (by omega)]
    exact ⟨_, _, rfl, Moved.refl _⟩

/-! ## The header -/

/-- The bytes of the frame are where the stack has them. -/
theorem read_of_content (h : s.content = buffer.take s.stackPointer) {i n : Nat} (hle : i + n ≤ s.stackPointer) :
    Memory.read s.mpStack_U8 i n = (buffer.drop i).take n := by
  have htake := congrArg (List.take (i + n)) h
  rw [content, Memory.take_read _ _ hle, List.take_take, Nat.min_eq_left hle, Memory.read_add, Nat.zero_add] at htake
  have hdrop := congrArg (List.drop i) htake
  rwa [List.drop_left' (Memory.length_read ..), List.drop_take, Nat.add_sub_cancel_left] at hdrop

theorem take_word (cpu : CpuEndianness) {i : Nat} (h : i + 2 ≤ buffer.length) :
    buffer.take (i + 2) = buffer.take i ++ cpu.store 2 (wordAt cpu buffer i) := by
  have hlen : ((buffer.drop i).take 2).length = 2 := by
    rw [List.length_take, List.length_drop]
    omega
  have hstore := cpu.store_load ((buffer.drop i).take 2)
  rw [hlen] at hstore
  rw [List.take_add, wordAt, hstore]

theorem wordAt_magicNumber (h : frameOrder buffer = some cpu) : wordAt cpu buffer 0 = magicNumber := by
  rcases buffer with _ | ⟨b₀, _ | ⟨b₁, bs⟩⟩
  · exact nomatch h
  · exact nomatch h
  · simp only [frameOrder] at h
    split at h
    · next hbytes =>
      obtain ⟨rfl, rfl⟩ := hbytes
      obtain rfl := Option.some.inj h
      show CpuEndianness.big.load [0x42, 0x48] = magicNumber
      decide
    · split at h
      · next hbytes =>
        obtain ⟨rfl, rfl⟩ := hbytes
        obtain rfl := Option.some.inj h
        show CpuEndianness.little.load [0x48, 0x42] = magicNumber
        decide
      · exact nomatch h

/-- A buffer with the magic number starts with a header. -/
theorem exists_header (h16 : 16 ≤ buffer.length) (horder : frameOrder buffer = some cpu) :
    buffer = header cpu (wordAt cpu buffer 2) (wordAt cpu buffer 4) (wordAt cpu buffer 6) (wordAt cpu buffer 8) ++
      buffer.drop 10 := by
  have htake : buffer.take 10 =
      header cpu (wordAt cpu buffer 2) (wordAt cpu buffer 4) (wordAt cpu buffer 6) (wordAt cpu buffer 8) := by
    rw [take_word cpu (i := 8) (by omega), take_word cpu (i := 6) (by omega), take_word cpu (i := 4) (by omega),
      take_word cpu (i := 2) (by omega), take_word cpu (i := 0) (by omega), wordAt_magicNumber horder]
    simp [header]
  rw [← htake, List.take_append_drop]

/-- A buffer without the magic number is refused. -/
theorem isRpcLittleEndian_none (cpu : CpuEndianness) (mem : Nat → UInt8) (h2 : 2 ≤ buffer.length)
    (horder : frameOrder buffer = none) : isRpcLittleEndian cpu (Memory.write mem 0 (buffer.take 16)) = none := by
  rcases buffer with _ | ⟨b₀, _ | ⟨b₁, bs⟩⟩
  · cases h2
  · exact absurd h2 (Nat.not_succ_le_self 1)
  · have hread := congrArg (List.take 2) (Memory.read_write_self mem 0 ((b₀ :: b₁ :: bs).take 16))
    rw [Memory.take_read _ _ (by simp)] at hread
    obtain ⟨h₀, h₁⟩ : Memory.write mem 0 ((b₀ :: b₁ :: bs).take 16) 0 = b₀ ∧
        Memory.write mem 0 ((b₀ :: b₁ :: bs).take 16) 1 = b₁ := by
      simpa [Memory.read, List.range_succ] using hread
    simp only [frameOrder] at horder
    unfold isRpcLittleEndian
    rw [h₀, h₁]
    split at horder
    · cases horder
    · next hbig =>
      split at horder
      · cases horder
      · next hlittle => rw [if_neg hbig, if_neg hlittle]

/-! ## The frame -/

/-- The tests and the payload of a frame with a header do what the walk over the frame says. -/
theorem walkFrame_agrees (old : RpcParserResult) (hmax : 16 ≤ (r.parserStack answer).MaxStackSize_U32)
    (hmax32 : (r.parserStack answer).MaxStackSize_U32 < 2 ^ 32) (h16 : 16 ≤ buffer.length)
    (horder : frameOrder buffer = some cpu) (hlen : declaredLength cpu buffer ≤ buffer.length)
    (hfits : declaredLength cpu buffer ≤ (r.parserStack answer).MaxStackSize_U32) :
    ∃ s o, r.parseRpcFrame answer buffer old = Option.bind o (r.endFrame answer) ∧
      Agrees s (o.map fun p => (p.Sts_B, p, p.s)) (r.walkFrame answer cpu buffer old) ∧
      s.MaxStackSize_U32 = (r.parserStack answer).MaxStackSize_U32 ∧
      ∀ p, o = some p → p.res.RpcStackLen_U32 = declaredLength cpu buffer ∧ p.Rts_U32 ≠ .noError := by
  have hword := wordAt_lt cpu buffer
  obtain ⟨e, p, hparse, hends, htested, herr, hplen, hptr, hcontent, hple, hpmax, hswap, hbody, hps⟩ :=
    parseRpcFrame_tested old (exists_header h16 horder) (hword 2) (hword 4) (hword 6)
      (hword 8) h16 hmax hfits hlen
  refine ⟨p.s, _, hparse, ?_, hpmax, ?_⟩
  · have hend : checkedEnd (wordAt cpu buffer 2) e ≤ e := by
      unfold checkedEnd
      split <;> omega
    have hshort : e ≤ wordAt cpu buffer 8 := by
      have hle : wordAt cpu buffer 8 ≤ (r.parserStack answer).MaxStackSize_U32 := hfits
      obtain ⟨hlt, hfull, hsmall⟩ := hends
      omega
    have hbounded : p.s.Bounded := ⟨hple, by have := hword 8; omega, by rw [hpmax]; exact hmax32⟩
    have hpass : p.Sts_B = true ↔ PassesTests answer cpu buffer old e := by
      rw [htested]
      unfold PassesTests Tested
      by_cases hexpected : answer = true ∧ old.RpcTag_U16 ≠ 0
      · rw [if_pos hexpected, if_pos hexpected, forall_prop_of_true (.inl hexpected)]
      · rw [if_neg hexpected, if_neg hexpected, or_iff_right hexpected]
    have hwalk : r.walkFrame answer cpu buffer old =
        if PassesTests answer cpu buffer old e ∧ 4 ≤ p.s.stackPointer ∧
            wordAt cpu buffer (p.s.stackPointer - 2) < maxFct then
          walkVars cpu answer p.s.MaxStackSize_U32 p.s.mpStack_U8
            (r.pRpcFct_X (wordAt cpu buffer (p.s.stackPointer - 2))).pArg_U16.reverse (p.s.stackPointer - 4)
        else .refused := by
      rw [hps, hbody]
      rfl
    rw [hwalk]
    by_cases hsts : p.Sts_B = true
    · rw [if_pos hsts]
      simp only [hpass.mp hsts, true_and]
      by_cases h4 : 4 ≤ p.s.stackPointer
      · refine parsePayload_agrees answer hbounded hswap ?_
        rw [read_of_content (hcontent.trans (by rw [hptr])) (by omega)]
        rfl
      · have hrefused := parsePayload_agrees answer hbounded hswap rfl
        rw [if_neg fun h => h4 h.1] at hrefused
        rw [if_neg fun h => h4 h.1]
        exact hrefused
    · rw [if_neg hsts, if_neg fun h => hsts (hpass.mpr h.1)]
      rw [Bool.not_eq_true] at hsts
      exact ⟨p, p.s, by rw [Option.map_some, hsts], Moved.refl _⟩
  · intro p' hp'
    by_cases hsts : p.Sts_B = true
    · rw [if_pos hsts] at hp'
      obtain ⟨hkeep, herr'⟩ := parsePayload_keeps hp' herr
      exact ⟨hkeep.trans hplen, herr'⟩
    · rw [if_neg hsts] at hp'
      obtain rfl := Option.some.inj hp'
      exact ⟨hplen, herr⟩

/-- The record of a frame that is too large has no room. -/
theorem endFrame_none (r : BofRpc) (answer : Bool) (h : ¬RecordFits p.s.MaxStackSize_U32 p.res.RpcStackLen_U32) :
    r.endFrame answer p = none := by
  unfold RecordFits at h
  have hout : ¬0 + (if p.res.RpcStackLen_U32 < 64 then p.res.RpcStackLen_U32 else 64) ≤ p.s.MaxStackSize_U32 := by
    split <;> omega
  rw [endFrame, frameState, read_of_not_le hout]
  rfl

/-- A frame that is refused. -/
theorem staysInBounds_of_refused (hparse : r.parseRpcFrame answer buffer old = r.endFrame answer p)
    (hsts : p.Sts_B = false) (herr : p.Rts_U32 ≠ .noError) :
    StaysInBounds r answer buffer old ↔ RecordFits p.s.MaxStackSize_U32 p.res.RpcStackLen_U32 := by
  constructor
  · rintro ⟨r', res, err, hresult, -⟩
    by_contra hrecord
    rw [hparse, endFrame_none r answer hrecord] at hresult
    exact nomatch hresult
  · intro hrecord
    obtain ⟨r', hend, -⟩ := endFrame_eq r answer hrecord
    rw [hsts, if_neg Bool.false_ne_true] at hend
    exact ⟨r', p.res, p.Rts_U32, hparse.trans hend, fun h => absurd h herr⟩

theorem bodyStack_stackPointer_iff (r : BofRpc) (cpu : CpuEndianness) (buffer : List UInt8) {len : Nat}
    (hmax : 16 ≤ (r.parserStack answer).MaxStackSize_U32) (hfits : len ≤ (r.parserStack answer).MaxStackSize_U32) :
    (r.bodyStack answer cpu buffer len).stackPointer = len ↔ len < (r.parserStack answer).MaxStackSize_U32 := by
  obtain ⟨hlt, hfull, hsmall⟩ := bodyStack_endsAt r cpu buffer len hmax
  constructor
  · intro heq
    by_contra hge
    omega
  · exact hlt

/-- A frame with a header, of a length that is not larger than the stack. -/
theorem staysInBounds_of_fits (hmax : 16 ≤ (r.parserStack answer).MaxStackSize_U32)
    (hmax32 : (r.parserStack answer).MaxStackSize_U32 < 2 ^ 32) (h16 : 16 ≤ buffer.length)
    (horder : frameOrder buffer = some cpu) (hlen : declaredLength cpu buffer ≤ buffer.length)
    (hfits : declaredLength cpu buffer ≤ (r.parserStack answer).MaxStackSize_U32) :
    StaysInBounds r answer buffer old ↔ r.walkFrame answer cpu buffer old ≠ .outside ∧
      (r.walkFrame answer cpu buffer old = .to 10 →
        declaredLength cpu buffer < (r.parserStack answer).MaxStackSize_U32) := by
  obtain ⟨s, o, hparse, hagrees, hsize, hkeep⟩ := walkFrame_agrees old hmax hmax32 h16 horder hlen hfits
  cases hw : r.walkFrame answer cpu buffer old with
  | outside =>
    rw [hw] at hagrees
    have hnone : o = none := Option.map_eq_none_iff.mp hagrees
    rw [hnone] at hparse
    constructor
    · rintro ⟨r', res, err, hresult, -⟩
      exact nomatch hparse.symm.trans hresult
    · exact fun h => absurd rfl h.1
  | refused =>
    rw [hw] at hagrees
    obtain ⟨v, s', ho, ptr, hmoved⟩ := hagrees
    obtain ⟨p, rfl, hp⟩ := Option.map_eq_some_iff.mp ho
    obtain ⟨hsts, hp⟩ := Prod.mk.inj hp
    obtain ⟨-, hps⟩ := Prod.mk.inj hp
    obtain ⟨hplen, herr⟩ := hkeep p rfl
    have hrecord : RecordFits p.s.MaxStackSize_U32 p.res.RpcStackLen_U32 := by
      refine .inl ?_
      rw [hps, hmoved, hplen]
      exact hfits.trans hsize.ge
    exact ⟨fun _ => ⟨nofun, nofun⟩, fun _ => (staysInBounds_of_refused hparse hsts herr).mpr hrecord⟩
  | «to» ptr =>
    rw [hw] at hagrees
    obtain ⟨v, ho⟩ := hagrees
    obtain ⟨p, rfl, hp⟩ := Option.map_eq_some_iff.mp ho
    obtain ⟨hsts, hp⟩ := Prod.mk.inj hp
    obtain ⟨-, hps⟩ := Prod.mk.inj hp
    obtain ⟨hplen, -⟩ := hkeep p rfl
    have hrecord : p.res.RpcStackLen_U32 ≤ p.s.MaxStackSize_U32 := by
      rw [hps, hplen]
      exact hfits.trans hsize.ge
    obtain ⟨r', hend, hstack⟩ := endFrame_eq r answer (.inl hrecord)
    have hptr : p.s.stackPointer = ptr := by rw [hps]; rfl
    rw [if_pos hsts, hptr] at hend
    have hresult := hparse.trans hend
    -- the pops have started at the declared length if it is not the size of the stack
    have hstart := bodyStack_stackPointer_iff r cpu buffer hmax hfits
    constructor
    · rintro ⟨r'', res, err, hresult', hok⟩
      refine ⟨nofun, fun hten => ?_⟩
      injection hten with hten
      rw [if_pos hten] at hresult
      obtain ⟨-, hpair⟩ := Prod.mk.inj (Option.some.inj (hresult.symm.trans hresult'))
      obtain ⟨cpu', horder', hlength, -⟩ := hok (Prod.mk.inj hpair).2.symm
      obtain rfl := Option.some.inj (horder.symm.trans horder')
      exact hstart.mp hlength
    · rintro ⟨-, hshort⟩
      refine ⟨r', p.res, _, hresult, fun hok => ?_⟩
      have hten : ptr = 10 := by
        by_contra hne
        rw [if_neg hne] at hok
        exact nomatch hok
      refine ⟨cpu, horder, hstart.mpr (hshort (congrArg Walk.to hten)), ?_⟩
      rw [hstack hsts (hptr.trans hten), hptr, hten]

/-- The record of a refused frame has the length of the old result, which is `Reset` for a request. -/
theorem recordFits_old (max : Nat) (answer : Bool) (old : RpcParserResult) :
    RecordFits max (if answer then old else {}).RpcStackLen_U32 ↔ (answer = true → RecordFits max old.RpcStackLen_U32) := by
  cases answer with
  | false => exact ⟨nofun, fun _ => .inl (Nat.zero_le _)⟩
  | true => exact ⟨fun h _ => h, fun h => h rfl⟩

/-- A buffer without the magic number. -/
theorem staysInBounds_of_none (hmax : 16 ≤ (r.parserStack answer).MaxStackSize_U32) (h16 : 16 ≤ buffer.length)
    (horder : frameOrder buffer = none) :
    StaysInBounds r answer buffer old ↔
      (answer = true → RecordFits (r.parserStack answer).MaxStackSize_U32 old.RpcStackLen_U32) := by
  let s := (((r.parserStack answer).copied (buffer.take 16)).setStackPointer 16).2
  have hsize : s.MaxStackSize_U32 = (r.parserStack answer).MaxStackSize_U32 := setStackPointer_maxStackSize _ _
  have hread : isRpcLittleEndian r.cpu s.mpStack_U8 = none := by
    rw [setStackPointer_mpStack]
    exact isRpcLittleEndian_none r.cpu _ (Nat.le_trans (by decide) h16) horder
  have hparse : r.parseRpcFrame answer buffer old =
      r.endFrame answer ⟨false, .einval, 0, 0, if answer then old else {}, s⟩ := by
    rw [parseRpcFrame, copyFrame_eq h16 hmax, Option.bind_eq_bind, Option.bind_some, parseMagicNumber, hread]
    rfl
  rw [staysInBounds_of_refused hparse rfl (by rintro ⟨⟩), hsize, recordFits_old]

/-- A length that is larger than the stack. -/
theorem staysInBounds_of_large (hmax : 16 ≤ (r.parserStack answer).MaxStackSize_U32) (h16 : 16 ≤ buffer.length)
    (horder : frameOrder buffer = some cpu)
    (hlarge : ¬declaredLength cpu buffer ≤ (r.parserStack answer).MaxStackSize_U32) :
    StaysInBounds r answer buffer old ↔
      (answer = true → RecordFits (r.parserStack answer).MaxStackSize_U32 old.RpcStackLen_U32) := by
  have hword := wordAt_lt cpu buffer
  have hparse := parseRpcFrame_start old (exists_header h16 horder) (hword 2) (hword 4)
    (hword 6) (hword 8) h16 hmax rfl
  have hlarge' : ¬wordAt cpu buffer 8 ≤ (r.parserStack answer).MaxStackSize_U32 := hlarge
  rw [if_neg hlarge', Option.bind_some] at hparse
  rw [staysInBounds_of_refused hparse rfl nofun, headerStack_maxStackSize]
  exact recordFits_old _ answer old

/-- The parser stays in its buffers, and accepts a frame only if it is consumed from its end down to the header, for
exactly these buffers. -/
theorem in_bounds_iff (r : BofRpc) (answer : Bool) (buffer : List UInt8) (old : RpcParserResult)
    (hmax : 16 ≤ (r.parserStack answer).MaxStackSize_U32) (hmax32 : (r.parserStack answer).MaxStackSize_U32 < 2 ^ 32)
    (hdecl : ∀ cpu, frameOrder buffer = some cpu → declaredLength cpu buffer ≤ buffer.length) :
    StaysInBounds r answer buffer old ↔ FrameInBounds r answer buffer old := by
  by_cases h16 : 16 ≤ buffer.length
  · unfold FrameInBounds
    rw [and_iff_right h16]
    cases horder : frameOrder buffer with
    | none => exact staysInBounds_of_none hmax h16 horder
    | some cpu =>
      by_cases hfits : declaredLength cpu buffer ≤ (r.parserStack answer).MaxStackSize_U32
      · simp only [if_pos hfits]
        exact staysInBounds_of_fits hmax hmax32 h16 horder (hdecl cpu horder) hfits
      · simp only [if_neg hfits]
        exact staysInBounds_of_large hmax h16 horder hfits
  · constructor
    · rintro ⟨r', res, err, hparse, -⟩
      exact absurd (parseRpcFrame_length_le hparse).1 h16
    · exact fun h => absurd h.1 h16

/-! ### An accepted request, and an array that is not in the frame -/

/-- A request for the function 1 of `twoFunctions`, with its arguments of 1 and 4 bytes. -/
def wordsRequest : List UInt8 := [0x48, 0x42, 0, 0, 244, 1, 7, 0, 19, 0, 200, 201, 0, 0, 0, 0, 0, 1, 0]

theorem frameOrder_of_eq {cpu₀ : CpuEndianness} (horder : frameOrder buffer = some cpu₀)
    (hlen : declaredLength cpu₀ buffer ≤ buffer.length) :
    ∀ cpu, frameOrder buffer = some cpu → declaredLength cpu buffer ≤ buffer.length := by
  intro cpu hcpu
  obtain rfl := Option.some.inj (horder.symm.trans hcpu)
  exact hlen

theorem in_bounds_words : StaysInBounds (twoFunctions .little false 64) false wordsRequest {} := by
  have horder : frameOrder wordsRequest = some .little := by decide
  have hlen : declaredLength .little wordsRequest = 19 := by decide
  have hwalk : (twoFunctions .little false 64).walkFrame false .little wordsRequest {} = .to 10 := by decide +kernel
  refine (in_bounds_iff (twoFunctions .little false 64) false wordsRequest {} (by decide) (by decide)
    (frameOrder_of_eq horder (by decide))).mpr ?_
  unfold FrameInBounds
  rw [horder]
  simp only [hlen, hwalk]
  exact ⟨by decide, nofun, by decide⟩

/-- A request for a function with an array, with 100 as the number and 1 as the size of the items, in 22 bytes. -/
def arrayRequest : List UInt8 := [0x48, 0x42, 0, 0, 244, 1, 7, 0, 22, 0, 1, 0, 0, 0, 100, 0, 0, 0, 0, 0, 1, 0]

/-- The items of the array are read behind the end of a stack of 32 bytes. -/
theorem not_in_bounds_array : 16 ≤ ((compositeFunctions 32).parserStack false).MaxStackSize_U32 ∧
    frameOrder arrayRequest = some .little ∧ declaredLength .little arrayRequest = arrayRequest.length ∧
      ¬StaysInBounds (compositeFunctions 32) false arrayRequest {} := by
  have horder : frameOrder arrayRequest = some .little := by decide
  have hwalk : (compositeFunctions 32).walkFrame false .little arrayRequest {} = .outside := by decide +kernel
  refine ⟨by decide, horder, by decide, ?_⟩
  rw [staysInBounds_of_fits (by decide) (by decide) (by decide) horder (by decide) (by decide), hwalk]
  exact fun h => h.1 rfl

end BofRpc

end BofStd
