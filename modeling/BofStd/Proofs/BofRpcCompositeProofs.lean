import BofStd.Proofs.BofRpcCompositeStackProofs

/-!
# `BofRpc`: which composite arguments are restored

An argument is restored on its own: an integer of 64 bits has no pop, the pop of an array takes off eight bytes where
the push has put four behind the items, and the pop of a string starts one byte above its end. So nothing but the empty
string in front of a zero is restored, and this is restored in every list of arguments.
-/

namespace BofStd

open BofStack Bytes

namespace BofRpc

variable {cpu : CpuEndianness} {s s' p p' : BofStack} {answer : Bool} {value : Values}

/-! ## An argument that is restored -/

/-- Two words of 16 bits read as one of 32 bits. -/
theorem load_two_words (cpu : CpuEndianness) {a b : Nat} (ha : a < 2 ^ 16) (hb : b < 2 ^ 16) :
    cpu.load (cpu.store 2 a ++ cpu.store 2 b) = match cpu with
      | .little => a + 65536 * b
      | .big => b + 65536 * a := by
  have hpair : ∀ x y : Nat, x < 2 ^ 16 → bytesLE 2 x ++ bytesLE 2 y = bytesLE 4 (x + 65536 * y) := by
    intro x y hx
    have hlow : bytesLE 2 (x + 65536 * y) = bytesLE 2 x := by
      rw [← bytesLE_mod 2 (x + 65536 * y)]
      congr 1
      omega
    have hhigh : (x + 65536 * y) / 256 ^ 2 = y := by omega
    rw [show 4 = 2 + 2 from rfl, bytesLE_add, hlow, hhigh]
  cases cpu with
  | little =>
    have hstore : CpuEndianness.little.store 2 a ++ CpuEndianness.little.store 2 b =
        CpuEndianness.little.store 4 (a + 65536 * b) := hpair a b ha
    rw [hstore, CpuEndianness.load_store _ (by omega)]
  | big =>
    have hstore : CpuEndianness.big.store 2 a ++ CpuEndianness.big.store 2 b =
        CpuEndianness.big.store 4 (b + 65536 * a) := by
      show (bytesLE 2 a).reverse ++ (bytesLE 2 b).reverse = (bytesLE 4 (b + 65536 * a)).reverse
      rw [← List.reverse_append, hpair b a hb]
    rw [hstore, CpuEndianness.load_store _ (by omega)]

/-- An array with the sizes that have been pushed does not leave the stack pointer where the push has found it. -/
theorem array_not_restored {array array₀ array' : RpcVarBinary} (hswap : s.SwapByte_B = false)
    (hmax : s.MaxStackSize_U32 < 2 ^ 32) (hitem : array.ItemSize_U32 < 2 ^ 16) (hnb : array.NbItem_U32 < 2 ^ 16)
    (hpush : pushArray cpu s array = some (true, s')) (hptr : p.stackPointer = s'.stackPointer)
    (hmem : ∀ j, s.stackPointer ≤ j → j < s'.stackPointer → p.mpStack_U8 j = s'.mpStack_U8 j)
    (hp : p.SwapByte_B = false) (hle : p.stackPointer < 2 ^ 32)
    (hpop : popArray cpu p array₀ = some (true, array', p')) (hback : p'.stackPointer = s.stackPointer) :
    ¬(array'.NbItem_U32 = array.NbItem_U32 ∧ array'.ItemSize_U32 = array.ItemSize_U32) := by
  rintro ⟨hnb', hitem'⟩
  obtain ⟨s₁, hs₁, hzero, rfl⟩ := pushArray_eq_true hswap hmax hpush
  obtain ⟨h8, hpopNb, hpopItem, sts, hadjust⟩ := popArray_eq_true hp hpop
  rw [Nat.mod_eq_of_lt hitem, Nat.mod_eq_of_lt hnb, List.flatMap_cons, List.flatMap_singleton] at hptr hmem
  have hlen : (cpu.store 2 array.ItemSize_U32 ++ cpu.store 2 array.NbItem_U32).length = 4 := by simp
  rw [pushed_stackPointer, hlen] at hptr hmem
  -- the number of the items is read from the two words, so the size of the items is zero
  have hwords : Memory.read p.mpStack_U8 (p.stackPointer - 4) 4 =
      cpu.store 2 array.ItemSize_U32 ++ cpu.store 2 array.NbItem_U32 := by
    have hread := Memory.read_write_self s₁.mpStack_U8 s₁.stackPointer
      (cpu.store 2 array.ItemSize_U32 ++ cpu.store 2 array.NbItem_U32)
    rw [hlen] at hread
    rw [hptr, Nat.add_sub_cancel, ← hread]
    refine Memory.read_congr fun j hj hlt => hmem j (hs₁.pointer.trans hj) hlt
  rw [hwords, load_two_words cpu hitem hnb, hnb'] at hpopNb
  have hnone : array.ItemSize_U32 = 0 := by
    cases cpu with
    | little => dsimp only at hpopNb; omega
    | big => dsimp only at hpopNb; omega
  -- so there are no items, and the pop takes off eight bytes
  rw [hitem', hnone, Nat.mul_zero] at hadjust
  have hstay : p' = p.withPointer (p.stackPointer - 8) := adjust_zero (r := (sts, p')) hadjust (by
    show p.stackPointer - 8 < 2 ^ 32
    omega)
  have hsame : s₁.stackPointer = s.stackPointer := hzero (by rw [hnone, Nat.mul_zero])
  have hlow : p'.stackPointer = p.stackPointer - 8 := by rw [hstay]; rfl
  omega

/-- A string that leaves the stack pointer where the push has found it: it is empty, and there is a zero behind it. -/
theorem string_restored {text txt : List UInt8} (hnul : 0 ∉ text) (hptr : p.stackPointer = (s.pushed (0 :: text.reverse)).stackPointer)
    (hmem : ∀ j, s.stackPointer ≤ j → j < p.stackPointer → p.mpStack_U8 j = (s.pushed (0 :: text.reverse)).mpStack_U8 j)
    (hpop : p.popTxt = some (true, txt, p')) (hback : p'.stackPointer = s.stackPointer) :
    text = [] ∧ p.mpStack_U8 p.stackPointer = 0 := by
  rw [pushed_stackPointer, List.length_cons] at hptr
  have hzero := popTxt_eq_true hpop (by omega)
  rw [hback] at hzero
  cases hrev : text.reverse with
  | nil =>
    refine ⟨List.reverse_eq_nil_iff.mp hrev, ?_⟩
    rw [hptr, hrev]
    exact hzero
  | cons c cs =>
    -- the last character of the string is where the zero has been read
    rw [hrev] at hptr hmem
    have hread := Memory.read_write_self s.mpStack_U8 s.stackPointer (0 :: c :: cs)
    rw [List.length_cons, List.length_cons, Memory.read_succ, Memory.read_succ] at hread
    have hc : (s.pushed (0 :: c :: cs)).mpStack_U8 (s.stackPointer + 1) = c := by
      simp only [List.cons.injEq] at hread
      exact hread.2.1
    have hsame := hmem (s.stackPointer + 1) (by omega) (by rw [List.length_cons] at hptr; omega)
    rw [hc, hzero] at hsame
    have hin : c ∈ text := List.mem_reverse.mp (hrev ▸ List.mem_cons_self)
    exact absurd (hsame ▸ hin) hnul

/-! ## Lists of arguments -/

theorem argsRestored_iff (args : List (UInt16 × Nat)) (tail : List UInt8) :
    ArgsRestored cpu answer value args tail ↔ ∀ before a after, args = before ++ a :: after →
      ArgRestored answer value a (after.flatMap (argBytes cpu answer value) ++ tail) := by
  induction args with
  | nil =>
    refine iff_of_true trivial ?_
    intro before a after h
    exact absurd h.symm (List.append_ne_nil_of_right_ne_nil _ (List.cons_ne_nil _ _))
  | cons a args ih =>
    rw [ArgsRestored, ih]
    constructor
    · rintro ⟨ha, hargs⟩ before a' after h
      cases before with
      | nil =>
        obtain ⟨rfl, rfl⟩ := List.cons.inj h
        exact ha
      | cons b before =>
        obtain ⟨-, rfl⟩ := List.cons.inj h
        exact hargs before a' after rfl
    · intro h
      exact ⟨h [] a args rfl, fun before a' after hargs => h (a :: before) a' after (by rw [hargs]; rfl)⟩

theorem argsRestored_append (args args' : List (UInt16 × Nat)) (tail : List UInt8) :
    ArgsRestored cpu answer value (args ++ args') tail ↔
      ArgsRestored cpu answer value args (args'.flatMap (argBytes cpu answer value) ++ tail) ∧
        ArgsRestored cpu answer value args' tail := by
  induction args with
  | nil => simp [ArgsRestored]
  | cons a args ih =>
    rw [List.cons_append, ArgsRestored, ArgsRestored, ih, List.flatMap_append, List.append_assoc, and_assoc]

/-- The builder has a value for what it sends, and the type is one of those that it knows. -/
def Pushable (answer : Bool) (value : Values) (a : UInt16 × Nat) : Prop :=
  varType a.1 ≠ .other ∧ (rpcParam answer a.1 = true → varType a.1 ≠ .void → (value a.2 (varType a.1)).isSome = true)

theorem pushable_of_pushVar {a : UInt16 × Nat}
    (h : pushVar cpu (varType a.1) (rpcParam answer a.1) (value a.2 (varType a.1)) s = some (true, s')) :
    Pushable answer value a := by
  constructor
  · intro hother
    rw [hother] at h
    exact nomatch h
  · intro hsent hvoid
    rw [hsent] at h
    cases hv : value a.2 (varType a.1) with
    | some v => rfl
    | none =>
      rw [hv] at h
      generalize varType a.1 = ty at h hvoid
      cases ty with
      | void => exact absurd rfl hvoid
      | _ => exact nomatch h

theorem pushable_of_pushVars {args : List (UInt16 × Nat)}
    (h : pushVars cpu answer value args true s = some (true, s')) : ∀ a ∈ args, Pushable answer value a := by
  induction args generalizing s with
  | nil => exact fun _ => nofun
  | cons a args ih =>
    obtain ⟨s₂, hpush, hrest⟩ := pushVars_cons h
    exact List.forall_mem_cons.mpr ⟨pushable_of_pushVar hpush, ih hrest⟩

/-! ## What is restored -/

/-- The empty string in `VALUE`. -/
theorem value_char_empty (cpu : CpuEndianness) (v : RpcVar) :
    ({ v with VALUE := Memory.write v.VALUE 0 [0] } : RpcVar).Holds cpu .char { text := [] } := by
  have hfirst : Memory.read (Memory.write v.VALUE 0 [0]) 0 rpcMaxStringSize =
      0 :: Memory.read (Memory.write v.VALUE 0 [0]) 1 255 := Memory.read_succ _ _ _
  simp [RpcVar.Holds, RpcVar.value, hfirst]

/-- The content below a stack pointer in front of the last bytes. -/
theorem content_of_read {l tail : List UInt8} {n : Nat} (hmem : Memory.read p.mpStack_U8 0 n = l ++ tail)
    (hptr : p.stackPointer = l.length) : p.content = l := by
  have hle : p.stackPointer ≤ n := by
    have hlen := congrArg List.length hmem
    rw [Memory.length_read, List.length_append] at hlen
    omega
  have htake := congrArg (List.take p.stackPointer) hmem
  rwa [Memory.take_read _ _ hle, List.take_left' hptr.symm] at htake

/-- The byte at the stack pointer. -/
theorem cell_of_read {l tail : List UInt8} {n : Nat} (hmem : Memory.read p.mpStack_U8 0 n = l ++ tail)
    (hptr : p.stackPointer = l.length) (hne : tail ≠ []) : tail.head? = some (p.mpStack_U8 p.stackPointer) := by
  have hlen := congrArg List.length hmem
  rw [Memory.length_read, List.length_append] at hlen
  have hpos := List.length_pos_iff.mpr hne
  have hcell := congrArg (fun l => l[p.stackPointer]?) hmem
  have hlt : p.stackPointer < n := by omega
  simp only [Memory.read, List.getElem?_map, List.getElem?_range hlt, Option.map_some, Nat.zero_add] at hcell
  rw [List.getElem?_append_right hptr.ge, hptr, Nat.sub_self, ← List.head?_eq_getElem?] at hcell
  rw [hptr]
  exact hcell.symm

/-- The pop of a string that is restored. -/
theorem popString_restored {l tail : List UInt8} {n : Nat} (v : RpcVar)
    (hmem : Memory.read p.mpStack_U8 0 n = l ++ [0] ++ tail) (hhead : tail.head? = some 0)
    (hptr : p.stackPointer = (l ++ [0]).length) (hlt : p.stackPointer < p.MaxStackSize_U32) :
    popVar cpu .char true v p =
      some (true, { v with VALUE := Memory.write v.VALUE 0 [0] }, p.withPointer l.length) := by
  have hne : tail ≠ [] := by
    rintro rfl
    exact nomatch hhead
  have hcell := cell_of_read hmem hptr hne
  rw [hhead] at hcell
  rw [List.length_append, List.length_singleton] at hptr
  have hpop := popTxt_of_zero (s := p) (by omega) hlt (Option.some.inj hcell).symm
  rw [show p.stackPointer - 1 = l.length by omega] at hpop
  have hshort : ([0] : List UInt8).length ≤ rpcMaxStringSize := by decide
  simp only [popVar, if_true, hpop, Option.bind_eq_bind, Option.bind_some, if_pos hshort]
  rfl

/-- The pop of an argument that is restored. -/
theorem popVar_restored {a : UInt16 × Nat} {l tail : List UInt8} {n : Nat} (v : RpcVar)
    (ha : ArgRestored answer value a tail) (hpushable : Pushable answer value a)
    (hmem : Memory.read p.mpStack_U8 0 n = l ++ argBytes cpu answer value a ++ tail)
    (hptr : p.stackPointer = (l ++ argBytes cpu answer value a).length) (hlt : p.stackPointer < p.MaxStackSize_U32)
    (hswap : p.SwapByte_B = false) :
    ∃ v', popVar cpu (varType a.1) (rpcParam answer a.1) v p = some (true, v', p.withPointer l.length) ∧
      ∀ val, rpcParam answer a.1 = true → value a.2 (varType a.1) = some val → v'.Holds cpu (varType a.1) val := by
  have hcontent := content_of_read hmem hptr
  unfold Pushable at hpushable
  unfold ArgRestored at ha
  unfold argBytes at hcontent hmem hptr
  generalize varType a.1 = ty at ha hpushable hcontent hmem hptr ⊢
  cases hsent : rpcParam answer a.1 with
  | false =>
    rw [hsent, if_neg Bool.false_ne_true, List.append_nil] at hcontent
    rw [withPointer_of_content hcontent]
    refine ⟨v, ?_, fun _ => by rintro ⟨⟩⟩
    cases ty with
    | u64 | s64 => exact ha.elim
    | other => exact absurd rfl hpushable.1
    | _ => rfl
  | true =>
    rw [hsent, if_pos rfl] at hcontent hmem hptr
    rw [hsent] at ha hpushable
    -- the words
    have hword : ∀ {w : Nat} {val : RpcValue}, p.content = l ++ cpu.store w (val.word % 256 ^ w) →
        popScalar cpu w v p = some (true, v.setWord cpu w (val.word % 256 ^ w), p.withPointer l.length) := by
      intro w val hbytes
      have hmod : val.word % 256 ^ w < 256 ^ w := Nat.mod_lt _ (Nat.pow_pos (by decide))
      have hpop := popWord_of_content hbytes hmod (Nat.le_of_lt hlt)
        (hswap.trans (decide_eq_false (not_not_intro rfl)).symm)
      rw [popScalar, hpop]
      rfl
    cases ty with
    | u64 | s64 => exact ha.elim
    | other => exact absurd rfl hpushable.1
    | array => cases ha
    | void =>
      have hnone : p.content = l := by
        rw [hcontent]
        cases value a.2 .void with
        | none => exact List.append_nil l
        | some val =>
          have hzero : cpu.store 0 (val.word % 256 ^ 0) = [] := List.eq_nil_of_length_eq_zero (cpu.length_store 0 _)
          exact (congrArg (l ++ ·) hzero).trans (List.append_nil l)
      rw [withPointer_of_content hnone]
      exact ⟨v, rfl, fun _ _ _ => trivial⟩
    | char =>
      obtain ⟨hempty, hhead⟩ := ha rfl
      obtain ⟨val, hval, htext⟩ := Option.map_eq_some_iff.mp hempty
      rw [hval] at hmem hptr
      dsimp only at hmem hptr
      rw [if_pos rfl, htext] at hmem hptr
      refine ⟨_, popString_restored v hmem hhead hptr hlt, ?_⟩
      intro val' _ hval'
      obtain rfl := Option.some.inj (hval.symm.trans hval')
      have hholds := value_char_empty cpu v
      unfold RpcVar.Holds at hholds ⊢
      rw [htext]
      exact hholds
    | u8 | s8 | u16 | s16 | u32 | s32 | float | double =>
      obtain ⟨val, hval⟩ := Option.isSome_iff_exists.mp (hpushable.2 rfl (by rintro ⟨⟩))
      rw [hval] at hcontent
      exact ⟨_, hword hcontent, fun _ _ _ => trivial⟩

/-- The arguments behind the bytes `l`, from the last one on. -/
theorem popVars_restored {args : List (UInt16 × Nat)} {l tail : List UInt8} {n : Nat} (vars : Nat → RpcVar)
    (hargs : ArgsRestored cpu answer value args.reverse tail) (hpushable : ∀ a ∈ args, Pushable answer value a)
    (hnodup : (args.map Prod.snd).Nodup)
    (hmem : Memory.read p.mpStack_U8 0 n = l ++ args.reverse.flatMap (argBytes cpu answer value) ++ tail)
    (hptr : p.stackPointer = (l ++ args.reverse.flatMap (argBytes cpu answer value)).length)
    (hlt : p.stackPointer < p.MaxStackSize_U32) (hswap : p.SwapByte_B = false) :
    ∃ vars', popVars cpu answer args vars p = some (true, vars', p.withPointer l.length) ∧
      ∀ a ∈ args, ∀ val, rpcParam answer a.1 = true → value a.2 (varType a.1) = some val →
        (vars' a.2).Holds cpu (varType a.1) val := by
  induction args generalizing p vars tail with
  | nil =>
    rw [List.reverse_nil, List.flatMap_nil, List.append_nil] at hmem hptr
    refine ⟨vars, ?_, fun _ => nofun⟩
    rw [withPointer_of_content (content_of_read hmem hptr)]
    rfl
  | cons a args ih =>
    rw [List.forall_mem_cons] at hpushable
    rw [List.map_cons, List.nodup_cons] at hnodup
    rw [List.reverse_cons, argsRestored_append] at hargs
    obtain ⟨hargs, ha, -⟩ := hargs
    rw [List.flatMap_nil, List.nil_append] at ha
    rw [List.reverse_cons, List.flatMap_append, List.flatMap_singleton, ← List.append_assoc] at hmem hptr
    rw [List.flatMap_singleton] at hargs
    obtain ⟨v', hpop, hholds⟩ := popVar_restored { vars a.2 with Arg_U16 := a.1, Type_E := varType a.1 } ha hpushable.1
      hmem hptr hlt hswap
    have hbelow : (l ++ args.reverse.flatMap (argBytes cpu answer value)).length < p.MaxStackSize_U32 := by
      rw [List.length_append] at hptr
      omega
    rw [List.append_assoc] at hmem
    obtain ⟨vars', hrest, hall⟩ :=
      ih (p := p.withPointer (l ++ args.reverse.flatMap (argBytes cpu answer value)).length)
        (Function.update vars a.2 v') hargs hpushable.2 hnodup.2 hmem rfl hbelow hswap
    refine ⟨vars', ?_, ?_⟩
    · rw [popVars, hpop]
      exact hrest
    · rw [List.forall_mem_cons]
      refine ⟨?_, hall⟩
      intro val hsent hval
      rw [popVars_other hrest hnodup.1, Function.update_self]
      exact hholds val hsent hval

end BofRpc

end BofStd
