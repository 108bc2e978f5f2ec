import BofStd.Proofs.BofRpcProofs
import BofStd.Proofs.BofRpcRejectProofs

/-!
# `BofRpc`: the checksum

The sum of the bytes of a frame is below `65536`, because a function has at most 16 arguments: an intact frame passes
the test (`checkFlag_of_layout`). What does not pass it is an error, unless the tag is tested, whose result is written
over that of the checksum, or the stack pointer cannot be set to the end of the frame.
-/

namespace BofStd

open BofStack

/-! ## Intact frames -/

theorem RpcVarType.width_le (ty : RpcVarType) : ty.width ≤ 8 := by
  cases ty <;> decide

theorem RpcFunction.sentWidth_le (f : RpcFunction) (answer : Bool) : f.sentWidth answer ≤ 128 := by
  have hsum : ∀ args : List UInt16, (args.map (BofRpc.varWidth answer)).sum ≤ 8 * args.length := by
    intro args
    induction args with
    | nil => exact Nat.le_refl _
    | cons arg args ih =>
      have hwidth : BofRpc.varWidth answer arg ≤ 8 := by
        unfold BofRpc.varWidth
        split
        · exact (BofRpc.varType arg).width_le
        · exact Nat.zero_le _
      rw [List.map_cons, List.sum_cons, List.length_cons]
      omega
  have hlength := f.length_le
  have hargs := hsum f.pArg_U16
  unfold sentWidth
  omega

namespace BofRpc

variable {cpu : CpuEndianness} {r r' : BofRpc} {answer : Bool} {word : UInt16 × Nat → Nat} {buffer : List UInt8}
  {old : RpcParserResult} {s s' : BofStack} {rpcRts fctId timeOut tag : Nat}
  {value : Nat → RpcVarType → Option RpcValue}

theorem sum_toNat_le (bytes : List UInt8) : (bytes.map UInt8.toNat).sum ≤ 255 * bytes.length := by
  induction bytes with
  | nil => exact Nat.le_refl _
  | cons b bytes ih =>
    have hb := b.toNat_lt
    rw [List.map_cons, List.sum_cons, List.length_cons]
    omega

/-- The checksum of a frame fits into its word. -/
theorem checksum_lt {bytes : List UInt8} (h : bytes.length ≤ 142) : checksum bytes < 2 ^ 16 := by
  have hsum := sum_toNat_le bytes
  unfold checksum
  omega

/-- The test of the checksum, for the sum of what is in front of it. -/
theorem checkFlag_of_layout {bytes : List UInt8}
    (h : s.content = bytes ++ cpu.store 2 (checksum bytes)) (hlt : checksum bytes < 2 ^ 16)
    (hle : s.stackPointer ≤ s.MaxStackSize_U32) (hswap : s.SwapByte_B = decide (cpu ≠ r.cpu)) :
    checkFlag r.cpu flagUseChecksum s = some (true, .invalidChecksum, s.withPointer bytes.length) := by
  have hpop := popWord_of_content h hlt hle hswap
  have hcontent := content_withPointer h
  have hle' := length_le_of_content h hle
  have hread : (s.withPointer bytes.length).read 0 bytes.length = some bytes := by
    rw [BofStack.read, if_pos (by rw [Nat.zero_add]; exact hle')]
    exact congrArg some hcontent
  have hflag : flagUseChecksum &&& flagUseChecksum ≠ 0 := by decide
  rw [checkFlag, if_pos hflag, checkChecksum, popU16, hpop, Option.bind_eq_bind, Option.bind_some]
  show ((s.withPointer bytes.length).read 0 bytes.length >>= fun l =>
    pure (decide (checksum l = checksum bytes), BofErr.invalidChecksum, s.withPointer bytes.length)) = _
  rw [hread, Option.bind_eq_bind, Option.bind_some, decide_eq_true rfl]
  rfl

/-- The frame that a builder has built. -/
theorem frame_checksum_layout {s₁ : BofStack} {len : Option Nat} (hon : r.UseChecksum_B = true)
    (hval : Supplies answer value word (r.pRpcFct_X fctId))
    (hpay : r.pushPayload answer value rpcRts fctId s = some (true, s₁))
    (hclose : r.closeFrame timeOut tag s₁ = some (len, .noError, s')) :
    ∃ n, len = some n ∧ (¬RoomForChecksum s.MaxStackSize_U32 answer (r.pRpcFct_X fctId) → n ≤ 12) ∧
      (RoomForChecksum s.MaxStackSize_U32 answer (r.pRpcFct_X fctId) → ∃ bytes,
        bytes = header r.cpu flagUseChecksum timeOut tag (n % 2 ^ 16) ++
          payload r.cpu answer word (r.pRpcFct_X fctId) (rpcRts % 2 ^ 16) (fctId % 2 ^ 16) ∧
        n = bytes.length + 2 ∧ 14 ≤ bytes.length ∧ checksum bytes < 2 ^ 16 ∧
        Memory.read s'.mpStack_U8 0 n = bytes ++ r.cpu.store 2 (checksum bytes)) := by
  obtain ⟨n, rfl, hsmall, hframe⟩ := frame_checksum_eq hon hval hpay hclose rfl
  have hlength := length_payload r.cpu answer word (r.pRpcFct_X fctId) (rpcRts % 2 ^ 16) (fctId % 2 ^ 16)
  refine ⟨n, rfl, fun hroom => hsmall ?_, fun hroom => ?_⟩
  · unfold RoomForChecksum at hroom
    omega
  · obtain ⟨h10, hfull⟩ := hroom
    obtain ⟨hn, hread⟩ := hframe h10 (by omega)
    have hwidth := (r.pRpcFct_X fctId).sentWidth_le answer
    have hbytes : (header r.cpu flagUseChecksum timeOut tag (n % 2 ^ 16) ++
        payload r.cpu answer word (r.pRpcFct_X fctId) (rpcRts % 2 ^ 16) (fctId % 2 ^ 16)).length =
        14 + (r.pRpcFct_X fctId).sentWidth answer := by
      rw [List.length_append, length_header]
      omega
    have hlt : checksum (header r.cpu flagUseChecksum timeOut tag (n % 2 ^ 16) ++
        payload r.cpu answer word (r.pRpcFct_X fctId) (rpcRts % 2 ^ 16) (fctId % 2 ^ 16)) < 2 ^ 16 :=
      checksum_lt (by omega)
    refine ⟨_, rfl, by omega, by omega, hlt, ?_⟩
    rw [hread, Nat.mod_eq_of_lt hlt, List.append_assoc]

/-- The parser accepts a frame with the layout, whatever is behind it. -/
theorem parse_checksum_layout (answer : Bool) (old : RpcParserResult) {frame bytes : List UInt8} (rest : List UInt8)
    (htable : r'.pRpcFct_X = r.pRpcFct_X)
    (hbytes : bytes = header r.cpu flagUseChecksum timeOut tag frame.length ++
      payload r.cpu answer word (r.pRpcFct_X fctId) rpcRts fctId)
    (hframe : frame = bytes ++ r.cpu.store 2 (checksum bytes)) (hsum : checksum bytes < 2 ^ 16)
    (hscalar : (r.pRpcFct_X fctId).IsScalar) (hfct : fctId < maxFct) (hrts : rpcRts < 2 ^ 16)
    (htime : timeOut < 2 ^ 16) (htag : tag < 2 ^ 16) (hlen : frame.length < 2 ^ 16)
    (h16 : 16 ≤ (frame ++ rest).length) (hmax : 16 ≤ (r'.parserStack answer).MaxStackSize_U32)
    (hfits : frame.length < (r'.parserStack answer).MaxStackSize_U32)
    (hexpected : answer = true → old.RpcTag_U16 = 0 ∨ old.RpcTag_U16 = tag) :
    r'.Accepts answer (frame ++ rest) old := by
  rw [← htable] at hbytes hscalar
  have hcheck : ∀ s : BofStack, s.content = frame → s.stackPointer ≤ s.MaxStackSize_U32 →
      s.SwapByte_B = decide (r.cpu ≠ r'.cpu) → ∃ err, checkFlag r'.cpu flagUseChecksum s =
        some (true, err, s.withPointer (10 + (payload r.cpu answer word (r'.pRpcFct_X fctId) rpcRts fctId).length)) := by
    intro s hcontent hle hswap
    have hlength := congrArg List.length hbytes
    rw [List.length_append, length_header] at hlength
    rw [← hlength]
    exact ⟨_, checkFlag_of_layout (hcontent.trans hframe) hsum hle hswap⟩
  obtain ⟨r'', res, hparse, -⟩ := parseRpcFrame_of_layout rfl (hframe.trans (congrArg (· ++ _) hbytes)) hcheck hscalar hfct
    hrts (by decide) htime htag hlen h16 hmax hfits hexpected
  exact ⟨r'', res, hparse⟩

/-! ## Damaged frames -/

variable {flag len : Nat} {body : List UInt8}

theorem wordAt_lt (cpu : CpuEndianness) (buffer : List UInt8) (i : Nat) : wordAt cpu buffer i < 2 ^ 16 := by
  have hlt := cpu.load_lt ((buffer.drop i).take 2)
  have hlen : ((buffer.drop i).take 2).length ≤ 2 := List.length_take_le ..
  exact Nat.lt_of_lt_of_le hlt (Nat.pow_le_pow_right (by decide) hlen)

/-- The sum in 32 bits is the stored word only if it is so modulo `65536`. -/
theorem checksum_ne_of_sumDiffers (h : SumDiffers cpu buffer len) :
    checksum (buffer.take (len - 2)) ≠ wordAt cpu buffer (len - 2) := by
  intro heq
  have hlt := wordAt_lt cpu buffer (len - 2)
  refine h ?_
  unfold checksum at heq
  omega

/-! ## Intact frames -/

theorem request_accepted_iff {cmdTag sentTag : Nat} {va : Nat → RpcValue} {req req' : RpcParserResult} {built : BofRpc}
    (htable : r'.pRpcFct_X = r.pRpcFct_X) (hon : r.UseChecksum_B = true) (old : RpcParserResult)
    (hbuild : r.buildRpcRequest cmdTag va req = some (built, sentTag, req', .noError))
    (hscalar : (r.pRpcFct_X req.FctId_U32).IsScalar) (hlen : req'.RpcStackLen_U32 < 2 ^ 16)
    (hfits : req'.RpcStackLen_U32 < r'.mpRpcReqStack_O.MaxStackSize_U32) :
    r'.Accepts false (requestFrame built req') old ↔
      RoomForChecksum r.mpRpcReqStack_O.MaxStackSize_U32 false (r.pRpcFct_X req.FctId_U32) := by
  obtain ⟨hfct, s₁, len, hpay, hclose, htag, hlen'⟩ := buildRpcRequest_noError hbuild
  obtain ⟨n, rfl, hsmall, hlayout⟩ := frame_checksum_layout hon (supplies_request va hscalar) hpay hclose
  obtain rfl : req'.RpcStackLen_U32 = n := hlen'
  have hlength : (requestFrame built req').length = req'.RpcStackLen_U32 := Memory.length_read ..
  constructor
  · rintro ⟨r'', res, hparse⟩
    have h16 := (parseRpcFrame_length_le hparse).1
    by_contra hnot
    have hn := hsmall hnot
    omega
  · intro hroom
    obtain ⟨bytes, hbytes, hn, h14, hsum, hread⟩ := hlayout hroom
    have hid : req.FctId_U32 % 2 ^ 16 = req.FctId_U32 := Nat.mod_eq_of_lt (Nat.lt_trans hfct (by decide))
    rw [Nat.mod_eq_of_lt hlen, hid, ← hlength] at hbytes
    have h16 : 16 ≤ r'.mpRpcReqStack_O.MaxStackSize_U32 := by omega
    have haccepts := parse_checksum_layout false old [] htable hbytes hread hsum hscalar hfct (by decide)
      (Nat.mod_lt _ (by decide)) htag (hlength ▸ hlen) (by rw [List.append_nil]; omega) h16 (hlength ▸ hfits) nofun
    rw [List.append_nil] at haccepts
    exact haccepts

theorem Rejects.not_accepts (h : r.Rejects answer buffer old) : ¬r.Accepts answer buffer old := by
  obtain ⟨r₁, res₁, err, hparse, hne⟩ := h
  rintro ⟨r₂, res₂, hparse'⟩
  obtain ⟨-, h⟩ := Prod.mk.inj (Option.some.inj (hparse.symm.trans hparse'))
  exact hne (Prod.mk.inj h).2

theorem answer_accepted_iff {res res' : RpcParserResult} {built : BofRpc} (htable : r'.pRpcFct_X = r.pRpcFct_X)
    (hon : r.UseChecksum_B = true) (old : RpcParserResult)
    (hbuild : r.buildRpcAnswer res = some (built, res', .noError)) (hscalar : (r.pRpcFct_X res.FctId_U32).IsScalar)
    (htag : res.RpcTag_U16 < 2 ^ 16) (hlen : res'.RpcStackLen_U32 < 2 ^ 16)
    (hfits : res'.RpcStackLen_U32 < r'.mpRpcAnsStack_O.MaxStackSize_U32) :
    r'.Accepts true (answerFrame built res') old ↔
      RoomForChecksum r.mpRpcAnsStack_O.MaxStackSize_U32 true (r.pRpcFct_X res.FctId_U32) ∧
        (old.RpcTag_U16 = 0 ∨ old.RpcTag_U16 = res.RpcTag_U16) := by
  obtain ⟨hfct, s₁, len, hpay, hclose, hlen'⟩ := buildRpcAnswer_noError hbuild
  obtain ⟨n, rfl, hsmall, hlayout⟩ := frame_checksum_layout hon (supplies_answer res hscalar) hpay hclose
  obtain rfl : res'.RpcStackLen_U32 = n := hlen'
  have hlength : (answerFrame built res').length = res'.RpcStackLen_U32 := Memory.length_read ..
  have hid : res.FctId_U32 % 2 ^ 16 = res.FctId_U32 := Nat.mod_eq_of_lt (Nat.lt_trans hfct (by decide))
  constructor
  · intro haccepts
    have ⟨r'', res'', hparse⟩ := haccepts
    have h16 := (parseRpcFrame_length_le hparse).1
    have hroom : RoomForChecksum r.mpRpcAnsStack_O.MaxStackSize_U32 true (r.pRpcFct_X res.FctId_U32) := by
      by_contra hnot
      have hn := hsmall hnot
      omega
    refine ⟨hroom, ?_⟩
    by_contra hexpected
    rw [not_or] at hexpected
    -- a frame with another tag is an error
    obtain ⟨bytes, hbytes, hn, h14, hsum, hread⟩ := hlayout hroom
    rw [hbytes, Nat.mod_eq_of_lt hlen, List.append_assoc] at hread
    have hmax : 16 ≤ r'.mpRpcAnsStack_O.MaxStackSize_U32 := by omega
    have hrejects : r'.Rejects true (answerFrame built res') old :=
      rejects_of_not_tested old hread (by decide) (by decide) htag hlen (by decide) h16 hmax hfits
        (Nat.le_of_eq hlength.symm) (by
          rw [Tested, if_pos ⟨rfl, hexpected.1⟩]
          exact fun h => hexpected.2 h.symm)
    exact hrejects.not_accepts haccepts
  · rintro ⟨hroom, hexpected⟩
    obtain ⟨bytes, hbytes, hn, h14, hsum, hread⟩ := hlayout hroom
    rw [Nat.mod_eq_of_lt hlen, hid, ← hlength] at hbytes
    have h16 : 16 ≤ r'.mpRpcAnsStack_O.MaxStackSize_U32 := by omega
    have haccepts := parse_checksum_layout true old [] htable hbytes hread hsum hscalar hfct (Nat.mod_lt _ (by decide))
      (by decide) htag (hlength ▸ hlen) (by rw [List.append_nil]; omega) h16 (hlength ▸ hfits) fun _ => hexpected
    rw [List.append_nil] at haccepts
    exact haccepts

end BofRpc

end BofStd
