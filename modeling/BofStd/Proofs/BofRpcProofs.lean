import BofStd.Proofs.BofRpcBuildProofs
import BofStd.Proofs.BofRpcParseProofs

/-!
# `BofRpc`: what is built is what is parsed

The builder and the parser agree on the layout, so a frame restores what it was built from. What they do not agree on
are the sizes: the parser starts with a copy of 16 bytes, where the header has 10 and the shortest frame 14, and the
stack pointer cannot be set behind the header of a stack that has no room for more.
-/

namespace BofStd

open BofStack

namespace BofRpc

variable {r r' : BofRpc} {answer : Bool} {word : UInt16 × Nat → Nat} {buffer : List UInt8} {old : RpcParserResult}
  {s s' : BofStack} {rpcRts fctId timeOut tag : Nat} {value : Nat → RpcVarType → Option RpcValue}

/-! ## Lengths -/

theorem length_payload (cpu : CpuEndianness) (answer : Bool) (word : UInt16 × Nat → Nat) (f : RpcFunction)
    (rpcRts fctId : Nat) : (payload cpu answer word f rpcRts fctId).length = f.sentWidth answer + 4 := by
  have hargs : (f.pArg_U16.zipIdx.flatMap (varBytes cpu answer word)).length = f.sentWidth answer := by
    have hlen : ∀ a, (varBytes cpu answer word a).length = (varWidth answer ∘ Prod.fst) a :=
      fun a => cpu.length_store _ _
    rw [List.length_flatMap, funext hlen, ← List.map_map, List.zipIdx_map_fst]
    rfl
  rw [payload, List.length_append, hargs, List.flatMap_cons, List.flatMap_singleton, List.length_append,
    CpuEndianness.length_store, CpuEndianness.length_store]

theorem copyFrame_isSome {n : Nat} (h : copyFrame s buffer n = some s') :
    n ≤ buffer.length ∧ n ≤ s.MaxStackSize_U32 := by
  unfold copyFrame at h
  split at h
  · next hn =>
    unfold BofStack.write at h
    split at h
    · next hmax =>
      rw [List.length_take_of_le hn, Nat.zero_add] at hmax
      exact ⟨hn, hmax⟩
    · exact nomatch h
  · exact nomatch h

/-- The parser copies 16 bytes. -/
theorem parseRpcFrame_length_le {result : BofRpc × RpcParserResult × BofErr}
    (h : r.parseRpcFrame answer buffer old = some result) :
    16 ≤ buffer.length ∧ 16 ≤ (r.parserStack answer).MaxStackSize_U32 := by
  obtain ⟨s, hcopy, -⟩ := Option.bind_eq_some_iff.mp h
  exact copyFrame_isSome hcopy

/-! ## Frames without checksum -/

/-- The frame that a builder has built. -/
theorem frame_layout {s₁ : BofStack} {len : Option Nat} (hoff : r.UseChecksum_B = false)
    (hval : Supplies answer value word (r.pRpcFct_X fctId))
    (hpay : r.pushPayload answer value rpcRts fctId s = some (true, s₁))
    (hclose : r.closeFrame timeOut tag s₁ = some (len, .noError, s')) :
    ∃ n, len = some n ∧ (s.MaxStackSize_U32 ≤ 10 → n ≤ 10) ∧ (10 < s.MaxStackSize_U32 →
      n = 14 + (r.pRpcFct_X fctId).sentWidth answer ∧ Memory.read s'.mpStack_U8 0 n =
        header r.cpu 0 timeOut tag (n % 2 ^ 16) ++
          payload r.cpu answer word (r.pRpcFct_X fctId) (rpcRts % 2 ^ 16) (fctId % 2 ^ 16)) := by
  obtain ⟨n, hlen, hsmall, hframe⟩ := frame_eq hoff hval hpay hclose
  refine ⟨n, hlen, hsmall, fun h10 => ⟨?_, hframe h10⟩⟩
  have hlength := congrArg List.length (hframe h10)
  rw [Memory.length_read, List.length_append, length_header, length_payload] at hlength
  omega

theorem checkFlag_off (cpu : CpuEndianness) (s : BofStack) : checkFlag cpu 0 s = some (true, .tooBig, s) := if_neg nofun

/-- The parser restores what is in a frame with the layout, whatever is behind it. -/
theorem parse_frame_layout (answer : Bool) (old : RpcParserResult) {frame : List UInt8} (rest : List UInt8) (htable : r'.pRpcFct_X = r.pRpcFct_X)
    (hframe : frame = header r.cpu 0 timeOut tag frame.length ++
      payload r.cpu answer word (r.pRpcFct_X fctId) rpcRts fctId)
    (hscalar : (r.pRpcFct_X fctId).IsScalar) (hfct : fctId < maxFct) (hrts : rpcRts < 2 ^ 16)
    (htime : timeOut < 2 ^ 16) (htag : tag < 2 ^ 16) (hlen : frame.length < 2 ^ 16)
    (h16 : 16 ≤ (frame ++ rest).length) (hmax : 16 ≤ (r'.parserStack answer).MaxStackSize_U32)
    (hfits : frame.length < (r'.parserStack answer).MaxStackSize_U32)
    (hexpected : answer = true → old.RpcTag_U16 = 0 ∨ old.RpcTag_U16 = tag) :
    ∃ r'' res, r'.parseRpcFrame answer (frame ++ rest) old = some (r'', res, .noError) ∧ res.FctId_U32 = fctId ∧
      res.RpcTag_U16 = tag ∧ res.TimeOut_U32 = timeOut ∧ res.RpcRts_U32 = rpcRts ∧
      ∀ a ∈ (r.pRpcFct_X fctId).pArg_U16.zipIdx, rpcParam answer a.1 = true →
        (res.pRpcVar_X a.2).word r'.cpu (varType a.1).width = word a % 256 ^ (varType a.1).width := by
  rw [← htable] at hframe hscalar ⊢
  have hcheck : ∀ s : BofStack, s.content = frame → s.stackPointer ≤ s.MaxStackSize_U32 →
      s.SwapByte_B = decide (r.cpu ≠ r'.cpu) → ∃ err, checkFlag r'.cpu 0 s =
        some (true, err, s.withPointer (10 + (payload r.cpu answer word (r'.pRpcFct_X fctId) rpcRts fctId).length)) := by
    intro s hcontent _ _
    have hlength := congrArg List.length hframe
    rw [List.length_append, length_header] at hlength
    rw [← hlength, withPointer_of_content hcontent]
    exact ⟨_, checkFlag_off ..⟩
  exact parseRpcFrame_of_layout rfl (hframe.trans (List.append_nil _).symm) hcheck hscalar hfct hrts (by decide) htime
    htag hlen h16 hmax hfits hexpected

/-! ## What the builders supply -/

theorem supplies_request (va : Nat → RpcValue) (h : (r.pRpcFct_X fctId).IsScalar) :
    Supplies false (fun i _ => some (va i)) (fun a => (va a.2).word) (r.pRpcFct_X fctId) :=
  fun a ha => ⟨h a.1 (List.fst_mem_of_mem_zipIdx ha), va a.2, rfl, rfl⟩

theorem value_of_isScalar (cpu : CpuEndianness) (v : RpcVar) {ty : RpcVarType} (h : ty.isScalar = true) :
    v.value cpu ty = some { word := v.word cpu ty.width } := by
  cases ty <;> first | rfl | exact nomatch h

theorem supplies_answer (res : RpcParserResult) (h : (r.pRpcFct_X fctId).IsScalar) :
    Supplies true (fun i ty => (res.pRpcVar_X i).value r.cpu ty)
      (fun a => (res.pRpcVar_X a.2).word r.cpu (varType a.1).width) (r.pRpcFct_X fctId) :=
  fun a ha =>
    have hty := h a.1 (List.fst_mem_of_mem_zipIdx ha)
    ⟨hty, _, value_of_isScalar r.cpu (res.pRpcVar_X a.2) hty, rfl⟩

theorem nextCmdTag_lt (cmdTag : Nat) : nextCmdTag cmdTag < 2 ^ 16 := by
  unfold nextCmdTag
  split
  · decide
  · exact Nat.mod_lt _ (by decide)

/-- What `BuildRpcRequest` has done when it returns no error. -/
theorem buildRpcRequest_noError {cmdTag sentTag : Nat} {va : Nat → RpcValue} {req req' : RpcParserResult}
    {built : BofRpc} (h : r.buildRpcRequest cmdTag va req = some (built, sentTag, req', .noError)) :
    req.FctId_U32 < maxFct ∧ ∃ s₁ len, r.pushPayload false (fun i _ => some (va i)) 0 req.FctId_U32 r.mpRpcReqStack_O =
        some (true, s₁) ∧
      r.closeFrame (req.TimeOut_U32 % 2 ^ 16) sentTag s₁ = some (len, .noError, built.mpRpcReqStack_O) ∧
      sentTag < 2 ^ 16 ∧ req'.RpcStackLen_U32 = len.getD req.RpcStackLen_U32 := by
  unfold buildRpcRequest at h
  split at h
  · next hfct =>
    obtain ⟨⟨sts, s₁⟩, hpay, hrest⟩ := Option.bind_eq_some_iff.mp h
    cases sts with
    | false => exact nomatch hrest
    | true =>
      obtain ⟨⟨len, err, s₂⟩, hclose, hrest⟩ := Option.bind_eq_some_iff.mp hrest
      obtain ⟨rfl, rfl, rfl, rfl⟩ : _ ∧ _ ∧ _ ∧ _ := by simpa [pure] using hrest
      exact ⟨hfct, s₁, len, hpay, hclose, nextCmdTag_lt cmdTag, rfl⟩
  · exact nomatch h

/-- What `BuildRpcAnswer` has done when it returns no error. -/
theorem buildRpcAnswer_noError {res res' : RpcParserResult} {built : BofRpc}
    (h : r.buildRpcAnswer res = some (built, res', .noError)) :
    res.FctId_U32 < maxFct ∧ ∃ s₁ len, r.pushPayload true (fun i ty => (res.pRpcVar_X i).value r.cpu ty)
        res.RpcRts_U32 res.FctId_U32 r.mpRpcAnsStack_O = some (true, s₁) ∧
      r.closeFrame 0 res.RpcTag_U16 s₁ = some (len, .noError, built.mpRpcAnsStack_O) ∧
      res'.RpcStackLen_U32 = len.getD res.RpcStackLen_U32 := by
  unfold buildRpcAnswer at h
  split at h
  · next hfct =>
    obtain ⟨⟨sts, s₁⟩, hpay, hrest⟩ := Option.bind_eq_some_iff.mp h
    cases sts with
    | false => exact nomatch hrest
    | true =>
      obtain ⟨⟨len, err, s₂⟩, hclose, hrest⟩ := Option.bind_eq_some_iff.mp hrest
      obtain ⟨rfl, rfl, rfl⟩ : _ ∧ _ ∧ _ := by simpa [pure] using hrest
      exact ⟨hfct, s₁, len, hpay, hclose, rfl⟩
  · exact nomatch h

/-! ## Round trips -/

/-- A request: it is restored from every buffer that starts with it and has the bytes that the parser copies. -/
theorem request_restored {cmdTag sentTag : Nat} {va : Nat → RpcValue} {req req' : RpcParserResult} {built : BofRpc}
    (htable : r'.pRpcFct_X = r.pRpcFct_X) (hoff : r.UseChecksum_B = false)
    (hbuild : r.buildRpcRequest cmdTag va req = some (built, sentTag, req', .noError))
    (hscalar : (r.pRpcFct_X req.FctId_U32).IsScalar) (htime : req.TimeOut_U32 < 2 ^ 16)
    (hlen : req'.RpcStackLen_U32 < 2 ^ 16) (hfits : req'.RpcStackLen_U32 < r'.mpRpcReqStack_O.MaxStackSize_U32)
    (h10 : 10 < r.mpRpcReqStack_O.MaxStackSize_U32) (rest : List UInt8)
    (h16 : 16 ≤ (requestFrame built req' ++ rest).length) (hmax : 16 ≤ r'.mpRpcReqStack_O.MaxStackSize_U32) :
    r'.RestoresRequest (requestFrame built req' ++ rest) old req.FctId_U32 sentTag req.TimeOut_U32 va := by
  obtain ⟨hfct, s₁, len, hpay, hclose, htag, hlen'⟩ := buildRpcRequest_noError hbuild
  obtain ⟨n, rfl, -, hlayout⟩ := frame_layout hoff (supplies_request va hscalar) hpay hclose
  obtain rfl : req'.RpcStackLen_U32 = n := hlen'
  have hlength : (requestFrame built req').length = req'.RpcStackLen_U32 := Memory.length_read ..
  have hread := (hlayout h10).2
  rw [Nat.mod_eq_of_lt hlen, Nat.mod_eq_of_lt htime,
    Nat.mod_eq_of_lt (Nat.lt_trans hfct (by decide) : req.FctId_U32 < 2 ^ 16)] at hread
  have hframe : requestFrame built req' = header r.cpu 0 req.TimeOut_U32 sentTag (requestFrame built req').length ++
      payload r.cpu false (fun a => (va a.2).word) (r.pRpcFct_X req.FctId_U32) 0 req.FctId_U32 := by
    rw [hlength]
    exact hread
  rw [← hlength] at hlen hfits
  obtain ⟨r'', res, hparse, hid, htag', htime', -, hvars⟩ := parse_frame_layout false old rest htable hframe hscalar hfct
    (by decide) htime htag hlen h16 hmax hfits nofun
  refine ⟨r'', res, hparse, hid, htag', htime', fun arg i harg hin => ?_⟩
  rw [htable] at harg
  exact hvars (arg, i) (List.mk_mem_zipIdx_iff_getElem?.mpr harg) hin

/-- An answer: as for a request. -/
theorem answer_restored {res res' : RpcParserResult} {built : BofRpc} (htable : r'.pRpcFct_X = r.pRpcFct_X)
    (hoff : r.UseChecksum_B = false) (hbuild : r.buildRpcAnswer res = some (built, res', .noError))
    (hscalar : (r.pRpcFct_X res.FctId_U32).IsScalar) (hrts : res.RpcRts_U32 < 2 ^ 16) (htag : res.RpcTag_U16 < 2 ^ 16)
    (hlen : res'.RpcStackLen_U32 < 2 ^ 16) (hfits : res'.RpcStackLen_U32 < r'.mpRpcAnsStack_O.MaxStackSize_U32)
    (hexpected : old.RpcTag_U16 = 0 ∨ old.RpcTag_U16 = res.RpcTag_U16)
    (h10 : 10 < r.mpRpcAnsStack_O.MaxStackSize_U32) (rest : List UInt8)
    (h16 : 16 ≤ (answerFrame built res' ++ rest).length) (hmax : 16 ≤ r'.mpRpcAnsStack_O.MaxStackSize_U32) :
    r'.RestoresAnswer (answerFrame built res' ++ rest) old r.cpu res := by
  obtain ⟨hfct, s₁, len, hpay, hclose, hlen'⟩ := buildRpcAnswer_noError hbuild
  obtain ⟨n, rfl, -, hlayout⟩ := frame_layout hoff (supplies_answer res hscalar) hpay hclose
  obtain rfl : res'.RpcStackLen_U32 = n := hlen'
  have hlength : (answerFrame built res').length = res'.RpcStackLen_U32 := Memory.length_read ..
  have hread := (hlayout h10).2
  rw [Nat.mod_eq_of_lt hlen, Nat.mod_eq_of_lt hrts,
    Nat.mod_eq_of_lt (Nat.lt_trans hfct (by decide) : res.FctId_U32 < 2 ^ 16)] at hread
  have hframe : answerFrame built res' = header r.cpu 0 0 res.RpcTag_U16 (answerFrame built res').length ++
      payload r.cpu true (fun a => (res.pRpcVar_X a.2).word r.cpu (varType a.1).width) (r.pRpcFct_X res.FctId_U32)
        res.RpcRts_U32 res.FctId_U32 := by
    rw [hlength]
    exact hread
  rw [← hlength] at hlen hfits
  obtain ⟨r'', res'', hparse, hid, htag', -, hrts', hvars⟩ := parse_frame_layout true old rest htable hframe hscalar hfct
    hrts (by decide) htag hlen h16 hmax hfits fun _ => hexpected
  refine ⟨r'', res'', hparse, hid, htag', hrts', fun arg i harg hout => ?_⟩
  rw [htable] at harg
  rw [hvars (arg, i) (List.mk_mem_zipIdx_iff_getElem?.mpr harg) hout]
  exact Nat.mod_eq_of_lt (word_lt ..)

/-- A frame without checksum is restored exactly if there is room behind the header of the builder and the frame has the
16 bytes that the parser copies. -/
theorem frames_restored_iff (htable : r'.pRpcFct_X = r.pRpcFct_X) (hoff : r.UseChecksum_B = false)
    (old : RpcParserResult) :
    (∀ cmdTag va req built sentTag req', r.buildRpcRequest cmdTag va req = some (built, sentTag, req', .noError) →
      (r.pRpcFct_X req.FctId_U32).IsScalar → req.TimeOut_U32 < 2 ^ 16 → req'.RpcStackLen_U32 < 2 ^ 16 →
      req'.RpcStackLen_U32 < r'.mpRpcReqStack_O.MaxStackSize_U32 →
        (r'.RestoresRequest (requestFrame built req') old req.FctId_U32 sentTag req.TimeOut_U32 va ↔
          RoomToParse r.mpRpcReqStack_O.MaxStackSize_U32 false (r.pRpcFct_X req.FctId_U32))) ∧
    ∀ res built res', r.buildRpcAnswer res = some (built, res', .noError) →
      (r.pRpcFct_X res.FctId_U32).IsScalar → res.RpcRts_U32 < 2 ^ 16 → res.RpcTag_U16 < 2 ^ 16 →
      old.RpcTag_U16 = 0 ∨ old.RpcTag_U16 = res.RpcTag_U16 → res'.RpcStackLen_U32 < 2 ^ 16 →
      res'.RpcStackLen_U32 < r'.mpRpcAnsStack_O.MaxStackSize_U32 →
        (r'.RestoresAnswer (answerFrame built res') old r.cpu res ↔
          RoomToParse r.mpRpcAnsStack_O.MaxStackSize_U32 true (r.pRpcFct_X res.FctId_U32)) := by
  constructor
  · intro cmdTag va req built sentTag req' hbuild hscalar htime hlen hfits
    obtain ⟨-, s₁, len, hpay, hclose, -, hlen'⟩ := buildRpcRequest_noError hbuild
    obtain ⟨n, rfl, hsmall, hlayout⟩ := frame_layout hoff (supplies_request va hscalar) hpay hclose
    obtain rfl : req'.RpcStackLen_U32 = n := hlen'
    have hlength : (requestFrame built req').length = req'.RpcStackLen_U32 := Memory.length_read ..
    constructor
    · rintro ⟨r'', res, hparse, -⟩
      have h16 := (parseRpcFrame_length_le hparse).1
      have h10 : 10 < r.mpRpcReqStack_O.MaxStackSize_U32 := by
        by_contra h
        have hn := hsmall (Nat.le_of_not_lt h)
        omega
      refine ⟨h10, ?_⟩
      have hn := (hlayout h10).1
      omega
    · rintro ⟨h10, hwidth⟩
      have hn := (hlayout h10).1
      have hrestored : r'.RestoresRequest (requestFrame built req' ++ []) old req.FctId_U32 sentTag req.TimeOut_U32 va :=
        request_restored htable hoff hbuild hscalar htime hlen hfits h10 [] (by rw [List.append_nil]; omega) (by omega)
      rw [List.append_nil] at hrestored
      exact hrestored
  · intro res built res' hbuild hscalar hrts htag hexpected hlen hfits
    obtain ⟨-, s₁, len, hpay, hclose, hlen'⟩ := buildRpcAnswer_noError hbuild
    obtain ⟨n, rfl, hsmall, hlayout⟩ := frame_layout hoff (supplies_answer res hscalar) hpay hclose
    obtain rfl : res'.RpcStackLen_U32 = n := hlen'
    have hlength : (answerFrame built res').length = res'.RpcStackLen_U32 := Memory.length_read ..
    constructor
    · rintro ⟨r'', res'', hparse, -⟩
      have h16 := (parseRpcFrame_length_le hparse).1
      have h10 : 10 < r.mpRpcAnsStack_O.MaxStackSize_U32 := by
        by_contra h
        have hn := hsmall (Nat.le_of_not_lt h)
        omega
      refine ⟨h10, ?_⟩
      have hn := (hlayout h10).1
      omega
    · rintro ⟨h10, hwidth⟩
      have hn := (hlayout h10).1
      have hrestored := answer_restored htable hoff hbuild hscalar hrts htag hlen hfits hexpected h10 []
        (by rw [List.append_nil]; omega) (by omega)
      rw [List.append_nil] at hrestored
      exact hrestored

/-! ### A request without and with arguments -/

/-- Function 0 has an argument of type `void`, and all the others have an `IN` argument of type `U8` and an `INOUT`
argument of type `U32`. -/
def twoFunctions (cpu : CpuEndianness) (useChecksum : Bool) (max : Nat) : BofRpc where
  cpu
  UseChecksum_B := useChecksum
  pRpcFct_X i := if i = 0 then ⟨[0x101], by decide⟩ else ⟨[0x103, 0x407], by decide⟩
  mpRpcReqStack_O := ⟨max, false, fun _ => 0, 0⟩
  mpRpcAnsStack_O := ⟨max, false, fun _ => 0, 0⟩
  reqState := {}
  ansState := {}

theorem isScalar_twoFunctions (cpu : CpuEndianness) (useChecksum : Bool) (max i : Nat) :
    ((twoFunctions cpu useChecksum max).pRpcFct_X i).IsScalar := by
  unfold RpcFunction.IsScalar twoFunctions
  dsimp only
  split
  · exact List.all_eq_true.mp rfl
  · exact List.all_eq_true.mp rfl

theorem frames_restored_arguments : ∃ built sentTag req',
    (twoFunctions .little false 64).buildRpcRequest 6 (fun i => { word := 200 + i }) { FctId_U32 := 1, TimeOut_U32 := 500 } =
      some (built, sentTag, req', .noError) ∧
    (twoFunctions .big false 64).RestoresRequest (requestFrame built req') {} 1 sentTag 500
      (fun i => { word := 200 + i }) := by
  have hlen : ((twoFunctions .little false 64).buildRpcRequest 6 (fun i => { word := 200 + i })
      { FctId_U32 := 1, TimeOut_U32 := 500 }).map (fun b => (b.2.2.1.RpcStackLen_U32, b.2.2.2)) = some (19, .noError) := rfl
  obtain ⟨⟨built, sentTag, req', err⟩, hbuild, heq⟩ := Option.map_eq_some_iff.mp hlen
  obtain ⟨hlen, rfl⟩ := Prod.mk.inj heq
  have htable : (twoFunctions .big false 64).pRpcFct_X = (twoFunctions .little false 64).pRpcFct_X := rfl
  have hoff : (twoFunctions .little false 64).UseChecksum_B = false := rfl
  have hscalar := isScalar_twoFunctions .little false 64 1
  have hshort : req'.RpcStackLen_U32 < 2 ^ 16 := hlen ▸ (by decide : 19 < 2 ^ 16)
  have hfits : req'.RpcStackLen_U32 < (twoFunctions .big false 64).mpRpcReqStack_O.MaxStackSize_U32 :=
    hlen ▸ (by decide : 19 < 64)
  have hroom : RoomToParse 64 false ((twoFunctions .little false 64).pRpcFct_X 1) := by
    unfold RoomToParse
    decide
  have hiff := (frames_restored_iff htable hoff {}).1 6 _ _ built sentTag req' hbuild hscalar (by decide) hshort hfits
  exact ⟨built, sentTag, req', hbuild, hiff.mpr hroom⟩

theorem parseRpcFrame_of_short (h : buffer.length < 16) : r.parseRpcFrame answer buffer old = none := by
  rw [parseRpcFrame, copyFrame, if_neg (Nat.not_le.mpr h)]
  rfl

/-- The request for the function without data has 14 bytes, and the parser copies two more. -/
theorem not_frames_restored_void : ∃ built sentTag req',
    (twoFunctions .little false 64).buildRpcRequest 6 (fun _ => {}) { FctId_U32 := 0, TimeOut_U32 := 500 } =
      some (built, sentTag, req', .noError) ∧
    ((twoFunctions .little false 64).pRpcFct_X 0).IsScalar ∧ req'.RpcStackLen_U32 = 14 ∧
    (twoFunctions .little false 64).parseRpcFrame false (requestFrame built req') {} = none ∧
    ¬(twoFunctions .little false 64).RestoresRequest (requestFrame built req') {} 0 sentTag 500 (fun _ => {}) := by
  have hlen : ((twoFunctions .little false 64).buildRpcRequest 6 (fun _ => {})
      { FctId_U32 := 0, TimeOut_U32 := 500 }).map (fun b => (b.2.2.1.RpcStackLen_U32, b.2.2.2)) = some (14, .noError) := rfl
  obtain ⟨⟨built, sentTag, req', err⟩, hbuild, heq⟩ := Option.map_eq_some_iff.mp hlen
  obtain ⟨hlen, rfl⟩ := Prod.mk.inj heq
  have hlength : (requestFrame built req').length = 14 := (Memory.length_read ..).trans hlen
  have hnone : (twoFunctions .little false 64).parseRpcFrame false (requestFrame built req') {} = none :=
    parseRpcFrame_of_short (by omega)
  refine ⟨built, sentTag, req', hbuild, isScalar_twoFunctions .little false 64 0, hlen, hnone, ?_⟩
  rintro ⟨r'', res, hparse, -⟩
  exact nomatch hnone.symm.trans hparse

end BofRpc

end BofStd
