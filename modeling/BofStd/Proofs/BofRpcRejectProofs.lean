import BofStd.Proofs.BofRpcParseProofs

/-!
# `BofRpc`: the tests of the checksum and of the tag, for any bytes

A pop of a word takes its bytes off or returns `false`, so the tests always have a result (`parseRpcFrame_tested`). What
does not pass them is an error.
-/

namespace BofStd.BofRpc

open BofStack

variable {cpu cpu' : CpuEndianness} {r : BofRpc} {answer : Bool} {buffer body : List UInt8} {old : RpcParserResult}
  {s s' : BofStack} {flag timeOut tag len : Nat} {p : Parsing}

/-! ## Pops -/

theorem popWord_of_le {w : Nat} (hw : w ≤ s.stackPointer) (hle : s.stackPointer ≤ s.MaxStackSize_U32)
    (hswap : s.SwapByte_B = decide (cpu ≠ cpu')) :
    s.popWord cpu' w =
      some (some (cpu.load (s.content.drop (s.stackPointer - w))), s.withPointer (s.stackPointer - w)) := by
  have hlen : (s.content.drop (s.stackPointer - w)).length = w := by
    rw [List.length_drop, length_content]
    omega
  have hsplit : s.content =
      s.content.take (s.stackPointer - w) ++ cpu.store w (cpu.load (s.content.drop (s.stackPointer - w))) := by
    have hstore := cpu.store_load (s.content.drop (s.stackPointer - w))
    rw [hlen] at hstore
    rw [hstore, List.take_append_drop]
  have hlt := cpu.load_lt (s.content.drop (s.stackPointer - w))
  rw [hlen] at hlt
  have hpop := popWord_of_content hsplit hlt hle hswap
  rw [List.length_take, length_content, Nat.min_eq_left (Nat.sub_le _ _)] at hpop
  exact hpop

theorem popWord_of_lt (cpu' : CpuEndianness) {w : Nat} (hw : s.stackPointer < w) : s.popWord cpu' w = some (none, s) := by
  rw [popWord, popBlock, if_neg (Nat.not_le.mpr hw)]
  rfl

/-! ## The tests -/

/-- The test of the checksum, for any bytes. -/
theorem checkFlag_total (flag : Nat) (hle : s.stackPointer ≤ s.MaxStackSize_U32)
    (hswap : s.SwapByte_B = decide (cpu ≠ cpu')) :
    ∃ sts err, checkFlag cpu' flag s = some (sts, err, s.withPointer (checkedEnd flag s.stackPointer)) ∧
      err ≠ .noError ∧ (sts = true ↔ (flag &&& flagUseChecksum ≠ 0 → 2 ≤ s.stackPointer ∧
        checksum (s.content.take (s.stackPointer - 2)) = cpu.load (s.content.drop (s.stackPointer - 2)))) := by
  by_cases hflag : flag &&& flagUseChecksum ≠ 0
  · by_cases h2 : 2 ≤ s.stackPointer
    · have hread : (s.withPointer (s.stackPointer - 2)).read 0 (s.stackPointer - 2) =
          some (s.content.take (s.stackPointer - 2)) := by
        rw [BofStack.read, if_pos (by show 0 + (s.stackPointer - 2) ≤ s.MaxStackSize_U32; omega), content,
          Memory.take_read _ _ (Nat.sub_le _ _)]
        rfl
      refine ⟨decide (checksum (s.content.take (s.stackPointer - 2)) = cpu.load (s.content.drop (s.stackPointer - 2))),
        .invalidChecksum, ?_, by rintro ⟨⟩, ?_⟩
      · rw [checkFlag, if_pos hflag, checkChecksum, popU16, popWord_of_le h2 hle hswap, checkedEnd, if_pos ⟨hflag, h2⟩,
          Option.bind_eq_bind, Option.bind_some]
        dsimp only
        rw [show (s.withPointer (s.stackPointer - 2)).stackPointer = s.stackPointer - 2 from rfl, hread]
        rfl
      · rw [decide_eq_true_iff]
        exact ⟨fun h _ => ⟨h2, h⟩, fun h => (h hflag).2⟩
    · refine ⟨false, .tooBig, ?_, by rintro ⟨⟩, by rintro ⟨⟩, fun h => absurd (h hflag).1 h2⟩
      rw [checkFlag, if_pos hflag, checkChecksum, popU16, popWord_of_lt cpu' (Nat.lt_of_not_le h2), checkedEnd,
        if_neg fun h => h2 h.2]
      rfl
  · refine ⟨true, .tooBig, ?_, by rintro ⟨⟩, fun _ h => absurd h hflag, fun _ => rfl⟩
    rw [checkFlag, if_neg hflag, checkedEnd, if_neg fun h => hflag h.1]
    rfl

/-- The test of the tag, over the result of the test of the checksum. -/
theorem checkTag_spec {err : BofErr} (answer : Bool) (len : Nat) (sts : Bool) (s : BofStack) (p : Parsing)
    (herr : err ≠ .noError) :
    (checkTag answer len sts err s p).Sts_B =
        (if answer ∧ p.res.RpcTag_U16 ≠ 0 then decide (p.TheTag_U16 = p.res.RpcTag_U16) else sts) ∧
      (checkTag answer len sts err s p).Rts_U32 ≠ .noError ∧ (checkTag answer len sts err s p).s = s ∧
      (checkTag answer len sts err s p).res.RpcStackLen_U32 = len := by
  unfold checkTag
  dsimp only
  split
  · exact ⟨rfl, nofun, rfl, rfl⟩
  · exact ⟨rfl, herr, rfl, rfl⟩

/-! ## The frame -/

/-- The tests of the checksum and of the tag succeed, for the end `e` of the frame. -/
def Tested (answer : Bool) (old : RpcParserResult) (cpu : CpuEndianness) (buffer : List UInt8) (tag e : Nat) : Prop :=
  if answer = true ∧ old.RpcTag_U16 ≠ 0 then tag = old.RpcTag_U16
  else 2 ≤ e ∧ checksum (buffer.take (e - 2)) = wordAt cpu buffer (e - 2)

theorem load_drop_take (cpu : CpuEndianness) (buffer : List UInt8) {e : Nat} (h : 2 ≤ e) :
    cpu.load ((buffer.take e).drop (e - 2)) = wordAt cpu buffer (e - 2) := by
  rw [List.drop_take, wordAt, Nat.sub_sub_self h]

/-- A frame with a header, after the tests. -/
theorem parseRpcFrame_tested (old : RpcParserResult) (hbuf : buffer = header cpu flag timeOut tag len ++ body)
    (hflag : flag < 2 ^ 16) (htime : timeOut < 2 ^ 16) (htag : tag < 2 ^ 16) (hlen : len < 2 ^ 16)
    (h16 : 16 ≤ buffer.length) (hmax : 16 ≤ (r.parserStack answer).MaxStackSize_U32)
    (hfits : len ≤ (r.parserStack answer).MaxStackSize_U32) (hle : len ≤ buffer.length) :
    ∃ e, ∃ p : Parsing, r.parseRpcFrame answer buffer old =
        (if p.Sts_B then r.parsePayload answer p else some p).bind (r.endFrame answer) ∧
      EndsAt (r.parserStack answer).MaxStackSize_U32 len e ∧
      (p.Sts_B = true ↔
        (answer = true ∧ old.RpcTag_U16 ≠ 0 ∨ flag &&& flagUseChecksum ≠ 0 → Tested answer old cpu buffer tag e)) ∧
      p.Rts_U32 ≠ .noError ∧ p.res.RpcStackLen_U32 = len ∧
      p.s.stackPointer = checkedEnd flag e ∧ p.s.content = buffer.take (checkedEnd flag e) ∧
      p.s.stackPointer ≤ p.s.MaxStackSize_U32 ∧
      p.s.MaxStackSize_U32 = (r.parserStack answer).MaxStackSize_U32 ∧ p.s.SwapByte_B = decide (cpu ≠ r.cpu) ∧
      e = (r.bodyStack answer cpu buffer len).stackPointer ∧
      p.s = (r.bodyStack answer cpu buffer len).withPointer (checkedEnd flag e) := by
  obtain ⟨s₀, s, hparse, hmax', hswap, hbody, hcontent, hptr, hends⟩ :=
    parseRpcFrame_header old hbuf hflag htime htag hlen h16 hmax hfits hle
  obtain ⟨sts, err, hcheck, herr, hsts⟩ := checkFlag_total flag hptr hswap
  let p₀ : Parsing :=
    ⟨false, .tooBig, tag, flag, { (if answer then old else {}) with TimeOut_U32 := timeOut }, s₀⟩
  let s₁ := s.withPointer (checkedEnd flag s.stackPointer)
  obtain ⟨hpsts, hperr, hps, hplen⟩ := checkTag_spec answer len sts s₁ p₀ herr
  have hend : checkedEnd flag s.stackPointer ≤ s.stackPointer := by
    unfold checkedEnd
    split <;> omega
  have hcontent₁ : s₁.content = buffer.take (checkedEnd flag s.stackPointer) := by
    have htake := congrArg (List.take (checkedEnd flag s.stackPointer)) hcontent
    rw [content, Memory.take_read _ _ hend, List.take_take, Nat.min_eq_left hend] at htake
    exact htake
  refine ⟨s.stackPointer, checkTag answer len sts err s₁ p₀, ?_, hends, ?_, hperr, hplen, ?_, ?_, ?_, ?_, ?_,
    congrArg BofStack.stackPointer hbody,
    hps.trans (congrArg (fun x : BofStack => x.withPointer (checkedEnd flag s.stackPointer)) hbody)⟩
  · rw [hparse, parseChecked, hcheck]
    rfl
  · have hold : answer = true → p₀.res.RpcTag_U16 = old.RpcTag_U16 := fun hans => by
      show (if answer then old else {}).RpcTag_U16 = _
      rw [if_pos hans]
    have hexpected : answer = true ∧ p₀.res.RpcTag_U16 ≠ 0 ↔ answer = true ∧ old.RpcTag_U16 ≠ 0 :=
      and_congr_right fun hans => by rw [hold hans]
    by_cases h : answer = true ∧ old.RpcTag_U16 ≠ 0
    · rw [hpsts, if_pos (hexpected.mpr h), Tested, if_pos h, decide_eq_true_iff, hold h.1, forall_prop_of_true (.inl h)]
    · rw [hpsts, if_neg (mt hexpected.mp h), Tested, if_neg h, hsts, hcontent, or_iff_right h]
      refine imp_congr_right fun _ => and_congr_right fun h2 => ?_
      rw [load_drop_take cpu buffer h2, List.take_take, Nat.min_eq_left (Nat.sub_le _ _)]
  · rw [hps]
    rfl
  · rw [hps]
    exact hcontent₁
  · rw [hps]
    exact Nat.le_trans hend hptr
  · rw [hps]
    exact hmax'
  · rw [hps]
    exact hswap

/-- Whatever the functions are, a frame that does not pass the tests is an error. -/
theorem rejects_of_not_tested (old : RpcParserResult) (hbuf : buffer = header cpu flag timeOut tag len ++ body)
    (hflag : flag < 2 ^ 16) (htime : timeOut < 2 ^ 16) (htag : tag < 2 ^ 16) (hlen : len < 2 ^ 16)
    (hbit : flag &&& flagUseChecksum ≠ 0) (h16 : 16 ≤ buffer.length)
    (hmax : 16 ≤ (r.parserStack answer).MaxStackSize_U32) (hlt : len < (r.parserStack answer).MaxStackSize_U32)
    (hle : len ≤ buffer.length) (hnot : ¬Tested answer old cpu buffer tag len) : r.Rejects answer buffer old := by
  obtain ⟨e, p, hparse, hends, htested, herr, hplen, -, -, -, hpmax, -⟩ :=
    parseRpcFrame_tested old hbuf hflag htime htag hlen h16 hmax (Nat.le_of_lt hlt) hle
  rw [forall_prop_of_true (.inr hbit)] at htested
  rw [← hends.1 hlt, ← htested, Bool.not_eq_true] at hnot
  obtain ⟨r', hend, -⟩ := endFrame_eq r answer (p := p) (by omega)
  refine ⟨r', p.res, p.Rts_U32, ?_, herr⟩
  rw [hparse, hnot, if_neg Bool.false_ne_true, Option.bind_some, hend, hnot, if_neg Bool.false_ne_true]

end BofStd.BofRpc
