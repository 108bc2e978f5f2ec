import BofStd.Proofs.BofRpcBoundsProofs

/-!
# `BofRpc`: which damaged frames are errors

The walk over a frame tells the result of the parser (`parseRpcFrame_walk`). A damaged sum gets past the tests only if
the test of the checksum is passed over (`passedOver_of_passes`), and then what is behind the tests decides.
-/

namespace BofStd.BofRpc

open BofStack

variable {cpu : CpuEndianness} {r r' : BofRpc} {answer : Bool} {buffer : List UInt8} {old : RpcParserResult}

/-- The result of the parser, by the walk over the frame. -/
theorem parseRpcFrame_walk (old : RpcParserResult) (hmax : 16 ≤ (r.parserStack answer).MaxStackSize_U32)
    (hmax32 : (r.parserStack answer).MaxStackSize_U32 < 2 ^ 32) (h16 : 16 ≤ buffer.length)
    (horder : frameOrder buffer = some cpu) (hlen : declaredLength cpu buffer ≤ buffer.length)
    (hfits : declaredLength cpu buffer ≤ (r.parserStack answer).MaxStackSize_U32) :
    match r.walkFrame answer cpu buffer old with
    | .outside => r.parseRpcFrame answer buffer old = none
    | .refused => r.Rejects answer buffer old
    | .to ptr => ∃ r' res, r.parseRpcFrame answer buffer old = some (r', res, if ptr = 10 then .noError else .format) := by
  obtain ⟨s, o, hparse, hagrees, hsize, hkeep⟩ := walkFrame_agrees old hmax hmax32 h16 horder hlen hfits
  cases hw : r.walkFrame answer cpu buffer old with
  | outside =>
    rw [hw] at hagrees
    have hnone : o = none := Option.map_eq_none_iff.mp hagrees
    rw [hparse, hnone]
    rfl
  | refused =>
    rw [hw] at hagrees
    obtain ⟨v, s', ho, ptr, hmoved⟩ := hagrees
    obtain ⟨p, rfl, hp⟩ := Option.map_eq_some_iff.mp ho
    obtain ⟨hsts, hp⟩ := Prod.mk.inj hp
    obtain ⟨-, hps⟩ := Prod.mk.inj hp
    obtain ⟨hplen, herr⟩ := hkeep p rfl
    have hrecord : p.res.RpcStackLen_U32 ≤ p.s.MaxStackSize_U32 := by
      rw [hps, hmoved, hplen]
      exact hfits.trans hsize.ge
    obtain ⟨r', hend, -⟩ := endFrame_eq r answer (.inl hrecord)
    rw [hsts, if_neg Bool.false_ne_true] at hend
    exact ⟨r', p.res, p.Rts_U32, hparse.trans hend, herr⟩
  | «to» ptr =>
    rw [hw] at hagrees
    obtain ⟨v, ho⟩ := hagrees
    obtain ⟨p, rfl, hp⟩ := Option.map_eq_some_iff.mp ho
    obtain ⟨hsts, hp⟩ := Prod.mk.inj hp
    obtain ⟨-, hps⟩ := Prod.mk.inj hp
    obtain ⟨hplen, -⟩ := hkeep p rfl
    have hrecord : p.res.RpcStackLen_U32 ≤ p.s.MaxStackSize_U32 := by
      rw [hps, hplen]
      exact hfits.trans hsize.ge
    obtain ⟨r', hend, -⟩ := endFrame_eq r answer (.inl hrecord)
    have hptr : p.s.stackPointer = ptr := by
      rw [hps]
      rfl
    rw [if_pos hsts, hptr] at hend
    exact ⟨r', p.res, hparse.trans hend⟩

/-- What is not accepted is an error, unless the parser leaves its buffers. -/
theorem rejects_iff_walk (old : RpcParserResult) (hmax : 16 ≤ (r.parserStack answer).MaxStackSize_U32)
    (hmax32 : (r.parserStack answer).MaxStackSize_U32 < 2 ^ 32) (h16 : 16 ≤ buffer.length)
    (horder : frameOrder buffer = some cpu) (hlen : declaredLength cpu buffer ≤ buffer.length)
    (hfits : declaredLength cpu buffer ≤ (r.parserStack answer).MaxStackSize_U32) :
    r.Rejects answer buffer old ↔ ¬r.Escapes answer cpu buffer old := by
  have hwalk := parseRpcFrame_walk old hmax hmax32 h16 horder hlen hfits
  unfold Escapes
  cases hw : r.walkFrame answer cpu buffer old with
  | outside =>
    rw [hw] at hwalk
    refine iff_of_false ?_ fun h => h (.inl rfl)
    rintro ⟨r', res, err, hparse, -⟩
    exact nomatch hwalk.symm.trans hparse
  | refused =>
    rw [hw] at hwalk
    exact iff_of_true hwalk (by simp)
  | «to» ptr =>
    rw [hw] at hwalk
    obtain ⟨r', res, hparse⟩ := hwalk
    by_cases hten : ptr = 10
    · rw [if_pos hten] at hparse
      refine iff_of_false ?_ fun h => h (.inr (congrArg Walk.to hten))
      rintro ⟨r'', res', err, hparse', hne⟩
      obtain ⟨-, hpair⟩ := Prod.mk.inj (Option.some.inj (hparse.symm.trans hparse'))
      exact hne (Prod.mk.inj hpair).2.symm
    · rw [if_neg hten] at hparse
      refine iff_of_true ⟨r', res, .format, hparse, nofun⟩ ?_
      rintro (hout | hto)
      · exact nomatch hout
      · injection hto with hto
        exact hten hto

/-- A frame behind whose tests anything is popped has passed them. -/
theorem passesTests_of_escapes (h : r.Escapes answer cpu buffer old) :
    PassesTests answer cpu buffer old (r.bodyStack answer cpu buffer (declaredLength cpu buffer)).stackPointer := by
  by_contra hnot
  have hrefused : r.walkFrame answer cpu buffer old = .refused := if_neg fun hpass => hnot hpass.1
  rcases h with h | h
  · exact nomatch hrefused.symm.trans h
  · exact nomatch hrefused.symm.trans h

/-- A damaged sum passes the tests only if that of the checksum is passed over. -/
theorem passedOver_of_passes (hmax : 16 ≤ (r.parserStack answer).MaxStackSize_U32)
    (hbit : wordAt cpu buffer 2 &&& flagUseChecksum ≠ 0)
    (hfits : declaredLength cpu buffer ≤ (r.parserStack answer).MaxStackSize_U32)
    (hsum : SumDiffers cpu buffer (declaredLength cpu buffer))
    (h : PassesTests answer cpu buffer old (r.bodyStack answer cpu buffer (declaredLength cpu buffer)).stackPointer) :
    r.ChecksumPassedOver answer cpu buffer old := by
  by_cases hexpected : answer = true ∧ old.RpcTag_U16 ≠ 0
  · rw [PassesTests, if_pos hexpected] at h
    exact .inl ⟨hexpected.1, hexpected.2, h.symm⟩
  · refine .inr ⟨hexpected, ?_, h⟩
    rw [PassesTests, if_neg hexpected] at h
    obtain ⟨-, heq⟩ := h hbit
    by_contra hne
    have hlt : declaredLength cpu buffer < (r.parserStack answer).MaxStackSize_U32 := lt_of_le_of_ne hfits hne
    rw [(bodyStack_endsAt r cpu buffer _ hmax).1 hlt] at heq
    exact checksum_ne_of_sumDiffers hsum heq

/-- A damaged frame is an error, unless the test of the checksum is passed over and the payload is as it happens to be. -/
theorem rejects_damaged_iff (old : RpcParserResult) (hmax32 : (r.parserStack answer).MaxStackSize_U32 < 2 ^ 32)
    (horder : frameOrder buffer = some cpu) (hbit : wordAt cpu buffer 2 &&& flagUseChecksum ≠ 0)
    (hfits : declaredLength cpu buffer ≤ (r.parserStack answer).MaxStackSize_U32)
    (hlen : declaredLength cpu buffer ≤ buffer.length) (hsum : SumDiffers cpu buffer (declaredLength cpu buffer)) :
    r.Rejects answer buffer old ↔ 16 ≤ buffer.length ∧ 16 ≤ (r.parserStack answer).MaxStackSize_U32 ∧
      ¬(r.ChecksumPassedOver answer cpu buffer old ∧ r.Escapes answer cpu buffer old) := by
  constructor
  · intro hrejects
    have ⟨r', res, err, hparse, _⟩ := hrejects
    obtain ⟨h16, hmax⟩ := parseRpcFrame_length_le hparse
    have hnot := (rejects_iff_walk old hmax hmax32 h16 horder hlen hfits).mp hrejects
    exact ⟨h16, hmax, fun h => hnot h.2⟩
  · rintro ⟨h16, hmax, hnot⟩
    refine (rejects_iff_walk old hmax hmax32 h16 horder hlen hfits).mpr fun hescapes => hnot ⟨?_, hescapes⟩
    exact passedOver_of_passes hmax hbit hfits hsum (passesTests_of_escapes hescapes)

/-- Intact frames are accepted exactly if the builder has room for header and checksum, and damaged frames are errors
exactly if the test of the checksum is not passed over, or the payload is refused then. -/
theorem checksums_checked_iff (htable : r'.pRpcFct_X = r.pRpcFct_X) (hon : r.UseChecksum_B = true)
    (old : RpcParserResult) :
    (∀ cmdTag va req built sentTag req', r.buildRpcRequest cmdTag va req = some (built, sentTag, req', .noError) →
      (r.pRpcFct_X req.FctId_U32).IsScalar → req'.RpcStackLen_U32 < 2 ^ 16 →
      req'.RpcStackLen_U32 < r'.mpRpcReqStack_O.MaxStackSize_U32 →
        (r'.Accepts false (requestFrame built req') old ↔
          RoomForChecksum r.mpRpcReqStack_O.MaxStackSize_U32 false (r.pRpcFct_X req.FctId_U32))) ∧
    (∀ res built res', r.buildRpcAnswer res = some (built, res', .noError) →
      (r.pRpcFct_X res.FctId_U32).IsScalar → res.RpcTag_U16 < 2 ^ 16 → res'.RpcStackLen_U32 < 2 ^ 16 →
      res'.RpcStackLen_U32 < r'.mpRpcAnsStack_O.MaxStackSize_U32 →
        (r'.Accepts true (answerFrame built res') old ↔
          RoomForChecksum r.mpRpcAnsStack_O.MaxStackSize_U32 true (r.pRpcFct_X res.FctId_U32) ∧
            (old.RpcTag_U16 = 0 ∨ old.RpcTag_U16 = res.RpcTag_U16))) ∧
    ∀ (q : BofRpc) answer buffer cpu, (q.parserStack answer).MaxStackSize_U32 < 2 ^ 32 →
      frameOrder buffer = some cpu → wordAt cpu buffer 2 &&& flagUseChecksum ≠ 0 →
      declaredLength cpu buffer ≤ (q.parserStack answer).MaxStackSize_U32 →
      declaredLength cpu buffer ≤ buffer.length → SumDiffers cpu buffer (declaredLength cpu buffer) →
        (q.Rejects answer buffer old ↔ 16 ≤ buffer.length ∧ 16 ≤ (q.parserStack answer).MaxStackSize_U32 ∧
          ¬(q.ChecksumPassedOver answer cpu buffer old ∧ q.Escapes answer cpu buffer old)) := by
  refine ⟨?_, ?_, ?_⟩
  · intro cmdTag va req built sentTag req' hbuild hscalar hlen hfits
    exact request_accepted_iff htable hon old hbuild hscalar hlen hfits
  · intro res built res' hbuild hscalar htag hlen hfits
    exact answer_accepted_iff htable hon old hbuild hscalar htag hlen hfits
  · intro q answer buffer cpu hmax32 horder hbit hfits hlen hsum
    exact rejects_damaged_iff old hmax32 horder hbit hfits hlen hsum

/-- An answer for the function without data with the tag 7, whose checksum is wrong. -/
def damagedAnswer : List UInt8 := [0x48, 0x42, 1, 0, 0, 0, 7, 0, 16, 0, 0, 0, 0, 0, 0xFF, 0xFF]

theorem sumDiffers_damagedAnswer : SumDiffers .little damagedAnswer (declaredLength .little damagedAnswer) := by
  unfold SumDiffers
  decide

theorem checksums_checked_arguments :
    (∃ built sentTag req', (twoFunctions .little true 64).buildRpcRequest 6 (fun i => { word := 200 + i })
        { FctId_U32 := 1, TimeOut_U32 := 500 } = some (built, sentTag, req', .noError) ∧
      (twoFunctions .little true 64).Accepts false (requestFrame built req') {}) ∧
    (twoFunctions .little true 64).Rejects true damagedAnswer {} := by
  have hlen : ((twoFunctions .little true 64).buildRpcRequest 6 (fun i => { word := 200 + i })
      { FctId_U32 := 1, TimeOut_U32 := 500 }).map (fun b => (b.2.2.1.RpcStackLen_U32, b.2.2.2)) = some (21, .noError) := rfl
  obtain ⟨⟨built, sentTag, req', err⟩, hbuild, heq⟩ := Option.map_eq_some_iff.mp hlen
  obtain ⟨hlen, rfl⟩ := Prod.mk.inj heq
  have htable : (twoFunctions .little true 64).pRpcFct_X = (twoFunctions .little true 64).pRpcFct_X := rfl
  have hon : (twoFunctions .little true 64).UseChecksum_B = true := rfl
  have hscalar := isScalar_twoFunctions .little true 64 1
  have hshort : req'.RpcStackLen_U32 < 2 ^ 16 := hlen ▸ (by decide : 21 < 2 ^ 16)
  have hfits : req'.RpcStackLen_U32 < (twoFunctions .little true 64).mpRpcReqStack_O.MaxStackSize_U32 :=
    hlen ▸ (by decide : 21 < 64)
  have hroom : RoomForChecksum 64 false ((twoFunctions .little true 64).pRpcFct_X 1) := by
    unfold RoomForChecksum
    decide
  obtain ⟨hrequest, -, hdamaged⟩ := checksums_checked_iff htable hon {}
  refine ⟨⟨built, sentTag, req', hbuild, (hrequest 6 _ _ built sentTag req' hbuild hscalar hshort hfits).mpr hroom⟩, ?_⟩
  refine (hdamaged (twoFunctions .little true 64) true damagedAnswer .little (by decide) (by decide) (by decide)
    (by decide) (by decide) sumDiffers_damagedAnswer).mpr ⟨by decide, by decide, ?_⟩
  rintro ⟨⟨-, hzero, -⟩ | ⟨-, hsize, -⟩, -⟩
  · exact hzero rfl
  · exact absurd hsize (by decide)

/-- With the tag that is expected the damaged answer is accepted. A request for the same function is not, if it is
built on a stack of 14 bytes. -/
theorem not_checksums_checked :
    (SumDiffers .little damagedAnswer (declaredLength .little damagedAnswer) ∧
      (twoFunctions .little true 64).Accepts true damagedAnswer { RpcTag_U16 := 7 }) ∧
    ∃ built sentTag req', (twoFunctions .little true 14).buildRpcRequest 6 (fun _ => {})
        { FctId_U32 := 0, TimeOut_U32 := 500 } = some (built, sentTag, req', .noError) ∧
      req'.RpcStackLen_U32 = 12 ∧ ¬(twoFunctions .little true 64).Accepts false (requestFrame built req') {} := by
  constructor
  · have hwalk : (twoFunctions .little true 64).walkFrame true .little damagedAnswer { RpcTag_U16 := 7 } = .to 10 := by
      decide +kernel
    have hmax : 16 ≤ ((twoFunctions .little true 64).parserStack true).MaxStackSize_U32 := by decide
    have horder : frameOrder damagedAnswer = some .little := by decide
    have hresult := parseRpcFrame_walk { RpcTag_U16 := 7 } hmax (by decide) (by decide) horder (by decide) (by decide)
    rw [hwalk] at hresult
    exact ⟨sumDiffers_damagedAnswer, hresult⟩
  · have hlen : ((twoFunctions .little true 14).buildRpcRequest 6 (fun _ => {})
        { FctId_U32 := 0, TimeOut_U32 := 500 }).map (fun b => (b.2.2.1.RpcStackLen_U32, b.2.2.2)) = some (12, .noError) := rfl
    obtain ⟨⟨built, sentTag, req', err⟩, hbuild, heq⟩ := Option.map_eq_some_iff.mp hlen
    obtain ⟨hlen, rfl⟩ := Prod.mk.inj heq
    have hlength : (requestFrame built req').length = 12 := (Memory.length_read ..).trans hlen
    refine ⟨built, sentTag, req', hbuild, hlen, ?_⟩
    rintro ⟨r'', res, hparse⟩
    have h16 := (parseRpcFrame_length_le hparse).1
    omega

end BofStd.BofRpc
