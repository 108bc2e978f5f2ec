import BofStd.BofEventSpec
import BofStd.BofEventThreads

/-!
# `BOF_EVENT` is a set of flags, up to two words

A wait does what its predicate does when it is called first: a predicate that fails leaves the event alone, so it
may be evaluated again. The two words that are computed with an `int` are the initial one, which is one flag short
(`initialMask_true`), and the one that `Bof_WaitForEvent` clears its flag with, which is right for the lower 31 flags
(`mem_positions_clear`).
-/

namespace BofStd.BofEvent

open Machine BitMask

variable {e : BofEvent} {f : FlagSet}

/-! ## What a wait does -/

section waitFor

variable {σ : Type} {pred : σ → Option (Bool × σ)} {s s' : σ}

theorem waitFor_none (h : pred s = none) (wakeUps : Nat) : waitFor pred wakeUps s = none := by
  cases wakeUps with
  | zero => rw [waitFor, h]; rfl
  | succ wakeUps => rw [waitFor, h]; rfl

theorem waitFor_true (h : pred s = some (true, s')) (wakeUps : Nat) :
    waitFor pred wakeUps s = some (true, s') := by
  cases wakeUps with
  | zero => rw [waitFor, h]; rfl
  | succ wakeUps => rw [waitFor, h]; rfl

/-- A predicate that fails, and fails again where it leaves the state. -/
theorem waitFor_false (h : pred s = some (false, s')) (h' : pred s' = some (false, s')) (wakeUps : Nat) :
    waitFor pred wakeUps s = some (false, s') := by
  induction wakeUps generalizing s with
  | zero =>
    rw [waitFor, h]
    exact h'
  | succ wakeUps ih =>
    rw [waitFor, h]
    exact ih h'

end waitFor

/-! ## The words -/

/-- The initial word lacks the last flag. -/
theorem initialMask_true {n : Nat} {mask : BitVec 64} (h : initialMask true n = some mask) :
    n - 1 ∉ positions mask := by
  simp only [initialMask, if_true, bind, Option.bind_eq_some_iff, pure, Option.some.injEq] at h
  obtain ⟨x, hx, y, hy, rfl⟩ := h
  simp only [shiftOne, Option.ite_none_right_eq_some, Option.some.injEq] at hx
  obtain ⟨hlt, rfl⟩ := hx
  simp only [minusOne, Option.ite_none_left_eq_some, Option.some.injEq] at hy
  obtain ⟨hmin, rfl⟩ := hy
  have hsub : ∀ i < 32, 1#32 <<< i ≠ BitVec.intMin 32 → (toU64 (1#32 <<< i - 1)).getLsbD i = false := by decide
  rw [mem_positions, hsub _ hlt hmin]
  exact Bool.false_ne_true

/-- The bits of the word that clears flag `i`: the sign of an `int` is extended to the upper half. -/
theorem getLsbD_clear {i j : Nat} (hi : i < 32) (hj : j < 64) :
    (toU64 (~~~(1#32 <<< i))).getLsbD j = if j < 32 then decide (j ≠ i) else decide (i ≠ 31) := by
  have hbit : ∀ k < 32, (~~~(1#32 <<< i)).getLsbD k = decide (k ≠ i) := by
    intro k hk
    rw [BitVec.getLsbD_not, BitVec.getLsbD_shiftLeft, BitVec.getLsbD_one, Bool.eq_iff_iff]
    simp
    omega
  rw [toU64, BitVec.getLsbD_signExtend, BitVec.msb_eq_getLsbD_last, hbit (32 - 1) (by decide),
    decide_eq_true hj, Bool.true_and]
  split
  · next hlt => exact hbit j hlt
  · exact decide_eq_decide.mpr ne_comm

/-- What `Bof_WaitForEvent` leaves of a word. -/
theorem mem_positions_clear {m : BitVec 64} {i j : Nat} (hi : i < 32) :
    j ∈ positions (m &&& toU64 (~~~(1#32 <<< i))) ↔ j ∈ positions m ∧ (if j < 32 then j ≠ i else i ≠ 31) := by
  rw [positions_and, Finset.mem_inter]
  refine and_congr_right fun hj => ?_
  rw [mem_positions, getLsbD_clear hi (lt_of_mem_positions hj)]
  split <;> rw [decide_eq_true_eq]

/-! ## One call -/

theorem Holds.withFlags (h : e.Holds f) {m : BitVec 64} {fl : Finset Nat} (hm : positions m = fl) :
    Holds { e with SignaledBitmask_U64 := m } { f with flags := fl } :=
  ⟨h.magic, h.size, h.size_le, h.keep, hm⟩

theorem Holds.lt (h : e.Holds f) {i : Nat} (hi : i < f.size) : i < 64 := lt_of_lt_of_le hi h.size_le

/-- The test of one flag. -/
theorem Holds.and_flag (h : e.Holds f) {i : Nat} (hi : i < 64) :
    e.SignaledBitmask_U64 &&& flag i ≠ 0 ↔ i ∈ f.flags := by
  rw [← h.flags]
  exact and_one_shiftLeft_ne_zero hi

/-- A call is defined, keeps the flags and returns what it is to return. -/
def Matches (r : Option (BofEvent × Out (BitVec 64))) (s : FlagSet × Out (Finset Nat)) : Prop :=
  ∃ e out, r = some (e, out) ∧ e.Holds s.1 ∧ out.flags = s.2

theorem Holds.signalEvent (h : e.Holds f) (i : Nat) : Matches (e.call (.signalEvent i)) (f.step (.signalEvent i)) := by
  refine ⟨_, _, rfl, ?_⟩
  rw [BofEvent.signalEvent, if_pos h.magic, FlagSet.step]
  by_cases hi : i < f.size
  · rw [if_pos hi, if_pos (h.size ▸ hi)]
    refine ⟨h.withFlags ?_, rfl⟩
    rw [positions_or, h.flags, flag, positions_one_shiftLeft (h.lt hi), Finset.union_comm]
    rfl
  · rw [if_neg hi, if_neg (h.size ▸ hi)]
    exact ⟨h, rfl⟩

theorem Holds.setEventMask (h : e.Holds f) (v : BitVec 64) :
    Matches (e.call (.setEventMask v)) (f.step (.setEventMask v)) := by
  refine ⟨_, _, rfl, ?_⟩
  rw [BofEvent.setEventMask, if_pos h.magic]
  exact ⟨h.withFlags rfl, rfl⟩

theorem Holds.getEventMask (h : e.Holds f) : Matches (e.call .getEventMask) (f.step .getEventMask) := by
  refine ⟨_, _, rfl, h, ?_⟩
  rw [BofEvent.getEventMask, if_pos h.magic]
  exact congrArg (Out.mask · _) h.flags

theorem Holds.isEventSignaled (h : e.Holds f) (i : Nat) :
    Matches (e.call (.isEventSignaled i)) (f.step (.isEventSignaled i)) := by
  refine ⟨_, _, rfl, h, congrArg Out.signaled ?_⟩
  rw [BofEvent.isEventSignaled, if_pos h.magic, h.size]
  split
  · next hi => exact decide_eq_decide.mpr ((h.and_flag (h.lt hi)).trans (and_iff_right hi).symm)
  · next hi => exact (decide_eq_false fun hc => hi hc.1).symm

/-! ### The waits -/

section predicateEvent

variable {i : Nat}

theorem predicateEvent_unset (h : ¬e.SignaledBitmask_U64 &&& flag i ≠ 0) : predicateEvent i e = some (false, e) := by
  rw [predicateEvent, decide_eq_false h]
  rfl

theorem predicateEvent_keep (h : e.SignaledBitmask_U64 &&& flag i ≠ 0) (hkeep : e.WaitKeepSignaled_B = true) :
    predicateEvent i e = some (true, e) := by
  rw [predicateEvent, decide_eq_true h, hkeep]
  rfl

theorem predicateEvent_take (h : e.SignaledBitmask_U64 &&& flag i ≠ 0) (hkeep : e.WaitKeepSignaled_B = false)
    (hi : i < 32) :
    predicateEvent i e = some (true,
      { e with SignaledBitmask_U64 := e.SignaledBitmask_U64 &&& toU64 (~~~(1#32 <<< i)) }) := by
  rw [predicateEvent, decide_eq_true h, hkeep, shiftOne, if_pos hi]
  rfl

theorem predicateEvent_undefined (h : e.SignaledBitmask_U64 &&& flag i ≠ 0) (hkeep : e.WaitKeepSignaled_B = false)
    (hi : ¬i < 32) : predicateEvent i e = none := by
  rw [predicateEvent, decide_eq_true h, hkeep, shiftOne, if_neg hi]
  rfl

end predicateEvent

/-- A wait for one flag that takes it clears this flag only. -/
theorem Holds.positions_take (h : e.Holds f) {i : Nat}
    (hc : i < 31 ∨ i = 31 ∧ ∀ j ∈ positions e.SignaledBitmask_U64, j < 32) :
    positions (e.SignaledBitmask_U64 &&& toU64 (~~~(1#32 <<< i))) = f.flags \ {i} := by
  have hi : i < 32 := by omega
  ext j
  rw [mem_positions_clear hi, Finset.mem_sdiff, Finset.mem_singleton, ← h.flags]
  refine and_congr_right fun hj => ?_
  split
  · exact Iff.rfl
  · next hge =>
    obtain hlt | ⟨-, hlow⟩ := hc
    · exact iff_of_true (by omega) (by omega)
    · exact absurd (hlow j hj) hge

theorem Holds.waitForEvent (h : e.Holds f) {wakeUps i : Nat} (hc : TakesItsFlag (some e) (.waitForEvent wakeUps i)) :
    Matches (e.call (.waitForEvent wakeUps i)) (f.step (.waitForEvent wakeUps i)) := by
  rw [call, BofEvent.waitForEvent, if_pos h.magic, FlagSet.step]
  by_cases hi : i < f.size
  · rw [if_pos hi, if_pos (h.size ▸ hi)]
    by_cases hset : i ∈ f.flags
    · rw [if_pos hset]
      have hbit := (h.and_flag (h.lt hi)).mpr hset
      cases hkeep : f.keep with
      | true =>
        rw [waitFor_true (predicateEvent_keep hbit (h.keep.trans hkeep)), FlagSet.take, if_pos hkeep]
        exact ⟨_, _, rfl, h, rfl⟩
      | false =>
        have hlow := hc (h.size ▸ hi) (h.flags ▸ hset) (h.keep.trans hkeep)
        rw [waitFor_true (predicateEvent_take hbit (h.keep.trans hkeep) (by omega)), FlagSet.take,
          if_neg (ne_true_of_eq_false hkeep)]
        exact ⟨_, _, rfl, h.withFlags (h.positions_take hlow), rfl⟩
    · rw [if_neg hset]
      have hpred := predicateEvent_unset (mt (h.and_flag (h.lt hi)).mp hset)
      rw [waitFor_false hpred hpred]
      exact ⟨_, _, rfl, h, rfl⟩
  · rw [if_neg hi, if_neg (h.size ▸ hi)]
    exact ⟨_, _, rfl, h, rfl⟩

section predicateMask

variable {mask : BitVec 64}

theorem predicateMaskAnd_unset (h : ¬e.SignaledBitmask_U64 &&& mask = mask) : predicateMaskAnd mask e = (false, e) := by
  rw [predicateMaskAnd, decide_eq_false h]
  rfl

theorem predicateMaskAnd_keep (h : e.SignaledBitmask_U64 &&& mask = mask) (hkeep : e.WaitKeepSignaled_B = true) :
    predicateMaskAnd mask e = (true, e) := by
  rw [predicateMaskAnd, decide_eq_true h, hkeep]
  rfl

theorem predicateMaskAnd_take (h : e.SignaledBitmask_U64 &&& mask = mask) (hkeep : e.WaitKeepSignaled_B = false) :
    predicateMaskAnd mask e =
      (true, { e with SignaledBitmask_U64 := e.SignaledBitmask_U64 &&& ~~~mask }) := by
  rw [predicateMaskAnd, decide_eq_true h, hkeep]
  rfl

theorem predicateMaskOr_unset (h : ¬e.SignaledBitmask_U64 &&& mask ≠ 0) : predicateMaskOr mask e = (false, e, 0) := by
  rw [predicateMaskOr, not_not.mp h]
  rfl

theorem predicateMaskOr_keep (h : e.SignaledBitmask_U64 &&& mask ≠ 0) (hkeep : e.WaitKeepSignaled_B = true) :
    predicateMaskOr mask e = (true, e, e.SignaledBitmask_U64 &&& mask) := by
  rw [predicateMaskOr, decide_eq_true h, hkeep]
  rfl

theorem predicateMaskOr_take (h : e.SignaledBitmask_U64 &&& mask ≠ 0) (hkeep : e.WaitKeepSignaled_B = false) :
    predicateMaskOr mask e =
      (true, { e with SignaledBitmask_U64 := e.SignaledBitmask_U64 &&& ~~~(e.SignaledBitmask_U64 &&& mask) },
        e.SignaledBitmask_U64 &&& mask) := by
  rw [predicateMaskOr, decide_eq_true h, hkeep]
  rfl

end predicateMask

theorem Holds.waitForEventMaskAnd (h : e.Holds f) (wakeUps : Nat) (mask : BitVec 64) :
    Matches (e.call (.waitForEventMaskAnd wakeUps mask)) (f.step (.waitForEventMaskAnd wakeUps mask)) := by
  rw [call, BofEvent.waitForEventMaskAnd, if_pos h.magic, FlagSet.step]
  have hiff : e.SignaledBitmask_U64 &&& mask = mask ↔ positions mask ⊆ f.flags := h.flags ▸ and_eq_right_iff
  by_cases hset : positions mask ⊆ f.flags
  · rw [if_pos hset]
    have hmask := hiff.mpr hset
    cases hkeep : f.keep with
    | true =>
      rw [waitFor_true (congrArg some (predicateMaskAnd_keep hmask (h.keep.trans hkeep))), FlagSet.take, if_pos hkeep]
      exact ⟨_, _, rfl, h, rfl⟩
    | false =>
      rw [waitFor_true (congrArg some (predicateMaskAnd_take hmask (h.keep.trans hkeep))), FlagSet.take,
        if_neg (ne_true_of_eq_false hkeep)]
      refine ⟨_, _, rfl, h.withFlags ?_, rfl⟩
      rw [positions_and_not, h.flags]
  · rw [if_neg hset]
    have hpred := congrArg some (predicateMaskAnd_unset (mt hiff.mp hset))
    rw [waitFor_false hpred hpred]
    exact ⟨_, _, rfl, h, rfl⟩

theorem Holds.waitForEventMaskOr (h : e.Holds f) (wakeUps : Nat) (mask : BitVec 64) :
    Matches (e.call (.waitForEventMaskOr wakeUps mask)) (f.step (.waitForEventMaskOr wakeUps mask)) := by
  rw [call, BofEvent.waitForEventMaskOr, if_pos h.magic, FlagSet.step]
  have hgot : positions (e.SignaledBitmask_U64 &&& mask) = f.flags ∩ positions mask := by
    rw [positions_and, h.flags]
  have hiff : e.SignaledBitmask_U64 &&& mask ≠ 0 ↔ f.flags ∩ positions mask ≠ ∅ := by
    rw [← hgot]
    exact positions_eq_empty.not.symm
  by_cases hset : f.flags ∩ positions mask ≠ ∅
  · rw [if_pos hset, ← hgot]
    have hmask := hiff.mpr hset
    cases hkeep : f.keep with
    | true =>
      rw [waitFor_true (congrArg some (predicateMaskOr_keep hmask (h.keep.trans hkeep))), FlagSet.take, if_pos hkeep]
      exact ⟨_, _, rfl, h, rfl⟩
    | false =>
      rw [waitFor_true (congrArg some (predicateMaskOr_take hmask (h.keep.trans hkeep))), FlagSet.take,
        if_neg (ne_true_of_eq_false hkeep)]
      refine ⟨_, _, rfl, h.withFlags ?_, rfl⟩
      rw [positions_and_not, h.flags]
  · rw [if_neg hset]
    have hpred := congrArg some (predicateMaskOr_unset (mt hiff.mp hset))
    rw [waitFor_false hpred hpred]
    exact ⟨_, _, rfl, h, congrArg (Out.mask · _) positions_zero⟩

theorem Holds.call (h : e.Holds f) {op : Op} (hc : TakesItsFlag (some e) op) : Matches (e.call op) (f.step op) := by
  cases op with
  | signalEvent i => exact h.signalEvent i
  | setEventMask v => exact h.setEventMask v
  | getEventMask => exact h.getEventMask
  | isEventSignaled i => exact h.isEventSignaled i
  | waitForEvent wakeUps i => exact h.waitForEvent hc
  | waitForEventMaskAnd wakeUps mask => exact h.waitForEventMaskAnd wakeUps mask
  | waitForEventMaskOr wakeUps mask => exact h.waitForEventMaskOr wakeUps mask

/-- A wait for one flag that is set, where the condition fails: the effect is not defined, or other flags are lost. -/
theorem Holds.not_waitForEvent (h : e.Holds f) {wakeUps i : Nat}
    (hc : ¬TakesItsFlag (some e) (.waitForEvent wakeUps i)) :
    ¬HoldsFlags (step (some e) (.waitForEvent wakeUps i)).1 (f.step (.waitForEvent wakeUps i)).1 := by
  simp only [TakesItsFlag, not_forall] at hc
  obtain ⟨hi, hset, hkeep, hc⟩ := hc
  have hi' : i < f.size := h.size ▸ hi
  have hset' : i ∈ f.flags := h.flags ▸ hset
  have hbit := (h.and_flag (h.lt hi')).mpr hset'
  rw [step, Option.bind_some, BofEvent.call, BofEvent.waitForEvent, if_pos h.magic, if_pos hi, FlagSet.step, if_pos hi',
    if_pos hset', FlagSet.take, if_neg (by rw [← h.keep, hkeep]; decide)]
  by_cases hlt : i < 32
  · rw [waitFor_true (predicateEvent_take hbit hkeep hlt)]
    rintro ⟨e', heq, he'⟩
    obtain rfl : _ = e' := Option.some.inj heq
    have h31 : i = 31 := by omega
    simp only [h31, true_and, not_or, not_forall] at hc
    obtain ⟨-, j, hj, hge⟩ := hc
    have hflags : positions (e.SignaledBitmask_U64 &&& toU64 (~~~(1#32 <<< i))) = f.flags \ {i} := he'.flags
    -- the flag `j` of the upper half is cleared too
    have hmem : j ∈ f.flags \ {i} := by
      rw [Finset.mem_sdiff, Finset.mem_singleton, ← h.flags]
      exact ⟨hj, by omega⟩
    rw [← hflags, mem_positions_clear hlt, if_neg hge] at hmem
    exact hmem.2 h31
  · rw [waitFor_none (predicateEvent_undefined hbit hkeep hlt)]
    rintro ⟨e', heq, -⟩
    cases heq

/-! ## Runs -/

theorem HoldsFlags.step {s : Option BofEvent} {op : Op} (h : HoldsFlags s f) (hc : TakesItsFlag s op) :
    HoldsFlags (BofEvent.step s op).1 (f.step op).1 ∧ (BofEvent.step s op).2.flags = (f.step op).2 := by
  obtain ⟨e, rfl, he⟩ := h
  obtain ⟨e', out, heq, he', hout⟩ := he.call hc
  rw [BofEvent.step, Option.bind_some, heq]
  exact ⟨⟨e', rfl, he'⟩, hout⟩

theorem HoldsFlags.step_iff {s : Option BofEvent} (op : Op) (h : HoldsFlags s f) :
    HoldsFlags (BofEvent.step s op).1 (f.step op).1 ↔ TakesItsFlag s op := by
  refine ⟨fun hstep => ?_, fun hc => (h.step hc).1⟩
  obtain ⟨e, rfl, he⟩ := h
  by_contra hc
  cases op with
  | waitForEvent wakeUps i => exact he.not_waitForEvent hc hstep
  | signalEvent _ | setEventMask _ | getEventMask | isEventSignaled _ | waitForEventMaskAnd _ _
  | waitForEventMaskOr _ _ => exact hc trivial

/-- A new event holds what it is to hold exactly if no flag is to be set. -/
theorem holdsFlags_created {n : Nat} (h0 : n ≠ 0) (h64 : n ≤ 64) (initialState keep notifyAll : Bool) :
    HoldsFlags (created initialState n keep notifyAll) (initialFlags initialState n keep) ↔ initialState = false := by
  have hmagic : ({} : BofEvent).Magic_U32 ≠ eventMagic := by decide
  rw [created, createEvent, if_pos hmagic, if_pos ⟨h0, h64⟩]
  cases initialState with
  | false => exact iff_of_true ⟨_, rfl, ⟨rfl, rfl, h64, rfl, positions_zero⟩⟩ rfl
  | true =>
    refine iff_of_false ?_ (by decide)
    rintro ⟨e, heq, he⟩
    cases hmask : initialMask true n with
    | none =>
      rw [hmask] at heq
      exact nomatch heq
    | some mask =>
      rw [hmask] at heq
      obtain rfl := Option.some.inj heq
      refine initialMask_true hmask ?_
      have hflags : positions mask = Finset.range n := he.flags
      rw [hflags, Finset.mem_range]
      omega

/-- An event is a set of flags along a run exactly if it is created with no flag set and every wait for one flag
that takes it is for one of the lower 31, or for the last one of the lower half with no flag set above it. -/
theorem isFlagSet_iff {n : Nat} (h0 : 1 ≤ n) (h64 : n ≤ 64) (initialState keep notifyAll : Bool) (ops : List Op) :
    IsFlagSet initialState n keep notifyAll ops ↔
      initialState = false ∧ Meets step TakesItsFlag (created initialState n keep notifyAll) ops := by
  have hcreated := holdsFlags_created (Nat.one_le_iff_ne_zero.mp h0) h64 initialState keep notifyAll
  have hstep : ∀ s f op, HoldsFlags s f →
      (HoldsFlags (step s op).1 (f.step op).1 ↔ TakesItsFlag s op) := fun _ _ op hs => hs.step_iff op
  constructor
  · intro h
    have hinit := h.holds [] List.nil_prefix
    exact ⟨hcreated.mp hinit, (forall_prefix_rel_iff_meets hstep hinit).mp h.holds⟩
  · rintro ⟨hinit, hmeets⟩
    have hinit' := hcreated.mpr hinit
    refine ⟨(forall_prefix_rel_iff_meets hstep hinit').mpr hmeets, ?_⟩
    exact (sim_run (fun _ _ _ hs hc => hs.step hc) hinit' hmeets).2

theorem isFlagSet_three : 1 ≤ 40 ∧ 40 ≤ 64 ∧
    IsFlagSet false 40 false true [.signalEvent 35, .signalEvent 7, .waitForEvent 2 7] :=
  ⟨by decide, by decide, (isFlagSet_iff (by decide) (by decide) false false true _).mpr ⟨rfl, by decide⟩⟩

/-- A wait for flag 31 loses flag 40, and an event with eight flags that are all to be set lacks the last one. -/
theorem not_isFlagSet_two :
    ¬IsFlagSet false 64 false true [.signalEvent 31, .signalEvent 40, .waitForEvent 0 31] ∧
      ¬IsFlagSet true 8 false true [] := by
  constructor
  · intro h
    obtain ⟨e, heq, he⟩ := h.holds _ (List.prefix_refl _)
    have hmem : 40 ∈ positions e.SignaledBitmask_U64 := he.flags ▸ by decide
    rw [← Option.some.inj heq] at hmem
    exact absurd hmem (by decide)
  · intro h
    obtain ⟨e, heq, he⟩ := h.holds [] List.nil_prefix
    have hmem : 7 ∈ positions e.SignaledBitmask_U64 := he.flags ▸ by decide
    rw [← Option.some.inj heq] at hmem
    exact absurd hmem (by decide)

end BofStd.BofEvent

/-!
# A shared `BOF_EVENT`: which runs lose no wake-up

A predicate that holds only clears flags, so it makes no other predicate true (`Holding.of_and`), and
`Bof_SignalEvent` wakes up everybody. What is left of the conditions of the monitor is `SetsNothingAwaited`.
-/

namespace BofStd.BofEvent

open Machine BitMask Monitor

variable {e : BofEvent}

/-! ## The predicates -/

/-- Clearing flags makes no predicate true. -/
theorem Holding.of_and {c : BitVec 64} {w : Wait}
    (h : Holding { e with SignaledBitmask_U64 := e.SignaledBitmask_U64 &&& c } w) : Holding e w := by
  have hzero : ∀ mask, e.SignaledBitmask_U64 &&& c &&& mask ≠ 0 → e.SignaledBitmask_U64 &&& mask ≠ 0 := by
    intro mask hne heq
    rw [BitVec.and_assoc, BitVec.and_comm c, ← BitVec.and_assoc, heq] at hne
    exact hne BitVec.zero_and
  cases w with
  | event i => exact hzero (flag i) h
  | maskAnd mask =>
    have hsub := and_eq_right_iff.mp h
    rw [positions_and] at hsub
    exact and_eq_right_iff.mpr (hsub.trans Finset.inter_subset_left)
  | maskOr mask => exact hzero mask h

theorem monitor_test_false {w : Wait} (h : ¬Holding e w) : monitor.test e w = some (false, e) := by
  cases w with
  | event i => exact predicateEvent_unset h
  | maskAnd mask => exact congrArg some (predicateMaskAnd_unset h)
  | maskOr mask =>
    have hpred : test e (.maskOr mask) = some (false, e) := by rw [test, predicateMaskOr_unset h]
    exact hpred

/-- What a predicate that holds returns: the event, or the event with flags cleared. -/
theorem monitor_test_true {w : Wait} {b : Bool} {e' : BofEvent} (h : Holding e w) (htest : monitor.test e w = some (b, e')) :
    b = true ∧ (e' = e ∨ ∃ c, e' = { e with SignaledBitmask_U64 := e.SignaledBitmask_U64 &&& c }) := by
  change test e w = some (b, e') at htest
  obtain hkeep | hkeep := Bool.eq_false_or_eq_true e.WaitKeepSignaled_B
  · have heq : test e w = some (true, e) := by
      cases w with
      | event i => exact predicateEvent_keep h hkeep
      | maskAnd mask => exact congrArg some (predicateMaskAnd_keep h hkeep)
      | maskOr mask => rw [test, predicateMaskOr_keep h hkeep]
    obtain ⟨rfl, rfl⟩ := Prod.mk.inj (Option.some.inj (heq.symm.trans htest))
    exact ⟨rfl, .inl rfl⟩
  · obtain hnone | ⟨c, heq⟩ : test e w = none ∨
        ∃ c, test e w = some (true, { e with SignaledBitmask_U64 := e.SignaledBitmask_U64 &&& c }) := by
      cases w with
      | event i =>
        by_cases hi : i < 32
        · exact .inr ⟨_, predicateEvent_take h hkeep hi⟩
        · exact .inl (predicateEvent_undefined h hkeep hi)
      | maskAnd mask => exact .inr ⟨_, congrArg some (predicateMaskAnd_take h hkeep)⟩
      | maskOr mask => exact .inr ⟨_, by rw [test, predicateMaskOr_take h hkeep]⟩
    · exact nomatch hnone.symm.trans htest
    · obtain ⟨rfl, rfl⟩ := Prod.mk.inj (Option.some.inj (heq.symm.trans htest))
      exact ⟨rfl, .inr ⟨c, rfl⟩⟩

theorem monitor_lawful : Lawful monitor Holding where
  test_false := monitor_test_false
  test_true := by
    intro e w b e' h htest
    obtain ⟨hb, rfl | ⟨c, rfl⟩⟩ := monitor_test_true h htest
    · exact ⟨hb, fun _ hw => hw⟩
    · exact ⟨hb, fun _ hw => hw.of_and⟩

/-! ## Runs -/

variable {τ : Type} {s : System τ BofEvent Write Wait} {i : τ × Act τ Write Wait}

/-- An event that notifies all remains one. -/
def NotifiesAll (s : System τ BofEvent Write Wait) : Prop := ∀ e, s.state = some e → e.NotifyAll_B = true

theorem createEvent_notifyAll {n : Nat} {initialState keep notifyAll : Bool} {e : BofEvent}
    (h : createEvent initialState n keep notifyAll {} = some (e, .noError)) : e.NotifyAll_B = notifyAll := by
  have hmagic : ({} : BofEvent).Magic_U32 ≠ eventMagic := by decide
  rw [createEvent, if_pos hmagic] at h
  split at h
  · obtain ⟨mask, -, heq⟩ := Option.bind_eq_some_iff.mp h
    obtain ⟨rfl, -⟩ := Prod.mk.inj (Option.some.inj heq)
    rfl
  · cases h

/-- The test of `Bof_WaitForEvent` is not defined for a flag of the upper half that is to be taken. -/
theorem test_event_ne_none {e : BofEvent} {i : Nat} :
    test e (.event i) ≠ none ↔ (Holding e (.event i) → e.WaitKeepSignaled_B = false → i < 32) := by
  constructor
  · intro hne h hkeep
    by_contra hi
    exact hne (predicateEvent_undefined h hkeep hi)
  · intro hlow hnone
    by_cases h : Holding e (.event i)
    · obtain hkeep | hkeep := Bool.eq_false_or_eq_true e.WaitKeepSignaled_B
      · exact nomatch hnone.symm.trans (predicateEvent_keep h hkeep)
      · exact nomatch hnone.symm.trans (predicateEvent_take h hkeep (hlow h hkeep))
    · exact nomatch hnone.symm.trans (predicateEvent_unset h)

/-- Under `NotifiesAll` the condition of the monitor is that of the event. -/
theorem wakesUp_iff (h : NotifiesAll s) : WakesUp monitor Holding s i ↔ SetsNothingAwaited s i := by
  obtain ⟨t, a⟩ := i
  refine forall₂_congr fun e he => ?_
  cases a with
  | body picked =>
    cases s.pcs t with
    | inside c =>
      obtain (i | v) | (i | mask | mask) := c
      · exact iff_of_true (fun u w _ _ => .inl (if_pos (h e he))) trivial
      · -- nobody is notified
        refine forall₂_congr fun u w => forall_congr' fun _ => imp_congr_right fun _ => ?_
        exact iff_of_false (by rintro (hall | ⟨hone, -⟩) <;> contradiction) id
      · exact test_event_ne_none
      · exact iff_of_true nofun trivial
      · exact iff_of_true nofun trivial
    | idle | entering _ | leaving | blocked _ | notified _ => exact Iff.rfl
  | call _ | lock | unlock | wakeUp => exact Iff.rfl

variable [DecidableEq τ]

theorem NotifiesAll.step (h : NotifiesAll s) : NotifiesAll (Monitor.step monitor s i).1 := by
  refine step_state (P := fun e : BofEvent => e.NotifyAll_B = true) ?_ ?_ h i
  · intro e c he
    cases c with
    | signalEvent _ | setEventMask _ => exact he
  · intro e w r he htest
    obtain ⟨b, e'⟩ := r
    by_cases hw : Holding e w
    · obtain ⟨-, rfl | ⟨c, rfl⟩⟩ := monitor_test_true hw htest <;> exact he
    · obtain ⟨-, rfl⟩ := Prod.mk.inj (Option.some.inj ((monitor_test_false hw).symm.trans htest))
      exact he

/-- On an event that notifies all, no wake-up is lost in a run exactly if `Bof_SetEventMask` never sets what a
blocked thread waits for and `Bof_WaitForEvent` takes no flag of the upper half. -/
theorem event_noLostWakeUp_iff {n : Nat} {initialState keep : Bool} {e : BofEvent}
    (h : createEvent initialState n keep true {} = some (e, .noError)) (acts : List (τ × Act τ Write Wait)) :
    (∀ js, js <+: acts → NoLostWakeUp Holding (run (Monitor.step monitor) (start e) js).1) ↔
      Meets (Monitor.step monitor) SetsNothingAwaited (start e) acts := by
  have hall : NotifiesAll (start e : System τ BofEvent Write Wait) := by
    intro e' he'
    obtain rfl : e = e' := Option.some.inj he'
    exact createEvent_notifyAll h
  rw [noLostWakeUp_iff monitor_lawful]
  constructor
  · exact Meets.imp_of_inv (fun _ _ hs => (wakesUp_iff hs).mp) (fun _ _ hs _ => hs.step) hall
  · exact Meets.imp_of_inv (fun _ _ hs => (wakesUp_iff hs).mpr) (fun _ _ hs _ => hs.step) hall

/-- An event with one flag. -/
abbrev oneFlag : BofEvent where
  Magic_U32 := eventMagic
  MaxNumberToNotify_U32 := 1
  NotifyAll_B := true

/-- A thread blocks until another one signals the flag. -/
abbrev signalled : List (Bool × Act Bool Write Wait) :=
  [(false, .call (.inr (.event 0))), (false, .lock), (false, .body false), (true, .call (.inl (.signalEvent 0))),
    (true, .lock), (true, .body false), (true, .unlock), (false, .lock), (false, .body false)]

theorem event_noLostWakeUp_signalled : createEvent false 1 false true {} = some (oneFlag, .noError) ∧
    ∀ js, js <+: signalled → NoLostWakeUp Holding (run (Monitor.step monitor) (start oneFlag) js).1 := by
  have hcreate : createEvent false 1 false true {} = some (oneFlag, .noError) := rfl
  refine ⟨hcreate, (event_noLostWakeUp_iff hcreate signalled).mpr ?_⟩
  exact ⟨fun _ _ => trivial, fun _ _ => trivial, fun _ _ _ _ => by decide, fun _ _ => trivial, fun _ _ => trivial,
    fun _ _ => trivial, fun _ _ => trivial, fun _ _ => trivial, fun _ _ _ _ => by decide, trivial⟩

/-- A thread blocks on flag 0 and another one sets it with `Bof_SetEventMask`. -/
theorem event_lostWakeUp_setEventMask : createEvent false 1 false true {} = some (oneFlag, .noError) ∧
    ¬∀ js, js <+: [(false, .call (.inr (.event 0))), (false, .lock), (false, .body false),
        (true, .call (.inl (.setEventMask 1))), (true, .lock), (true, .body false)] →
      NoLostWakeUp Holding (run (Monitor.step monitor) (start oneFlag) js).1 := by
  refine ⟨rfl, fun h => ?_⟩
  obtain ⟨e, he, hblocked⟩ := h _ (List.prefix_refl _)
  obtain rfl := Option.some.inj he
  have hset : (1 : BitVec 64) &&& flag 0 ≠ 0 := by decide
  exact hblocked false (.event 0) rfl hset

end BofStd.BofEvent
