import Mathlib.Algebra.Group.Nat.Defs
import Mathlib.Data.Nat.Basic
import Mathlib.Data.List.Basic
import Mathlib.Algebra.GroupWithZero.Nat

/-!
# Running statistics (`bofstatistics.h`)

The type `T` of the samples is an unsigned integer type of `w` bits. `LockCount_U64` is not modelled: no function here
reads it.
-/

namespace BofStd

/-- `BOF_STAT_KEEP_LAST_NB_MAX_VAL`. -/
abbrev BOF_STAT_KEEP_LAST_NB_MAX_VAL : Nat := 16

/-- `BOF_STAT_MAX`. -/
structure StatMax (w : Nat) where
  MaxIndex_U64 : UInt64 := 0xFFFFFFFF
  Max : BitVec w := 0

/-- `BOF_STAT_VARIABLE`, with the values of `Reset`. -/
structure StatVariable (w : Nat) where
  Crt : BitVec w := 0
  Min : BitVec w := BitVec.allOnes w
  Max : BitVec w := 0
  Mean : BitVec w := 0
  MeanAcc : BitVec w := 0
  NbSample_U64 : UInt64 := 0
  NbMax_U32 : Nat := 0
  pMax_X : Vector (StatMax w) BOF_STAT_KEEP_LAST_NB_MAX_VAL := Vector.replicate _ {}

namespace StatVariable

variable {w : Nat}

/-- The part of `Bof_UpdateStatMean` behind the ignored sample. -/
def accumulate (s : StatVariable w) : StatVariable w :=
  let tempAccumulator := s.MeanAcc + s.Crt
  let s' := { s with MeanAcc := tempAccumulator, NbSample_U64 := s.NbSample_U64 + 1 }
  let s :=
    if s.MeanAcc ≤ tempAccumulator then
      if s'.NbSample_U64 = 0 then { s' with MeanAcc := s.Mean, NbSample_U64 := 1 } else s'
    -- the accumulator rolls over
    else { s with MeanAcc := s.Mean, NbSample_U64 := 1 }
  { s with Mean := BitVec.ofNat w (s.MeanAcc.toNat / s.NbSample_U64.toNat) }

/-- `Bof_UpdateStatMean`. -/
def updateStatMean (ignoreFirstSample : Bool) (s : StatVariable w) : StatVariable w :=
  if ignoreFirstSample ∧ s.NbSample_U64 = 0 then { s with NbSample_U64 := 1, MeanAcc := 0 }
  else
    let s := if ignoreFirstSample ∧ s.NbSample_U64 = 1 then { s with MeanAcc := s.Crt } else s
    s.accumulate

/-- A new maximum is kept while there is room for it. -/
def keepMax (s : StatVariable w) : StatVariable w :=
  if h : s.NbMax_U32 < BOF_STAT_KEEP_LAST_NB_MAX_VAL then
    { s with
      pMax_X := s.pMax_X.set s.NbMax_U32 ⟨s.NbSample_U64, s.Crt⟩ h
      NbMax_U32 := s.NbMax_U32 + 1 }
  else s

/-- The part of `Bof_UpdateStatVar` for a sample that is not the first one. -/
def updateExtremes (s : StatVariable w) : StatVariable w :=
  let s := if s.Crt < s.Min then { s with Min := s.Crt } else s
  if s.Max < s.Crt then { s with Max := s.Crt }.keepMax else s

/-- `Bof_UpdateStatVar`. -/
def updateStatVar (ignoreFirstSample : Bool) (s : StatVariable w) (val : BitVec w) : StatVariable w :=
  let s := { s with Crt := val }
  let s :=
    if s.NbSample_U64 = 0 then
      if ¬ ignoreFirstSample then
        { s with
          Min := val
          Max := val
          pMax_X := s.pMax_X.set 0 ⟨0, val⟩
          NbMax_U32 := 1 }
      else s
    else s.updateExtremes
  s.updateStatMean ignoreFirstSample

/-- A fresh variable that gets the samples. -/
def run (ignoreFirstSample : Bool) (samples : List (BitVec w)) : StatVariable w :=
  samples.foldl (updateStatVar ignoreFirstSample) {}

/-! ## What they are for -/

/-- The samples that are larger than all those before them. -/
def recordHighs (samples : List (BitVec w)) : List (BitVec w) :=
  (List.range samples.length).filterMap fun i => samples[i]?.filter fun x => ∀ y ∈ samples.take i, y < x

def sum (samples : List (BitVec w)) : Nat := (samples.map BitVec.toNat).sum

/-- The statistics of the samples. Their mean is exact as long as the sum fits and the samples can be counted. -/
structure Describes (s : StatVariable w) (samples : List (BitVec w)) : Prop where
  minimum : s.Min ∈ samples ∧ ∀ x ∈ samples, s.Min ≤ x
  maximum : s.Max ∈ samples ∧ ∀ x ∈ samples, x ≤ s.Max
  highs : (s.pMax_X.toList.take s.NbMax_U32).map StatMax.Max =
    (recordHighs samples).take BOF_STAT_KEEP_LAST_NB_MAX_VAL
  nbMax : s.NbMax_U32 = min BOF_STAT_KEEP_LAST_NB_MAX_VAL (recordHighs samples).length
  mean : sum samples < 2 ^ w → samples.length < 2 ^ 64 →
    s.NbSample_U64.toNat = samples.length ∧ s.Mean.toNat = sum samples / samples.length
  between : s.Min ≤ s.Mean ∧ s.Mean ≤ s.Max

/-- A sample that may be added once more: the quotient of the sum by the number of samples stays the same when both
get larger by this sample. -/
def NearMean (x : BitVec w) (samples : List (BitVec w)) : Prop :=
  let n := samples.length
  sum samples / n ≤ x.toNat + sum samples % n ∧ x.toNat + sum samples % n ≤ sum samples / n + n

instance (x : BitVec w) (samples : List (BitVec w)) : Decidable (NearMean x samples) :=
  inferInstanceAs (Decidable (_ ∧ _))

/-- Two variables with the same minimum, maximum and mean. -/
structure SameStatistics (s t : StatVariable w) : Prop where
  Min : s.Min = t.Min
  Max : s.Max = t.Max
  Mean : s.Mean = t.Mean

end StatVariable

end BofStd
