import BofStd.Statistics
import Mathlib.Data.List.Induction

/-!
# Running statistics

The accumulator holds at least the minimum and at most the maximum for each sample that it counts, also after it has
been restarted from the mean (`Tracks`). A variable that ignores its first sample counts it nevertheless, and adds the
second one twice (`sameStatistics_iff`).
-/

namespace BofStd

namespace StatVariable

variable {w : Nat} {s t : StatVariable w} {samples : List (BitVec w)} {x : BitVec w}

/-! ## The accumulator -/

theorem le_add_iff {a b : BitVec w} : a ≤ a + b ↔ a.toNat + b.toNat < 2 ^ w := by
  have ha := a.isLt
  have hb := b.isLt
  rw [BitVec.le_def, BitVec.toNat_add]
  constructor
  · intro h
    by_contra hover
    rw [Nat.mod_eq_sub_mod (by omega), Nat.mod_eq_of_lt (by omega)] at h
    omega
  · intro h
    rw [Nat.mod_eq_of_lt h]
    omega

theorem succ_eq_zero_iff {n : UInt64} : n + 1 = 0 ↔ 2 ^ 64 ≤ n.toNat + 1 := by
  have hn := n.toNat_lt
  rw [← UInt64.toNat_inj, UInt64.toNat_add]
  show (n.toNat + 1) % 2 ^ 64 = 0 ↔ _
  omega

theorem toNat_succ {n : UInt64} (h : n.toNat + 1 < 2 ^ 64) : (n + 1).toNat = n.toNat + 1 := by
  rw [UInt64.toNat_add]
  exact Nat.mod_eq_of_lt h

/-- The sample is added and counted, or the accumulator is restarted. -/
theorem accumulate_cases (s : StatVariable w) :
    (s.MeanAcc.toNat + s.Crt.toNat < 2 ^ w ∧ s.NbSample_U64.toNat + 1 < 2 ^ 64 ∧
        s.accumulate.MeanAcc.toNat = s.MeanAcc.toNat + s.Crt.toNat ∧
        s.accumulate.NbSample_U64.toNat = s.NbSample_U64.toNat + 1) ∨
      ((2 ^ w ≤ s.MeanAcc.toNat + s.Crt.toNat ∨ 2 ^ 64 ≤ s.NbSample_U64.toNat + 1) ∧
        s.accumulate.MeanAcc = s.Mean ∧ s.accumulate.NbSample_U64.toNat = 1) := by
  unfold accumulate
  dsimp only
  split_ifs with hroom hcount
  · exact .inr ⟨.inr (succ_eq_zero_iff.mp hcount), rfl, rfl⟩
  · rw [le_add_iff] at hroom
    rw [succ_eq_zero_iff, Nat.not_le] at hcount
    refine .inl ⟨hroom, hcount, ?_, toNat_succ hcount⟩
    rw [BitVec.toNat_add, Nat.mod_eq_of_lt hroom]
  · rw [le_add_iff, Nat.not_lt] at hroom
    exact .inr ⟨.inl hroom, rfl, rfl⟩

theorem accumulate_mean (s : StatVariable w) :
    s.accumulate.Mean.toNat = s.accumulate.MeanAcc.toNat / s.accumulate.NbSample_U64.toNat := by
  refine (BitVec.toNat_ofNat _ _).trans (Nat.mod_eq_of_lt ?_)
  exact Nat.lt_of_le_of_lt (Nat.div_le_self _ _) (BitVec.isLt _)

@[simp] theorem accumulate_Min (s : StatVariable w) : s.accumulate.Min = s.Min := by
  unfold accumulate
  dsimp only
  split_ifs <;> rfl

@[simp] theorem accumulate_Max (s : StatVariable w) : s.accumulate.Max = s.Max := by
  unfold accumulate
  dsimp only
  split_ifs <;> rfl

@[simp] theorem accumulate_NbMax (s : StatVariable w) : s.accumulate.NbMax_U32 = s.NbMax_U32 := by
  unfold accumulate
  dsimp only
  split_ifs <;> rfl

@[simp] theorem accumulate_pMax (s : StatVariable w) : s.accumulate.pMax_X = s.pMax_X := by
  unfold accumulate
  dsimp only
  split_ifs <;> rfl

/-! ## The extremes -/

@[simp] theorem keepMax_Min (s : StatVariable w) : s.keepMax.Min = s.Min := by
  unfold keepMax
  split <;> rfl

@[simp] theorem keepMax_Max (s : StatVariable w) : s.keepMax.Max = s.Max := by
  unfold keepMax
  split <;> rfl

theorem keepMax_mean (s : StatVariable w) : s.keepMax.Crt = s.Crt ∧ s.keepMax.MeanAcc = s.MeanAcc ∧
    s.keepMax.Mean = s.Mean ∧ s.keepMax.NbSample_U64 = s.NbSample_U64 := by
  unfold keepMax
  split <;> exact ⟨rfl, rfl, rfl, rfl⟩

theorem updateExtremes_Min (s : StatVariable w) :
    s.updateExtremes.Min = if s.Crt < s.Min then s.Crt else s.Min := by
  unfold updateExtremes
  dsimp only
  split_ifs <;> simp

theorem updateExtremes_Max (s : StatVariable w) :
    s.updateExtremes.Max = if s.Max < s.Crt then s.Crt else s.Max := by
  unfold updateExtremes
  dsimp only
  split_ifs <;> simp [*]

/-- The minimum is not above the sample, nor above the one before; the same for the maximum. -/
theorem updateExtremes_Min_le (s : StatVariable w) :
    s.updateExtremes.Min ≤ s.Crt ∧ s.updateExtremes.Min ≤ s.Min := by
  rw [updateExtremes_Min]
  simp only [BitVec.le_def, BitVec.lt_def]
  split_ifs <;> omega

theorem le_updateExtremes_Max (s : StatVariable w) :
    s.Crt ≤ s.updateExtremes.Max ∧ s.Max ≤ s.updateExtremes.Max := by
  rw [updateExtremes_Max]
  simp only [BitVec.le_def, BitVec.lt_def]
  split_ifs <;> omega

/-- The extremes of a fresh variable are those of its first sample. -/
theorem updateExtremes_Min_of_allOnes {s : StatVariable w} (h : s.Min = BitVec.allOnes w) :
    s.updateExtremes.Min = s.Crt := by
  have htop := s.Crt.isLt
  rw [updateExtremes_Min, h]
  split_ifs with hlt
  · rfl
  · rw [BitVec.lt_def, BitVec.toNat_allOnes] at hlt
    apply BitVec.eq_of_toNat_eq
    rw [BitVec.toNat_allOnes]
    omega

theorem updateExtremes_Max_of_zero {s : StatVariable w} (h : s.Max = 0) : s.updateExtremes.Max = s.Crt := by
  rw [updateExtremes_Max, h]
  split_ifs with hlt
  · rfl
  · rw [BitVec.lt_def, BitVec.ofNat_eq_ofNat, BitVec.toNat_zero] at hlt
    apply BitVec.eq_of_toNat_eq
    rw [BitVec.ofNat_eq_ofNat, BitVec.toNat_zero]
    omega

/-- The extremes leave the mean alone. -/
theorem updateExtremes_mean (s : StatVariable w) : s.updateExtremes.Crt = s.Crt ∧
    s.updateExtremes.MeanAcc = s.MeanAcc ∧ s.updateExtremes.Mean = s.Mean ∧
    s.updateExtremes.NbSample_U64 = s.NbSample_U64 := by
  unfold updateExtremes
  dsimp only
  split_ifs
  · exact keepMax_mean _
  · exact ⟨rfl, rfl, rfl, rfl⟩
  · exact keepMax_mean _
  · exact ⟨rfl, rfl, rfl, rfl⟩

/-! ## Record highs -/

/-- One more sample is a record high if it is larger than all before it. -/
theorem recordHighs_concat (samples : List (BitVec w)) (x : BitVec w) :
    recordHighs (samples ++ [x]) = recordHighs samples ++ if ∀ y ∈ samples, y < x then [x] else [] := by
  have hfront : ∀ i ∈ List.range samples.length,
      ((samples ++ [x])[i]?.filter fun z => decide (∀ y ∈ (samples ++ [x]).take i, y < z)) =
        samples[i]?.filter fun z => decide (∀ y ∈ samples.take i, y < z) := by
    intro i hi
    have hlt := List.mem_range.mp hi
    rw [List.getElem?_append_left hlt, List.take_append_of_le_length (Nat.le_of_lt hlt)]
  unfold recordHighs
  rw [List.length_append, List.length_singleton, List.range_succ, List.filterMap_append,
    List.filterMap_congr hfront]
  congr 1
  rw [List.filterMap_cons, List.getElem?_concat_length, List.take_left']
  · rw [Option.filter_some]
    split_ifs with hhigh hhigh' hhigh'
    · rfl
    · exact absurd (of_decide_eq_true hhigh) hhigh'
    · exact absurd (decide_eq_true hhigh') hhigh
    · rfl
  · rfl

/-- The record highs that are kept. -/
structure Keeps (s : StatVariable w) (highs : List (BitVec w)) : Prop where
  nbMax : s.NbMax_U32 = min BOF_STAT_KEEP_LAST_NB_MAX_VAL highs.length
  highs : (s.pMax_X.toList.take s.NbMax_U32).map StatMax.Max = highs.take BOF_STAT_KEEP_LAST_NB_MAX_VAL

theorem Keeps.keepMax {highs : List (BitVec w)} (h : Keeps s highs) : Keeps s.keepMax (highs ++ [s.Crt]) := by
  have hnb := h.nbMax
  unfold StatVariable.keepMax
  split_ifs with hroom
  · have hlen : s.NbMax_U32 = highs.length := by omega
    have hlong : s.NbMax_U32 < s.pMax_X.toList.length := by
      rw [Vector.length_toList]
      exact hroom
    refine ⟨by simp; omega, ?_⟩
    have hhighs := h.highs
    rw [List.take_of_length_le (l := highs) (by omega)] at hhighs
    have hset : (s.pMax_X.toList.set s.NbMax_U32 ⟨s.NbSample_U64, s.Crt⟩).take (s.NbMax_U32 + 1) =
        s.pMax_X.toList.take s.NbMax_U32 ++ [⟨s.NbSample_U64, s.Crt⟩] := by
      rw [List.take_succ_eq_append_getElem (by rwa [List.length_set]), List.getElem_set_self,
        List.take_set_of_le (Nat.le_refl _)]
    rw [List.take_of_length_le (l := highs ++ [s.Crt]) (by simp; omega), Vector.toList_set, hset, List.map_append,
      hhighs]
    rfl
  · have hfull : BOF_STAT_KEEP_LAST_NB_MAX_VAL ≤ highs.length := by omega
    refine ⟨by simp; omega, ?_⟩
    rw [h.highs, List.take_append_of_le_length hfull]

theorem Keeps.congr {highs : List (BitVec w)} (h : Keeps s highs) (hnb : t.NbMax_U32 = s.NbMax_U32)
    (hmax : t.pMax_X = s.pMax_X) : Keeps t highs :=
  ⟨hnb.trans h.nbMax, by rw [hnb, hmax, h.highs]⟩

theorem Keeps.updateExtremes {highs : List (BitVec w)} (h : Keeps s highs) :
    Keeps s.updateExtremes (highs ++ if s.Max < s.Crt then [s.Crt] else []) := by
  unfold StatVariable.updateExtremes
  dsimp only
  split_ifs with hmin hmax hmax
  · exact (h.congr (t := { s with Min := s.Crt, Max := s.Crt }) rfl rfl).keepMax
  · rw [List.append_nil]
    exact h.congr rfl rfl
  · exact (h.congr (t := { s with Max := s.Crt }) rfl rfl).keepMax
  · rw [List.append_nil]
    exact h

/-! ## Runs over all samples -/

/-- What a variable knows about the samples. -/
structure Tracks (s : StatVariable w) (samples : List (BitVec w)) : Prop where
  minimum : s.Min ∈ samples ∧ ∀ x ∈ samples, s.Min ≤ x
  maximum : s.Max ∈ samples ∧ ∀ x ∈ samples, x ≤ s.Max
  kept : Keeps s (recordHighs samples)
  counted : 0 < s.NbSample_U64.toNat
  low : s.NbSample_U64.toNat * s.Min.toNat ≤ s.MeanAcc.toNat
  high : s.MeanAcc.toNat ≤ s.NbSample_U64.toNat * s.Max.toNat
  mean : s.Mean.toNat = s.MeanAcc.toNat / s.NbSample_U64.toNat
  exact : sum samples < 2 ^ w → samples.length < 2 ^ 64 →
    s.MeanAcc.toNat = sum samples ∧ s.NbSample_U64.toNat = samples.length

theorem Tracks.between (h : Tracks s samples) : s.Min ≤ s.Mean ∧ s.Mean ≤ s.Max := by
  rw [BitVec.le_def, BitVec.le_def, h.mean]
  exact ⟨(Nat.le_div_iff_mul_le h.counted).mpr (by rw [Nat.mul_comm]; exact h.low),
    Nat.div_le_of_le_mul h.high⟩

theorem sum_concat (samples : List (BitVec w)) (x : BitVec w) : sum (samples ++ [x]) = sum samples + x.toNat := by
  simp [sum]

/-- The accumulator holds its bounds over a sample that is within the extremes. -/
theorem accumulate_bounds (hmin : s.Min ≤ s.Crt) (hmax : s.Crt ≤ s.Max) (hmean : s.Min ≤ s.Mean ∧ s.Mean ≤ s.Max)
    (hlow : s.NbSample_U64.toNat * s.Min.toNat ≤ s.MeanAcc.toNat)
    (hhigh : s.MeanAcc.toNat ≤ s.NbSample_U64.toNat * s.Max.toNat) :
    0 < s.accumulate.NbSample_U64.toNat ∧
      s.accumulate.NbSample_U64.toNat * s.Min.toNat ≤ s.accumulate.MeanAcc.toNat ∧
      s.accumulate.MeanAcc.toNat ≤ s.accumulate.NbSample_U64.toNat * s.Max.toNat := by
  rw [BitVec.le_def] at hmin hmax
  rw [BitVec.le_def, BitVec.le_def] at hmean
  rcases accumulate_cases s with ⟨-, -, hacc, hnb⟩ | ⟨-, hacc, hnb⟩
  · rw [hacc, hnb, Nat.add_mul, Nat.add_mul]
    omega
  · rw [hacc, hnb]
    omega

theorem keepLast_pos : 0 < BOF_STAT_KEEP_LAST_NB_MAX_VAL := by decide

/-- A fresh variable with its first sample, in front of the mean. -/
def firstSample (x : BitVec w) : StatVariable w where
  Crt := x
  Min := x
  Max := x
  pMax_X := (Vector.replicate _ {}).set 0 ⟨0, x⟩ keepLast_pos
  NbMax_U32 := 1

theorem accumulate_firstSample (x : BitVec w) :
    (firstSample x).accumulate.MeanAcc.toNat = x.toNat ∧ (firstSample x).accumulate.NbSample_U64.toNat = 1 := by
  have hx := x.isLt
  have hzero : (firstSample x).MeanAcc.toNat = 0 := BitVec.toNat_zero
  have hcount : (firstSample x).NbSample_U64.toNat = 0 := rfl
  have hcrt : (firstSample x).Crt = x := rfl
  rcases accumulate_cases (firstSample x) with ⟨-, -, hacc, hnb⟩ | ⟨hover, -⟩
  · rw [hacc, hnb, hzero, hcount, hcrt]
    omega
  · rw [hzero, hcount, hcrt] at hover
    omega

/-- The first sample. -/
theorem tracks_first (x : BitVec w) : Tracks (updateStatVar false {} x) [x] := by
  have hstart : updateStatVar false {} x = (firstSample x).accumulate := rfl
  have hhighs : recordHighs [x] = [x] := by simp [recordHighs]
  have hmin : (firstSample x).Min = x := rfl
  have hmax : (firstSample x).Max = x := rfl
  obtain ⟨hacc, hnb⟩ := accumulate_firstSample x
  rw [hstart]
  constructor
  · rw [accumulate_Min, hmin]
    simp
  · rw [accumulate_Max, hmax]
    simp
  · refine Keeps.congr (s := firstSample x) ?_ (accumulate_NbMax _) (accumulate_pMax _)
    rw [hhighs]
    exact ⟨rfl, rfl⟩
  · omega
  · rw [hacc, hnb, accumulate_Min, hmin, Nat.one_mul]
  · rw [hacc, hnb, accumulate_Max, hmax, Nat.one_mul]
  · exact accumulate_mean _
  · intro _ _
    rw [hacc, hnb]
    simp [sum]

/-- A later sample moves the extremes and is accumulated. -/
theorem updateStatVar_later {ignoreFirstSample : Bool} (h : 0 < s.NbSample_U64.toNat)
    (hignore : ignoreFirstSample = true → 1 < s.NbSample_U64.toNat) (x : BitVec w) :
    s.updateStatVar ignoreFirstSample x = ({ s with Crt := x }.updateExtremes).accumulate := by
  have hnb : ¬ s.NbSample_U64 = 0 := by
    intro hzero
    rw [hzero] at h
    exact absurd h (by decide)
  have hone : ¬ (ignoreFirstSample = true ∧ s.NbSample_U64 = 1) := by
    rintro ⟨htrue, heq⟩
    have hgt := hignore htrue
    rw [heq] at hgt
    exact absurd hgt (by decide)
  have hcount := (updateExtremes_mean { s with Crt := x }).2.2.2
  unfold updateStatVar updateStatMean
  dsimp only at hcount ⊢
  rw [if_neg hnb, hcount, if_neg fun hzero => hnb hzero.2, if_neg hone]

/-- One more sample. -/
theorem Tracks.step (h : Tracks s samples) (x : BitVec w) : Tracks (s.updateStatVar false x) (samples ++ [x]) := by
  have hmin := updateExtremes_Min { s with Crt := x }
  have hmax := updateExtremes_Max { s with Crt := x }
  have hkept := (h.kept.congr (t := { s with Crt := x }) rfl rfl).updateExtremes
  obtain ⟨hcrt, hacc, hmean, hcount⟩ := updateExtremes_mean { s with Crt := x }
  rw [@updateStatVar_later w s false h.counted nofun]
  have hminLe' := updateExtremes_Min_le { s with Crt := x }
  have hmaxLe' := le_updateExtremes_Max { s with Crt := x }
  generalize { s with Crt := x }.updateExtremes = u at hmin hmax hminLe' hmaxLe' hkept hcrt hacc hmean hcount
  dsimp only at hmin hmax hminLe' hmaxLe' hkept hcrt hacc hmean hcount
  obtain ⟨hminMem, hminLe⟩ := h.minimum
  obtain ⟨hmaxMem, hmaxLe⟩ := h.maximum
  have hhigh : s.Max < x ↔ ∀ y ∈ samples, y < x := by
    constructor
    · intro hlt y hy
      exact Nat.lt_of_le_of_lt (hmaxLe y hy) hlt
    · intro hall
      exact hall _ hmaxMem
  have hbetween := h.between
  have hbounds := accumulate_bounds (s := u) (by rw [hcrt]; exact hminLe'.1) (by rw [hcrt]; exact hmaxLe'.1)
    (by rw [hmean]; exact ⟨BitVec.le_trans hminLe'.2 hbetween.1, BitVec.le_trans hbetween.2 hmaxLe'.2⟩)
    (by
      rw [hcount, hacc]
      exact Nat.le_trans (Nat.mul_le_mul_left _ hminLe'.2) h.low)
    (by
      rw [hcount, hacc]
      exact Nat.le_trans h.high (Nat.mul_le_mul_left _ hmaxLe'.2))
  constructor
  · rw [accumulate_Min]
    refine ⟨?_, List.forall_mem_append.mpr ⟨fun y hy => ?_, List.forall_mem_singleton.mpr hminLe'.1⟩⟩
    · rw [hmin]
      split_ifs <;> simp [hminMem]
    · exact BitVec.le_trans hminLe'.2 (hminLe y hy)
  · rw [accumulate_Max]
    refine ⟨?_, List.forall_mem_append.mpr ⟨fun y hy => ?_, List.forall_mem_singleton.mpr hmaxLe'.1⟩⟩
    · rw [hmax]
      split_ifs <;> simp [hmaxMem]
    · exact BitVec.le_trans (hmaxLe y hy) hmaxLe'.2
  · rw [recordHighs_concat]
    simp only [← hhigh]
    exact hkept.congr (accumulate_NbMax _) (accumulate_pMax _)
  · exact hbounds.1
  · rw [accumulate_Min]
    exact hbounds.2.1
  · rw [accumulate_Max]
    exact hbounds.2.2
  · exact accumulate_mean u
  · intro hsum hlen
    rw [sum_concat] at hsum ⊢
    rw [List.length_append, List.length_singleton] at hlen ⊢
    obtain ⟨hsacc, hsnb⟩ := h.exact (by omega) (by omega)
    rcases accumulate_cases u with ⟨-, -, hacc', hnb'⟩ | ⟨hover, -⟩
    · rw [hacc', hnb', hacc, hcount, hcrt, hsacc, hsnb]
      exact ⟨rfl, rfl⟩
    · rw [hacc, hcount, hcrt, hsacc, hsnb] at hover
      omega

theorem tracks_run (h : samples ≠ []) : Tracks (run false samples) samples := by
  obtain ⟨x, samples, rfl⟩ := List.exists_cons_of_ne_nil h
  induction samples using List.reverseRecOn with
  | nil => exact tracks_first x
  | append_singleton samples y ih =>
    rw [← List.cons_append, run, List.foldl_append]
    exact (ih (List.cons_ne_nil _ _)).step y

/-- Every variable that has got samples has their statistics. -/
theorem run_describes (samples : List (BitVec w)) (h : samples ≠ []) : Describes (run false samples) samples := by
  have htracks := tracks_run h
  refine ⟨htracks.minimum, htracks.maximum, htracks.kept.highs, htracks.kept.nbMax, fun hsum hlen => ?_,
    htracks.between⟩
  obtain ⟨hacc, hnb⟩ := htracks.exact hsum hlen
  exact ⟨hnb, by rw [htracks.mean, hacc, hnb]⟩

/-- The statistics of three bytes, which roll over. -/
theorem run_describes_bytes : Describes (run false [200#8, 100#8, 250#8]) [200#8, 100#8, 250#8] :=
  run_describes _ (by decide)

/-- As many zeros as a 64-bit counter has values are not counted. -/
theorem not_counted_zeros : sum (List.replicate (2 ^ 64) 0#64) < 2 ^ 64 ∧
    (run false (List.replicate (2 ^ 64) 0#64)).NbSample_U64.toNat ≠ (List.replicate (2 ^ 64) 0#64).length := by
  constructor
  · rw [sum, List.map_replicate, List.sum_replicate_nat]
    decide
  · rw [List.length_replicate]
    exact Nat.ne_of_lt (UInt64.toNat_lt _)

/-! ## Ignoring the first sample -/

/-- A variable that has ignored a sample beside one that has not got it: it has counted one sample more, and has added
`x` once more. -/
structure Shadows (x : BitVec w) (s t : StatVariable w) : Prop where
  Min : s.Min = t.Min
  Max : s.Max = t.Max
  counted : s.NbSample_U64.toNat = t.NbSample_U64.toNat + 1
  added : s.MeanAcc.toNat = t.MeanAcc.toNat + x.toNat
  mean : s.Mean.toNat = s.MeanAcc.toNat / s.NbSample_U64.toNat

/-- What a sample that fits in the accumulator adds. -/
theorem accumulate_room (hacc : s.MeanAcc.toNat + s.Crt.toNat < 2 ^ w) (hnb : s.NbSample_U64.toNat + 1 < 2 ^ 64) :
    s.accumulate.MeanAcc.toNat = s.MeanAcc.toNat + s.Crt.toNat ∧
      s.accumulate.NbSample_U64.toNat = s.NbSample_U64.toNat + 1 := by
  rcases accumulate_cases s with ⟨-, -, hadd⟩ | ⟨hover, -⟩
  · exact hadd
  · omega

/-- The second sample is taken in twice. -/
theorem shadows_first (first x : BitVec w) (hroom : x.toNat + x.toNat < 2 ^ w) :
    Shadows x (run true [first, x]) (run false [x]) := by
  let ignored : StatVariable w := { Crt := x, NbSample_U64 := 1 }
  have hignored : run true [first, x] =
      { ignored.updateExtremes with MeanAcc := ignored.updateExtremes.Crt }.accumulate := by
    have hcount := (updateExtremes_mean ignored).2.2.2
    have hnonzero : ¬ (true = true ∧ ignored.updateExtremes.NbSample_U64 = 0) := by
      rw [hcount]
      exact fun hzero => absurd (show (1 : UInt64) = 0 from hzero.2) (by decide)
    show updateStatMean true ignored.updateExtremes = _
    rw [updateStatMean, if_neg hnonzero, if_pos ⟨rfl, hcount⟩]
  have hfirst : run false [x] = (firstSample x).accumulate := rfl
  have hmin : ignored.updateExtremes.Min = x := updateExtremes_Min_of_allOnes rfl
  have hmax : ignored.updateExtremes.Max = x := updateExtremes_Max_of_zero rfl
  obtain ⟨hcrt, -, -, hcount⟩ := updateExtremes_mean ignored
  obtain ⟨hacc, hnb⟩ := accumulate_firstSample x
  rw [hignored, hfirst]
  generalize ignored.updateExtremes = u at hmin hmax hcrt hcount
  have hcrt' : u.Crt = x := hcrt
  have hone : u.NbSample_U64.toNat = 1 := by rw [hcount]; rfl
  obtain ⟨hacc', hnb'⟩ := accumulate_room (s := { u with MeanAcc := u.Crt })
    (by dsimp only; rw [hcrt']; exact hroom) (by dsimp only; omega)
  dsimp only at hacc' hnb'
  constructor
  · rw [accumulate_Min, accumulate_Min]
    exact hmin
  · rw [accumulate_Max, accumulate_Max]
    exact hmax
  · rw [hnb', hnb, hone]
  · rw [hacc', hacc, hcrt']
  · exact accumulate_mean _

theorem Shadows.step (h : Shadows x s t) (ht : 0 < t.NbSample_U64.toNat) {y : BitVec w}
    (hacc : t.MeanAcc.toNat + x.toNat + y.toNat < 2 ^ w) (hnb : t.NbSample_U64.toNat + 2 < 2 ^ 64) :
    Shadows x (s.updateStatVar true y) (t.updateStatVar false y) := by
  have hcounted := h.counted
  have hadded := h.added
  rw [updateStatVar_later (by omega) (fun _ => by omega), @updateStatVar_later w t false ht nofun]
  have hmin : { s with Crt := y }.updateExtremes.Min = { t with Crt := y }.updateExtremes.Min := by
    rw [updateExtremes_Min, updateExtremes_Min]
    dsimp only
    rw [h.Min]
  have hmax : { s with Crt := y }.updateExtremes.Max = { t with Crt := y }.updateExtremes.Max := by
    rw [updateExtremes_Max, updateExtremes_Max]
    dsimp only
    rw [h.Max]
  obtain ⟨hscrt, hsacc, -, hsnb⟩ := updateExtremes_mean { s with Crt := y }
  obtain ⟨htcrt, htacc, -, htnb⟩ := updateExtremes_mean { t with Crt := y }
  generalize { s with Crt := y }.updateExtremes = u at hmin hscrt hsacc hsnb hmax
  generalize { t with Crt := y }.updateExtremes = v at hmin htcrt htacc htnb hmax
  dsimp only at hscrt hsacc hsnb htcrt htacc htnb
  obtain ⟨huacc, hunb⟩ := accumulate_room (s := u) (by rw [hsacc, hscrt]; omega) (by rw [hsnb]; omega)
  obtain ⟨hvacc, hvnb⟩ := accumulate_room (s := v) (by rw [htacc, htcrt]; omega) (by rw [htnb]; omega)
  constructor
  · rw [accumulate_Min, accumulate_Min, hmin]
  · rw [accumulate_Max, accumulate_Max, hmax]
  · rw [hunb, hvnb, hsnb, htnb, hcounted]
  · rw [huacc, hvacc, hsacc, htacc, hscrt, htcrt]
    omega
  · exact accumulate_mean _

theorem shadows_run (first x : BitVec w) (kept : List (BitVec w)) (hroom : x.toNat + sum (x :: kept) < 2 ^ w)
    (hlen : kept.length + 2 < 2 ^ 64) : Shadows x (run true (first :: x :: kept)) (run false (x :: kept)) := by
  induction kept using List.reverseRecOn with
  | nil => exact shadows_first first x (by simpa [sum] using hroom)
  | append_singleton kept y ih =>
    rw [← List.cons_append, sum_concat] at hroom
    rw [List.length_append, List.length_singleton] at hlen
    have htracks := tracks_run (List.cons_ne_nil x kept)
    obtain ⟨hacc, hnb⟩ := htracks.exact (by omega) (by rw [List.length_cons]; omega)
    rw [List.length_cons] at hnb
    have hstep := (ih (by omega) (by omega)).step htracks.counted (y := y) (by omega) (by omega)
    rw [← List.cons_append, ← List.cons_append, run, run, List.foldl_append, List.foldl_append]
    exact hstep

/-- The quotient of a sum that gets larger by a sample stays the same exactly if the sample is near the mean. -/
theorem div_succ_eq_iff {a sum n : Nat} :
    (sum + a) / (n + 1) = sum / n ↔ sum / n ≤ a + sum % n ∧ a + sum % n ≤ sum / n + n := by
  have hsplit := Nat.div_add_mod sum n
  generalize hq : sum / n = q at hsplit ⊢
  generalize sum % n = r at hsplit ⊢
  have hmul : (n + 1) * q = n * q + q := Nat.succ_mul n q
  constructor
  · intro heq
    have hle := Nat.div_mul_le_self (sum + a) (n + 1)
    have hlt := Nat.lt_mul_div_succ (sum + a) (Nat.succ_pos n)
    rw [heq] at hle hlt
    rw [Nat.mul_comm] at hle
    rw [Nat.succ_eq_add_one, Nat.mul_succ] at hlt
    omega
  · rintro ⟨hlow, hhigh⟩
    refine Nat.div_eq_of_lt_le ?_ ?_
    · rw [Nat.mul_comm]
      omega
    · rw [Nat.mul_comm, Nat.mul_succ]
      omega

/-- Ignoring the first sample is leaving it out exactly if the second one is near the mean. -/
theorem sameStatistics_iff (first x : BitVec w) (kept : List (BitVec w)) (hroom : x.toNat + sum (x :: kept) < 2 ^ w)
    (hlen : (first :: x :: kept).length < 2 ^ 64) :
    SameStatistics (run true (first :: x :: kept)) (run false (x :: kept)) ↔ NearMean x (x :: kept) := by
  rw [List.length_cons, List.length_cons] at hlen
  have hshadows := shadows_run first x kept hroom hlen
  have htracks := tracks_run (List.cons_ne_nil x kept)
  obtain ⟨hacc, hnb⟩ := htracks.exact (by omega) (by rw [List.length_cons]; omega)
  have hmean : (run true (first :: x :: kept)).Mean = (run false (x :: kept)).Mean ↔ NearMean x (x :: kept) := by
    rw [← BitVec.toNat_inj, hshadows.mean, htracks.mean, hshadows.added, hshadows.counted, hacc, hnb]
    exact div_succ_eq_iff
  exact ⟨fun h => hmean.mp h.Mean, fun h => ⟨hshadows.Min, hshadows.Max, hmean.mpr h⟩⟩

/-- Samples of about the same size. -/
theorem sameStatistics_near : SameStatistics (run true [9#8, 4#8, 5#8]) (run false [4#8, 5#8]) :=
  (sameStatistics_iff 9#8 4#8 [5#8] (by decide) (by decide)).mpr (by decide)

/-- The mean of 0 and 2 is 0 if the sample in front of them is ignored. -/
theorem not_sameStatistics_zero_two : ¬ SameStatistics (run true [9#8, 0#8, 2#8]) (run false [0#8, 2#8]) := by
  intro h
  exact absurd h.Mean (by decide)

end StatVariable

end BofStd
